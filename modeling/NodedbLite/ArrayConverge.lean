import NodedbLite.ArrayHistory

/-! Replicas that apply the same ops in different orders. An op is known by its HLC, a version
by its coordinate and system time: ops in slots of their own commute up to the surrogates,
which every replica numbers in the order of its own first puts. -/
namespace NodedbLite.Arrays

variable {Coord Attr : Type} [LinearOrder Coord]

lemma Agree.refl_create (flushThreshold : Nat) (name : String) (schema : ArraySchema Coord)
    (env : ArrayEnv Coord Attr) :
    Agree ((ArrayDb.init flushThreshold).call env (.create name schema none))
      ((ArrayDb.init flushThreshold).unflushed (.create name schema none)) :=
  (agree_init flushThreshold).create name schema none env

lemma holds_withNewArray (flushThreshold : Nat) {name : String} (hname : '\x00' ∉ name.toList)
    (schema : ArraySchema Coord) (schemaHlc : Hlc) (env : ArrayEnv Coord Attr) :
    ∃ plain, Holds name schema [] []
      (Replica.withNewArray flushThreshold name schema schemaHlc : Replica Coord Attr).db plain := by
  refine ⟨_, Agree.refl_create flushThreshold name schema env,
    ⟨⟨schema, .new, .new, none, ⟨.empty, []⟩⟩, ?_, rfl, rfl, ⟨?_, ?_⟩, ?_⟩, ?_, ?_, .nil⟩
  · dsimp only [ArrayDb.unflushed, ArrayDb.createArray]
    rw [if_neg (by simp [ArrayDb.init]), if_neg hname]
    exact (SortedMap.get_insert ..).trans (if_pos rfl)
  · dsimp only [ArrayDb.unflushed, ArrayDb.createArray]
    rw [if_neg (by simp [ArrayDb.init]), if_neg hname]
    rfl
  · intro coord
    rfl
  · exact List.Perm.nil
  · intro op hop
    cases hop
  · intro op hop
    cases hop

/-- No two ops of a set write one coordinate at one system time. -/
def OwnSlots (ops : List (ArrayOp Coord Attr)) : Prop :=
  ∀ a ∈ ops, ∀ b ∈ ops, SameSlot a b → a = b

/-- The HLCs of the ops of a set are distinct. -/
def DistinctHlcs (ops : List (ArrayOp Coord Attr)) : Prop :=
  ∀ a ∈ ops, ∀ b ∈ ops, a.hlc = b.hlc → a = b

/-- Where a replica stands after some deliveries: its op log holds each delivered op once, and
the engine holds the ops of the log. -/
structure Delivered (name : String) (schema : ArraySchema Coord)
    (delivered : List (ArrayOp Coord Attr)) (r : Replica Coord Attr) : Prop where
  holds : ∃ plain, Holds name schema (putOrder delivered) r.opLog r.db plain
  logged : ∀ op, op ∈ r.opLog ↔ op ∈ delivered

lemma notePut_eq_self {puts : List Coord} {op : ArrayOp Coord Attr}
    (h : op.kind = .put → op.coord ∈ puts) : notePut puts op = puts := by
  unfold notePut
  split
  next hput => rw [noted, if_pos (h hput)]
  next => rfl

lemma putOrder_append (ops : List (ArrayOp Coord Attr)) (op : ArrayOp Coord Attr) :
    putOrder (ops ++ [op]) = notePut (putOrder ops) op := by
  unfold putOrder
  rw [List.foldl_append, List.foldl_cons, List.foldl_nil]

lemma Delivered.step {name : String} {schema : ArraySchema Coord}
    {delivered ops : List (ArrayOp Coord Attr)} {r r' : Replica Coord Attr}
    (h : Delivered name schema delivered r) (harray : ∀ op ∈ ops, op.array = name)
    (hhlcs : DistinctHlcs ops) (hslots : OwnSlots ops) (hsub : ∀ op ∈ delivered, op ∈ ops)
    {A : ApplyOp Coord Attr} {env : ArrayEnv Coord Attr} {nowMs : Int} {op : ArrayOp Coord Attr}
    (hop : op ∈ ops)
    (hstep : r.receive A env (nowMs, op) = some r') :
    Delivered name schema (delivered ++ [op]) r' := by
  obtain ⟨plain, hholds⟩ := h.holds
  have hlog : ∀ o ∈ r.opLog, o ∈ ops := fun o ho => hsub o ((h.logged o).mp ho)
  rcases Replica.receive_cases hstep with ⟨rfl, o, ho, hhlc⟩ | ⟨hnew, hok, hdb, hopLog⟩
  · -- delivered before: the log has an op with this HLC, which is this op
    obtain rfl := hhlcs o (hlog o ho) op hop hhlc
    refine ⟨⟨plain, ?_⟩, ?_⟩
    · rw [putOrder_append, notePut_eq_self (hholds.puts o ho)]
      exact hholds
    · intro o'
      rw [h.logged, List.mem_append, List.mem_singleton]
      constructor
      · exact Or.inl
      · rintro (hmem | rfl)
        · exact hmem
        · exact (h.logged _).mp ho
  · have hown : ∀ o ∈ r.opLog, ¬ SameSlot o op := by
      intro o ho hslot
      obtain rfl := hslots o (hlog o ho) op hop hslot
      exact hnew o ho rfl rfl
    have haccepts : Accepts schema (putOrder delivered) op := by
      by_contra hrefused
      obtain ⟨e, he⟩ := hholds.applyKind_refused (harray op hop) hrefused env nowMs
      rw [he] at hok
      cases hok
    have hholds' := hholds.applyKind_accepted (harray op hop) hown haccepts env nowMs
    refine ⟨⟨plain.unflushed (op.label nowMs), ?_⟩, ?_⟩
    · rw [putOrder_append, hopLog, hdb]
      exact hholds'
    · intro o
      rw [hopLog, List.mem_append, List.mem_append, h.logged]

lemma Delivered.run {name : String} {schema : ArraySchema Coord}
    {delivered ops : List (ArrayOp Coord Attr)} {r r' : Replica Coord Attr}
    (h : Delivered name schema delivered r) (harray : ∀ op ∈ ops, op.array = name)
    (hhlcs : DistinctHlcs ops) (hslots : OwnSlots ops) (hsub : ∀ op ∈ delivered, op ∈ ops)
    {A : ApplyOp Coord Attr} {env : ArrayEnv Coord Attr}
    {deliveries : List (Int × ArrayOp Coord Attr)} (hops : ∀ d ∈ deliveries, d.2 ∈ ops)
    (hrun : GuardedRun.runAll (Replica.receive A env) r deliveries = some r') :
    Delivered name schema (delivered ++ deliveries.map Prod.snd) r' := by
  induction deliveries generalizing delivered r with
  | nil =>
    obtain rfl := Option.some.inj hrun
    rw [List.map_nil, List.append_nil]
    exact h
  | cons d rest ih =>
    obtain ⟨r₁, hr₁, hrest⟩ := Option.bind_eq_some_iff.mp hrun
    have hd := hops d List.mem_cons_self
    have hone := h.step harray hhlcs hslots hsub hd hr₁
    have hall := ih hone (fun op hop => ?_) (fun e he => hops e (List.mem_cons_of_mem _ he)) hrest
    · rw [List.append_assoc, List.singleton_append] at hall
      rw [List.map_cons]
      exact hall
    · rcases List.mem_append.mp hop with hop | hop
      · exact hsub op hop
      · rw [List.mem_singleton.mp hop]
        exact hd

lemma delivered_of_run {name : String} (hname : '\x00' ∉ name.toList)
    {schema : ArraySchema Coord} {ops : List (ArrayOp Coord Attr)}
    (harray : ∀ op ∈ ops, op.array = name) (hhlcs : DistinctHlcs ops) (hslots : OwnSlots ops)
    {A : ApplyOp Coord Attr} {env : ArrayEnv Coord Attr} {threshold : Nat} {schemaHlc : Hlc}
    {deliveries : List (Int × ArrayOp Coord Attr)} (hops : ∀ d ∈ deliveries, d.2 ∈ ops)
    {r : Replica Coord Attr}
    (hrun : GuardedRun.runAll (Replica.receive A env)
      (.withNewArray threshold name schema schemaHlc) deliveries = some r) :
    Delivered name schema (deliveries.map Prod.snd) r := by
  have hnew : Delivered name schema []
      (.withNewArray threshold name schema schemaHlc : Replica Coord Attr) :=
    ⟨holds_withNewArray threshold hname schema schemaHlc env, fun _ => Iff.rfl⟩
  exact hnew.run harray hhlcs hslots (fun op hop => absurd hop List.not_mem_nil) hops hrun

/-- The payload without its surrogate. -/
def CellPayload.content (p : CellPayload Attr) : Int × Int × List Attr :=
  (p.validFromMs, p.validUntilMs, p.attrs)

/-- The results of a read up to the surrogate. -/
def contentOf (result : Except LiteError (Option (CellPayload Attr))) :
    Except LiteError (Option (Int × Int × List Attr)) :=
  result.map (Option.map CellPayload.content)

lemma ArrayOp.content_value (op : ArrayOp Coord Attr) (puts puts' : List Coord) :
    (op.value puts).map CellPayload.content = (op.value puts').map CellPayload.content := by
  unfold ArrayOp.value
  cases op.kind <;> rfl

lemma latestOp_eq_of_perm {ops ops' : List (ArrayOp Coord Attr)} (hperm : ops.Perm ops')
    (hslots : ops.Pairwise (fun a b => ¬ SameSlot a b)) (coord : Coord) (t : Int) :
    latestOp ops coord t = latestOp ops' coord t :=
  NewestSort.newest_eq_of_perm _ _ (hperm.filter _) (nodup_visibleOps hslots coord t)

lemma contentOf_readOps_eq {schema : ArraySchema Coord} {ops ops' : List (ArrayOp Coord Attr)}
    (hperm : ops.Perm ops') (hslots : ops.Pairwise (fun a b => ¬ SameSlot a b))
    (puts puts' : List Coord) (coord : Coord) (t : Int) :
    contentOf (readOps schema puts ops coord t) = contentOf (readOps schema puts' ops' coord t) := by
  unfold readOps contentOf
  rw [latestOp_eq_of_perm hperm hslots]
  cases schema.tilePrefix coord with
  | error e => rfl
  | ok p =>
    cases latestOp ops' coord t with
    | none => rfl
    | some op => exact congrArg Except.ok (op.content_value puts puts')

lemma latestOp_self {ops : List (ArrayOp Coord Attr)}
    (hslots : ops.Pairwise (fun a b => ¬ SameSlot a b)) {op : ArrayOp Coord Attr} (hop : op ∈ ops) :
    latestOp ops op.coord op.systemFromMs = some op := by
  have hvisible : op ∈ visibleOps ops op.coord op.systemFromMs :=
    List.mem_filter.mpr ⟨hop, by simp⟩
  apply NewestSort.newest_eq_some_of_lt hvisible
  intro o ho hne
  have hle := of_decide_eq_true (List.mem_filter.mp ho).2
  apply lt_of_le_of_ne hle.2
  intro heq
  exact hne (List.inj_on_of_nodup_map (nodup_visibleOps hslots _ _) ho hvisible heq)

lemma mem_notePut {puts : List Coord} {op : ArrayOp Coord Attr} {coord : Coord} :
    coord ∈ notePut puts op ↔ coord ∈ puts ∨ op.kind = .put ∧ op.coord = coord := by
  unfold notePut noted
  split
  next hput =>
    split
    next hmem =>
      constructor
      · exact Or.inl
      · rintro (h | ⟨_, rfl⟩)
        · exact h
        · exact hmem
    next => simp [hput, eq_comm]
  next hput => simp [hput]

lemma mem_putOrder {ops : List (ArrayOp Coord Attr)} {coord : Coord} :
    coord ∈ putOrder ops ↔ ∃ op ∈ ops, op.kind = .put ∧ op.coord = coord := by
  induction ops using List.reverseRecOn with
  | nil => simp [putOrder]
  | append_singleton ops op ih =>
    rw [putOrder_append, mem_notePut, ih]
    simp only [List.mem_append, List.mem_singleton, or_and_right, exists_or, exists_eq_left]

lemma nodup_putOrder (ops : List (ArrayOp Coord Attr)) : (putOrder ops).Nodup := by
  induction ops using List.reverseRecOn with
  | nil => exact List.nodup_nil
  | append_singleton ops op ih =>
    rw [putOrder_append]
    unfold notePut noted
    split
    next =>
      split
      next => exact ih
      next hmem => exact List.nodup_append.mpr ⟨ih, List.nodup_singleton _, by
        intro a ha b hb heq
        rw [List.mem_singleton.mp hb] at heq
        exact hmem (heq ▸ ha)⟩
    next => exact ih

lemma eq_of_idxOf_eq {l l' : List Coord} (hl : l.Nodup) (hl' : l'.Nodup)
    (hmem : ∀ c, c ∈ l ↔ c ∈ l') (hidx : ∀ c ∈ l, l.idxOf c = l'.idxOf c) : l = l' := by
  have hlength : l.length = l'.length := ((List.perm_ext_iff_of_nodup hl hl').mpr hmem).length_eq
  apply List.ext_getElem hlength
  intro i hi hi'
  have hplace := hidx (l[i]) (List.getElem_mem hi)
  rw [hl.idxOf_getElem i hi] at hplace
  have hin : l[i] ∈ l' := (hmem _).mp (List.getElem_mem hi)
  have hlt : l'.idxOf l[i] < l'.length := List.idxOf_lt_length_iff.mpr hin
  have hget := List.getElem_idxOf hlt
  rw [← hget]
  congr 1
  omega

omit [LinearOrder Coord] in
lemma nodup_of_slots {ops : List (ArrayOp Coord Attr)}
    (h : ops.Pairwise (fun a b => ¬ SameSlot a b)) : ops.Nodup := by
  apply h.imp
  rintro a b hslot rfl
  exact hslot ⟨rfl, rfl⟩

/-- A put of one attribute, valid from 0 to 100. -/
def onePut (hlc : Hlc) (coord : Nat) (attr : Nat) (systemFromMs : Int) : ArrayOp Nat Nat :=
  ⟨"a", hlc, .mk 1 0 0, 0, 100, systemFromMs, .put, coord, some [attr]⟩

/-- The laws leave nothing else to `apply_op` but the reason of a rejection. -/
def directApply : ApplyOp Nat Nat where
  run env nowMs r op :=
    if r.knows op then
      if r.alreadySeen op.array op.hlc then some (.ok .idempotent, r)
      else (r.applyMethod env nowMs op).map fun out => (out.1.map fun _ => .applied, out.2)
    else some (.ok (.rejected .schemaTooNew), r)
  rejects env nowMs r op hknows := ⟨.schemaTooNew, by simp [hknows]⟩
  repeats env nowMs r op hknows hseen := by simp [hknows, hseen]
  applies env nowMs r op hknows hseen := by simp [hknows, hseen]

end NodedbLite.Arrays
