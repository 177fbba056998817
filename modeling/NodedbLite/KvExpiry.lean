import NodedbLite.KvOps
import NodedbLite.KvPaging

/-! Two runs of one key-value operation, on a store and on the same store with expired entries
added where it holds nothing. -/
namespace NodedbLite.Kv

variable {Patch CounterShape : Type}

inductive KvOp (Patch CounterShape : Type)
  | get (key : Bytes)
  | getTtl (key : Bytes)
  | batchGet (keys : List Bytes)
  | fieldGet (key : Bytes) (fields : List String)
  | scan (cursor : Bytes) (count : Nat) (matchPattern : Bytes → Bool)
  | put (key value : Bytes) (ttlMs : UInt64)
  | insert (key value : Bytes) (ttlMs : UInt64)
  | insertIfAbsent (key value : Bytes) (ttlMs : UInt64)
  | insertOnConflictUpdate (key value : Bytes) (ttlMs : UInt64) (updates : List (String × Patch))
  | delete (keys : List Bytes)
  | incr (key : Bytes) (delta : Int64) (ttlMs : UInt64) (shape : CounterShape)
  | incrFloat (key : Bytes) (delta : String) (shape : CounterShape)
  | cas (key expected newValue : Bytes)
  | getSet (key newValue : Bytes)
  | fieldSet (key : Bytes) (updates : List (String × Bytes)) (ifPresent : Bool)
  | expire (key : Bytes) (ttlMs : UInt64)
  | persist (key : Bytes)
  | transfer (sourceKey destKey : Bytes) (field : String) (amount : Binary64)

/-- Run one operation: its answer and the store it leaves. -/
def KvOp.run (W : Shared Patch CounterShape) (op : KvOp Patch CounterShape) (store : Store)
    (now : UInt64) (collection : String) : Except LiteError QueryResult × Store :=
  match op with
  | .get key => (.ok (kvGetRow store now collection key), store)
  | .getTtl key => (.ok (kvGetTtl store now collection key), store)
  | .batchGet keys => (.ok (kvBatchGet store now collection keys), store)
  | .fieldGet key fields => commitPlan store (kvFieldGet W store now collection key fields)
  | .scan cursor count matchPattern =>
    (.ok (kvScan store now collection cursor count matchPattern), store)
  | .put key value ttlMs => commitPlan store (.ok (kvPut now collection key value ttlMs "UPSERT"))
  | .insert key value ttlMs => commitPlan store (kvInsert store now collection key value ttlMs)
  | .insertIfAbsent key value ttlMs =>
    commitPlan store (kvInsertIfAbsent store now collection key value ttlMs)
  | .insertOnConflictUpdate key value ttlMs updates =>
    commitPlan store (kvInsertOnConflictUpdate W store now collection key value ttlMs updates)
  | .delete keys => commitPlan store (.ok (kvDeleteKeys collection keys))
  | .incr key delta ttlMs shape =>
    commitPlan store (kvIncr W store now collection key delta ttlMs shape)
  | .incrFloat key delta shape => commitPlan store (kvIncrFloat W store now collection key delta shape)
  | .cas key expected newValue => commitPlan store (kvCas W store now collection key expected newValue)
  | .getSet key newValue => commitPlan store (kvGetSet W store now collection key newValue)
  | .fieldSet key updates ifPresent =>
    commitPlan store (kvFieldSet W store now collection key updates ifPresent)
  | .expire key ttlMs => commitPlan store (kvExpire store now collection key ttlMs)
  | .persist key => commitPlan store (kvPersist store collection key)
  | .transfer sourceKey destKey field amount =>
    commitPlan store (kvTransfer W store now collection sourceKey destKey field amount)

/-- The first store is the second with expired entries where that one holds nothing. -/
def ExpiredExtra (now : UInt64) (s t : Store) : Prop :=
  ∀ k, s.get k = t.get k ∨
    t.get k = none ∧ ∃ raw deadline body, s.get k = some raw ∧
      decodeValue raw = some (deadline, body) ∧ isExpired now deadline = true

/-- Same answer, and stores that again differ only in expired entries. -/
def SameOutcome (now : UInt64) (x y : Except LiteError QueryResult × Store) : Prop :=
  x.1 = y.1 ∧ ExpiredExtra now x.2 y.2

section Reads

variable {now : UInt64} {s t : Store} {W : Shared Patch CounterShape}

lemma ExpiredExtra.visible_eq (h : ExpiredExtra now s t) (k : Bytes) :
    visible now (s.get k) = visible now (t.get k) := by
  rcases h k with heq | ⟨hnone, raw, deadline, body, hraw, hdec, hexp⟩
  · rw [heq]
  · simp [visible, hnone, hraw, hdec, hexp]

lemma ExpiredExtra.liveDecoded_eq (h : ExpiredExtra now s t) (k : Bytes) :
    liveDecoded s now k = liveDecoded t now k := by
  rcases h k with heq | ⟨hnone, raw, deadline, body, hraw, hdec, hexp⟩
  · simp [liveDecoded, heq]
  · simp [liveDecoded, hnone, hraw, hdec, hexp]

lemma ExpiredExtra.readLive_eq (h : ExpiredExtra now s t) (k : Bytes) (corrupt : String) :
    readLive s now k corrupt = readLive t now k corrupt := by
  rcases h k with heq | ⟨hnone, raw, deadline, body, hraw, hdec, hexp⟩
  · simp [readLive, heq]
  · simp [readLive, hnone, hraw, hdec, hexp]

lemma ExpiredExtra.readCurrent_eq (h : ExpiredExtra now s t) (k : Bytes) :
    readCurrent s now k = readCurrent t now k := by
  rw [readCurrent, readCurrent, h.readLive_eq]

lemma ExpiredExtra.kvGetTtl_eq (h : ExpiredExtra now s t) (collection : String) (key : Bytes) :
    kvGetTtl s now collection key = kvGetTtl t now collection key := by
  rcases h (kvKey collection key) with heq | ⟨hnone, raw, deadline, body, hraw, hdec, hexp⟩
  · simp [kvGetTtl, heq]
  · obtain ⟨hne, hle⟩ : deadline ≠ 0 ∧ deadline ≤ now := by simpa [isExpired] using hexp
    simp [kvGetTtl, hnone, hraw, hdec, hne, hle]

lemma ExpiredExtra.writeAll (h : ExpiredExtra now s t) (ops : List WriteOp) :
    ExpiredExtra now (s.writeAll ops) (t.writeAll ops) := by
  intro k
  rw [SortedMap.get_writeAll, SortedMap.get_writeAll]
  cases SortedMap.lastWrite ops k with
  | none => simpa using h k
  | some v => exact .inl rfl

lemma sameOutcome_commitPlan (h : ExpiredExtra now s t) {p q : Planned} (hpq : p = q) :
    SameOutcome now (commitPlan s p) (commitPlan t q) := by
  subst hpq
  cases p with
  | error e => exact ⟨rfl, h⟩
  | ok r => exact ⟨rfl, h.writeAll r.2⟩

end Reads

section Scan

variable {now : UInt64} {s t : Store} {collection : String} {cursor : Bytes} {count : Nat}
  {keep : Bytes → Bool}

lemma kvScan_rows (store : Store) (hname : 0 ∉ Bytes.ofString collection) :
    kvScan store now collection cursor count keep =
      ⟨["key", "value"], (((entriesFrom store collection cursor).take count).filterMap
        (liveKept now keep)).map (fun p => [.bytes p.1, .bytes p.2]), 0, none⟩ := by
  obtain ⟨foreign, hfrom, hforeign⟩ := fromKey_kvKey store collection cursor
  set stop : Bytes × Bytes → Bool := fun e =>
    (some (Bytes.ofString collection ++ [1])).all (fun b => e.1 < b) with hstop
  have hown : ((entriesFrom store collection cursor).map (ownEntry collection)).filter stop =
      (entriesFrom store collection cursor).map (ownEntry collection) := by
    rw [List.filter_eq_self]
    intro e he
    obtain ⟨u, _, rfl⟩ := List.mem_map.mp he
    have hlt : (0 :: u.1 : Bytes) < [1] := by
      rw [List.cons_lt_cons_iff]
      exact .inl (by decide)
    simpa [hstop, ownEntry, kvKey] using hlt
  obtain ⟨r, hr, hsub⟩ := capped_append_map (ownEntry collection) (some count)
    (entriesFrom store collection cursor) (foreign.filter stop)
  have hwindow : scanRangeBounded store (kvKey collection cursor)
      (some (Bytes.ofString collection ++ [1])) (some count) =
        ((entriesFrom store collection cursor).take count).map (ownEntry collection) ++ r := by
    rw [scanRangeBounded, hfrom, List.filter_append]
    exact (congrArg (fun l => capped (some count) (l ++ foreign.filter stop)) hown).trans hr
  have hr' : ∀ e ∈ r, ∀ u, e.1 ≠ kvKey collection u :=
    fun e he => hforeign e (List.mem_of_mem_filter (hsub he))
  rw [kvScan, hwindow, scanLoop_pairs hname hr' ⟨[], []⟩ (by simp)]
  rfl

lemma kvScan_rows_of_nul (store : Store) (hname : 0 ∈ Bytes.ofString collection) :
    kvScan store now collection cursor count keep = ⟨["key", "value"], [], 0, none⟩ := by
  rw [kvScan, scanLoop_foreign]
  · rfl
  · exact fun e _ u hu => (eq_kvKey_of_splitKvKey hu).2 hname

lemma liveKept_fst {e p : Bytes × Bytes} (h : liveKept now keep e = some p) : p.1 = e.1 :=
  liveEntry_fst (Option.filter_eq_some_iff.mp h).1

lemma ExpiredExtra.entriesFrom_eq (h : ExpiredExtra now s t) (collection : String)
    (cursor : Bytes) :
    entriesFrom t collection cursor = (entriesFrom s collection cursor).filter
      (fun e => (t.get (kvKey collection e.1)).isSome) := by
  have hfiltered : ((entriesFrom s collection cursor).filter
      (fun e => (t.get (kvKey collection e.1)).isSome)).Pairwise (fun a b => a.1 < b.1) :=
    (entriesFrom_sorted s collection cursor).filter _
  have hperm : (entriesFrom t collection cursor).Perm ((entriesFrom s collection cursor).filter
      (fun e => (t.get (kvKey collection e.1)).isSome)) := by
    refine (List.perm_ext_iff_of_nodup
      (SortedMap.nodup_of_sorted (entriesFrom_sorted t collection cursor))
      (SortedMap.nodup_of_sorted hfiltered)).mpr ?_
    intro e
    rw [List.mem_filter, mem_entriesFrom, mem_entriesFrom]
    rcases h (kvKey collection e.1) with heq | ⟨hnone, -⟩
    · rw [heq]
      constructor
      · rintro ⟨hget, hle⟩
        exact ⟨⟨hget, hle⟩, by simp [hget]⟩
      · exact fun hs => hs.1
    · simp [hnone]
  exact hperm.eq_of_pairwise (fun a b _ _ hab hba => absurd hab (lt_asymm hba))
    (entriesFrom_sorted t collection cursor) hfiltered

/-- Dropping entries that show nothing from a list leaves the shown part of a window alone
exactly when it pulls no shown entry into the window. -/
lemma filterMap_take_filter_iff {α β : Type*} {f : α → Option β} {p : α → Bool} {l : List α}
    (hl : l.Nodup) (hf : ∀ a ∈ l, p a = false → f a = none)
    (hinj : ∀ a ∈ l, ∀ b ∈ l, ∀ x, f a = some x → f b = some x → a = b) (n : Nat) :
    (l.take n).filterMap f = ((l.filter p).take n).filterMap f ↔
      ∀ a ∈ (l.filter p).take n, (f a).isSome → a ∈ l.take n := by
  have hshown : ∀ a ∈ l, (f a).isSome → p a = true := by
    intro a ha hsome
    by_contra hp
    rw [hf a ha (by simpa using hp)] at hsome
    simp at hsome
  have hdrop : (l.take n).filterMap f = ((l.take n).filter p).filterMap f := by
    rw [List.filterMap_filter]
    refine List.filterMap_congr ?_
    intro a ha
    split_ifs with hp
    · rfl
    · exact hf a (List.mem_of_mem_take ha) (by simpa using hp)
  obtain ⟨rest, hrest⟩ := (List.take_prefix n l).filter p
  have hshort : ((l.take n).filter p).length ≤ n :=
    (List.length_filter_le _ _).trans (List.length_take_le _ _)
  have htake : (l.filter p).take n = (l.take n).filter p ++
      rest.take (n - ((l.take n).filter p).length) := by
    rw [← hrest, List.take_append, List.take_of_length_le hshort]
  constructor
  · intro heq a ha hsome
    obtain ⟨x, hx⟩ := Option.isSome_iff_exists.mp hsome
    have hmem : x ∈ (l.take n).filterMap f := heq ▸ List.mem_filterMap.mpr ⟨a, ha, hx⟩
    obtain ⟨b, hb, hbx⟩ := List.mem_filterMap.mp hmem
    have hal : a ∈ l := List.mem_of_mem_filter (List.mem_of_mem_take ha)
    rwa [hinj a hal b (List.mem_of_mem_take hb) x hx hbx]
  · intro hall
    rw [hdrop, htake, List.filterMap_append, List.self_eq_append_right, List.filterMap_eq_nil_iff]
    intro a ha
    by_contra hne
    have hsome : (f a).isSome := Option.isSome_iff_ne_none.mpr hne
    have hwin : a ∈ (l.filter p).take n := htake ▸ List.mem_append_right _ ha
    have hin : a ∈ (l.take n).filter p :=
      List.mem_filter.mpr ⟨hall a hwin hsome,
        hshown a (List.mem_of_mem_filter (List.mem_of_mem_take hwin)) hsome⟩
    have hnodup : ((l.take n).filter p ++ rest).Nodup := hrest ▸ hl.filter _
    exact (List.nodup_append.mp hnodup).2.2 a hin a (List.mem_of_mem_take ha) rfl

end Scan

/-- What keeps an operation from telling the two stores apart: `EXPIRE` and `PERSIST` do not
touch an added entry, a transfer does not take from one, and no live row of a scan is pushed
out of its window by them. Every other operation never tells them apart. -/
def KvOp.Unaffected (op : KvOp Patch CounterShape) (now : UInt64) (s t : Store)
    (collection : String) : Prop :=
  match op with
  | .expire key _ => s.get (kvKey collection key) = t.get (kvKey collection key)
  | .persist key => s.get (kvKey collection key) = t.get (kvKey collection key)
  | .transfer sourceKey _ _ _ =>
    s.get (kvKey collection sourceKey) = t.get (kvKey collection sourceKey)
  | .scan cursor count matchPattern =>
    0 ∈ Bytes.ofString collection ∨
      ∀ e ∈ (entriesFrom t collection cursor).take count,
        (liveKept now matchPattern e).isSome → e ∈ (entriesFrom s collection cursor).take count
  | _ => True

section Outcomes

variable {now : UInt64} {s t : Store} {W : Shared Patch CounterShape} {collection : String}

lemma expired_ne_notFound (collection : String) :
    "Transfer: source key is expired" ≠ s!"Transfer: source key not found in '{collection}'" := by
  intro h
  have hexpired : "Transfer: source key is expired".length = 31 := by decide
  have hfront : "Transfer: source key not found in '".length = 35 := by decide
  have hlen : (31 : Nat) = 35 + collection.length + 1 := by
    rw [← hexpired, ← hfront, h]
    simp only [String.length_append]
    rfl
  omega

lemma sameOutcome_rewriteDeadline_iff (h : ExpiredExtra now s t) (key : Bytes)
    (deadline : UInt64) :
    SameOutcome now (commitPlan s (rewriteDeadline s collection key deadline))
        (commitPlan t (rewriteDeadline t collection key deadline)) ↔
      s.get (kvKey collection key) = t.get (kvKey collection key) := by
  constructor
  · rintro ⟨hanswer, _⟩
    rcases h (kvKey collection key) with heq | ⟨hnone, raw, d, body, hraw, hdec, _⟩
    · exact heq
    · simp [commitPlan, rewriteDeadline, hnone, hraw, hdec, QueryResult.affected] at hanswer
  · intro heq
    refine sameOutcome_commitPlan h ?_
    simp only [rewriteDeadline, heq]

lemma sameOutcome_transfer_iff (h : ExpiredExtra now s t) (sourceKey destKey : Bytes)
    (field : String) (amount : Binary64) :
    SameOutcome now (commitPlan s (kvTransfer W s now collection sourceKey destKey field amount))
        (commitPlan t (kvTransfer W t now collection sourceKey destKey field amount)) ↔
      s.get (kvKey collection sourceKey) = t.get (kvKey collection sourceKey) := by
  constructor
  · rintro ⟨hanswer, _⟩
    rcases h (kvKey collection sourceKey) with heq | ⟨hnone, raw, d, body, hraw, hdec, hexp⟩
    · exact heq
    · have hs : kvTransfer W s now collection sourceKey destKey field amount =
          .error (.badRequest "Transfer: source key is expired") := by
        simp [kvTransfer, hraw, hdec, hexp, throw, throwThe, MonadExceptOf.throw, bind, Except.bind]
      have ht : kvTransfer W t now collection sourceKey destKey field amount =
          .error (.badRequest s!"Transfer: source key not found in '{collection}'") := by
        simp [kvTransfer, hnone, throw, throwThe, MonadExceptOf.throw]
      rw [hs, ht] at hanswer
      have htext := LiteError.badRequest.inj (Except.error.inj hanswer)
      exact absurd htext (expired_ne_notFound collection)
  · intro heq
    refine sameOutcome_commitPlan h ?_
    simp only [kvTransfer, heq, h.readLive_eq]

lemma sameOutcome_scan_iff (h : ExpiredExtra now s t) (cursor : Bytes) (count : Nat)
    (keep : Bytes → Bool) :
    SameOutcome now (KvOp.run W (.scan cursor count keep) s now collection)
        (KvOp.run W (.scan cursor count keep) t now collection) ↔
      KvOp.Unaffected (.scan cursor count keep : KvOp Patch CounterShape) now s t collection := by
  have hstate : ExpiredExtra now s t := h
  simp only [KvOp.run, KvOp.Unaffected, SameOutcome, Except.ok.injEq, hstate, and_true]
  by_cases hname : 0 ∈ Bytes.ofString collection
  · simp [kvScan_rows_of_nul _ hname, hname]
  · rw [kvScan_rows s hname, kvScan_rows t hname]
    have hinj : Function.Injective (fun p : Bytes × Bytes => [Value.bytes p.1, Value.bytes p.2]) := by
      intro p q hpq
      simpa [Prod.ext_iff] using hpq
    simp only [QueryResult.mk.injEq, true_and, and_true, hname, false_or,
      (List.map_injective_iff.mpr hinj).eq_iff]
    rw [h.entriesFrom_eq collection cursor]
    refine filterMap_take_filter_iff
      (SortedMap.nodup_of_sorted (entriesFrom_sorted s collection cursor)) ?_ ?_ count
    · intro e he hgone
      have hget := (mem_entriesFrom.mp he).1
      rcases h (kvKey collection e.1) with heq | ⟨_, raw, d, body, hraw, hdec, hexp⟩
      · rw [← heq, hget] at hgone
        simp at hgone
      · obtain rfl : e.2 = raw := Option.some.inj (hget.symm.trans hraw)
        simp [liveKept, liveEntry, hdec, hexp]
    · intro a ha b hb x hax hbx
      have hkey : a.1 = b.1 := (liveKept_fst hax).symm.trans (liveKept_fst hbx)
      have hga := (mem_entriesFrom.mp ha).1
      have hgb := (mem_entriesFrom.mp hb).1
      rw [hkey, hgb] at hga
      exact Prod.ext hkey (Option.some.inj hga).symm

/-- An operation cannot tell added expired entries from nothing exactly when it is unaffected
by them. -/
theorem kvOp_sameOutcome_iff (W : Shared Patch CounterShape) (op : KvOp Patch CounterShape)
    (now : UInt64) (s t : Store) (collection : String) (h : ExpiredExtra now s t) :
    SameOutcome now (op.run W s now collection) (op.run W t now collection) ↔
      op.Unaffected now s t collection := by
  cases op with
  | get key => simp [KvOp.run, KvOp.Unaffected, SameOutcome, kvGetRow, h.visible_eq, h]
  | getTtl key => simp [KvOp.run, KvOp.Unaffected, SameOutcome, h.kvGetTtl_eq, h]
  | batchGet keys => simp [KvOp.run, KvOp.Unaffected, SameOutcome, kvBatchGet, h.visible_eq, h]
  | fieldGet key fields =>
    exact iff_of_true (sameOutcome_commitPlan h (by simp only [kvFieldGet, h.readLive_eq])) trivial
  | scan cursor count keep => exact sameOutcome_scan_iff h cursor count keep
  | put key value ttlMs => exact iff_of_true (sameOutcome_commitPlan h rfl) trivial
  | insert key value ttlMs =>
    exact iff_of_true (sameOutcome_commitPlan h (by simp only [kvInsert, h.visible_eq])) trivial
  | insertIfAbsent key value ttlMs =>
    exact iff_of_true (sameOutcome_commitPlan h (by simp only [kvInsertIfAbsent, h.visible_eq]))
      trivial
  | insertOnConflictUpdate key value ttlMs updates =>
    exact iff_of_true (sameOutcome_commitPlan h
      (by simp only [kvInsertOnConflictUpdate, h.liveDecoded_eq])) trivial
  | delete keys => exact iff_of_true (sameOutcome_commitPlan h rfl) trivial
  | incr key delta ttlMs shape =>
    exact iff_of_true (sameOutcome_commitPlan h (by simp only [kvIncr, h.readCurrent_eq])) trivial
  | incrFloat key delta shape =>
    exact iff_of_true (sameOutcome_commitPlan h (by simp only [kvIncrFloat, h.readCurrent_eq]))
      trivial
  | cas key expected newValue =>
    exact iff_of_true (sameOutcome_commitPlan h (by simp only [kvCas, h.readCurrent_eq])) trivial
  | getSet key newValue =>
    exact iff_of_true (sameOutcome_commitPlan h (by simp only [kvGetSet, h.readCurrent_eq])) trivial
  | fieldSet key updates ifPresent =>
    exact iff_of_true (sameOutcome_commitPlan h (by simp only [kvFieldSet, h.readLive_eq])) trivial
  | expire key ttlMs => exact sameOutcome_rewriteDeadline_iff h key _
  | persist key => exact sameOutcome_rewriteDeadline_iff h key _
  | transfer sourceKey destKey field amount =>
    exact sameOutcome_transfer_iff h sourceKey destKey field amount

/-- One expired entry, and nothing in its place. -/
def expiredOne : Store := SortedMap.ofList [(kvKey "c" [97], encodeValue 1 [7])]

lemma expiredOne_extra : ExpiredExtra 5 expiredOne .empty := by
  intro k
  by_cases hk : k = kvKey "c" [97]
  · subst hk
    exact .inr ⟨rfl, encodeValue 1 [7], 1, [7], by decide +kernel, by decide +kernel, by decide⟩
  · refine .inl ?_
    exact (SortedMap.get_insert .empty (kvKey "c" [97]) k (encodeValue 1 [7])).trans (if_neg hk)

/-- `PERSIST` brings an expired entry back, and finds nothing where there is none. -/
theorem persist_revives_expired :
    ExpiredExtra 5 expiredOne .empty ∧
    (KvOp.run balShared (.persist [97]) expiredOne 5 "c").1 = .ok (.affected 1 none) ∧
    (KvOp.run balShared (.persist [97]) .empty 5 "c").1 = .ok (.affected 0 none) ∧
    visible 5 ((KvOp.run balShared (.persist [97]) expiredOne 5 "c").2.get (kvKey "c" [97])) =
      some [7] ∧
    ¬ SameOutcome 5 (KvOp.run balShared (.persist [97]) expiredOne 5 "c")
      (KvOp.run balShared (.persist [97]) .empty 5 "c") := by
  have hleft : (KvOp.run balShared (.persist [97]) expiredOne 5 "c").1 =
      .ok (.affected 1 none) := by decide +kernel
  have hright : (KvOp.run balShared (.persist [97]) .empty 5 "c").1 =
      .ok (.affected 0 none) := by decide +kernel
  refine ⟨expiredOne_extra, hleft, hright, by decide +kernel, ?_⟩
  rintro ⟨hanswer, _⟩
  rw [hleft, hright] at hanswer
  simp [QueryResult.affected] at hanswer

theorem insert_over_expired_as_over_nothing :
    SameOutcome 5 (KvOp.run balShared (.insert [97] [8] 0) expiredOne 5 "c")
      (KvOp.run balShared (.insert [97] [8] 0) .empty 5 "c") :=
  (kvOp_sameOutcome_iff balShared (.insert [97] [8] 0) 5 expiredOne .empty "c"
    expiredOne_extra).mpr trivial

end Outcomes

end NodedbLite.Kv
