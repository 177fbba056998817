import NodedbLite.ExceptFold
import NodedbLite.KvRow

/-! `kv_transfer`: the two rows it computes from two separate reads, and when it conserves
the sum of the transferred field. -/
namespace NodedbLite.Kv

open ExceptFold

variable {Patch CounterShape : Type} (W : Shared Patch CounterShape)

structure TransferRows where
  source : Bytes
  dest : Bytes

/-- The columns a transfer credits: none yet for an absent or empty destination. -/
def destColumns (collection : String) (dest : Option Bytes) : Except LiteError Row :=
  match dest.filter (fun b => !b.isEmpty) with
  | none => .ok .empty
  | some body => typedColumns W collection body "destination"

/-- Move `amount` of the numeric `field` from `source` to `dest`. -/
def computeTransfer (collection : String) (source : Bytes) (dest : Option Bytes) (field : String)
    (amount : Binary64) : Except LiteError TransferRows := do
  let sourceRow ← typedColumns W collection source "source"
  let some held ← numericField W collection sourceRow field
    | throw (.typeMismatch collection s!"field '{field}' is not numeric or missing")
  if held.lt amount then
    throw (.badRequest (s!"Transfer: insufficient balance in '{collection}': " ++
      s!"source has {W.floatText held}, need {W.floatText amount}"))
  let destRow ← destColumns W collection dest
  let destBalance ← numericField W collection destRow field
  let sourceBody ← encodeKvMap W (sourceRow.insert field (numericValue (held.sub amount)))
  let destBody ← encodeKvMap W
    (destRow.insert field (numericValue ((destBalance.getD (.finite 0)).add amount)))
  return ⟨sourceBody, destBody⟩

def kvTransfer (store : Store) (now : UInt64) (collection : String) (sourceKey destKey : Bytes)
    (field : String) (amount : Binary64) : Planned := do
  let srcRkey := kvKey collection sourceKey
  let dstRkey := kvKey collection destKey
  let some srcRaw := store.get srcRkey
    | throw (.badRequest s!"Transfer: source key not found in '{collection}'")
  let some (srcDeadline, srcBody) := decodeValue srcRaw
    | throw (.storage "corrupt KV entry: source")
  if isExpired now srcDeadline then
    throw (.badRequest "Transfer: source key is expired")
  let dstLive ← readLive store now dstRkey "corrupt KV entry: dest"
  let dstDeadline := dstLive.elim 0 Prod.fst
  let rows ← computeTransfer W collection srcBody (dstLive.map Prod.snd) field amount
  return (.affected 2 none,
    [.put srcRkey (encodeValue srcDeadline rows.source),
      .put dstRkey (encodeValue dstDeadline rows.dest)])

/-- The typed row a reader at `now` finds in a stored entry. -/
def entryRow (now : UInt64) (raw : Bytes) : Option Row :=
  match decodeValue raw with
  | none => none
  | some (deadline, body) =>
    if isExpired now deadline then none
    else match decodeKvMap W body with
      | .ok (some row) => some row
      | _ => none

def entryField (now : UInt64) (field : String) (raw : Bytes) : Option Value :=
  (entryRow W now raw).bind (fun row => row.get field)

/-- What an entry adds to the sum of a field: nothing without a live numeric value. -/
def entryBalance (now : UInt64) (field : String) (raw : Bytes) : ℚ :=
  ((entryField W now field raw).bind Value.exact).getD 0

def balance (store : Store) (now : UInt64) (collection field : String) (key : Bytes) : ℚ :=
  (store.get (kvKey collection key)).elim 0 (entryBalance W now field)

/-- The sum of a field over all rows of a collection. -/
def total (store : Store) (now : UInt64) (collection field : String) : ℚ :=
  ((collectionEntries store collection).map (fun e => entryBalance W now field e.2)).sum

lemma total_eq_sum (store : Store) (now : UInt64) (collection field : String) :
    total W store now collection field = store.sum (fun k raw =>
      if (kvKey collection []).isPrefixOf k then entryBalance W now field raw else 0) := by
  unfold total collectionEntries SortedMap.sum
  induction store.entries with
  | nil => rfl
  | cons e es ih =>
    by_cases hp : (kvKey collection []).isPrefixOf e.1 = true
    · simp only [List.filterMap_cons, hp, if_true, List.map_cons, List.sum_cons, ih]
    · simp only [List.filterMap_cons, hp, List.map_cons, List.sum_cons, ih, if_false,
        Bool.false_eq_true, zero_add]

lemma total_insert (store : Store) (now : UInt64) (collection field : String) (key raw : Bytes) :
    total W (store.insert (kvKey collection key) raw) now collection field =
      total W store now collection field + entryBalance W now field raw -
        balance W store now collection field key := by
  have hown : (kvKey collection []).isPrefixOf (kvKey collection key) = true :=
    isPrefixOf_kvKey_iff.mpr ⟨key, rfl⟩
  rw [total_eq_sum, total_eq_sum, SortedMap.sum_insert, balance]
  cases store.get (kvKey collection key) <;> simp [hown]

lemma balance_insert (store : Store) (now : UInt64) (collection field : String)
    (key raw k : Bytes) :
    balance W (store.insert (kvKey collection key) raw) now collection field k =
      if k = key then entryBalance W now field raw
      else balance W store now collection field k := by
  simp only [balance, SortedMap.get_insert, (kvKey_injective collection).eq_iff]
  split_ifs <;> rfl

variable {W}

lemma computeTransfer_ok {collection field : String} {source : Bytes} {dest : Option Bytes}
    {amount : Binary64} {rows : TransferRows}
    (h : computeTransfer W collection source dest field amount = .ok rows) :
    ∃ sourceRow held destRow destBalance,
      typedColumns W collection source "source" = .ok sourceRow ∧
      numericField W collection sourceRow field = .ok (some held) ∧
      held.lt amount = false ∧
      destColumns W collection dest = .ok destRow ∧
      numericField W collection destRow field = .ok destBalance ∧
      encodeKvMap W (sourceRow.insert field (numericValue (held.sub amount))) =
        .ok rows.source ∧
      encodeKvMap W (destRow.insert field
        (numericValue ((destBalance.getD (.finite 0)).add amount))) = .ok rows.dest := by
  unfold computeTransfer at h
  obtain ⟨sourceRow, hsource, h⟩ := bind_eq_ok.mp h
  obtain ⟨held, hheld, h⟩ := bind_eq_ok.mp h
  cases held with
  | none => simp [throw, throwThe, MonadExceptOf.throw] at h
  | some held =>
    cases hlt : held.lt amount with
    | true => simp [hlt, throw, throwThe, MonadExceptOf.throw, bind, Except.bind] at h
    | false =>
      simp only [hlt, Bool.false_eq_true, if_false] at h
      obtain ⟨destRow, hdest, h⟩ := bind_eq_ok.mp h
      obtain ⟨destBalance, hbal, h⟩ := bind_eq_ok.mp h
      obtain ⟨sourceBody, hsb, h⟩ := bind_eq_ok.mp h
      obtain ⟨destBody, hdb, h⟩ := bind_eq_ok.mp h
      obtain rfl := Except.ok.inj h
      exact ⟨sourceRow, held, destRow, destBalance, hsource, hheld, hlt, hdest, hbal, hsb, hdb⟩

lemma commitPlan_ok {store store' : Store} {p : Planned} {r : QueryResult}
    (h : commitPlan store p = (.ok r, store')) :
    ∃ ops, p = .ok (r, ops) ∧ store' = store.writeAll ops := by
  cases p with
  | error e => simp [commitPlan] at h
  | ok a =>
    simp only [commitPlan, Prod.mk.injEq, Except.ok.injEq] at h
    exact ⟨a.2, by rw [← h.1], h.2.symm⟩

lemma kvTransfer_ok {store : Store} {now : UInt64} {collection field : String}
    {sourceKey destKey : Bytes} {amount : Binary64} {r : QueryResult} {ops : List WriteOp}
    (h : kvTransfer W store now collection sourceKey destKey field amount = .ok (r, ops)) :
    ∃ srcRaw srcDeadline srcBody dstLive rows,
      store.get (kvKey collection sourceKey) = some srcRaw ∧
      decodeValue srcRaw = some (srcDeadline, srcBody) ∧
      isExpired now srcDeadline = false ∧
      readLive store now (kvKey collection destKey) "corrupt KV entry: dest" = .ok dstLive ∧
      computeTransfer W collection srcBody (dstLive.map Prod.snd) field amount = .ok rows ∧
      ops = [.put (kvKey collection sourceKey) (encodeValue srcDeadline rows.source),
        .put (kvKey collection destKey)
          (encodeValue (dstLive.elim 0 Prod.fst) rows.dest)] := by
  unfold kvTransfer at h
  cases hsrc : store.get (kvKey collection sourceKey) with
  | none => simp [hsrc, throw, throwThe, MonadExceptOf.throw] at h
  | some srcRaw =>
    cases hdec : decodeValue srcRaw with
    | none => simp [hsrc, hdec, throw, throwThe, MonadExceptOf.throw] at h
    | some d =>
      obtain ⟨srcDeadline, srcBody⟩ := d
      cases hexp : isExpired now srcDeadline with
      | true =>
        simp [hsrc, hdec, hexp, throw, throwThe, MonadExceptOf.throw, bind, Except.bind] at h
      | false =>
        simp only [hsrc, hdec, hexp, Bool.false_eq_true, if_false] at h
        obtain ⟨dstLive, hdst, h⟩ := bind_eq_ok.mp h
        obtain ⟨rows, hrows, h⟩ := bind_eq_ok.mp h
        obtain ⟨-, rfl⟩ := Prod.mk.inj (Except.ok.inj h)
        exact ⟨srcRaw, srcDeadline, srcBody, dstLive, rows, rfl, hdec, hexp, hdst, hrows, rfl⟩

/-- The field of both rows is finite, and every float the transfer computes is exact. -/
structure ExactTransfer (W : Shared Patch CounterShape) (store : Store) (now : UInt64)
    (collection : String) (sourceKey destKey : Bytes) (field : String) (amount : ℤ) : Prop where
  finite : ∀ key, key = sourceKey ∨ key = destKey → ∀ raw x,
    store.get (kvKey collection key) = some raw →
    entryField W now field raw = some (.float x) → ∃ q, x = .finite q
  held : Binary64.Representable (balance W store now collection field sourceKey)
  present : Binary64.Representable (balance W store now collection field destKey)
  debited : Binary64.Representable (balance W store now collection field sourceKey - amount)
  credited : Binary64.Representable (balance W store now collection field destKey + amount)

/-- A balance as `numeric_value` stores it. -/
def stored (q : ℚ) : ℚ := if q = 2 ^ 63 then 2 ^ 63 - 1 else q

lemma entryRow_of_decoded {now deadline : UInt64} {raw body : Bytes}
    (hdec : decodeValue raw = some (deadline, body)) (hlive : isExpired now deadline = false) :
    entryRow W now raw = match decodeKvMap W body with
      | .ok (some row) => some row
      | _ => none := by
  simp [entryRow, hdec, hlive]

lemma typedColumns_ok {collection what : String} {body : Bytes} {row : Row}
    (h : typedColumns W collection body what = .ok row) : decodeKvMap W body = .ok (some row) := by
  unfold typedColumns at h
  split at h
  · simp at h
  · rename_i r hr
    rw [hr, Except.ok.inj h]
  · simp at h

lemma numericField_exact {collection field : String} {row : Row} {x : Option Binary64}
    (h : numericField W collection row field = .ok x)
    (hfinite : ∀ y, row.get field = some (.float y) → ∃ q, y = .finite q)
    (hrep : Binary64.Representable (((row.get field).bind Value.exact).getD 0)) :
    x.getD (.finite 0) = .finite (((row.get field).bind Value.exact).getD 0) := by
  unfold numericField at h
  cases hget : row.get field with
  | none =>
    simp only [hget, Except.ok.injEq] at h
    subst h
    rfl
  | some v =>
    cases v with
    | float y =>
      obtain ⟨q, rfl⟩ := hfinite y hget
      simp only [hget, Except.ok.injEq] at h
      subst h
      rfl
    | integer i =>
      simp only [hget, Except.ok.injEq] at h
      subst h
      rw [hget] at hrep
      exact Binary64.ofRat_of_representable hrep
    | null => simp [hget] at h
    | bool b => simp [hget] at h
    | string t => simp [hget] at h
    | bytes b => simp [hget] at h
    | other n b => simp [hget] at h

lemma entryBalance_written (hW : RowsReadBack W) {now deadline : UInt64} {row : Row}
    {field : String} {body : Bytes} {q : ℚ} (hlive : isExpired now deadline = false)
    (henc : encodeKvMap W (row.insert field (numericValue (.finite q))) = .ok body) :
    entryBalance W now field (encodeValue deadline body) = stored q := by
  have hrow := entryRow_of_decoded (W := W) (decodeValue_encodeValue deadline body) hlive
  rw [decodeKvMap_encodeKvMap W hW henc] at hrow
  simp [entryBalance, entryField, hrow, exact_numericValue, stored]

lemma balance_of_row (field : String) {store : Store} {now : UInt64} {collection : String}
    {key raw : Bytes} {row : Row} (hget : store.get (kvKey collection key) = some raw)
    (hrow : entryRow W now raw = some row) :
    balance W store now collection field key = ((row.get field).bind Value.exact).getD 0 := by
  simp [balance, hget, entryBalance, entryField, hrow]

lemma balance_of_no_row {store : Store} {now : UInt64} {collection field : String} {key : Bytes}
    (h : ∀ raw, store.get (kvKey collection key) = some raw → entryRow W now raw = none) :
    balance W store now collection field key = 0 := by
  cases hget : store.get (kvKey collection key) with
  | none => simp [balance, hget]
  | some raw => simp [balance, hget, entryBalance, entryField, h raw hget]

lemma readLive_ok {store : Store} {now : UInt64} {rkey : Bytes} {corrupt : String}
    {live : Option (UInt64 × Bytes)} (h : readLive store now rkey corrupt = .ok live) :
    (live = none ∧ ∀ raw, store.get rkey = some raw → entryRow W now raw = none) ∨
    ∃ raw deadline body, live = some (deadline, body) ∧ store.get rkey = some raw ∧
      decodeValue raw = some (deadline, body) ∧ isExpired now deadline = false := by
  unfold readLive at h
  cases hget : store.get rkey with
  | none =>
    simp only [hget, Except.ok.injEq] at h
    exact .inl ⟨h.symm, by simp⟩
  | some raw =>
    cases hdec : decodeValue raw with
    | none => simp [hget, hdec] at h
    | some d =>
      obtain ⟨deadline, body⟩ := d
      simp only [hget, hdec] at h
      cases hexp : isExpired now deadline with
      | true =>
        simp only [hexp, if_true, Except.ok.injEq] at h
        refine .inl ⟨h.symm, ?_⟩
        rintro r ⟨rfl⟩
        simp [entryRow, hdec, hexp]
      | false =>
        simp only [hexp, Bool.false_eq_true, if_false, Except.ok.injEq] at h
        exact .inr ⟨raw, deadline, body, h.symm, rfl, hdec, hexp⟩

lemma destColumns_none {collection : String} : destColumns W collection none = .ok .empty := rfl

lemma destColumns_balance (hW : RowsReadBack W) (field : String) {store : Store} {now : UInt64}
    {collection : String} {key : Bytes} {live : Option (UInt64 × Bytes)} {row : Row}
    (hread : readLive store now (kvKey collection key) "corrupt KV entry: dest" = .ok live)
    (hcols : destColumns W collection (live.map Prod.snd) = .ok row) :
    balance W store now collection field key = ((row.get field).bind Value.exact).getD 0 ∧
    ∀ y, row.get field = some (.float y) → ∃ raw,
      store.get (kvKey collection key) = some raw ∧
      entryField W now field raw = some (.float y) := by
  rcases readLive_ok (W := W) hread with ⟨rfl, hnone⟩ | ⟨raw, deadline, body, rfl, hget, hdec, hexp⟩
  · rw [Option.map_none, destColumns_none] at hcols
    obtain rfl := Except.ok.inj hcols
    exact ⟨by simp [balance_of_no_row hnone], by simp⟩
  · have hrow := entryRow_of_decoded (W := W) hdec hexp
    by_cases hempty : body = []
    · subst hempty
      have hraw : decodeKvMap W [] = .ok none := by simp [decodeKvMap, hW.emptyRaw]
      rw [hraw] at hrow
      have hempty' : row = .empty := by
        simpa [destColumns] using (Except.ok.inj hcols).symm
      subst hempty'
      refine ⟨?_, by simp⟩
      rw [balance_of_no_row]
      · simp
      · intro r hr
        rw [hget] at hr
        rw [← Option.some.inj hr, hrow]
    · have hcols' : typedColumns W collection body "destination" = .ok row := by
        simpa [destColumns, Option.filter, hempty] using hcols
      rw [typedColumns_ok hcols'] at hrow
      refine ⟨balance_of_row field hget hrow, ?_⟩
      intro y hy
      exact ⟨raw, hget, by simp [entryField, hrow, hy]⟩

lemma kvTransfer_spec (hW : RowsReadBack W) {store store' : Store} {now : UInt64}
    {collection field : String} {sourceKey destKey : Bytes} {amount : ℤ} {r : QueryResult}
    (hok : commitPlan store (kvTransfer W store now collection sourceKey destKey field
      (.finite amount)) = (.ok r, store'))
    (hexact : ExactTransfer W store now collection sourceKey destKey field amount) :
    ∃ srcRaw dstRaw,
      store' = (store.insert (kvKey collection sourceKey) srcRaw).insert
        (kvKey collection destKey) dstRaw ∧
      entryBalance W now field srcRaw =
        stored (balance W store now collection field sourceKey - amount) ∧
      entryBalance W now field dstRaw =
        stored (balance W store now collection field destKey + amount) ∧
      (amount : ℚ) ≤ balance W store now collection field sourceKey := by
  obtain ⟨ops, hplan, rfl⟩ := commitPlan_ok hok
  obtain ⟨srcRaw, srcDeadline, srcBody, dstLive, rows, hsrc, hdec, hexp, hdst, hrows, rfl⟩ :=
    kvTransfer_ok hplan
  obtain ⟨sourceRow, held, destRow, destBalance, hcols, hheld, hlt, hdcols, hdbal, henc, hdenc⟩ :=
    computeTransfer_ok hrows
  have hrow := entryRow_of_decoded (W := W) hdec hexp
  rw [typedColumns_ok hcols] at hrow
  have hbal := balance_of_row field hsrc hrow
  have hheldEq : held = .finite (balance W store now collection field sourceKey) := by
    have hfloat : ∀ y, sourceRow.get field = some (.float y) → ∃ q, y = .finite q :=
      fun y hy => hexact.finite sourceKey (.inl rfl) srcRaw y hsrc (by simp [entryField, hrow, hy])
    rw [hbal]
    exact numericField_exact hheld hfloat (hbal ▸ hexact.held)
  obtain ⟨hdestBal, hdestFloat⟩ := destColumns_balance hW field hdst hdcols
  have hdestEq : destBalance.getD (.finite 0) =
      .finite (balance W store now collection field destKey) := by
    have hfloat : ∀ y, destRow.get field = some (.float y) → ∃ q, y = .finite q := by
      intro y hy
      obtain ⟨raw, hget, hfield⟩ := hdestFloat y hy
      exact hexact.finite destKey (.inr rfl) raw y hget hfield
    rw [hdestBal]
    exact numericField_exact hdbal hfloat (hdestBal ▸ hexact.present)
  have hdebit : held.sub (.finite amount) =
      .finite (balance W store now collection field sourceKey - amount) := by
    rw [hheldEq]
    have hrep := hexact.debited
    rw [sub_eq_add_neg] at hrep ⊢
    exact Binary64.ofRat_of_representable hrep
  have hcredit : (destBalance.getD (.finite 0)).add (.finite amount) =
      .finite (balance W store now collection field destKey + amount) := by
    rw [hdestEq]
    exact Binary64.ofRat_of_representable hexact.credited
  have hdstLive : isExpired now (dstLive.elim 0 Prod.fst) = false := by
    rcases readLive_ok (W := W) hdst with ⟨rfl, _⟩ | ⟨_, _, _, rfl, _, _, hlive⟩
    · rfl
    · exact hlive
  rw [hdebit] at henc
  rw [hcredit] at hdenc
  refine ⟨_, _, rfl, entryBalance_written hW hexp henc, entryBalance_written hW hdstLive hdenc, ?_⟩
  rw [hheldEq] at hlt
  simpa [Binary64.lt] using hlt

lemma stored_le (q : ℚ) : stored q ≤ q := by
  unfold stored
  split_ifs <;> linarith

lemma stored_eq_self_iff {q : ℚ} : stored q = q ↔ q ≠ 2 ^ 63 := by
  unfold stored
  split_ifs with h
  · constructor
    · intro hq
      linarith
    · exact fun hne => absurd h hne
  · simp [h]

lemma stored_nonneg_iff {q : ℚ} : 0 ≤ stored q ↔ 0 ≤ q := by
  unfold stored
  split_ifs with h
  · subst h
    norm_num
  · rfl

/-- The sum of the field is unchanged and no row's field turns negative. -/
def Conserves (W : Shared Patch CounterShape) (store store' : Store) (now : UInt64)
    (collection field : String) : Prop :=
  total W store' now collection field = total W store now collection field ∧
  ∀ key, 0 ≤ balance W store now collection field key →
    0 ≤ balance W store' now collection field key

lemma conserves_of_distinct {store : Store} {now : UInt64} {collection field : String}
    {sourceKey destKey srcRaw dstRaw : Bytes} {amount : ℤ} (hne : sourceKey ≠ destKey)
    (hsrc : entryBalance W now field srcRaw =
      stored (balance W store now collection field sourceKey - amount))
    (hdst : entryBalance W now field dstRaw =
      stored (balance W store now collection field destKey + amount))
    (henough : (amount : ℚ) ≤ balance W store now collection field sourceKey) :
    Conserves W store ((store.insert (kvKey collection sourceKey) srcRaw).insert
        (kvKey collection destKey) dstRaw) now collection field ↔
      balance W store now collection field sourceKey - amount ≠ 2 ^ 63 ∧
      balance W store now collection field destKey + amount ≠ 2 ^ 63 ∧
      (balance W store now collection field destKey < 0 ∨
        0 ≤ balance W store now collection field destKey + amount) := by
  have hlo := stored_le (balance W store now collection field sourceKey - amount)
  have hld := stored_le (balance W store now collection field destKey + amount)
  rw [Conserves, total_insert, total_insert, balance_insert, if_neg hne.symm, hsrc, hdst,
    ← stored_eq_self_iff, ← stored_eq_self_iff]
  constructor
  · rintro ⟨hsum, hneg⟩
    refine ⟨by linarith, by linarith, ?_⟩
    rcases lt_or_ge (balance W store now collection field destKey) 0 with hd | hd
    · exact .inl hd
    · have hafter := hneg destKey hd
      rw [balance_insert, if_pos rfl, hdst, stored_nonneg_iff] at hafter
      exact .inr hafter
  · rintro ⟨hs, hd, hsign⟩
    refine ⟨by linarith, ?_⟩
    intro key hkey
    rw [balance_insert, balance_insert]
    split_ifs with hkd hks
    · subst hkd
      rw [hdst, stored_nonneg_iff]
      exact hsign.resolve_left (not_lt.mpr hkey)
    · rw [hsrc, stored_nonneg_iff]
      linarith
    · exact hkey

lemma conserves_of_same {store : Store} {now : UInt64} {collection field : String}
    {key srcRaw dstRaw : Bytes} {amount : ℤ}
    (hrep : Binary64.Representable (balance W store now collection field key))
    (hdst : entryBalance W now field dstRaw =
      stored (balance W store now collection field key + amount)) :
    Conserves W store ((store.insert (kvKey collection key) srcRaw).insert
        (kvKey collection key) dstRaw) now collection field ↔
      amount = 0 ∧ balance W store now collection field key + amount ≠ 2 ^ 63 := by
  rw [Conserves, total_insert, total_insert, balance_insert, if_pos rfl, hdst]
  constructor
  · rintro ⟨hsum, _⟩
    have hback : stored (balance W store now collection field key + amount) =
        balance W store now collection field key := by linarith
    by_cases htop : balance W store now collection field key + amount = 2 ^ 63
    · rw [stored, if_pos htop] at hback
      exact absurd (hback ▸ hrep) Binary64.not_representable_maxInt
    · rw [stored, if_neg htop] at hback
      have hzero : (amount : ℚ) = 0 := by linarith
      exact ⟨by exact_mod_cast hzero, htop⟩
  · rintro ⟨rfl, htop⟩
    have hself := stored_eq_self_iff.mpr htop
    rw [Int.cast_zero, add_zero] at hself
    refine ⟨?_, ?_⟩
    · rw [Int.cast_zero, add_zero, hself]
      ring
    · intro k hk
      rw [balance_insert, balance_insert]
      split_ifs with hkk
      · subst hkk
        rw [hdst, Int.cast_zero, add_zero, hself]
        exact hk
      · exact hk

/-- A successful exact transfer conserves the sum and the signs exactly when it does not move
a non-zero amount onto its own key, neither new balance is `2 ^ 63`, and the destination does
not fall below zero. -/
theorem kvTransfer_conserves_iff (W : Shared Patch CounterShape) (hW : RowsReadBack W)
    (store store' : Store) (now : UInt64) (collection field : String) (sourceKey destKey : Bytes)
    (amount : ℤ) (r : QueryResult)
    (hok : commitPlan store (kvTransfer W store now collection sourceKey destKey field
      (.finite amount)) = (.ok r, store'))
    (hexact : ExactTransfer W store now collection sourceKey destKey field amount) :
    Conserves W store store' now collection field ↔
      (sourceKey ≠ destKey ∨ amount = 0) ∧
      balance W store now collection field sourceKey - amount ≠ 2 ^ 63 ∧
      balance W store now collection field destKey + amount ≠ 2 ^ 63 ∧
      (balance W store now collection field destKey < 0 ∨
        0 ≤ balance W store now collection field destKey + amount) := by
  obtain ⟨srcRaw, dstRaw, rfl, hsrc, hdst, henough⟩ := kvTransfer_spec hW hok hexact
  by_cases hsame : sourceKey = destKey
  · subst hsame
    rw [conserves_of_same hexact.held hdst]
    constructor
    · rintro ⟨rfl, htop⟩
      refine ⟨.inr rfl, ?_, htop, ?_⟩
      · simpa using htop
      · simpa using lt_or_ge (balance W store now collection field sourceKey) 0
    · rintro ⟨hzero, _, htop, _⟩
      exact ⟨hzero.resolve_left (fun h => h rfl), htop⟩
  · rw [conserves_of_distinct hsame hsrc hdst henough]
    simp [hsame]

/-- MessagePack for a one-column row `bal` holding an integer below 128: a one-entry map, a
three-byte string and a positive fixint. -/
def balBody (n : UInt8) : Bytes := [0x81, 0xa3, 0x62, 0x61, 0x6c, n]

def balRow (n : UInt8) : Row := SortedMap.ofList [("bal", .integer (Int64.ofNat n.toNat))]

/-- The shared encoding on rows `bal` with an integer below 128, and no other row. -/
def balShared : Shared Unit Unit where
  kvBodyShape b := match b with
    | x :: _ => if 0x80 ≤ x && x < 0x90 then .map else .raw
    | [] => .raw
  valueFromMsgpack b := match b with
    | [0x81, 0xa3, 0x62, 0x61, 0x6c, n] =>
      if n < 128 then .ok (.object (balRow n)) else .error "not a fixint"
    | _ => .error "not a one-column row"
  fieldFromMsgpack _ := .error "not a field"
  rowToKvBody row shape := match row.get "bal", shape with
    | some (.integer i), .map =>
      if i.toInt.toNat < 128 ∧ row = balRow (UInt8.ofNat i.toInt.toNat) then
        .ok (balBody (UInt8.ofNat i.toInt.toNat))
      else .error (.encode "not a one-column row")
    | _, _ => .error (.encode "not a one-column row")
  kvBodyToRow _ := .error (.decode "not a row")
  resolveUpdates _ _ _ := .ok []
  incr _ _ _ := .error (.counter "no counter")
  incrFloat _ _ _ := .error (.counter "no counter")
  cas _ _ _ := .error (.encode "no swap")
  getset _ _ := .error (.encode "no swap")
  typeName _ := "value"
  errorText _ := "row"
  floatText _ := "float"

lemma balShared_readBack : RowsReadBack balShared where
  readBack row body h := by
    simp only [balShared] at h
    split at h
    · rename_i i _ _
      split_ifs at h with hrow
      obtain rfl := Except.ok.inj h
      have hlt : UInt8.ofNat i.toInt.toNat < 128 := by
        have hval : (UInt8.ofNat i.toInt.toNat).toNat = i.toInt.toNat :=
          UInt8.toNat_ofNat_of_lt' (lt_trans hrow.1 (by decide))
        rw [UInt8.lt_iff_toNat_lt, hval]
        exact hrow.1
      refine ⟨by simp [balShared, balBody], ?_⟩
      simp only [balShared, balBody, if_pos hlt]
      rw [← hrow.2]
    · simp at h
  emptyRaw := rfl

/-- A collection with ten on key `a`. -/
def tenOnA : Store := SortedMap.ofList [(kvKey "c" [97], encodeValue 0 (balBody 10))]

lemma tenOnA_exact (dest : Bytes) (hdest : dest = [97] ∨ dest = [98]) :
    ExactTransfer balShared tenOnA 5 "c" [97] dest "bal" 4 where
  finite := by
    have ha : (tenOnA.get (kvKey "c" [97])).bind (entryField balShared 5 "bal") =
        some (.integer 10) := by decide +kernel
    have hb : tenOnA.get (kvKey "c" [98]) = none := by decide +kernel
    have hkeys : ∀ key, key = [97] ∨ key = dest → key = [97] ∨ key = [98] := by
      rintro key (rfl | rfl)
      · exact .inl rfl
      · exact hdest
    intro key hkey raw x hget hfield
    rcases hkeys key hkey with rfl | rfl
    · simp [hget, hfield] at ha
    · simp [hget] at hb
  held := by
    have h : balance balShared tenOnA 5 "c" "bal" [97] = 10 := by decide +kernel
    exact h ▸ ⟨10, 0, by norm_num, by norm_num, by norm_num, by norm_num⟩
  present := by
    rcases hdest with rfl | rfl
    · have h : balance balShared tenOnA 5 "c" "bal" [97] = 10 := by decide +kernel
      exact h ▸ ⟨10, 0, by norm_num, by norm_num, by norm_num, by norm_num⟩
    · have h : balance balShared tenOnA 5 "c" "bal" [98] = 0 := by decide +kernel
      exact h ▸ ⟨0, 0, by norm_num, by norm_num, by norm_num, by norm_num⟩
  debited := by
    have h : balance balShared tenOnA 5 "c" "bal" [97] - (4 : ℤ) = 6 := by decide +kernel
    exact h ▸ ⟨6, 0, by norm_num, by norm_num, by norm_num, by norm_num⟩
  credited := by
    rcases hdest with rfl | rfl
    · have h : balance balShared tenOnA 5 "c" "bal" [97] + (4 : ℤ) = 14 := by decide +kernel
      exact h ▸ ⟨14, 0, by norm_num, by norm_num, by norm_num, by norm_num⟩
    · have h : balance balShared tenOnA 5 "c" "bal" [98] + (4 : ℤ) = 4 := by decide +kernel
      exact h ▸ ⟨4, 0, by norm_num, by norm_num, by norm_num, by norm_num⟩

/-- Transferring four from a key to itself leaves fourteen where there were ten. -/
theorem selfTransfer_creates_value :
    ∃ store', commitPlan tenOnA (kvTransfer balShared tenOnA 5 "c" [97] [97] "bal"
        (.finite (4 : ℤ))) = (.ok (.affected 2 none), store') ∧
      ExactTransfer balShared tenOnA 5 "c" [97] [97] "bal" 4 ∧
      total balShared tenOnA 5 "c" "bal" = 10 ∧ total balShared store' 5 "c" "bal" = 14 ∧
      ¬ Conserves balShared tenOnA store' 5 "c" "bal" := by
  refine ⟨SortedMap.ofList [(kvKey "c" [97], encodeValue 0 (balBody 14))], by decide +kernel,
    tenOnA_exact [97] (.inl rfl), by decide +kernel, by decide +kernel, ?_⟩
  intro h
  have hbefore : total balShared tenOnA 5 "c" "bal" = 10 := by decide +kernel
  have hafter : total balShared (SortedMap.ofList
      [(kvKey "c" [97], encodeValue 0 (balBody 14))]) 5 "c" "bal" = 14 := by decide +kernel
  have hsum := h.1
  rw [hbefore, hafter] at hsum
  norm_num at hsum

theorem transfer_between_keys_conserves :
    Conserves balShared tenOnA (SortedMap.ofList [(kvKey "c" [97], encodeValue 0 (balBody 6)),
      (kvKey "c" [98], encodeValue 0 (balBody 4))]) 5 "c" "bal" :=
  (kvTransfer_conserves_iff balShared balShared_readBack tenOnA _ 5 "c" "bal" [97] [98] 4
    (.affected 2 none) (by decide +kernel) (tenOnA_exact [98] (.inr rfl))).mpr
    ⟨.inl (by decide), by decide +kernel, by decide +kernel, .inr (by decide +kernel)⟩

end NodedbLite.Kv
