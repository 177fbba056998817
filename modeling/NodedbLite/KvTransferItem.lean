import NodedbLite.KvOps

/-! `kv_transfer_item`: one item deleted under its old key and written under a new one, without its
deadline. -/
namespace NodedbLite.Kv

def kvTransferItem (store : Store) (now : UInt64) (sourceCollection destCollection : String)
    (itemKey destKey : Bytes) : Planned := do
  let srcRkey := kvKey sourceCollection itemKey
  let some srcRaw := store.get srcRkey
    | throw (.badRequest
        s!"TransferItem: item not found in source collection '{sourceCollection}'")
  let some (srcDeadline, itemBytes) := decodeValue srcRaw
    | throw (.storage "corrupt KV entry: source item")
  if isExpired now srcDeadline then
    throw (.badRequest "TransferItem: source item is expired")
  let dstRkey := kvKey destCollection destKey
  return (.affected 1 none, [.delete srcRkey, .put dstRkey (encodeValue 0 itemBytes)])

/-- The item goes from one key to the other with its value and deadline; no other entry is touched,
and no live item is written over. -/
structure MovesItem (store store' : Store) (now : UInt64) (src dst : Bytes) : Prop where
  moved : liveDecoded store' now dst = liveDecoded store now src
  removed : src ≠ dst → store'.get src = none
  others : ∀ k, k ≠ src → k ≠ dst → store'.get k = store.get k
  spared : src ≠ dst → liveDecoded store now dst = none

lemma isExpired_zero (now : UInt64) : isExpired now 0 = false := by simp [isExpired]

lemma liveDecoded_of_get {store : Store} {now : UInt64} {rkey : Bytes} {deadline : UInt64}
    {body : Bytes} (h : store.get rkey = some (encodeValue deadline body))
    (hlive : isExpired now deadline = false) :
    liveDecoded store now rkey = some (deadline, body) := by
  simp [liveDecoded, h, hlive]

lemma kvTransferItem_ok {store store' : Store} {now : UInt64} {sourceCollection destCollection : String}
    {itemKey destKey : Bytes} {r : QueryResult}
    (h : commitPlan store (kvTransferItem store now sourceCollection destCollection itemKey destKey)
      = (.ok r, store')) :
    ∃ deadline body, liveDecoded store now (kvKey sourceCollection itemKey) = some (deadline, body) ∧
      store' = (store.erase (kvKey sourceCollection itemKey)).insert
        (kvKey destCollection destKey) (encodeValue 0 body) := by
  rw [kvTransferItem] at h
  cases hraw : store.get (kvKey sourceCollection itemKey) with
  | none =>
    rw [hraw] at h
    cases congrArg Prod.fst h
  | some raw =>
    cases hdecode : decodeValue raw with
    | none =>
      simp only [hraw, hdecode] at h
      cases congrArg Prod.fst h
    | some item =>
      obtain ⟨deadline, body⟩ := item
      simp only [hraw, hdecode] at h
      cases hexpired : isExpired now deadline with
      | true =>
        rw [hexpired] at h
        cases congrArg Prod.fst h
      | false =>
        rw [hexpired] at h
        refine ⟨deadline, body, ?_, ?_⟩
        · simp [liveDecoded, hraw, hdecode, hexpired]
        · exact (congrArg Prod.snd h).symm

/-- A transfer moves exactly one item exactly when the item has no deadline and there is no other
live item under its new key. -/
theorem transfer_item_moves_iff (store store' : Store) (now : UInt64)
    (sourceCollection destCollection : String) (itemKey destKey : Bytes) (r : QueryResult)
    (hok : commitPlan store (kvTransferItem store now sourceCollection destCollection itemKey destKey)
      = (.ok r, store')) :
    MovesItem store store' now (kvKey sourceCollection itemKey) (kvKey destCollection destKey) ↔
      (∀ item ∈ liveDecoded store now (kvKey sourceCollection itemKey), item.1 = 0) ∧
        (kvKey sourceCollection itemKey ≠ kvKey destCollection destKey →
          liveDecoded store now (kvKey destCollection destKey) = none) := by
  obtain ⟨deadline, body, hlive, rfl⟩ := kvTransferItem_ok hok
  generalize kvKey sourceCollection itemKey = src at hlive ⊢
  generalize kvKey destCollection destKey = dst
  have hdst : liveDecoded ((store.erase src).insert dst (encodeValue 0 body)) now dst
      = some (0, body) :=
    liveDecoded_of_get (by rw [SortedMap.get_insert, if_pos rfl]) (isExpired_zero now)
  constructor
  · intro h
    refine ⟨?_, h.spared⟩
    intro item hitem
    have hmoved := h.moved
    rw [hdst, hitem] at hmoved
    rw [← Option.some.inj hmoved]
  · rintro ⟨hzero, hspared⟩
    obtain rfl : deadline = 0 := hzero _ hlive
    refine ⟨by rw [hdst, hlive], ?_, ?_, hspared⟩
    · intro hne
      rw [SortedMap.get_insert, if_neg hne, SortedMap.get_erase, if_pos rfl]
    · intro k hsrc hother
      rw [SortedMap.get_insert, if_neg hother, SortedMap.get_erase, if_neg hsrc]

/-- An item under key `a` that lasts until the given time, if any. -/
def itemUntil (deadline : UInt64) : Store :=
  SortedMap.empty.insert (kvKey "c" [97]) (encodeValue deadline [7])

theorem transfer_item_moves_undated : MovesItem (itemUntil 0)
    (SortedMap.empty.insert (kvKey "d" [98]) (encodeValue 0 [7])) 5 (kvKey "c" [97])
      (kvKey "d" [98]) :=
  (transfer_item_moves_iff (itemUntil 0) _ 5 "c" "d" [97] [98] (.affected 1 none)
    (by decide +kernel)).mpr ⟨by decide +kernel, by decide +kernel⟩

/-- An item with a deadline is transferred and never expires. -/
theorem transfer_item_drops_deadline :
    ∃ store', commitPlan (itemUntil 9) (kvTransferItem (itemUntil 9) 5 "c" "c" [97] [98])
        = (.ok (.affected 1 none), store') ∧
      ¬ MovesItem (itemUntil 9) store' 5 (kvKey "c" [97]) (kvKey "c" [98]) := by
  refine ⟨SortedMap.empty.insert (kvKey "c" [98]) (encodeValue 0 [7]), by decide +kernel, ?_⟩
  intro h
  have hmoved := h.moved
  revert hmoved
  decide +kernel

end NodedbLite.Kv
