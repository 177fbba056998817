import NodedbLite.KvLocal
import NodedbLite.KvPaging

/-! `kv_range_scan` and what a limit does to it. The scan reads `limit + 32` stored entries
to make up for expired ones, so a limit is exact only while the live rows it needs stay
inside that window. -/
namespace NodedbLite.Kv

/-- The slack `kv_range_scan` adds to its limit. -/
def rangeOverfetch : UInt64 := 32

/-- Buffer a delete for every expired key a scan met. -/
def KvDb.dropExpired (db : KvDb) (expired : List Bytes) : KvDb :=
  if expired.isEmpty then db
  else (expired.foldl (fun db rkey => db.bufferWrite (.delete rkey)) db).flushIfFull

def kvRangeScan (db : KvDb) (now : UInt64) (collection : String) (start stop : Option Bytes)
    (limit : Option UInt64) : KvDb × List (Bytes × Bytes) :=
  let db := db.flushTo
  let startKey := kvKey collection (start.getD [])
  let stopKey := stop.map (kvKey collection)
  let entries := scanRangeBounded db.storage startKey stopKey
    (limit.map (fun l => (l + rangeOverfetch).toNat))
  let out := scanLoop now collection (limit.map UInt64.toNat) (fun _ => true) entries ⟨[], []⟩
  (db.dropExpired out.expired, out.pairs)

/-- The stored entries of a collection inside a range of user keys. -/
def rangeEntries (store : Store) (collection : String) (start stop : Option Bytes) :
    List (Bytes × Bytes) :=
  (collectionEntries store collection).filter fun e =>
    start.getD [] ≤ e.1 && stop.all (fun s => e.1 < s)

lemma scanRangeBounded_kvKey (store : Store) (collection : String) (start stop : Option Bytes)
    (limit : Option Nat) :
    ∃ foreign : List (Bytes × Bytes),
      scanRangeBounded store (kvKey collection (start.getD [])) (stop.map (kvKey collection))
          limit =
        (capped limit (rangeEntries store collection start stop)).map (ownEntry collection) ++
          foreign ∧
      ∀ e ∈ foreign, ∀ u, e.1 ≠ kvKey collection u := by
  obtain ⟨rest, hfrom, hrest⟩ := fromKey_kvKey store collection (start.getD [])
  set inStop : Bytes × Bytes → Bool :=
    fun e => (stop.map (kvKey collection)).all (fun s => e.1 < s) with hinStop
  have hown : (((collectionEntries store collection).filter
      (fun e => start.getD [] ≤ e.1)).map (ownEntry collection)).filter inStop =
        (rangeEntries store collection start stop).map (ownEntry collection) := by
    rw [List.filter_map, List.filter_filter, rangeEntries]
    congr 1
    refine List.filter_congr ?_
    intro e _
    cases stop <;> simp [hinStop, ownEntry, Bool.and_comm]
  obtain ⟨r, hr, hsub⟩ := capped_append_map (ownEntry collection) limit
    (rangeEntries store collection start stop) (rest.filter inStop)
  refine ⟨r, ?_, ?_⟩
  · rw [scanRangeBounded, hfrom, List.filter_append, hown, hr]
  · exact fun e he => hrest e (List.mem_of_mem_filter (hsub he))

lemma kvRangeScan_rows {db : KvDb} {now : UInt64} {collection : String}
    {start stop : Option Bytes} {limit : Option UInt64}
    (hname : 0 ∉ Bytes.ofString collection) :
    (kvRangeScan db now collection start stop limit).2 =
      capped (limit.map UInt64.toNat)
        ((capped (limit.map (fun l => (l + rangeOverfetch).toNat))
          (rangeEntries db.flushTo.storage collection start stop)).filterMap
            (liveEntry now)) := by
  obtain ⟨foreign, hscan, hforeign⟩ := scanRangeBounded_kvKey db.flushTo.storage collection
    start stop (limit.map (fun l => (l + rangeOverfetch).toNat))
  simp only [kvRangeScan]
  rw [hscan, scanLoop_pairs hname hforeign ⟨[], []⟩ (by simp), liveKept_true]
  rfl

lemma kvRangeScan_rows_of_nul {db : KvDb} {now : UInt64} {collection : String}
    {start stop : Option Bytes} {limit : Option UInt64}
    (hname : 0 ∈ Bytes.ofString collection) :
    (kvRangeScan db now collection start stop limit).2 = [] := by
  simp only [kvRangeScan]
  rw [scanLoop_foreign]
  exact fun e _ u hu => (eq_kvKey_of_splitKvKey hu).2 hname

/-- Taking `n` from a front part already takes `n` from the whole exactly when the front is
long enough or there is nothing behind it. -/
lemma take_eq_take_append_iff {α : Type*} (n : Nat) (l m : List α) :
    l.take n = (l ++ m).take n ↔ n ≤ l.length ∨ m = [] := by
  constructor
  · intro h
    by_contra hno
    push Not at hno
    have hlen := congrArg List.length h
    have hm := List.length_pos_iff.mpr hno.2
    simp only [List.length_take, List.length_append] at hlen
    omega
  · rintro (hn | rfl)
    · rw [List.take_append_of_le_length hn]
    · simp

/-- A limited range scan is a front part of the unlimited one exactly when its window of
`limit + 32` stored entries holds enough live rows, or all of them. A collection name with
a zero byte never splits off a key, so both scans are empty there. -/
theorem kvRangeScan_limit_iff (db : KvDb) (now : UInt64) (collection : String)
    (start stop : Option Bytes) (n : UInt64) :
    (kvRangeScan db now collection start stop (some n)).2 =
        (kvRangeScan db now collection start stop none).2.take n.toNat ↔
      0 ∈ Bytes.ofString collection ∨
      n.toNat ≤ (((rangeEntries db.flushTo.storage collection start stop).take
        (n + rangeOverfetch).toNat).filterMap (liveEntry now)).length ∨
      ((rangeEntries db.flushTo.storage collection start stop).drop
        (n + rangeOverfetch).toNat).filterMap (liveEntry now) = [] := by
  by_cases hname : 0 ∈ Bytes.ofString collection
  · simp [kvRangeScan_rows_of_nul hname, hname]
  · rw [kvRangeScan_rows hname, kvRangeScan_rows hname]
    simp only [Option.map_some, Option.map_none, capped, hname, false_or]
    set rows := rangeEntries db.flushTo.storage collection start stop
    set window := (n + rangeOverfetch).toNat
    have hsplit : rows.filterMap (liveEntry now) =
        (rows.take window).filterMap (liveEntry now) ++
          (rows.drop window).filterMap (liveEntry now) := by
      rw [← List.filterMap_append, List.take_append_drop]
    rw [hsplit, take_eq_take_append_iff]

/-- Thirty-three expired entries in front of one live entry. -/
def expiredRun : KvDb where
  storage := SortedMap.ofList ((List.range 33).map (fun i =>
      (kvKey "c" [UInt8.ofNat i], encodeValue 1 [])) ++ [(kvKey "c" [33], encodeValue 0 [7])])
  buf := ⟨[], .empty⟩
  cache := ⟨16, []⟩

theorem expiredRun_limit_one_not_front :
    (kvRangeScan expiredRun 5 "c" none none (some 1)).2 = [] ∧
    (kvRangeScan expiredRun 5 "c" none none none).2 = [([33], [7])] ∧
    (kvRangeScan expiredRun 5 "c" none none (some 1)).2 ≠
      (kvRangeScan expiredRun 5 "c" none none none).2.take (1 : UInt64).toNat := by
  decide +kernel

end NodedbLite.Kv
