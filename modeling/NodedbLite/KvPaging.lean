import NodedbLite.KvScan

/-! Paging a collection with `kv_materialize_scan`: the pages a caller gets by feeding each
returned cursor back, and when they hold every live entry exactly once. -/
namespace NodedbLite.Kv

section Page

variable {store : Store} {now : UInt64} {collection : String} {cursor : Bytes} {count : UInt64}

/-- The stored entries of a collection from a user key on. -/
def entriesFrom (store : Store) (collection : String) (cursor : Bytes) : List (Bytes × Bytes) :=
  (collectionEntries store collection).filter (fun e => cursor ≤ e.1)

@[simp] lemma entriesFrom_nil (store : Store) (collection : String) :
    entriesFrom store collection [] = collectionEntries store collection := by
  rw [entriesFrom, List.filter_eq_self]
  intro e _
  simpa using not_lt.mp (List.not_lt_nil e.1)

lemma liveKept_true : liveKept now (fun _ => true) = liveEntry now := by
  funext e
  simp only [liveKept]
  cases liveEntry now e <;> rfl

/-- A page holds the live rows of the window it reads, up to the page size. -/
lemma kvMaterializeScan_pairs (hname : 0 ∉ Bytes.ofString collection) :
    (kvMaterializeScan store now collection cursor count).pairs =
      (((entriesFrom store collection cursor).take (count + 1).toNat).filterMap
        (liveEntry now)).take count.toNat := by
  obtain ⟨foreign, hfrom, hforeign⟩ := fromKey_kvKey store collection cursor
  have htake : ∀ e ∈ foreign.take ((count + 1).toNat -
      (((collectionEntries store collection).filter (fun e => cursor ≤ e.1)).map
        (ownEntry collection)).length), ∀ u, e.1 ≠ kvKey collection u :=
    fun e he => hforeign e (List.mem_of_mem_take he)
  rw [kvMaterializeScan, scanRange, hfrom, List.take_append, ← List.map_take,
    scanLoop_pairs hname htake ⟨[], []⟩ (by simp), liveKept_true]
  rfl

lemma kvMaterializeScan_pairs_of_nul (hname : 0 ∈ Bytes.ofString collection) :
    (kvMaterializeScan store now collection cursor count).pairs = [] := by
  simp only [kvMaterializeScan]
  rw [scanLoop_foreign]
  exact fun e _ u hu => (eq_kvKey_of_splitKvKey hu).2 hname

lemma nextCursor_of_short
    (h : (kvMaterializeScan store now collection cursor count).pairs.length < count.toNat) :
    (kvMaterializeScan store now collection cursor count).nextCursor = [] := if_pos h

lemma nextCursor_of_full {p : Bytes × Bytes}
    (h : count.toNat ≤ (kvMaterializeScan store now collection cursor count).pairs.length)
    (hl : (kvMaterializeScan store now collection cursor count).pairs.getLast? = some p) :
    (kvMaterializeScan store now collection cursor count).nextCursor = p.1 := by
  have hcur : (kvMaterializeScan store now collection cursor count).nextCursor =
      ((kvMaterializeScan store now collection cursor count).pairs.getLast?.map
        Prod.fst).getD [] := if_neg (not_lt.mpr h)
  rw [hcur, hl, Option.map_some, Option.getD_some]

lemma liveEntry_fst {e p : Bytes × Bytes} (h : liveEntry now e = some p) : p.1 = e.1 := by
  unfold liveEntry at h
  split at h
  · simp at h
  · split_ifs at h
    obtain rfl := Option.some.inj h
    rfl

lemma filterMap_liveEntry_sorted {es : List (Bytes × Bytes)}
    (h : es.Pairwise (fun a b => a.1 < b.1)) :
    (es.filterMap (liveEntry now)).Pairwise (fun a b => a.1 < b.1) := by
  rw [List.pairwise_filterMap]
  refine h.imp ?_
  intro a b hab p hp q hq
  rwa [liveEntry_fst hp, liveEntry_fst hq]

lemma liveEntries_sorted (store : Store) (now : UInt64) (collection : String) :
    (liveEntries store now collection).Pairwise (fun a b => a.1 < b.1) :=
  filterMap_liveEntry_sorted (collectionEntries_sorted store collection)

lemma liveEntries_nodup (store : Store) (now : UInt64) (collection : String) :
    (liveEntries store now collection).Nodup :=
  SortedMap.nodup_of_sorted (liveEntries_sorted store now collection)

lemma kvMaterializeScan_pairs_sublist :
    (kvMaterializeScan store now collection cursor count).pairs.Sublist
      (liveEntries store now collection) := by
  by_cases hname : 0 ∈ Bytes.ofString collection
  · simp [kvMaterializeScan_pairs_of_nul hname]
  · rw [kvMaterializeScan_pairs hname]
    refine (List.take_sublist _ _).trans (List.Sublist.filterMap _ ?_)
    exact (List.take_sublist _ _).trans List.filter_sublist

lemma entriesFrom_sorted (store : Store) (collection : String) (cursor : Bytes) :
    (entriesFrom store collection cursor).Pairwise (fun a b => a.1 < b.1) :=
  (collectionEntries_sorted store collection).filter _

lemma mem_entriesFrom {e : Bytes × Bytes} :
    e ∈ entriesFrom store collection cursor ↔
      store.get (kvKey collection e.1) = some e.2 ∧ cursor ≤ e.1 := by
  simp [entriesFrom, mem_collectionEntries]

lemma mem_pairs_of_cursor (hname : 0 ∉ Bytes.ofString collection) (hcount : 0 < count)
    (hwide : 0 < (count + 1).toNat) {p : Bytes × Bytes}
    (hp : p ∈ liveEntries store now collection) :
    p ∈ (kvMaterializeScan store now collection p.1 count).pairs := by
  obtain ⟨e, he, hlive⟩ := List.mem_filterMap.mp hp
  have hkey : p.1 = e.1 := liveEntry_fst hlive
  have hsorted := entriesFrom_sorted store collection p.1
  have hmem : e ∈ entriesFrom store collection p.1 := by simp [entriesFrom, he, hkey]
  obtain ⟨rest, hrest⟩ : ∃ rest, entriesFrom store collection p.1 = e :: rest := by
    cases hes : entriesFrom store collection p.1 with
    | nil => simp [hes] at hmem
    | cons a rest =>
      rw [hes] at hmem hsorted
      rcases List.mem_cons.mp hmem with rfl | hin
      · exact ⟨rest, rfl⟩
      · have hlt : a.1 < e.1 := (List.pairwise_cons.mp hsorted).1 e hin
        have hge : p.1 ≤ a.1 := by
          have ha : a ∈ entriesFrom store collection p.1 := by simp [hes]
          simpa using (List.mem_filter.mp ha).2
        exact absurd hlt (not_lt.mpr (hkey ▸ hge))
  obtain ⟨w, hw⟩ := Nat.exists_eq_add_of_lt hwide
  obtain ⟨c, hc⟩ := Nat.exists_eq_add_of_lt (UInt64.lt_iff_toNat_lt.mp hcount)
  rw [kvMaterializeScan_pairs hname, hrest, hw, hc]
  simp [List.take_succ_cons, List.filterMap_cons_some hlive]

end Page

section Paging

variable (store : Store) (now : UInt64) (collection : String) (count : UInt64)

/-- The pages received when each returned cursor is fed back until it is empty. -/
inductive Pages : Bytes → List (List (Bytes × Bytes)) → Prop
  | last {cursor : Bytes} :
      (kvMaterializeScan store now collection cursor count).nextCursor = [] →
      Pages cursor [(kvMaterializeScan store now collection cursor count).pairs]
  | next {cursor : Bytes} {rest : List (List (Bytes × Bytes))} :
      (kvMaterializeScan store now collection cursor count).nextCursor ≠ [] →
      Pages (kvMaterializeScan store now collection cursor count).nextCursor rest →
      Pages cursor ((kvMaterializeScan store now collection cursor count).pairs :: rest)

/-- Paging from the empty cursor ends and delivers every live entry exactly once. -/
def PagingComplete : Prop :=
  ∃ pages, Pages store now collection count [] pages ∧
    pages.flatten.Perm (liveEntries store now collection)

variable {store now collection count}

lemma Pages.head {cursor : Bytes} {pages : List (List (Bytes × Bytes))}
    (h : Pages store now collection count cursor pages) :
    ∃ rest, pages = (kvMaterializeScan store now collection cursor count).pairs :: rest := by
  cases h with
  | last _ => exact ⟨[], rfl⟩
  | next _ _ => exact ⟨_, rfl⟩

lemma pages_nil_iff_of_done
    (hdone : (kvMaterializeScan store now collection [] count).nextCursor = []) :
    PagingComplete store now collection count ↔
      (kvMaterializeScan store now collection [] count).pairs.Perm
        (liveEntries store now collection) := by
  constructor
  · rintro ⟨pages, hpages, hperm⟩
    cases hpages with
    | last _ => simpa using hperm
    | next hne _ => exact absurd hdone hne
  · intro hperm
    exact ⟨_, .last hdone, by simpa using hperm⟩

/-- A full page whose cursor is not empty is followed by a page that repeats its last row. -/
lemma not_pagingComplete_of_cursor (hname : 0 ∉ Bytes.ofString collection)
    (hcount : 0 < count) (hwide : 0 < (count + 1).toNat)
    (hmore : (kvMaterializeScan store now collection [] count).nextCursor ≠ []) :
    ¬ PagingComplete store now collection count := by
  rintro ⟨pages, hpages, hperm⟩
  cases hpages with
  | last hdone => exact hmore hdone
  | @next _ rest _ hrest =>
    set page := kvMaterializeScan store now collection [] count with hpage
    have hfull : count.toNat ≤ page.pairs.length := by
      by_contra hshort
      exact hmore (nextCursor_of_short (not_le.mp hshort))
    obtain ⟨p, hlast⟩ : ∃ p, page.pairs.getLast? = some p := by
      have hne : page.pairs ≠ [] := by
        intro hnil
        have hpos := UInt64.lt_iff_toNat_lt.mp hcount
        simp only [hnil, List.length_nil, UInt64.toNat_zero] at hfull hpos
        omega
      exact ⟨_, List.getLast?_eq_some_getLast hne⟩
    have hcursor : page.nextCursor = p.1 := nextCursor_of_full hfull hlast
    have hfirst : p ∈ page.pairs := List.mem_of_getLast? hlast
    have hlive : p ∈ liveEntries store now collection :=
      kvMaterializeScan_pairs_sublist.subset hfirst
    obtain ⟨tail, htail⟩ := hrest.head
    have hagain : p ∈ rest.flatten := by
      rw [htail, hcursor]
      simp [mem_pairs_of_cursor hname hcount hwide hlive]
    have hnodup : (page.pairs ++ rest.flatten).Nodup := by
      have := hperm.nodup_iff.mpr (liveEntries_nodup store now collection)
      simpa using this
    exact (List.nodup_append.mp hnodup).2.2 p hfirst p hagain rfl

lemma perm_append_self_iff {α : Type*} {l m : List α} : l.Perm (l ++ m) ↔ m = [] := by
  constructor
  · intro h
    have hlen := h.length_eq
    rw [List.length_append] at hlen
    exact List.eq_nil_of_length_eq_zero (by omega)
  · rintro rfl
    simp

lemma length_eq_one_of_getLast_nil {l : List (Bytes × Bytes)} {p : Bytes × Bytes}
    (hs : l.Pairwise (fun a b => a.1 < b.1)) (hl : l.getLast? = some p) (hp : p.1 = []) :
    l = [p] := by
  obtain ⟨init, rfl⟩ := List.getLast?_eq_some_iff.mp hl
  have hinit : init = [] := by
    rw [List.eq_nil_iff_forall_not_mem]
    intro a ha
    have hlt : a.1 < p.1 := (List.pairwise_append.mp hs).2.2 a ha p (by simp)
    rw [hp] at hlt
    exact List.not_lt_nil _ hlt
  simp [hinit]

/-- The live entries among the stored entries that the first call reads. -/
def windowLive (store : Store) (now : UInt64) (collection : String) (count : UInt64) :
    List (Bytes × Bytes) :=
  ((collectionEntries store collection).take (count + 1).toNat).filterMap (liveEntry now)

/-- No live entry lies beyond the stored entries that the first call reads. -/
def WindowHoldsLive (store : Store) (now : UInt64) (collection : String) (count : UInt64) : Prop :=
  ((collectionEntries store collection).drop (count + 1).toNat).filterMap (liveEntry now) = []

lemma firstPage_pairs (hname : 0 ∉ Bytes.ofString collection) :
    (kvMaterializeScan store now collection [] count).pairs =
      (windowLive store now collection count).take count.toNat := by
  rw [kvMaterializeScan_pairs hname, entriesFrom_nil, windowLive]

lemma liveEntries_eq_window_append (store : Store) (now : UInt64) (collection : String)
    (count : UInt64) :
    liveEntries store now collection = windowLive store now collection count ++
      ((collectionEntries store collection).drop (count + 1).toNat).filterMap
        (liveEntry now) := by
  rw [windowLive, ← List.filterMap_append, List.take_append_drop, liveEntries]

lemma windowLive_perm_iff :
    (windowLive store now collection count).Perm (liveEntries store now collection) ↔
      WindowHoldsLive store now collection count := by
  rw [liveEntries_eq_window_append store now collection count, perm_append_self_iff]
  rfl

lemma pagingComplete_iff_of_short (hname : 0 ∉ Bytes.ofString collection)
    (hshort : (windowLive store now collection count).length < count.toNat) :
    PagingComplete store now collection count ↔ WindowHoldsLive store now collection count := by
  have hpairs : (kvMaterializeScan store now collection [] count).pairs =
      windowLive store now collection count := by
    rw [firstPage_pairs hname, List.take_of_length_le hshort.le]
  have hdone := nextCursor_of_short (hpairs ▸ hshort)
  rw [pages_nil_iff_of_done hdone, hpairs, windowLive_perm_iff]

lemma pagingComplete_iff_of_full (hname : 0 ∉ Bytes.ofString collection) (hcount : 0 < count)
    (hfull : count.toNat ≤ (windowLive store now collection count).length) :
    PagingComplete store now collection count ↔
      count = 1 ∧ (liveEntries store now collection).map Prod.fst = [[]] := by
  have hpos : 0 < count.toNat := UInt64.lt_iff_toNat_lt.mp hcount
  have hwide : 0 < (count + 1).toNat := by
    by_contra hzero
    have hnil : windowLive store now collection count = [] := by
      simp [windowLive, Nat.eq_zero_of_not_pos hzero]
    rw [hnil, List.length_nil] at hfull
    omega
  have hlen : (kvMaterializeScan store now collection [] count).pairs.length = count.toNat := by
    rw [firstPage_pairs hname, List.length_take, min_eq_left hfull]
  obtain ⟨p, hlast⟩ : ∃ p,
      (kvMaterializeScan store now collection [] count).pairs.getLast? = some p := by
    have hne : (kvMaterializeScan store now collection [] count).pairs ≠ [] :=
      List.ne_nil_of_length_pos (by omega)
    exact ⟨_, List.getLast?_eq_some_getLast hne⟩
  have hcursor := nextCursor_of_full hlen.ge hlast
  constructor
  · intro hcomplete
    have hp : p.1 = [] := by
      by_contra hp
      exact not_pagingComplete_of_cursor hname hcount hwide (hcursor ▸ hp) hcomplete
    have hone := length_eq_one_of_getLast_nil ((liveEntries_sorted store now collection).sublist
      kvMaterializeScan_pairs_sublist) hlast hp
    rw [pages_nil_iff_of_done (hcursor.trans hp), hone] at hcomplete
    refine ⟨?_, ?_⟩
    · rw [hone, List.length_singleton] at hlen
      exact UInt64.toNat_inj.mp (by simpa using hlen.symm)
    · rw [List.perm_singleton.mp hcomplete.symm, List.map_singleton, hp]
  · rintro ⟨rfl, hkeys⟩
    obtain ⟨q, hq⟩ : ∃ q, liveEntries store now collection = [q] :=
      List.length_eq_one_iff.mp (by simpa using congrArg List.length hkeys)
    have hpage : (kvMaterializeScan store now collection [] 1).pairs = [q] := by
      rw [← hq]
      exact kvMaterializeScan_pairs_sublist.eq_of_length (by rw [hlen, hq]; rfl)
    have hqp : q = p := by simpa [hpage] using hlast
    have hqkey : q.1 = [] := by simpa [hq] using hkeys
    rw [pages_nil_iff_of_done (hcursor.trans (hqp ▸ hqkey)), hpage, hq]

/-- Paging is complete exactly when the first call already sees and returns everything
without filling its page. The empty key alone on a page of one is the exception: its
cursor is the empty one. -/
theorem kvMaterializeScan_complete_iff (store : Store) (now : UInt64) (collection : String)
    (count : UInt64) (hcount : 0 < count) :
    PagingComplete store now collection count ↔
      liveEntries store now collection = [] ∨
      0 ∉ Bytes.ofString collection ∧ WindowHoldsLive store now collection count ∧
        ((liveEntries store now collection).length < count.toNat ∨
          count = 1 ∧ (liveEntries store now collection).map Prod.fst = [[]]) := by
  have hpos : 0 < count.toNat := UInt64.lt_iff_toNat_lt.mp hcount
  by_cases hname : 0 ∈ Bytes.ofString collection
  · have hpairs : (kvMaterializeScan store now collection [] count).pairs = [] :=
      kvMaterializeScan_pairs_of_nul hname
    have hdone : (kvMaterializeScan store now collection [] count).nextCursor = [] :=
      nextCursor_of_short (by rw [hpairs, List.length_nil]; exact hpos)
    rw [pages_nil_iff_of_done hdone, hpairs, List.nil_perm]
    simp [hname]
  · have hsplit := congrArg List.length (liveEntries_eq_window_append store now collection count)
    rw [List.length_append] at hsplit
    by_cases hfull : count.toNat ≤ (windowLive store now collection count).length
    · rw [pagingComplete_iff_of_full hname hcount hfull]
      constructor
      · rintro ⟨rfl, hkeys⟩
        have hlen : (liveEntries store now collection).length = 1 := by
          simpa using congrArg List.length hkeys
        have hone : (1 : UInt64).toNat = 1 := rfl
        exact .inr ⟨hname, List.eq_nil_of_length_eq_zero (by omega), .inr ⟨rfl, hkeys⟩⟩
      · rintro (hnil | ⟨_, _, hfew | hone⟩)
        · rw [hnil, List.length_nil] at hsplit
          omega
        · omega
        · exact hone
    · rw [pagingComplete_iff_of_short hname (not_le.mp hfull)]
      constructor
      · intro hw
        rw [WindowHoldsLive] at hw
        rw [hw, List.length_nil] at hsplit
        exact .inr ⟨hname, hw, .inl (by omega)⟩
      · rintro (hnil | ⟨_, hw, _⟩)
        · rw [hnil, List.length_nil] at hsplit
          exact List.eq_nil_of_length_eq_zero (by omega)
        · exact hw

/-- Two expired entries in front of a live one, read with pages of one. -/
def expiredFront : Store :=
  SortedMap.ofList [(kvKey "c" [97], encodeValue 1 [1]), (kvKey "c" [98], encodeValue 1 [2]),
    (kvKey "c" [99], encodeValue 0 [3])]

theorem expiredFront_paging_misses_live :
    liveEntries expiredFront 5 "c" = [([99], [3])] ∧ ¬ PagingComplete expiredFront 5 "c" 1 := by
  have hdone : (kvMaterializeScan expiredFront 5 "c" [] 1).nextCursor = [] := by decide +kernel
  have hpairs : (kvMaterializeScan expiredFront 5 "c" [] 1).pairs = [] := by decide +kernel
  have hlive : liveEntries expiredFront 5 "c" = [([99], [3])] := by decide +kernel
  refine ⟨hlive, ?_⟩
  rw [pages_nil_iff_of_done hdone, hpairs, hlive]
  simp

theorem expiredFront_paging_with_larger_page :
    PagingComplete expiredFront 5 "c" 2 :=
  (kvMaterializeScan_complete_iff expiredFront 5 "c" 2 (by decide)).mpr
    (.inr ⟨by decide, by unfold WindowHoldsLive; decide +kernel, .inl (by decide +kernel)⟩)

end Paging

end NodedbLite.Kv
