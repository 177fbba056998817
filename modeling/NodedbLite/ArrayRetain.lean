import NodedbLite.ArrayFlush

/-! A retention pass over one array. Each segment with a tile older than the horizon is
rewritten on its own: for each tile prefix the live state before the horizon goes into a tile
stamped with the horizon, and the tiles at or after it are kept. -/
namespace NodedbLite.Arrays

variable {Coord Attr : Type} [LinearOrder Coord]

/-- The order the segment writer requires of the tiles. -/
def Ascending (tiles : Segment Coord Attr) : Prop := tiles.Pairwise (fun e f => e.1 < f.1)

/-- The cell of a coordinate just before the horizon, when it is live. -/
def lastLive (coord : Coord) (horizonMs : Int) (tiles : Segment Coord Attr) : Option (Cell Attr) :=
  (((tiles.filter (fun e => e.1.systemFromMs < horizonMs)).filterMap
    (fun e => e.2.get coord)).getLast?).filter (fun cell => !cell.isSentinel)

/-- What is assumed of `merge_for_retention` on the tile versions of one prefix: it succeeds, the
ceiling tile holds the live state before the horizon and is absent when nothing is live, and the
tiles to keep are those at or after the horizon. -/
def MergeLaw (env : ArrayEnv Coord Attr) : Prop :=
  ∀ tiles horizonMs, Ascending tiles → ∃ ceiling keep,
    env.mergeForRetention tiles horizonMs = .ok (ceiling, keep) ∧
    (∀ coord, ceiling.bind (·.get coord) = lastLive coord horizonMs tiles) ∧
    ceiling ≠ some .empty ∧
    keep.Perm ((tiles.filter (fun e => horizonMs ≤ e.1.systemFromMs)).map Prod.fst)

lemma TileId.lt_iff {a b : TileId} : a < b ↔ a.hilbertPrefix < b.hilbertPrefix ∨
    a.hilbertPrefix = b.hilbertPrefix ∧ a.systemFromMs < b.systemFromMs :=
  Prod.Lex.lt_iff ..

lemma TileId.eq_iff {a b : TileId} :
    a = b ↔ a.hilbertPrefix = b.hilbertPrefix ∧ a.systemFromMs = b.systemFromMs := by
  constructor
  · rintro rfl
    exact ⟨rfl, rfl⟩
  · rintro ⟨hpfx, hstamp⟩
    exact ofLex.injective (Prod.ext hpfx hstamp)

section
variable {tiles : Segment Coord Attr}

lemma Ascending.eq_of_fst_eq (h : Ascending tiles) {e f : TileId × Tile Coord Attr} (he : e ∈ tiles)
    (hf : f ∈ tiles) (heq : e.1 = f.1) : e = f := by
  have hids : (tiles.map Prod.fst).Nodup := List.pairwise_map.mpr (h.imp fun hlt => hlt.ne)
  exact List.inj_on_of_nodup_map hids he hf heq

lemma readTileAsOf_of_mem (h : Ascending tiles) {e : TileId × Tile Coord Attr} (he : e ∈ tiles) :
    readTileAsOf tiles e.1 = some e.2 := by
  obtain ⟨before, after, rfl⟩ := List.append_of_mem he
  have hlater : after.filter (fun f => f.1.hilbertPrefix = e.1.hilbertPrefix ∧
      f.1.systemFromMs ≤ e.1.systemFromMs) = [] := by
    rw [List.filter_eq_nil_iff]
    intro f hf hmatch
    obtain ⟨hpfx, hstamp⟩ := of_decide_eq_true hmatch
    have hlt := (List.pairwise_cons.mp (List.pairwise_append.mp h).2.1).1 f hf
    rcases TileId.lt_iff.mp hlt with hlt | ⟨_, hlt⟩
    · omega
    · omega
  unfold readTileAsOf
  rw [List.filter_append, List.filter_cons_of_pos (by simp), hlater]
  simp

end

lemma mem_dedupBehind {e f : TileId × Tile Coord Attr} {rest : Segment Coord Attr}
    (h : (e :: rest).Pairwise (fun a b => a.1 ≤ b.1)) :
    f ∈ dedupBehind e rest ↔ ((e :: rest).filter (fun g => g.1 = f.1)).head? = some f := by
  induction rest generalizing e with
  | nil =>
    by_cases heq : e.1 = f.1
    · simp [dedupBehind, heq, eq_comm]
    · have hne : f ≠ e := fun h => heq (by rw [h])
      simp [dedupBehind, heq, hne]
  | cons g rest ih =>
    obtain ⟨hfirst, hrest⟩ := List.pairwise_cons.mp h
    unfold dedupBehind
    split
    next heq =>
      have hsorted : (e :: rest).Pairwise (fun a b => a.1 ≤ b.1) :=
        List.pairwise_cons.mpr ⟨fun a ha => hfirst a (List.mem_cons_of_mem _ ha),
          (List.pairwise_cons.mp hrest).2⟩
      rw [ih hsorted]
      by_cases hf : e.1 = f.1
      · simp [List.filter_cons, hf]
      · simp [hf, ← heq]
    next hne =>
      rw [List.mem_cons, ih hrest]
      by_cases hf : e.1 = f.1
      · have hlt : ∀ a ∈ g :: rest, a.1 ≠ f.1 := by
          intro a ha haf
          have hle : g.1 ≤ a.1 := by
            rcases List.mem_cons.mp ha with rfl | ha
            · exact le_rfl
            · exact (List.pairwise_cons.mp hrest).1 a ha
          have heg := hfirst g List.mem_cons_self
          exact hne (le_antisymm heg (by rw [hf, ← haf]; exact hle))
        have hnil : (g :: rest).filter (fun a => a.1 = f.1) = [] := by
          rw [List.filter_eq_nil_iff]
          intro a ha
          simpa using hlt a ha
        have hcons : (e :: g :: rest).filter (fun a => a.1 = f.1)
            = e :: (g :: rest).filter (fun a => a.1 = f.1) :=
          List.filter_cons_of_pos (by simp [hf])
        rw [hcons, hnil]
        simp [eq_comm]
      · have hfe : f ≠ e := fun h => hf (by rw [h])
        have hcons : (e :: g :: rest).filter (fun a => a.1 = f.1)
            = (g :: rest).filter (fun a => a.1 = f.1) := List.filter_cons_of_neg (by simp [hf])
        rw [hcons]
        simp [hfe]

lemma mem_dedupById {f : TileId × Tile Coord Attr} {tiles : Segment Coord Attr}
    (h : tiles.Pairwise (fun a b => a.1 ≤ b.1)) :
    f ∈ dedupById tiles ↔ (tiles.filter (fun g => g.1 = f.1)).head? = some f := by
  cases tiles with
  | nil => simp [dedupById]
  | cons e rest => exact mem_dedupBehind h

lemma filter_insertionSort (tiles : Segment Coord Attr) (id : TileId) :
    (tiles.insertionSort (fun e f => e.1 ≤ f.1)).filter (fun e => e.1 = id)
      = tiles.filter (fun e => e.1 = id) := by
  have htotal : Std.Total (fun e f : TileId × Tile Coord Attr => e.1 ≤ f.1) :=
    ⟨fun e f => le_total _ _⟩
  have htrans : IsTrans (TileId × Tile Coord Attr) (fun e f => e.1 ≤ f.1) :=
    ⟨fun e f g hef hfg => le_trans hef hfg⟩
  have hsorted : (tiles.filter (fun e => e.1 = id)).Pairwise (fun e f => e.1 ≤ f.1) := by
    apply List.pairwise_of_forall_mem_list
    intro e he f hf
    have he' : e.1 = id := by simpa using (List.mem_filter.mp he).2
    have hf' : f.1 = id := by simpa using (List.mem_filter.mp hf).2
    rw [he', hf']
  have hsub := (List.sublist_insertionSort hsorted List.filter_sublist).filter (fun e => e.1 = id)
  rw [List.filter_filter] at hsub
  simp only [Bool.and_self] at hsub
  have hperm := (List.perm_insertionSort (fun e f : TileId × Tile Coord Attr => e.1 ≤ f.1)
    tiles).filter (fun e => e.1 = id)
  exact (hsub.eq_of_length hperm.length_eq.symm).symm

lemma mem_dedup_sort {f : TileId × Tile Coord Attr} (tiles : Segment Coord Attr) :
    f ∈ dedupById (tiles.insertionSort (fun e f => e.1 ≤ f.1))
      ↔ (tiles.filter (fun g => g.1 = f.1)).head? = some f := by
  have htotal : Std.Total (fun e f : TileId × Tile Coord Attr => e.1 ≤ f.1) :=
    ⟨fun e f => le_total _ _⟩
  have htrans : IsTrans (TileId × Tile Coord Attr) (fun e f => e.1 ≤ f.1) :=
    ⟨fun e f g hef hfg => le_trans hef hfg⟩
  rw [mem_dedupById (List.pairwise_insertionSort _ tiles), filter_insertionSort]

/-- The ceiling tile of a prefix. -/
def ceilingOf (env : ArrayEnv Coord Attr) (tiles : Segment Coord Attr) (horizonMs : Int)
    (hilbertPrefix : Nat) : Option (Tile Coord Attr) :=
  match env.mergeForRetention (tiles.filter (fun e => e.1.hilbertPrefix = hilbertPrefix))
      horizonMs with
  | .ok (ceilingTile, _) => ceilingTile
  | .error _ => none

section
variable {env : ArrayEnv Coord Attr} {tiles : Segment Coord Attr} {horizonMs : Int}

lemma Ascending.filter (h : Ascending tiles) (p : TileId × Tile Coord Attr → Bool) :
    Ascending (tiles.filter p) :=
  h.sublist List.filter_sublist

lemma ceilingOf_get (law : MergeLaw env) (h : Ascending tiles) (horizonMs : Int)
    (hilbertPrefix : Nat) (coord : Coord) :
    (ceilingOf env tiles horizonMs hilbertPrefix).bind (·.get coord)
      = lastLive coord horizonMs (tiles.filter (fun e => e.1.hilbertPrefix = hilbertPrefix)) := by
  obtain ⟨ceiling, keep, hmerge, hget, _⟩ := law _ horizonMs
    (h.filter (fun e => e.1.hilbertPrefix = hilbertPrefix))
  unfold ceilingOf
  rw [hmerge]
  exact hget coord

lemma ceilingOf_ne_empty (law : MergeLaw env) (h : Ascending tiles) (hilbertPrefix : Nat) :
    ceilingOf env tiles horizonMs hilbertPrefix ≠ some .empty := by
  obtain ⟨ceiling, keep, hmerge, _, hne, _⟩ := law _ horizonMs
    (h.filter (fun e => e.1.hilbertPrefix = hilbertPrefix))
  unfold ceilingOf
  rw [hmerge]
  exact hne

/-- The tiles of a prefix that survive: the ceiling tile, then those at or after the horizon. -/
lemma keepPrefix_ok (law : MergeLaw env) (h : Ascending tiles) (hilbertPrefix : Nat) :
    ∃ later, keepPrefix env tiles horizonMs hilbertPrefix
        = .ok ((ceilingOf env tiles horizonMs hilbertPrefix).toList.map
            (fun tile => (TileId.mk hilbertPrefix horizonMs, tile)) ++ later) ∧
      ∀ e, e ∈ later ↔ e ∈ tiles ∧ e.1.hilbertPrefix = hilbertPrefix ∧
        horizonMs ≤ e.1.systemFromMs := by
  obtain ⟨ceiling, keep, hmerge, _, _, hperm⟩ := law _ horizonMs
    (h.filter (fun e => e.1.hilbertPrefix = hilbertPrefix))
  unfold keepPrefix ceilingOf
  rw [hmerge]
  refine ⟨_, rfl, fun e => ?_⟩
  have hkeep : ∀ id, id ∈ keep ↔ ∃ f ∈ tiles, f.1 = id ∧ f.1.hilbertPrefix = hilbertPrefix ∧
      horizonMs ≤ f.1.systemFromMs := by
    intro id
    rw [hperm.mem_iff, List.mem_map]
    simp only [List.mem_filter, decide_eq_true_eq]
    constructor
    · rintro ⟨f, ⟨⟨hf, hpfx⟩, hstamp⟩, rfl⟩
      exact ⟨f, hf, rfl, hpfx, hstamp⟩
    · rintro ⟨f, hf, rfl, hpfx, hstamp⟩
      exact ⟨f, ⟨⟨hf, hpfx⟩, hstamp⟩, rfl⟩
  rw [List.mem_filterMap]
  constructor
  · rintro ⟨id, hid, hread⟩
    obtain ⟨f, hf, rfl, hpfx, hstamp⟩ := (hkeep id).mp hid
    rw [readTileAsOf_of_mem h hf, Option.map_some] at hread
    obtain rfl := Option.some.inj hread
    exact ⟨hf, hpfx, hstamp⟩
  · rintro ⟨he, hpfx, hstamp⟩
    refine ⟨e.1, (hkeep e.1).mpr ⟨e, he, rfl, hpfx, hstamp⟩, ?_⟩
    rw [readTileAsOf_of_mem h he, Option.map_some]

lemma ceilingOf_eq_none_iff (law : MergeLaw env) (h : Ascending tiles) {hilbertPrefix : Nat} :
    ceilingOf env tiles horizonMs hilbertPrefix = none ↔ ∀ coord, lastLive coord horizonMs
      (tiles.filter (fun e => e.1.hilbertPrefix = hilbertPrefix)) = none := by
  constructor
  · intro hnone coord
    rw [← ceilingOf_get law h, hnone]
    rfl
  · intro hall
    cases hceiling : ceilingOf env tiles horizonMs hilbertPrefix with
    | none => rfl
    | some tile =>
      exfalso
      apply ceilingOf_ne_empty law h hilbertPrefix
      rw [hceiling]
      congr 1
      ext1 coord
      have hget := ceilingOf_get law h horizonMs hilbertPrefix coord
      rw [hceiling, Option.bind_some, hall coord] at hget
      rw [hget, SortedMap.get_empty]

variable (env tiles horizonMs) in
/-- The tile is in the rewritten segment: it is a ceiling tile, or one at or after the horizon
that no ceiling tile displaces. -/
def KeptTile (e : TileId × Tile Coord Attr) : Prop :=
  (e.1.systemFromMs = horizonMs ∧ ceilingOf env tiles horizonMs e.1.hilbertPrefix = some e.2) ∨
  (e ∈ tiles ∧ horizonMs ≤ e.1.systemFromMs ∧
    (e.1.systemFromMs = horizonMs → ceilingOf env tiles horizonMs e.1.hilbertPrefix = none))

lemma head_filter_kept (h : Ascending tiles) {later : Segment Coord Attr}
    {e : TileId × Tile Coord Attr}
    (hlater : ∀ f, f ∈ later ↔ f ∈ tiles ∧ f.1.hilbertPrefix = e.1.hilbertPrefix ∧
      horizonMs ≤ f.1.systemFromMs) :
    ((((ceilingOf env tiles horizonMs e.1.hilbertPrefix).toList.map
        (fun tile => (TileId.mk e.1.hilbertPrefix horizonMs, tile)) ++ later)).filter
          (fun g => g.1 = e.1)).head? = some e ↔ KeptTile env tiles horizonMs e := by
  have hfirst : (later.filter (fun g => g.1 = e.1)).head? = some e
      ↔ e ∈ tiles ∧ horizonMs ≤ e.1.systemFromMs := by
    constructor
    · intro hhead
      have hmem := (List.mem_filter.mp (List.mem_of_head? hhead)).1
      obtain ⟨he, _, hstamp⟩ := (hlater e).mp hmem
      exact ⟨he, hstamp⟩
    · rintro ⟨he, hstamp⟩
      have hmem : e ∈ later.filter (fun g => g.1 = e.1) :=
        List.mem_filter.mpr ⟨(hlater e).mpr ⟨he, rfl, hstamp⟩, by simp⟩
      cases hhead : (later.filter (fun g => g.1 = e.1)).head? with
      | none =>
        rw [List.head?_eq_none_iff.mp hhead] at hmem
        cases hmem
      | some f =>
        obtain ⟨hf, heq⟩ := List.mem_filter.mp (List.mem_of_head? hhead)
        rw [h.eq_of_fst_eq ((hlater f).mp hf).1 he (of_decide_eq_true heq)]
  unfold KeptTile
  cases hceiling : ceilingOf env tiles horizonMs e.1.hilbertPrefix with
  | none => simpa using hfirst
  | some tile =>
    by_cases hstamp : e.1.systemFromMs = horizonMs
    · have hid : TileId.mk e.1.hilbertPrefix horizonMs = e.1 := TileId.eq_iff.mpr ⟨rfl, hstamp.symm⟩
      simp [hstamp, hid, Prod.ext_iff]
    · have hid : TileId.mk e.1.hilbertPrefix horizonMs ≠ e.1 :=
        fun heq => hstamp (TileId.eq_iff.mp heq).2.symm
      simpa [hstamp, hid] using hfirst

lemma filter_flatMap_of_nodup {kept : Nat → Segment Coord Attr}
    (hkept : ∀ p, ∀ g ∈ kept p, g.1.hilbertPrefix = p) {ps : List Nat} (hps : ps.Nodup)
    (id : TileId) :
    (ps.flatMap kept).filter (fun g => g.1 = id)
      = if id.hilbertPrefix ∈ ps then (kept id.hilbertPrefix).filter (fun g => g.1 = id)
        else [] := by
  induction ps with
  | nil => rfl
  | cons p ps ih =>
    obtain ⟨hp, hps⟩ := List.nodup_cons.mp hps
    rw [List.flatMap_cons, List.filter_append, ih hps]
    by_cases heq : id.hilbertPrefix = p
    · rw [heq, if_neg hp, if_pos List.mem_cons_self, List.append_nil]
    · have hnil : (kept p).filter (fun g => g.1 = id) = [] := by
        rw [List.filter_eq_nil_iff]
        intro g hg hid
        exact heq (by rw [← of_decide_eq_true hid, hkept p g hg])
      rw [hnil, List.nil_append]
      simp [heq]

lemma keepTiles_ok (law : MergeLaw env) (h : Ascending tiles) (horizonMs : Int) :
    ∃ keep, keepTiles env tiles horizonMs = .ok keep ∧
      ∀ e, e ∈ keep ↔ KeptTile env tiles horizonMs e := by
  choose later hlater hmem using fun p => @keepPrefix_ok _ _ _ env tiles horizonMs law h p
  have hmap := ExceptFold.mapM_ok (f := keepPrefix env tiles horizonMs)
    (l := (tiles.map (fun e => e.1.hilbertPrefix)).dedup) (fun p _ => hlater p)
  unfold keepTiles
  rw [hmap]
  refine ⟨_, rfl, fun e => ?_⟩
  rw [mem_dedup_sort, ← List.flatMap_def, filter_flatMap_of_nodup _ (List.nodup_dedup _)]
  · split
    next => exact head_filter_kept h (hmem _)
    next hnot =>
      have hnone : ∀ f ∈ tiles, f.1.hilbertPrefix ≠ e.1.hilbertPrefix := by
        intro f hf heq
        exact hnot (List.mem_dedup.mpr (List.mem_map.mpr ⟨f, hf, heq⟩))
      have hfilter : tiles.filter (fun f => f.1.hilbertPrefix = e.1.hilbertPrefix) = [] := by
        rw [List.filter_eq_nil_iff]
        intro f hf
        simpa using hnone f hf
      have hceiling : ceilingOf env tiles horizonMs e.1.hilbertPrefix = none := by
        rw [ceilingOf_eq_none_iff law h, hfilter]
        intro coord
        rfl
      constructor
      · intro hhead
        cases hhead
      · rintro (⟨_, hsome⟩ | ⟨he, _⟩)
        · rw [hceiling] at hsome
          cases hsome
        · exact absurd rfl (hnone e he)
  · intro p g hg
    rcases List.mem_append.mp hg with hg | hg
    · obtain ⟨tile, _, rfl⟩ := List.mem_map.mp hg
      rfl
    · exact ((hmem p g).mp hg).2.1

end

lemma loadSegments_cons_ok {d : Storage Coord Attr} {name : String} {id : Nat} {ids : List Nat}
    {segments : List (Segment Coord Attr)} :
    loadSegments d name (id :: ids) = .ok segments ↔
      ∃ tiles rest, d.getSegment name id = some tiles ∧ loadSegments d name ids = .ok rest ∧
        segments = tiles :: rest := by
  unfold loadSegments
  rw [ExceptFold.mapM_cons_ok]
  have hone : ∀ tiles, d.loadSegment name id = .ok tiles ↔ d.getSegment name id = some tiles := by
    intro tiles
    unfold Storage.loadSegment
    cases d.getSegment name id with
    | none => simp
    | some found => simp
  simp only [hone]

/-- The rows of the tiles, a later tile over an earlier one. -/
def overlay (tiles : Segment Coord Attr) : Tile Coord Attr :=
  tiles.foldl (fun acc e => acc.writeAll (e.2.entries.map (fun row => .put row.1 row.2))) .empty

/-- A merge that does what is assumed of `merge_for_retention`. -/
def exactMerge (tiles : Segment Coord Attr) (horizonMs : Int) :
    Except String (Option (Tile Coord Attr) × List TileId) :=
  let live := (overlay (tiles.filter (fun e => e.1.systemFromMs < horizonMs))).filter
    (fun _ cell => !cell.isSentinel)
  .ok (if live.entries = [] then none else some live,
    (tiles.filter (fun e => horizonMs ≤ e.1.systemFromMs)).map Prod.fst)

lemma get_writeAll_tile (acc tile : Tile Coord Attr) (coord : Coord) :
    (acc.writeAll (tile.entries.map (fun row => .put row.1 row.2))).get coord
      = (tile.get coord).or (acc.get coord) := by
  have hkeys : ((tile.entries.map
      (fun row => SortedMap.Write.put row.1 row.2)).map SortedMap.Write.key).Nodup := by
    rw [List.map_map]
    exact tile.keys_nodup
  rw [SortedMap.get_writeAll]
  cases hget : tile.get coord with
  | none =>
    rw [SortedMap.lastWrite_eq_none_iff.mpr, Option.getD_none, Option.none_or]
    intro w hw heq
    obtain ⟨row, hrow, rfl⟩ := List.mem_map.mp hw
    obtain rfl : row.1 = coord := heq
    exact SortedMap.get_eq_none_iff.mp hget row.2 hrow
  | some cell =>
    have hlast := (SortedMap.lastWrite_eq_some_iff_of_nodup hkeys (k := coord)).mpr
      ⟨.put coord cell, List.mem_map.mpr ⟨(coord, cell), SortedMap.get_eq_some_iff.mp hget, rfl⟩,
        rfl, rfl⟩
    rw [hlast]
    rfl

lemma get_overlay (tiles : Segment Coord Attr) (coord : Coord) :
    (overlay tiles).get coord = (tiles.filterMap (fun e => e.2.get coord)).getLast? := by
  induction tiles using List.reverseRecOn with
  | nil => rfl
  | append_singleton tiles e ih =>
    have hlast : (overlay (tiles ++ [e])).get coord
        = (e.2.get coord).or ((overlay tiles).get coord) := by
      unfold overlay
      rw [List.foldl_append]
      exact get_writeAll_tile _ e.2 coord
    rw [hlast, ih, List.filterMap_append]
    cases hget : e.2.get coord with
    | none => simp [hget]
    | some cell => simp [hget]

def exactEnv : ArrayEnv Coord Attr := ⟨.stable Version.stamp, exactMerge⟩

lemma mergeLaw_exactEnv : MergeLaw (exactEnv : ArrayEnv Coord Attr) := by
  intro tiles horizonMs _
  refine ⟨_, _, rfl, ?_, ?_, .refl _⟩
  · intro coord
    have hget : ((overlay (tiles.filter (fun e => e.1.systemFromMs < horizonMs))).filter
        (fun _ cell => !cell.isSentinel)).get coord = lastLive coord horizonMs tiles := by
      rw [SortedMap.get_filter, get_overlay]
      rfl
    split
    next hnil =>
      rw [← hget]
      unfold SortedMap.get
      rw [hnil]
      rfl
    next => exact hget
  · split
    next => simp
    next hne =>
      intro heq
      rw [Option.some.inj heq] at hne
      exact hne rfl

/-- A segment with one version of one cell. -/
def liveSegment : Segment Nat Nat := [(.mk 0 10, SortedMap.empty.insert 1 (.live ⟨0, 100, [7], 1⟩))]

end NodedbLite.Arrays
