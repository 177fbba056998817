import NodedbLite.GuardedRun
import NodedbLite.SortedMap
import Mathlib

/-! Paging the documents of a collection by the id of the last one seen, while others write to the
collection between the pages. The id of a strict row is the text of its first key column, so rows can
share one. -/
namespace NodedbLite.MaterializeScan

open GuardedRun

variable {Id V : Type*} [LinearOrder Id] (name : Id → String)

/-- The documents of a collection, in the order in which they are listed; an id that is listed
without a value is not a document. -/
abbrev Documents (Id V : Type*) [LinearOrder Id] := SortedMap Id (Option V)

/-- Walk the listing: up to the cursor nothing is taken, and after it up to `count` documents. -/
def collect (cursor : String) (count : Nat) :
    Bool → List (Id × Option V) → List (Id × V) → List (Id × V)
  | _, [], out => out
  | false, row :: rest, out => collect cursor count (name row.1 = cursor) rest out
  | true, row :: rest, out =>
    if count ≤ out.length then out
    else
      match row.2 with
      | some value => collect cursor count true rest (out ++ [(row.1, value)])
      | none => collect cursor count true rest out

structure Page (Id V : Type*) where
  nextCursor : String
  entries : List (Id × V)

/-- One call. The next cursor is empty after the last page. -/
def materializeScan (docs : Documents Id V) (cursor : String) (count : Nat) : Page Id V :=
  let pairs := collect name cursor count (cursor = "") docs.entries []
  ⟨if pairs.length < count then "" else (pairs.getLast?.map fun pair => name pair.1).getD "",
    pairs⟩

/-- A scan in progress: the cursor of its next call, `none` once it is complete, what it has
returned, and the documents that have been there since it began. -/
structure ScanState (Id V : Type*) [LinearOrder Id] where
  docs : Documents Id V
  cursor : Option String
  returned : List Id
  kept : Id → Prop

inductive ScanStep (Id V : Type*)
  | insert (id : Id) (value : V)
  | delete (id : Id)
  | page

def start (docs : Documents Id V) : ScanState Id V :=
  ⟨docs, some "", [], fun id => ∃ value, docs.get id = some (some value)⟩

def next (count : Nat) (s : ScanState Id V) : ScanStep Id V → Option (ScanState Id V)
  | .insert id value => some { s with docs := s.docs.insert id (some value) }
  | .delete id => some { s with docs := s.docs.erase id, kept := fun other => other ≠ id ∧ s.kept other }
  | .page =>
    match s.cursor with
    | none => none
    | some cursor =>
      let page := materializeScan name s.docs cursor count
      some { s with
        cursor := if page.nextCursor = "" then none else some page.nextCursor
        returned := s.returned ++ page.entries.map Prod.fst }

/-- A page is asked for while the document returned last is still listed, as the first with its id,
and does not end, if it is full, with a document whose id is empty. -/
def CursorListed (count : Nat) (s : ScanState Id V) : ScanStep Id V → Prop
  | .page => ∀ cursor, s.cursor = some cursor →
      (cursor = "" ∨ ∃ last, s.returned.getLast? = some last ∧ last ∈ s.docs.keys ∧
        ∀ id ∈ s.docs.keys, name id = name last → last ≤ id) ∧
      ∀ last ∈ (materializeScan name s.docs cursor count).entries.getLast?,
        (materializeScan name s.docs cursor count).entries.length = count → name last.1 ≠ ""
  | _ => True

section Pages

variable {name} {docs : Documents Id V} {cursor : String} {count : Nat}

/-- A listed id with its value, if it has one. -/
def readable (row : Id × Option V) : Option (Id × V) := row.2.map fun value => (row.1, value)

omit [LinearOrder Id] in
lemma collect_past (rows : List (Id × Option V)) (out : List (Id × V)) :
    collect name cursor count true rows out =
      out ++ (rows.filterMap readable).take (count - out.length) := by
  induction rows generalizing out with
  | nil => simp [collect]
  | cons row rows ih =>
    obtain ⟨id, value⟩ := row
    rw [collect]
    split_ifs with hfull
    · rw [Nat.sub_eq_zero_of_le hfull, List.take_zero, List.append_nil]
    · cases value with
      | none => exact ih out
      | some value =>
        have hsome : ((id, some value) :: rows).filterMap readable =
            (id, value) :: rows.filterMap readable := rfl
        change collect name cursor count true rows (out ++ [(id, value)]) = _
        rw [ih, hsome, List.length_append, List.length_singleton, ← Nat.sub_sub]
        obtain ⟨k, hk⟩ := Nat.exists_eq_add_of_lt (not_le.mp hfull)
        have hroom : count - out.length = k + 1 := by omega
        rw [hroom, List.take_succ_cons, Nat.add_sub_cancel, List.append_assoc]
        rfl

omit [LinearOrder Id] in
lemma collect_before {before after : List (Id × Option V)} {id : Id} {value : Option V}
    (hbefore : ∀ row ∈ before, name row.1 ≠ name id) (out : List (Id × V)) :
    collect name (name id) count false (before ++ (id, value) :: after) out =
      collect name (name id) count true after out := by
  induction before with
  | nil => simp [collect]
  | cons row before ih =>
    rw [List.cons_append, collect, decide_eq_false (hbefore row (.head _))]
    exact ih fun row hmem => hbefore row (List.mem_cons_of_mem _ hmem)

/-- The documents after an id. -/
def after (docs : Documents Id V) (id : Id) : List (Id × V) :=
  (docs.entries.filter fun row => id < row.1).filterMap readable

lemma materializeScan_start (docs : Documents Id V) (count : Nat) :
    (materializeScan name docs "" count).entries = (docs.entries.filterMap readable).take count := by
  rw [materializeScan]
  simp [collect_past]

lemma materializeScan_after {id : Id} (hid : id ∈ docs.keys)
    (hfirst : ∀ other ∈ docs.keys, name other = name id → id ≤ other) (hne : name id ≠ "")
    (count : Nat) : (materializeScan name docs (name id) count).entries = (after docs id).take count := by
  obtain ⟨⟨id, value⟩, hrow, rfl⟩ := List.mem_map.mp hid
  obtain ⟨before, rest, hsplit⟩ := List.append_of_mem hrow
  have hsorted := docs.sorted
  rw [hsplit, List.pairwise_append, List.pairwise_cons] at hsorted
  obtain ⟨-, ⟨hrest, -⟩, hbefore⟩ := hsorted
  have hafter : docs.entries.filter (fun row => id < row.1) = rest := by
    rw [hsplit, List.filter_append, List.filter_cons_of_neg (by simp), List.filter_eq_self.mpr
      fun row hmem => decide_eq_true (hrest row hmem), List.filter_eq_nil_iff.mpr, List.nil_append]
    intro row hmem hlt
    exact lt_asymm (hbefore row hmem _ (.head _)) (of_decide_eq_true hlt)
  have hfresh : ∀ row ∈ before, name row.1 ≠ name id := by
    intro row hmem hname
    have hlisted : row.1 ∈ docs.keys := List.mem_map_of_mem (by rw [hsplit]; simp [hmem])
    exact not_le.mpr (hbefore row hmem _ (.head _)) (hfirst row.1 hlisted hname)
  rw [materializeScan, after, hafter]
  simp only [decide_eq_false hne]
  rw [hsplit, collect_before hfresh, collect_past]
  simp

lemma nextCursor_spec (hcount : 1 ≤ count) {l : List (Id × V)}
    (hpage : (materializeScan name docs cursor count).entries = l.take count) :
    ((materializeScan name docs cursor count).nextCursor = "" ∧ l.take count = l) ∨
      ∃ init last, l.take count = init ++ [last] ∧ (l.take count).length = count ∧
        (materializeScan name docs cursor count).nextCursor = name last.1 := by
  change collect name cursor count _ _ _ = _ at hpage
  rw [materializeScan]
  simp only [hpage]
  by_cases hshort : (l.take count).length < count
  · rw [if_pos hshort]
    exact .inl ⟨rfl, List.take_of_length_le (by rw [List.length_take] at hshort; omega)⟩
  · rw [if_neg hshort]
    have hnonempty : l.take count ≠ [] := by
      intro h
      rw [h, List.length_nil] at hshort
      omega
    refine .inr ⟨(l.take count).dropLast, (l.take count).getLast hnonempty,
      (List.dropLast_append_getLast hnonempty).symm,
      (List.length_take_le count l).antisymm (not_lt.mp hshort), ?_⟩
    rw [List.getLast?_eq_some_getLast hnonempty]
    rfl

end Pages

section Run

variable {name} {count : Nat} {docs : Documents Id V}

/-- The documents that have been there since the beginning are still there; those up to the cursor
have been returned once, those after it not at all, and at the end all of them have. -/
structure Inv (name : Id → String) (s : ScanState Id V) : Prop where
  live : ∀ id, s.kept id → ∃ value, s.docs.get id = some (some value)
  done : s.cursor = none → ∀ id, s.kept id → s.returned.count id = 1
  begin : s.cursor = some "" → s.returned = []
  within : ∀ cursor, s.cursor = some cursor → cursor ≠ "" →
    ∃ last, s.returned.getLast? = some last ∧ name last = cursor ∧
    (∀ id ∈ s.returned, id ≤ last) ∧ ∀ id, s.kept id → id ≤ last → s.returned.count id = 1

lemma inv_start (docs : Documents Id V) : Inv name (start docs) where
  live _ h := h
  done h := nomatch h
  begin _ := rfl
  within _ h hne := absurd (Option.some.inj h).symm hne

lemma Inv.insert {s : ScanState Id V} (h : Inv name s) (id : Id) (value : V) :
    Inv name { s with docs := s.docs.insert id (some value) } where
  live other hother := by
    simp only [SortedMap.get_insert]
    split_ifs
    · exact ⟨value, rfl⟩
    · exact h.live other hother
  done := h.done
  begin := h.begin
  within := h.within

lemma Inv.delete {s : ScanState Id V} (h : Inv name s) (id : Id) :
    Inv name { s with
      docs := s.docs.erase id
      kept := fun other => other ≠ id ∧ s.kept other } where
  live other hother := by
    simp only [SortedMap.get_erase, if_neg hother.1]
    exact h.live other hother.2
  done hdone other hother := h.done hdone other hother.2
  begin := h.begin
  within cursor hcursor hne := by
    obtain ⟨last, hlast, hname, hle, honce⟩ := h.within cursor hcursor hne
    exact ⟨last, hlast, hname, hle, fun other hother => honce other hother.2⟩

/-- The state after a page. -/
def turn (name : Id → String) (count : Nat) (s : ScanState Id V) (cursor : String) :
    ScanState Id V :=
  { s with
    cursor :=
      if (materializeScan name s.docs cursor count).nextCursor = "" then none
      else some (materializeScan name s.docs cursor count).nextCursor
    returned := s.returned ++ (materializeScan name s.docs cursor count).entries.map Prod.fst }

lemma count_append_eq_one {α : Type*} [DecidableEq α] {xs ys : List α} (hys : ys.Nodup)
    (hapart : ∀ x ∈ xs, x ∉ ys) {x : α} (h : xs.count x = 1 ∨ x ∈ ys) : (xs ++ ys).count x = 1 := by
  rw [List.count_append]
  rcases h with hold | hnew
  · have hmem : x ∈ xs := List.count_pos_iff.mp (by omega)
    rw [hold, List.count_eq_zero_of_not_mem (hapart x hmem)]
  · rw [List.count_eq_zero_of_not_mem fun hmem => hapart x hmem hnew,
      List.count_eq_one_of_mem hys hnew]

lemma Inv.turn {s : ScanState Id V} (h : Inv name s) (hcount : 1 ≤ count) {cursor : String}
    {l : List (Id × V)} (hpage : (materializeScan name s.docs cursor count).entries = l.take count)
    (hne : ∀ last ∈ (l.take count).getLast?, (l.take count).length = count → name last.1 ≠ "")
    (hsorted : l.Pairwise fun a b => a.1 < b.1)
    (hreturned : ∀ id ∈ s.returned, ∀ e ∈ l, id < e.1)
    (hsplit : ∀ id, s.kept id → s.returned.count id = 1 ∨ id ∈ l.map Prod.fst) :
    Inv name (turn name count s cursor) := by
  have hnodup : (l.map Prod.fst).Nodup := by
    rw [List.Nodup, List.pairwise_map]
    exact hsorted.imp ne_of_lt
  have hapart : ∀ id ∈ s.returned, id ∉ (l.take count).map Prod.fst := by
    intro id hmem hpage
    obtain ⟨e, he, rfl⟩ := List.mem_map.mp hpage
    exact lt_irrefl _ (hreturned e.1 hmem e (List.mem_of_mem_take he))
  have hone : ∀ id, s.returned.count id = 1 ∨ id ∈ (l.take count).map Prod.fst →
      (s.returned ++ (l.take count).map Prod.fst).count id = 1 := fun id =>
    count_append_eq_one (hnodup.sublist ((List.take_sublist count l).map _)) hapart
  have hsortedPage : (l.take count ++ l.drop count).Pairwise fun a b => a.1 < b.1 := by
    rwa [List.take_append_drop]
  rw [MaterializeScan.turn, hpage]
  obtain ⟨hend, hall⟩ | ⟨init, last, htake, hfull, hcursor⟩ := nextCursor_spec hcount hpage
  · rw [if_pos hend]
    refine ⟨h.live, fun _ id hid => ?_, (nomatch ·), fun _ hnone => nomatch hnone⟩
    rw [hall] at hone ⊢
    exact hone id (hsplit id hid)
  · have hlast : last ∈ l.take count := by rw [htake]; simp
    have hlastName := hne last (by rw [htake, List.getLast?_concat]; rfl) hfull
    rw [hcursor, if_neg hlastName]
    refine ⟨h.live, (nomatch ·), fun hbegin => absurd (Option.some.inj hbegin) hlastName,
      fun c hc _ => ⟨last.1, ?_, Option.some.inj hc, fun id hid => ?_, fun id hid hle => ?_⟩⟩
    · rw [htake, List.map_append, ← List.append_assoc]
      exact List.getLast?_concat
    · obtain hid | hid := List.mem_append.mp hid
      · exact (hreturned id hid last (List.mem_of_mem_take hlast)).le
      · obtain ⟨e, he, rfl⟩ := List.mem_map.mp hid
        have hpairs := (List.pairwise_append.mp hsortedPage).1
        rw [htake] at hpairs he
        obtain he | he := List.mem_append.mp he
        · exact ((List.pairwise_append.mp hpairs).2.2 e he last (.head _)).le
        · rw [List.mem_singleton.mp he]
    · obtain hmem | hmem := hsplit id hid
      · exact hone id (.inl hmem)
      · -- what is left for later pages comes after the last document of this one
        refine hone id (.inr ?_)
        obtain ⟨e, he, rfl⟩ := List.mem_map.mp hmem
        rw [← List.take_append_drop count l, List.mem_append] at he
        refine List.mem_map_of_mem (he.resolve_right fun hdrop => ?_)
        exact absurd hle (not_le.mpr ((List.pairwise_append.mp hsortedPage).2.2 last hlast e hdrop))

lemma pairwise_readable {rows : List (Id × Option V)} (h : rows.Pairwise fun a b => a.1 < b.1) :
    (rows.filterMap readable).Pairwise fun a b => a.1 < b.1 := by
  refine h.filterMap _ fun a a' hlt b hb b' hb' => ?_
  obtain ⟨value, -, rfl⟩ := Option.map_eq_some_iff.mp hb
  obtain ⟨value', -, rfl⟩ := Option.map_eq_some_iff.mp hb'
  exact hlt

omit [LinearOrder Id] in
lemma mem_filterMap_readable {rows : List (Id × Option V)} {e : Id × V} :
    e ∈ rows.filterMap readable ↔ (e.1, some e.2) ∈ rows := by
  obtain ⟨id, value⟩ := e
  simp only [List.mem_filterMap, readable, Option.map_eq_some_iff, Prod.mk.injEq, Prod.exists]
  constructor
  · rintro ⟨_, _, hrow, _, rfl, rfl, rfl⟩
    exact hrow
  · intro hrow
    exact ⟨id, some value, hrow, value, rfl, rfl, rfl⟩

lemma Inv.page {s : ScanState Id V} (h : Inv name s) (hcount : 1 ≤ count) {cursor : String}
    (hcursor : s.cursor = some cursor) (hgood : CursorListed name count s .page) :
    Inv name (MaterializeScan.turn name count s cursor) := by
  obtain ⟨hlisted, hne⟩ := hgood cursor hcursor
  by_cases hempty : cursor = ""
  · subst hempty
    have hnone := h.begin hcursor
    have hpage : (materializeScan name s.docs "" count).entries = _ :=
      materializeScan_start s.docs count
    rw [hpage] at hne
    refine h.turn hcount hpage hne (pairwise_readable s.docs.sorted)
      (fun id hid => by rw [hnone] at hid; cases hid) fun id hid => .inr ?_
    obtain ⟨value, hvalue⟩ := h.live id hid
    exact List.mem_map.mpr ⟨(id, value),
      mem_filterMap_readable.mpr (SortedMap.get_eq_some_iff.mp hvalue), rfl⟩
  · obtain ⟨last, hlast, rfl, hle, honce⟩ := h.within cursor hcursor hempty
    obtain ⟨_, hsame, hid, hfirst⟩ := hlisted.resolve_left hempty
    obtain rfl := Option.some.inj (hlast.symm.trans hsame)
    have hmem : ∀ {e : Id × V}, e ∈ after s.docs last ↔
        (e.1, some e.2) ∈ s.docs.entries ∧ last < e.1 := by
      intro e
      rw [after, mem_filterMap_readable, List.mem_filter, decide_eq_true_eq]
    have hpage := materializeScan_after hid hfirst hempty count
    rw [hpage] at hne
    refine h.turn hcount hpage hne (pairwise_readable (s.docs.sorted.filter _))
      (fun id hid e he => lt_of_le_of_lt (hle id hid) (hmem.mp he).2) fun id hid => ?_
    obtain hbefore | hafter := le_or_gt id last
    · exact .inl (honce id hid hbefore)
    · obtain ⟨value, hvalue⟩ := h.live id hid
      exact .inr (List.mem_map.mpr ⟨(id, value),
        hmem.mpr ⟨SortedMap.get_eq_some_iff.mp hvalue, hafter⟩, rfl⟩)

/-- One step of the scan or of another writer. -/
lemma Inv.step (hcount : 1 ≤ count) {s t : ScanState Id V} {step : ScanStep Id V}
    (h : Inv name s) (hgood : CursorListed name count s step)
    (hstep : next name count s step = some t) : Inv name t := by
  cases step with
  | insert id value =>
    obtain rfl := Option.some.inj hstep
    exact h.insert id value
  | delete id =>
    obtain rfl := Option.some.inj hstep
    exact h.delete id
  | page =>
    cases hcursor : s.cursor with
    | none =>
      simp only [next, hcursor] at hstep
      cases hstep
    | some cursor =>
      simp only [next, hcursor] at hstep
      obtain rfl := Option.some.inj hstep
      exact h.page hcount hcursor hgood

end Run

/-- The text of the first column of a key of two digits. -/
def tens (key : Nat) : String := toString (key / 10)

/-- Rows with the keys (1, 1), (2, 1) and (2, 2); the last two share their id. -/
def rows : Documents Nat Unit :=
  ((SortedMap.empty.insert 11 (some ())).insert 21 (some ())).insert 22 (some ())

/-- Three documents, each with its id as its value. -/
def three : Documents String String :=
  ((SortedMap.empty.insert "a" (some "a")).insert "b" (some "b")).insert "c" (some "c")

end NodedbLite.MaterializeScan
