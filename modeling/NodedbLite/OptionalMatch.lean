import NodedbLite.MatchGraph

/-! OPTIONAL MATCH. The extensions of all input rows are computed together and given back to the rows
they agree with, so a row takes the extensions of every equal row as well as its own. -/
namespace NodedbLite.Match

open CappedOutput

variable (csr : Csr) (frontier : Frontier) (clause : MatchClause)

/-- The extensions of one row by the clause. -/
def extensions (row : BindingRow) : List BindingRow := executeClause csr frontier clause [row]

/-- What a left outer join gives for one row. -/
def outerRow (row : BindingRow) : List BindingRow :=
  if (extensions csr frontier clause row).isEmpty then [nullRow clause row]
  else extensions csr frontier clause row

/-- Each input row gives its extensions, or itself once with nulls. -/
def LeftOuter (input : List BindingRow) : Prop :=
  ∀ row ∈ input, (leftJoinRow (executeClause csr frontier clause input) clause row).Perm
    (outerRow csr frontier clause row)

/-- The extensions of a row agree with it and no others do, or it has none and the only other one
that agrees is the row with nulls itself. -/
def OwnExtensions (row : BindingRow) (others : List BindingRow) : Prop :=
  (∀ x ∈ extensions csr frontier clause row, agreesWith row x = true) ∧
      (∀ x ∈ others.flatMap (extensions csr frontier clause), ¬ agreesWith row x = true) ∨
    extensions csr frontier clause row = [] ∧
      (others.flatMap (extensions csr frontier clause)).filter (agreesWith row)
        = [nullRow clause row]

variable {csr frontier clause} {input : List BindingRow} {row : BindingRow}

lemma executeClause_eq_flatMap (input : List BindingRow) : executeClause csr frontier clause input
    = input.flatMap (extensions csr frontier clause) := by
  have hfold : ∀ (patterns : List PatternChain) (rows : List BindingRow),
      patterns.foldl (fun rows chain => rows.flatMap (executeChain csr frontier chain)) rows
        = rows.flatMap fun row =>
          patterns.foldl (fun rows chain => rows.flatMap (executeChain csr frontier chain)) [row] := by
    intro patterns
    induction patterns with
    | nil => simp
    | cons chain patterns ih =>
      intro rows
      rw [List.foldl_cons, ih, List.flatMap_assoc]
      apply List.flatMap_congr
      intro row _
      rw [List.foldl_cons, List.flatMap_singleton, ← ih]
  exact hfold clause.patterns input

lemma agreesWith_iff {inputRow clauseRow : BindingRow} : agreesWith inputRow clauseRow = true ↔
    ∀ name v w, inputRow.get name = some v → clauseRow.get name = some w → w = v := by
  rw [agreesWith, List.all_eq_true]
  constructor
  · intro h name v w hv hw
    have hentry := h (name, v) (SortedMap.get_eq_some_iff.mp hv)
    simpa [hw] using hentry
  · rintro h ⟨name, v⟩ hentry
    cases hw : clauseRow.get name with
    | none => simp
    | some w => simpa [hw] using h name v w (SortedMap.get_eq_some_iff.mpr hentry) hw

lemma agreesWith_nullRow (row : BindingRow) : agreesWith row (nullRow clause row) = true := by
  have hkeep : ∀ (names : List String) (filled : BindingRow) (name v : String),
      filled.get name = some v →
      (names.foldl (fun row name =>
        if (row.get name).isSome then row else row.insert name "NULL") filled).get name = some v := by
    intro names
    induction names with
    | nil => exact fun filled name v h => h
    | cons first names ih =>
      intro filled name v h
      apply ih
      by_cases hfirst : (filled.get first).isSome
      · simpa only [if_pos hfirst] using h
      · have hne : name ≠ first := by
          intro heq
          exact hfirst (by rw [← heq, h]; rfl)
        simpa only [if_neg hfirst, SortedMap.get_insert, if_neg hne] using h
  rw [agreesWith_iff]
  intro name v w hv hw
  rw [nullRow, hkeep _ row name v hv] at hw
  exact (Option.some.inj hw).symm

/-- Up to order, the clause rows that agree with a row are its own and those of the others. -/
lemma filter_agreesWith_perm {before after : List BindingRow}
    (hinput : input = before ++ row :: after) :
    ((executeClause csr frontier clause input).filter (agreesWith row)).Perm
      ((extensions csr frontier clause row).filter (agreesWith row) ++
        ((before ++ after).flatMap (extensions csr frontier clause)).filter (agreesWith row)) := by
  rw [executeClause_eq_flatMap, hinput, ← List.filter_append, ← List.flatMap_cons]
  exact (List.perm_middle.flatMap_right _).filter _

/-- Taking what passes a test from two lists, or a default that passes it, gives the first list or
the default exactly when all of the first passes and nothing of the second does, or the first is
empty and the second gives the default. -/
lemma passing_perm_iff {α : Type} {p : α → Bool} {own foreign joined : List α} {default : α}
    (hdefault : p default = true) (hperm : joined.Perm (own.filter p ++ foreign.filter p)) :
    (if joined.isEmpty then [default] else joined).Perm (if own.isEmpty then [default] else own) ↔
      (∀ x ∈ own, p x = true) ∧ (∀ x ∈ foreign, ¬ p x = true) ∨
        own = [] ∧ foreign.filter p = [default] := by
  rw [← List.filter_eq_nil_iff, ← List.filter_eq_self]
  by_cases hjoined : joined = []
  · subst hjoined
    obtain ⟨hown, hforeign⟩ := List.append_eq_nil_iff.mp hperm.nil_eq.symm
    rw [hown, hforeign]
    constructor
    · intro h
      have hsame : (if own.isEmpty then [default] else own) = [default] := by
        simpa using h.symm
      by_cases hempty : own = []
      · exact Or.inl ⟨hempty.symm, rfl⟩
      · rw [if_neg (by simpa using hempty)] at hsame
        simp [hsame, hdefault] at hown
    · rintro (⟨hempty, -⟩ | ⟨-, hnil⟩)
      · simp [← hempty]
      · simp at hnil
  · rw [if_neg (by simpa using hjoined)]
    by_cases hempty : own = []
    · subst hempty
      have hforeign : foreign.filter p ≠ [] := by
        intro hnil
        rw [hnil] at hperm
        exact hjoined (by simpa using hperm)
      have hsame : joined.Perm (foreign.filter p) := by simpa using hperm
      simp only [List.isEmpty_nil, if_true, hforeign, and_false, false_or, true_and]
      rw [hsame.congr_left, List.perm_singleton]
    · rw [if_neg (by simpa using hempty)]
      simp only [hempty, false_and, or_false]
      constructor
      · intro h
        have hall : own.filter p = own := by
          rw [List.filter_eq_self]
          intro x hx
          have hx' := hperm.subset (h.symm.subset hx)
          rw [← List.filter_append] at hx'
          exact (List.mem_filter.mp hx').2
        have hlength := h.symm.trans hperm
        rw [hall] at hlength
        have hzero : (foreign.filter p).length = 0 := by
          have := hlength.length_eq
          rw [List.length_append] at this
          omega
        exact ⟨hall, List.length_eq_zero_iff.mp hzero⟩
      · rintro ⟨hown, hforeign⟩
        rw [hown, hforeign, List.append_nil] at hperm
        exact hperm

/-- One row's part of the join is that of a left outer join exactly when its extensions are its
own. -/
lemma leftJoinRow_perm_iff {before after : List BindingRow} (hinput : input = before ++ row :: after) :
    (leftJoinRow (executeClause csr frontier clause input) clause row).Perm
        (outerRow csr frontier clause row) ↔
      OwnExtensions csr frontier clause row (before ++ after) :=
  passing_perm_iff (agreesWith_nullRow row) (filter_agreesWith_perm hinput)

/-- OPTIONAL MATCH is a left outer join exactly when, at every position of the input, the row's
extensions are its own. -/
theorem optional_match_left_outer_iff (csr : Csr) (frontier : Frontier) (clause : MatchClause)
    (input : List BindingRow) : LeftOuter csr frontier clause input ↔
      ∀ before row after, input = before ++ row :: after →
        OwnExtensions csr frontier clause row (before ++ after) := by
  constructor
  · intro h before row after hinput
    rw [← leftJoinRow_perm_iff hinput]
    exact h row (by simp [hinput])
  · intro h row hrow
    obtain ⟨before, after, hinput⟩ := List.append_of_mem hrow
    rw [leftJoinRow_perm_iff hinput]
    exact h before row after hinput

/-- `(src)-[:K]->(dst)`. -/
def knows (src dst : String) : PatternTriple :=
  ⟨⟨some src, none⟩, ⟨none, some "K", .right, 1, 1⟩, ⟨some dst, none⟩⟩

/-- One edge from `x` to `y`. -/
def oneEdge : PropertyGraph :=
  ⟨["x", "y"], by decide, fun _ _ => false, [⟨"x", "K", "y"⟩], by simp⟩

/-- `OPTIONAL MATCH (a)-[:K]->(b)`. -/
def optionalKnows : MatchClause := ⟨[[knows "a" "b"]], true⟩

/-- Two equal rows with one extension each give four rows. -/
theorem repeated_row_multiplied :
    ¬ LeftOuter (Csr.ofGraph oneEdge) none optionalKnows
      [SortedMap.empty.insert "a" "x", SortedMap.empty.insert "a" "x"] := by
  intro h
  have hlen := (h _ List.mem_cons_self).length_eq
  revert hlen
  decide +kernel

end NodedbLite.Match
