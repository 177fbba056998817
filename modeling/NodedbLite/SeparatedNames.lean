import Mathlib

/-! Composite keys `name ++ sep :: rest` over free names. A scan under `name ++ [sep]` meets a key of
another name exactly if one name, with the separator, begins the other. -/
namespace SeparatedNames

variable {α : Type*} {sep : α} {a b : List α}

/-- `b` begins with `a` and a separator. -/
def Extends (sep : α) (a b : List α) : Prop := a ++ [sep] <+: b

instance [DecidableEq α] (sep : α) (a b : List α) : Decidable (Extends sep a b) :=
  inferInstanceAs (Decidable (a ++ [sep] <+: b))

/-- Neither name begins with the other and a separator. -/
def Apart (sep : α) (a b : List α) : Prop := ¬ Extends sep a b ∧ ¬ Extends sep b a

lemma eq_or_extends (rest : List α) (h : a ++ [sep] <+: b ++ sep :: rest) :
    a = b ∨ Extends sep a b ∨ Extends sep b a := by
  have hb : b ++ [sep] <+: b ++ sep :: rest := by
    rw [List.prefix_append_right_inj]
    exact List.cons_prefix_cons.mpr ⟨rfl, List.nil_prefix⟩
  rcases lt_trichotomy a.length b.length with hlt | heq | hgt
  · have hpre : a ++ [sep] <+: b ++ [sep] := List.prefix_of_prefix_length_le h hb (by simp; omega)
    have hb' : b <+: b ++ [sep] := List.prefix_append ..
    exact .inr (.inl (List.prefix_of_prefix_length_le hpre hb' (by simp; omega)))
  · have ha : a <+: b ++ sep :: rest := (List.prefix_append a [sep]).trans h
    have hab : a <+: b := List.prefix_of_prefix_length_le ha (List.prefix_append ..) heq.le
    exact .inl (hab.eq_of_length heq)
  · have hpre : b ++ [sep] <+: a ++ [sep] := List.prefix_of_prefix_length_le hb h (by simp; omega)
    have ha : a <+: a ++ [sep] := List.prefix_append ..
    exact .inr (.inr (List.prefix_of_prefix_length_le hpre ha (by simp; omega)))

lemma Apart.not_under (h : Apart sep a b) (hne : a ≠ b) (rest : List α) :
    ¬ a ++ [sep] <+: b ++ sep :: rest := by
  intro hp
  rcases eq_or_extends rest hp with heq | hab | hba
  · exact hne heq
  · exact h.1 hab
  · exact h.2 hba

end SeparatedNames
