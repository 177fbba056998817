import Mathlib

/-! A device some of whose calls fail. A budget says how many calls succeed before the first
that does not; a program run against a budget stops at that call, with everything it did
before left in place. -/

/-- How many calls still succeed; `none` when all of them do. -/
abbrev CallBudget := Option Nat

namespace CallBudget

/-- One call: `none` when it fails, otherwise what is left. -/
def spend : CallBudget → Option CallBudget
  | none => some none
  | some 0 => none
  | some (n + 1) => some (some n)

variable {D : Type*}

/-- Make the writes in order until one fails. -/
def perform : CallBudget → List (D → D) → D → Option CallBudget × D
  | budget, [], d => (some budget, d)
  | budget, write :: writes, d =>
    match spend budget with
    | none => (none, d)
    | some rest => perform rest writes (write d)

@[simp] lemma spend_zero : spend (some 0) = none := rfl

@[simp] lemma spend_succ (n : Nat) : spend (some (n + 1)) = some (some n) := rfl

lemma perform_none (writes : List (D → D)) (d : D) :
    perform none writes d = (some none, writes.foldl (fun d write => write d) d) := by
  induction writes generalizing d with
  | nil => rfl
  | cons write writes ih => exact ih (write d)

end CallBudget
