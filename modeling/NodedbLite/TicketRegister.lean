import Mathlib

/-! A register that hands out increasing numbers. Each number is taken from memory at once, and
handed over when the write that records it has landed; writes land in any order, and a reload
brings back what landed last. -/
namespace TicketRegister

/-- A write on its way: the bound it records, and the number handed over once it has landed. -/
structure Write where
  bound : ℕ
  ticket : Option ℕ

structure Register where
  memory : ℕ
  stored : ℕ
  flying : List Write
  returned : List ℕ

def tickets (flying : List Write) : List ℕ := flying.filterMap Write.ticket

/-- Nothing handed over or on its way will be taken again, neither from memory nor after a
reload. -/
structure Fresh (r : Register) : Prop where
  returned_le : ∀ n ∈ r.returned, n ≤ r.stored
  stored_le : r.stored ≤ r.memory
  flying_le : ∀ w ∈ r.flying, w.bound ≤ r.memory
  ticket_le : ∀ w ∈ r.flying, ∀ n, w.ticket = some n → n ≤ w.bound
  nodup : (r.returned ++ tickets r.flying).Nodup

lemma tickets_append (a b : List Write) : tickets (a ++ b) = tickets a ++ tickets b :=
  List.filterMap_append

lemma tickets_cons (w : Write) (b : List Write) :
    tickets (w :: b) = w.ticket.toList ++ tickets b := by
  obtain ⟨bound, ticket⟩ := w
  cases ticket <;> rfl

lemma mem_tickets {flying : List Write} {n : ℕ} :
    n ∈ tickets flying ↔ ∃ w ∈ flying, w.ticket = some n := List.mem_filterMap

variable {m σ : ℕ} {a b : List Write} {w : Write} {ret : List ℕ}

lemma Fresh.le_memory {r : Register} (h : Fresh r) {n : ℕ}
    (hn : n ∈ r.returned ++ tickets r.flying) : n ≤ r.memory := by
  rcases List.mem_append.mp hn with hret | hfly
  · exact (h.returned_le n hret).trans h.stored_le
  · obtain ⟨w, hw, hticket⟩ := mem_tickets.mp hfly
    exact (h.ticket_le w hw n hticket).trans (h.flying_le w hw)

lemma Fresh.take (h : Fresh ⟨m, σ, a, ret⟩) :
    Fresh ⟨m + 1, σ, a ++ [⟨m + 1, some (m + 1)⟩], ret⟩ where
  returned_le := h.returned_le
  stored_le := by
    have hle : σ ≤ m := h.stored_le
    change σ ≤ m + 1
    omega
  flying_le w hw := by
    change w.bound ≤ m + 1
    rcases List.mem_append.mp hw with hw | hw
    · have hle : w.bound ≤ m := h.flying_le w hw
      omega
    · rw [List.mem_singleton.mp hw]
  ticket_le w hw n hn := by
    rcases List.mem_append.mp hw with hw | hw
    · exact h.ticket_le w hw n hn
    · rw [List.mem_singleton.mp hw] at hn ⊢
      exact (Option.some.inj hn).ge
  nodup := by
    change (ret ++ tickets (a ++ [⟨m + 1, some (m + 1)⟩])).Nodup
    rw [tickets_append, ← List.append_assoc]
    apply List.Nodup.append h.nodup (List.nodup_singleton _)
    intro n hn hnew
    have hle : n ≤ m := h.le_memory hn
    rw [List.mem_singleton.mp hnew] at hle
    omega

lemma Fresh.raise (h : Fresh ⟨m, σ, a, ret⟩) (n : ℕ) :
    Fresh ⟨max m n, σ, a ++ [⟨max m n, none⟩], ret⟩ where
  returned_le := h.returned_le
  stored_le := by
    have hle : σ ≤ m := h.stored_le
    change σ ≤ max m n
    omega
  flying_le w hw := by
    change w.bound ≤ max m n
    rcases List.mem_append.mp hw with hw | hw
    · have hle : w.bound ≤ m := h.flying_le w hw
      omega
    · rw [List.mem_singleton.mp hw]
  ticket_le w hw k hk := by
    rcases List.mem_append.mp hw with hw | hw
    · exact h.ticket_le w hw k hk
    · rw [List.mem_singleton.mp hw] at hk
      cases hk
  nodup := by
    have hsame : tickets (a ++ [⟨max m n, none⟩]) = tickets a := by
      rw [tickets_append, tickets_cons]
      exact List.append_nil _
    change (ret ++ tickets (a ++ [⟨max m n, none⟩])).Nodup
    rw [hsame]
    exact h.nodup

lemma Fresh.lose (h : Fresh ⟨m, σ, a ++ w :: b, ret⟩) : Fresh ⟨m, σ, a ++ b, ret⟩ where
  returned_le := h.returned_le
  stored_le := h.stored_le
  flying_le x hx := h.flying_le x (List.mem_append.mpr ((List.mem_append.mp hx).imp_right
    (List.mem_cons_of_mem w)))
  ticket_le x hx := h.ticket_le x (List.mem_append.mpr ((List.mem_append.mp hx).imp_right
    (List.mem_cons_of_mem w)))
  nodup := by
    apply List.Nodup.sublist _ h.nodup
    apply List.Sublist.append_left
    exact List.Sublist.filterMap _ (List.Sublist.append_left (List.sublist_cons_self w b) a)

lemma Fresh.land (h : Fresh ⟨m, σ, a ++ w :: b, ret⟩) (hle : σ ≤ w.bound) :
    Fresh ⟨m, w.bound, a ++ b, ret ++ w.ticket.toList⟩ where
  returned_le n hn := by
    change n ≤ w.bound
    rcases List.mem_append.mp hn with hn | hn
    · exact (h.returned_le n hn).trans hle
    · exact h.ticket_le w (List.mem_append_right a List.mem_cons_self) n
        (Option.mem_toList.mp hn)
  stored_le := h.flying_le w (List.mem_append_right a List.mem_cons_self)
  flying_le := h.lose.flying_le
  ticket_le := h.lose.ticket_le
  nodup := by
    have hperm : (ret ++ tickets (a ++ w :: b)).Perm
        (ret ++ w.ticket.toList ++ tickets (a ++ b)) := by
      rw [tickets_append, tickets_cons, tickets_append, List.append_assoc]
      apply List.Perm.append_left
      rw [← List.append_assoc, ← List.append_assoc]
      exact List.Perm.append_right _ List.perm_append_comm
    exact hperm.nodup_iff.mp h.nodup

lemma Fresh.reload (h : Fresh ⟨m, σ, a, ret⟩) : Fresh ⟨σ, σ, [], ret⟩ where
  returned_le := h.returned_le
  stored_le := le_refl σ
  flying_le _ hw := absurd hw List.not_mem_nil
  ticket_le _ hw := absurd hw List.not_mem_nil
  nodup := by
    change (ret ++ []).Nodup
    rw [List.append_nil]
    exact (List.nodup_append.mp h.nodup).1

end TicketRegister
