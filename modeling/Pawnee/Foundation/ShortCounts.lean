import Mathlib.Data.List.Basic

/-!
# Sinks that take less than they are offered

A sink is offered blocks, one after the other, and takes a front part of each.  A
sender that goes on to its next block whatever has been taken keeps the order
(`taken_sublist`), and loses nothing if and only if every block is taken whole
(`taken_eq_offered_iff`).
-/

namespace ShortCounts

variable {α : Type}

/-- All blocks of a list of blocks and counts. -/
def offered (l : List (List α × Nat)) : List α := (l.map Prod.fst).flatten

/-- What is taken of them. -/
def taken (l : List (List α × Nat)) : List α := (l.map fun x => x.1.take x.2).flatten

theorem offered_cons (x : List α × Nat) (l : List (List α × Nat)) :
    offered (x :: l) = x.1 ++ offered l := List.flatten_cons

theorem taken_cons (x : List α × Nat) (l : List (List α × Nat)) :
    taken (x :: l) = x.1.take x.2 ++ taken l := List.flatten_cons

/-- What is taken is in the order in which it is offered. -/
theorem taken_sublist : ∀ l : List (List α × Nat), (taken l).Sublist (offered l)
  | [] => .refl _
  | x :: l => by
      rw [taken_cons, offered_cons]
      exact (List.take_sublist _ _).append (taken_sublist l)

/-- Nothing is lost exactly if every block is taken whole. -/
theorem taken_eq_offered_iff : ∀ {l : List (List α × Nat)},
    taken l = offered l ↔ ∀ x ∈ l, x.1.length ≤ x.2
  | [] => by simp [taken, offered]
  | x :: l => by
      have ih := taken_eq_offered_iff (l := l)
      rw [taken_cons, offered_cons, List.forall_mem_cons, ← ih]
      constructor
      · intro h
        have hlen := congrArg List.length h
        have hfront := List.length_take_le x.2 x.1
        have hrest := (taken_sublist l).length_le
        simp only [List.length_append, List.length_take] at hlen
        -- both parts can only be shorter, so neither is
        have hwhole : x.1.length ≤ x.2 := by omega
        rw [List.take_of_length_le hwhole] at h
        exact ⟨hwhole, List.append_cancel_left h⟩
      · rintro ⟨hwhole, hrest⟩
        rw [List.take_of_length_le hwhole, hrest]

end ShortCounts
