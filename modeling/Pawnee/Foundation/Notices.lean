import Mathlib.Data.Finset.Card
import Mathlib.Tactic.Common

/-!
# Notices that can be lost

Items arrive, and each arrival raises a notice.  There is one notice for all of them:
a notice that is raised again before it is seen is still one.  When it is seen, a
handler is called.  It takes the items one by one until it finds none, and returns.
While it is called the notice is not seen, but it can be raised.

No item is forgotten although notices are (`Noticed`): the handler clears the notice
before it looks for items, so what arrives behind its back raises a new one.  Left to
itself the handler takes a number of steps that is known beforehand
(`HandlingRun.weight`), and it does not stop before all items are taken
(`Noticed.handling_or_taken`).
-/

namespace Notices

variable {ι : Type} [DecidableEq ι]

/-! ## States -/

/-- Where the handler is. -/
inductive Phase where
  /-- It has not been called. -/
  | idle
  /-- It looks for an item. -/
  | draining
  /-- It has found none. -/
  | returning
deriving DecidableEq, Repr

/-- The items, the notice, and the handler. -/
structure State (ι : Type) where
  /-- The items that have arrived and have not been taken. -/
  waiting : Finset ι
  /-- The notice is raised. -/
  raised : Bool
  phase : Phase

/-- Nothing has arrived. -/
def State.start : State ι := ⟨∅, false, .idle⟩

/-- An item arrives. -/
def State.arrive (s : State ι) (i : ι) : State ι := ⟨insert i s.waiting, true, s.phase⟩

/-- One step of the handler. -/
inductive Handling : State ι → State ι → Prop
  /-- The notice is seen. -/
  | enter {waiting : Finset ι} : Handling ⟨waiting, true, .idle⟩ ⟨waiting, false, .draining⟩
  | take {waiting : Finset ι} {raised : Bool} {i : ι} : i ∈ waiting →
      Handling ⟨waiting, raised, .draining⟩ ⟨waiting.erase i, raised, .draining⟩
  | empty {raised : Bool} : Handling ⟨∅, raised, .draining⟩ ⟨∅, raised, .returning⟩
  | leave {waiting : Finset ι} {raised : Bool} :
      Handling ⟨waiting, raised, .returning⟩ ⟨waiting, raised, .idle⟩

/-- Some steps of the handler, one after the other. -/
inductive HandlingRun : Nat → State ι → State ι → Prop
  | nil (s : State ι) : HandlingRun 0 s s
  | cons {n : Nat} {s s' s'' : State ι} : Handling s s' → HandlingRun n s' s'' →
      HandlingRun (n + 1) s s''

/-! ## No item is forgotten -/

/-- Items that wait have raised the notice, or the handler is looking for them. -/
def Noticed (s : State ι) : Prop :=
  s.waiting.Nonempty → s.raised = true ∨ s.phase = .draining

omit [DecidableEq ι] in
theorem noticed_start : Noticed (.start : State ι) := fun h => absurd h Finset.not_nonempty_empty

theorem noticed_arrive (s : State ι) (i : ι) : Noticed (s.arrive i) := fun _ => .inl rfl

theorem Handling.noticed {s s' : State ι} (hstep : Handling s s') (h : Noticed s) :
    Noticed s' := by
  cases hstep with
  | enter => exact fun _ => .inr rfl
  | take hi => exact fun _ => .inr rfl
  | empty => exact fun hne => absurd hne Finset.not_nonempty_empty
  | leave => exact fun hne => (h hne).imp_right nofun

/-- The handler does not make items wait. -/
theorem Handling.waiting_subset {s s' : State ι} (h : Handling s s') : s'.waiting ⊆ s.waiting := by
  cases h with
  | take hi => exact Finset.erase_subset _ _
  | enter | empty | leave => exact Finset.Subset.refl _

/-! ## The handler comes to its end -/

/-- How many steps the handler has still to make. -/
def State.weight (s : State ι) : Nat :=
  s.waiting.card + (if s.raised then 3 else 0) +
    match s.phase with
    | .idle => 0
    | .draining => 2
    | .returning => 1

theorem Handling.weight {s s' : State ι} (h : Handling s s') : s'.weight + 1 = s.weight := by
  cases h with
  | enter => simp [State.weight]
  | @take waiting raised i hi =>
      have hcard := Finset.card_erase_add_one hi
      simp only [State.weight]
      omega
  | empty => simp [State.weight]
  | leave => simp [State.weight]

/-- How far the handler is from its loop. -/
def Phase.fromLoop : Phase → Nat
  | .draining => 0
  | .idle => 1
  | .returning => 2

/-- Outside its loop the handler comes nearer to it. -/
theorem Handling.nears {s s' : State ι} (h : Handling s s')
    (hout : s.phase ≠ .draining) : s'.phase.fromLoop < s.phase.fromLoop := by
  cases h with
  | enter | leave => exact Nat.lt_succ_self _
  | take | empty => exact absurd rfl hout

/-- The handler does not leave its loop while an item waits. -/
theorem Handling.stays {s s' : State ι} (h : Handling s s') (hin : s.phase = .draining)
    (hwaits : s'.waiting.Nonempty) : s'.phase = .draining := by
  cases h with
  | enter => cases hin
  | take => rfl
  | empty => exact absurd hwaits Finset.not_nonempty_empty
  | leave => cases hin

/-- A handler that has nothing more to do has left nothing. -/
theorem Noticed.handling_or_taken {s : State ι} (h : Noticed s) :
    (∃ s', Handling s s') ∨ (s.waiting = ∅ ∧ s.raised = false ∧ s.phase = .idle) := by
  obtain ⟨waiting, raised, phase⟩ := s
  cases phase with
  | idle =>
      cases raised with
      | true => exact .inl ⟨_, .enter⟩
      | false =>
          refine .inr ⟨Finset.not_nonempty_iff_eq_empty.mp fun hne => ?_, rfl, rfl⟩
          rcases h hne with hr | hp
          · cases hr
          · cases hp
  | draining =>
      rcases waiting.eq_empty_or_nonempty with rfl | ⟨i, hi⟩
      · exact .inl ⟨_, .empty⟩
      · exact .inl ⟨_, .take hi⟩
  | returning => exact .inl ⟨_, .leave⟩

theorem HandlingRun.weight {n : Nat} {s s' : State ι} (h : HandlingRun n s s') :
    n + s'.weight = s.weight := by
  induction h with
  | nil s => exact Nat.zero_add _
  | cons hstep _ ih =>
      have hone := hstep.weight
      omega

theorem HandlingRun.noticed {n : Nat} {s s' : State ι} (h : HandlingRun n s s')
    (hs : Noticed s) : Noticed s' := by
  induction h with
  | nil s => exact hs
  | cons hstep _ ih => exact ih (hstep.noticed hs)

/-- The handler can be left to itself until all items are taken. -/
theorem Noticed.exists_run {s : State ι} (h : Noticed s) :
    ∃ n s', HandlingRun n s s' ∧ s'.waiting = ∅ ∧ s'.raised = false ∧ s'.phase = .idle := by
  -- each step takes one off the weight
  induction hw : s.weight generalizing s with
  | zero =>
      rcases h.handling_or_taken with ⟨s', hstep⟩ | htaken
      · have hone := hstep.weight
        omega
      · exact ⟨0, s, .nil s, htaken⟩
  | succ n ih =>
      rcases h.handling_or_taken with ⟨s', hstep⟩ | htaken
      · have hone := hstep.weight
        obtain ⟨k, s'', hrun, htaken⟩ := ih (hstep.noticed h) (by omega)
        exact ⟨k + 1, s'', .cons hstep hrun, htaken⟩
      · exact ⟨0, s, .nil s, htaken⟩

end Notices
