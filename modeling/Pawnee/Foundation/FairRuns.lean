import Mathlib.Logic.Relation
import Mathlib.Order.Filter.AtTopBot.Basic
import Mathlib.Order.WellFounded

/-!
# Fair runs

A run goes on for ever.  At each moment a step is made, or nothing happens (`IsRun`), so a
run that has come to its end stays where it is.

`Fair` is strong fairness for one process: if it is ready again and again, it moves again
and again.  A process whose program gets smaller with each move can move finitely often,
so in the end it is not ready (`Fair.eventually_not_ready`).

Hence a lock is free again and again (`frequently_free`): if it stayed taken, one process
would keep it, ready at all times and with less and less to do.
-/

namespace FairRuns

open Filter

variable {σ α : Type}

/-- At each moment there is a step, or nothing happens. -/
def IsRun (r : σ → σ → Prop) (run : Nat → σ) : Prop :=
  ∀ n, run (n + 1) = run n ∨ r (run n) (run (n + 1))

/-- What is ready again and again moves again and again. -/
def Fair (ready : σ → Prop) (moves : σ → σ → Prop) (run : Nat → σ) : Prop :=
  (∃ᶠ n in atTop, ready (run n)) → ∃ᶠ n in atTop, moves (run n) (run (n + 1))

/-- The run makes no move here, or one that makes `f` smaller. -/
def Lessens (moves : σ → σ → Prop) (r : α → α → Prop) (f : σ → α) (s s' : σ) : Prop :=
  (f s' = f s ∧ ¬ moves s s') ∨ r (f s') (f s)

section

variable {ready : σ → Prop} {moves : σ → σ → Prop} {run : Nat → σ} {r : α → α → Prop} {f : σ → α}

/-- There is an end to the moves that make something smaller. -/
theorem eventually_not_moves (hr : WellFounded r)
    (h : ∀ᶠ n in atTop, Lessens moves r f (run n) (run (n + 1))) :
    ∀ᶠ n in atTop, ¬ moves (run n) (run (n + 1)) := by
  obtain ⟨N, hN⟩ := eventually_atTop.mp h
  -- the least program that comes after `N`
  obtain ⟨_, ⟨M, hM, rfl⟩, hleast⟩ :=
    hr.has_min ((fun n => f (run n)) '' Set.Ici N) ⟨_, N, Set.mem_Ici.mpr le_rfl, rfl⟩
  have hstays : ∀ n ≥ M, f (run n) = f (run M) := by
    intro n hn
    induction n, hn using Nat.le_induction with
    | base => rfl
    | succ n hn ih =>
        rcases hN n (le_trans hM hn) with ⟨hsame, -⟩ | hless
        · rw [hsame, ih]
        · rw [ih] at hless
          exact absurd hless (hleast _ ⟨n + 1, le_trans hM (Nat.le_succ_of_le hn), rfl⟩)
  filter_upwards [eventually_ge_atTop M] with n hn
  rcases hN n (le_trans hM hn) with ⟨-, hno⟩ | hless
  · exact hno
  · rw [hstays n hn] at hless
    exact absurd hless (hleast _ ⟨n + 1, le_trans hM (Nat.le_succ_of_le hn), rfl⟩)

theorem Fair.eventually_not_ready (hfair : Fair ready moves run) (hr : WellFounded r)
    (h : ∀ᶠ n in atTop, Lessens moves r f (run n) (run (n + 1))) :
    ∀ᶠ n in atTop, ¬ ready (run n) := by
  by_contra hready
  rw [not_eventually] at hready
  simp only [not_not] at hready
  exact hfair hready (eventually_not_moves hr h)

end

/-- A lock is free again and again, if its holder is ready at all times, has less to do
after each move, and keeps the lock as long as it is not free. -/
theorem frequently_free {ι : Type} {ready : ι → σ → Prop} {moves : ι → σ → σ → Prop}
    {r : α → α → Prop} {run : Nat → σ} (f : ι → σ → α) (holds : ι → σ → Prop) (free : σ → Prop)
    (hr : WellFounded r) (hfair : ∀ i, Fair (ready i) (moves i) run)
    (hholder : ∀ n, ¬ free (run n) → ∃ i, holds i (run n))
    (hready : ∀ n i, holds i (run n) → ready i (run n))
    (hless : ∀ n i, holds i (run n) → Lessens (moves i) r (f i) (run n) (run (n + 1)))
    (hkeeps : ∀ n i, holds i (run n) → ¬ free (run (n + 1)) → holds i (run (n + 1))) :
    ∃ᶠ n in atTop, free (run n) := by
  by_contra htaken
  rw [not_frequently] at htaken
  obtain ⟨N, hN⟩ := eventually_atTop.mp htaken
  obtain ⟨i, hi⟩ := hholder N (hN N le_rfl)
  have hholds : ∀ n ≥ N, holds i (run n) := by
    intro n hn
    induction n, hn using Nat.le_induction with
    | base => exact hi
    | succ n hn ih => exact hkeeps n i ih (hN _ (Nat.le_succ_of_le hn))
  have hnot : ∀ᶠ n in atTop, ¬ ready i (run n) :=
    (hfair i).eventually_not_ready hr
      (eventually_atTop.mpr ⟨N, fun n hn => hless n i (hholds n hn)⟩)
  obtain ⟨M, hM⟩ := eventually_atTop.mp hnot
  exact hM (max M N) (le_max_left _ _) (hready _ i (hholds _ (le_max_right _ _)))

/-- A run can follow any path and stay at its end. -/
theorem exists_run_of_path {r : σ → σ → Prop} {a b : σ} (h : Relation.ReflTransGen r a b) :
    ∃ run, IsRun r run ∧ run 0 = a ∧ ∀ᶠ n in atTop, run n = b := by
  induction h using Relation.ReflTransGen.head_induction_on with
  | refl => exact ⟨fun _ => b, fun _ => .inl rfl, rfl, .of_forall fun _ => rfl⟩
  | @head a c hstep _ ih =>
      obtain ⟨run, hrun, hzero, hend⟩ := ih
      refine ⟨fun n => n.casesOn a run, fun n => ?_, rfl, ?_⟩
      · cases n with
        | zero => exact .inr (show r a (run 0) from hzero ▸ hstep)
        | succ n => exact hrun n
      · obtain ⟨N, hN⟩ := eventually_atTop.mp hend
        refine eventually_atTop.mpr ⟨N + 1, fun n hn => ?_⟩
        obtain ⟨m, rfl⟩ := Nat.exists_eq_add_of_lt hn
        exact hN (N + m) (Nat.le_add_right _ _)

end FairRuns
