import Pawnee.Foundation.Program

/-!
# Machines that refuse operations

A machine takes operations one after the other.  Its step is a program that makes
no call: it returns an answer and the next state, or it stops.  An abstract machine
says what the answers should be, and which operations are allowed in a state.

`Simulates` relates the two, one operation at a time: an allowed operation is
answered as it should be, and any other one stops.  Over a list of operations the
machine then answers as the abstract one exactly if every operation is allowed
when its turn comes (`Simulates.runOps_returns_iff`).
-/

namespace Effects

namespace Machine

variable {E : Type} {R : E → Type} {S Op A σ τ : Type}

/-- The answers to a list of operations and the state behind them. -/
def runOps (step : σ → Op → Prog E R S (A × σ)) : List Op → σ → Prog E R S (List A × σ)
  | [], s => .ret ([], s)
  | op :: ops, s => do
      let (answer, s) ← step s op
      let (answers, s) ← runOps step ops s
      pure (answer :: answers, s)

/-- A machine that answers every operation, and the operations it allows. -/
structure Spec (Op A τ : Type) where
  answer : τ → Op → A
  next : τ → Op → τ
  Allowed : τ → Op → Prop

variable {spec : Spec Op A τ}

/-- The state behind some operations. -/
def Spec.after (spec : Spec Op A τ) (t : τ) (ops : List Op) : τ := ops.foldl spec.next t

@[simp] theorem Spec.after_nil (t : τ) : spec.after t [] = t := rfl

@[simp] theorem Spec.after_cons (t : τ) (op : Op) (ops : List Op) :
    spec.after t (op :: ops) = spec.after (spec.next t op) ops := rfl

/-- The answers to some operations. -/
def Spec.answers (spec : Spec Op A τ) : τ → List Op → List A
  | _, [] => []
  | t, op :: ops => spec.answer t op :: spec.answers (spec.next t op) ops

/-- Every operation is allowed when its turn comes. -/
def Spec.AllAllowed (spec : Spec Op A τ) : τ → List Op → Prop
  | _, [] => True
  | t, op :: ops => spec.Allowed t op ∧ spec.AllAllowed (spec.next t op) ops

theorem Spec.allAllowed_append {t : τ} {ops ops' : List Op} :
    spec.AllAllowed t (ops ++ ops') ↔
      spec.AllAllowed t ops ∧ spec.AllAllowed (spec.after t ops) ops' := by
  induction ops generalizing t with
  | nil => simp [AllAllowed]
  | cons op ops ih => simp [AllAllowed, ih, and_assoc]

/-- All operations are allowed exactly if each one is, behind those before it. -/
theorem Spec.allAllowed_iff {t : τ} {ops : List Op} :
    spec.AllAllowed t ops ↔
      ∀ before op after, ops = before ++ op :: after → spec.Allowed (spec.after t before) op := by
  constructor
  · rintro h before op after rfl
    exact (allAllowed_append.mp h).2.1
  · intro h
    induction ops generalizing t with
    | nil => trivial
    | cons op ops ih =>
        refine ⟨h [] op ops rfl, ih fun before op' after heq => ?_⟩
        subst heq
        exact h (op :: before) op' after rfl

/-- The machine does what the abstract machine does while its operations are
allowed, and stops at the first one that is not. -/
structure Simulates (step : σ → Op → Prog E R S (A × σ)) (spec : Spec Op A τ)
    (Rel : σ → τ → Prop) : Prop where
  allowed : ∀ {s t op}, Rel s t → spec.Allowed t op →
    ∃ s', step s op = .ret (spec.answer t op, s') ∧ Rel s' (spec.next t op)
  refused : ∀ {s t op}, Rel s t → ¬ spec.Allowed t op → ∃ x, step s op = .stop x

variable {step : σ → Op → Prog E R S (A × σ)} {Rel : σ → τ → Prop}

/-- A list of operations that are all allowed is answered as it should be. -/
theorem Simulates.runOps_eq (h : Simulates step spec Rel) {ops : List Op} {s : σ} {t : τ}
    (hst : Rel s t) (hall : spec.AllAllowed t ops) :
    ∃ s', runOps step ops s = .ret (spec.answers t ops, s') ∧ Rel s' (spec.after t ops) := by
  induction ops generalizing s t with
  | nil => exact ⟨s, rfl, hst⟩
  | cons op ops ih =>
      obtain ⟨s₁, hstep, hrel₁⟩ := h.allowed hst hall.1
      obtain ⟨s₂, hrest, hrel₂⟩ := ih hrel₁ hall.2
      refine ⟨s₂, ?_, hrel₂⟩
      simp only [runOps, hstep, hrest, Prog.ret_bind, Prog.pure_eq, Spec.answers]

/-- A list of operations that are not all allowed stops the machine. -/
theorem Simulates.runOps_stop (h : Simulates step spec Rel) {ops : List Op} {s : σ} {t : τ}
    (hst : Rel s t) (hno : ¬ spec.AllAllowed t ops) : ∃ x, runOps step ops s = .stop x := by
  induction ops generalizing s t with
  | nil => exact absurd trivial hno
  | cons op ops ih =>
      by_cases hop : spec.Allowed t op
      · obtain ⟨s₁, hstep, hrel₁⟩ := h.allowed hst hop
        obtain ⟨x, hrest⟩ := ih hrel₁ fun hall => hno ⟨hop, hall⟩
        exact ⟨x, by simp only [runOps, hstep, hrest, Prog.ret_bind, Prog.stop_bind]⟩
      · obtain ⟨x, hstep⟩ := h.refused hst hop
        exact ⟨x, by simp only [runOps, hstep, Prog.stop_bind]⟩

/-- The machine gets through a list of operations exactly if all are allowed. -/
theorem Simulates.runOps_returns_iff (h : Simulates step spec Rel) {ops : List Op} {s : σ} {t : τ}
    (hst : Rel s t) : (∃ v, runOps step ops s = .ret v) ↔ spec.AllAllowed t ops := by
  constructor
  · rintro ⟨v, hv⟩
    by_contra hno
    obtain ⟨x, hx⟩ := h.runOps_stop hst hno
    cases hv.symm.trans hx
  · intro hall
    obtain ⟨s', hs', -⟩ := h.runOps_eq hst hall
    exact ⟨_, hs'⟩

end Machine

end Effects
