import Mathlib.Tactic.Common

/-!
# Programs with effects

A program is a tree.  It returns a value, stops for good, or makes a call and
goes on with the answer (`Prog`).  What a call does is not part of the tree, so
one program can be run alone or as one of many processes.

`Runs p tr out` says that `p`, given the answers in `tr`, makes exactly the
calls in `tr` and ends with `out`.  It quantifies over every answer, so a
property of all runs holds whatever the environment does.  `Steps p tr q` is the
same for a run that is still on its way: `p` has become `q`.  Every such run can
be completed (`Steps.complete`), so facts about completed runs speak about
processes that have not ended.

Most code looks at few answers.  `doing l p` makes the calls of `l` without
looking and goes on as `p`.  Writing a function in this form says all it does in
one equation.
-/

namespace Effects

/-- A program that makes calls `e : E`, answered in `R e`, stops with an `S` or
returns an `α`. -/
inductive Prog (E : Type) (R : E → Type) (S : Type) (α : Type) : Type where
  /-- Return a value. -/
  | ret (a : α)
  /-- End the process. -/
  | stop (s : S)
  /-- Make a call and go on with its answer. -/
  | op (e : E) (k : R e → Prog E R S α)

/-- A call with the answer it got. -/
abbrev Event {E : Type} (R : E → Type) := Sigma R

namespace Prog

variable {E : Type} {R : E → Type} {S α β γ : Type}

/-- Sequencing.  A stopped program stays stopped. -/
def bind : Prog E R S α → (α → Prog E R S β) → Prog E R S β
  | .ret a, f => f a
  | .stop s, _ => .stop s
  | .op e k, f => .op e fun r => (k r).bind f

instance : Monad (Prog E R S) where
  pure := .ret
  bind := bind

@[simp] theorem pure_eq (a : α) : (pure a : Prog E R S α) = .ret a := rfl

@[simp] theorem ret_bind (a : α) (f : α → Prog E R S β) : (Prog.ret a >>= f) = f a := rfl

@[simp] theorem stop_bind (s : S) (f : α → Prog E R S β) :
    (Prog.stop s >>= f : Prog E R S β) = .stop s := rfl

@[simp] theorem op_bind (e : E) (k : R e → Prog E R S α) (f : α → Prog E R S β) :
    (Prog.op e k >>= f) = .op e fun r => k r >>= f := rfl

theorem bind_bind (p : Prog E R S α) (f : α → Prog E R S β) (g : β → Prog E R S γ) :
    (p >>= f) >>= g = p >>= fun a => f a >>= g := by
  induction p with
  | ret a => rfl
  | stop s => rfl
  | op e k ih =>
      simp only [op_bind]
      exact congrArg (Prog.op e) (funext ih)

/-- Make one call and return its answer. -/
def call (e : E) : Prog E R S (R e) := .op e .ret

@[simp] theorem call_bind (e : E) (f : R e → Prog E R S α) :
    (call e >>= f) = .op e f := rfl

/-- Make the calls of a list without looking at the answers, then go on. -/
def doing : List E → Prog E R S α → Prog E R S α
  | [], p => p
  | e :: l, p => .op e fun _ => doing l p

@[simp] theorem doing_nil (p : Prog E R S α) : doing [] p = p := rfl

/-- A call whose answer is not looked at joins the list. -/
theorem op_const (e : E) (p : Prog E R S α) : (Prog.op e fun _ => p) = doing [e] p := rfl

@[simp] theorem doing_bind (l : List E) (p : Prog E R S α) (f : α → Prog E R S β) :
    (doing l p >>= f) = doing l (p >>= f) := by
  induction l with
  | nil => rfl
  | cons e l ih => simp only [doing, op_bind, ih]

@[simp] theorem doing_doing (l l' : List E) (p : Prog E R S α) :
    doing l (doing l' p) = doing (l ++ l') p := by
  induction l with
  | nil => rfl
  | cons e l ih => simp only [doing, List.cons_append, ih]

/-! ## Runs -/

/-- `p` makes the calls of `tr`, gets the answers in `tr`, and ends with the
outcome: a returned value, or the reason it stopped. -/
inductive Runs : Prog E R S α → List (Event R) → Except S α → Prop
  | ret (a : α) : Runs (.ret a) [] (.ok a)
  | stop (s : S) : Runs (.stop s) [] (.error s)
  | op {e : E} {k : R e → Prog E R S α} {r : R e} {tr : List (Event R)} {out : Except S α} :
      Runs (k r) tr out → Runs (.op e k) (⟨e, r⟩ :: tr) out

/-- The calls of a run, without the answers. -/
def callsOf (tr : List (Event R)) : List E := tr.map Sigma.fst

@[simp] theorem callsOf_nil : callsOf ([] : List (Event R)) = [] := rfl

@[simp] theorem callsOf_cons (ev : Event R) (tr : List (Event R)) :
    callsOf (ev :: tr) = ev.1 :: callsOf tr := rfl

@[simp] theorem callsOf_append (tr tr' : List (Event R)) :
    callsOf (tr ++ tr') = callsOf tr ++ callsOf tr' := List.map_append

theorem runs_ret_iff {a : α} {tr : List (Event R)} {out : Except S α} :
    Runs (.ret a : Prog E R S α) tr out ↔ tr = [] ∧ out = .ok a := by
  constructor
  · rintro ⟨⟩; exact ⟨rfl, rfl⟩
  · rintro ⟨rfl, rfl⟩; exact .ret a

theorem runs_stop_iff {s : S} {tr : List (Event R)} {out : Except S α} :
    Runs (.stop s : Prog E R S α) tr out ↔ tr = [] ∧ out = .error s := by
  constructor
  · rintro ⟨⟩; exact ⟨rfl, rfl⟩
  · rintro ⟨rfl, rfl⟩; exact .stop s

theorem runs_op_iff {e : E} {k : R e → Prog E R S α} {tr : List (Event R)} {out : Except S α} :
    Runs (.op e k) tr out ↔ ∃ r tr', tr = ⟨e, r⟩ :: tr' ∧ Runs (k r) tr' out := by
  constructor
  · rintro ⟨⟩; exact ⟨_, _, rfl, by assumption⟩
  · rintro ⟨r, tr', rfl, h⟩; exact .op h

/-- A run of `doing l p` makes the calls of `l` and goes on as a run of `p`. -/
theorem runs_doing_iff {l : List E} {p : Prog E R S α} {tr : List (Event R)} {out : Except S α} :
    Runs (doing l p) tr out ↔ ∃ tr₁ tr₂, tr = tr₁ ++ tr₂ ∧ callsOf tr₁ = l ∧ Runs p tr₂ out := by
  induction l generalizing tr with
  | nil =>
      constructor
      · intro h; exact ⟨[], tr, rfl, rfl, h⟩
      · rintro ⟨tr₁, tr₂, rfl, h1, h2⟩
        rw [callsOf, List.map_eq_nil_iff] at h1
        subst h1
        exact h2
  | cons e l ih =>
      rw [doing, runs_op_iff]
      constructor
      · rintro ⟨r, tr', rfl, h⟩
        obtain ⟨tr₁, tr₂, rfl, h1, h2⟩ := ih.mp h
        exact ⟨⟨e, r⟩ :: tr₁, tr₂, rfl, by simp [h1], h2⟩
      · rintro ⟨tr₁, tr₂, rfl, h1, h2⟩
        cases tr₁ with
        | nil => simp at h1
        | cons ev tr₁ =>
            obtain ⟨e', r⟩ := ev
            simp only [callsOf_cons, List.cons.injEq] at h1
            obtain ⟨rfl, h1⟩ := h1
            exact ⟨r, tr₁ ++ tr₂, rfl, ih.mpr ⟨tr₁, tr₂, rfl, h1, h2⟩⟩

/-- A run that makes calls and returns. -/
theorem runs_doing_ret_iff {l : List E} {a : α} {tr : List (Event R)} {out : Except S α} :
    Runs (doing l (.ret a)) tr out ↔ callsOf tr = l ∧ out = .ok a := by
  rw [runs_doing_iff]
  constructor
  · rintro ⟨tr₁, tr₂, rfl, hcalls, hret⟩
    obtain ⟨rfl, rfl⟩ := runs_ret_iff.mp hret
    rw [List.append_nil]
    exact ⟨hcalls, rfl⟩
  · rintro ⟨hcalls, rfl⟩
    exact ⟨tr, [], (List.append_nil tr).symm, hcalls, .ret a⟩

/-- A run that makes calls and stops. -/
theorem runs_doing_stop_iff {l : List E} {s : S} {tr : List (Event R)} {out : Except S α} :
    Runs (doing l (.stop s)) tr out ↔ callsOf tr = l ∧ out = .error s := by
  rw [runs_doing_iff]
  constructor
  · rintro ⟨tr₁, tr₂, rfl, hcalls, hstop⟩
    obtain ⟨rfl, rfl⟩ := runs_stop_iff.mp hstop
    rw [List.append_nil]
    exact ⟨hcalls, rfl⟩
  · rintro ⟨hcalls, rfl⟩
    exact ⟨tr, [], (List.append_nil tr).symm, hcalls, .stop s⟩

/-- A run to a value can be followed by a run from that value. -/
theorem Runs.bind {p : Prog E R S α} {f : α → Prog E R S β} {tr₁ tr₂ : List (Event R)} {a : α}
    {out : Except S β} (hp : Runs p tr₁ (.ok a)) (hf : Runs (f a) tr₂ out) :
    Runs (p >>= f) (tr₁ ++ tr₂) out := by
  induction p generalizing tr₁ with
  | ret b =>
      obtain ⟨rfl, hb⟩ := runs_ret_iff.mp hp
      cases hb
      exact hf
  | stop s =>
      obtain ⟨-, hs⟩ := runs_stop_iff.mp hp
      cases hs
  | op e k ih =>
      obtain ⟨r, tr', rfl, h'⟩ := runs_op_iff.mp hp
      exact .op (ih r h')

/-- Calls have answers. -/
theorem exists_events [∀ e, Nonempty (R e)] (l : List E) : ∃ tr : List (Event R), callsOf tr = l :=
  ⟨l.map fun e => ⟨e, Classical.arbitrary (R e)⟩, by simp [callsOf, Function.comp_def]⟩

/-- A run of a sequence runs the first program to its value and goes on, or
stops with it. -/
theorem runs_bind {p : Prog E R S α} {f : α → Prog E R S β} {tr : List (Event R)}
    {out : Except S β} (h : Runs (p >>= f) tr out) :
    (∃ tr₁ tr₂ a, tr = tr₁ ++ tr₂ ∧ Runs p tr₁ (.ok a) ∧ Runs (f a) tr₂ out) ∨
      ∃ s, out = .error s ∧ Runs p tr (.error s) := by
  induction p generalizing tr with
  | ret a => exact .inl ⟨[], tr, a, rfl, .ret a, h⟩
  | stop s =>
      obtain ⟨rfl, rfl⟩ := runs_stop_iff.mp h
      exact .inr ⟨s, rfl, .stop s⟩
  | op e k ih =>
      obtain ⟨r, tr', rfl, h'⟩ := runs_op_iff.mp h
      rcases ih r h' with ⟨tr₁, tr₂, a, rfl, h1, h2⟩ | ⟨s, hs, h1⟩
      · exact .inl ⟨⟨e, r⟩ :: tr₁, tr₂, a, rfl, .op h1, h2⟩
      · exact .inr ⟨s, hs, .op h1⟩

/-- Every program has a run when every call has an answer. -/
theorem exists_runs [∀ e, Nonempty (R e)] (p : Prog E R S α) : ∃ tr out, Runs p tr out := by
  induction p with
  | ret a => exact ⟨_, _, .ret a⟩
  | stop s => exact ⟨_, _, .stop s⟩
  | op e k ih =>
      obtain ⟨tr, out, h⟩ := ih (Classical.arbitrary (R e))
      exact ⟨_, _, .op h⟩

/-! ## The run under fixed answers -/

/-- Run a program when each call has a fixed answer. -/
def play (answer : (e : E) → R e) : Prog E R S α → List (Event R) × Except S α
  | .ret a => ([], .ok a)
  | .stop s => ([], .error s)
  | .op e k =>
      let (tr, out) := play answer (k (answer e))
      (⟨e, answer e⟩ :: tr, out)

theorem play_runs (answer : (e : E) → R e) (p : Prog E R S α) :
    Runs p (play answer p).1 (play answer p).2 := by
  induction p with
  | ret a => exact .ret a
  | stop s => exact .stop s
  | op e k ih => exact .op (ih (answer e))

/-- The answers of such a run are the fixed ones. -/
theorem answer_of_mem_play {answer : (e : E) → R e} {p : Prog E R S α} {e : E} {r : R e}
    (h : (⟨e, r⟩ : Event R) ∈ (play answer p).1) : r = answer e := by
  induction p with
  | ret a => cases h
  | stop s => cases h
  | op e' k ih =>
      rcases List.mem_cons.mp h with heq | h
      · cases heq
        rfl
      · exact ih _ h

/-! ## Runs that have not ended -/

/-- `p` has made the calls of `tr` and become `q`. -/
inductive Steps : Prog E R S α → List (Event R) → Prog E R S α → Prop
  | nil (p : Prog E R S α) : Steps p [] p
  | cons {e : E} {k : R e → Prog E R S α} {r : R e} {tr : List (Event R)} {q : Prog E R S α} :
      Steps (k r) tr q → Steps (.op e k) (⟨e, r⟩ :: tr) q

/-- One more call at the end. -/
theorem Steps.snoc {p : Prog E R S α} {tr : List (Event R)} {e : E} {k : R e → Prog E R S α}
    (h : Steps p tr (.op e k)) (r : R e) : Steps p (tr ++ [⟨e, r⟩]) (k r) := by
  generalize hq : Prog.op e k = q at h
  induction h with
  | nil p =>
      subst hq
      exact .cons (.nil _)
  | cons h ih => exact .cons (ih hq)

/-- A program that makes a call has made none yet, or that one first. -/
theorem steps_op_iff {e : E} {k : R e → Prog E R S α} {tr : List (Event R)} {q : Prog E R S α} :
    Steps (.op e k) tr q ↔
      (tr = [] ∧ q = .op e k) ∨ ∃ r tr', tr = ⟨e, r⟩ :: tr' ∧ Steps (k r) tr' q := by
  constructor
  · intro h
    cases h with
    | nil => exact .inl ⟨rfl, rfl⟩
    | cons h => exact .inr ⟨_, _, rfl, h⟩
  · rintro (⟨rfl, rfl⟩ | ⟨r, tr', rfl, h⟩)
    · exact .nil _
    · exact .cons h

theorem steps_ret_iff {a : α} {tr : List (Event R)} {q : Prog E R S α} :
    Steps (.ret a : Prog E R S α) tr q ↔ tr = [] ∧ q = .ret a := by
  constructor
  · intro h
    cases h
    exact ⟨rfl, rfl⟩
  · rintro ⟨rfl, rfl⟩
    exact .nil _

theorem steps_stop_iff {s : S} {tr : List (Event R)} {q : Prog E R S α} :
    Steps (.stop s : Prog E R S α) tr q ↔ tr = [] ∧ q = .stop s := by
  constructor
  · intro h
    cases h
    exact ⟨rfl, rfl⟩
  · rintro ⟨rfl, rfl⟩
    exact .nil _

/-- A run on its way has passed through a program at every point. -/
theorem Steps.split {p q : Prog E R S α} {tr₁ tr₂ : List (Event R)} (h : Steps p (tr₁ ++ tr₂) q) :
    ∃ p', Steps p tr₁ p' ∧ Steps p' tr₂ q := by
  induction tr₁ generalizing p with
  | nil => exact ⟨p, .nil p, h⟩
  | cons ev tr₁ ih =>
      cases h with
      | cons h =>
          obtain ⟨p', h₁, h₂⟩ := ih h
          exact ⟨p', .cons h₁, h₂⟩

/-- A run of what the program has become completes its run. -/
theorem Steps.runs {p q : Prog E R S α} {tr tr' : List (Event R)} {out : Except S α}
    (h : Steps p tr q) (hq : Runs q tr' out) : Runs p (tr ++ tr') out := by
  induction h with
  | nil p => exact hq
  | cons h ih => exact .op (ih hq)

theorem Steps.complete [∀ e, Nonempty (R e)] {p q : Prog E R S α} {tr : List (Event R)}
    (h : Steps p tr q) : ∃ tr' out, Runs p (tr ++ tr') out := by
  obtain ⟨tr', out, hq⟩ := exists_runs q
  exact ⟨tr', out, h.runs hq⟩

/-- The program that is left when there is nothing more to do. -/
def finished : Except S α → Prog E R S α
  | .ok a => .ret a
  | .error s => .stop s

/-- A completed run, as a run on its way. -/
theorem Runs.steps {p : Prog E R S α} {tr : List (Event R)} {out : Except S α} (h : Runs p tr out) :
    Steps p tr (finished out) := by
  induction h with
  | ret a => exact .nil _
  | stop s => exact .nil _
  | op _ ih => exact .cons ih

/-! ## A body that is run again and again -/

/-- `body` has been run from its start any number of times, the calls so far are
`tr`, and the round under way has become `q`. -/
inductive Rounds (body : Prog E R S α) : List (Event R) → Prog E R S α → Prop
  | start : Rounds body [] body
  | step {tr : List (Event R)} {e : E} {k : R e → Prog E R S α} (r : R e) :
      Rounds body tr (.op e k) → Rounds body (tr ++ [⟨e, r⟩]) (k r)
  | again {tr : List (Event R)} {a : α} : Rounds body tr (.ret a) → Rounds body tr body

/-- The calls of all rounds are those of completed runs of the body, then those
of the round under way. -/
theorem Rounds.split {body q : Prog E R S α} {tr : List (Event R)} (h : Rounds body tr q) :
    ∃ (done : List (List (Event R))) (cur : List (Event R)), tr = done.flatten ++ cur ∧
      (∀ t ∈ done, ∃ a, Runs body t (.ok a)) ∧ Steps body cur q := by
  induction h with
  | start => exact ⟨[], [], rfl, by simp, .nil body⟩
  | step r h ih =>
      obtain ⟨done, cur, rfl, hd, hs⟩ := ih
      exact ⟨done, cur ++ [⟨_, r⟩], by simp, hd, hs.snoc r⟩
  | @again tr a h ih =>
      obtain ⟨done, cur, rfl, hd, hs⟩ := ih
      refine ⟨done ++ [cur], [], by simp, ?_, .nil body⟩
      intro t ht
      rcases List.mem_append.mp ht with ht | ht
      · exact hd t ht
      · rw [List.mem_singleton] at ht
        subst ht
        exact ⟨a, by simpa using hs.runs (.ret a)⟩

end Prog

end Effects
