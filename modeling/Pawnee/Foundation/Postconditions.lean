import Pawnee.Foundation.Program

/-!
# What every run of a program ends with

`Ensures A Q X p tr` says that a run of `p` that comes after the calls of `tr` returns only
values that `Q` allows and stops only as `X` allows, as long as its calls get answers
that `A` allows.  `Q` and `X` see all calls, so the rules are those of a program logic
whose state is the list of the calls so far.

`Ensures` goes down the tree of the program.  `Ensures.bind` cuts a sequence in two, and
`Ensures.returned` and `Ensures.stopped` say what has been shown about the runs.

`hoist` moves a program to a larger set of calls.
-/

namespace Effects

namespace Prog

variable {E E' : Type} {R : E → Type} {R' : E' → Type} {S α β : Type}

/-- After the calls of `tr`, and with answers that `A` allows, the program returns only what
`Q` allows and stops only as `X` allows. -/
def Ensures (A : (e : E) → R e → Prop) (Q : α → List (Event R) → Prop)
    (X : S → List (Event R) → Prop) : Prog E R S α → List (Event R) → Prop
  | .ret a, tr => Q a tr
  | .stop s, tr => X s tr
  | .op e k, tr => ∀ r, A e r → Ensures A Q X (k r) (tr ++ [⟨e, r⟩])

section

variable {A : (e : E) → R e → Prop} {Q : α → List (Event R) → Prop}
  {X : S → List (Event R) → Prop} {p : Prog E R S α} {tr tr' : List (Event R)}

/-- What the first half of a sequence ensures is what the second half can start from. -/
theorem Ensures.bind {f : α → Prog E R S β} {Q' : β → List (Event R) → Prop}
    (h : Ensures A Q X p tr) (hf : ∀ a tr, Q a tr → Ensures A Q' X (f a) tr) :
    Ensures A Q' X (p >>= f) tr := by
  induction p generalizing tr with
  | ret a => exact hf a tr h
  | stop s => exact h
  | op e k ih => exact fun r hr => ih r (h r hr)

/-- Calls whose answers are not looked at. -/
theorem ensures_doing {l : List E} (h : ∀ mid, callsOf mid = l → Ensures A Q X p (tr ++ mid)) :
    Ensures A Q X (doing l p) tr := by
  induction l generalizing tr with
  | nil =>
      have hnil := h [] rfl
      rwa [List.append_nil] at hnil
  | cons e l ih =>
      intro r _
      refine ih fun mid hmid => ?_
      rw [List.append_assoc, List.singleton_append]
      exact h (⟨e, r⟩ :: mid) (by rw [callsOf_cons, hmid])

/-! ## Runs -/

theorem Ensures.runs (h : Ensures A Q X p tr) {out : Except S α} (hruns : Runs p tr' out)
    (hallowed : ∀ ev ∈ tr', A ev.1 ev.2) :
    (∀ a, out = .ok a → Q a (tr ++ tr')) ∧ ∀ s, out = .error s → X s (tr ++ tr') := by
  induction hruns generalizing tr with
  | ret a =>
      rw [List.append_nil]
      exact ⟨fun a' ha => Except.ok.inj ha ▸ h, nofun⟩
  | stop s =>
      rw [List.append_nil]
      exact ⟨nofun, fun s' hs => Except.error.inj hs ▸ h⟩
  | @op e k r tr'' out _ ih =>
      have hrest := ih (h r (hallowed ⟨e, r⟩ List.mem_cons_self)) fun ev hev =>
        hallowed ev (List.mem_cons_of_mem _ hev)
      rwa [List.append_assoc, List.singleton_append] at hrest

/-- What a run that returns has been shown to do. -/
theorem Ensures.returned (h : Ensures A Q X p []) {a : α} (hruns : Runs p tr (.ok a))
    (hallowed : ∀ ev ∈ tr, A ev.1 ev.2) : Q a tr :=
  (h.runs hruns hallowed).1 a rfl

/-- What a run that stops has been shown to do. -/
theorem Ensures.stopped (h : Ensures A Q X p []) {s : S} (hruns : Runs p tr (.error s))
    (hallowed : ∀ ev ∈ tr, A ev.1 ev.2) : X s tr :=
  (h.runs hruns hallowed).2 s rfl

end

/-! ## A larger set of calls -/

/-- The same program where its calls are some of many. -/
def hoist (call : E → E') (answer : ∀ e, R' (call e) → R e) : Prog E R S α → Prog E' R' S α
  | .ret a => .ret a
  | .stop s => .stop s
  | .op e k => .op (call e) fun r => hoist call answer (k (answer e r))

theorem hoist_doing (call : E → E') (answer : ∀ e, R' (call e) → R e) (l : List E)
    (p : Prog E R S α) :
    hoist call answer (doing l p) = doing (l.map call) (hoist call answer p) := by
  induction l with
  | nil => rfl
  | cons e l ih => exact congrArg (Prog.op (call e)) (funext fun _ => ih)

end Prog

end Effects
