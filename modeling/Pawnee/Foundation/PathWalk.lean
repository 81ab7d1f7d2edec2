import Pawnee.Foundation.CText
import Mathlib.Data.List.Infix

/-!
# Lexical path resolution

A path is walked component by component.  Empty components and `.` stay where
they are, `..` removes the component before it, and any other component is
added.  `walk` does this from a directory taken as the top, and fails where a
`..` would leave it.

`walk_isSome_iff` says when no such `..` is met: every front part of the path
has at most as many `..` as it has names.
-/

namespace PathWalk

open CText (Str)

/-- The components of a path, empty ones included. -/
def components (p : Str) : List Str := p.splitOn '/'

/-- A component that goes up. -/
def isUp (c : Str) : Bool := c = ['.', '.']

/-- A component that goes down: a name. -/
def isName (c : Str) : Bool := c ≠ [] ∧ c ≠ ['.'] ∧ c ≠ ['.', '.']

/-- One component.  The walk is at the components of `stack`, innermost first. -/
def step (stack : List Str) (c : Str) : Option (List Str) :=
  if c = ['.', '.'] then
    match stack with
    | [] => none
    | _ :: outer => some outer
  else if c = [] ∨ c = ['.'] then some stack
  else some (c :: stack)

/-- The walk of a path from the top. -/
def walk (p : Str) : Option (List Str) := (components p).foldlM step []

/-- No front part of the components has more `..` than names. -/
def Balanced (cs : List Str) : Prop := ∀ l, l <+: cs → l.countP isUp ≤ l.countP isName

/-- A `/` separates components. -/
theorem components_append (p q : Str) :
    components (p ++ '/' :: q) = components p ++ components q :=
  List.splitOn_append_cons_self p q

/-- A leading `/` does not change a walk from the top. -/
theorem walk_slash (p : Str) : walk ('/' :: p) = walk p := by
  have h := components_append [] p
  rw [List.nil_append] at h
  have hnil : components [] = [[]] := rfl
  rw [walk, h, hnil]
  rfl

theorem step_eq_none {stack : List Str} {c : Str} (h : step stack c = none) :
    stack = [] ∧ isUp c = true ∧ isName c = false := by
  simp only [step] at h
  split at h
  · next hup =>
    cases stack with
    | nil => exact ⟨rfl, by simp [isUp, hup], by simp [isName, hup]⟩
    | cons x outer => cases h
  · split at h <;> cases h

/-- A step moves the depth by the kind of its component. -/
theorem step_eq_some {stack stack' : List Str} {c : Str} (h : step stack c = some stack') :
    stack'.length + (isUp c).toNat = stack.length + (isName c).toNat := by
  simp only [step] at h
  split at h
  · next hup =>
    cases stack with
    | nil => cases h
    | cons x outer =>
        cases h
        simp [isUp, isName, hup]
  · next hup =>
    split at h
    · next hstay =>
      cases h
      rcases hstay with rfl | rfl <;> rfl
    · next hname =>
      cases h
      rw [not_or] at hname
      simp [isUp, isName, hup, hname.1, hname.2]

/-- A walk that starts `stack.length` components below the top stays below it
exactly if no front part goes up further than that and its names. -/
theorem foldlM_step_isSome_iff (cs : List Str) : ∀ stack : List Str,
    (cs.foldlM step stack).isSome ↔
      ∀ l, l <+: cs → l.countP isUp ≤ stack.length + l.countP isName := by
  induction cs with
  | nil =>
      intro stack
      simp only [List.foldlM_nil, List.prefix_nil, forall_eq]
      simp
  | cons c cs ih =>
      intro stack
      have hcons : ∀ (p : Str → Bool) (l : List Str),
          (c :: l).countP p = l.countP p + (p c).toNat := by
        intro p l
        rw [List.countP_cons]
        cases p c <;> rfl
      simp only [List.foldlM_cons, List.prefix_cons_iff, forall_eq_or_imp, List.countP_nil,
        Nat.zero_le, true_and, forall_exists_index, and_imp]
      cases hstep : step stack c with
      | none =>
          -- the walk is at the top, and this component leaves it
          obtain ⟨rfl, hup, hname⟩ := step_eq_none hstep
          constructor
          · intro h; cases h
          · intro h
            have := h [c] [] rfl List.nil_prefix
            simp [hup, hname] at this
      | some stack' =>
          have hlen := step_eq_some hstep
          change (cs.foldlM step stack').isSome ↔ _
          rw [ih stack']
          constructor
          · rintro h _ l rfl hl
            have := h l hl
            rw [hcons, hcons]
            omega
          · intro h l hl
            have := h (c :: l) l rfl hl
            rw [hcons, hcons] at this
            omega

/-- A walk from the top never leaves it exactly if the path is balanced. -/
theorem walk_isSome_iff (p : Str) : (walk p).isSome ↔ Balanced (components p) := by
  rw [walk, foldlM_step_isSome_iff]
  simp [Balanced]

/-- `p` is `root`, or a path below it that does not leave it on the way: what
follows `root` in `p` is walked without going above `root`. -/
def Inside (root p : Str) : Prop :=
  ∃ rest, p = root ++ rest ∧ (root.getLast? = some '/' ∨ rest = [] ∨ rest.head? = some '/') ∧
    (walk rest).isSome

theorem inside_append_iff {root rest : Str} :
    Inside root (root ++ rest) ↔
      (root.getLast? = some '/' ∨ rest = [] ∨ rest.head? = some '/') ∧ (walk rest).isSome := by
  constructor
  · rintro ⟨rest', heq, hsep, hwalk⟩
    rw [← List.append_cancel_left heq] at hsep hwalk
    exact ⟨hsep, hwalk⟩
  · rintro ⟨hsep, hwalk⟩
    exact ⟨rest, rfl, hsep, hwalk⟩

theorem inside_self (root : Str) : Inside root root :=
  ⟨[], by simp, .inr (.inl rfl), rfl⟩

/-! ## Absolute paths -/

/-- The absolute path made of some components. -/
def pathText (cs : List Str) : Str := cs.flatMap ('/' :: ·)

theorem pathText_append (cs ds : List Str) : pathText (cs ++ ds) = pathText cs ++ pathText ds :=
  List.flatMap_append

@[simp] theorem pathText_singleton (c : Str) : pathText [c] = '/' :: c := by simp [pathText]

theorem components_eq_singleton {c : Str} (h : '/' ∉ c) : components c = [c] :=
  List.splitOn_eq_singleton h

/-- An absolute path is walked as its components say. -/
theorem walk_pathText {cs : List Str} (h : ∀ c ∈ cs, '/' ∉ c) :
    walk (pathText cs) = cs.foldlM step [] := by
  have hcomponents : ∀ (p : Str), components (p ++ pathText cs) = components p ++ cs := by
    induction cs with
    | nil => simp [pathText]
    | cons c cs ih =>
        intro p
        have hc := components_eq_singleton (h c List.mem_cons_self)
        have hcons : p ++ pathText (c :: cs) = p ++ '/' :: c ++ pathText cs := by simp [pathText]
        rw [hcons, ih (fun d hd => h d (List.mem_cons_of_mem _ hd)), components_append, hc,
          List.append_assoc]
        rfl
  have hnil : components [] = [[]] := rfl
  rw [walk, ← List.nil_append (pathText cs), hcomponents, hnil]
  rfl

theorem step_name {stack : List Str} {c : Str} (h : isName c = true) :
    step stack c = some (c :: stack) := by
  simp only [isName, decide_eq_true_eq] at h
  simp only [step, if_neg h.2.2, if_neg (not_or.mpr ⟨h.1, h.2.1⟩)]

/-- Names go down. -/
theorem foldlM_names {cs : List Str} (h : ∀ c ∈ cs, isName c = true) (stack : List Str) :
    cs.foldlM step stack = some (cs.reverse ++ stack) := by
  induction cs generalizing stack with
  | nil => rfl
  | cons c cs ih =>
      rw [List.foldlM_cons, step_name (h c List.mem_cons_self)]
      exact (ih (fun d hd => h d (List.mem_cons_of_mem _ hd)) _).trans (by simp)

end PathWalk
