import Mathlib.Data.List.Basic
import Mathlib.Logic.Function.Iterate
import Mathlib.Tactic.Common

/-!
# Shared cells updated under a lock

Any number of processes share cells and a semaphore that starts at one.  A
process updates a cell with a load and a store of its own, between a wait and a
post.  Reads without the lock are allowed.

The history of a process is the list of its accesses.  `phaseOf` reads off
where in an update the process is, and is `none` for a history that breaks the
discipline.  The invariant `Inv` speaks only about histories and the memory, so
it does not depend on what the processes compute.  Its last clause says that no
update is lost: a cell holds its first value, updated as many times as all
histories have stored to it.  `Phase.next_cases` lists the five accesses the
discipline allows, and `Inv.access` is the step lemma, one case for each.
-/

namespace LockedCounters

/-- What a process does to the shared memory. -/
inductive Access (C V : Type) where
  /-- Take the semaphore. -/
  | wait
  /-- Give the semaphore back. -/
  | post
  /-- Read a cell and find a value. -/
  | load (c : C) (v : V)
  /-- Write a value to a cell. -/
  | store (c : C) (v : V)
deriving DecidableEq

/-- The semaphore and the cells. -/
structure Memory (C V : Type) where
  /-- The value of the semaphore. -/
  sem : Nat
  /-- The value of each cell. -/
  cell : C → V

/-- Membership in a list with a distinguished entry. -/
theorem mem_middle {α : Type} {pre post : List α} {x y : α} (hm : x ∈ pre ++ y :: post) :
    x = y ∨ x ∈ pre ++ post := by
  simp only [List.mem_append, List.mem_cons] at hm ⊢
  tauto

theorem mem_of_mem_sides {α : Type} {pre post : List α} {x y : α} (hm : x ∈ pre ++ post) :
    x ∈ pre ++ y :: post := by
  simp only [List.mem_append, List.mem_cons] at hm ⊢
  tauto

variable {C V : Type} [DecidableEq C]

/-- Where in an update a process is. -/
inductive Phase (C V : Type) where
  /-- It does not hold the semaphore. -/
  | outside
  /-- It holds the semaphore and has not read yet. -/
  | holding
  /-- It has read this value from this cell. -/
  | loaded (c : C) (v : V)
  /-- It has written and still holds the semaphore. -/
  | stored
deriving DecidableEq

/-- How often a history has stored to a cell. -/
def stores (c : C) (h : List (Access C V)) : Nat :=
  h.countP fun a => match a with
    | .store c' _ => c' = c
    | _ => false

@[simp] theorem stores_nil (c : C) : stores c ([] : List (Access C V)) = 0 := rfl

theorem stores_append (c : C) (h h' : List (Access C V)) :
    stores c (h ++ h') = stores c h + stores c h' := List.countP_append

variable [DecidableEq V]

/-- The memory after an access, `none` if the access is not possible now.  A
load is possible with the value that is there. -/
def Memory.perform (m : Memory C V) : Access C V → Option (Memory C V)
  | .wait => if 0 < m.sem then some { m with sem := m.sem - 1 } else none
  | .post => some { m with sem := m.sem + 1 }
  | .load c v => if m.cell c = v then some m else none
  | .store c v => some { m with cell := Function.update m.cell c v }

/-- Only a store changes a cell. -/
theorem Memory.perform_cell {m m' : Memory C V} {a : Access C V} (h : m.perform a = some m') :
    m'.cell = m.cell ∨ ∃ c v, a = .store c v ∧ m'.cell = Function.update m.cell c v := by
  cases a with
  | wait =>
      simp only [Memory.perform] at h
      split at h
      · cases h
        exact .inl rfl
      · cases h
  | post =>
      cases h
      exact .inl rfl
  | load c v =>
      simp only [Memory.perform] at h
      split at h
      · cases h
        exact .inl rfl
      · cases h
  | store c v =>
      cases h
      exact .inr ⟨c, v, rfl, rfl⟩

theorem Memory.perform_load_iff {m m' : Memory C V} {c : C} {v : V} :
    m.perform (.load c v) = some m' ↔ m' = m ∧ m.cell c = v := by
  rw [Memory.perform, Option.ite_none_right_eq_some, Option.some.injEq, and_comm, eq_comm (a := m)]

/-- The phase after one more access, `none` if the discipline forbids it. -/
def Phase.next (bump : V → V) : Phase C V → Access C V → Option (Phase C V)
  | .outside, .wait => some .holding
  | .outside, .load _ _ => some .outside
  | .holding, .load c v => some (.loaded c v)
  | .loaded c v, .store c' v' => if c' = c ∧ v' = bump v then some .stored else none
  | .stored, .post => some .outside
  | _, _ => none

/-- What the discipline allows. -/
theorem Phase.next_cases {bump : V → V} {p p' : Phase C V} {a : Access C V}
    (h : p.next bump a = some p') :
    (p = .outside ∧ a = .wait ∧ p' = .holding) ∨
      (∃ c v, p = .outside ∧ a = .load c v ∧ p' = .outside) ∨
      (∃ c v, p = .holding ∧ a = .load c v ∧ p' = .loaded c v) ∨
      (∃ c v, p = .loaded c v ∧ a = .store c (bump v) ∧ p' = .stored) ∨
      (p = .stored ∧ a = .post ∧ p' = .outside) := by
  unfold Phase.next at h
  split at h
  · cases h; simp
  · cases h; simp
  · cases h; simp
  · next c v c' v' =>
    split at h
    · next heq =>
      obtain ⟨rfl, rfl⟩ := heq
      cases h
      simp
    · cases h
  · cases h; simp
  · cases h

/-- The phase a history ends in. -/
def phaseOf (bump : V → V) (h : List (Access C V)) : Option (Phase C V) :=
  h.foldlM (Phase.next bump) .outside

@[simp] theorem phaseOf_nil (bump : V → V) :
    phaseOf bump ([] : List (Access C V)) = some .outside := rfl

theorem phaseOf_append (bump : V → V) (h h' : List (Access C V)) :
    phaseOf bump (h ++ h') = (phaseOf bump h).bind fun p => h'.foldlM (Phase.next bump) p := by
  unfold phaseOf
  exact List.foldlM_append

theorem phaseOf_snoc (bump : V → V) (h : List (Access C V)) (a : Access C V) :
    phaseOf bump (h ++ [a]) = (phaseOf bump h).bind fun p => p.next bump a := by
  rw [phaseOf_append]
  cases phaseOf bump h <;> simp

/-- A history whose continuation keeps the discipline keeps it too. -/
theorem isSome_phaseOf_of_append {bump : V → V} {h h' : List (Access C V)}
    (hs : (phaseOf bump (h ++ h')).isSome) : (phaseOf bump h).isSome := by
  rw [phaseOf_append] at hs
  cases hp : phaseOf bump h with
  | none => simp [hp] at hs
  | some p => rfl

/-- A process inside an update. -/
def busy (bump : V → V) (h : List (Access C V)) : Bool := phaseOf bump h ≠ some .outside

/-- The invariant of the memory and of the histories of all processes. -/
structure Inv (bump : V → V) (init : C → V) (m : Memory C V) (hs : List (List (Access C V))) :
    Prop where
  /-- Every process keeps the discipline. -/
  disciplined : ∀ h ∈ hs, (phaseOf bump h).isSome
  /-- One process at most is inside an update, and the semaphore says so. -/
  mutex : m.sem + hs.countP (busy bump) = 1
  /-- What the process inside an update has read is still there. -/
  fresh : ∀ h ∈ hs, ∀ c v, phaseOf bump h = some (.loaded c v) → m.cell c = v
  /-- No update is lost. -/
  total : ∀ c, m.cell c = bump^[stores c hs.flatten] (init c)

variable {bump : V → V} {init : C → V} {m m' : Memory C V}

/-- A process that waits is outside. -/
theorem not_busy_of_wait {h : List (Access C V)} (hd : (phaseOf bump (h ++ [.wait])).isSome) :
    busy bump h = false := by
  obtain ⟨p', hp'⟩ := Option.isSome_iff_exists.mp hd
  rw [phaseOf_snoc, Option.bind_eq_some_iff] at hp'
  obtain ⟨p, hp, hnext⟩ := hp'
  rcases Phase.next_cases hnext with ⟨rfl, -, -⟩ | ⟨c, v, -, ha, -⟩ | ⟨c, v, -, ha, -⟩ |
    ⟨c, v, -, ha, -⟩ | ⟨-, ha, -⟩
  · simp [busy, hp]
  · cases ha
  · cases ha
  · cases ha
  · cases ha

/-- A process inside an update leaves it with a post. -/
theorem busy_snoc {h : List (Access C V)} {a : Access C V} (hb : busy bump h = true)
    (hd : (phaseOf bump (h ++ [a])).isSome) (ha : a ≠ .post) : busy bump (h ++ [a]) = true := by
  obtain ⟨p', hp'⟩ := Option.isSome_iff_exists.mp hd
  obtain ⟨p, hp, hnext⟩ := Option.bind_eq_some_iff.mp (phaseOf_snoc bump h a ▸ hp')
  have hin : p ≠ .outside := fun hout => by simp [busy, hp, hout] at hb
  rcases Phase.next_cases hnext with ⟨hout, -, -⟩ | ⟨c, v, hout, -, -⟩ | ⟨c, v, -, -, rfl⟩ |
    ⟨c, v, -, -, rfl⟩ | ⟨-, hpost, -⟩
  · exact absurd hout hin
  · exact absurd hout hin
  · simp [busy, hp']
  · simp [busy, hp']
  · exact absurd hpost ha

/-- The semaphore is taken only by a process inside an update. -/
theorem Inv.sem_pos_or_busy {hs : List (List (Access C V))} (hinv : Inv bump init m hs) :
    0 < m.sem ∨ ∃ h ∈ hs, busy bump h = true := by
  rcases Nat.eq_zero_or_pos m.sem with hzero | hpos
  · right
    have hone := hinv.mutex
    exact List.countP_pos_iff.mp (by omega)
  · exact .inl hpos

/-- While no process is inside an update the semaphore is free. -/
theorem Inv.sem_eq_one {hs : List (List (Access C V))} (hinv : Inv bump init m hs)
    (hidle : ∀ h ∈ hs, busy bump h = false) : m.sem = 1 := by
  have hone := hinv.mutex
  have hzero : hs.countP (busy bump) = 0 :=
    List.countP_eq_zero.mpr fun h hh => by simp [hidle h hh]
  omega

/-- The invariant holds before any access. -/
theorem Inv.start (init : C → V) (h : List (Access C V)) (hh : h = []) :
    Inv bump init ⟨1, init⟩ [h] where
  disciplined := by simp [hh]
  mutex := by simp [hh, busy]
  fresh := by simp [hh]
  total := by simp [hh]

/-- A new process keeps the invariant. -/
theorem Inv.spawn {hs : List (List (Access C V))} (hinv : Inv bump init m hs) :
    Inv bump init m (hs ++ [[]]) where
  disciplined := by
    intro h hh
    rcases List.mem_append.mp hh with hh | hh
    · exact hinv.disciplined h hh
    · rw [List.mem_singleton] at hh; subst hh; rfl
  mutex := by
    have := hinv.mutex
    simpa [busy] using this
  fresh := by
    intro h hh c v hp
    rcases List.mem_append.mp hh with hh | hh
    · exact hinv.fresh h hh c v hp
    · rw [List.mem_singleton] at hh; subst hh; simp at hp
  total := by
    intro c
    rw [hinv.total c]
    simp

section

variable {pre post : List (List (Access C V))} {h : List (Access C V)} {a : Access C V}

/-- While one process is inside an update, the others are outside. -/
theorem Inv.others_idle (hinv : Inv bump init m (pre ++ h :: post)) (hb : busy bump h = true) :
    m.sem = 0 ∧ ∀ h' ∈ pre ++ post, phaseOf bump h' = some .outside := by
  have hm := hinv.mutex
  rw [List.countP_append, List.countP_cons_of_pos hb] at hm
  refine ⟨by omega, fun h' hh' => ?_⟩
  have h0 : (pre ++ post).countP (busy bump) = 0 := by
    rw [List.countP_append]
    omega
  have := List.countP_eq_zero.mp h0 h' hh'
  simpa [busy] using this

/-- The invariant after one history has been replaced. -/
theorem Inv.replace {h' : List (Access C V)} {p' : Phase C V}
    (hinv : Inv bump init m (pre ++ h :: post)) (hp' : phaseOf bump h' = some p')
    (hmutex : m'.sem + (busy bump h').toNat = m.sem + (busy bump h).toNat)
    (hfresh : ∀ c v, p' = .loaded c v → m'.cell c = v)
    (hcell : m'.cell = m.cell ∨ busy bump h = true)
    (htotal : ∀ c, m'.cell c = bump^[stores c (pre ++ h' :: post).flatten] (init c)) :
    Inv bump init m' (pre ++ h' :: post) where
  disciplined := by
    intro x hx
    rcases mem_middle hx with rfl | hx
    · simp [hp']
    · exact hinv.disciplined x (mem_of_mem_sides hx)
  mutex := by
    have hm := hinv.mutex
    simp only [List.countP_append, List.countP_cons] at hm ⊢
    cases hb : busy bump h <;> cases hb' : busy bump h' <;> simp only [hb, hb'] at hm hmutex ⊢ <;>
      simp at hm hmutex ⊢ <;> omega
  fresh := by
    intro x hx c v hv
    rcases mem_middle hx with rfl | hx
    · exact hfresh c v (Option.some.inj (hp'.symm.trans hv))
    · rcases hcell with hcell | hbusy
      · rw [hcell]
        exact hinv.fresh x (mem_of_mem_sides hx) c v hv
      · rw [(hinv.others_idle hbusy).2 x hx] at hv
        cases hv
  total := htotal

/-- One access of one process keeps the invariant, if the process keeps the
discipline. -/
theorem Inv.access (hinv : Inv bump init m (pre ++ h :: post)) (hp : m.perform a = some m')
    (hd : (phaseOf bump (h ++ [a])).isSome) : Inv bump init m' (pre ++ (h ++ [a]) :: post) := by
  obtain ⟨p', hp'⟩ := Option.isSome_iff_exists.mp hd
  obtain ⟨p, hph⟩ := Option.isSome_iff_exists.mp (hinv.disciplined h (by simp))
  have hnext : p.next bump a = some p' := by
    rw [phaseOf_snoc, hph] at hp'
    exact hp'
  have htotal : ∀ c, stores c (pre ++ (h ++ [a]) :: post).flatten =
      stores c (pre ++ h :: post).flatten + stores c [a] := by
    intro c
    simp only [List.flatten_append, List.flatten_cons, stores_append]
    omega
  have hsame : (∀ c, stores c [a] = 0) → ∀ c,
      m.cell c = bump^[stores c (pre ++ (h ++ [a]) :: post).flatten] (init c) := by
    intro hzero c
    rw [htotal, hzero, Nat.add_zero]
    exact hinv.total c
  rcases Phase.next_cases hnext with ⟨rfl, rfl, rfl⟩ | ⟨c, v, rfl, rfl, rfl⟩ |
    ⟨c, v, rfl, rfl, rfl⟩ | ⟨c, v, rfl, rfl, rfl⟩ | ⟨rfl, rfl, rfl⟩
  · simp only [Memory.perform] at hp
    split at hp
    · cases hp
      refine hinv.replace hp' ?_ (by simp) (.inl rfl) (hsame fun c => rfl)
      simp [busy, hph, hp']
      omega
    · cases hp
  · simp only [Memory.perform] at hp
    split at hp
    · cases hp
      exact hinv.replace hp' (by simp [busy, hph, hp']) (by simp) (.inl rfl) (hsame fun c => rfl)
    · cases hp
  · simp only [Memory.perform] at hp
    split at hp
    · next hread =>
      cases hp
      refine hinv.replace hp' (by simp [busy, hph, hp']) ?_ (.inl rfl) (hsame fun c => rfl)
      rintro _ _ ⟨⟩
      exact hread
    · cases hp
  · -- the value that was read is still there, so the store is its update
    cases hp
    have hread : m.cell c = v := hinv.fresh h (by simp) c v hph
    refine hinv.replace hp' (by simp [busy, hph, hp']) (by simp) (.inr (by simp [busy, hph])) ?_
    intro c'
    by_cases hc : c' = c
    · subst hc
      have hone : stores c' [Access.store c' (bump v)] = 1 := by simp [stores]
      rw [htotal, hone, Function.iterate_succ_apply', ← hinv.total c', hread]
      simp
    · have hzero : stores c' [Access.store c (bump v)] = 0 := by simp [stores, Ne.symm hc]
      rw [htotal, hzero, Nat.add_zero, ← hinv.total c']
      simp [Function.update_of_ne hc]
  · cases hp
    exact hinv.replace hp' (by simp [busy, hph, hp']) (by simp) (.inl rfl) (hsame fun c => rfl)

end

end LockedCounters
