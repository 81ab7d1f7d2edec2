import Mathlib.Data.List.Nodup
import Mathlib.Logic.Function.Basic
import Mathlib.Tactic.Common

/-!
# Files that many processes append to

A process collects what it writes to a file in a buffer of its own.  The buffer is
written out when it is full and when the process exits, and what is in it is lost
when the process is killed.  A process that is forked starts with a copy of the
buffers of its parent.

`Files` has the files and the buffers, and keeps for each process what it was given
to write.  What a process has written is always a part of that from the front, and
all of it when the process has exited (`Sound`).  While nobody is given more than a
buffer holds, a file is made of whole pieces, one for each process that has exited,
in the order of the exits (`Sound.whole`).
-/

namespace SharedFiles

variable {P C β : Type}

/-! ## States -/

/-- Where a process is in its life. -/
inductive Life where
  | unborn
  | running
  | exited
  | killed
deriving DecidableEq, Repr

/-- It is over. -/
def Life.Gone (life : Life) : Prop := life = .exited ∨ life = .killed

instance : DecidablePred Life.Gone := fun _ => inferInstanceAs (Decidable (_ ∨ _))

theorem Life.not_gone_running : ¬ Life.Gone .running := by simp [Gone]

theorem Life.not_gone_unborn : ¬ Life.Gone .unborn := by simp [Gone]

/-- The files behind the streams `C` and the buffers of the processes `P`. -/
structure Files (P C β : Type) where
  life : P → Life
  /-- The processes that have exited, in that order. -/
  order : List P
  /-- What has been appended to each file, and by whom. -/
  file : C → List (P × β)
  /-- What a process has still to write out. -/
  buffer : P → C → List β
  /-- What a process was given to write, with what it inherited. -/
  given : P → C → List β

/-- Pieces by one process. -/
def signed (p : P) (l : List β) : List (P × β) := l.map (Prod.mk p)

variable [DecidableEq P]

/-- The pieces a process has written. -/
def written (p : P) (l : List (P × β)) : List β := (l.filter (·.1 = p)).map Prod.snd

@[simp] theorem written_nil (p : P) : written p ([] : List (P × β)) = [] := rfl

@[simp] theorem written_append (p : P) (l l' : List (P × β)) :
    written p (l ++ l') = written p l ++ written p l' := by simp [written]

@[simp] theorem written_signed (p : P) (l : List β) : written p (signed p l) = l := by
  simp [written, signed, List.filter_map, Function.comp_def]

theorem written_signed_of_ne {p q : P} (h : q ≠ p) (l : List β) : written p (signed q l) = [] := by
  simp [written, signed, List.filter_map, Function.comp_def, h]

namespace Files

/-- The process is given more to write. -/
def put (s : Files P C β) (p : P) (data : C → List β) : Files P C β :=
  { s with
    buffer := Function.update s.buffer p fun c => s.buffer p c ++ data c
    given := Function.update s.given p fun c => s.given p c ++ data c }

/-- A new process, with the buffers of its parent. -/
def fork (s : Files P C β) (p q : P) : Files P C β :=
  { s with
    life := Function.update s.life q .running
    buffer := Function.update s.buffer q (s.buffer p)
    given := Function.update s.given q (s.buffer p) }

variable [DecidableEq C]

/-- The first `n` of a buffer are written out. -/
def spill (s : Files P C β) (p : P) (c : C) (n : Nat) : Files P C β :=
  { s with
    file := Function.update s.file c (s.file c ++ signed p ((s.buffer p c).take n))
    buffer := Function.update s.buffer p (Function.update (s.buffer p) c ((s.buffer p c).drop n)) }

omit [DecidableEq C] in
/-- The process exits, and its buffers are written out. -/
def exit (s : Files P C β) (p : P) : Files P C β :=
  { s with
    life := Function.update s.life p .exited
    order := s.order ++ [p]
    file := fun c => s.file c ++ signed p (s.buffer p c)
    buffer := Function.update s.buffer p fun _ => [] }

omit [DecidableEq C] in
/-- The process is killed. -/
def kill (s : Files P C β) (p : P) : Files P C β :=
  { s with
    life := Function.update s.life p .killed
    buffer := Function.update s.buffer p fun _ => [] }

section

omit [DecidableEq C]

variable (s : Files P C β) {p q x : P}

@[simp] theorem put_given_self (data : C → List β) (c : C) :
    (s.put p data).given p c = s.given p c ++ data c := by simp [put]

@[simp] theorem put_given_of_ne (h : x ≠ p) (data : C → List β) :
    (s.put p data).given x = s.given x := Function.update_of_ne h _ _

@[simp] theorem fork_life_self : (s.fork p q).life q = .running := Function.update_self _ _ _

@[simp] theorem fork_life_of_ne (h : x ≠ q) : (s.fork p q).life x = s.life x :=
  Function.update_of_ne h _ _

@[simp] theorem fork_given_self : (s.fork p q).given q = s.buffer p := Function.update_self _ _ _

@[simp] theorem fork_given_of_ne (h : x ≠ q) : (s.fork p q).given x = s.given x :=
  Function.update_of_ne h _ _

@[simp] theorem exit_life_self : (s.exit p).life p = .exited := Function.update_self _ _ _

@[simp] theorem exit_life_of_ne (h : x ≠ p) : (s.exit p).life x = s.life x :=
  Function.update_of_ne h _ _

@[simp] theorem kill_life_self : (s.kill p).life p = .killed := Function.update_self _ _ _

@[simp] theorem kill_life_of_ne (h : x ≠ p) : (s.kill p).life x = s.life x :=
  Function.update_of_ne h _ _

end

end Files

/-- One step, when the buffers hold `cap`. -/
inductive Step [DecidableEq C] (cap : Nat) (s : Files P C β) : Files P C β → Prop
  | put {p : P} (data : C → List β) : s.life p = .running → Step cap s (s.put p data)
  | fork {p q : P} : s.life p = .running → s.life q = .unborn → Step cap s (s.fork p q)
  /-- A full buffer is written out in part. -/
  | spill {p : P} {c : C} (n : Nat) : s.life p = .running → cap < (s.buffer p c).length →
      Step cap s (s.spill p c n)
  | exit {p : P} : s.life p = .running → Step cap s (s.exit p)
  | kill {p : P} : s.life p = .running → Step cap s (s.kill p)

/-! ## What a process has written -/

/-- The books of a process and a file: what is `written`, what is in its `buffer`, and
what it was `given`. -/
structure Account (cap : Nat) (life : Life) (written buffer given : List β) : Prop where
  unborn : life = .unborn → written = [] ∧ given = []
  running : life = .running → written ++ buffer = given
  exited : life = .exited → written = given
  part : written <+: given
  /-- Before its exit a process writes out nothing but full buffers. -/
  kept : life ≠ .exited → given.length ≤ cap → written = []

/-- What holds of the files of every run. -/
structure Sound (cap : Nat) (s : Files P C β) : Prop where
  account : ∀ p c, Account cap (s.life p) (written p (s.file c)) (s.buffer p c) (s.given p c)
  order : ∀ p, p ∈ s.order ↔ s.life p = .exited
  nodup : s.order.Nodup
  whole : ∀ c, (∀ p, (s.given p c).length ≤ cap) →
    s.file c = s.order.flatMap fun p => signed p (s.given p c)

section

variable {cap : Nat} {w b g data : List β}

/-- A running process with little to write has it all in its buffer. -/
theorem Account.buffer_eq (h : Account cap .running w b g) (hle : g.length ≤ cap) : b = g := by
  have hall := h.running rfl
  rwa [h.kept (by decide) hle, List.nil_append] at hall

theorem Account.put (h : Account cap .running w b g) (data : List β) :
    Account cap .running w (b ++ data) (g ++ data) where
  unborn := nofun
  running := fun _ => by rw [← List.append_assoc, h.running rfl]
  exited := nofun
  part := h.part.trans (List.prefix_append _ _)
  kept := fun hlife hle => h.kept hlife (by rw [List.length_append] at hle; omega)

theorem Account.fork (b : List β) : Account cap .running [] b b where
  unborn := nofun
  running := fun _ => rfl
  exited := nofun
  part := List.nil_prefix
  kept := fun _ _ => rfl

theorem Account.spill (h : Account cap .running w b g) (n : Nat) (hfull : cap < b.length) :
    Account cap .running (w ++ b.take n) (b.drop n) g where
  unborn := nofun
  running := fun _ => by rw [List.append_assoc, List.take_append_drop, h.running rfl]
  exited := nofun
  part := by
    rw [← h.running rfl]
    exact (List.prefix_append_right_inj w).mpr (List.take_prefix n b)
  kept := fun _ hle => by
    rw [h.buffer_eq hle] at hfull
    omega

theorem Account.exit (h : Account cap .running w b g) : Account cap .exited (w ++ b) [] g where
  unborn := nofun
  running := nofun
  exited := fun _ => h.running rfl
  part := (h.running rfl).symm ▸ List.prefix_rfl
  kept := fun hlife => absurd rfl hlife

theorem Account.kill (h : Account cap .running w b g) : Account cap .killed w [] g where
  unborn := nofun
  running := nofun
  exited := nofun
  part := h.part
  kept := fun _ => h.kept (by decide)

end

/-! ## One step -/

section

variable {cap : Nat} {s s' : Files P C β}

theorem Sound.running (h : Sound cap s) {p : P} (hp : s.life p = .running) (c : C) :
    Account cap .running (written p (s.file c)) (s.buffer p c) (s.given p c) := hp ▸ h.account p c

theorem Sound.notMem_order (h : Sound cap s) {p : P} (hp : s.life p ≠ .exited) : p ∉ s.order :=
  fun hmem => hp ((h.order p).mp hmem)

omit [DecidableEq P] in
/-- The pieces of the processes that have exited do not change with another process. -/
theorem flatMap_signed_congr {given given' : P → C → List β} {order : List P} {p : P}
    (hp : p ∉ order) (hother : ∀ q, q ≠ p → given' q = given q) (c : C) :
    (order.flatMap fun q => signed q (given' q c)) =
      order.flatMap fun q => signed q (given q c) := by
  refine List.flatMap_congr fun q hq => ?_
  rw [hother q fun heq => hp (heq ▸ hq)]

theorem Sound.put (h : Sound cap s) {p : P} (hp : s.life p = .running) (data : C → List β) :
    Sound cap (s.put p data) := by
  have hexited : s.life p ≠ .exited := by rw [hp]; decide
  refine ⟨fun q c => ?_, h.order, h.nodup, fun c hall => ?_⟩
  · by_cases hq : q = p
    · subst hq
      have hput := (h.running hp c).put (data c)
      simpa [Files.put, hp] using hput
    · simpa [Files.put, hq] using h.account q c
  · have hbound : ∀ q, (s.given q c).length ≤ cap := by
      intro q
      refine Nat.le_trans ?_ (hall q)
      by_cases hq : q = p
      · subst hq
        simp [Files.put]
      · simp [Files.put, hq]
    refine (h.whole c hbound).trans (flatMap_signed_congr (h.notMem_order hexited) ?_ c).symm
    exact fun q hq => Function.update_of_ne hq _ _

theorem Sound.fork (h : Sound cap s) {p q : P} (hq : s.life q = .unborn) :
    Sound cap (s.fork p q) := by
  have hexited : s.life q ≠ .exited := by rw [hq]; decide
  have hnone : ∀ c, written q (s.file c) = [] ∧ s.given q c = [] := fun c =>
    (h.account q c).unborn hq
  refine ⟨fun x c => ?_, fun x => ?_, h.nodup, fun c hall => ?_⟩
  · by_cases hx : x = q
    · subst hx
      simpa [Files.fork, (hnone c).1] using Account.fork (s.buffer p c)
    · simpa [Files.fork, hx] using h.account x c
  · by_cases hx : x = q
    · subst hx
      simpa [Files.fork] using h.notMem_order hexited
    · simpa [Files.fork, hx] using h.order x
  · have hbound : ∀ x, (s.given x c).length ≤ cap := by
      intro x
      by_cases hx : x = q
      · rw [hx, (hnone c).2]
        exact Nat.zero_le _
      · simpa [Files.fork, hx] using hall x
    refine (h.whole c hbound).trans (flatMap_signed_congr (h.notMem_order hexited) ?_ c).symm
    exact fun x hx => Function.update_of_ne hx _ _

theorem Sound.exit (h : Sound cap s) {p : P} (hp : s.life p = .running) :
    Sound cap (s.exit p) := by
  have hnew : p ∉ s.order := h.notMem_order (by rw [hp]; decide)
  refine ⟨fun q c => ?_, fun q => ?_, ?_, fun c hall => ?_⟩
  · by_cases hq : q = p
    · subst hq
      simpa [Files.exit] using (h.running hp c).exit
    · simpa [Files.exit, hq, written_signed_of_ne (Ne.symm hq)] using h.account q c
  · by_cases hq : q = p
    · subst hq
      simp [Files.exit]
    · simpa [Files.exit, hq] using h.order q
  · exact List.nodup_append.mpr ⟨h.nodup, List.nodup_singleton p, fun q hq q' hq' heq =>
      hnew (List.mem_singleton.mp hq' ▸ heq ▸ hq)⟩
  · have hall' : ∀ q, (s.given q c).length ≤ cap := hall
    simp only [Files.exit, h.whole c hall', (h.running hp c).buffer_eq (hall' p),
      List.flatMap_append, List.flatMap_singleton]

theorem Sound.kill (h : Sound cap s) {p : P} (hp : s.life p = .running) :
    Sound cap (s.kill p) := by
  refine ⟨fun q c => ?_, fun q => ?_, h.nodup, h.whole⟩
  · by_cases hq : q = p
    · subst hq
      simpa [Files.kill] using (h.running hp c).kill
    · simpa [Files.kill, hq] using h.account q c
  · by_cases hq : q = p
    · subst hq
      have hnew : q ∉ s.order := h.notMem_order (by rw [hp]; decide)
      simpa [Files.kill] using hnew
    · simpa [Files.kill, hq] using h.order q

variable [DecidableEq C]

theorem Sound.spill (h : Sound cap s) {p : P} {c : C} (n : Nat) (hp : s.life p = .running)
    (hfull : cap < (s.buffer p c).length) : Sound cap (s.spill p c n) := by
  refine ⟨fun q d => ?_, h.order, h.nodup, fun d hall => ?_⟩
  · by_cases hd : d = c
    · subst hd
      by_cases hq : q = p
      · subst hq
        simpa [Files.spill, hp] using (h.running hp d).spill n hfull
      · simpa [Files.spill, hq, written_signed_of_ne (Ne.symm hq)] using h.account q d
    · have hfile : (s.spill p c n).file d = s.file d := by simp [Files.spill, hd]
      have hbuffer : (s.spill p c n).buffer q d = s.buffer q d := by
        by_cases hq : q = p
        · subst hq
          simp [Files.spill, hd]
        · simp [Files.spill, hq]
      rw [hfile, hbuffer]
      exact h.account q d
  · have hall' : ∀ q, (s.given q d).length ≤ cap := hall
    by_cases hd : d = c
    · subst hd
      rw [(h.running hp d).buffer_eq (hall' p)] at hfull
      exact absurd (hall' p) (Nat.not_le.mpr hfull)
    · simpa [Files.spill, hd] using h.whole d hall'

theorem Step.sound (hstep : Step cap s s') (h : Sound cap s) : Sound cap s' := by
  cases hstep with
  | put data hp => exact h.put hp data
  | fork hp hq => exact h.fork hq
  | spill n hp hfull => exact h.spill n hp hfull
  | exit hp => exact h.exit hp
  | kill hp => exact h.kill hp

end

/-! ## Runs -/

section

variable {cap : Nat}

/-- One process is running, with these buffers, and nothing has been appended. -/
def Files.start (p : P) (buffer : C → List β) : Files P C β where
  life := Function.update (fun _ => .unborn) p .running
  order := []
  file := fun _ => []
  buffer := Function.update (fun _ _ => []) p buffer
  given := Function.update (fun _ _ => []) p buffer

theorem Files.start_sound (p : P) (buffer : C → List β) : Sound cap (Files.start p buffer) := by
  refine ⟨fun q c => ?_, fun q => ?_, List.nodup_nil, fun c _ => rfl⟩
  · by_cases hq : q = p
    · subst hq
      simpa [Files.start] using Account.fork (buffer c)
    · simp only [Files.start, Function.update_of_ne hq, written_nil]
      exact ⟨fun _ => ⟨rfl, rfl⟩, nofun, nofun, List.nil_prefix, fun _ _ => rfl⟩
  · by_cases hq : q = p
    · subst hq
      simp [Files.start]
    · simp [Files.start, hq]

end

end SharedFiles
