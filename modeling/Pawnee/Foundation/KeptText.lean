import Mathlib.Data.List.TakeWhile
import Mathlib.Data.List.Basic

/-!
# Texts of which a part is kept

A marked text says of each of its items whether it is kept or dropped, so that what is
kept can be traced to the places it comes from.  A run of kept items between edges
stands in the whole text, between edges again, exactly if no dropped item harms it: none
is inside the run, and none that is no edge is directly before or behind it
(`stands_iff`).
-/

namespace KeptText

variable {α : Type}

/-- A text with a mark on each item that is kept. -/
abbrev Marked (α : Type) := List (α × Bool)

/-- All items. -/
def text (m : Marked α) : List α := m.map Prod.fst

/-- The items that are kept. -/
def remains (m : Marked α) : List α := m.filterMap fun e => if e.2 then some e.1 else none

/-- A text with one mark on all its items. -/
def mark (keep : Bool) (s : List α) : Marked α := s.map (·, keep)

@[simp] theorem text_nil : text ([] : Marked α) = [] := rfl

@[simp] theorem remains_nil : remains ([] : Marked α) = [] := rfl

@[simp] theorem text_append (m n : Marked α) : text (m ++ n) = text m ++ text n :=
  List.map_append

@[simp] theorem remains_append (m n : Marked α) : remains (m ++ n) = remains m ++ remains n :=
  List.filterMap_append

@[simp] theorem remains_cons_true (c : α) (m : Marked α) :
    remains ((c, true) :: m) = c :: remains m := rfl

@[simp] theorem remains_cons_false (c : α) (m : Marked α) :
    remains ((c, false) :: m) = remains m := rfl

@[simp] theorem text_mark (keep : Bool) (s : List α) : text (mark keep s) = s := by
  rw [text, mark, List.map_map]
  exact List.map_id s

@[simp] theorem remains_mark_true (s : List α) : remains (mark true s) = s := by
  induction s with
  | nil => rfl
  | cons c s ih => exact congrArg (c :: ·) ih

@[simp] theorem remains_mark_false (s : List α) : remains (mark false s) = [] := by
  induction s with
  | nil => rfl
  | cons c s ih => exact ih

@[simp] theorem mark_append (keep : Bool) (s t : List α) :
    mark keep (s ++ t) = mark keep s ++ mark keep t := List.map_append

theorem remains_eq_nil {m : Marked α} (h : ∀ e ∈ m, e.2 = false) : remains m = [] := by
  refine List.filterMap_eq_nil_iff.mpr fun e he => ?_
  simp [h e he]

/-- A text of which everything is kept. -/
theorem eq_mark_of_kept {m : Marked α} (h : ∀ e ∈ m, e.2 = true) : m = mark true (remains m) := by
  induction m with
  | nil => rfl
  | cons e m ih =>
      obtain ⟨c, keep⟩ := e
      obtain rfl : keep = true := h _ List.mem_cons_self
      rw [remains_cons_true, mark, List.map_cons, ← mark,
        ← ih fun e he => h e (List.mem_cons_of_mem _ he)]

/-! ## At most so many -/

/-- Nothing is kept behind the first `n` items that are. -/
def cap : Nat → Marked α → Marked α
  | _, [] => []
  | n, (c, false) :: m => (c, false) :: cap n m
  | 0, (c, true) :: m => (c, false) :: cap 0 m
  | n + 1, (c, true) :: m => (c, true) :: cap n m

@[simp] theorem text_cap (n : Nat) (m : Marked α) : text (cap n m) = text m := by
  fun_induction cap n m with
  | case1 n => rfl
  | case2 n c m ih => exact congrArg (c :: ·) ih
  | case3 c m ih => exact congrArg (c :: ·) ih
  | case4 n c m ih => exact congrArg (c :: ·) ih

@[simp] theorem remains_cap (n : Nat) (m : Marked α) : remains (cap n m) = (remains m).take n := by
  fun_induction cap n m with
  | case1 n => simp
  | case2 n c m ih => exact ih
  | case3 c m ih => simpa using ih
  | case4 n c m ih => simp [ih]

theorem cap_mark_true (n : Nat) (s : List α) :
    cap n (mark true s) = mark true (s.take n) ++ mark false (s.drop n) := by
  induction s generalizing n with
  | nil => simp [mark, cap]
  | cons c s ih =>
      cases n with
      | zero =>
          have hzero : cap 0 (mark true s) = mark false s := ih 0
          exact congrArg ((c, false) :: ·) hzero
      | succ n => exact congrArg ((c, true) :: ·) (ih n)

/-! ## Places of what is kept -/

/-- What is kept is cut in two between a kept item and what is dropped before it. -/
theorem exists_cut_before {m : Marked α} {p q : List α} (h : remains m = p ++ q) :
    ∃ a b, m = a ++ b ∧ remains a = p ∧ remains b = q ∧ ∀ e ∈ b.head?, e.2 = true := by
  obtain ⟨a, b, rfl, ha, hb⟩ := List.filterMap_eq_append_iff.mp h
  have hcut := List.takeWhile_append_dropWhile (p := fun e : α × Bool => !e.2) (l := b)
  have hlost : remains (b.takeWhile fun e => !e.2) = [] :=
    remains_eq_nil fun e he => by simpa using List.mem_takeWhile_imp he
  refine ⟨a ++ b.takeWhile fun e => !e.2, b.dropWhile fun e => !e.2, ?_, ?_, ?_, fun e he => ?_⟩
  · rw [List.append_assoc, hcut]
  · rw [remains_append, hlost, List.append_nil]
    exact ha
  · have hkept := congrArg remains hcut
    rw [remains_append, hlost, List.nil_append] at hkept
    exact hkept.trans hb
  · have hhead := List.head?_dropWhile_not (fun e : α × Bool => !e.2) b
    rw [Option.mem_def.mp he] at hhead
    simpa using hhead

/-- What is kept is cut in two between a kept item and what is dropped behind it. -/
theorem exists_cut_behind {m : Marked α} {p q : List α} (h : remains m = p ++ q) :
    ∃ a b, m = a ++ b ∧ remains a = p ∧ remains b = q ∧ ∀ e ∈ a.getLast?, e.2 = true := by
  have hrev : remains m.reverse = q.reverse ++ p.reverse := by
    rw [remains, List.filterMap_reverse, ← remains, h, List.reverse_append]
  obtain ⟨b, a, hm, hb, ha, hhead⟩ := exists_cut_before hrev
  refine ⟨a.reverse, b.reverse, ?_, ?_, ?_, fun e he => hhead e ?_⟩
  · rw [← List.reverse_append, ← hm, List.reverse_reverse]
  · rw [remains, List.filterMap_reverse, ← remains, ha, List.reverse_reverse]
  · rw [remains, List.filterMap_reverse, ← remains, hb, List.reverse_reverse]
  · rwa [List.getLast?_reverse] at he

/-! ## Runs that stand in the text -/

section

variable (edge : α → Prop)

/-- The run between `x` and `y` of what is kept stands in the text without a gap, behind
its first `n` items and between edges. -/
def Stands (n : Nat) (m : Marked α) (x run y : List α) : Prop :=
  ∃ a b, m = a ++ (mark true run ++ b) ∧ remains a = x ∧ remains b = y ∧ n ≤ a.length ∧
    (∀ e ∈ a.getLast?, edge e.1) ∧ ∀ e ∈ b.head?, edge e.1

/-- The item that is dropped between `u` and `v` takes the run behind `x` from its edges,
or cuts it. -/
inductive Harms (x run : List α) (u : Marked α) (c : α) (v : Marked α) : Prop
  | inside : x.length < (remains u).length → (remains u).length < x.length + run.length →
      Harms x run u c v
  | before : (remains u).length = x.length → ¬ edge c → (∀ e ∈ v.head?, e.2 = true) →
      Harms x run u c v
  | behind : (remains u).length = x.length + run.length → ¬ edge c →
      (∀ e ∈ u.getLast?, e.2 = true) → Harms x run u c v

end

variable {edge : α → Prop} {n : Nat} {m : Marked α} {x run y : List α}

/-- Where a run stands it begins behind the first `n` items. -/
theorem remains_take_le (h : Stands edge n m x run y) : (remains (m.take n)).length ≤ x.length := by
  obtain ⟨a, b, rfl, rfl, -, hn, -⟩ := h
  rw [List.take_append_of_le_length hn]
  exact ((List.take_sublist n a).filterMap _).length_le

theorem mem_mark {keep : Bool} {s : List α} {e : α × Bool} (h : e ∈ mark keep s) : e.2 = keep := by
  obtain ⟨c, -, rfl⟩ := List.mem_map.mp h
  rfl

/-- An item that is dropped is before a run that stands in the text, or behind it. -/
theorem dropped_beside {a b u v : Marked α} {c : α}
    (h : a ++ (mark true run ++ b) = u ++ (c, false) :: v) :
    (∃ w, a = u ++ (c, false) :: w ∧ v = w ++ (mark true run ++ b)) ∨
      ∃ w, u = a ++ (mark true run ++ w) ∧ b = w ++ (c, false) :: v := by
  have hrun : ∀ {w w' : Marked α}, mark true run ≠ w ++ (c, false) :: w' := fun heq => by
    have hmem : (c, false) ∈ mark true run := heq ▸ by simp
    cases mem_mark hmem
  rcases List.append_eq_append_iff.mp h with ⟨w, rfl, hw⟩ | ⟨w, rfl, hw⟩
  · rcases List.append_eq_append_iff.mp hw with ⟨w', rfl, hw'⟩ | ⟨w', hw', hb⟩
    · exact .inr ⟨w', rfl, hw'⟩
    · cases w' with
      | nil => exact .inr ⟨[], by simp [hw'], by simpa using hb.symm⟩
      | cons e w' =>
          cases hb
          exact absurd hw' hrun
  · cases w with
    | nil =>
        cases hmark : mark true run with
        | nil => exact .inr ⟨[], by simp, by simpa [hmark] using hw.symm⟩
        | cons e r =>
            rw [List.nil_append, hmark] at hw
            cases hw
            exact absurd (hmark.trans (List.nil_append _).symm) hrun
    | cons e w =>
        cases hw
        exact .inl ⟨w, rfl, rfl⟩

/-- A run that stands in the text is harmed by nothing. -/
theorem Stands.not_harms (hne : run ≠ []) (h : Stands edge n m x run y) {u v : Marked α} {c : α}
    (hm : m = u ++ (c, false) :: v) : ¬ Harms edge x run u c v := by
  obtain ⟨a, b, rfl, rfl, rfl, -, hstart, hstop⟩ := h
  have hlen : 0 < run.length := List.length_pos_iff.mpr hne
  rcases dropped_beside hm with ⟨w, rfl, rfl⟩ | ⟨w, rfl, rfl⟩
  · have hkept : (remains (u ++ (c, false) :: w)).length =
        (remains u).length + (remains w).length := by simp
    rintro (⟨hlt, -⟩ | ⟨heq, hedge, hhead⟩ | ⟨heq, -⟩)
    · omega
    · -- the item is the last one before the run
      cases w with
      | nil => exact hedge (hstart (c, false) (by simp))
      | cons e w =>
          obtain ⟨d, keep⟩ := e
          obtain rfl : keep = true := hhead (d, keep) rfl
          simp at heq
    · omega
  · have hkept : (remains (a ++ (mark true run ++ w))).length =
        (remains a).length + run.length + (remains w).length := by simp; omega
    rintro (⟨-, hlt⟩ | ⟨heq, -⟩ | ⟨heq, hedge, hlast⟩)
    · omega
    · omega
    · -- the item is the first one behind the run
      rcases List.eq_nil_or_concat w with rfl | ⟨w, ⟨d, keep⟩, rfl⟩
      · exact hedge (hstop (c, false) rfl)
      · obtain rfl : keep = true := hlast (d, keep) (by simp)
        simp at heq

/-- Where a front part is kept and the rest dropped, a run is harmed at the cut only. -/
theorem not_harms_front {front back : List α} {u v : Marked α} {c : α}
    (hm : mark true front ++ mark false back = u ++ (c, false) :: v)
    (hfront : front = x ++ (run ++ y)) (hne : run ≠ [])
    (hcut : (∀ d ∈ front.getLast?, d ∉ run) ∨ ∀ d ∈ back.head?, edge d) :
    ¬ Harms edge x run u c v := by
  have hlen : 0 < run.length := List.length_pos_iff.mpr hne
  have hbeside : [] ++ (mark true front ++ mark false back) = u ++ (c, false) :: v := hm
  rcases dropped_beside hbeside with ⟨w, hnil, -⟩ | ⟨w, rfl, hback⟩
  · exact absurd hnil (by simp)
  · have hdropped : ∀ e ∈ w, e.2 = false := fun e he =>
      mem_mark (hback ▸ List.mem_append_left _ he : e ∈ mark false back)
    have hkept : remains ([] ++ (mark true front ++ w)) = x ++ (run ++ y) := by
      simp [remains_eq_nil hdropped, hfront]
    have hcount := congrArg List.length hkept
    simp only [List.length_append] at hcount
    rintro (⟨-, hlt⟩ | ⟨heq, -⟩ | ⟨heq, hedge, hlast⟩)
    · omega
    · omega
    · obtain rfl : y = [] := List.length_eq_zero_iff.mp (by omega)
      rcases List.eq_nil_or_concat w with rfl | ⟨w, e, rfl⟩
      · rcases hcut with hcut | hcut
        · -- the run ends where the front part does
          rw [List.append_nil] at hfront
          rw [hfront, List.getLast?_append_of_ne_nil _ hne] at hcut
          exact hcut _ (List.getLast?_eq_getLast_of_ne_nil hne) (List.getLast_mem hne)
        · have hhead := congrArg text hback
          rw [text_mark, List.nil_append] at hhead
          exact hedge (hcut c (by rw [hhead]; rfl))
      · have hfalse := hdropped e (by simp)
        rw [hlast e (by simp)] at hfalse
        cases hfalse

/-- A run that nothing harms is kept without a gap. -/
theorem eq_mark_of_not_harms {a r b : Marked α}
    (h : ∀ u c v, a ++ (r ++ b) = u ++ (c, false) :: v → ¬ Harms edge (remains a) (remains r) u c v)
    (hhead : ∀ e ∈ r.head?, e.2 = true) (hlast : ∀ e ∈ r.getLast?, e.2 = true) :
    r = mark true (remains r) := by
  refine eq_mark_of_kept fun ⟨c, keep⟩ he => ?_
  by_contra hno
  obtain rfl : keep = false := by simpa using hno
  obtain ⟨r₁, r₂, rfl⟩ := List.append_of_mem he
  refine h (a ++ r₁) c (r₂ ++ b) (by simp) (.inside ?_ ?_)
  · cases r₁ with
    | nil => cases hhead (c, false) rfl
    | cons e r₁ =>
        obtain ⟨d, keep⟩ := e
        obtain rfl : keep = true := hhead (d, keep) rfl
        simp
  · rcases List.eq_nil_or_concat r₂ with rfl | ⟨r₂, ⟨d, keep⟩, rfl⟩
    · cases hlast (c, false) (by simp)
    · have hmem : (d, keep) ∈ (r₁ ++ (c, false) :: r₂.concat (d, keep)).getLast? := by
        rw [List.concat_eq_append, ← List.cons_append, ← List.append_assoc, List.getLast?_concat]
        rfl
      obtain rfl : keep = true := hlast _ hmem
      simp

theorem stands_of_not_harms (hm : remains m = x ++ (run ++ y)) (hne : run ≠ [])
    (hx : ∀ c ∈ x.getLast?, edge c) (hy : ∀ c ∈ y.head?, edge c)
    (hn : (remains (m.take n)).length ≤ x.length)
    (h : ∀ u c v, m = u ++ (c, false) :: v → ¬ Harms edge x run u c v) :
    Stands edge n m x run y := by
  obtain ⟨a, d, rfl, rfl, hd, hdhead⟩ := exists_cut_before hm
  obtain ⟨r, b, rfl, rfl, rfl, hrlast⟩ := exists_cut_behind hd
  cases r with
  | nil => exact absurd rfl hne
  | cons e r =>
      obtain ⟨d, keep⟩ := e
      obtain rfl : keep = true := hdhead (d, keep) rfl
      have hr := eq_mark_of_not_harms h (by simp) hrlast
      refine ⟨a, b, by rw [← hr], rfl, rfl, ?_, ?_, ?_⟩
      · by_contra hlt
        -- the first item of the run would be among the first `n`
        obtain ⟨k, hk⟩ : ∃ k, n - a.length = k + 1 := ⟨n - a.length - 1, by omega⟩
        rw [List.take_append, List.take_of_length_le (by omega), hk, List.cons_append,
          List.take_succ_cons, remains_append, remains_cons_true, List.length_append,
          List.length_cons] at hn
        omega
      · rintro ⟨c, keep⟩ he
        obtain ⟨a, rfl⟩ := List.getLast?_eq_some_iff.mp he
        cases keep with
        | true => exact hx c (by simp)
        | false =>
            by_contra hedge
            exact h a c (((d, true) :: r) ++ b) (by simp) (.before (by simp) hedge (by simp))
      · rintro ⟨c, keep⟩ he
        obtain ⟨b, rfl⟩ := List.head?_eq_some_iff.mp he
        cases keep with
        | true => exact hy c rfl
        | false =>
            by_contra hedge
            refine h (a ++ (d, true) :: r) c b (by simp) (.behind (by simp) hedge fun e he => ?_)
            rw [List.getLast?_append_of_ne_nil _ (List.cons_ne_nil _ _)] at he
            exact hrlast e he

/-- A run stands in the text exactly if it begins behind the first `n` items and no item
that is dropped harms it. -/
theorem stands_iff (hm : remains m = x ++ (run ++ y)) (hne : run ≠ [])
    (hx : ∀ c ∈ x.getLast?, edge c) (hy : ∀ c ∈ y.head?, edge c) :
    Stands edge n m x run y ↔ (remains (m.take n)).length ≤ x.length ∧
      ∀ u c v, m = u ++ (c, false) :: v → ¬ Harms edge x run u c v :=
  ⟨fun h => ⟨remains_take_le h, fun _ _ _ hdrop => h.not_harms hne hdrop⟩, fun ⟨hn, h⟩ =>
    stands_of_not_harms hm hne hx hy hn h⟩

end KeptText
