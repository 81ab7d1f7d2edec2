import Mathlib.Data.List.Chain
import Mathlib.Order.Basic
import Mathlib.Tactic.Common

/-!
# Cells read one by one

A reader reads cells one after the other, each of them once, while others write
to them.  What it has read is a snapshot if the cells have held all these values
at one moment (`IsSnapshot`).

A value that has been read is outdated when its cell has changed since.  If from
then on no cell changes that is still to be read, the reader gets a snapshot
(`History.isSnapshot`): a moment that agrees with all reads is kept along the
run.  Of cells that only grow it gets a snapshot in no other way
(`History.careful`).
-/

namespace Snapshots

variable {C V : Type}

/-- The cells, and what the reader has read so far. -/
structure View (C V : Type) where
  /-- The value of each cell. -/
  cell : C → V
  /-- The cells that have been read, with the values found. -/
  reads : List (C × V)

/-- The reader has read the cell. -/
def View.HasRead (w : View C V) (c : C) : Prop := ∃ v, (c, v) ∈ w.reads

/-- The reader reads one more cell, or one cell changes at most. -/
inductive Move (w : View C V) : View C V → Prop
  | read {c : C} : ¬ w.HasRead c → Move w ⟨w.cell, w.reads ++ [(c, w.cell c)]⟩
  | write {cell : C → V} (c : C) : (∀ c', c' ≠ c → cell c' = w.cell c') → Move w ⟨cell, w.reads⟩

/-- The views of a run, the last one first. -/
inductive History : List (View C V) → Prop
  | start (cell : C → V) : History [⟨cell, []⟩]
  | move {w w' : View C V} {l : List (View C V)} : History (w :: l) → Move w w' →
      History (w' :: w :: l)

/-- A cell has changed since it was read. -/
def View.Outdated (w : View C V) : Prop := ∃ c v, (c, v) ∈ w.reads ∧ w.cell c ≠ v

/-- While a value is outdated, no cell changes that is still to be read. -/
def Careful (w w' : View C V) : Prop := w.Outdated → ∀ c, ¬ w.HasRead c → w'.cell c = w.cell c

/-- At one moment the cells have held all these values. -/
def IsSnapshot (l : List (View C V)) (reads : List (C × V)) : Prop :=
  ∃ m ∈ l, ∀ c v, (c, v) ∈ reads → m.cell c = v

/-- Two views that stand side by side in a run are those of one step. -/
theorem rel_of_pair {R : View C V → View C V → Prop} {l : List (View C V)} (h : l.IsChain R)
    {x' x : View C V} (hpair : [x', x] <:+: l) : R x' x :=
  List.isChain_pair.mp <| List.IsChain.infix h hpair

theorem History.isChain_move {l : List (View C V)} (h : History l) :
    l.IsChain fun w' w => Move w w' := by
  induction h with
  | start cell => exact List.isChain_singleton _
  | move h hmove ih => exact List.isChain_cons_cons.mpr ⟨hmove, ih⟩

/-! ## A careful run gives a snapshot -/

/-- The moment agrees with everything read so far, and with the cells that are
still to be read. -/
structure Agrees (m w : View C V) : Prop where
  read : ∀ c v, (c, v) ∈ w.reads → m.cell c = v
  unread : ∀ c, ¬ w.HasRead c → m.cell c = w.cell c

/-- The view itself agrees while no value is outdated. -/
theorem Agrees.refl {w : View C V} (h : ¬ w.Outdated) : Agrees w w := by
  refine ⟨fun c v hread => ?_, fun c _ => rfl⟩
  by_contra hne
  exact h ⟨c, v, hread, hne⟩

theorem hasRead_snoc {w : View C V} {c c' : C} {v : V} :
    (⟨w.cell, w.reads ++ [(c, v)]⟩ : View C V).HasRead c' ↔ w.HasRead c' ∨ c' = c := by
  constructor
  · rintro ⟨v', h⟩
    rcases List.mem_append.mp h with h | h
    · exact .inl ⟨v', h⟩
    · exact .inr (Prod.mk.inj (List.mem_singleton.mp h)).1
  · rintro (⟨v', h⟩ | rfl)
    · exact ⟨v', List.mem_append_left _ h⟩
    · exact ⟨v, List.mem_append_right _ (List.mem_singleton.mpr rfl)⟩

/-- One careful step: the moment still agrees, or the view before the step or
the one behind it does. -/
theorem Agrees.move {m w w' : View C V} (h : Agrees m w) (hmove : Move w w')
    (hcareful : Careful w w') : Agrees m w' ∨ Agrees w w' ∨ Agrees w' w' := by
  cases hmove with
  | @read c hc =>
      refine .inl ⟨fun c' v hread => ?_, fun c' hunread => ?_⟩
      · rcases List.mem_append.mp hread with hread | hread
        · exact h.read c' v hread
        · obtain ⟨rfl, rfl⟩ := Prod.mk.inj (List.mem_singleton.mp hread)
          exact h.unread c' hc
      · rw [hasRead_snoc, not_or] at hunread
        exact h.unread c' hunread.1
  | @write cell c hothers =>
      by_cases hout : w.Outdated
      · exact .inl ⟨h.read, fun c' hunread =>
          (h.unread c' hunread).trans (hcareful hout c' hunread).symm⟩
      · have hw := Agrees.refl hout
        by_cases hc : w.HasRead c
        · -- only a value that has been read becomes outdated
          refine .inr (.inl ⟨hw.read, fun c' hunread => ?_⟩)
          have hne : c' ≠ c := fun heq => hunread (heq ▸ hc)
          exact (hothers c' hne).symm
        · refine .inr (.inr ⟨fun c' v hread => ?_, fun c' _ => rfl⟩)
          have hne : c' ≠ c := fun heq => hc (heq ▸ ⟨v, hread⟩)
          exact (hothers c' hne).trans (hw.read c' v hread)

/-- A moment that agrees is kept along a careful run. -/
theorem History.exists_agrees {w : View C V} {l : List (View C V)} (h : History (w :: l))
    (hcareful : (w :: l).IsChain fun w' w => Careful w w') : ∃ m ∈ w :: l, Agrees m w := by
  generalize hviews : w :: l = views at h hcareful
  induction h generalizing w l with
  | start cell =>
      cases hviews
      exact ⟨_, List.mem_cons_self, fun c v hread => absurd hread List.not_mem_nil, fun c _ => rfl⟩
  | @move x x' l' h hmove ih =>
      cases hviews
      obtain ⟨hstep, hcareful⟩ := List.isChain_cons_cons.mp hcareful
      obtain ⟨m, hm, hagrees⟩ := ih rfl hcareful
      rcases hagrees.move hmove hstep with hagrees | hagrees | hagrees
      · exact ⟨m, List.mem_cons_of_mem _ hm, hagrees⟩
      · exact ⟨x, List.mem_cons_of_mem _ List.mem_cons_self, hagrees⟩
      · exact ⟨_, List.mem_cons_self, hagrees⟩

/-- A careful run gives a snapshot. -/
theorem History.isSnapshot {w : View C V} {l : List (View C V)} (h : History (w :: l))
    (hcareful : (w :: l).IsChain fun w' w => Careful w w') : IsSnapshot (w :: l) w.reads := by
  obtain ⟨m, hm, hagrees⟩ := h.exists_agrees hcareful
  exact ⟨m, hm, hagrees.read⟩

/-! ## Cells that only grow -/

/-- No cell shrinks in this step. -/
def Grows [LE V] (w w' : View C V) : Prop := ∀ c, w.cell c ≤ w'.cell c

section

variable [PartialOrder V]

/-- The view `w` can come behind the view `x` while no cell shrinks. -/
structure Later (x w : View C V) : Prop where
  grows : Grows x w
  kept : ∀ p ∈ x.reads, p ∈ w.reads
  fresh : ∀ c v, (c, v) ∈ w.reads → (c, v) ∈ x.reads ∨ x.cell c ≤ v

theorem Later.refl (w : View C V) : Later w w where
  grows _ := le_rfl
  kept _ h := h
  fresh _ _ h := .inl h

theorem Later.trans {x y w : View C V} (h : Later x y) (h' : Later y w) : Later x w where
  grows c := (h.grows c).trans (h'.grows c)
  kept p hp := h'.kept p (h.kept p hp)
  fresh c v hread := by
    rcases h'.fresh c v hread with hread | hle
    · exact h.fresh c v hread
    · exact .inr ((h.grows c).trans hle)

theorem Move.later {w w' : View C V} (h : Move w w') (hgrows : Grows w w') : Later w w' := by
  cases h with
  | @read c hc =>
      refine ⟨hgrows, fun p hp => List.mem_append_left _ hp, fun c' v hread => ?_⟩
      rcases List.mem_append.mp hread with hread | hread
      · exact .inl hread
      · obtain ⟨rfl, rfl⟩ := Prod.mk.inj (List.mem_singleton.mp hread)
        exact .inr le_rfl
  | write c hothers => exact ⟨hgrows, fun p hp => hp, fun c' v hread => .inl hread⟩

/-- In a run whose cells only grow all views come one behind the other. -/
theorem History.pairwise_later {l : List (View C V)} (h : History l)
    (hgrows : l.IsChain fun w' w => Grows w w') : l.Pairwise fun w' w => Later w w' := by
  have : Trans (fun w' w : View C V => Later w w') (fun w' w => Later w w')
      (fun w' w => Later w w') := ⟨fun h h' => h'.trans h⟩
  refine List.isChain_iff_pairwise.mp ?_
  exact (List.isChain_isInfix l).imp fun w' w hpair =>
    (rel_of_pair h.isChain_move hpair).later (rel_of_pair hgrows hpair)

/-- A value that has been read was in its cell before, so the cell now holds more. -/
theorem History.reads_le {l : List (View C V)} (h : History l)
    (hgrows : l.IsChain fun w' w => Grows w w') :
    ∀ w ∈ l, ∀ c v, (c, v) ∈ w.reads → v ≤ w.cell c := by
  induction h with
  | start cell => simp
  | @move w w' l h hmove ih =>
      obtain ⟨hstep, hgrows⟩ := List.isChain_cons_cons.mp hgrows
      have hold := ih hgrows w List.mem_cons_self
      intro x hx c v hread
      rcases List.mem_cons.mp hx with rfl | hx
      · cases hmove with
        | @read c' hc =>
            rcases List.mem_append.mp hread with hread | hread
            · exact hold c v hread
            · obtain ⟨rfl, rfl⟩ := Prod.mk.inj (List.mem_singleton.mp hread)
              exact le_rfl
        | write c' hothers => exact (hold c v hread).trans (hstep c)
      · exact ih hgrows x hx c v hread

/-- Before a cell was read it held no more than what was found in it. -/
theorem History.le_reads {w : View C V} {l : List (View C V)} (h : History (w :: l))
    (hgrows : (w :: l).IsChain fun w' w => Grows w w') {x : View C V} (hx : x ∈ w :: l) {c : C}
    {v : V} (hunread : ¬ x.HasRead c) (hread : (c, v) ∈ w.reads) : x.cell c ≤ v := by
  rcases List.mem_cons.mp hx with rfl | hx
  · exact absurd ⟨v, hread⟩ hunread
  · have hlater := List.rel_of_pairwise_cons (h.pairwise_later hgrows) hx
    exact (hlater.fresh c v hread).resolve_left fun hold => hunread ⟨v, hold⟩

/-- Every view of a run is behind a step or before it. -/
theorem later_or_later {l : List (View C V)} (hlater : l.Pairwise fun w' w => Later w w')
    {x' x : View C V} (hpair : [x', x] <:+: l) : ∀ m ∈ l, Later x' m ∨ Later m x := by
  obtain ⟨post, pre, rfl⟩ := hpair
  simp only [List.append_assoc, List.cons_append, List.nil_append, List.pairwise_append,
    List.pairwise_cons] at hlater
  obtain ⟨-, ⟨-, hpre, -⟩, hpost⟩ := hlater
  intro m hm
  simp only [List.append_assoc, List.cons_append, List.nil_append, List.mem_append,
    List.mem_cons] at hm
  rcases hm with hm | rfl | rfl | hm
  · exact .inl (hpost m hm x' List.mem_cons_self)
  · exact .inl (.refl _)
  · exact .inr (.refl _)
  · exact .inr (hpre m hm)

/-- A reader of all cells that gets a snapshot was in a careful run, if cells only
grow. -/
theorem History.careful {w : View C V} {l : List (View C V)} (h : History (w :: l))
    (hgrows : (w :: l).IsChain fun w' w => Grows w w') (hall : ∀ c, w.HasRead c)
    (hsnapshot : IsSnapshot (w :: l) w.reads) :
    (w :: l).IsChain fun w' w => Careful w w' := by
  obtain ⟨m, hm, hheld⟩ := hsnapshot
  have hlater := h.pairwise_later hgrows
  have hlast : ∀ y ∈ w :: l, Later y w := by
    intro y hy
    rcases List.mem_cons.mp hy with rfl | hy
    · exact .refl _
    · exact List.rel_of_pairwise_cons hlater hy
  refine (List.isChain_isInfix (w :: l)).imp fun x' x hpair => ?_
  rintro ⟨c₁, v₁, hread₁, hne⟩ c₂ hunread
  have hx : x ∈ w :: l := hpair.subset (by simp)
  have hx' : x' ∈ w :: l := hpair.subset (by simp)
  cases rel_of_pair h.isChain_move hpair with
  | read hc => rfl
  | @write cell c hothers =>
      have hstep : Grows x ⟨cell, x.reads⟩ := rel_of_pair hgrows hpair
      obtain ⟨v₂, hread₂⟩ := hall c₂
      have hm₁ : m.cell c₁ = v₁ := hheld c₁ v₁ ((hlast x hx).kept _ hread₁)
      have hm₂ : m.cell c₂ = v₂ := hheld c₂ v₂ hread₂
      rcases later_or_later hlater hpair m hm with hafter | hbefore
      · -- behind the step the outdated value is gone
        have hle : x.cell c₁ ≤ v₁ := ((hstep c₁).trans (hafter.grows c₁)).trans_eq hm₁
        exact absurd (hle.antisymm (h.reads_le hgrows x hx c₁ v₁ hread₁)) hne
      · -- before the step the new value is not there yet
        have hfresh : cell c₂ ≤ v₂ :=
          ((hlast _ hx').fresh c₂ v₂ hread₂).resolve_left fun hread => hunread ⟨v₂, hread⟩
        have hle : cell c₂ ≤ x.cell c₂ := (hfresh.trans_eq hm₂.symm).trans (hbefore.grows c₂)
        exact hle.antisymm (hstep c₂)

end

end Snapshots
