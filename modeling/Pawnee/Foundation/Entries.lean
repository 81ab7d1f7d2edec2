import Mathlib.Logic.Function.Basic
import Mathlib.Data.Set.Defs
import Mathlib.Tactic.Common

/-!
# Records and the entries that set them

A record has a member for each key (`Record`).  An entry is a key with a value,
and a list of entries sets a record one after the other.  What a member holds
then is the value of the last entry of its key, or what it held before
(`Record.get_setAll`).

A reader finds at most one entry in a piece of text, or fails on it.  `entries`
are the entries of a list of pieces.  Lines may be read in several pieces, and
lines in which a reader finds nothing can be inserted anywhere
(`entries_inserted`).
-/

namespace Entries

/-! ## Records -/

section

variable {K : Type} {V : K → Type} {S : Type} [DecidableEq K]

/-- The value an entry gives a key. -/
def valueFor (k : K) (e : Sigma V) : Option (V k) := if h : e.1 = k then some (h ▸ e.2) else none

@[simp] theorem valueFor_self (k : K) (v : V k) : valueFor k ⟨k, v⟩ = some v := by simp [valueFor]

theorem valueFor_of_ne {k k' : K} (h : k' ≠ k) (v : V k') : valueFor k ⟨k', v⟩ = none := by
  simp [valueFor, h]

/-- The value the last entry of a key gives it. -/
def lastOf (k : K) : List (Sigma V) → Option (V k)
  | [] => none
  | e :: es => (lastOf k es).or (valueFor k e)

@[simp] theorem lastOf_nil (k : K) : lastOf k ([] : List (Sigma V)) = none := rfl

theorem lastOf_append (k : K) (es es' : List (Sigma V)) :
    lastOf k (es ++ es') = (lastOf k es').or (lastOf k es) := by
  induction es with
  | nil => simp
  | cons e es ih => rw [List.cons_append, lastOf, ih, lastOf, Option.or_assoc]

/-- A key has a last entry if it has any. -/
theorem lastOf_eq_none_iff {k : K} {es : List (Sigma V)} :
    lastOf k es = none ↔ ∀ e ∈ es, e.1 ≠ k := by
  induction es with
  | nil => simp
  | cons e es ih => simp [lastOf, ih, valueFor, and_comm]

/-- The last entry of a key is one of the entries. -/
theorem mem_of_lastOf {k : K} {es : List (Sigma V)} {v : V k} (h : lastOf k es = some v) :
    ⟨k, v⟩ ∈ es := by
  induction es with
  | nil => cases h
  | cons e es ih =>
      rw [lastOf, Option.or_eq_some_iff] at h
      rcases h with h | ⟨-, h⟩
      · exact List.mem_cons_of_mem _ (ih h)
      · obtain ⟨k', v'⟩ := e
        by_cases hk : k' = k
        · subst hk
          rw [valueFor_self] at h
          cases h
          exact List.mem_cons_self
        · rw [valueFor_of_ne hk] at h
          cases h

/-- The last value of a key when all values are changed key by key. -/
theorem lastOf_map {W : K → Type} (f : ∀ k, V k → W k) (k : K) (es : List (Sigma V)) :
    lastOf k (es.map fun e => (⟨e.1, f e.1 e.2⟩ : Sigma W)) = (lastOf k es).map (f k) := by
  induction es with
  | nil => rfl
  | cons e es ih =>
      have hvalue : valueFor k (⟨e.1, f e.1 e.2⟩ : Sigma W) = (valueFor k e).map (f k) := by
        obtain ⟨k', v⟩ := e
        by_cases hk : k' = k
        · subst hk
          simp
        · simp [valueFor_of_ne hk]
      rw [List.map_cons, lastOf, lastOf, ih, hvalue]
      cases lastOf k es <;> rfl

/-- Records with a member of type `V k` for each key `k`. -/
structure Record (V : K → Type) (S : Type) where
  get : S → ∀ k, V k
  set : S → Sigma V → S
  get_set : ∀ s e, get (set s e) = Function.update (get s) e.1 e.2
  /-- A record is its members. -/
  ext : Function.Injective get

/-- The entries set the record one after the other. -/
def Record.setAll (R : Record V S) (s : S) (es : List (Sigma V)) : S := es.foldl R.set s

@[simp] theorem Record.setAll_nil (R : Record V S) (s : S) : R.setAll s [] = s := rfl

theorem Record.setAll_append (R : Record V S) (s : S) (es es' : List (Sigma V)) :
    R.setAll s (es ++ es') = R.setAll (R.setAll s es) es' := List.foldl_append

/-- An entry sets the member of its key and no other. -/
theorem Record.get_set_eq (R : Record V S) (s : S) (e : Sigma V) (k : K) :
    R.get (R.set s e) k = (valueFor k e).getD (R.get s k) := by
  obtain ⟨k', v⟩ := e
  rw [R.get_set]
  by_cases hk : k' = k
  · subst hk
    simp
  · rw [Function.update_of_ne (Ne.symm hk), valueFor_of_ne hk, Option.getD_none]

/-- A member holds the value of the last entry of its key. -/
theorem Record.get_setAll (R : Record V S) (s : S) (es : List (Sigma V)) (k : K) :
    R.get (R.setAll s es) k = (lastOf k es).getD (R.get s k) := by
  induction es generalizing s with
  | nil => rfl
  | cons e es ih =>
      change R.get (R.setAll (R.set s e) es) k = _
      rw [ih, R.get_set_eq, lastOf]
      cases lastOf k es <;> rfl

/-- Entries that leave every record as it is are none. -/
theorem Record.setAll_eq_self_iff (R : Record V S) [∀ k, Nontrivial (V k)] [Nonempty S]
    {es : List (Sigma V)} : (∀ s, R.setAll s es = s) ↔ es = [] := by
  constructor
  · intro h
    by_contra hne
    obtain ⟨⟨k, v⟩, es', rfl⟩ := List.exists_cons_of_ne_nil hne
    -- a value of the key that no last entry gives it
    obtain ⟨w, hw⟩ := Option.ne_none_iff_exists'.mp
      (fun hnone => lastOf_eq_none_iff.mp hnone ⟨k, v⟩ List.mem_cons_self rfl)
    obtain ⟨w', hw'⟩ := exists_ne w
    have hget := R.get_setAll (R.set (Classical.arbitrary S) ⟨k, w'⟩) (⟨k, v⟩ :: es') k
    rw [h, hw, Option.getD_some, R.get_set_eq, valueFor_self, Option.getD_some] at hget
    exact hw' hget
  · rintro rfl s
    rfl

end

/-! ## Readers -/

section

variable {K : Type} {V : K → Type} {ε L P : Type}

/-- The entries a reader finds in pieces of text, or its first failure. -/
def entries (read : P → Except ε (Option (Sigma V))) : List P → Except ε (List (Sigma V))
  | [] => .ok []
  | p :: ps => do
      let e ← read p
      let es ← entries read ps
      pure (e.toList ++ es)

variable {read : P → Except ε (Option (Sigma V))}

@[simp] theorem entries_nil : entries read [] = .ok [] := rfl

theorem entries_cons_ok {p : P} {ps : List P} {e : Option (Sigma V)} (h : read p = .ok e) :
    entries read (p :: ps) = (entries read ps).map (e.toList ++ ·) := by
  simp only [entries, h]
  cases entries read ps <;> rfl

theorem entries_cons_error {p : P} {ps : List P} {x : ε} (h : read p = .error x) :
    entries read (p :: ps) = .error x := by
  simp only [entries, h]
  rfl

theorem entries_append (ps ps' : List P) :
    entries read (ps ++ ps') =
      (do
        let es ← entries read ps
        let es' ← entries read ps'
        pure (es ++ es')) := by
  induction ps with
  | nil => exact (bind_pure (entries read ps')).symm
  | cons p ps ih =>
      simp only [List.cons_append, entries, ih, bind_assoc, pure_bind, List.append_assoc]

/-- A reader gets through pieces if it gets through each of them. -/
theorem entries_ok_iff {ps : List P} :
    (∃ es, entries read ps = .ok es) ↔ ∀ p ∈ ps, ∃ e, read p = .ok e := by
  induction ps with
  | nil => simp
  | cons p ps ih =>
      rw [List.forall_mem_cons, ← ih]
      cases hp : read p with
      | error x => simp [entries_cons_error hp]
      | ok e =>
          rw [entries_cons_ok hp]
          cases entries read ps <;> simp [Except.map]

/-- Pieces have no entry if none of them has one. -/
theorem entries_eq_nil_iff {ps : List P} :
    entries read ps = .ok [] ↔ ∀ p ∈ ps, read p = .ok none := by
  induction ps with
  | nil => simp
  | cons p ps ih =>
      rw [List.forall_mem_cons, ← ih]
      cases hp : read p with
      | error x => simp [entries_cons_error hp]
      | ok e =>
          rw [entries_cons_ok hp]
          cases entries read ps <;> cases e <;> simp [Except.map]

/-- Pieces whose readings are known. -/
theorem entries_of_forall {f : P → Option (Sigma V)} {ps : List P}
    (h : ∀ p ∈ ps, read p = .ok (f p)) : entries read ps = .ok (ps.filterMap f) := by
  induction ps with
  | nil => rfl
  | cons p ps ih =>
      rw [entries_cons_ok (h p List.mem_cons_self),
        ih fun p' hp' => h p' (List.mem_cons_of_mem _ hp'), List.filterMap_cons]
      cases f p <;> rfl

/-- `t'` is `t` with lines of `C` between its lines. -/
inductive Inserted (C : Set L) : List L → List L → Prop
  | nil : Inserted C [] []
  | keep (l : L) {t t' : List L} : Inserted C t t' → Inserted C (l :: t) (l :: t')
  | insert {c : L} {t t' : List L} : c ∈ C → Inserted C t t' → Inserted C t (c :: t')

/-- What holds of the lines of a text and of the inserted lines holds of all of them. -/
theorem Inserted.forall_mem {C : Set L} {P : L → Prop} {t t' : List L}
    (h : Inserted C t t') (ht : ∀ l ∈ t, P l) (hC : ∀ c ∈ C, P c) : ∀ l ∈ t', P l := by
  induction h with
  | nil => exact ht
  | keep l _ ih =>
      rw [List.forall_mem_cons] at ht ⊢
      exact ⟨ht.1, ih ht.2⟩
  | insert hc _ ih =>
      rw [List.forall_mem_cons]
      exact ⟨hC _ hc, ih ht⟩

/-- Lines without entries can be inserted anywhere. -/
theorem entries_inserted {C : Set L} {cut : L → List P}
    (hC : ∀ c ∈ C, entries read (cut c) = .ok []) {t t' : List L} (h : Inserted C t t') :
    entries read (t'.flatMap cut) = entries read (t.flatMap cut) := by
  induction h with
  | nil => rfl
  | keep l _ ih => rw [List.flatMap_cons, List.flatMap_cons, entries_append, entries_append, ih]
  | insert hc _ ih =>
      rw [List.flatMap_cons, entries_append, hC _ hc, ih]
      exact bind_pure (entries read _)

end

end Entries
