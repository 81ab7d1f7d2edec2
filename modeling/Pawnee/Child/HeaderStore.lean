import Pawnee.Foundation.Machines
import Pawnee.Source.HttpHeaders

/-!
# The header store as a list

The functions of the store are a machine, and what it should do is said by a list
of pairs: `add_header` appends one, `get_header` returns the value of the first one
of a name, `free_headers` empties the list.

As long as pairs are only added, the store is the list, across every doubling of
its array (`store_refines_list`).  `free_headers` leaves a capacity of zero, and
twice zero has no room for the next pair.  So the store survives a sequence of
calls exactly if no pair is added behind a `free_headers` (`survivesFree_iff`).
-/

namespace Pawnee

open CText Effects Effects.Machine

/-! ## What is looked up -/

/-- The value is that of the first pair of the name. -/
inductive FirstNamed (name : Str) : List HttpHeader → Str → Prop
  | here {p : HttpHeader} {l : List HttpHeader} : SameIgnoringCase p.name name →
      FirstNamed name (p :: l) p.value
  | later {p : HttpHeader} {l : List HttpHeader} {value : Str} :
      ¬ SameIgnoringCase p.name name → FirstNamed name l value → FirstNamed name (p :: l) value

theorem strcaseeq_iff {s t : Str} : strcaseeq s t = true ↔ SameIgnoringCase s t := by
  rw [strcaseeq, decide_eq_true_eq, map_toLower_eq_iff]

theorem lookupHeader_eq_some_iff {l : List HttpHeader} {name value : Str} :
    lookupHeader l name = some value ↔ FirstNamed name l value := by
  induction l with
  | nil =>
      constructor
      · intro h
        cases h
      · intro h
        cases h
  | cons p l ih =>
      by_cases hp : SameIgnoringCase p.name name
      · have hhere : lookupHeader (p :: l) name = some p.value := by
          simp [lookupHeader, strcaseeq_iff.mpr hp]
        rw [hhere, Option.some.injEq]
        constructor
        · rintro rfl
          exact .here hp
        · intro h
          cases h with
          | here => rfl
          | later hno => exact absurd hp hno
      · have hlater : lookupHeader (p :: l) name = lookupHeader l name := by
          simp [lookupHeader, mt strcaseeq_iff.mp hp]
        rw [hlater, ih]
        constructor
        · exact .later hp
        · intro h
          cases h with
          | here hyes => exact absurd hyes hp
          | later _ h => exact h

theorem lookupHeader_eq_none_iff {l : List HttpHeader} {name : Str} :
    lookupHeader l name = none ↔ ∀ p ∈ l, ¬ SameIgnoringCase p.name name := by
  simp [lookupHeader, strcaseeq_iff]

/-- `get_header` sees exactly the pairs of a list: for a name it returns the value of
the first pair of the name, and NULL if there is none. -/
structure SeesPairs (h : HttpHeaders) (l : List HttpHeader) : Prop where
  found : ∀ name value, getHeader h name = .ret (some value) ↔ FirstNamed name l value
  missing : ∀ name, getHeader h name = .ret none ↔ ∀ p ∈ l, ¬ SameIgnoringCase p.name name

theorem seesPairs_of_eq {h : HttpHeaders} {l : List HttpHeader}
    (hget : ∀ name, getHeader h name = .ret (lookupHeader l name)) : SeesPairs h l := by
  refine ⟨fun name value => ?_, fun name => ?_⟩
  · rw [hget, Prog.ret.injEq, lookupHeader_eq_some_iff]
  · rw [hget, Prog.ret.injEq, lookupHeader_eq_none_iff]

/-! ## The store as a machine -/

/-- A call of a function of the store. -/
inductive StoreOp where
  | add (header : HttpHeader)
  | get (name : Str)
  | free
deriving DecidableEq, Repr

/-- What a call does: the string it returns, if it is `get_header`, and the store. -/
def storeStep (h : HttpHeaders) : StoreOp → Server (Option Str × HttpHeaders)
  | .add header => do
      let h ← addHeader h header.name header.value
      pure (none, h)
  | .get name => do
      let value ← getHeader h name
      pure (value, h)
  | .free => pure (none, freeHeaders h)

/-- The pairs that have been added and not freed, and whether the store has been
freed. -/
structure Added where
  pairs : List HttpHeader
  freed : Bool

/-- What the store should do, and when it can: pairs are added to a store that has
not been freed. -/
def storeSpec : Spec StoreOp (Option Str) Added where
  answer t
    | .get name => lookupHeader t.pairs name
    | _ => none
  next t
    | .add header => { t with pairs := t.pairs ++ [header] }
    | .get _ => t
    | .free => ⟨[], true⟩
  Allowed t
    | .add _ => t.freed = false
    | _ => True

/-- The store after `init_headers`. -/
def Added.init : Added := ⟨[], false⟩

/-- The store holds what has been added, or it has been freed. -/
inductive StoreView : HttpHeaders → Added → Prop
  | holds {h : HttpHeaders} {l : List HttpHeader} : Holds h l → StoreView h ⟨l, false⟩
  | freed : StoreView ⟨none, 0, 0⟩ ⟨[], true⟩

theorem storeView_init : StoreView initHeaders .init := .holds holds_initHeaders

theorem StoreView.getHeader_eq {h : HttpHeaders} {t : Added} (hv : StoreView h t) (name : Str) :
    getHeader h name = .ret (lookupHeader t.pairs name) := by
  cases hv with
  | holds hl => exact Pawnee.getHeader_eq hl name
  | freed => rfl

theorem StoreView.freeHeaders_eq {h : HttpHeaders} {t : Added} (hv : StoreView h t) :
    freeHeaders h = ⟨none, 0, 0⟩ := by
  cases hv with
  | holds hl =>
      obtain ⟨-, -, spare, hslots, -⟩ := hl
      rw [freeHeaders, hslots]
  | freed => rfl

/-- Twice the capacity of a freed store is no room. -/
theorem addHeader_freed (name value : Str) :
    addHeader ⟨none, 0, 0⟩ name value = fault .outOfBounds := rfl

/-- One call does what it should, or it adds a pair to a store that has been freed
and writes outside the array. -/
theorem simulates_store : Simulates storeStep storeSpec StoreView where
  allowed := by
    intro h t op hv hop
    cases op with
    | add header =>
        cases hv with
        | holds hl =>
            obtain ⟨h', hadd, hl'⟩ := addHeader_holds hl header.name header.value
            exact ⟨h', by simp only [storeStep, hadd, Prog.ret_bind]; rfl, .holds hl'⟩
        | freed => cases hop
    | get name => exact ⟨h, by simp only [storeStep, hv.getHeader_eq, Prog.ret_bind]; rfl, hv⟩
    | free => exact ⟨⟨none, 0, 0⟩, by simp only [storeStep, hv.freeHeaders_eq]; rfl, .freed⟩
  refused := by
    intro h t op hv hop
    cases op with
    | add header =>
        cases hv with
        | holds hl => exact absurd rfl hop
        | freed => exact ⟨_, by rw [storeStep, addHeader_freed, fault_bind]; rfl⟩
    | get name => exact absurd trivial hop
    | free => exact absurd trivial hop

/-! ## Adding -/

/-- `add_header` writes the pair at an index below the capacity of the array it
then holds. -/
def WritesBelowCapacity (h : HttpHeaders) (header : HttpHeader) : Prop :=
  ∃ h' slots, addHeader h header.name header.value = .ret h' ∧ h'.headers = some slots ∧
    slots.length = h'.capacity ∧ slots[h.count]? = some (some header) ∧ h.count < h'.capacity

/-- The entries of the store are exactly the pairs of a list, in order, and it is
looked up as the list. -/
structure IsList (h : HttpHeaders) (l : List HttpHeader) : Prop where
  room : h.count ≤ h.capacity
  entries : ∃ slots, h.headers = some slots ∧ slots.length = h.capacity ∧
    slots.take h.count = l.map some
  sees : SeesPairs h l

theorem Holds.isList {h : HttpHeaders} {l : List HttpHeader} (hl : Holds h l) : IsList h l := by
  obtain ⟨hcount, -, spare, hslots, hcap⟩ := id hl
  refine ⟨by omega, ⟨_, hslots, by simp [hcap], ?_⟩, seesPairs_of_eq (getHeader_eq hl)⟩
  rw [hcount, List.take_left' (List.length_map _)]

theorem Holds.writesBelowCapacity {h : HttpHeaders} {l : List HttpHeader} (hl : Holds h l)
    (header : HttpHeader) : WritesBelowCapacity h header := by
  obtain ⟨h', hadd, hcount', -, spare, hslots, hcap⟩ := addHeader_holds hl header.name header.value
  rw [List.length_append, List.length_singleton] at hcap
  refine ⟨h', _, hadd, hslots, ?_, ?_, ?_⟩
  · simp only [List.length_append, List.length_map, List.length_singleton, hcap]
  · rw [hl.count_eq]
    simp
  · rw [hl.count_eq, hcap]
    omega

/-- While pairs are added nothing is refused. -/
theorem allAllowed_adds (l : List HttpHeader) :
    ∀ {t : Added}, t.freed = false → storeSpec.AllAllowed t (l.map .add) := by
  induction l with
  | nil => exact fun _ => trivial
  | cons header l ih => exact fun ht => ⟨ht, ih ht⟩

theorem after_adds (l : List HttpHeader) :
    ∀ t : Added, storeSpec.after t (l.map .add) = { t with pairs := t.pairs ++ l } := by
  induction l with
  | nil => simp
  | cons header l ih =>
      intro t
      rw [List.map_cons, Spec.after_cons, ih]
      simp [storeSpec]

/-- Behind `init_headers` and any calls of `add_header` the store is the list of the
pairs, and has room for the next one or makes it. -/
theorem store_refines_list (l : List HttpHeader) :
    ∃ answers h, runOps storeStep (l.map .add) initHeaders = .ret (answers, h) ∧ IsList h l ∧
      ∀ header, WritesBelowCapacity h header := by
  obtain ⟨h, hruns, hview⟩ := simulates_store.runOps_eq storeView_init (allAllowed_adds l rfl)
  rw [after_adds] at hview
  refine ⟨_, h, hruns, ?_⟩
  cases hview with
  | holds hl => exact ⟨hl.isList, hl.writesBelowCapacity⟩

/-! ## Freeing -/

/-- The pairs that are there after a call. -/
def pairsAfter (l : List HttpHeader) : StoreOp → List HttpHeader
  | .add header => l ++ [header]
  | .get _ => l
  | .free => []

/-- The pairs added since the last `free_headers`. -/
def pairsSinceFree (ops : List StoreOp) : List HttpHeader := ops.foldl pairsAfter []

/-- The store can be used in this order: behind every part of the calls `get_header`
sees exactly the pairs added since the last `free_headers`, a second `free_headers`
changes nothing, and every `add_header` writes below the capacity. -/
structure SurvivesFree (ops : List StoreOp) : Prop where
  sees : ∀ before after, ops = before ++ after → ∃ answers h,
    runOps storeStep before initHeaders = .ret (answers, h) ∧
      SeesPairs h (pairsSinceFree before) ∧ freeHeaders (freeHeaders h) = freeHeaders h
  writes : ∀ before header after, ops = before ++ .add header :: after → ∃ answers h,
    runOps storeStep before initHeaders = .ret (answers, h) ∧ WritesBelowCapacity h header

/-- No pair is added behind a `free_headers`. -/
def NoAddAfterFree (ops : List StoreOp) : Prop :=
  ∀ before after, ops = before ++ .free :: after → ∀ header, .add header ∉ after

theorem after_pairs (ops : List StoreOp) :
    (storeSpec.after .init ops).pairs = pairsSinceFree ops := by
  have hfold : ∀ t : Added, (storeSpec.after t ops).pairs = ops.foldl pairsAfter t.pairs := by
    induction ops with
    | nil => exact fun _ => rfl
    | cons op ops ih =>
        intro t
        rw [Spec.after_cons, ih]
        cases op <;> rfl
  exact hfold .init

theorem after_freed (ops : List StoreOp) :
    ∀ t : Added, (storeSpec.after t ops).freed = true ↔ t.freed = true ∨ .free ∈ ops := by
  induction ops with
  | nil => simp
  | cons op ops ih =>
      intro t
      rw [Spec.after_cons, ih]
      cases op <;> simp [storeSpec]

theorem allAllowed_iff_noAddAfterFree {ops : List StoreOp} :
    storeSpec.AllAllowed .init ops ↔ NoAddAfterFree ops := by
  rw [Spec.allAllowed_iff]
  constructor
  · rintro h before after rfl header hmem
    obtain ⟨s, t, rfl⟩ := List.append_of_mem hmem
    have hopen := h (before ++ .free :: s) (.add header) t (by simp)
    have hfreed := (after_freed (before ++ .free :: s) .init).mpr (.inr (by simp))
    exact Bool.noConfusion (hfreed.symm.trans hopen)
  · rintro h before op after rfl
    cases op with
    | add header =>
        change (storeSpec.after .init before).freed = false
        rw [← Bool.not_eq_true, after_freed]
        rintro (hinit | hfree)
        · cases hinit
        · obtain ⟨s, t, rfl⟩ := List.append_of_mem hfree
          exact h s (t ++ .add header :: after) (by simp) header (by simp)
    | get name => trivial
    | free => trivial

/-- The store survives a sequence of calls exactly if no pair is added behind a
`free_headers`. -/
theorem survivesFree_iff (ops : List StoreOp) : SurvivesFree ops ↔ NoAddAfterFree ops := by
  rw [← allAllowed_iff_noAddAfterFree]
  constructor
  · intro h
    obtain ⟨answers, s, hruns, -⟩ := h.sees ops [] (List.append_nil _).symm
    exact (simulates_store.runOps_returns_iff storeView_init).mp ⟨_, hruns⟩
  · intro hall
    refine ⟨?_, ?_⟩
    · rintro before after rfl
      obtain ⟨h, hruns, hview⟩ :=
        simulates_store.runOps_eq storeView_init (Spec.allAllowed_append.mp hall).1
      refine ⟨_, h, hruns, ?_, ?_⟩
      · rw [← after_pairs]
        exact seesPairs_of_eq hview.getHeader_eq
      · rw [hview.freeHeaders_eq]
        rfl
    · rintro before header after rfl
      obtain ⟨hbefore, hadd, -⟩ := Spec.allAllowed_append.mp hall
      obtain ⟨h, hruns, hview⟩ := simulates_store.runOps_eq storeView_init hbefore
      refine ⟨_, h, hruns, ?_⟩
      generalize storeSpec.after .init before = t at hadd hview
      cases hview with
      | holds hl => exact hl.writesBelowCapacity header
      | freed => cases hadd

/-- A pair added right behind `free_headers`. -/
theorem not_survivesFree_add :
    ¬ SurvivesFree [.free, .add ⟨"Host".toList, "a".toList⟩] := by
  intro h
  obtain ⟨answers, s, hruns, -⟩ := h.sees _ [] (List.append_nil _).symm
  cases hruns

end Pawnee
