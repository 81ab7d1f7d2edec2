import Pawnee.Source.Platform

/-!
# The header store (`http_headers.c`)

The store is an array that grows by doubling.  `headers` is the block the
pointer points to, one slot for each header it has room for, and NULL after
`freeHeaders`.  A slot nothing has been stored in is `none`.

`Holds h l` says that the store `h` holds exactly the headers `l`, in order.
`initHeaders` holds none, `addHeader` adds one at the end and never writes
outside the block, and `getHeader` finds the first one of a name.
-/

namespace Pawnee

open CText Effects

/-- `http_header`. -/
structure HttpHeader where
  name : Str
  value : Str
deriving DecidableEq, Repr

/-- `http_headers`. -/
structure HttpHeaders where
  /-- The slots of the array. -/
  headers : Option (List (Option HttpHeader))
  count : Nat
  capacity : Nat
deriving DecidableEq, Repr

/-- `init_headers`.  The allocation succeeds. -/
def initHeaders : HttpHeaders where
  headers := some (List.replicate 8 none)
  count := 0
  capacity := 8

/-- `realloc` of the array to `n` slots. -/
def reallocSlots (slots : List (Option HttpHeader)) (n : Nat) : List (Option HttpHeader) :=
  (slots ++ List.replicate (n - slots.length) none).take n

/-- `add_header`.  Allocations succeed. -/
def addHeader (h : HttpHeaders) (name value : Str) : Server HttpHeaders :=
  let h :=
    if h.count = h.capacity then
      { h with
        headers := some (reallocSlots (h.headers.getD []) (h.capacity * 2))
        capacity := h.capacity * 2 }
    else h
  match h.headers with
  | none => fault .nullPointer
  | some slots =>
      if h.count < slots.length then
        pure { h with
          headers := some (slots.set h.count (some ⟨name, value⟩))
          count := h.count + 1 }
      else fault .outOfBounds

/-- `strcasecmp(s, t) == 0` in the C locale. -/
def strcaseeq (s t : Str) : Bool := s.map Char.toLower = t.map Char.toLower

/-- The loop of `get_header` over the first `n` slots of an array. -/
def getHeaderLoop (name : Str) : Nat → List (Option HttpHeader) → Server (Option Str)
  | 0, _ => pure none
  | _ + 1, [] => fault .outOfBounds
  | _ + 1, none :: _ => fault .nullPointer
  | n + 1, some h :: slots =>
      if strcaseeq h.name name then pure (some h.value) else getHeaderLoop name n slots

/-- `get_header`. -/
def getHeader (h : HttpHeaders) (name : Str) : Server (Option Str) :=
  getHeaderLoop name h.count (h.headers.getD [])

/-- `free_headers`. -/
def freeHeaders (h : HttpHeaders) : HttpHeaders :=
  match h.headers with
  | none => h
  | some _ => ⟨none, 0, 0⟩

/-! ## What a store holds -/

/-- The store holds exactly the headers of `l`, in order, in a block of its
capacity. -/
structure Holds (h : HttpHeaders) (l : List HttpHeader) : Prop where
  count_eq : h.count = l.length
  capacity_pos : 0 < h.capacity
  /-- The headers fill the front of the block. -/
  slots : ∃ spare, h.headers = some (l.map some ++ spare) ∧
    h.capacity = l.length + spare.length

theorem holds_initHeaders : Holds initHeaders [] :=
  ⟨rfl, by decide, List.replicate 8 none, rfl, rfl⟩

/-- The first free slot is the one behind the headers. -/
theorem set_slots (l : List HttpHeader) (header : HttpHeader) (slot : Option HttpHeader)
    (spare : List (Option HttpHeader)) :
    (l.map some ++ slot :: spare).set l.length (some header) =
      (l ++ [header]).map some ++ spare := by
  have hlen : (l.map some).length ≤ l.length := by simp
  rw [List.set_append_right _ _ hlen, List.length_map, Nat.sub_self, List.set_cons_zero]
  simp

/-- A block that is full grows by fresh slots. -/
theorem reallocSlots_full (l : List HttpHeader) (k : Nat) :
    reallocSlots (l.map some) (l.length + k) = l.map some ++ List.replicate k none := by
  have hk : l.length + k - (l.map (some : HttpHeader → _)).length = k := by
    rw [List.length_map]
    omega
  rw [reallocSlots, hk, List.take_of_length_le]
  simp

/-- Adding a header stores it behind the others. -/
theorem addHeader_holds {h : HttpHeaders} {l : List HttpHeader} (hl : Holds h l)
    (name value : Str) :
    ∃ h', addHeader h name value = .ret h' ∧ Holds h' (l ++ [⟨name, value⟩]) := by
  obtain ⟨hcount, hpos, spare, hslots, hcap⟩ := hl
  cases spare with
  | nil =>
      -- the array is full and is doubled
      rw [List.append_nil] at hslots
      rw [List.length_nil, Nat.add_zero] at hcap
      have hfull : h.count = h.capacity := hcount.trans hcap.symm
      obtain ⟨k, hk⟩ : ∃ k, h.capacity = k + 1 := ⟨h.capacity - 1, by omega⟩
      have hdouble : h.capacity * 2 = l.length + (k + 1) := by omega
      have hgrow : reallocSlots (l.map some) (h.capacity * 2) =
          l.map some ++ none :: List.replicate k none := by
        rw [hdouble, reallocSlots_full, List.replicate_succ]
      refine ⟨⟨some ((l ++ [HttpHeader.mk name value]).map some ++ List.replicate k none),
        h.count + 1, h.capacity * 2⟩, ?_, ?_⟩
      · have hlt : h.count < (l.map some ++ (none : Option HttpHeader) ::
            List.replicate k none).length := by simp; omega
        simp only [addHeader, hfull, if_true, hslots, Option.getD_some, hgrow] at hlt ⊢
        rw [if_pos hlt, ← hfull, hcount, set_slots]
        rfl
      · refine ⟨by simp [hcount], by simp; omega, List.replicate k none, rfl, ?_⟩
        simp only [List.length_append, List.length_singleton, List.length_replicate]
        omega
  | cons slot spare =>
      have hroom : h.count ≠ h.capacity := by rw [hcount, hcap]; simp
      refine ⟨⟨some ((l ++ [HttpHeader.mk name value]).map some ++ spare), h.count + 1,
        h.capacity⟩, ?_, ?_⟩
      · have hlt : h.count < (l.map some ++ slot :: spare).length := by simp; omega
        simp only [addHeader, hroom, if_false, hslots, if_pos hlt]
        rw [hcount, set_slots]
        rfl
      · refine ⟨by simp [hcount], hpos, spare, rfl, ?_⟩
        simp only [List.length_append, List.length_cons, List.length_nil] at hcap ⊢
        omega

/-- The first header of a name, ignoring case. -/
def lookupHeader (l : List HttpHeader) (name : Str) : Option Str :=
  (l.find? fun h => strcaseeq h.name name).map HttpHeader.value

theorem getHeaderLoop_eq (name : Str) (l : List HttpHeader) (spare : List (Option HttpHeader)) :
    getHeaderLoop name l.length (l.map some ++ spare) = .ret (lookupHeader l name) := by
  induction l with
  | nil => rfl
  | cons h l ih =>
      simp only [List.length_cons, List.map_cons, List.cons_append, getHeaderLoop, lookupHeader,
        List.find?_cons]
      by_cases hc : strcaseeq h.name name = true
      · simp [hc]
      · rw [if_neg hc, ih]
        simp [hc, lookupHeader]

/-- Looking up a name finds the first header of it. -/
theorem getHeader_eq {h : HttpHeaders} {l : List HttpHeader} (hl : Holds h l) (name : Str) :
    getHeader h name = .ret (lookupHeader l name) := by
  obtain ⟨hcount, -, spare, hslots, -⟩ := hl
  rw [getHeader, hcount, hslots, Option.getD_some, getHeaderLoop_eq]

end Pawnee
