import Pawnee.Server.Histories

/-!
# No increment is lost

The histories of all processes and the shared memory keep the invariant of the
lock in every reachable state (`Reachable.locked`).  So a counter holds the
number of its increments, modulo `2 ^ 32` (`Reachable.cell_eq`).

With fewer than `2 ^ 31` connections the counters are these numbers
(`Reachable.read_eq`), and no more responses than connections are counted
(`no_lost_update`).
-/

namespace Pawnee

open CText Effects LockedCounters

/-! ## The invariant -/

/-- The histories of all processes, the parent's first. -/
def Sys.histories (s : Sys) : List (List ServerEvent) := s.done :: s.children.map Child.done

/-- The lock protects the counters. -/
def Sys.Locked (s : Sys) : Prop :=
  Inv increment (fun _ => 0) s.memory (s.histories.map accesses)

/-- One call of one process. -/
theorem inv_touch {m m' : SharedMemory} (pre : List (List (Access Counter Int32)))
    (tr : List ServerEvent) (ev : ServerEvent) (post : List (List (Access Counter Int32)))
    (hinv : Inv increment (fun _ => 0) m (pre ++ accesses tr :: post)) (ht : touch m ev = some m')
    (hd : (phaseOf increment (accesses (tr ++ [ev]))).isSome) :
    Inv increment (fun _ => 0) m' (pre ++ accesses (tr ++ [ev]) :: post) := by
  rw [accesses_append] at hd ⊢
  cases ha : accessOf ev with
  | none =>
      have hnone : accesses [ev] = [] := by simp [accesses, ha]
      rw [touch, ha] at ht
      cases ht
      rwa [hnone, List.append_nil]
  | some a =>
      have hone : accesses [ev] = [a] := by simp [accesses, ha]
      rw [touch, ha] at ht
      rw [hone] at hd ⊢
      exact hinv.access ht hd

/-- The processes a call starts have done nothing yet. -/
theorem inv_started {m : SharedMemory} {hs : List (List (Access Counter Int32))}
    (hinv : Inv increment (fun _ => 0) m hs) (ev : ServerEvent) :
    Inv increment (fun _ => 0) m (hs ++ (started ev).map fun c => accesses c.done) := by
  unfold started
  split
  · exact hinv.spawn
  · simpa using hinv

theorem Sys.locked_iff {s : Sys} : s.Locked ↔ Inv increment (fun _ => 0) s.memory
    (accesses s.done :: s.children.map fun c => accesses c.done) := by
  simp [Sys.Locked, Sys.histories, Function.comp_def]

theorem Step.locked {s s' : Sys} (h : Step s s') (hs : s.Sound) (hl : s.Locked) : s'.Locked := by
  have hs' := h.sound hs
  rw [Sys.locked_iff] at hl ⊢
  cases h with
  | @parent m m' done e k children r ht =>
      have hd := (counted_rounds hs'.parent).disciplined
      have hmain := inv_started (inv_touch [] done ⟨e, r⟩ _ hl ht hd) ⟨e, r⟩
      simpa using hmain
  | again => exact hl
  | @child m m' done done' parent e k conn pre post r ht =>
      have hd := (hs'.child _ List.mem_append_cons_self).history.1
      simp only [List.map_append, List.map_cons] at hl ⊢
      rw [← List.cons_append] at hl ⊢
      exact inv_touch _ done' ⟨e, r⟩ _ hl ht hd

/-- In every run the lock protects the counters. -/
theorem Reachable.locked {s : Sys} (h : Reachable s) : s.Locked := by
  induction h with
  | start => exact Inv.start _ _ rfl
  | step hs hstep ih => exact hstep.locked hs.sound ih

/-! ## What the counters hold -/

/-- The increments of a counter by all processes. -/
def Sys.total (s : Sys) (c : Counter) : Nat := increments c s.histories.flatten

/-- The value of a counter. -/
def Sys.read (s : Sys) (c : Counter) : Int := (s.memory.cell c).toInt

theorem iterate_increment (n : Nat) : increment^[n] 0 = Int32.ofNat n := by
  induction n with
  | zero => rfl
  | succ n ih =>
      rw [Function.iterate_succ_apply', ih, increment]
      exact (Int32.ofNat_add n 1).symm

/-- A counter holds the number of its increments, in 32 bits. -/
theorem Reachable.cell_eq {s : Sys} (h : Reachable s) (c : Counter) :
    s.memory.cell c = Int32.ofNat (s.total c) := by
  have hflat : (s.histories.map accesses).flatten = accesses s.histories.flatten :=
    List.filterMap_flatten.symm
  rw [h.locked.total c, iterate_increment, hflat, stores_accesses, Sys.total]

theorem Reachable.read_eq {s : Sys} (h : Reachable s) {c : Counter} (hlt : s.total c < 2147483648) :
    s.read c = s.total c := by
  rw [Sys.read, h.cell_eq c]
  exact Int32.toInt_ofNat_of_lt hlt

/-! ## Who increments what -/

/-- The counters the branches of a child increment. -/
def branchCounters : List Counter := [.ok200, .ko400, .ko404, .ko405]

theorem course_counter {env : Env} {flux : Option Str} {k : Counter}
    (h : (course env flux).counter = some k) : k ∈ branchCounters := by
  have hbranch : ∀ {q : Request} {c : Course}, q.Branch env c → c.counter = some k →
      k ∈ branchCounters := by
    intro q c hc hk
    cases hc <;> cases hk <;> decide
  have hcourse := course_from env flux
  generalize course env flux = c at h hcourse
  cases hcourse with
  | noStream | noLine | rejected => cases h
  | parsed hread hq => exact hbranch (Request.branch env _) h

/-- A child has incremented nothing, or the counter of one branch. -/
theorem Child.Sound.stored {c : Child} (h : c.Sound) :
    observed storedCounter c.done = [] ∨
      ∃ k ∈ branchCounters, observed storedCounter c.done = [k] := by
  have hprefix := h.history.2
  cases hk : (course c.conn.env c.conn.flux).counter with
  | none =>
      rw [hk] at hprefix
      exact .inl (List.prefix_nil.mp hprefix)
  | some k =>
      rw [hk] at hprefix
      rcases List.prefix_cons_iff.mp hprefix with hnil | ⟨t, ht, hrest⟩
      · exact .inl hnil
      · rw [List.prefix_nil.mp hrest] at ht
        exact .inr ⟨k, course_counter hk, ht⟩

/-- A child has incremented this counter. -/
def Child.counted (k : Counter) (c : Child) : Bool := k ∈ observed storedCounter c.done

theorem Child.Sound.increments_eq {c : Child} (h : c.Sound) (k : Counter) :
    increments k c.done = (c.counted k).toNat := by
  rcases h.stored with hnil | ⟨k', -, hone⟩
  · simp [increments, Child.counted, hnil]
  · by_cases hk : k = k'
    · simp [increments, Child.counted, hone, hk]
    · simp [increments, Child.counted, hone, hk, Ne.symm hk]

/-- Children increment a counter as often as there are children that do. -/
theorem increments_children {l : List Child} (h : ∀ c ∈ l, c.Sound) (k : Counter) :
    increments k (l.flatMap Child.done) = l.countP (Child.counted k) := by
  induction l with
  | nil => rfl
  | cons c l ih =>
      rw [List.flatMap_cons, increments_append, (h c List.mem_cons_self).increments_eq k,
        ih fun x hx => h x (List.mem_cons_of_mem _ hx), List.countP_cons]
      cases c.counted k <;> simp [Nat.add_comm]

theorem Sys.total_eq (s : Sys) (k : Counter) :
    s.total k = increments k s.done + increments k (s.children.flatMap Child.done) := by
  have hflat : s.histories.flatten = s.done ++ s.children.flatMap Child.done := by
    simp [Sys.histories, List.flatMap_def]
  rw [Sys.total, hflat, increments_append]

/-- The connections are counted by the parent alone. -/
theorem Sys.Sound.total_connections {s : Sys} (h : s.Sound) :
    s.total .servedConnections = increments .servedConnections s.done := by
  have hzero : s.children.countP (Child.counted .servedConnections) = 0 := by
    refine List.countP_eq_zero.mpr fun c hc => ?_
    rcases (h.child c hc).stored with hnil | ⟨k, hk, hone⟩
    · simp [Child.counted, hnil]
    · have hne : ∀ k ∈ branchCounters, Counter.servedConnections ∉ [k] := by decide
      simpa [Child.counted, hone] using hne k hk
  rw [Sys.total_eq, increments_children h.child, hzero, Nat.add_zero]

/-- All other counters are incremented by children alone. -/
theorem Sys.Sound.total_children {s : Sys} (h : s.Sound) {k : Counter}
    (hk : k ≠ .servedConnections) : s.total k = increments k (s.children.flatMap Child.done) := by
  rw [Sys.total_eq, (counted_rounds h.parent).only k hk, Nat.zero_add]

theorem Sys.Sound.total_responses {s : Sys} (h : s.Sound) {k : Counter}
    (hk : k ≠ .servedConnections) : s.total k = s.children.countP (Child.counted k) := by
  rw [h.total_children hk, increments_children h.child]

/-- The children are those the parent has forked. -/
theorem Reachable.forked_eq {s : Sys} (h : Reachable s) :
    s.children.map Child.conn = (forked s.done).map Child.conn := by
  induction h with
  | start => rfl
  | step _ hstep ih =>
      cases hstep with
      | @parent m m' done e k children r ht =>
          have hone : forked [⟨e, r⟩] = started ⟨e, r⟩ := List.append_nil _
          rw [List.map_append, forked_append, List.map_append, hone, ← ih]
      | again => exact ih
      | child r ht => simpa using ih

/-- Each child has been counted as a connection before its fork. -/
theorem Reachable.length_children_le {s : Sys} (h : Reachable s) :
    s.children.length ≤ increments .servedConnections s.done := by
  have hlen := congrArg List.length h.forked_eq
  rw [List.length_map, List.length_map] at hlen
  rw [hlen]
  exact (counted_rounds h.sound.parent).forked_le

/-- Children increment at most one counter each. -/
theorem length_stored_le {l : List Child} (h : ∀ c ∈ l, c.Sound) :
    (observed storedCounter (l.flatMap Child.done)).length ≤ l.length := by
  induction l with
  | nil => exact Nat.le_refl 0
  | cons c l ih =>
      have hrest := ih fun x hx => h x (List.mem_cons_of_mem _ hx)
      have hone : (observed storedCounter c.done).length ≤ 1 := by
        rcases (h c List.mem_cons_self).stored with hnil | ⟨k, -, hone⟩
        · simp [hnil]
        · simp [hone]
      rw [List.flatMap_cons, observed_append, List.length_append, List.length_cons]
      omega

theorem count_responses_le (l : List Counter) :
    l.count .ok200 + l.count .ko400 + l.count .ko403 + l.count .ko404 + l.count .ko405 ≤
      l.length := by
  induction l with
  | nil => exact Nat.le_refl 0
  | cons k l ih =>
      simp only [List.count_cons, List.length_cons]
      cases k <;> simp <;> omega

/-- No more responses are counted than there are children. -/
theorem Sys.Sound.sum_responses_le {s : Sys} (h : s.Sound) :
    s.total .ok200 + s.total .ko400 + s.total .ko403 + s.total .ko404 + s.total .ko405 ≤
      s.children.length := by
  have hne : ∀ k ∈ [Counter.ok200, .ko400, .ko403, .ko404, .ko405], k ≠ .servedConnections := by
    decide
  rw [h.total_children (hne .ok200 (by simp)), h.total_children (hne .ko400 (by simp)),
    h.total_children (hne .ko403 (by simp)), h.total_children (hne .ko404 (by simp)),
    h.total_children (hne .ko405 (by simp))]
  exact (count_responses_le _).trans (length_stored_le h.child)

/-- With fewer than `2 ^ 31` connections no counter overflows. -/
theorem Reachable.total_lt {s : Sys} (h : Reachable s) (hlt : (accepted s.done).length < 2147483648)
    (k : Counter) : s.total k < 2147483648 := by
  have hconn := (counted_rounds h.sound.parent).le_accepted
  by_cases hk : k = .servedConnections
  · subst hk
    rw [h.sound.total_connections]
    omega
  · have hchildren := h.length_children_le
    have hcount : s.children.countP (Child.counted k) ≤ s.children.length := List.countP_le_length
    rw [h.sound.total_responses hk]
    omega

/-- No more responses than connections are counted. -/
theorem Reachable.responses_le {s : Sys} (hs : Reachable s)
    (hlt : (accepted s.done).length < 2147483648) :
    s.read .ok200 + s.read .ko400 + s.read .ko403 + s.read .ko404 + s.read .ko405 ≤
      s.read .servedConnections := by
  have hread : ∀ k, s.read k = s.total k := fun k => hs.read_eq (hs.total_lt hlt k)
  have hsum := hs.sound.sum_responses_le
  have hchildren := hs.length_children_le
  simp only [hread, hs.sound.total_connections]
  omega

/-- No increment is lost, each child increments one counter at most, and no more
responses than connections are counted. -/
theorem no_lost_update {s : Sys} (hs : Reachable s) (hlt : (accepted s.done).length < 2147483648) :
    s.read .servedConnections = increments .servedConnections s.done ∧
      (∀ k, k ≠ .servedConnections → s.read k = s.children.countP (Child.counted k)) ∧
      (∀ c ∈ s.children, (observed storedCounter c.done).length ≤ 1) ∧
      s.read .ok200 + s.read .ko400 + s.read .ko403 + s.read .ko404 + s.read .ko405 ≤
        s.read .servedConnections := by
  have hread : ∀ k, s.read k = s.total k := fun k => hs.read_eq (hs.total_lt hlt k)
  refine ⟨?_, fun k hk => ?_, fun c hc => ?_, hs.responses_le hlt⟩
  · rw [hread, hs.sound.total_connections]
  · rw [hread, hs.sound.total_responses hk]
  · rcases (hs.sound.child c hc).stored with hnil | ⟨k, -, hone⟩
    · simp [hnil]
    · simp [hone]

/-- After one page the counters are the numbers of connections and of pages. -/
theorem no_lost_update_page :
    (Sys.served pageConnection).read .servedConnections =
        increments .servedConnections (Sys.served pageConnection).done ∧
      (∀ k, k ≠ .servedConnections → (Sys.served pageConnection).read k =
        (Sys.served pageConnection).children.countP (Child.counted k)) ∧
      (∀ c ∈ (Sys.served pageConnection).children, (observed storedCounter c.done).length ≤ 1) ∧
      (Sys.served pageConnection).read .ok200 + (Sys.served pageConnection).read .ko400 +
          (Sys.served pageConnection).read .ko403 + (Sys.served pageConnection).read .ko404 +
            (Sys.served pageConnection).read .ko405 ≤
        (Sys.served pageConnection).read .servedConnections :=
  no_lost_update reachable_served_page (by decide +kernel)

example : (Sys.served pageConnection).read .ok200 = 1 := by decide +kernel

end Pawnee
