import Pawnee.Server.Progress
import Mathlib.Logic.Hydra
import Mathlib.Tactic.Abel

/-!
# Every schedule comes to rest

`comes_to_rest` chooses the next process.  Nothing has to be chosen: between two answers
of `accept` there are only finitely many steps, whoever makes them.

A state holds the programs of its processes.  A step takes one of them away and puts
what is left of it in its place, and a fork puts the program of the child beside it.
Every program is finite, and the parent, whose loop has no end, is taken up to its next
connection (`Below`).  A child is below every parent, so a fork makes the programs
smaller too, as a multiset (`Works.cutExpand`).

So a run that does not end goes on accepting connections (`keeps_accepting`).  And a
state in which nothing can happen but that `accept` returns is at rest (`settles`).
-/

namespace Pawnee

open CText Effects LockedCounters

/-! ## Programs that get smaller -/

/-- A program and what it is after one call. -/
inductive After : Server Unit → Server Unit → Prop
  | call {e : Call} {k : Answer e → Server Unit} (r : Answer e) : After (k r) (.op e k)

theorem after_wellFounded : WellFounded After := by
  refine ⟨fun p => ?_⟩
  induction p with
  | ret a => exact ⟨_, nofun⟩
  | stop halt => exact ⟨_, nofun⟩
  | op e k ih =>
      refine ⟨_, fun q hq => ?_⟩
      cases hq with
      | call r => exact ih r

/-- A parent and what it is one step later, if no connection comes. -/
inductive Below : Server Unit → Server Unit → Prop
  | call {e : Call} {k : Answer e → Server Unit} {r : Answer e} :
      acceptedConn ⟨e, r⟩ = none → Below (k r) (.op e k)
  | again : Below serveOne (.ret ())

/-- Without a connection a round ends soon. -/
theorem acc_serveOne : Acc Below serveOne := by
  refine ⟨_, fun q hq => ?_⟩
  cases hq with
  | @call _ _ client hnone =>
      obtain rfl : client = none := hnone
      refine ⟨_, fun q hq => ?_⟩
      cases hq
      exact ⟨_, nofun⟩

theorem below_wellFounded : WellFounded Below := by
  refine ⟨fun p => ?_⟩
  induction p with
  | ret a =>
      refine ⟨_, fun q hq => ?_⟩
      cases hq
      exact acc_serveOne
  | stop halt => exact ⟨_, nofun⟩
  | op e k ih =>
      refine ⟨_, fun q hq => ?_⟩
      cases hq with
      | call hnone => exact ih _

/-! ## States that get smaller -/

/-- The program of a child. -/
def Child.program (c : Child) : Server Unit ⊕ Server Unit := .inl c.prog

/-- The programs of the children and that of the parent. -/
def Sys.programs (s : Sys) : Multiset (Server Unit ⊕ Server Unit) :=
  .inr s.parent ::ₘ (s.children.map Child.program : Multiset (Server Unit ⊕ Server Unit))

/-- A step, and no connection has come. -/
structure Works (s s' : Sys) : Prop where
  step : Step s s'
  accepted : Pawnee.accepted s'.done = Pawnee.accepted s.done

/-- A child starts below every parent. -/
abbrev Smaller : Server Unit ⊕ Server Unit → Server Unit ⊕ Server Unit → Prop :=
  Sum.Lex After Below

/-- One program is replaced by smaller ones. -/
theorem Works.cutExpand {s s' : Sys} (h : Works s s') :
    Relation.CutExpand Smaller s'.programs s.programs := by
  obtain ⟨hstep, haccepted⟩ := h
  cases hstep with
  | @parent _ _ done e k children r ht =>
      have hnone : acceptedConn ⟨e, r⟩ = none := by
        have hnew : Pawnee.accepted [⟨e, r⟩] = [] := by
          simpa [accepted_append] using haccepted
        simpa [Pawnee.accepted] using hnew
      refine ⟨.inr (k r) ::ₘ ((started ⟨e, r⟩).map Child.program : List _), .inr (.op e k), ?_, ?_⟩
      · intro p hp
        rcases Multiset.mem_cons.mp hp with rfl | hp
        · exact .inr (.call hnone)
        · obtain ⟨c, -, rfl⟩ := List.mem_map.mp (Multiset.mem_coe.mp hp)
          exact .sep _ _
      · simp only [Sys.programs, List.map_append, ← Multiset.coe_add, ← Multiset.singleton_add]
        abel
  | again =>
      refine ⟨{.inr serveOne}, .inr (.ret ()), ?_, ?_⟩
      · intro p hp
        rw [Multiset.mem_singleton.mp hp]
        exact .inr .again
      · simp only [Sys.programs, ← Multiset.singleton_add]
        abel
  | @child _ _ _ _ _ e k conn pre post r ht =>
      refine ⟨{.inl (k r)}, .inl (.op e k), ?_, ?_⟩
      · intro p hp
        rw [Multiset.mem_singleton.mp hp]
        exact .inl (.call r)
      · simp only [Sys.programs, List.map_append, List.map_cons, Child.program, ← Multiset.coe_add,
          ← Multiset.cons_coe, ← Multiset.singleton_add]
        abel

/-- There is no run without end in which no connection comes. -/
theorem works_wellFounded : WellFounded (Function.swap Works) := by
  have hsmaller : WellFounded (Relation.CutExpand Smaller) :=
    (Sum.lex_wf after_wellFounded below_wellFounded).cutExpand
  exact Subrelation.wf (fun h => Works.cutExpand h) (InvImage.wf Sys.programs hsmaller)

theorem exists_not_works (run : Nat → Sys) : ∃ n, ¬ Works (run n) (run (n + 1)) := by
  have : IsWellFounded Sys (Function.swap Works) := ⟨works_wellFounded⟩
  exact WellFounded.not_rel_apply_succ (r := Function.swap Works) run

/-! ## Runs without end -/

theorem Step.accepted_grows {s s' : Sys} (h : Step s s') :
    accepted s.done <+: accepted s'.done := by
  cases h with
  | parent r ht =>
      rw [accepted_append]
      exact List.prefix_append _ _
  | again | child r ht => exact List.prefix_rfl

/-- Every run that does not end accepts connections again and again. -/
theorem keeps_accepting (run : Nat → Sys) (hrun : ∀ n, Step (run n) (run (n + 1))) :
    ∀ n, ∃ m, n < m ∧ (accepted (run n).done).length < (accepted (run m).done).length := by
  intro n
  have hgrows : ∀ k, (accepted (run n).done).length ≤ (accepted (run (n + k)).done).length := by
    intro k
    induction k with
    | zero => exact Nat.le_refl _
    | succ k ih => exact ih.trans (hrun (n + k)).accepted_grows.length_le
  obtain ⟨k, hk⟩ := exists_not_works fun k => run (n + k)
  have hstart := (hrun (n + k)).accepted_grows
  refine ⟨n + k + 1, by omega, Nat.lt_of_le_of_lt (hgrows k) ?_⟩
  refine Nat.lt_of_le_of_ne hstart.length_le fun heq => hk ⟨hrun (n + k), ?_⟩
  exact (hstart.eq_of_length heq).symm

/-! ## States at rest -/

/-- Nothing can happen but that `accept` returns. -/
def Sys.Waits (s : Sys) : Prop :=
  ∀ s', Step s s' → ∃ client, s'.done = s.done ++ [⟨.accept, client⟩]

/-- A round accepts before it does anything else. -/
theorem RoundRun.accepts_first {tr : List ServerEvent} {out : Except Halt Unit}
    (h : RoundRun tr out) {pre post : List ServerEvent} {client : Answer .accept}
    (htr : tr = pre ++ ⟨.accept, client⟩ :: post) : pre = [] := by
  have hlater : ∀ ev ∈ tr.tail, ev.1 ≠ .accept := by
    cases h <;> simp [roundEvents, countEvents]
  cases pre with
  | nil => rfl
  | cons ev pre =>
      subst htr
      exact absurd rfl (hlater ⟨.accept, client⟩ (by simp))

/-- A parent that waits for a connection is at the top of its loop. -/
theorem Sys.Sound.at_accept {s : Sys} (h : s.Sound) {k : Answer .accept → Server Unit}
    (hparent : s.parent = .op .accept k) : s.parent = serveOne ∧ ¬ InUpdate s.done := by
  obtain ⟨rounds, cur, hdone, hall, hcur⟩ := h.parent.split
  have hwaits : Prog.Steps serveOne cur (.op .accept k) := hparent ▸ hcur
  obtain ⟨tr, out, hruns⟩ := (hwaits.snoc none).complete
  obtain rfl : cur = [] :=
    (runs_serveOne hruns).accepts_first (by rw [List.append_assoc, List.singleton_append])
  have hunlocked := unlocked_flatten hall
  rw [List.append_nil] at hdone
  refine ⟨?_, ?_⟩
  · generalize s.parent = p at hcur
    cases hcur
    rfl
  · rw [hdone]
    exact hunlocked.not_inUpdate

/-- While the server waits, no call of a child can be made. -/
theorem Sys.Waits.child_blocked {s : Sys} (h : s.Waits) {c : Child} (hc : c ∈ s.children) {e : Call}
    {k : Answer e → Server Unit} (hprog : c.prog = .op e k) : e = .semWait ∧ s.memory.sem = 0 := by
  obtain ⟨m, done, parent, children⟩ := s
  obtain ⟨conn, done', prog⟩ := c
  obtain ⟨pre, post, rfl⟩ := List.append_of_mem hc
  obtain rfl : prog = .op e k := hprog
  by_contra hnot
  obtain ⟨r, m', ht⟩ := exists_touch (m := m) (e := e) fun he => by
    by_contra hzero
    exact hnot ⟨he, Nat.eq_zero_of_not_pos hzero⟩
  obtain ⟨client, hdone⟩ := h _ (.child r ht)
  simp at hdone

/-- While the server waits, the parent can make no call but `accept`. -/
theorem Sys.Waits.parent_blocked {s : Sys} (h : s.Waits) {e : Call} {k : Answer e → Server Unit}
    (hparent : s.parent = .op e k) : e = .accept ∨ (e = .semWait ∧ s.memory.sem = 0) := by
  obtain ⟨m, done, parent, children⟩ := s
  obtain rfl : parent = .op e k := hparent
  by_contra hnot
  obtain ⟨r, m', ht⟩ := exists_touch (m := m) (e := e) fun he => by
    by_contra hzero
    exact hnot (.inr ⟨he, Nat.eq_zero_of_not_pos hzero⟩)
  obtain ⟨client, hdone⟩ := h _ (.parent r ht)
  have hevent := List.append_cancel_left hdone
  cases hevent
  exact hnot (.inl rfl)

/-- While the server waits, no process is inside an update. -/
theorem Reachable.idle_of_waits {s : Sys} (hs : Reachable s) (h : s.Waits) : s.Idle := by
  refine ⟨fun hin => ?_, fun c hc hin => ?_⟩
  · obtain ⟨e, k, hparent, hne⟩ := hs.holder_runs.1 hin
    rcases h.parent_blocked hparent with rfl | ⟨rfl, -⟩
    · exact (hs.sound.at_accept hparent).2 hin
    · exact hne rfl
  · obtain ⟨e, k, hprog, hne⟩ := hs.holder_runs.2 c hc hin
    exact hne (h.child_blocked hc hprog).1

/-- When nothing more can happen but that `accept` returns, the server is at rest. -/
theorem Reachable.at_rest {s : Sys} (hs : Reachable s) (hwaits : s.Waits) :
    s.Quiescent ∧ (s.parent = serveOne ∨ ∃ halt, s.parent = .stop halt) := by
  have hfree := hs.sem_of_idle (hs.idle_of_waits hwaits)
  refine ⟨⟨fun c hc => ?_, hfree⟩, ?_⟩
  · rcases (hs.sound.child c hc).ended_or_call with hended | ⟨e, k, hprog⟩
    · exact hended
    · have hzero := (hwaits.child_blocked hc hprog).2
      omega
  · cases hparent : s.parent with
    | stop halt => exact .inr ⟨halt, rfl⟩
    | ret a =>
        obtain ⟨m, done, parent, children⟩ := s
        obtain rfl : parent = .ret a := hparent
        obtain ⟨client, hdone⟩ := hwaits _ .again
        simp at hdone
    | op e k =>
        rcases hwaits.parent_blocked hparent with rfl | ⟨-, hzero⟩
        · exact .inl (hparent ▸ (hs.sound.at_accept hparent).1)
        · omega

/-- Whatever the order of the steps: a run from a reachable state either accepts
connections again and again or comes to a state in which nothing more can happen but that
`accept` returns.  In such a state every child has ended, the semaphore is free, and the
parent waits at the top of its loop or has left it. -/
theorem settles {s : Sys} (hs : Reachable s) :
    (∀ run : Nat → Sys, run 0 = s → (∀ n, Step (run n) (run (n + 1))) →
      ∀ n, ∃ m, n < m ∧ (accepted (run n).done).length < (accepted (run m).done).length) ∧
    ∀ s', Leads s s' → s'.Waits →
      s'.Quiescent ∧ (s'.parent = serveOne ∨ ∃ halt, s'.parent = .stop halt) :=
  ⟨fun run _ hrun => keeps_accepting run hrun,
    fun _ hleads hwaits => (hs.leads hleads).at_rest hwaits⟩

/-! ## A server that never rests -/

/-- A parent that has finished a round can serve one more. -/
theorem next_round (conn : Connection) {cell : Counter → Int32} {done : List ServerEvent}
    {children : List Child} : ∃ cell' done' children',
      Relation.TransGen Step ⟨⟨1, cell⟩, done, .ret (), children⟩
        ⟨⟨1, cell'⟩, done', .ret (), children'⟩ := by
  have hsteps : Prog.Steps serveOne (roundEvents conn (cell .servedConnections) ++
      [⟨.fork conn, true⟩]) (.ret ()) :=
    .cons (.cons (.cons (.cons (.cons (.cons (.cons (.nil _)))))))
  have hmemory : touchAll ⟨1, cell⟩ (roundEvents conn (cell .servedConnections) ++
      [⟨.fork conn, true⟩]) = some ⟨1, Function.update cell .servedConnections
        (cell .servedConnections + 1)⟩ := by
    simp [touchAll, roundEvents, countEvents, touch, accessOf, Memory.perform]
  exact ⟨_, _, _, .head' .again (Leads.parent hsteps hmemory)⟩

/-- Connections can come for ever. -/
theorem exists_endless {cell : Counter → Int32} {done : List ServerEvent} {children : List Child}
    (conn : Connection) : ∃ run : Nat → Sys, run 0 = ⟨⟨1, cell⟩, done, .ret (), children⟩ ∧
      ∀ n, Step (run n) (run (n + 1)) := by
  refine not_acc_iff_exists_descending_chain (r := Function.swap Step).mp fun hacc => ?_
  have hends := hacc.transGen
  clear hacc
  generalize hs : (⟨⟨1, cell⟩, done, .ret (), children⟩ : Sys) = s at hends
  induction hends generalizing cell done children with
  | intro s _ ih =>
      subst hs
      obtain ⟨cell', done', children', hround⟩ := next_round conn
      exact ih _ (Relation.transGen_swap.mpr hround) rfl

/-- After one page the server can go on for ever, and then it accepts connections again
and again. -/
theorem settles_page : ∃ run : Nat → Sys, run 0 = .served pageConnection ∧
    (∀ n, Step (run n) (run (n + 1))) ∧
      ∀ n, ∃ m, n < m ∧ (accepted (run n).done).length < (accepted (run m).done).length := by
  obtain ⟨run, hzero, hrun⟩ := exists_endless pageConnection
  exact ⟨run, hzero, hrun, (settles reachable_served_page).1 run hzero hrun⟩

end Pawnee
