import Pawnee.Foundation.FairRuns
import Pawnee.Server.Host
import Pawnee.Server.Schedules

/-!
# No process starves

`settles` lets a run accept connections for ever and never schedule a child.  If the
scheduler is fair, this cannot happen: a process that can make its next call again and
again makes it.  Then every process that waits for the semaphore gets it, and every child
gets to its end, however many connections come (`no_starvation`).

Fairness is asked of the semaphore as well.  That it is posted again and again is not
assumed: the process inside an update is always ready, and an update is short.
-/

namespace Pawnee

open CText Effects LockedCounters FairRuns Filter

/-! ## Processes -/

/-- What a process has still to do, `none` if it has not been forked. -/
def Sys.progOf (s : Sys) : Process → Option (Server Unit)
  | .parent => some s.parent
  | .child i => s.children[i]?.map Child.prog

/-- The same, and nothing if it has not been forked. -/
def workOf (p : Process) (s : Sys) : Server Unit := (s.progOf p).getD (.ret ())

/-- The calls a process has made. -/
def Sys.doneOf (s : Sys) : Process → List ServerEvent
  | .parent => s.done
  | .child i => (s.children[i]?.map Child.done).getD []

/-- The process waits for a client. -/
def Process.Accepts (p : Process) (e : Call) : Prop := p = .parent ∧ e = .accept

/-- The process can make its next call, whatever the clients do. -/
def Sys.Ready (s : Sys) (p : Process) : Prop :=
  ∃ e k, s.progOf p = some (.op e k) ∧ ¬ p.Accepts e ∧ (e = .semWait → 0 < s.memory.sem)

/-- The process makes a call. -/
def Moves (p : Process) (s s' : Sys) : Prop := s'.doneOf p ≠ s.doneOf p

/-- Every process that can make its next call again and again makes calls again and
again. -/
def FairlyScheduled (run : Nat → Sys) : Prop := ∀ p, Fair (fun s => s.Ready p) (Moves p) run

/-- A step, as a process sees it. -/
inductive Seen (p : Process) (s s' : Sys) : Prop
  | other : s'.progOf p = s.progOf p → s'.doneOf p = s.doneOf p → Seen p s s'
  | call {e : Call} {k : Answer e → Server Unit} (r : Answer e) : s.progOf p = some (.op e k) →
      s'.progOf p = some (k r) → s'.doneOf p = s.doneOf p ++ [⟨e, r⟩] →
      touch s.memory ⟨e, r⟩ = some s'.memory → Seen p s s'
  | again : s.progOf p = some (.ret ()) → s'.progOf p = some serveOne →
      s'.doneOf p = s.doneOf p → Seen p s s'
  | born : s.progOf p = none → s'.doneOf p = [] → Seen p s s'

/-- A process that has just been forked has made no call. -/
theorem done_of_started {ev : ServerEvent} {i : Nat} :
    ((started ev)[i]?.map Child.done).getD [] = [] := by
  cases hc : (started ev)[i]? with
  | none => rfl
  | some c =>
      have hmem := List.mem_of_getElem? hc
      unfold started at hmem
      split at hmem
      · rw [List.mem_singleton.mp hmem]
        rfl
      · cases hmem

theorem Step.seen {s s' : Sys} (h : Step s s') (p : Process) : Seen p s s' := by
  cases h with
  | @parent _ _ _ e _ children r ht =>
      cases p with
      | parent => exact .call r rfl rfl rfl ht
      | child i =>
          by_cases hi : i < children.length
          · have hsame : (children ++ started ⟨e, r⟩)[i]? = children[i]? :=
              List.getElem?_append_left hi
            exact .other (congrArg (Option.map Child.prog) hsame)
              (congrArg (fun c => (Option.map Child.done c).getD []) hsame)
          · have hnone : children[i]? = none := List.getElem?_eq_none (Nat.not_lt.mp hi)
            refine .born (congrArg (Option.map Child.prog) hnone) ?_
            show ((children ++ started ⟨e, r⟩)[i]?.map Child.done).getD [] = []
            rw [List.getElem?_append_right (Nat.not_lt.mp hi)]
            exact done_of_started
  | again =>
      cases p with
      | parent => exact .again rfl rfl rfl
      | child i => exact .other rfl rfl
  | @child _ _ _ _ _ e k _ pre _ r ht =>
      cases p with
      | parent => exact .other rfl rfl
      | child i =>
          by_cases hi : i = pre.length
          · subst hi
            refine .call (e := e) (k := k) r ?_ ?_ ?_ ht
            · exact congrArg (Option.map Child.prog) getElem?_middle_self
            · exact congrArg (Option.map Child.prog) getElem?_middle_self
            · simp [Sys.doneOf]
          · refine .other (congrArg (Option.map Child.prog) ?_)
              (congrArg (fun c => (Option.map Child.done c).getD []) ?_)
            · exact getElem?_middle hi
            · exact getElem?_middle hi

/-! ## The process inside an update -/

/-- A process inside an update has a call to make, and need not wait for anything. -/
theorem Reachable.holder_prog {s : Sys} (hs : Reachable s) {p : Process}
    (hin : InUpdate (s.doneOf p)) :
    ∃ e k, s.progOf p = some (.op e k) ∧ ¬ p.Accepts e ∧ e ≠ .semWait := by
  cases p with
  | parent =>
      obtain ⟨e, k, hparent, hne⟩ := hs.holder_runs.1 hin
      refine ⟨e, k, congrArg some hparent, ?_, hne⟩
      rintro ⟨-, rfl⟩
      exact (hs.sound.at_accept hparent).2 hin
  | child i =>
      cases hc : s.children[i]? with
      | none =>
          rw [Sys.doneOf, hc] at hin
          exact absurd hin (by decide)
      | some c =>
          rw [Sys.doneOf, hc] at hin
          obtain ⟨e, k, hprog, hne⟩ := hs.holder_runs.2 c (List.mem_of_getElem? hc) hin
          exact ⟨e, k, by rw [Sys.progOf, hc, Option.map_some, hprog],
            fun haccepts => absurd haccepts.1 nofun, hne⟩

/-- While the semaphore is taken there is a process inside an update. -/
theorem Reachable.exists_holder {s : Sys} (hs : Reachable s) (hzero : ¬ 0 < s.memory.sem) :
    ∃ p, InUpdate (s.doneOf p) := by
  obtain ⟨h, hh, hbusy⟩ := (Sys.locked_iff.mp hs.locked).sem_pos_or_busy.resolve_left hzero
  rcases List.mem_cons.mp hh with rfl | hh
  · exact ⟨.parent, hbusy⟩
  · obtain ⟨c, hc, rfl⟩ := List.mem_map.mp hh
    obtain ⟨i, hi⟩ := List.mem_iff_getElem?.mp hc
    exact ⟨.child i, by rw [Sys.doneOf, hi]; exact hbusy⟩

theorem Reachable.disciplined {s : Sys} (hs : Reachable s) (p : Process) :
    (phaseOf increment (accesses (s.doneOf p))).isSome := by
  have hall := (Sys.locked_iff.mp hs.locked).disciplined
  cases p with
  | parent => exact hall _ List.mem_cons_self
  | child i =>
      cases hc : s.children[i]? with
      | none =>
          rw [Sys.doneOf, hc]
          rfl
      | some c =>
          rw [Sys.doneOf, hc]
          exact hall _ (List.mem_cons_of_mem _ (List.mem_map_of_mem (List.mem_of_getElem? hc)))

/-- A process inside an update stays there until it posts, and then the semaphore is free. -/
theorem Step.keeps {s s' : Sys} (h : Step s s') (hs : Reachable s) {p : Process}
    (hin : InUpdate (s.doneOf p)) (hzero : ¬ 0 < s'.memory.sem) : InUpdate (s'.doneOf p) := by
  obtain ⟨e', k', hprog, -, -⟩ := hs.holder_prog hin
  cases h.seen p with
  | other _ hdone => rwa [hdone]
  | again hret => exact absurd (hprog.symm.trans hret) nofun
  | born hnone => exact absurd (hprog.symm.trans hnone) nofun
  | @call e k r hop _ hdone ht =>
      have hdisciplined := (hs.step h).disciplined p
      rw [hdone, accesses_append] at hdisciplined
      rw [hdone, InUpdate, accesses_append]
      cases haccess : accessOf ⟨e, r⟩ with
      | none =>
          have hnil : accesses [⟨e, r⟩] = [] := by simp [accesses, haccess]
          rw [hnil, List.append_nil]
          exact hin
      | some a =>
          have hone : accesses [⟨e, r⟩] = [a] := by simp [accesses, haccess]
          rw [hone] at hdisciplined ⊢
          refine busy_snoc hin hdisciplined ?_
          rintro rfl
          rw [touch, haccess] at ht
          have hfree := congrArg Memory.sem (Option.some.inj ht)
          exact hzero (hfree ▸ Nat.succ_pos _)

/-- A process has less to do after each of its calls, up to the end of a round. -/
theorem Step.lessens {s s' : Sys} (h : Step s s') {p : Process} {q : Server Unit}
    (hprog : s.progOf p = some q) (hne : q ≠ .ret ()) :
    Lessens (Moves p) After (workOf p) s s' := by
  cases h.seen p with
  | other hsame hdone => exact .inl ⟨congrArg (Option.getD · _) hsame, not_not_intro hdone⟩
  | again hret => exact absurd (Option.some.inj (hprog.symm.trans hret)) hne
  | born hnone => exact absurd (hprog.symm.trans hnone) nofun
  | call r hop hnext =>
      refine .inr ?_
      rw [workOf, workOf, hop, hnext]
      exact .call r

/-! ## Fair runs -/

section

variable {run : Nat → Sys}

theorem reachable_run (hrun : IsRun Step run) (hstart : Reachable (run 0)) :
    ∀ n, Reachable (run n)
  | 0 => hstart
  | n + 1 => by
      rcases hrun n with hsame | hstep
      · rw [hsame]
        exact reachable_run hrun hstart n
      · exact (reachable_run hrun hstart n).step hstep

theorem lessens_run (hrun : IsRun Step run) {n : Nat} {p : Process} {q : Server Unit}
    (hprog : (run n).progOf p = some q) (hne : q ≠ .ret ()) :
    Lessens (Moves p) After (workOf p) (run n) (run (n + 1)) := by
  rcases hrun n with hsame | hstep
  · rw [hsame]
    exact .inl ⟨rfl, not_not_intro rfl⟩
  · exact hstep.lessens hprog hne

/-- The semaphore is free again and again. -/
theorem frequently_sem (hrun : IsRun Step run) (hstart : Reachable (run 0))
    (hfair : FairlyScheduled run) : ∃ᶠ n in atTop, 0 < (run n).memory.sem := by
  have hreach := reachable_run hrun hstart
  refine frequently_free workOf (fun p s => InUpdate (s.doneOf p)) (fun s => 0 < s.memory.sem)
    after_wellFounded hfair (fun n hzero => (hreach n).exists_holder hzero)
    (fun n p hin => ?_) (fun n p hin => ?_) fun n p hin hzero => ?_
  · obtain ⟨e, k, hprog, haccepts, hne⟩ := (hreach n).holder_prog hin
    exact ⟨e, k, hprog, haccepts, fun he => absurd he hne⟩
  · obtain ⟨e, k, hprog, -, -⟩ := (hreach n).holder_prog hin
    exact lessens_run hrun hprog nofun
  · rcases hrun n with hsame | hstep
    · rwa [hsame]
    · exact hstep.keeps (hreach n) hin hzero

/-- A process that makes no call has the same call to make at all times. -/
theorem waits_run (hrun : IsRun Step run) {n : Nat} {p : Process} {e : Call}
    {k : Answer e → Server Unit} (hprog : (run n).progOf p = some (.op e k))
    (hno : ∀ m ≥ n, ¬ Moves p (run m) (run (m + 1))) :
    ∀ m ≥ n, (run m).progOf p = some (.op e k) := by
  intro m hm
  induction m, hm using Nat.le_induction with
  | base => exact hprog
  | succ m hm ih =>
      rcases hrun m with hsame | hstep
      · rw [hsame, ih]
      · cases hstep.seen p with
        | other hsame _ => rw [hsame, ih]
        | call r _ _ hdone => exact absurd (by simp [Moves, hdone]) (hno m hm)
        | again hret => exact absurd (ih.symm.trans hret) nofun
        | born hnone => exact absurd (ih.symm.trans hnone) nofun

/-- A process that has a call to make, and does not wait for a client, makes it. -/
theorem makes_call (hrun : IsRun Step run) (hstart : Reachable (run 0))
    (hfair : FairlyScheduled run) {n : Nat} {p : Process} {e : Call} {k : Answer e → Server Unit}
    (hprog : (run n).progOf p = some (.op e k)) (haccepts : ¬ p.Accepts e) :
    ∃ m ≥ n, Moves p (run m) (run (m + 1)) := by
  by_contra! hno
  have hwaits := waits_run hrun hprog hno
  have hready : ∃ᶠ m in atTop, (run m).Ready p := by
    refine ((frequently_sem hrun hstart hfair).and_eventually (eventually_ge_atTop n)).mono ?_
    exact fun m ⟨hpos, hm⟩ => ⟨e, k, hwaits m hm, haccepts, fun _ => hpos⟩
  obtain ⟨m, hm, hmoves⟩ := frequently_atTop.mp (hfair p hready) n
  exact hno m hm hmoves

/-- A child that has been forked stays. -/
theorem child_run (hrun : IsRun Step run) {n i : Nat} (hi : i < (run n).children.length) :
    ∀ m ≥ n, i < (run m).children.length := by
  intro m hm
  induction m, hm using Nat.le_induction with
  | base => exact hi
  | succ m hm ih =>
      rcases hrun m with hsame | hstep
      · rwa [hsame]
      · have hgrow := hstep.conns_grow.length_le
        rw [List.length_map, List.length_map] at hgrow
        exact Nat.lt_of_lt_of_le ih hgrow

/-- A child that has been forked ends. -/
theorem child_ends_run (hrun : IsRun Step run) (hstart : Reachable (run 0))
    (hfair : FairlyScheduled run) {n i : Nat} (hi : i < (run n).children.length) :
    ∃ m ≥ n, ∃ c, (run m).children[i]? = some c ∧ c.Ended := by
  have hlive := child_run hrun hi
  have hless : ∀ᶠ m in atTop, Lessens (Moves (.child i)) After (workOf (.child i)) (run m)
      (run (m + 1)) := by
    filter_upwards [eventually_ge_atTop n] with m hm
    have hc := List.getElem?_eq_getElem (hlive m hm)
    have hsound := (reachable_run hrun hstart m).sound.child _ (List.mem_of_getElem? hc)
    exact lessens_run hrun (congrArg (Option.map Child.prog) hc) hsound.not_ret
  obtain ⟨N, hN⟩ := eventually_atTop.mp (eventually_not_moves after_wellFounded hless)
  have hc := List.getElem?_eq_getElem (hlive (max n N) (le_max_left _ _))
  refine ⟨max n N, le_max_left _ _, _, hc, ?_⟩
  have hsound := (reachable_run hrun hstart _).sound.child _ (List.mem_of_getElem? hc)
  rcases hsound.ended_or_call with hended | ⟨e, k, hop⟩
  · exact hended
  · have hprog : (run (max n N)).progOf (.child i) = some (.op e k) := by
      rw [Sys.progOf, hc, Option.map_some, hop]
    obtain ⟨m, hm, hmoves⟩ := makes_call hrun hstart hfair hprog fun h => absurd h.1 nofun
    exact absurd hmoves (hN m (le_trans (le_max_right _ _) hm))

/-- In every fair run, however many connections come, a process that has a call to make
makes it, unless it waits for a client.  In particular every wait for the semaphore
comes to an end, and every child that has been forked ends. -/
theorem no_starvation (hrun : IsRun Step run) (hstart : Reachable (run 0))
    (hfair : FairlyScheduled run) :
    (∀ n p e k, (run n).progOf p = some (.op e k) → ¬ p.Accepts e →
      ∃ m ≥ n, Moves p (run m) (run (m + 1))) ∧
    ∀ n i, i < (run n).children.length →
      ∃ m ≥ n, ∃ c, (run m).children[i]? = some c ∧ c.Ended :=
  ⟨fun _ _ _ _ => makes_call hrun hstart hfair, fun _ _ => child_ends_run hrun hstart hfair⟩

end

/-! ## One page -/

/-- A run that comes to a state in which no process is ready is fair. -/
theorem fair_of_end {run : Nat → Sys} {s : Sys} (hend : ∀ᶠ n in atTop, run n = s)
    (hs : ∀ p, ¬ s.Ready p) : FairlyScheduled run := by
  intro p hready
  obtain ⟨n, hn, rfl⟩ := (hready.and_eventually hend).exists
  exact absurd hn (hs p)

/-- When the only child has ended and the parent is at the end of a round, no process is
ready. -/
theorem not_ready_of_end (m : SharedMemory) (tr done : List ServerEvent) (conn : Connection)
    (halt : Halt) (p : Process) : ¬ Sys.Ready ⟨m, tr, .ret (), [⟨conn, done, .stop halt⟩]⟩ p := by
  rintro ⟨e, k, hprog, -⟩
  match p with
  | .parent | .child 0 | .child (i + 1) => cases hprog

/-- The child of a page ends while the parent stands still. -/
theorem page_child_ends : ∃ m' done halt, Leads
    ⟨servedOnce, firstRound pageConnection, .ret (), [.start pageConnection]⟩
    ⟨m', firstRound pageConnection, .ret (), [⟨pageConnection, done, .stop halt⟩]⟩ := by
  have hs : Reachable ⟨servedOnce, firstRound pageConnection, .ret (),
      [] ++ .start pageConnection :: []⟩ := reachable_firstRound pageConnection
  obtain ⟨m', done, halt, hends⟩ := child_ends _ hs (by decide) (by simp)
  exact ⟨m', done, halt, hends.leads⟩

/-- A page is served in a fair run. -/
theorem no_starvation_page : ∃ run, IsRun Step run ∧
    run 0 = ⟨servedOnce, firstRound pageConnection, .ret (), [.start pageConnection]⟩ ∧
    FairlyScheduled run ∧ ∃ m c, (run m).children[0]? = some c ∧ c.Ended := by
  obtain ⟨m', done, halt, hends⟩ := page_child_ends
  obtain ⟨run, hrun, hzero, hend⟩ := exists_run_of_path hends
  have hfair : FairlyScheduled run := fair_of_end hend (not_ready_of_end _ _ _ _ _)
  have hstart : Reachable (run 0) := hzero ▸ reachable_firstRound pageConnection
  obtain ⟨m, -, c, hc, hended⟩ := (no_starvation hrun hstart hfair).2 0 0 (by rw [hzero]; decide)
  exact ⟨run, hrun, hzero, hfair, m, c, hc, hended⟩

end Pawnee
