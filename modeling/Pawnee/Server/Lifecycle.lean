import Pawnee.Server.Fairness
import Pawnee.Server.Reaping

/-!
# The life of a child

In a fair run of the host, while the parent is there, every child that is forked ends, is
seen to end, and is waited for (`all_waited_for`), however many connections come.

Fairness of the parent is asked only for the moments at which `child_handler` is not
running.  That these come again and again has to be shown: each end of a child calls the
handler once more, but while the parent makes no step there are only so many children
(`handler_ends`).

`waitpid` gives back whatever child it finds.  A zombie is not passed over for ever,
because while the handler is in its loop no child is forked.
-/

namespace Pawnee

open CText Effects FairRuns Filter

/-! ## Fairness -/

/-- The child has ended, and this has not been seen. -/
def Host.Ending (h : Host) (i : Nat) : Prop :=
  (∃ c halt, h.sys.children[i]? = some c ∧ c.prog = .stop halt) ∧
    h.output.life (.child i) = .running

/-- The handler makes a step. -/
def HandlerMoves (h h' : Host) : Prop := Notices.Handling h.notices h'.notices

/-- The processes, their ends, and the handler are scheduled fairly. -/
structure FairHost (run : Nat → Host) : Prop where
  child : ∀ i, Fair (fun h => h.sys.Ready (.child i))
    (fun h h' => Moves (.child i) h.sys h'.sys) run
  parent : Fair (fun h => h.sys.Ready .parent ∧ h.notices.phase = .idle)
    (fun h h' => Moves .parent h.sys h'.sys) run
  ends : ∀ i, Fair (fun h => h.Ending i)
    (fun h h' => h'.output.life (.child i) ≠ h.output.life (.child i)) run
  handler : Fair (fun h => h.output.life .parent = .running ∧
    ∃ notices, Notices.Handling h.notices notices) HandlerMoves run

/-! ## Steps -/

section

variable {boot : Boot} {h h' : Host}

/-- What a step does to the signal: nothing, or a child ends, or the handler makes a step. -/
theorem HostStep.notices_cases (hstep : HostStep boot h h') :
    h'.notices = h.notices ∨
    (∃ i < h.sys.children.length, h.output.life (.child i) = .running ∧
      (h'.output.life (.child i)).Gone ∧ h'.notices = h.notices.arrive i) ∨
    (Notices.Handling h.notices h'.notices ∧ h'.output = h.output ∧ h'.sys = h.sys) := by
  cases hstep with
  | childEnds hc hstop hrun =>
      exact .inr (.inl ⟨_, (List.getElem?_eq_some_iff.mp hc).1, hrun, leave_gone _ _ _, rfl⟩)
  | signal _ hhandling => exact .inr (.inr ⟨hhandling, rfl, rfl⟩)
  | parent | again | child | spill | parentEnds => exact .inl rfl

/-- The parent makes a call only while the handler is not running. -/
theorem HostStep.idle_of_moves (hstep : HostStep boot h h') (hmoves : Moves .parent h.sys h'.sys) :
    h.notices.phase = .idle := by
  cases hstep with
  | parent r ht hidle => exact hidle
  | again hidle => exact hidle
  | child | spill | parentEnds | childEnds | signal => exact absurd rfl hmoves

/-- Children are forked only by calls of the parent. -/
theorem HostStep.length_eq (hstep : HostStep boot h h') (hno : ¬ Moves .parent h.sys h'.sys) :
    h'.sys.children.length = h.sys.children.length := by
  cases hstep with
  | parent r ht hidle => exact absurd (fun heq => by simp [Sys.doneOf] at heq) hno
  | child r ht => simp
  | again | spill | parentEnds | childEnds | signal => rfl

end

/-! ## The handler comes to its end -/

section

variable {boot : Boot} {run : Nat → Host}

theorem hostReachable_run (hrun : IsRun (HostStep boot) run) (hstart : HostReachable boot (run 0)) :
    ∀ n, HostReachable boot (run n)
  | 0 => hstart
  | n + 1 => by
      rcases hrun n with hsame | hstep
      · rw [hsame]
        exact hostReachable_run hrun hstart n
      · exact (hostReachable_run hrun hstart n).step hstep

/-- The children among the first `n` that are not gone. -/
def Host.left (n : Nat) (h : Host) : Finset Nat :=
  (Finset.range n).filter fun i => ¬ (h.output.life (.child i)).Gone

theorem HostStep.left_subset {h h' : Host} (hstep : HostStep boot h h')
    (ht : Tied boot h.sys h.output) (n : Nat) : h'.left n ⊆ h.left n := by
  intro i hi
  obtain ⟨hin, hgone⟩ := Finset.mem_filter.mp hi
  exact Finset.mem_filter.mpr ⟨hin, fun h => hgone (hstep.gone ht h).1⟩

/-- How much is left for the handler: children that can end, and what it has been called
for. -/
def Host.burden (n : Nat) (h : Host) : Nat × Nat := ((h.left n).card, h.notices.weight)

/-- Without new children the burden of the handler gets smaller with each of its steps. -/
theorem HostStep.burden {h h' : Host} (hstep : HostStep boot h h')
    (ht : Tied boot h.sys h.output) :
    Lessens HandlerMoves (Prod.Lex (· < ·) (· < ·)) (Host.burden h.sys.children.length) h h' := by
  have hsub := hstep.left_subset ht h.sys.children.length
  rcases hstep.notices_cases with hsame | ⟨i, hi, hlife, hgone, -⟩ | ⟨hhandling, houtput, -⟩
  · rcases (Finset.card_le_card hsub).lt_or_eq with hless | heq
    · exact .inr (.left _ _ hless)
    · refine .inl ⟨by rw [Host.burden, Host.burden, heq, hsame], fun hhandling => ?_⟩
      have hweight := Notices.Handling.weight hhandling
      rw [hsame] at hweight
      omega
  · refine .inr (.left _ _ (Finset.card_lt_card ⟨hsub, fun hsup => ?_⟩))
    have hleft : i ∈ h.left h.sys.children.length := Finset.mem_filter.mpr
      ⟨Finset.mem_range.mpr hi, hlife ▸ SharedFiles.Life.not_gone_running⟩
    exact (Finset.mem_filter.mp (hsup hleft)).2 hgone
  · have hweight := hhandling.weight
    have hsame : (h'.left h.sys.children.length).card = (h.left h.sys.children.length).card := by
      rw [Host.left, houtput, Host.left]
    refine .inr ?_
    rw [Host.burden, Host.burden, hsame]
    exact .right _ (by omega)

/-- If the parent makes no call any more, there is an end to the steps of the handler. -/
theorem handler_ends (hrun : IsRun (HostStep boot) run) (hstart : HostReachable boot (run 0))
    (hquiet : ∀ᶠ n in atTop, ¬ Moves .parent (run n).sys (run (n + 1)).sys) :
    ∀ᶠ n in atTop, ¬ HandlerMoves (run n) (run (n + 1)) := by
  obtain ⟨N, hN⟩ := eventually_atTop.mp hquiet
  have hlength : ∀ n ≥ N, (run n).sys.children.length = (run N).sys.children.length := by
    intro n hn
    induction n, hn using Nat.le_induction with
    | base => rfl
    | succ n hn ih =>
        rcases hrun n with hsame | hstep
        · rw [hsame, ih]
        · rw [hstep.length_eq (hN n hn), ih]
  have hless : ∀ᶠ n in atTop, Lessens HandlerMoves (Prod.Lex (· < ·) (· < ·))
      (Host.burden (run N).sys.children.length) (run n) (run (n + 1)) := by
    filter_upwards [eventually_ge_atTop N] with n hn
    rcases hrun n with hsame | hstep
    · rw [hsame]
      refine .inl ⟨rfl, fun hhandling => ?_⟩
      have hweight := Notices.Handling.weight hhandling
      omega
    · rw [← hlength n hn]
      exact hstep.burden (hostReachable_run hrun hstart n).tied
  exact eventually_not_moves (WellFounded.prod_lex Nat.lt_wfRel.wf Nat.lt_wfRel.wf) hless

/-- What a host can do is scheduled fairly, also while the handler is called. -/
theorem FairHost.scheduled (hfair : FairHost run) (hrun : IsRun (HostStep boot) run)
    (hstart : HostReachable boot (run 0)) (hstay : ∀ n, (run n).output.life .parent = .running) :
    FairlyScheduled fun n => (run n).sys := by
  intro p
  cases p with
  | child i => exact hfair.child i
  | parent =>
      intro hready
      by_contra hno
      have hquiet := not_frequently.mp hno
      have hdone : ∀ᶠ n in atTop, ¬ ∃ notices, Notices.Handling (run n).notices notices := by
        by_contra hcalled
        have hcalled : ∃ᶠ n in atTop, ∃ notices, Notices.Handling (run n).notices notices := by
          simpa using not_eventually.mp hcalled
        exact hfair.handler (hcalled.mono fun n hn => ⟨hstay n, hn⟩)
          (handler_ends hrun hstart hquiet)
      refine hno (hfair.parent ((hready.and_eventually hdone).mono fun n ⟨hn, hnone⟩ => ⟨hn, ?_⟩))
      rcases (hostReachable_run hrun hstart n).noticed.handling_or_taken with hmore | ⟨-, -, hidle⟩
      · exact absurd hmore hnone
      · exact hidle

/-! ## The child ends -/

theorem isRun_sys (hrun : IsRun (HostStep boot) run) : IsRun Step fun n => (run n).sys := by
  intro n
  rcases hrun n with hsame | hstep
  · exact .inl (congrArg Host.sys hsame)
  · exact hstep.sys

/-- A process that has ended stays as it is. -/
theorem stop_run {sys : Nat → Sys} (hrun : IsRun Step sys) {n : Nat} {p : Process} {halt : Halt}
    (hstop : (sys n).progOf p = some (.stop halt)) :
    ∀ m ≥ n, (sys m).progOf p = some (.stop halt) := by
  intro m hm
  induction m, hm using Nat.le_induction with
  | base => exact hstop
  | succ m hm ih =>
      rcases hrun m with hsame | hstep
      · rw [hsame, ih]
      · cases hstep.seen p with
        | other hsame _ => rw [hsame, ih]
        | call r hop => exact absurd (ih.symm.trans hop) nofun
        | again hret => exact absurd (ih.symm.trans hret) nofun
        | born hnone => exact absurd (ih.symm.trans hnone) nofun

/-- The end of a child is seen. -/
theorem gone_run (hrun : IsRun (HostStep boot) run) (hstart : HostReachable boot (run 0))
    (hfair : FairHost run) {n i : Nat} {halt : Halt}
    (hstop : (run n).sys.progOf (.child i) = some (.stop halt)) :
    ∃ m ≥ n, ((run m).output.life (.child i)).Gone := by
  by_contra! hno
  have hending : ∀ m ≥ n, (run m).Ending i := by
    intro m hm
    obtain ⟨c, hc, hprog⟩ := Option.map_eq_some_iff.mp (stop_run (isRun_sys hrun) hstop m hm)
    refine ⟨⟨c, halt, hc, hprog⟩, ?_⟩
    have ht := (hostReachable_run hrun hstart m).tied
    cases hlife : (run m).output.life (.child i) with
    | running => rfl
    | unborn =>
        have hlt := (List.getElem?_eq_some_iff.mp hc).1
        exact absurd ((ht.unborn i).mp hlife) (Nat.not_le.mpr hlt)
    | exited => exact absurd (.inl hlife) (hno m hm)
    | killed => exact absurd (.inr hlife) (hno m hm)
  have hready : ∃ᶠ m in atTop, (run m).Ending i :=
    (eventually_atTop.mpr ⟨n, hending⟩).frequently
  obtain ⟨m, hm, hmoves⟩ := frequently_atTop.mp (hfair.ends i hready) n
  exact hmoves (by rw [(hending m hm).2, (hending (m + 1) (Nat.le_succ_of_le hm)).2])

/-- What is gone stays gone. -/
theorem gone_stays (hrun : IsRun (HostStep boot) run) (hstart : HostReachable boot (run 0))
    {n i : Nat} (hgone : ((run n).output.life (.child i)).Gone) :
    ∀ m ≥ n, ((run m).output.life (.child i)).Gone ∧ ((run m).Zombie i → (run n).Zombie i) := by
  intro m hm
  induction m, hm using Nat.le_induction with
  | base => exact ⟨hgone, id⟩
  | succ m hm ih =>
      rcases hrun m with hsame | hstep
      · rwa [hsame]
      · obtain ⟨hgone, hzombie⟩ := hstep.gone (hostReachable_run hrun hstart m).tied ih.1
        exact ⟨hgone, fun hz => ih.2 (hzombie hz)⟩

/-! ## The child is waited for -/

/-- A zombie is waited for. -/
theorem taken_run (hrun : IsRun (HostStep boot) run) (hstart : HostReachable boot (run 0))
    (hfair : FairHost run) (hstay : ∀ n, (run n).output.life .parent = .running) (n i : Nat) :
    ∃ m ≥ n, ¬ (run m).Zombie i := by
  by_contra! hzombie
  have hreach := hostReachable_run hrun hstart
  have hmoves : ∃ᶠ m in atTop, HandlerMoves (run m) (run (m + 1)) := by
    refine hfair.handler (eventually_atTop.mpr ⟨n, fun m hm => ⟨hstay m, ?_⟩⟩).frequently
    rcases (hreach m).noticed.handling_or_taken with hmore | ⟨hnone, -⟩
    · exact hmore
    · exact absurd (hnone ▸ hzombie m hm) (Finset.notMem_empty i)
  obtain ⟨M, hM, hloop⟩ : ∃ m ≥ n, (run m).notices.phase = .draining := by
    by_contra! hout
    refine hmoves (eventually_not_moves (f := fun h : Host => h.notices.phase.fromLoop)
      Nat.lt_wfRel.wf ?_)
    filter_upwards [eventually_ge_atTop n] with m hm
    by_cases hhandling : HandlerMoves (run m) (run (m + 1))
    · exact .inr (Notices.Handling.nears hhandling (hout m hm))
    · refine .inl ⟨?_, hhandling⟩
      rcases hrun m with hsame | hstep
      · rw [hsame]
      · rcases hstep.notices_cases with hsame | ⟨_, _, _, _, hsame⟩ | ⟨hmove, -⟩
        · exact congrArg (·.phase.fromLoop) hsame
        · exact congrArg (·.phase.fromLoop) hsame
        · exact absurd hmove hhandling
  have hstays : ∀ m ≥ M, (run m).notices.phase = .draining := by
    intro m hm
    induction m, hm using Nat.le_induction with
    | base => exact hloop
    | succ m hm ih =>
        rcases hrun m with hsame | hstep
        · rw [hsame, ih]
        · rcases hstep.notices_cases with hsame | ⟨_, _, _, _, hsame⟩ | ⟨hmove, -⟩
          · rw [hsame, ih]
          · rw [hsame]
            exact ih
          · exact hmove.stays ih ⟨i, hzombie _ (le_trans hM (Nat.le_succ_of_le hm))⟩
  -- the parent stands still while the handler is in its loop
  refine hmoves (handler_ends hrun hstart (eventually_atTop.mpr ⟨M, fun m hm hcall => ?_⟩))
  rcases hrun m with hsame | hstep
  · exact hcall (by rw [hsame])
  · have hidle := hstep.idle_of_moves hcall
    rw [hstays m hm] at hidle
    cases hidle

/-- In every fair run of a host in which the parent stays, every child that has been forked
ends and is waited for, and that is the last that happens to it. -/
theorem all_waited_for (hrun : IsRun (HostStep boot) run) (hstart : HostReachable boot (run 0))
    (hfair : FairHost run) (hstay : ∀ n, (run n).output.life .parent = .running) {n i : Nat}
    (hi : i < (run n).sys.children.length) : ∃ m ≥ n, ∀ k ≥ m, (run k).Reaped i := by
  obtain ⟨e, he, c, hc, halt, hstop⟩ := child_ends_run (isRun_sys hrun) hstart.sys
    (hfair.scheduled hrun hstart hstay) hi
  have hprog : (run e).sys.progOf (.child i) = some (.stop halt) := by
    rw [Sys.progOf, hc, Option.map_some, hstop]
  obtain ⟨g, hg, hgone⟩ := gone_run hrun hstart hfair hprog
  obtain ⟨m, hm, htaken⟩ := taken_run hrun hstart hfair hstay g i
  have hstays := gone_stays hrun hstart (gone_stays hrun hstart hgone m hm).1
  refine ⟨m, le_trans he (le_trans hg hm), fun k hk => ⟨(hstays k hk).1, fun hz => ?_⟩⟩
  exact htaken ((hstays k hk).2 hz)

/-! ## One page -/

/-- A run that comes to a state in which nothing is ready is fair. -/
theorem fairHost_of_end {h : Host} (hend : ∀ᶠ n in atTop, run n = h)
    (hready : ∀ p, ¬ h.sys.Ready p) (hending : ∀ i, ¬ h.Ending i)
    (hidle : ∀ notices, ¬ Notices.Handling h.notices notices) : FairHost run where
  child i hchild := by
    obtain ⟨n, hn, rfl⟩ := (hchild.and_eventually hend).exists
    exact absurd hn (hready _)
  parent hparent := by
    obtain ⟨n, hn, rfl⟩ := (hparent.and_eventually hend).exists
    exact absurd hn.1 (hready _)
  ends i hends := by
    obtain ⟨n, hn, rfl⟩ := (hends.and_eventually hend).exists
    exact absurd hn (hending i)
  handler hhandler := by
    obtain ⟨n, ⟨-, notices, hn⟩, rfl⟩ := (hhandler.and_eventually hend).exists
    exact absurd hn (hidle notices)

/-- A parent that is still in its loop later has stayed. -/
theorem stays_of_end (hrun : IsRun (HostStep boot) run) (hstart : HostReachable boot (run 0))
    {h : Host} (hend : ∀ᶠ n in atTop, run n = h) (hparent : ∀ halt, h.sys.parent ≠ .stop halt)
    (n : Nat) : (run n).output.life .parent = .running := by
  by_contra hne
  obtain ⟨halt, hstop⟩ := (hostReachable_run hrun hstart n).tied.parent_ended hne
  obtain ⟨m, hm, rfl⟩ := ((eventually_ge_atTop n).and hend).exists
  have hlater := stop_run (isRun_sys hrun) (p := .parent) (congrArg some hstop) m hm
  exact hparent halt (Option.some.inj hlater)

end

/-- The child of a page ends and is waited for. -/
theorem all_waited_for_page : ∃ run, IsRun (HostStep smallBoot) run ∧ FairHost run ∧
    (run 0).sys = ⟨servedOnce, firstRound pageConnection, .ret (), [.start pageConnection]⟩ ∧
      ∃ m, ∀ k ≥ m, (run k).Reaped 0 := by
  obtain ⟨h₀, hh₀, hfollows₀⟩ := (reachable_firstRound pageConnection).exists_host smallBoot
  obtain ⟨m', done, halt, hends⟩ := page_child_ends
  have hnotices₀ : h₀.notices = .start := hfollows₀.notices
  have hidle₀ : h₀.notices.phase = .idle := by
    rw [hnotices₀]
    rfl
  -- the child runs to its end, its end is seen, and the handler takes it away
  rw [← hfollows₀.sys] at hends
  obtain ⟨h₁, hleads₁, hfollows₁⟩ := Host.follow_leads smallBoot hidle₀ hends
  have hh₁ := hh₀.leads hleads₁
  have hended : ∀ c ∈ h₁.sys.children, c.Ended := by
    rw [hfollows₁.sys]
    exact List.forall_mem_singleton.mpr ⟨halt, rfl⟩
  obtain ⟨h₂, hleads₂, hsys₂, hlife₂, hgone₂⟩ := hh₁.see_ends hended 1 (by simp [hfollows₁.sys])
  have hlive₂ : h₂.output.life .parent = .running := by
    rw [hlife₂, hfollows₁.life, hfollows₀.life]
    rfl
  have hh₂ := hh₁.leads hleads₂
  obtain ⟨n, notices, hhandling, hnone, hraised, hidle⟩ := hh₂.noticed.exists_run
  have hleads₃ : HostLeads smallBoot h₂ { h₂ with notices } := Host.handling_leads hlive₂ hhandling
  obtain ⟨run, hrun, hzero, hend⟩ := exists_run_of_path ((hleads₁.trans hleads₂).trans hleads₃)
  have hsys : h₂.sys = ⟨m', firstRound pageConnection, .ret (),
      [⟨pageConnection, done, .stop halt⟩]⟩ := hsys₂.trans hfollows₁.sys
  have hfair : FairHost run := by
    refine fairHost_of_end hend (fun p => ?_) (fun i => ?_) fun next hnext => ?_
    · exact hsys ▸ not_ready_of_end _ _ _ _ _ p
    · rintro ⟨⟨c, _, hc, -⟩, hlive⟩
      have hlt := (List.getElem?_eq_some_iff.mp hc).1
      obtain rfl : i = 0 :=
        Nat.lt_one_iff.mp (lt_of_lt_of_eq hlt (congrArg (·.children.length) hsys))
      exact SharedFiles.Life.not_gone_running (hlive ▸ hgone₂ 0 Nat.one_pos)
    · obtain ⟨waiting, raised, phase⟩ := notices
      obtain rfl : raised = false := hraised
      obtain rfl : phase = .idle := hidle
      cases hnext
  have hstart : HostReachable smallBoot (run 0) := hzero ▸ hh₀
  obtain ⟨m, -, hm⟩ := all_waited_for hrun hstart hfair
    (stays_of_end hrun hstart hend (by rw [hsys]; exact nofun)) (n := 0) (i := 0)
    (by rw [hzero, hfollows₀.sys]; exact Nat.one_pos)
  exact ⟨run, hrun, hfair, by rw [hzero, hfollows₀.sys], m, hm⟩

end Pawnee
