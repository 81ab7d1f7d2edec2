import Pawnee.Server.Host

/-!
# No child stays a zombie

A child that has ended stays in the process table until `child_handler` waits for it.
The handler gets fewer signals than there are ends, and finds every child all the
same: while a zombie is left, the signal is pending or the handler is in its loop, and
the handler comes to its end with no zombie left (`reaps`).

With the parent in place, every host can come to rest with all its children waited for
(`all_reaped`).
-/

namespace Pawnee

open CText Effects

/-- The host can get from one state to the other. -/
abbrev HostLeads (boot : Boot) : Host → Host → Prop := Relation.ReflTransGen (HostStep boot)

/-- The child has ended and has been waited for. -/
def Host.Reaped (h : Host) (i : Nat) : Prop := (h.output.life (.child i)).Gone ∧ ¬ h.Zombie i

section

variable {boot : Boot} {h h' : Host}

theorem HostReachable.leads (hh : HostReachable boot h) (hleads : HostLeads boot h h') :
    HostReachable boot h' := by
  induction hleads with
  | refl => exact hh
  | tail _ hstep ih => exact ih.step hstep

/-! ## Zombies -/

theorem HostReachable.noticed (hh : HostReachable boot h) : Notices.Noticed h.notices := by
  induction hh with
  | start => exact Notices.noticed_start
  | step _ hstep ih =>
      cases hstep with
      | childEnds => exact Notices.noticed_arrive _ _
      | signal _ hhandling => exact hhandling.noticed ih
      | parent | again | child | spill | parentEnds => exact ih

theorem leave_gone (o : Output) (p : Process) (halt : Halt) :
    ((halt.leave o p).life p).Gone := by
  rcases leave_life_self o p halt with ⟨hlife, -⟩ | ⟨hlife, -⟩
  · exact .inl hlife
  · exact .inr hlife

/-- A child that is gone stays gone, and does not arrive as a zombie again. -/
theorem HostStep.gone (hstep : HostStep boot h h') (ht : Tied boot h.sys h.output) {i : Nat}
    (hi : (h.output.life (.child i)).Gone) :
    (h'.output.life (.child i)).Gone ∧ (h'.Zombie i → h.Zombie i) := by
  cases hstep with
  | @parent _ _ _ e _ children output _ r _ _ =>
      refine ⟨?_, id⟩
      unfold Boot.parentCall
      split
      · have hne : i ≠ children.length := by
          rintro rfl
          rw [(ht.unborn _).mpr (Nat.le_refl _)] at hi
          exact SharedFiles.Life.not_gone_unborn hi
        rw [output.fork_life_of_ne (Process.child_ne hne)]
        exact hi
      · exact hi
  | again | child | spill => exact ⟨hi, id⟩
  | parentEnds _ _ _ =>
      refine ⟨?_, id⟩
      rw [leave_life_of_ne (Process.child_ne_parent i)]
      exact hi
  | @childEnds _ j _ _ _ _ hrun =>
      have hne : i ≠ j := by
        rintro rfl
        rw [hrun] at hi
        exact SharedFiles.Life.not_gone_running hi
      refine ⟨?_, fun hz => (Finset.mem_insert.mp hz).resolve_left hne⟩
      rw [leave_life_of_ne (Process.child_ne hne)]
      exact hi
  | signal _ hhandling => exact ⟨hi, fun hz => hhandling.waiting_subset hz⟩

/-- Zombies are gone. -/
theorem HostReachable.zombie_gone (hh : HostReachable boot h) {i : Nat} (hz : h.Zombie i) :
    (h.output.life (.child i)).Gone := by
  induction hh with
  | start => exact absurd hz (Finset.notMem_empty i)
  | step hh hstep ih =>
      have hkeeps := fun hi => (hstep.gone hh.tied (i := i) hi).1
      cases hstep with
      | childEnds hc hstop hrun =>
          rcases Finset.mem_insert.mp hz with rfl | hz
          · exact leave_gone _ _ _
          · exact hkeeps (ih hz)
      | signal _ hhandling => exact ih (hhandling.waiting_subset hz)
      | parent | again | child | spill | parentEnds => exact hkeeps (ih hz)

/-- A child that is gone has ended. -/
theorem Tied.ended {s : Sys} {o : Output} (ht : Tied boot s o) {i : Nat}
    (hi : (o.life (.child i)).Gone) : ∃ c, s.children[i]? = some c ∧ c.Ended := by
  have hlt : i < s.children.length := by
    by_contra hge
    rw [(ht.unborn i).mpr (Nat.not_lt.mp hge)] at hi
    exact SharedFiles.Life.not_gone_unborn hi
  refine ⟨_, List.getElem?_eq_getElem hlt, ?_⟩
  rcases hi with hi | hi
  · rcases ht.child_exited i _ (List.getElem?_eq_getElem hlt) hi with hstop | hstop
    · exact ⟨_, hstop⟩
    · exact ⟨_, hstop⟩
  · obtain ⟨f, hstop⟩ := ht.child_killed i _ (List.getElem?_eq_getElem hlt) hi
    exact ⟨_, hstop⟩

theorem HostReachable.reaped (hh : HostReachable boot h) (hleads : HostLeads boot h h') {i : Nat}
    (hi : h.Reaped i) : h'.Reaped i := by
  induction hleads with
  | refl => exact hi
  | tail hleads hstep ih =>
      obtain ⟨hgone, hzombie⟩ := hstep.gone (hh.leads hleads).tied ih.1
      exact ⟨hgone, fun hz => ih.2 (hzombie hz)⟩

/-! ## The handler -/

/-- Steps of the handler are steps of the host while the parent is there. -/
theorem Host.handling_leads (hrun : h.output.life .parent = .running) {n : Nat}
    {notices notices' : Notices.State Nat} (hhandling : Notices.HandlingRun n notices notices') :
    HostLeads boot { h with notices := notices } { h with notices := notices' } := by
  induction hhandling with
  | nil notices => exact .refl
  | @cons n notices _ _ hstep _ ih =>
      have hfirst : HostStep boot { h with notices := notices } _ := .signal hrun hstep
      exact .head hfirst ih

/-- In every run of a host: while a child is a zombie, it has ended, and the signal is
pending or the handler is in its loop.  A child that has been waited for is never waited
for again.  The handler alone comes to its end in a bounded number of steps, and then no
zombie is left. -/
theorem reaps (hh : HostReachable boot h) :
    (∀ i, h.Zombie i → (h.notices.raised = true ∨ h.notices.phase = .draining) ∧
      ∃ c, h.sys.children[i]? = some c ∧ c.Ended) ∧
    (∀ h' i, HostLeads boot h h' → h.Reaped i → h'.Reaped i) ∧
    (h.output.life .parent = .running → ∀ n notices, Notices.HandlingRun n h.notices notices →
      HostLeads boot h { h with notices := notices } ∧ n ≤ h.notices.weight ∧
        ((∀ next, ¬ Notices.Handling notices next) →
          (∀ i, ¬ Host.Zombie { h with notices := notices } i) ∧ notices.phase = .idle)) := by
  refine ⟨fun i hz => ⟨hh.noticed ⟨i, hz⟩, hh.tied.ended (hh.zombie_gone hz)⟩,
    fun h' i hleads hi => hh.reaped hleads hi, fun hrun n notices hhandling => ⟨?_, ?_, ?_⟩⟩
  · exact Host.handling_leads hrun hhandling
  · exact hhandling.weight ▸ Nat.le_add_right n _
  · intro hstuck
    rcases (hhandling.noticed hh.noticed).handling_or_taken with ⟨next, hnext⟩ | ⟨hnone, -, hidle⟩
    · exact absurd hnext (hstuck next)
    · exact ⟨fun i hz => absurd (hnone ▸ hz) (Finset.notMem_empty i), hidle⟩

/-! ## All children are waited for -/

/-- The handler can be left to itself. -/
theorem HostReachable.drain (hh : HostReachable boot h) (hrun : h.output.life .parent = .running) :
    ∃ h', HostLeads boot h h' ∧ h'.sys = h.sys ∧ h'.output = h.output ∧
      (∀ i, ¬ h'.Zombie i) ∧ h'.notices.phase = .idle := by
  obtain ⟨n, notices, hhandling, hnone, -, hidle⟩ := hh.noticed.exists_run
  exact ⟨_, Host.handling_leads hrun hhandling, rfl, rfl,
    fun i hz => absurd (hnone ▸ hz) (Finset.notMem_empty i), hidle⟩

/-- The host follows the server. -/
theorem Host.follow_leads (boot : Boot) {h : Host} (hidle : h.notices.phase = .idle) {s : Sys}
    (hleads : Leads h.sys s) : ∃ h', HostLeads boot h h' ∧ h.Follows h' s := by
  induction hleads with
  | refl => exact ⟨h, .refl, rfl, rfl, rfl, rfl⟩
  | tail _ hstep ih =>
      obtain ⟨h₁, hleads, hfirst⟩ := ih
      obtain rfl := hfirst.sys
      have hidle₁ : h₁.notices.phase = .idle := hfirst.notices ▸ hidle
      obtain ⟨h₂, hstep, hnext⟩ := Host.follow boot hidle₁ hstep
      exact ⟨h₂, hleads.tail hstep, hnext.sys, hnext.notices.trans hfirst.notices,
        hnext.life.trans hfirst.life, hnext.order.trans hfirst.order⟩

theorem Reachable.leads_start {s : Sys} (hs : Reachable s) : Leads .start s := by
  induction hs with
  | start => exact .refl
  | step _ hstep ih => exact ih.tail hstep

/-- Every state of the server is one of its states in a host. -/
theorem Reachable.exists_host {s : Sys} (hs : Reachable s) (boot : Boot) :
    ∃ h, HostReachable boot h ∧ (Host.start boot).Follows h s := by
  obtain ⟨h, hleads, hfollows⟩ := Host.follow_leads boot (h := .start boot) rfl hs.leads_start
  exact ⟨h, HostReachable.start.leads hleads, hfollows⟩

/-- When the children have ended, the host can see the ends of the first `n`. -/
theorem HostReachable.see_ends (hh : HostReachable boot h)
    (hended : ∀ c ∈ h.sys.children, c.Ended) :
    ∀ n ≤ h.sys.children.length, ∃ h', HostLeads boot h h' ∧ h'.sys = h.sys ∧
      h'.output.life .parent = h.output.life .parent ∧
        ∀ i < n, (h'.output.life (.child i)).Gone
  | 0, _ => ⟨h, .refl, rfl, rfl, fun i hi => absurd hi (Nat.not_lt_zero i)⟩
  | n + 1, hn => by
      obtain ⟨h₁, hleads, hsys, hlife, hgone⟩ := hh.see_ends hended n (Nat.le_of_lt hn)
      have ht := (hh.leads hleads).tied
      have hc : h₁.sys.children[n]? = some (h.sys.children.get ⟨n, hn⟩) := by
        rw [hsys, List.getElem?_eq_getElem hn, List.get_eq_getElem]
      obtain ⟨halt, hstop⟩ := hended _ (List.getElem_mem hn)
      by_cases hrun : h₁.output.life (.child n) = .running
      · refine ⟨_, hleads.tail (.childEnds hc hstop hrun), hsys, ?_, fun i hi => ?_⟩
        · exact (leave_life_of_ne (Process.parent_ne_child n)).trans hlife
        · by_cases hin : i = n
          · exact hin ▸ leave_gone _ _ _
          · rw [leave_life_of_ne (Process.child_ne hin)]
            exact hgone i (by omega)
      · refine ⟨h₁, hleads, hsys, hlife, fun i hi => ?_⟩
        by_cases hin : i = n
        · subst hin
          cases hi : h₁.output.life (.child i) with
          | running => exact absurd hi hrun
          | unborn =>
              have hle := (ht.unborn i).mp hi
              rw [hsys] at hle
              omega
          | exited => exact .inl rfl
          | killed => exact .inr rfl
        · exact hgone i (by omega)

/-- While the parent is there, the host can come to rest: the children that are there,
and those that are forked on the way, have ended and been waited for, and the semaphore
is free. -/
theorem all_reaped (hh : HostReachable boot h) (hrun : h.output.life .parent = .running) :
    ∃ h', HostLeads boot h h' ∧ h'.sys.Quiescent ∧ h'.notices.phase = .idle ∧
      (∀ i < h'.sys.children.length, h'.Reaped i) ∧
      h.sys.children.map Child.conn <+: h'.sys.children.map Child.conn := by
  obtain ⟨h₁, hleads₁, hsys₁, houtput₁, -, hidle₁⟩ := hh.drain hrun
  obtain ⟨s, hleads, hrest⟩ := (hh.leads hleads₁).sys.leads_to_rest
  obtain ⟨h₂, hleads₂, hfollows⟩ := Host.follow_leads boot hidle₁ (FullLeads.leads hleads)
  obtain rfl := hfollows.sys
  have hh₂ := (hh.leads hleads₁).leads hleads₂
  obtain ⟨h₃, hleads₃, hsys₃, hlife₃, hgone⟩ := hh₂.see_ends hrest.ended _ (Nat.le_refl _)
  have hrun₃ : h₃.output.life .parent = .running := by rw [hlife₃, hfollows.life, houtput₁, hrun]
  obtain ⟨h₄, hleads₄, hsys₄, houtput₄, hnone, hidle₄⟩ := (hh₂.leads hleads₃).drain hrun₃
  have hsys : h₄.sys = h₂.sys := hsys₄.trans hsys₃
  refine ⟨h₄, ((hleads₁.trans hleads₂).trans hleads₃).trans hleads₄, hsys ▸ hrest, hidle₄,
    fun i hi => ⟨?_, hnone i⟩, ?_⟩
  · rw [houtput₄]
    exact hgone i (hsys ▸ hi)
  · rw [hsys, ← hsys₁]
    exact (FullLeads.leads hleads).conns_grow

end

/-! ## One child -/

/-- Buffers of a page, and a `stdout` that is not a terminal. -/
def smallBoot : Boot where
  cap := 4096
  greeting := "server running at : http://127.0.0.1:8080\n".toList
  greeting_fits := by decide
  time := ⟨1, 0, 124, 0, 0, 0⟩

section

variable {boot : Boot} {h : Host} {conn : Connection}

/-- The child that has been served has not been seen to end. -/
theorem Host.Follows.child_running (hh : HostReachable boot h)
    (hfollows : (Host.start boot).Follows h (.served conn)) {c : Child}
    (hc : (Sys.served conn).children[0]? = some c) (hstop : c.prog = .stop .exitSuccess) :
    h.output.life (.child 0) = .running := by
  rw [← hfollows.sys] at hc
  cases hlife : h.output.life (.child 0) with
  | running => rfl
  | unborn =>
      have hlt := (List.getElem?_eq_some_iff.mp hc).1
      exact absurd ((hh.tied.unborn 0).mp hlife) (Nat.not_le.mpr hlt)
  | exited =>
      have hmem := (hh.tied.output.order _).mpr hlife
      rw [hfollows.order] at hmem
      cases hmem
  | killed =>
      obtain ⟨f, hfault⟩ := hh.tied.child_killed 0 _ hc hlife
      rw [hstop] at hfault
      cases hfault

/-- A host that has seen the end of the child of one connection. -/
theorem exists_served_host (boot : Boot) (hs : Reachable (.served conn))
    (hstop : (Prog.play kindAnswer (respondClient conn.env conn.flux)).2 = .error .exitSuccess) :
    ∃ h, HostReachable boot h ∧ h.sys = .served conn ∧ h.output.order = [.child 0] ∧
      h.output.life .parent = .running ∧ h.notices = ⟨{0}, true, .idle⟩ := by
  obtain ⟨h, hh, hfollows⟩ := hs.exists_host boot
  have hc : (Sys.served conn).children[0]? = some ⟨conn, _, Prog.finished _⟩ := rfl
  have hended : (Prog.finished (Prog.play kindAnswer (respondClient conn.env conn.flux)).2 :
      Server Unit) = .stop .exitSuccess := by
    rw [hstop]
    rfl
  have hrun := Host.Follows.child_running hh hfollows hc hended
  rw [← hfollows.sys] at hc
  refine ⟨_, hh.step (.childEnds hc hended hrun), hfollows.sys, ?_, ?_, ?_⟩
  · exact congrArg (· ++ [Process.child 0]) hfollows.order
  · rw [leave_life_of_ne (Process.parent_ne_child 0)]
    exact hfollows.life
  · exact congrArg (fun notices => notices.arrive 0) hfollows.notices

end

/-- A host that has seen the end of the child of a page. -/
theorem exists_page_host (boot : Boot) : ∃ h, HostReachable boot h ∧
    h.sys = .served pageConnection ∧ h.output.order = [.child 0] ∧
      h.output.life .parent = .running ∧ h.notices = ⟨{0}, true, .idle⟩ :=
  exists_served_host boot reachable_served_page rfl

/-- When the child of a page has ended, four steps of the handler take it away. -/
theorem reaps_page : ∃ h, HostReachable smallBoot h ∧ h.Zombie 0 ∧
    ∀ n notices, Notices.HandlingRun n h.notices notices → n ≤ 4 := by
  obtain ⟨h, hh, -, -, hrun, hnotices⟩ := exists_page_host smallBoot
  refine ⟨h, hh, ?_, fun n notices hhandling => ?_⟩
  · rw [Host.Zombie, hnotices]
    exact Finset.mem_singleton_self 0
  · have hbound := ((reaps hh).2.2 hrun n notices hhandling).2.1
    rw [hnotices] at hbound
    exact hbound

/-- The child of a page ends and is waited for. -/
theorem all_reaped_page : ∃ h, HostReachable smallBoot h ∧ h.sys = .served pageConnection ∧
    ∃ h', HostLeads smallBoot h h' ∧ h'.sys.Quiescent ∧ h'.notices.phase = .idle ∧
      (∀ i < h'.sys.children.length, h'.Reaped i) ∧
      h.sys.children.map Child.conn <+: h'.sys.children.map Child.conn := by
  obtain ⟨h, hh, hsys, -, hrun, -⟩ := exists_page_host smallBoot
  exact ⟨h, hh, hsys, all_reaped hh hrun⟩

end Pawnee
