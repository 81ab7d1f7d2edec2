import Pawnee.Child.PartialWrites
import Pawnee.Server.Accounting
import Mathlib.Logic.Relation

/-!
# No deadlock

The only call that can be refused is `sem_wait`, and it is refused only while
another process is inside an update of a counter.  That process neither waits nor
ends before it has posted (`Reachable.holder_runs`), so some process can always go
on (`Reachable.progress`).  That a post lets a process of another address space go on
is taken for granted here, as the code takes it.

A process that runs alone from a state in which no other is inside an update gets
to its end.  So from every reachable state the server can come to rest, with every
child ended and the semaphore free (`comes_to_rest`): no child is ever stuck, and none has
ended with the lock.  That run can be one in which every `write` takes all it is given
(`Reachable.leads_to_rest`).
-/

namespace Pawnee

open CText Effects LockedCounters

/-! ## Calls that can be made -/

/-- The process is inside an update of a counter. -/
def InUpdate (tr : List ServerEvent) : Prop := busy increment (accesses tr) = true

instance (tr : List ServerEvent) : Decidable (InUpdate tr) := inferInstanceAs (Decidable (_ = true))

theorem Unlocked.not_inUpdate {tr : List ServerEvent} (h : Unlocked tr) : ¬ InUpdate tr := by
  have hout : phaseOf increment (accesses tr) = some .outside := h
  simp [InUpdate, busy, hout]

/-- A call can be made unless it waits for a semaphore that is taken, and a `write` can
take all it is given. -/
theorem exists_full_touch {m : SharedMemory} {e : Call} (hwait : e = .semWait → 0 < m.sem) :
    ∃ (r : Answer e) (m' : SharedMemory), touch m ⟨e, r⟩ = some m' ∧ TakesAll [⟨e, r⟩] := by
  have hnone : ∀ {r : Answer e}, (∀ part data, e ≠ .write part data) → TakesAll [⟨e, r⟩] := by
    intro r hno part data n hmem
    cases List.mem_singleton.mp hmem
    exact absurd rfl (hno part data)
  cases e with
  | semWait => exact ⟨(), _, if_pos (hwait rfl), hnone nofun⟩
  | load c => exact ⟨m.cell c, m, if_pos rfl, hnone nofun⟩
  | store c v => exact ⟨(), _, rfl, hnone nofun⟩
  | semPost => exact ⟨(), _, rfl, hnone nofun⟩
  | accept => exact ⟨(none : Option Connection), m, rfl, hnone nofun⟩
  | getpeername | fork => exact ⟨true, m, rfl, hnone nofun⟩
  | write part data =>
      refine ⟨(data.length : Int), m, rfl, fun part' data' n hmem _ => ?_⟩
      cases List.mem_singleton.mp hmem
      rfl
  | access | stat | fopen | logRequest | logError => exact ⟨(), m, rfl, hnone nofun⟩

/-- A call can be made unless it waits for a semaphore that is taken. -/
theorem exists_touch {m : SharedMemory} {e : Call} (hwait : e = .semWait → 0 < m.sem) :
    ∃ (r : Answer e) (m' : SharedMemory), touch m ⟨e, r⟩ = some m' := by
  obtain ⟨r, m', ht, -⟩ := exists_full_touch hwait
  exact ⟨r, m', ht⟩

/-! ## The process inside an update -/

/-- A child never returns. -/
theorem Child.Sound.not_ret {c : Child} (h : c.Sound) {a : Unit} : c.prog ≠ .ret a := by
  intro hprog
  rw [Child.Sound, hprog] at h
  have hruns := h.runs (.ret a)
  rw [respondClient_eq] at hruns
  obtain ⟨_, _, _, _, -, -, hout, -⟩ := runs_course hruns
  cases hout

/-- A child that has ended is not inside an update. -/
theorem Child.Sound.not_inUpdate {c : Child} (h : c.Sound) (hended : c.Ended) :
    ¬ InUpdate c.done := by
  obtain ⟨halt, hruns⟩ := h.runs hended
  rw [respondClient_eq] at hruns
  exact ((course_private _ _).history hruns).1.not_inUpdate

/-- A child inside an update has a call to make, and it is no `sem_wait`. -/
theorem Child.Sound.runs_in_update {c : Child} (h : c.Sound) (hin : InUpdate c.done) :
    ∃ (e : Call) (k : Answer e → Server Unit), c.prog = .op e k ∧ e ≠ .semWait := by
  obtain ⟨conn, done, prog⟩ := c
  cases prog with
  | ret a => exact (h.not_ret rfl).elim
  | stop halt => exact absurd hin (h.not_inUpdate ⟨halt, rfl⟩)
  | op e k =>
      refine ⟨e, k, rfl, ?_⟩
      rintro rfl
      have hstep : Child.Sound ⟨conn, done ++ [⟨.semWait, ()⟩], k ()⟩ := Prog.Steps.snoc h ()
      have hdone := hstep.history.1
      rw [accesses_append] at hdone
      have hnot := not_busy_of_wait (h := accesses done) hdone
      rw [InUpdate, hnot] at hin
      cases hin

/-- A round that is over has left the lock. -/
theorem RoundRun.unlocked_end {tr : List ServerEvent} {out : Except Halt Unit}
    (h : RoundRun tr out) : Unlocked tr := by
  cases h with
  | noClient => exact unlocked_private (by simp [IsPrivate])
  | noName conn => exact unlocked_private (by simp [IsPrivate])
  | noFork conn v => exact unlocked_round (by simp [IsPrivate])
  | forked conn v => exact unlocked_round (by simp [IsPrivate])

/-- Rounds that are over have left the lock. -/
theorem unlocked_flatten {done : List (List ServerEvent)}
    (h : ∀ tr ∈ done, ∃ a, Prog.Runs serveOne tr (.ok a)) : Unlocked done.flatten := by
  induction done with
  | nil => rfl
  | cons tr done ih =>
      obtain ⟨a, hruns⟩ := h tr List.mem_cons_self
      rw [List.flatten_cons]
      exact (runs_serveOne hruns).unlocked_end.append
        (ih fun t ht => h t (List.mem_cons_of_mem _ ht))

/-- A parent inside an update has a call to make, and it is no `sem_wait`. -/
theorem Sys.Sound.parent_runs_in_update {s : Sys} (h : s.Sound) (hin : InUpdate s.done) :
    ∃ (e : Call) (k : Answer e → Server Unit), s.parent = .op e k ∧ e ≠ .semWait := by
  have hrounds := h.parent
  have hover : ∀ out : Except Halt Unit, s.parent = Prog.finished out → False := by
    intro out hout
    obtain ⟨done, cur, hdone, hall, hcur⟩ := hrounds.split
    have hruns : Prog.Runs serveOne cur out := by
      rw [hout] at hcur
      cases out with
      | ok a => simpa using hcur.runs (.ret a)
      | error halt => simpa using hcur.runs (.stop halt)
    rw [hdone] at hin
    exact ((unlocked_flatten hall).append (runs_serveOne hruns).unlocked_end).not_inUpdate hin
  cases hparent : s.parent with
  | ret a => exact (hover (.ok a) hparent).elim
  | stop halt => exact (hover (.error halt) hparent).elim
  | op e k =>
      refine ⟨e, k, rfl, ?_⟩
      rintro rfl
      rw [hparent] at hrounds
      have hdone := (counted_rounds (.step () hrounds)).disciplined
      rw [accesses_append] at hdone
      have hnot := not_busy_of_wait (h := accesses s.done) hdone
      rw [InUpdate, hnot] at hin
      cases hin

/-- The process inside an update is never blocked, and it does not end there. -/
theorem Reachable.holder_runs {s : Sys} (hs : Reachable s) :
    (InUpdate s.done → ∃ (e : Call) (k : Answer e → Server Unit),
      s.parent = .op e k ∧ e ≠ .semWait) ∧
    ∀ c ∈ s.children, InUpdate c.done → ∃ (e : Call) (k : Answer e → Server Unit),
      c.prog = .op e k ∧ e ≠ .semWait :=
  ⟨hs.sound.parent_runs_in_update, fun c hc => (hs.sound.child c hc).runs_in_update⟩

/-! ## Steps -/

/-- A child that is not blocked can make a step. -/
theorem exists_child_step {s : Sys} {c : Child} (hc : c ∈ s.children) {e : Call}
    {k : Answer e → Server Unit} (hprog : c.prog = .op e k)
    (hwait : e = .semWait → 0 < s.memory.sem) : ∃ s', Step s s' := by
  obtain ⟨m, done, parent, children⟩ := s
  obtain ⟨conn, done', prog⟩ := c
  obtain ⟨pre, post, rfl⟩ := List.append_of_mem hc
  obtain rfl : prog = .op e k := hprog
  obtain ⟨r, m', ht⟩ := exists_touch hwait
  exact ⟨_, .child r ht⟩

/-- A parent that is not blocked can make a step. -/
theorem exists_parent_step {s : Sys} {e : Call} {k : Answer e → Server Unit}
    (hparent : s.parent = .op e k) (hwait : e = .semWait → 0 < s.memory.sem) : ∃ s', Step s s' := by
  obtain ⟨m, done, parent, children⟩ := s
  obtain rfl : parent = .op e k := hparent
  obtain ⟨r, m', ht⟩ := exists_touch hwait
  exact ⟨_, .parent r ht⟩

/-- While the semaphore is taken, the process inside the update can make a step. -/
theorem Reachable.holder_step {s : Sys} (hs : Reachable s) (hzero : s.memory.sem = 0) :
    ∃ s', Step s s' := by
  rcases (Sys.locked_iff.mp hs.locked).sem_pos_or_busy with hpos | ⟨h, hh, hbusy⟩
  · omega
  · rcases List.mem_cons.mp hh with rfl | hh
    · obtain ⟨e, k, hparent, hne⟩ := hs.holder_runs.1 hbusy
      exact exists_parent_step hparent fun he => absurd he hne
    · obtain ⟨c, hc, rfl⟩ := List.mem_map.mp hh
      obtain ⟨e, k, hprog, hne⟩ := hs.holder_runs.2 c hc hbusy
      exact exists_child_step hc hprog fun he => absurd he hne

/-- A child that has not ended has a call to make. -/
theorem Child.Sound.ended_or_call {c : Child} (h : c.Sound) :
    c.Ended ∨ ∃ (e : Call) (k : Answer e → Server Unit), c.prog = .op e k := by
  obtain ⟨conn, done, prog⟩ := c
  cases prog with
  | ret a => exact (h.not_ret rfl).elim
  | stop halt => exact .inl ⟨halt, rfl⟩
  | op e k => exact .inr ⟨e, k, rfl⟩

/-- Some process can make a step, or the parent has left its loop and every child
has ended. -/
theorem Reachable.progress {s : Sys} (hs : Reachable s) :
    (∃ s', Step s s') ∨ (∃ halt, s.parent = .stop halt) ∧ ∀ c ∈ s.children, c.Ended := by
  rcases Nat.eq_zero_or_pos s.memory.sem with hzero | hpos
  · exact .inl (hs.holder_step hzero)
  · cases hparent : s.parent with
    | op e k => exact .inl (exists_parent_step hparent fun _ => hpos)
    | ret a =>
        obtain ⟨m, done, parent, children⟩ := s
        obtain rfl : parent = .ret a := hparent
        exact .inl ⟨_, .again⟩
    | stop halt =>
        by_cases hall : ∀ c ∈ s.children, c.Ended
        · exact .inr ⟨⟨halt, rfl⟩, hall⟩
        · simp only [not_forall] at hall
          obtain ⟨c, hc, hended⟩ := hall
          obtain ⟨e, k, hprog⟩ := (hs.sound.child c hc).ended_or_call.resolve_left hended
          exact .inl (exists_child_step hc hprog fun _ => hpos)

/-- In every reachable state some process can make a step, unless the parent has
left its loop and every child has ended.  The process inside an update, if there is
one, is not blocked, and no process has ended inside an update. -/
theorem deadlock_free {s : Sys} (hs : Reachable s) :
    ((∃ s', Step s s') ∨ (∃ halt, s.parent = .stop halt) ∧ ∀ c ∈ s.children, c.Ended) ∧
      (InUpdate s.done → ∃ (e : Call) (k : Answer e → Server Unit),
        s.parent = .op e k ∧ e ≠ .semWait) ∧
      ∀ c ∈ s.children, InUpdate c.done → ∃ (e : Call) (k : Answer e → Server Unit),
        c.prog = .op e k ∧ e ≠ .semWait :=
  ⟨hs.progress, hs.holder_runs⟩

/-- After one page the parent accepts the next connection. -/
theorem deadlock_free_page :
    ((∃ s', Step (Sys.served pageConnection) s') ∨
        (∃ halt, (Sys.served pageConnection).parent = .stop halt) ∧
          ∀ c ∈ (Sys.served pageConnection).children, c.Ended) ∧
      (InUpdate (Sys.served pageConnection).done → ∃ (e : Call) (k : Answer e → Server Unit),
        (Sys.served pageConnection).parent = .op e k ∧ e ≠ .semWait) ∧
      ∀ c ∈ (Sys.served pageConnection).children, InUpdate c.done →
        ∃ (e : Call) (k : Answer e → Server Unit), c.prog = .op e k ∧ e ≠ .semWait :=
  deadlock_free reachable_served_page

/-! ## Coming to rest -/

/-- The server can get from one state to the other. -/
abbrev Leads : Sys → Sys → Prop := Relation.ReflTransGen Step

theorem Reachable.leads {s s' : Sys} (hs : Reachable s) (h : Leads s s') : Reachable s' := by
  induction h with
  | refl => exact hs
  | tail _ hstep ih => exact ih.step hstep

/-- A parent that runs alone. -/
theorem Leads.parent {m m' : SharedMemory} {done tr : List ServerEvent} {p q : Server Unit}
    {children : List Child} (hp : Prog.Steps p tr q) (ht : touchAll m tr = some m') :
    Leads ⟨m, done, p, children⟩ ⟨m', done ++ tr, q, children ++ tr.flatMap started⟩ := by
  induction hp generalizing m done children with
  | nil p =>
      cases ht
      simpa using Relation.ReflTransGen.refl
  | @cons e k r tr q _ ih =>
      simp only [touchAll, List.foldlM_cons, Option.bind_eq_bind, Option.bind_eq_some_iff] at ht
      obtain ⟨m₁, h₁, ht⟩ := ht
      have hrest : Leads ⟨m₁, done ++ [⟨e, r⟩], k r, children ++ started ⟨e, r⟩⟩ _ := ih ht
      exact .head (.parent r h₁) (by simpa using hrest)

/-- A child that runs alone. -/
theorem Leads.child {m m' : SharedMemory} {done done' tr : List ServerEvent}
    {parent p q : Server Unit} {conn : Connection} {pre post : List Child}
    (hp : Prog.Steps p tr q) (ht : touchAll m tr = some m') :
    Leads ⟨m, done, parent, pre ++ ⟨conn, done', p⟩ :: post⟩
      ⟨m', done, parent, pre ++ ⟨conn, done' ++ tr, q⟩ :: post⟩ := by
  induction hp generalizing m done' with
  | nil p =>
      cases ht
      rw [List.append_nil]
  | @cons e k r tr q _ ih =>
      simp only [touchAll, List.foldlM_cons, Option.bind_eq_bind, Option.bind_eq_some_iff] at ht
      obtain ⟨m₁, h₁, ht⟩ := ht
      have hrest : Leads ⟨m₁, done, parent, pre ++ ⟨conn, done' ++ [⟨e, r⟩], k r⟩ :: post⟩ _ :=
        ih ht
      rw [List.append_assoc] at hrest
      exact .head (.child r h₁) hrest

theorem Step.conns_grow {s s' : Sys} (h : Step s s') :
    s.children.map Child.conn <+: s'.children.map Child.conn := by
  cases h with
  | parent r ht =>
      rw [List.map_append]
      exact List.prefix_append _ _
  | again => exact List.prefix_rfl
  | child r ht => simp

/-- The connections that have been forked stay. -/
theorem Leads.conns_grow {s s' : Sys} (h : Leads s s') :
    s.children.map Child.conn <+: s'.children.map Child.conn := by
  induction h with
  | refl => exact List.prefix_rfl
  | tail _ hstep ih => exact ih.trans hstep.conns_grow

theorem getElem?_middle_self {α : Type} {pre post : List α} {x : α} :
    (pre ++ x :: post)[pre.length]? = some x := by simp

theorem getElem?_middle {α : Type} {pre post : List α} {x y : α} {i : Nat} (h : i ≠ pre.length) :
    (pre ++ x :: post)[i]? = (pre ++ y :: post)[i]? := by
  rcases Nat.lt_or_gt_of_ne h with hlt | hgt
  · rw [List.getElem?_append_left hlt, List.getElem?_append_left hlt]
  · obtain ⟨n, rfl⟩ := Nat.exists_eq_add_of_lt hgt
    rw [List.getElem?_append_right (by omega), List.getElem?_append_right (by omega),
      show pre.length + n + 1 - pre.length = n + 1 by omega, List.getElem?_cons_succ,
      List.getElem?_cons_succ]

/-- A step in which no `write` of a child falls short. -/
def FullStep (s s' : Sys) : Prop :=
  Step s s' ∧ ∀ (i : Nat) (c c' : Child), s.children[i]? = some c →
    s'.children[i]? = some c' → TakesAll c.done → TakesAll c'.done

/-- The server can get from one state to the other, and no `write` falls short. -/
abbrev FullLeads : Sys → Sys → Prop := Relation.ReflTransGen FullStep

theorem FullLeads.leads {s s' : Sys} (h : FullLeads s s') : Leads s s' :=
  Relation.ReflTransGen.mono (fun _ _ hstep => hstep.1) _ _ h

theorem FullStep.parent {m m' : SharedMemory} {done : List ServerEvent} {e : Call}
    {k : Answer e → Server Unit} {children : List Child} (r : Answer e)
    (ht : touch m ⟨e, r⟩ = some m') :
    FullStep ⟨m, done, .op e k, children⟩
      ⟨m', done ++ [⟨e, r⟩], k r, children ++ started ⟨e, r⟩⟩ := by
  refine ⟨.parent r ht, fun i c c' hc hc' htakes => ?_⟩
  obtain ⟨hi, -⟩ := List.getElem?_eq_some_iff.mp hc
  cases hc.symm.trans ((List.getElem?_append_left hi).symm.trans hc')
  exact htakes

theorem FullStep.child {m m' : SharedMemory} {done done' : List ServerEvent}
    {parent : Server Unit} {e : Call} {k : Answer e → Server Unit} {conn : Connection}
    {pre post : List Child} (r : Answer e) (ht : touch m ⟨e, r⟩ = some m')
    (hfull : TakesAll [⟨e, r⟩]) :
    FullStep ⟨m, done, parent, pre ++ ⟨conn, done', .op e k⟩ :: post⟩
      ⟨m', done, parent, pre ++ ⟨conn, done' ++ [⟨e, r⟩], k r⟩ :: post⟩ := by
  refine ⟨.child r ht, fun i c c' hc hc' htakes => ?_⟩
  by_cases hi : i = pre.length
  · subst hi
    cases hc.symm.trans getElem?_middle_self
    cases hc'.symm.trans getElem?_middle_self
    exact takesAll_append.mpr ⟨htakes, hfull⟩
  · cases hc.symm.trans ((getElem?_middle hi).trans hc')
    exact htakes

/-- No process is inside an update. -/
structure Sys.Idle (s : Sys) : Prop where
  parent : ¬ InUpdate s.done
  child : ∀ c ∈ s.children, ¬ InUpdate c.done

theorem Reachable.sem_of_idle {s : Sys} (hs : Reachable s) (hidle : s.Idle) : s.memory.sem = 1 := by
  refine (Sys.locked_iff.mp hs.locked).sem_eq_one fun h hh => ?_
  rcases List.mem_cons.mp hh with rfl | hh
  · exact Bool.eq_false_iff.mpr hidle.parent
  · obtain ⟨c, hc, rfl⟩ := List.mem_map.mp hh
    exact Bool.eq_false_iff.mpr (hidle.child c hc)

section

variable {done : List ServerEvent} {parent : Server Unit} {conn : Connection}
  {pre post : List Child}

/-- A child alone gets to its end while no other process is inside an update. -/
theorem child_ends (p : Server Unit) {m : SharedMemory} {done' : List ServerEvent}
    (hs : Reachable ⟨m, done, parent, pre ++ ⟨conn, done', p⟩ :: post⟩) (hparent : ¬ InUpdate done)
    (hothers : ∀ c ∈ pre ++ post, ¬ InUpdate c.done) :
    ∃ m' done'' halt, FullLeads ⟨m, done, parent, pre ++ ⟨conn, done', p⟩ :: post⟩
      ⟨m', done, parent, pre ++ ⟨conn, done'', .stop halt⟩ :: post⟩ := by
  induction p generalizing m done' with
  | ret a => exact ((hs.sound.child _ List.mem_append_cons_self).not_ret rfl).elim
  | stop halt => exact ⟨m, done', halt, .refl⟩
  | op e k ih =>
      have hwait : e = .semWait → 0 < m.sem := by
        rintro rfl
        rcases (Sys.locked_iff.mp hs.locked).sem_pos_or_busy with hpos | ⟨h, hh, hbusy⟩
        · exact hpos
        · rcases List.mem_cons.mp hh with rfl | hh
          · exact absurd hbusy hparent
          · obtain ⟨c, hc, rfl⟩ := List.mem_map.mp hh
            rcases mem_middle hc with rfl | hc
            · -- it would be the child itself, which waits
              obtain ⟨e', k', hprog, hne⟩ := hs.holder_runs.2 _ List.mem_append_cons_self hbusy
              cases hprog
              exact absurd rfl hne
            · exact absurd hbusy (hothers c hc)
      obtain ⟨r, m', ht, hfull⟩ := exists_full_touch hwait
      have hstep : FullStep ⟨m, done, parent, pre ++ ⟨conn, done', .op e k⟩ :: post⟩ _ :=
        .child r ht hfull
      obtain ⟨m'', done'', halt, hleads⟩ := ih r (hs.step hstep.1)
      exact ⟨m'', done'', halt, .head hstep hleads⟩

/-- A parent inside an update alone gets out of it. -/
theorem parent_leaves_update (p : Server Unit) {m : SharedMemory} {done : List ServerEvent}
    {children : List Child} (hs : Reachable ⟨m, done, p, children⟩) :
    ∃ s', FullLeads ⟨m, done, p, children⟩ s' ∧ ¬ InUpdate s'.done := by
  have hcall := hs.holder_runs.1
  induction p generalizing m done children with
  | ret a =>
      refine ⟨_, .refl, fun hin => ?_⟩
      obtain ⟨e, k, hprog, -⟩ := hcall hin
      cases hprog
  | stop halt =>
      refine ⟨_, .refl, fun hin => ?_⟩
      obtain ⟨e, k, hprog, -⟩ := hcall hin
      cases hprog
  | op e k ih =>
      by_cases hin : InUpdate done
      · obtain ⟨e', k', hprog, hne⟩ := hcall hin
        cases hprog
        obtain ⟨r, m', ht⟩ := exists_touch fun he => absurd he hne
        have hstep : FullStep ⟨m, done, .op e k, children⟩ _ := .parent r ht
        have hs' := hs.step hstep.1
        obtain ⟨s', hleads, hout⟩ := ih r hs' hs'.holder_runs.1
        exact ⟨s', .head hstep hleads, hout⟩
      · exact ⟨_, .refl, hin⟩

end

/-- The process inside an update can leave it. -/
theorem Reachable.leads_to_idle {s : Sys} (hs : Reachable s) : ∃ s', FullLeads s s' ∧ s'.Idle := by
  obtain ⟨⟨m, done, parent, children⟩, hleads, hparent⟩ := parent_leaves_update s.parent hs
  have hs₁ := hs.leads hleads.leads
  by_cases hidle : ∀ c ∈ children, ¬ InUpdate c.done
  · exact ⟨_, hleads, hparent, hidle⟩
  · simp only [not_forall, not_not] at hidle
    obtain ⟨⟨conn, done', p⟩, hc, hin⟩ := hidle
    obtain ⟨pre, post, rfl⟩ := List.append_of_mem hc
    have hlocked := Sys.locked_iff.mp hs₁.locked
    simp only [List.map_append, List.map_cons] at hlocked
    rw [← List.cons_append] at hlocked
    have hidle := (hlocked.others_idle hin).2
    have hothers : ∀ c ∈ pre ++ post, ¬ InUpdate c.done := by
      intro c hc
      refine Unlocked.not_inUpdate (hidle _ ?_)
      rw [List.cons_append, ← List.map_append]
      exact List.mem_cons_of_mem _ (List.mem_map_of_mem hc)
    obtain ⟨m', done'', halt, hends⟩ := child_ends p hs₁ hparent hothers
    refine ⟨_, hleads.trans hends, hparent, fun c hc => ?_⟩
    rcases mem_middle hc with rfl | hc
    · exact ((hs₁.leads hends.leads).sound.child _ hc).not_inUpdate ⟨halt, rfl⟩
    · exact hothers c hc

/-- From a state in which no process is inside an update the children can end one
after the other. -/
theorem children_end : ∀ (post pre : List Child) {m : SharedMemory} {done : List ServerEvent}
    {parent : Server Unit}, Reachable ⟨m, done, parent, pre ++ post⟩ →
    Sys.Idle ⟨m, done, parent, pre ++ post⟩ → (∀ c ∈ pre, c.Ended) →
      ∃ s', FullLeads ⟨m, done, parent, pre ++ post⟩ s' ∧ s'.Idle ∧ ∀ c ∈ s'.children, c.Ended
  | [], pre, m, done, parent, _, hidle, hended => by
      refine ⟨_, .refl, hidle, ?_⟩
      simpa using hended
  | ⟨conn, done', p⟩ :: post, pre, m, done, parent, hs, hidle, hended => by
      have hothers : ∀ c ∈ pre ++ post, ¬ InUpdate c.done := fun c hc =>
        hidle.child c (mem_of_mem_sides hc)
      obtain ⟨m', done'', halt, hends⟩ := child_ends p hs hidle.parent hothers
      have hs' := hs.leads hends.leads
      have happend : pre ++ (⟨conn, done'', .stop halt⟩ : Child) :: post =
          (pre ++ [⟨conn, done'', .stop halt⟩]) ++ post := by simp
      have hidle' : Sys.Idle ⟨m', done, parent, pre ++ ⟨conn, done'', .stop halt⟩ :: post⟩ := by
        refine ⟨hidle.parent, fun c hc => ?_⟩
        rcases mem_middle hc with rfl | hmem
        · exact (hs'.sound.child _ hc).not_inUpdate ⟨halt, rfl⟩
        · exact hothers c hmem
      rw [happend] at hs' hidle' hends
      obtain ⟨s', hleads, hrest⟩ := children_end post _ hs' hidle' fun c hc => by
        rcases List.mem_append.mp hc with hc | hc
        · exact hended c hc
        · rw [List.mem_singleton.mp hc]
          exact ⟨halt, rfl⟩
      exact ⟨s', hends.trans hleads, hrest⟩

/-- The server can come to rest, and no `write` falls short on the way. -/
theorem Reachable.leads_to_rest {s : Sys} (hs : Reachable s) :
    ∃ s', FullLeads s s' ∧ s'.Quiescent := by
  obtain ⟨⟨m, done, parent, children⟩, hleads, hidle⟩ := hs.leads_to_idle
  obtain ⟨s', hends, hidle', hended⟩ :=
    children_end children [] (hs.leads hleads.leads) hidle (by simp)
  have hall := hleads.trans hends
  exact ⟨s', hall, hended, (hs.leads (FullLeads.leads hall)).sem_of_idle hidle'⟩

/-- From every reachable state the server can come to rest: the children that are
there, and those that are forked on the way, end, and the semaphore is free. -/
theorem comes_to_rest {s : Sys} (hs : Reachable s) :
    ∃ s', Leads s s' ∧ s'.Quiescent ∧
      s.children.map Child.conn <+: s'.children.map Child.conn := by
  obtain ⟨s', hleads, hrest⟩ := hs.leads_to_rest
  exact ⟨s', hleads.leads, hrest, hleads.leads.conns_grow⟩

/-- A page that has been asked for is served. -/
theorem comes_to_rest_page :
    ∃ s', Leads ⟨servedOnce, firstRound pageConnection, .ret (), [.start pageConnection]⟩ s' ∧
      s'.Quiescent ∧ [pageConnection] <+: s'.children.map Child.conn :=
  comes_to_rest (reachable_firstRound pageConnection)

end Pawnee
