import Pawnee.Child.Observed
import Pawnee.Server.System

/-!
# The histories of the processes

What a process has done to the shared memory when it is stopped at any point.
A child increments one counter at most, and reads the counters without the lock
for the stats page (`Child.Sound.stored`).  The parent counts a connection
before it forks, once for each connection (`Rounds.counted`).  All of them keep
the discipline of the lock (`Sys.Sound.disciplined`).
-/

namespace Pawnee

open CText Effects LockedCounters

/-! ## Calls outside the shared memory -/

/-- The call does not touch the shared memory. -/
def IsPrivate : Call → Prop
  | .semWait | .semPost | .load _ | .store _ _ => False
  | _ => True

theorem IsLookup.isPrivate {e : Call} (h : IsLookup e) : IsPrivate e := by
  cases e with
  | access path => trivial
  | stat path => trivial
  | fopen path => trivial
  | logError m => trivial
  | _ => exact h.elim

theorem accessOf_private {e : Call} {r : Answer e} (h : IsPrivate e) : accessOf ⟨e, r⟩ = none := by
  cases e with
  | semWait => exact h.elim
  | semPost => exact h.elim
  | load c => exact h.elim
  | store c v => exact h.elim
  | _ => rfl

theorem storedCounter_private {e : Call} (h : IsPrivate e) : storedCounter e = none := by
  cases e with
  | store c v => exact h.elim
  | _ => rfl

theorem messageEnding_private (env : Env) (q : Request) (code : Int)
    (reasonPhrase errorMessage : String) :
    ∀ e ∈ (q.messageEnding env code reasonPhrase errorMessage).lead env, IsPrivate e := by
  rw [messageEnding_lead]
  split
  · simp
  · simp [IsPrivate]

theorem fileEnding_private (env : Env) (q : Request) (r path : Str) (file : OpenFile) :
    ∀ e ∈ (q.fileEnding env r path file).lead env, IsPrivate e := by
  intro e he
  rcases mem_fileEnding he with rfl | h | ⟨mime, rfl⟩ | ⟨data, rfl⟩
  · trivial
  · exact h.isPrivate
  · trivial
  · trivial

theorem IsPreparation.isPrivate {e : Call} (h : IsPreparation e) : IsPrivate e := by
  rcases h with h | ⟨entry, rfl⟩
  · exact h.isPrivate
  · trivial

/-- Before it counts, a child looks files up and logs.  Behind, it reads the
counters for the stats page and leaves the shared memory alone otherwise. -/
structure Course.Private (env : Env) (c : Course) : Prop where
  before : ∀ e ∈ c.before, IsPreparation e
  lead : ∀ e ∈ c.ending.lead env, IsPrivate e

theorem Course.dies_private {env : Env} {l : List Call} (halt : Halt)
    (h : ∀ e ∈ l, IsLookup e) : (Course.dies l halt).Private env :=
  ⟨fun e he => .inl (h e he), by simp [Course.dies, Ending.lead]⟩

theorem Request.Branch.private {env : Env} {q : Request} {c : Course} (h : q.Branch env c) :
    c.Private env := by
  refine ⟨h.before_isPreparation, ?_⟩
  cases h with
  | version | method | noSite | missing => exact messageEnding_private _ _ _ _ _
  | stats hm hv hr => simp [Ending.lead, statsHeadCalls, IsPrivate]
  | file hfinds hfile => exact fileEnding_private _ _ _ _ _
  | target | brokenSite | badRoot => simp [Course.dies, Ending.lead]

theorem course_private (env : Env) (flux : Option Str) : (course env flux).Private env := by
  have hcourse := course_from env flux
  generalize course env flux = c at hcourse
  cases hcourse with
  | noStream | noLine | rejected => exact Course.dies_private _ (by simp [IsLookup])
  | parsed hread hq => exact (Request.branch env _).private

/-- What a complete run of a child writes is decided behind the count. -/
theorem SeesWrites.observed_respondClient {β : Type} {f : Call → Option β} (hf : SeesWrites f)
    (hbody : ∀ data, f (.write .body data) = none) {env : Env} {flux : Option Str}
    {tr : List ServerEvent} {out : Except Halt Unit}
    (h : Prog.Runs (respondClient env flux) tr out) :
    observed f tr = ((course env flux).ending.lead env).filterMap f := by
  rw [respondClient_eq] at h
  rw [hf.observed_course (fun _ _ => hbody) h,
    hf.filterMap_preparation (course_private env flux).before, List.nil_append]

/-! ## Accesses -/

/-- The accesses of a history to the shared memory. -/
def accesses (tr : List ServerEvent) : List (Access Counter Int32) := tr.filterMap accessOf

@[simp] theorem accesses_append (tr tr' : List ServerEvent) :
    accesses (tr ++ tr') = accesses tr ++ accesses tr' := List.filterMap_append

/-- `x++` on an `int`. -/
def increment (v : Int32) : Int32 := v + 1

/-- The increments of a counter in a history. -/
def increments (c : Counter) (tr : List ServerEvent) : Nat := (observed storedCounter tr).count c

theorem increments_append (c : Counter) (tr tr' : List ServerEvent) :
    increments c (tr ++ tr') = increments c tr + increments c tr' := by
  simp [increments, observed]

theorem stores_accesses (c : Counter) (tr : List ServerEvent) :
    stores c (accesses tr) = increments c tr := by
  induction tr with
  | nil => rfl
  | cons ev tr ih =>
      have hone : stores c (accesses [ev]) = increments c [ev] := by
        obtain ⟨e, r⟩ := ev
        cases e with
        | store c' v =>
            by_cases hc : c' = c <;> simp [accesses, accessOf, stores, increments, observed,
              storedCounter, hc]
        | _ => rfl
      rw [← List.singleton_append, accesses_append, stores_append, increments_append, hone, ih]

/-- The history keeps the discipline of the lock and does not hold it. -/
def Unlocked (tr : List ServerEvent) : Prop := phaseOf increment (accesses tr) = some .outside

theorem Unlocked.append {tr tr' : List ServerEvent} (h : Unlocked tr) (h' : Unlocked tr') :
    Unlocked (tr ++ tr') := by
  rw [Unlocked, accesses_append, phaseOf_append, h]
  exact h'

/-- Loads without the lock are allowed. -/
theorem unlocked_of_loads {tr : List ServerEvent}
    (h : ∀ e ∈ Prog.callsOf tr, IsPrivate e ∨ ∃ c, e = .load c) : Unlocked tr := by
  induction tr with
  | nil => rfl
  | cons ev tr ih =>
      have hone : Unlocked [ev] := by
        obtain ⟨e, r⟩ := ev
        rcases h e (by simp) with hp | ⟨c, rfl⟩
        · simp [Unlocked, accesses, accessOf_private hp]
        · rfl
      exact hone.append (ih fun e he => h e (by simp [he]))

theorem unlocked_countEvents (v : Int32) (counter : Option Counter) :
    Unlocked (countEvents v counter) := by
  cases counter with
  | none => rfl
  | some c => simp [Unlocked, countEvents, accesses, accessOf, phaseOf, Phase.next, increment]

theorem ignoresCounts_storedCounter : IgnoresCounts storedCounter := ⟨rfl, rfl, fun _ => rfl⟩

/-- A run of a course ends without the lock and has made its increment. -/
theorem Course.Private.history {env : Env} {c : Course} (hc : c.Private env)
    {tr : List ServerEvent} {out : Except Halt Unit} (h : Prog.Runs (c.prog env) tr out) :
    Unlocked tr ∧ observed storedCounter tr = c.counter.toList := by
  constructor
  · obtain ⟨tr₁, v, tr₂, halt, rfl, hbefore, -, hmakes⟩ := runs_course h
    refine ((unlocked_of_loads fun e he => .inl ?_).append (unlocked_countEvents v _)).append
      (unlocked_of_loads fun e he => ?_)
    · exact (hc.before e (hbefore ▸ he)).isPrivate
    · have hlead := hc.lead
      generalize Prog.callsOf tr₂ = l at hmakes he
      generalize c.ending = ending at hmakes hlead
      cases hmakes with
      | calls l halt => exact .inl (hlead e he)
      | statsHead q => exact .inl (hlead e he)
      | statsPage q page =>
          rcases List.mem_append.mp he with he | he
          · exact .inl (hlead e he)
          · rcases List.mem_append.mp he with he | he
            · obtain ⟨k, -, rfl⟩ := List.mem_map.mp he
              exact .inr ⟨k, rfl⟩
            · rw [List.mem_singleton] at he
              subst he
              exact .inl trivial
  · obtain ⟨-, v, hobs⟩ := observed_course ignoresCounts_storedCounter
      (show IgnoresPage storedCounter c.ending from fun _ _ _ => rfl) h
    rw [hobs, filterMap_ignored fun e he => storedCounter_private (hc.before e he).isPrivate,
      filterMap_ignored fun e he => storedCounter_private (hc.lead e he)]
    cases c.counter with
    | none => rfl
    | some k => rfl

/-! ## The child -/

/-- A child ends as its course says. -/
theorem Child.Sound.prog_eq {c : Child} (h : c.Sound) (hended : c.Ended) :
    c.prog = .stop (course c.conn.env c.conn.flux).ending.halt := by
  obtain ⟨halt, hstop⟩ := hended
  have hsteps : Prog.Steps (respondClient c.conn.env c.conn.flux) c.done (.stop halt) := hstop ▸ h
  have hruns := hsteps.runs (.stop halt)
  rw [respondClient_eq] at hruns
  obtain ⟨_, _, _, _, -, -, hout, hmakes⟩ := runs_course hruns
  rw [hstop, ← hmakes.halt_eq]
  cases hout
  rfl

/-- The history of a child at any point. -/
theorem Child.Sound.history {c : Child} (h : c.Sound) :
    (phaseOf increment (accesses c.done)).isSome ∧
      observed storedCounter c.done <+: (course c.conn.env c.conn.flux).counter.toList := by
  obtain ⟨tr, out, hruns⟩ := Prog.Steps.complete h
  rw [respondClient_eq] at hruns
  obtain ⟨hun, hobs⟩ := (course_private _ _).history hruns
  rw [Unlocked, accesses_append] at hun
  refine ⟨isSome_phaseOf_of_append (Option.isSome_of_eq_some hun), ?_⟩
  rw [← hobs]
  exact ⟨observed storedCounter tr, by simp [observed]⟩

/-! ## The parent -/

/-- The connection of a call of `accept`. -/
def acceptedConn : ServerEvent → Option Connection
  | ⟨.accept, conn⟩ => conn
  | _ => none

/-- The connections a history has accepted. -/
def accepted (tr : List ServerEvent) : List Connection := tr.filterMap acceptedConn

theorem accepted_append (tr tr' : List ServerEvent) :
    accepted (tr ++ tr') = accepted tr ++ accepted tr' := List.filterMap_append

/-- The children a history has started. -/
def forked (tr : List ServerEvent) : List Child := tr.flatMap started

theorem forked_append (tr tr' : List ServerEvent) : forked (tr ++ tr') = forked tr ++ forked tr' :=
  List.flatMap_append

/-- A history of the parent keeps its books: it counts each connection it
accepts before it forks, and counts nothing else. -/
structure Counted (tr : List ServerEvent) : Prop where
  disciplined : (phaseOf increment (accesses tr)).isSome
  forked_le : (forked tr).length ≤ increments .servedConnections tr
  le_accepted : increments .servedConnections tr ≤ (accepted tr).length
  only : ∀ c, c ≠ .servedConnections → increments c tr = 0

theorem Counted.append {tr tr' : List ServerEvent} (hun : Unlocked tr) (h : Counted tr)
    (h' : Counted tr') : Counted (tr ++ tr') where
  disciplined := by
    rw [accesses_append, phaseOf_append, hun]
    exact h'.disciplined
  forked_le := by
    have h1 := h.forked_le
    have h2 := h'.forked_le
    rw [forked_append, increments_append, List.length_append]
    omega
  le_accepted := by
    have h1 := h.le_accepted
    have h2 := h'.le_accepted
    rw [accepted_append, increments_append, List.length_append]
    omega
  only c hc := by rw [increments_append, h.only c hc, h'.only c hc]

theorem increments_private {tr : List ServerEvent} (h : ∀ ev ∈ tr, IsPrivate ev.1) (c : Counter) :
    increments c tr = 0 := by
  have hnone : observed storedCounter tr = [] := by
    refine filterMap_ignored fun e he => ?_
    obtain ⟨ev, hev, rfl⟩ := List.mem_map.mp he
    exact storedCounter_private (h ev hev)
  rw [increments, hnone, List.count_nil]

theorem unlocked_private {tr : List ServerEvent} (h : ∀ ev ∈ tr, IsPrivate ev.1) : Unlocked tr := by
  refine unlocked_of_loads fun e he => .inl ?_
  obtain ⟨ev, hev, rfl⟩ := List.mem_map.mp he
  exact h ev hev

/-- A round that ends before the count, at any point. -/
theorem counted_private {tr cur : List ServerEvent}
    (h : ∀ ev ∈ tr, IsPrivate ev.1 ∧ started ev = []) (hp : cur <+: tr) : Counted cur := by
  have hcur : ∀ ev ∈ cur, IsPrivate ev.1 ∧ started ev = [] := fun ev hev => h ev (hp.subset hev)
  have hprivate : ∀ ev ∈ cur, IsPrivate ev.1 := fun ev hev => (hcur ev hev).1
  have hfork : forked cur = [] := List.flatMap_eq_nil_iff.mpr fun ev hev => (hcur ev hev).2
  exact
    { disciplined := Option.isSome_of_eq_some (unlocked_private hprivate)
      forked_le := by simp [hfork]
      le_accepted := by simp [increments_private hprivate]
      only c _ := increments_private hprivate c }

section

variable {conn : Connection} {v : Int32} {tail cur : List ServerEvent}

theorem unlocked_round (htail : ∀ ev ∈ tail, IsPrivate ev.1) :
    Unlocked (roundEvents conn v ++ tail) := by
  have hround : Unlocked (roundEvents conn v) :=
    (show Unlocked [⟨.accept, some conn⟩, ⟨.getpeername, true⟩] from rfl).append
      (unlocked_countEvents v (some .servedConnections))
  exact hround.append (unlocked_private htail)

/-- A round that counts, at any point. -/
theorem counted_round (htail : ∀ ev ∈ tail, IsPrivate ev.1) (hfork : (forked tail).length ≤ 1)
    (hp : cur <+: roundEvents conn v ++ tail) : Counted cur := by
  have hinc : ∀ c, increments c (roundEvents conn v ++ tail) =
      [Counter.servedConnections].count c := by
    intro c
    rw [increments_append, increments_private htail, Nat.add_zero]
    rfl
  have hle : ∀ c, increments c cur ≤ [Counter.servedConnections].count c := by
    intro c
    obtain ⟨rest, hrest⟩ := hp
    rw [← hinc c, ← hrest, increments_append]
    exact Nat.le_add_right _ _
  refine ⟨?_, ?_, ?_, fun c hc => ?_⟩
  · obtain ⟨rest, hrest⟩ := hp
    have hun : Unlocked (cur ++ rest) := hrest ▸ unlocked_round htail
    rw [Unlocked, accesses_append] at hun
    exact isSome_phaseOf_of_append (Option.isSome_of_eq_some hun)
  · -- the fork comes behind the increment
    rcases List.prefix_or_prefix_of_prefix hp (List.prefix_append (roundEvents conn v) tail) with
      ⟨rest, hrest⟩ | ⟨more, rfl⟩
    · have hnone : forked cur ++ forked rest = [] := by rw [← forked_append, hrest]; rfl
      rw [(List.append_eq_nil_iff.mp hnone).1]
      exact Nat.zero_le _
    · obtain ⟨rest, hrest⟩ := (List.prefix_append_right_inj _).mp hp
      have hmore : (forked more).length ≤ (forked tail).length := by
        rw [← hrest, forked_append, List.length_append]
        exact Nat.le_add_right _ _
      have hround : forked (roundEvents conn v) = [] := rfl
      have hone : increments .servedConnections (roundEvents conn v) = 1 := rfl
      rw [forked_append, hround, increments_append, hone, List.nil_append]
      omega
  · cases cur with
    | nil => exact Nat.le_refl 0
    | cons ev cur =>
        obtain ⟨rest, hrest⟩ := hp
        have hev : ev = ⟨.accept, some conn⟩ := (List.cons.inj hrest).1
        refine (hle _).trans ?_
        subst hev
        exact Nat.succ_le_succ (Nat.zero_le _)
  · have hzero := hle c
    rw [List.count_eq_zero.mpr (by simpa using hc)] at hzero
    exact Nat.le_zero.mp hzero

end

/-- A round at any point. -/
theorem RoundRun.counted {tr cur : List ServerEvent} {out : Except Halt Unit} (h : RoundRun tr out)
    (hp : cur <+: tr) : Counted cur := by
  cases h with
  | noClient => exact counted_private (by simp [IsPrivate, started]) hp
  | noName conn => exact counted_private (by simp [IsPrivate, started]) hp
  | noFork conn v =>
      refine counted_round ?_ ?_ hp
      · simp [IsPrivate]
      · exact Nat.zero_le 1
  | forked conn v =>
      refine counted_round ?_ ?_ hp
      · simp [IsPrivate]
      · exact Nat.le_refl 1

theorem RoundRun.unlocked {tr : List ServerEvent} (h : RoundRun tr (.ok ())) : Unlocked tr := by
  cases h with
  | forked conn v => exact unlocked_round (by simp [IsPrivate])

/-- The history of the parent at any point. -/
theorem counted_rounds {tr : List ServerEvent} {q : Server Unit} (h : Prog.Rounds serveOne tr q) :
    Counted tr := by
  obtain ⟨done, cur, rfl, hdone, hcur⟩ := h.split
  obtain ⟨rest, out, hruns⟩ := hcur.complete
  have hlast : Counted cur := (runs_serveOne hruns).counted (List.prefix_append cur rest)
  clear h hcur hruns
  induction done with
  | nil => exact hlast
  | cons tr done ih =>
      obtain ⟨_, hround⟩ := hdone tr List.mem_cons_self
      have hrun := runs_serveOne hround
      have hrest := ih fun t ht => hdone t (List.mem_cons_of_mem _ ht)
      rw [List.flatten_cons, List.append_assoc]
      exact (hrun.counted List.prefix_rfl).append hrun.unlocked hrest

/-! ## A server with one connection -/

/-- The first round of the parent. -/
def firstRound (conn : Connection) : List ServerEvent :=
  roundEvents conn 0 ++ [⟨.fork conn, true⟩]

/-- The memory after the first round. -/
def servedOnce : SharedMemory := ⟨1, Function.update (fun _ => 0) .servedConnections 1⟩

theorem reachable_firstRound (conn : Connection) :
    Reachable ⟨servedOnce, firstRound conn, .ret (), [.start conn]⟩ := by
  have hsteps : Prog.Steps serveOne (firstRound conn) (.ret ()) :=
    .cons (.cons (.cons (.cons (.cons (.cons (.cons (.nil _)))))))
  exact Reachable.start.parent hsteps rfl

/-- The state after one connection has been served, when every write succeeds. -/
def Sys.served (conn : Connection) : Sys :=
  let (tr, out) := Prog.play kindAnswer (respondClient conn.env conn.flux)
  ⟨(touchAll servedOnce tr).getD servedOnce, firstRound conn, .ret (),
    [⟨conn, tr, Prog.finished out⟩]⟩

theorem reachable_served {conn : Connection}
    (h : (touchAll servedOnce
      (Prog.play kindAnswer (respondClient conn.env conn.flux)).1).isSome) :
    Reachable (.served conn) := by
  obtain ⟨m, hm⟩ := Option.isSome_iff_exists.mp h
  have hruns := (Prog.play_runs kindAnswer (respondClient conn.env conn.flux)).steps
  have hstart : Reachable ⟨servedOnce, firstRound conn, .ret (),
      [] ++ ⟨conn, [], respondClient conn.env conn.flux⟩ :: []⟩ := reachable_firstRound conn
  have hchild := hstart.child hruns hm
  simp only [Sys.served, hm]
  exact hchild

/-- A connection that asks for a page. -/
def pageConnection : Connection where
  env := machine siteFile [("/w/x.html", "hi")]
  flux := some "GET /x.html HTTP/1.1\r\nHost: a\r\n\r\n".toList

theorem reachable_served_page : Reachable (.served pageConnection) :=
  reachable_served (by decide +kernel)

end Pawnee
