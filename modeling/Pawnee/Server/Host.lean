import Pawnee.Foundation.Notices
import Pawnee.Foundation.SharedFiles
import Pawnee.Server.Progress

/-!
# The processes on their host

`Sys` is what the processes do to each other through the shared memory.  A `Host` is
that and what the kernel and the C library keep for them: which processes have
exited, what is still in their output buffers, what has been appended to the log files
and to `stdout`, and how far the parent has come with `SIGCHLD`.

The logs are opened before the first fork, so every child has buffers of its own for
the same files, and starts with a copy of what the parent has in them.  `exit` writes
the buffers out.  A fault is taken to end a process by a signal: its buffers are lost.

The end of a child raises `SIGCHLD`.  Signals that are raised while the signal is
pending or blocked are one signal, and it is blocked while `child_handler` runs
(`Notices`).  Until the handler has returned the parent does nothing else.

Nothing of this changes what the processes do: a host goes through the states of a
server (`HostReachable.sys`), and wherever the server can go its host can follow
(`Host.follow`).
-/

namespace Pawnee

open CText Effects

/-! ## Streams -/

/-- The output streams that processes share. -/
inductive Channel where
  /-- `requests.log`. -/
  | requests
  /-- `errors.log`. -/
  | errors
  | stdout
deriving DecidableEq, Repr

/-- A process of the server. -/
inductive Process where
  | parent
  /-- The child of the `i`-th fork that succeeded. -/
  | child (i : Nat)
deriving DecidableEq, Repr

theorem Process.parent_ne_child (i : Nat) : Process.parent ≠ .child i := nofun

theorem Process.child_ne_parent (i : Nat) : Process.child i ≠ .parent := nofun

theorem Process.child_ne {i j : Nat} (h : i ≠ j) : Process.child i ≠ .child j := by simpa using h

/-- What a call puts into a stream. -/
def Call.text (time : Tm) : Channel → Call → Str
  | .requests, .logRequest entry => entry.text
  | .errors, .logError error => errorText time error
  | _, _ => []

/-- What the calls of a process put into a stream. -/
def texts (time : Tm) (ch : Channel) (tr : List ServerEvent) : Str :=
  tr.flatMap fun ev => ev.1.text time ch

theorem texts_append (time : Tm) (ch : Channel) (tr tr' : List ServerEvent) :
    texts time ch (tr ++ tr') = texts time ch tr ++ texts time ch tr' := List.flatMap_append

@[simp] theorem texts_singleton (time : Tm) (ch : Channel) (ev : ServerEvent) :
    texts time ch [ev] = ev.1.text time ch := by simp [texts]

/-- What is settled before the loop of `main`. -/
structure Boot where
  /-- How much an output buffer holds. -/
  cap : Nat
  /-- What the `printf` of `main` has left in the buffer of `stdout`: nothing if that is
  a terminal, which is written to line by line. -/
  greeting : Str
  greeting_fits : greeting.length ≤ cap
  /-- The time on the lines of the parent.  It writes one at most. -/
  time : Tm

/-- What the parent has in its buffers before the loop. -/
def Boot.initial (boot : Boot) : Channel → Str
  | .stdout => boot.greeting
  | _ => []

theorem Boot.initial_fits (boot : Boot) (ch : Channel) : (boot.initial ch).length ≤ boot.cap := by
  cases ch with
  | stdout => exact boot.greeting_fits
  | requests | errors => exact Nat.zero_le _

/-! ## States -/

/-- The buffers and files of the server. -/
abbrev Output := SharedFiles.Files Process Channel Char

/-- The server and what its host keeps for it. -/
structure Host where
  sys : Sys
  output : Output
  /-- `SIGCHLD`, the children that can be waited for, and where `child_handler` is. -/
  notices : Notices.State Nat

/-- The host before the first round. -/
def Host.start (boot : Boot) : Host := ⟨.start, .start .parent boot.initial, .start⟩

/-- The child has ended and has not been waited for. -/
def Host.Zombie (h : Host) (i : Nat) : Prop := i ∈ h.notices.waiting

/-! ## Steps -/

/-- What a call of the parent does to the output, when there are `n` children. -/
def Boot.parentCall (boot : Boot) (n : Nat) (output : Output) : ServerEvent → Output
  | ⟨.fork _, true⟩ => output.fork .parent (.child n)
  | ev => output.put .parent fun ch => ev.1.text boot.time ch

/-- A process ends. -/
def Halt.leave (output : Output) (p : Process) : Halt → Output
  | .exitSuccess | .exitFailure => output.exit p
  | .fault _ => output.kill p

/-- One step of the host. -/
inductive HostStep (boot : Boot) : Host → Host → Prop
  | parent {m m' : SharedMemory} {done : List ServerEvent} {e : Call} {k : Answer e → Server Unit}
      {children : List Child} {output : Output} {notices : Notices.State Nat} (r : Answer e) :
      touch m ⟨e, r⟩ = some m' → notices.phase = .idle →
      HostStep boot ⟨⟨m, done, .op e k, children⟩, output, notices⟩
        ⟨⟨m', done ++ [⟨e, r⟩], k r, children ++ started ⟨e, r⟩⟩,
          boot.parentCall children.length output ⟨e, r⟩, notices⟩
  | again {m : SharedMemory} {done : List ServerEvent} {children : List Child} {output : Output}
      {notices : Notices.State Nat} : notices.phase = .idle →
      HostStep boot ⟨⟨m, done, .ret (), children⟩, output, notices⟩
        ⟨⟨m, done, serveOne, children⟩, output, notices⟩
  | child {m m' : SharedMemory} {done done' : List ServerEvent} {parent : Server Unit} {e : Call}
      {k : Answer e → Server Unit} {conn : Connection} {pre post : List Child} {output : Output}
      {notices : Notices.State Nat} (r : Answer e) : touch m ⟨e, r⟩ = some m' →
      HostStep boot ⟨⟨m, done, parent, pre ++ ⟨conn, done', .op e k⟩ :: post⟩, output, notices⟩
        ⟨⟨m', done, parent, pre ++ ⟨conn, done' ++ [⟨e, r⟩], k r⟩ :: post⟩,
          output.put (.child pre.length) fun ch => e.text conn.env.actualTime ch, notices⟩
  /-- A full buffer is written out in part. -/
  | spill {h : Host} {p : Process} {ch : Channel} (n : Nat) : h.output.life p = .running →
      boot.cap < (h.output.buffer p ch).length →
      HostStep boot h { h with output := h.output.spill p ch n }
  | parentEnds {h : Host} {halt : Halt} : h.sys.parent = .stop halt →
      h.output.life .parent = .running → h.notices.phase = .idle →
      HostStep boot h { h with output := halt.leave h.output .parent }
  /-- The end of a child raises `SIGCHLD`. -/
  | childEnds {h : Host} {i : Nat} {c : Child} {halt : Halt} : h.sys.children[i]? = some c →
      c.prog = .stop halt → h.output.life (.child i) = .running →
      HostStep boot h
        { h with output := halt.leave h.output (.child i), notices := h.notices.arrive i }
  /-- One step of `child_handler`: it is called, `waitpid` returns a child or none, or it
  returns. -/
  | signal {h : Host} {notices : Notices.State Nat} : h.output.life .parent = .running →
      Notices.Handling h.notices notices → HostStep boot h { h with notices := notices }

/-- The states of all runs of a host. -/
inductive HostReachable (boot : Boot) : Host → Prop
  | start : HostReachable boot (.start boot)
  | step {h h' : Host} : HostReachable boot h → HostStep boot h h' → HostReachable boot h'

section

variable {boot : Boot} {h h' : Host}

/-- The server makes a step of its own, or none. -/
theorem HostStep.sys (hstep : HostStep boot h h') : h'.sys = h.sys ∨ Step h.sys h'.sys := by
  cases hstep with
  | parent r ht _ => exact .inr (.parent r ht)
  | again _ => exact .inr .again
  | child r ht => exact .inr (.child r ht)
  | spill | parentEnds | childEnds | signal => exact .inl rfl

/-- The server in a host goes through states of the server. -/
theorem HostReachable.sys (hh : HostReachable boot h) : Reachable h.sys := by
  induction hh with
  | start => exact .start
  | step _ hstep ih =>
      rcases hstep.sys with heq | hsys
      · exact heq ▸ ih
      · exact ih.step hsys

end

/-! ## The parent before a fork -/

/-- A call that puts nothing into any stream. -/
def Wordless (ev : ServerEvent) : Prop := ∀ time ch, ev.1.text time ch = []

theorem texts_of_wordless {tr : List ServerEvent} (h : ∀ ev ∈ tr, Wordless ev) (time : Tm)
    (ch : Channel) : texts time ch tr = [] :=
  List.flatMap_eq_nil_iff.mpr fun ev hev => h ev hev time ch

theorem wordless_roundEvents (conn : Connection) (v : Int32) :
    ∀ ev ∈ roundEvents conn v, Wordless ev := by
  intro ev hev time ch
  simp only [roundEvents, countEvents, List.mem_cons, List.not_mem_nil, or_false] at hev
  rcases hev with rfl | rfl | rfl | rfl | rfl | rfl <;> cases ch <;> rfl

/-- A round with a fork that succeeds has no words. -/
theorem RoundRun.wordless {tr : List ServerEvent} {out : Except Halt Unit} (h : RoundRun tr out)
    (conn : Connection) (hfork : (⟨.fork conn, true⟩ : ServerEvent) ∈ tr) :
    ∀ ev ∈ tr, Wordless ev := by
  cases h with
  | noClient => simp at hfork
  | noName conn' => simp at hfork
  | noFork conn' v =>
      simp [roundEvents, countEvents] at hfork
  | forked conn' v =>
      intro ev hev
      rcases List.mem_append.mp hev with hev | hev
      · exact wordless_roundEvents _ _ ev hev
      · obtain rfl := List.mem_singleton.mp hev
        intro time ch
        cases ch <;> rfl

/-- What the parent has done before a fork has no words. -/
theorem Sys.Sound.wordless {s : Sys} (h : s.Sound) {conn : Connection}
    {k : Answer (.fork conn) → Server Unit} (hfork : s.parent = .op (.fork conn) k) :
    ∀ ev ∈ s.done, Wordless ev := by
  obtain ⟨rounds, cur, hdone, hrounds, hcur⟩ := h.parent.split
  rw [hfork] at hcur
  obtain ⟨tr, out, hruns⟩ := Prog.Steps.complete (hcur.snoc true)
  intro ev hev
  rw [hdone] at hev
  rcases List.mem_append.mp hev with hev | hev
  · obtain ⟨round, hround, hev⟩ := List.mem_flatten.mp hev
    obtain ⟨a, hruns⟩ := hrounds round hround
    cases runs_serveOne hruns with
    | forked conn' v => exact (RoundRun.forked conn' v).wordless conn' (by simp) ev hev
  · exact (runs_serveOne hruns).wordless conn (by simp) ev (by simp [hev])

/-! ## What has been given to the streams -/

theorem getElem?_snoc {α : Type} {l : List α} {x y : α} {i : Nat} (h : (l ++ [x])[i]? = some y) :
    (i < l.length ∧ l[i]? = some y) ∨ (i = l.length ∧ y = x) := by
  rcases Nat.lt_trichotomy i l.length with hlt | rfl | hgt
  · rw [List.getElem?_append_left hlt] at h
    exact .inl ⟨hlt, h⟩
  · rw [List.getElem?_concat_length] at h
    exact .inr ⟨rfl, (Option.some.inj h).symm⟩
  · rw [List.getElem?_eq_none (by rw [List.length_append, List.length_singleton]; omega)] at h
    cases h

/-- What ties the output of a host to its server. -/
structure Tied (boot : Boot) (s : Sys) (o : Output) : Prop where
  output : SharedFiles.Sound boot.cap o
  /-- The parent has put the words of its calls behind what it had before the loop. -/
  parent_given : ∀ ch, o.given .parent ch = boot.initial ch ++ texts boot.time ch s.done
  /-- A child starts with what the parent had before the loop. -/
  child_given : ∀ i c, s.children[i]? = some c → ∀ ch,
    o.given (.child i) ch = boot.initial ch ++ texts c.conn.env.actualTime ch c.done
  unborn : ∀ i, o.life (.child i) = .unborn ↔ s.children.length ≤ i
  parent_ended : o.life .parent ≠ .running → ∃ halt, s.parent = .stop halt
  child_exited : ∀ i c, s.children[i]? = some c → o.life (.child i) = .exited →
    c.prog = .stop .exitSuccess ∨ c.prog = .stop .exitFailure
  child_killed : ∀ i c, s.children[i]? = some c → o.life (.child i) = .killed →
    ∃ f, c.prog = .stop (.fault f)

section

variable {boot : Boot} {s : Sys} {o : Output}

/-- A parent with something to do is running. -/
theorem Tied.parent_runs (h : Tied boot s o) {e : Call} {k : Answer e → Server Unit}
    (hop : s.parent = .op e k) : o.life .parent = .running := by
  by_contra hne
  obtain ⟨halt, hstop⟩ := h.parent_ended hne
  rw [hop] at hstop
  cases hstop

/-- A child with something to do is running. -/
theorem Tied.child_runs (h : Tied boot s o) {i : Nat} {c : Child} (hc : s.children[i]? = some c)
    {e : Call} {k : Answer e → Server Unit} (hop : c.prog = .op e k) :
    o.life (.child i) = .running := by
  cases hlife : o.life (.child i) with
  | running => rfl
  | unborn =>
      have hlt := (List.getElem?_eq_some_iff.mp hc).1
      exact absurd ((h.unborn i).mp hlife) (Nat.not_le.mpr hlt)
  | exited =>
      rcases h.child_exited i c hc hlife with hstop | hstop <;> rw [hop] at hstop <;> cases hstop
  | killed =>
      obtain ⟨f, hstop⟩ := h.child_killed i c hc hlife
      rw [hop] at hstop
      cases hstop

theorem tied_start : Tied boot .start (.start .parent boot.initial) := by
  have hnone : ∀ {i : Nat} {c : Child}, Sys.start.children[i]? ≠ some c := fun hc =>
    absurd (List.mem_of_getElem? hc) List.not_mem_nil
  refine ⟨SharedFiles.Files.start_sound _ _, fun ch => ?_, fun i c hc => (hnone hc).elim,
    fun i => ⟨fun _ => Nat.zero_le i, fun _ => rfl⟩, fun hne => absurd rfl hne,
    fun i c hc => (hnone hc).elim, fun i c hc => (hnone hc).elim⟩
  exact (List.append_nil _).symm

/-- The parent makes a call that is no fork. -/
theorem Tied.parent_put (h : Tied boot s o) {ev : ServerEvent} {m : SharedMemory}
    {p : Server Unit} (hrun : o.life .parent = .running) :
    Tied boot ⟨m, s.done ++ [ev], p, s.children⟩ (o.put .parent fun ch => ev.1.text boot.time ch)
    where
  output := h.output.put hrun _
  parent_given := fun ch => by
    simp [SharedFiles.Files.put, h.parent_given, texts_append]
  child_given := h.child_given
  unborn := h.unborn
  parent_ended := fun hne => absurd hrun hne
  child_exited := h.child_exited
  child_killed := h.child_killed

/-- The parent forks. -/
theorem Tied.parent_fork (h : Tied boot s o) (hquiet : ∀ ev ∈ s.done, Wordless ev)
    {conn : Connection} {m : SharedMemory} {p : Server Unit} (hrun : o.life .parent = .running) :
    Tied boot ⟨m, s.done ++ [⟨.fork conn, true⟩], p, s.children ++ [.start conn]⟩
      (o.fork .parent (.child s.children.length)) := by
  have hunborn : o.life (.child s.children.length) = .unborn := (h.unborn _).mpr (Nat.le_refl _)
  have hgiven : ∀ ch, o.given .parent ch = boot.initial ch := fun ch => by
    rw [h.parent_given, texts_of_wordless hquiet, List.append_nil]
  have hbuffer : ∀ ch, o.buffer .parent ch = boot.initial ch := fun ch => by
    rw [(h.output.running hrun ch).buffer_eq (by rw [hgiven]; exact boot.initial_fits ch), hgiven]
  refine ⟨h.output.fork hunborn, fun ch => ?_, fun i c hc ch => ?_, fun i => ?_, fun hne => ?_,
    fun i c hc hlife => ?_, fun i c hc hlife => ?_⟩
  · have hfork : Wordless ⟨.fork conn, true⟩ := fun time ch => by cases ch <;> rfl
    rw [texts_append, texts_singleton, hfork, List.append_nil, ← h.parent_given,
      o.fork_given_of_ne (Process.parent_ne_child _)]
  · rcases getElem?_snoc hc with ⟨hi, hc⟩ | ⟨rfl, rfl⟩
    · rw [o.fork_given_of_ne (Process.child_ne (Nat.ne_of_lt hi)), h.child_given i c hc]
    · rw [o.fork_given_self, hbuffer]
      exact (List.append_nil _).symm
  · rw [List.length_append, List.length_singleton]
    by_cases hi : i = s.children.length
    · subst hi
      rw [o.fork_life_self]
      exact iff_of_false nofun (by omega)
    · rw [o.fork_life_of_ne (Process.child_ne hi), h.unborn]
      omega
  · rw [o.fork_life_of_ne (Process.parent_ne_child _)] at hne
    exact absurd hrun hne
  · rcases getElem?_snoc hc with ⟨hi, hc⟩ | ⟨rfl, rfl⟩
    · rw [o.fork_life_of_ne (Process.child_ne (Nat.ne_of_lt hi))] at hlife
      exact h.child_exited i c hc hlife
    · rw [o.fork_life_self] at hlife
      cases hlife
  · rcases getElem?_snoc hc with ⟨hi, hc⟩ | ⟨rfl, rfl⟩
    · rw [o.fork_life_of_ne (Process.child_ne (Nat.ne_of_lt hi))] at hlife
      exact h.child_killed i c hc hlife
    · rw [o.fork_life_self] at hlife
      cases hlife

/-- A child makes a call. -/
theorem Tied.child_put {m m' : SharedMemory} {done : List ServerEvent} {parent : Server Unit}
    {pre post : List Child} {c : Child} {p : Server Unit}
    (h : Tied boot ⟨m, done, parent, pre ++ c :: post⟩ o) (ev : ServerEvent)
    (hrun : o.life (.child pre.length) = .running) :
    Tied boot ⟨m', done, parent, pre ++ ⟨c.conn, c.done ++ [ev], p⟩ :: post⟩
      (o.put (.child pre.length) fun ch => ev.1.text c.conn.env.actualTime ch) := by
  have hnew : ∀ {x : Child} {d : Child}, (pre ++ x :: post)[pre.length]? = some d → d = x := by
    intro x d hd
    simpa using hd.symm
  refine ⟨h.output.put hrun _, fun ch => ?_, fun i d hd ch => ?_, fun i => ?_, h.parent_ended,
    fun i d hd hlife => ?_, fun i d hd hlife => ?_⟩
  · rw [o.put_given_of_ne (Process.parent_ne_child _)]
    exact h.parent_given ch
  · by_cases hi : i = pre.length
    · subst hi
      obtain rfl := hnew hd
      rw [o.put_given_self, h.child_given _ _ getElem?_middle_self, texts_append, texts_singleton,
        List.append_assoc]
    · rw [o.put_given_of_ne (Process.child_ne hi)]
      exact h.child_given i d ((getElem?_middle hi).trans hd) ch
  · have hlen := h.unborn i
    simp only [List.length_append, List.length_cons] at hlen ⊢
    exact hlen
  · by_cases hi : i = pre.length
    · subst hi
      rw [show o.life (.child pre.length) = .exited from hlife] at hrun
      cases hrun
    · exact h.child_exited i d ((getElem?_middle hi).trans hd) hlife
  · by_cases hi : i = pre.length
    · subst hi
      rw [show o.life (.child pre.length) = .killed from hlife] at hrun
      cases hrun
    · exact h.child_killed i d ((getElem?_middle hi).trans hd) hlife

theorem Tied.spill (h : Tied boot s o) {p : Process} {ch : Channel} (n : Nat)
    (hrun : o.life p = .running) (hfull : boot.cap < (o.buffer p ch).length) :
    Tied boot s (o.spill p ch n) :=
  { h with output := h.output.spill n hrun hfull }

/-! ## Ends -/

section

variable {p q : Process} {halt : Halt}

theorem sound_leave (h : SharedFiles.Sound boot.cap o) (hrun : o.life p = .running) :
    SharedFiles.Sound boot.cap (halt.leave o p) := by
  cases halt with
  | exitSuccess | exitFailure => exact h.exit hrun
  | fault f => exact h.kill hrun

@[simp] theorem leave_given : (halt.leave o p).given = o.given := by
  cases halt <;> rfl

theorem leave_life_of_ne (h : q ≠ p) : (halt.leave o p).life q = o.life q := by
  cases halt with
  | exitSuccess | exitFailure => exact o.exit_life_of_ne h
  | fault f => exact o.kill_life_of_ne h

theorem leave_life_self (o : Output) (p : Process) (halt : Halt) :
    ((halt.leave o p).life p = .exited ∧ (halt = .exitSuccess ∨ halt = .exitFailure)) ∨
      ((halt.leave o p).life p = .killed ∧ ∃ f, halt = .fault f) := by
  cases halt with
  | exitSuccess => exact .inl ⟨o.exit_life_self, .inl rfl⟩
  | exitFailure => exact .inl ⟨o.exit_life_self, .inr rfl⟩
  | fault f => exact .inr ⟨o.kill_life_self, f, rfl⟩

theorem Tied.parent_leave (h : Tied boot s o) (hstop : s.parent = .stop halt)
    (hrun : o.life .parent = .running) : Tied boot s (halt.leave o .parent) := by
  have hlife : ∀ i, (halt.leave o .parent).life (.child i) = o.life (.child i) := fun i =>
    leave_life_of_ne (Process.child_ne_parent i)
  refine ⟨sound_leave h.output hrun, ?_, ?_, fun i => ?_, fun _ => ⟨halt, hstop⟩, fun i c hc => ?_,
    fun i c hc => ?_⟩
  · rw [leave_given]
    exact h.parent_given
  · rw [leave_given]
    exact h.child_given
  · rw [hlife, h.unborn]
  · rw [hlife]
    exact h.child_exited i c hc
  · rw [hlife]
    exact h.child_killed i c hc

theorem Tied.child_leave (h : Tied boot s o) {i : Nat} {c : Child} (hc : s.children[i]? = some c)
    (hstop : c.prog = .stop halt) (hrun : o.life (.child i) = .running) :
    Tied boot s (halt.leave o (.child i)) := by
  have hlt := (List.getElem?_eq_some_iff.mp hc).1
  refine ⟨sound_leave h.output hrun, ?_, ?_, fun j => ?_, fun hne => ?_, fun j d hd hlife => ?_,
    fun j d hd hlife => ?_⟩
  · rw [leave_given]
    exact h.parent_given
  · rw [leave_given]
    exact h.child_given
  · by_cases hj : j = i
    · subst hj
      have hborn : (halt.leave o (.child j)).life (.child j) ≠ .unborn := by
        rcases leave_life_self o (.child j) halt with ⟨hl, -⟩ | ⟨hl, -⟩ <;> rw [hl] <;> decide
      exact iff_of_false hborn (Nat.not_le.mpr hlt)
    · rw [leave_life_of_ne (Process.child_ne hj), h.unborn]
  · rw [leave_life_of_ne (Process.parent_ne_child i)] at hne
    exact h.parent_ended hne
  · by_cases hj : j = i
    · subst hj
      obtain rfl := Option.some.inj (hc.symm.trans hd)
      rcases leave_life_self o (.child j) halt with ⟨-, hhalt⟩ | ⟨hl, -⟩
      · rcases hhalt with rfl | rfl
        · exact .inl hstop
        · exact .inr hstop
      · rw [hl] at hlife
        cases hlife
    · rw [leave_life_of_ne (Process.child_ne hj)] at hlife
      exact h.child_exited j d hd hlife
  · by_cases hj : j = i
    · subst hj
      obtain rfl := Option.some.inj (hc.symm.trans hd)
      rcases leave_life_self o (.child j) halt with ⟨hl, -⟩ | ⟨-, f, rfl⟩
      · rw [hl] at hlife
        cases hlife
      · exact ⟨f, hstop⟩
    · rw [leave_life_of_ne (Process.child_ne hj)] at hlife
      exact h.child_killed j d hd hlife

end

/-! ## Every run -/

theorem started_of_ne {ev : ServerEvent} (h : ∀ conn, ev ≠ ⟨.fork conn, true⟩) :
    started ev = [] := by
  unfold started
  split
  · exact absurd rfl (h _)
  · rfl

theorem parentCall_of_ne (n : Nat) {ev : ServerEvent} (h : ∀ conn, ev ≠ ⟨.fork conn, true⟩) :
    boot.parentCall n o ev = o.put .parent fun ch => ev.1.text boot.time ch := by
  unfold Boot.parentCall
  split
  · exact absurd rfl (h _)
  · rfl

/-- A call of the parent. -/
theorem Tied.parent_call (h : Tied boot s o) (hsound : s.Sound) {e : Call}
    {k : Answer e → Server Unit} (hop : s.parent = .op e k) (r : Answer e) (m : SharedMemory)
    (p : Server Unit) :
    Tied boot ⟨m, s.done ++ [⟨e, r⟩], p, s.children ++ started ⟨e, r⟩⟩
      (boot.parentCall s.children.length o ⟨e, r⟩) := by
  have hrun := h.parent_runs hop
  by_cases hfork : ∃ conn, (⟨e, r⟩ : ServerEvent) = ⟨.fork conn, true⟩
  · obtain ⟨conn, heq⟩ := hfork
    cases heq
    exact h.parent_fork (hsound.wordless hop) hrun
  · have hne : ∀ conn, (⟨e, r⟩ : ServerEvent) ≠ ⟨.fork conn, true⟩ := not_exists.mp hfork
    rw [started_of_ne hne, parentCall_of_ne _ hne, List.append_nil]
    exact h.parent_put hrun

theorem HostStep.tied {h h' : Host} (hstep : HostStep boot h h') (hs : h.sys.Sound)
    (ht : Tied boot h.sys h.output) : Tied boot h'.sys h'.output := by
  cases hstep with
  | parent r _ _ => exact ht.parent_call hs rfl r _ _
  | again _ =>
      refine { ht with parent_ended := fun hne => ?_ }
      obtain ⟨halt, hstop⟩ := ht.parent_ended hne
      cases hstop
  | @child _ _ _ _ _ e _ _ _ _ _ _ r _ =>
      exact ht.child_put ⟨e, r⟩ (ht.child_runs getElem?_middle_self rfl)
  | spill n hrun hfull => exact ht.spill n hrun hfull
  | parentEnds hstop hrun _ => exact ht.parent_leave hstop hrun
  | childEnds hc hstop hrun => exact ht.child_leave hc hstop hrun
  | signal _ _ => exact ht

theorem HostReachable.tied {h : Host} (hh : HostReachable boot h) : Tied boot h.sys h.output := by
  induction hh with
  | start => exact tied_start
  | step hh hstep ih => exact hstep.tied hh.sys.sound ih

theorem parentCall_life (n : Nat) (ev : ServerEvent) :
    (boot.parentCall n o ev).life .parent = o.life .parent := by
  unfold Boot.parentCall
  split
  · exact o.fork_life_of_ne (Process.parent_ne_child n)
  · rfl

theorem parentCall_order (n : Nat) (ev : ServerEvent) :
    (boot.parentCall n o ev).order = o.order := by
  unfold Boot.parentCall
  split <;> rfl

/-- The server has made steps in the host, and nothing else has happened. -/
structure Host.Follows (h h' : Host) (s : Sys) : Prop where
  sys : h'.sys = s
  notices : h'.notices = h.notices
  life : h'.output.life .parent = h.output.life .parent
  order : h'.output.order = h.output.order

/-- While the handler is not running, the host can do what the server can do. -/
theorem Host.follow (boot : Boot) {h : Host} (hidle : h.notices.phase = .idle) {s : Sys}
    (hstep : Step h.sys s) : ∃ h', HostStep boot h h' ∧ h.Follows h' s := by
  obtain ⟨sys, output, notices⟩ := h
  cases hstep with
  | parent r ht =>
      exact ⟨_, .parent r ht hidle, rfl, rfl, parentCall_life _ _, parentCall_order _ _⟩
  | again => exact ⟨_, .again hidle, rfl, rfl, rfl, rfl⟩
  | child r ht => exact ⟨_, .child r ht, rfl, rfl, rfl, rfl⟩

end

end Pawnee
