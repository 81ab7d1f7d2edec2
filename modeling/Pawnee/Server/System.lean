import Pawnee.Foundation.LockedCounters
import Pawnee.Source.Main

/-!
# The server and its children

The parent runs the loop of `main` and each connection has a child of its own.
All of them share one memory: the semaphore, which starts at one, and the
counters, which start at zero (`init_stats`).

A step is one call of one process, or the parent at the top of its loop.  The
steps of different processes come in any order, so a run of the server is any
interleaving.  `touch` says which calls are possible: a wait only while the
semaphore is positive, and a load only with the value that is there.  All other
answers are arbitrary.

Two things are taken for granted.  The semaphore works between processes, as the code
needs it, though `init_stats` passes 0 for `pshared`.  And no call waits for a client
for ever: the client sends its bytes and takes the response.

Each process keeps the list of its calls.  `Reachable.history` says that these
lists are runs of `serveOne` and of `respondClient`.
-/

namespace Pawnee

open CText Effects LockedCounters

/-! ## States -/

/-- The memory the processes share. -/
abbrev SharedMemory := Memory Counter Int32

/-- A child process. -/
structure Child where
  /-- The connection it serves. -/
  conn : Connection
  /-- The calls it has made. -/
  done : List ServerEvent
  /-- What it has still to do. -/
  prog : Server Unit

/-- A child right after the fork. -/
def Child.start (conn : Connection) : Child := ⟨conn, [], respondClient conn.env conn.flux⟩

/-- The child has ended. -/
def Child.Ended (c : Child) : Prop := ∃ halt, c.prog = .stop halt

/-- The state of the server. -/
structure Sys where
  memory : SharedMemory
  /-- The calls of the parent. -/
  done : List ServerEvent
  /-- What the parent has still to do in this round. -/
  parent : Server Unit
  /-- The children, in the order of their forks. -/
  children : List Child

/-- The memory after `init_stats`. -/
def initStats : SharedMemory := ⟨1, fun _ => 0⟩

/-- The server at the first round. -/
def Sys.start : Sys := ⟨initStats, [], serveOne, []⟩

/-! ## Steps -/

/-- The access of a call to the shared memory. -/
def accessOf : ServerEvent → Option (Access Counter Int32)
  | ⟨.semWait, _⟩ => some .wait
  | ⟨.semPost, _⟩ => some .post
  | ⟨.load c, v⟩ => some (.load c v)
  | ⟨.store c v, _⟩ => some (.store c v)
  | _ => none

/-- The memory after a call, `none` if the call cannot have this answer now.  Any process
can go on from `sem_wait` while the semaphore is positive. -/
def touch (m : SharedMemory) (ev : ServerEvent) : Option SharedMemory :=
  match accessOf ev with
  | none => some m
  | some a => m.perform a

/-- The processes a call starts. -/
def started : ServerEvent → List Child
  | ⟨.fork conn, true⟩ => [.start conn]
  | _ => []

/-- One step of the server. -/
inductive Step : Sys → Sys → Prop
  | parent {m m' : SharedMemory} {done : List ServerEvent} {e : Call} {k : Answer e → Server Unit}
      {children : List Child} (r : Answer e) : touch m ⟨e, r⟩ = some m' →
      Step ⟨m, done, .op e k, children⟩ ⟨m', done ++ [⟨e, r⟩], k r, children ++ started ⟨e, r⟩⟩
  /-- The loop of `main` starts again. -/
  | again {m : SharedMemory} {done : List ServerEvent} {children : List Child} :
      Step ⟨m, done, .ret (), children⟩ ⟨m, done, serveOne, children⟩
  | child {m m' : SharedMemory} {done done' : List ServerEvent} {parent : Server Unit} {e : Call}
      {k : Answer e → Server Unit} {conn : Connection} {pre post : List Child} (r : Answer e) :
      touch m ⟨e, r⟩ = some m' →
      Step ⟨m, done, parent, pre ++ ⟨conn, done', .op e k⟩ :: post⟩
        ⟨m', done, parent, pre ++ ⟨conn, done' ++ [⟨e, r⟩], k r⟩ :: post⟩

/-- The states of all runs of the server. -/
inductive Reachable : Sys → Prop
  | start : Reachable .start
  | step {s s' : Sys} : Reachable s → Step s s' → Reachable s'

/-- The states of a run, the last one first. -/
inductive Run : List Sys → Prop
  | start : Run [.start]
  | step {s s' : Sys} {l : List Sys} : Run (s :: l) → Step s s' → Run (s' :: s :: l)

theorem Run.reachable {l : List Sys} (h : Run l) : ∀ s ∈ l, Reachable s := by
  induction h with
  | start => simpa using Reachable.start
  | step h hstep ih =>
      intro x hx
      rcases List.mem_cons.mp hx with rfl | hx
      · exact (ih _ List.mem_cons_self).step hstep
      · exact ih x hx

theorem Reachable.exists_run {s : Sys} (h : Reachable s) : ∃ l, Run (s :: l) := by
  induction h with
  | start => exact ⟨[], .start⟩
  | step _ hstep ih =>
      obtain ⟨l, hl⟩ := ih
      exact ⟨_, hl.step hstep⟩

/-! ## Histories -/

/-- The calls of the child are a run of `respond_client` so far. -/
def Child.Sound (c : Child) : Prop :=
  Prog.Steps (respondClient c.conn.env c.conn.flux) c.done c.prog

/-- The calls of a child that has ended are a complete run. -/
theorem Child.Sound.runs {c : Child} (h : c.Sound) (hended : c.Ended) :
    ∃ halt, Prog.Runs (respondClient c.conn.env c.conn.flux) c.done (.error halt) := by
  obtain ⟨halt, hstop⟩ := hended
  have hsteps : Prog.Steps (respondClient c.conn.env c.conn.flux) c.done (.stop halt) := hstop ▸ h
  have hruns := hsteps.runs (.stop halt)
  rw [List.append_nil] at hruns
  exact ⟨halt, hruns⟩

theorem Child.start_sound (conn : Connection) : (Child.start conn).Sound := .nil _

/-- What each process has done is a run of its program. -/
structure Sys.Sound (s : Sys) : Prop where
  parent : Prog.Rounds serveOne s.done s.parent
  child : ∀ c ∈ s.children, c.Sound

theorem started_sound (ev : ServerEvent) : ∀ c ∈ started ev, c.Sound := by
  intro c hc
  unfold started at hc
  split at hc
  · rw [List.mem_singleton] at hc
    subst hc
    exact Child.start_sound _
  · cases hc

theorem Step.sound {s s' : Sys} (h : Step s s') (hs : s.Sound) : s'.Sound := by
  cases h with
  | parent r ht =>
      refine ⟨.step r hs.parent, fun c hc => ?_⟩
      rcases List.mem_append.mp hc with hc | hc
      · exact hs.child c hc
      · exact started_sound _ c hc
  | again => exact ⟨.again hs.parent, hs.child⟩
  | child r ht =>
      refine ⟨hs.parent, fun c hc => ?_⟩
      rcases mem_middle hc with rfl | hc
      · have hchild := hs.child _ List.mem_append_cons_self
        exact Prog.Steps.snoc hchild r
      · exact hs.child c (mem_of_mem_sides hc)

/-- In every run the histories are runs of the programs. -/
theorem Reachable.sound {s : Sys} (h : Reachable s) : s.Sound := by
  induction h with
  | start => exact ⟨.start, by simp [Sys.start]⟩
  | step _ hstep ih => exact hstep.sound ih

/-! ## Runs of one process -/

/-- The memory after some calls of one process alone. -/
def touchAll (m : SharedMemory) (tr : List ServerEvent) : Option SharedMemory := tr.foldlM touch m

/-- A parent that runs alone. -/
theorem Reachable.parent {m m' : SharedMemory} {done tr : List ServerEvent} {p q : Server Unit}
    {children : List Child} (hs : Reachable ⟨m, done, p, children⟩) (hp : Prog.Steps p tr q)
    (ht : touchAll m tr = some m') :
    Reachable ⟨m', done ++ tr, q, children ++ tr.flatMap started⟩ := by
  induction hp generalizing m done children with
  | nil p =>
      cases ht
      simpa using hs
  | @cons e k r tr q _ ih =>
      simp only [touchAll, List.foldlM_cons, Option.bind_eq_bind, Option.bind_eq_some_iff] at ht
      obtain ⟨m₁, h₁, ht⟩ := ht
      have := ih (hs.step (.parent r h₁)) ht
      simpa using this

/-- A child that runs alone. -/
theorem Reachable.child {m m' : SharedMemory} {done done' tr : List ServerEvent}
    {parent p q : Server Unit} {conn : Connection} {pre post : List Child}
    (hs : Reachable ⟨m, done, parent, pre ++ ⟨conn, done', p⟩ :: post⟩) (hp : Prog.Steps p tr q)
    (ht : touchAll m tr = some m') :
    Reachable ⟨m', done, parent, pre ++ ⟨conn, done' ++ tr, q⟩ :: post⟩ := by
  induction hp generalizing m done' with
  | nil p =>
      cases ht
      rwa [List.append_nil]
  | @cons e k r tr q _ ih =>
      simp only [touchAll, List.foldlM_cons, Option.bind_eq_bind, Option.bind_eq_some_iff] at ht
      obtain ⟨m₁, h₁, ht⟩ := ht
      have := ih (hs.step (.child r h₁)) ht
      rwa [List.append_assoc] at this

end Pawnee
