import Pawnee.Server.Isolation
import Pawnee.Server.LoggedRequests

/-!
# The order of the steps does not matter

Which process makes the next step, which values it finds in the counters, and what
`write` answers: all this is open.  What the connections come to is not.  A child that
has ended has shown what its connection makes it show (`Child.Sound.result_eq`), so two
runs that have forked children for the same connections, in any order, have sent and
logged the same and hold the same counts when all children have ended (`order_free`).

Only the page with the counters can differ, where that is the response.
-/

namespace Pawnee

open CText Effects

/-- The calls that do not depend on the counters: all outside the shared memory, but for
the body of the stats page. -/
def Ending.settledCall : Ending → Call → Option Call
  | .calls _ _ => privateCall
  | .statsPage _ => headCall

theorem Ending.ignoresCounts_settledCall (ending : Ending) : IgnoresCounts ending.settledCall := by
  cases ending with
  | calls l halt => exact ignoresCounts_privateCall
  | statsPage q => exact ignoresCounts_headCall

theorem Ending.ignoresPage_settledCall (ending : Ending) :
    IgnoresPage ending.settledCall ending := by
  rintro q rfl data
  rfl

theorem Ending.settledCall_store (ending : Ending) (k : Counter) (v : Int32) :
    ending.settledCall (.store k v) = none := by
  cases ending <;> rfl

/-- How the response to a connection ends. -/
def Connection.ending (conn : Connection) : Ending := (course conn.env conn.flux).ending

/-- What a child has come to: its connection, its calls, its log lines, and where it
stands. -/
structure Result where
  conn : Connection
  calls : List Call
  lines : List LogEntry
  prog : Server Unit

/-- What a child has come to so far. -/
def Child.result (c : Child) : Result where
  conn := c.conn
  calls := observed c.conn.ending.settledCall c.done
  lines := logLines c.done
  prog := c.prog

/-- What a connection comes to. -/
def Connection.result (conn : Connection) : Result where
  conn := conn
  calls := (course conn.env conn.flux).before.filterMap conn.ending.settledCall ++
    (conn.ending.lead conn.env).filterMap conn.ending.settledCall
  lines := (course conn.env conn.flux).before.filterMap loggedEntry
  prog := .stop conn.ending.halt

/-- A child that has ended has come to what its connection comes to. -/
theorem Child.Sound.result_eq {c : Child} (h : c.Sound) (hended : c.Ended) :
    c.result = c.conn.result := by
  have hcalls := (h.observed_prefix c.conn.ending.ignoresCounts_settledCall
    c.conn.ending.settledCall_store c.conn.ending.ignoresPage_settledCall).2 hended
  obtain ⟨halt, hruns⟩ := h.runs hended
  rw [Child.result, Connection.result, hcalls, logLines_of_runs hruns, h.prog_eq hended]
  rfl

theorem Sys.Sound.results_eq {s : Sys} (h : s.Sound) (hended : ∀ c ∈ s.children, c.Ended) :
    s.children.map Child.result = (s.children.map Child.conn).map Connection.result := by
  rw [List.map_map]
  exact List.map_congr_left fun c hc => (h.child c hc).result_eq (hended c hc)

/-- The lines of all children, in terms of what they have come to. -/
theorem Sys.logLines_eq (s : Sys) :
    s.logLines = (s.children.map Child.result).flatMap Result.lines := by
  rw [List.flatMap_map]
  rfl

/-- The counters when all children have ended. -/
theorem Reachable.read_of_ended {s : Sys} (hs : Reachable s) (hended : ∀ c ∈ s.children, c.Ended)
    (hlt : (accepted s.done).length < 2147483648) {k : Counter} (hk : k ≠ .servedConnections) :
    s.read k = s.logLines.countP (LogEntry.countsFor k) := by
  rw [hs.read_eq (hs.total_lt hlt k), hs.sound.total_children hk]
  exact congrArg Nat.cast (increments_eq_logged hs.sound.child hended k)

/-- Two runs that have forked children for the same connections, in whatever order and
with whatever steps in between, have come to the same when all children have ended: the
same calls with the same bytes given to `write` (but for the body of a stats page), the same
ways to end, the same lines in the requests log, and the same counts of responses. -/
theorem order_free {s s' : Sys} (hs : Reachable s) (hs' : Reachable s')
    (hended : ∀ c ∈ s.children, c.Ended) (hended' : ∀ c ∈ s'.children, c.Ended)
    (hconns : (s.children.map Child.conn).Perm (s'.children.map Child.conn)) :
    (s.children.map Child.result).Perm (s'.children.map Child.result) ∧
      s.logLines.Perm s'.logLines ∧
      ((accepted s.done).length < 2147483648 → (accepted s'.done).length < 2147483648 →
        ∀ k, k ≠ .servedConnections → s.read k = s'.read k) := by
  have hresults : (s.children.map Child.result).Perm (s'.children.map Child.result) := by
    rw [hs.sound.results_eq hended, hs'.sound.results_eq hended']
    exact hconns.map _
  have hlines : s.logLines.Perm s'.logLines := by
    rw [s.logLines_eq, s'.logLines_eq]
    exact hresults.flatMap_right _
  refine ⟨hresults, hlines, fun hlt hlt' k hk => ?_⟩
  rw [hs.read_of_ended hended hlt hk, hs'.read_of_ended hended' hlt' hk, hlines.countP_eq]

/-! ## A client that hangs up -/

/-- A page comes to the same whether the client takes it or has hung up. -/
theorem order_free_page :
    ((Sys.served pageConnection).children.map Child.result).Perm
        ((Sys.hungUp pageConnection).children.map Child.result) ∧
      (Sys.served pageConnection).logLines.Perm (Sys.hungUp pageConnection).logLines ∧
      ((accepted (Sys.served pageConnection).done).length < 2147483648 →
        (accepted (Sys.hungUp pageConnection).done).length < 2147483648 →
          ∀ k, k ≠ .servedConnections →
            (Sys.served pageConnection).read k = (Sys.hungUp pageConnection).read k) := by
  refine order_free reachable_served_page reachable_hungUp_page (fun c hc => ?_) (fun c hc => ?_)
    (.refl _)
  · obtain rfl := List.mem_singleton.mp hc
    exact ⟨_, rfl⟩
  · obtain rfl := List.mem_singleton.mp hc
    exact ⟨_, rfl⟩

end Pawnee
