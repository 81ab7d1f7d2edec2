import Pawnee.Child.PartialWrites
import Pawnee.Server.Histories

/-!
# Children do not see each other

All a child does is decided by its connection, but for what it reads and writes in
the shared memory and for the stats page.  The files it opens, the lines it logs,
the bytes it sends and the way it ends are the same in every run of the server,
whatever the other processes do in between (`isolated`).

The result speaks about two runs.  Each of them is compared with the course of the
connection (`Child.Sound.observed_prefix`).
-/

namespace Pawnee

open CText Effects

/-! ## One run -/

/-- At any point a child shows a part of what its course shows, and all of it when it
has ended. -/
theorem Child.Sound.observed_prefix {β : Type} {f : Call → Option β} (hf : IgnoresCounts f)
    (hstore : ∀ k v, f (.store k v) = none) {c : Child} (h : c.Sound)
    (hpage : IgnoresPage f (course c.conn.env c.conn.flux).ending) :
    observed f c.done <+: (course c.conn.env c.conn.flux).before.filterMap f ++
        ((course c.conn.env c.conn.flux).ending.lead c.conn.env).filterMap f ∧
      (c.Ended → observed f c.done = (course c.conn.env c.conn.flux).before.filterMap f ++
        ((course c.conn.env c.conn.flux).ending.lead c.conn.env).filterMap f) := by
  constructor
  · obtain ⟨tr, out, hruns⟩ := Prog.Steps.complete h
    rw [respondClient_eq] at hruns
    rw [← observed_course_of_store hf hstore hpage hruns, observed_append]
    exact List.prefix_append _ _
  · intro hended
    obtain ⟨halt, hruns⟩ := h.runs hended
    rw [respondClient_eq] at hruns
    exact observed_course_of_store hf hstore hpage hruns

/-! ## Two runs -/

/-- A call outside the shared memory. -/
def privateCall : Call → Option Call
  | .semWait | .semPost | .load _ | .store _ _ => none
  | e => some e

/-- A call outside the shared memory that sends no body. -/
def headCall : Call → Option Call
  | .write .body _ => none
  | e => privateCall e

theorem ignoresCounts_privateCall : IgnoresCounts privateCall := ⟨rfl, rfl, fun _ => rfl⟩

theorem ignoresCounts_headCall : IgnoresCounts headCall := ⟨rfl, rfl, fun _ => rfl⟩

/-- Two children of one connection, in one run or in two, show the same as far as both
have come, and one that has ended shows all that the other does. -/
theorem Child.Sound.observed_agree {β : Type} {f : Call → Option β} (hf : IgnoresCounts f)
    (hstore : ∀ k v, f (.store k v) = none) {c c' : Child} (h : c.Sound) (h' : c'.Sound)
    (hconn : c.conn = c'.conn) (hpage : IgnoresPage f (course c.conn.env c.conn.flux).ending) :
    (observed f c.done <+: observed f c'.done ∨ observed f c'.done <+: observed f c.done) ∧
      (c.Ended → observed f c'.done <+: observed f c.done) := by
  have hpage' := hpage
  rw [hconn] at hpage'
  obtain ⟨hpart, hwhole⟩ := h.observed_prefix hf hstore hpage
  obtain ⟨hpart', -⟩ := h'.observed_prefix hf hstore hpage'
  rw [← hconn] at hpart'
  refine ⟨List.prefix_or_prefix_of_prefix hpart hpart', fun hended => ?_⟩
  rw [hwhole hended]
  exact hpart'

/-- Two children of one connection make the same calls outside the shared memory and
end in the same way, in whatever runs they are and whatever the other processes do.
They can differ in how far they have come and in the body of the stats page. -/
theorem isolated {s s' : Sys} (hs : Reachable s) (hs' : Reachable s') {c c' : Child}
    (hc : c ∈ s.children) (hc' : c' ∈ s'.children) (hconn : c.conn = c'.conn) :
    ((observed headCall c.done <+: observed headCall c'.done ∨
        observed headCall c'.done <+: observed headCall c.done) ∧
      (c.Ended → observed headCall c'.done <+: observed headCall c.done)) ∧
    ((∀ q, (course c.conn.env c.conn.flux).ending ≠ .statsPage q) →
      (observed privateCall c.done <+: observed privateCall c'.done ∨
        observed privateCall c'.done <+: observed privateCall c.done) ∧
      (c.Ended → observed privateCall c'.done <+: observed privateCall c.done)) ∧
    (c.Ended → c'.Ended → c.prog = c'.prog) := by
  have h := hs.sound.child c hc
  have h' := hs'.sound.child c' hc'
  refine ⟨?_, fun hstats => ?_, fun hended hended' => ?_⟩
  · exact h.observed_agree ignoresCounts_headCall (fun _ _ => rfl) h' hconn fun _ _ _ => rfl
  · exact h.observed_agree ignoresCounts_privateCall (fun _ _ => rfl) h' hconn
      fun q hq => absurd hq (hstats q)
  · rw [h.prog_eq hended, h'.prog_eq hended', hconn]

/-! ## A client that hangs up -/

/-- No `write` succeeds. -/
def hungUpAnswer : (e : Call) → Answer e
  | .write _ _ => (-1 : Int)
  | e => kindAnswer e

/-- The state after one connection whose client has hung up. -/
def Sys.hungUp (conn : Connection) : Sys :=
  let (tr, out) := Prog.play hungUpAnswer (respondClient conn.env conn.flux)
  ⟨(touchAll servedOnce tr).getD servedOnce, firstRound conn, .ret (),
    [⟨conn, tr, Prog.finished out⟩]⟩

theorem reachable_hungUp_page : Reachable (.hungUp pageConnection) := by
  have hsome : (touchAll servedOnce (Prog.play hungUpAnswer
      (respondClient pageConnection.env pageConnection.flux)).1).isSome := by decide +kernel
  obtain ⟨m, hm⟩ := Option.isSome_iff_exists.mp hsome
  have hruns := (Prog.play_runs hungUpAnswer
    (respondClient pageConnection.env pageConnection.flux)).steps
  have hstart : Reachable ⟨servedOnce, firstRound pageConnection, .ret (),
      [] ++ ⟨pageConnection, [], respondClient pageConnection.env pageConnection.flux⟩ :: []⟩ :=
    reachable_firstRound pageConnection
  have hchild := hstart.child hruns hm
  simp only [Sys.hungUp, hm]
  exact hchild

/-- The ending is the stats page. -/
def Ending.isStats : Ending → Bool
  | .statsPage _ => true
  | .calls _ _ => false

/-- The response to the page is no stats page. -/
theorem pageConnection_not_stats (q : Request) :
    (course pageConnection.env pageConnection.flux).ending ≠ .statsPage q := by
  intro hq
  have hcalls : (course pageConnection.env pageConnection.flux).ending.isStats = false := by
    decide +kernel
  rw [hq] at hcalls
  cases hcalls

/-- A page whose client takes it, and the same page when the client has hung up. -/
theorem isolated_page : ∃ c ∈ (Sys.served pageConnection).children,
    ∃ c' ∈ (Sys.hungUp pageConnection).children,
      delivered c.done ≠ [] ∧ delivered c'.done = [] ∧
        observed privateCall c.done = observed privateCall c'.done ∧ c.prog = c'.prog := by
  obtain ⟨c, hc, hconn, hended, hgiven⟩ : ∃ c ∈ (Sys.served pageConnection).children,
      c.conn = pageConnection ∧ c.Ended ∧ delivered c.done ≠ [] :=
    ⟨_, List.mem_cons_self, rfl, ⟨_, rfl⟩, by decide +kernel⟩
  obtain ⟨c', hc', hconn', hended', hnone⟩ : ∃ c' ∈ (Sys.hungUp pageConnection).children,
      c'.conn = pageConnection ∧ c'.Ended ∧ delivered c'.done = [] :=
    ⟨_, List.mem_cons_self, rfl, ⟨_, rfl⟩, by decide +kernel⟩
  obtain ⟨-, hcalls, hprog⟩ := isolated reachable_served_page reachable_hungUp_page hc hc'
    (hconn.trans hconn'.symm)
  obtain ⟨-, hcalls', -⟩ := isolated reachable_hungUp_page reachable_served_page hc' hc
    (hconn'.trans hconn.symm)
  have hpart := (hcalls fun q => hconn ▸ pageConnection_not_stats q).2 hended
  have hpart' := (hcalls' fun q => hconn' ▸ pageConnection_not_stats q).2 hended'
  exact ⟨c, hc, c', hc', hgiven, hnone, hpart'.eq_of_length_le hpart.length_le,
    hprog hended hended'⟩

end Pawnee
