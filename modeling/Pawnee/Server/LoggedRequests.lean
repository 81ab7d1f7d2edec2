import Pawnee.Server.Accounting
import Mathlib.Data.List.Count

/-!
# The requests log and the counters

Every branch of a child that counts a response has written a line with the code of
that counter before (`Course.Logs`), and no branch writes a line without counting.
So a counter is never ahead of the log, and when no child is at work the counters
are the numbers of the lines (`log_agrees`).

The log and the counters agree with each other even where both disagree with what
is sent.
-/

namespace Pawnee

open CText Effects LockedCounters

/-! ## The line of a child -/

/-- A line of the requests log. -/
def loggedEntry : Call → Option LogEntry
  | .logRequest entry => some entry
  | _ => none

/-- The lines a run has written. -/
abbrev logLines (tr : List ServerEvent) : List LogEntry := observed loggedEntry tr

theorem IsLookup.loggedEntry {e : Call} (h : IsLookup e) : loggedEntry e = none := by
  cases e with
  | logRequest entry => exact h.elim
  | _ => rfl

theorem ignoresCounts_loggedEntry : IgnoresCounts loggedEntry := ⟨rfl, rfl, fun _ => rfl⟩

/-- The course writes one line, with a code of the counter it increments, or counts
nothing and writes no line. -/
def Course.Logs (c : Course) : Prop :=
  (c.before.filterMap loggedEntry).map (fun entry => counterOf entry.code) =
    c.counter.toList.map some

theorem lookups_loggedEntry {l : List Call} (h : ∀ e ∈ l, IsLookup e) :
    l.filterMap loggedEntry = [] := filterMap_ignored fun e he => (h e he).loggedEntry

/-- A course that looks up, writes a line and counts. -/
theorem Course.logs_of_counted {l : List Call} (hl : ∀ e ∈ l, IsLookup e) {entry : LogEntry}
    {k : Counter} (hk : counterOf entry.code = some k) (ending : Ending) :
    Course.Logs ⟨l ++ [.logRequest entry], some k, ending⟩ := by
  have hline : [Call.logRequest entry].filterMap loggedEntry = [entry] := rfl
  rw [Course.Logs, List.filterMap_append, lookups_loggedEntry hl, hline]
  exact congrArg (fun x => [x]) hk

theorem Course.logs_of_dies {l : List Call} (hl : ∀ e ∈ l, IsLookup e) (halt : Halt) :
    (Course.dies l halt).Logs := by
  rw [Course.Logs, Course.dies, lookups_loggedEntry hl]
  rfl

theorem Request.Branch.logs {env : Env} {q : Request} {c : Course} (h : q.Branch env c) :
    c.Logs := by
  have hlookup : ∀ e ∈ lookupCalls env q.headers, IsLookup e := fun e he =>
    (lookupCalls_isLogError e he).isLookup
  have hfound : ∀ vhost : VhostConfig, ∀ r, ∀ e ∈ lookupCalls env q.headers ++
      rootCalls env vhost.root.text ++ openCalls env (vhost.path r), IsLookup e := fun vhost r =>
    lookups_append (lookups_append hlookup rootCalls_isLookup) openCalls_isLookup
  cases h with
  | version | target | method | stats => rfl
  | brokenSite hasks hsite hvhost => exact Course.logs_of_dies hlookup _
  | badRoot hasks hsite hvhost hpass =>
      exact Course.logs_of_dies (lookups_append hlookup rootCalls_isLookup) _
  | @noSite r hasks hsite =>
      have herror : ∀ e ∈ [Call.logError "vhost root error".toList], IsLookup e := by
        simp [IsLookup]
      have hlogs := Course.logs_of_counted (lookups_append hlookup herror)
        (show counterOf (logEntry env q r 400).code = some .ko400 from rfl)
      simp only [List.append_assoc] at hlogs
      exact hlogs _
  | missing hfinds hfile => exact Course.logs_of_counted (hfound _ _) rfl _
  | file hfinds hfile => exact Course.logs_of_counted (hfound _ _) rfl _

theorem course_logs (env : Env) (flux : Option Str) : (course env flux).Logs := by
  have hcourse := course_from env flux
  generalize course env flux = c at hcourse
  cases hcourse with
  | noStream | noLine | rejected => rfl
  | parsed hread hq => exact (Request.branch env _).logs

/-- Behind the count no line is written. -/
theorem course_lead_loggedEntry (env : Env) (flux : Option Str) :
    ((course env flux).ending.lead env).filterMap loggedEntry = [] := by
  have hmessage : ∀ (q : Request) (code : Int) (reasonPhrase errorMessage : String),
      ((q.messageEnding env code reasonPhrase errorMessage).lead env).filterMap loggedEntry =
        [] := by
    intro q code reasonPhrase errorMessage
    rw [messageEnding_lead]
    split <;> rfl
  have hcourse := course_from env flux
  generalize course env flux = c at hcourse
  cases hcourse with
  | noStream | noLine | rejected => rfl
  | @parsed _ _ _ _ q hread hq =>
      have hbranch := q.branch env
      generalize q.course env = c at hbranch
      cases hbranch with
      | version | method | noSite | missing => exact hmessage _ _ _ _
      | stats | target | brokenSite | badRoot => rfl
      | file hfinds hfile =>
          refine filterMap_ignored fun e he => ?_
          rcases mem_fileEnding he with rfl | hlookup | ⟨mime, rfl⟩ | ⟨data, rfl⟩
          · rfl
          · exact hlookup.loggedEntry
          · rfl
          · rfl

/-- The lines of a complete run. -/
theorem logLines_of_runs {env : Env} {flux : Option Str} {tr : List ServerEvent}
    {out : Except Halt Unit} (h : Prog.Runs (respondClient env flux) tr out) :
    logLines tr = (course env flux).before.filterMap loggedEntry := by
  rw [respondClient_eq] at h
  have hobs := observed_course_of_store ignoresCounts_loggedEntry (fun _ _ => rfl)
    (show IgnoresPage loggedEntry (course env flux).ending from fun _ _ _ => rfl) h
  rw [logLines, hobs, course_lead_loggedEntry, List.append_nil]

/-! ## A child at any point -/

/-- A line counts for this counter. -/
def LogEntry.countsFor (k : Counter) (entry : LogEntry) : Bool := counterOf entry.code = some k

/-- The lines of a course count for its counter alone. -/
theorem Course.Logs.countP {c : Course} (h : c.Logs) (k : Counter) :
    (c.before.filterMap loggedEntry).countP (LogEntry.countsFor k) = c.counter.toList.count k := by
  have hmap : (c.before.filterMap loggedEntry).countP (LogEntry.countsFor k) =
      ((c.before.filterMap loggedEntry).map fun entry => counterOf entry.code).count (some k) := by
    rw [List.count, List.countP_map]
    refine List.countP_congr fun entry _ => ?_
    simp [LogEntry.countsFor]
  rw [hmap, h]
  exact List.count_map_of_injective _ _ (fun _ _ => Option.some.inj) k

theorem Child.Sound.lines_prefix {c : Child} (h : c.Sound) :
    logLines c.done <+: (course c.conn.env c.conn.flux).before.filterMap loggedEntry := by
  obtain ⟨tr, out, hruns⟩ := Prog.Steps.complete h
  have happend : logLines (c.done ++ tr) = logLines c.done ++ logLines tr := observed_append _ _ _
  rw [← logLines_of_runs hruns, happend]
  exact List.prefix_append _ _

/-- A child that has counted has written its line. -/
theorem Child.Sound.lines_of_counted {c : Child} (h : c.Sound)
    (hstored : observed storedCounter c.done ≠ []) :
    logLines c.done = (course c.conn.env c.conn.flux).before.filterMap loggedEntry := by
  have hpart := h.lines_prefix
  obtain ⟨tr, out, hruns⟩ := Prog.Steps.complete h
  rw [respondClient_eq] at hruns
  have hprivate := course_private c.conn.env c.conn.flux
  generalize course c.conn.env c.conn.flux = course at hpart hruns hprivate
  obtain ⟨tr₁, v, tr₂, htr, hcalls, -⟩ := runs_course_split hruns
  rw [List.append_assoc] at htr
  rcases List.prefix_or_prefix_of_prefix (List.prefix_append c.done tr)
    (htr ▸ List.prefix_append tr₁ _) with ⟨rest, hrest⟩ | ⟨rest, hrest⟩
  · -- before the count nothing is stored
    have hnone : observed storedCounter tr₁ = [] := by
      rw [observed, hcalls]
      exact filterMap_ignored fun e he => storedCounter_private (hprivate.before e he).isPrivate
    rw [← hrest, observed_append] at hnone
    exact absurd (List.append_eq_nil_iff.mp hnone).1 hstored
  · have hwhole : course.before.filterMap loggedEntry <+: logLines c.done := by
      rw [← hcalls, ← hrest, logLines, observed_append]
      exact List.prefix_append _ _
    exact hpart.eq_of_length_le hwhole.length_le

/-- The lines of a child that has counted, or has ended, are those of its
increments. -/
theorem Child.Sound.lines_eq {c : Child} (h : c.Sound)
    (hdone : c.Ended ∨ observed storedCounter c.done ≠ []) (k : Counter) :
    (logLines c.done).countP (LogEntry.countsFor k) = increments k c.done := by
  have hlogs := (course_logs c.conn.env c.conn.flux).countP k
  by_cases hstored : observed storedCounter c.done = []
  · obtain ⟨halt, hruns⟩ := h.runs (hdone.resolve_right (not_not.mpr hstored))
    rw [logLines_of_runs hruns, hlogs]
    rw [respondClient_eq] at hruns
    rw [increments, ((course_private _ _).history hruns).2]
  · obtain ⟨k', hk', hone⟩ := h.stored.resolve_left hstored
    have hprefix := h.history.2
    rw [h.lines_of_counted hstored, hlogs, increments]
    cases hcounter : (course c.conn.env c.conn.flux).counter with
    | none => rw [hone, hcounter] at hprefix; exact absurd (List.prefix_nil.mp hprefix) (by simp)
    | some k'' =>
        rw [hone, hcounter] at hprefix
        rw [hone, hprefix.eq_of_length rfl]

theorem Child.Sound.increments_le_lines {c : Child} (h : c.Sound) (k : Counter) :
    increments k c.done ≤ (logLines c.done).countP (LogEntry.countsFor k) := by
  by_cases hstored : observed storedCounter c.done = []
  · rw [increments, hstored]
    exact Nat.zero_le _
  · exact (h.lines_eq (.inr hstored) k).ge

/-! ## All children -/

/-- The lines all children have written, child by child. -/
def Sys.logLines (s : Sys) : List LogEntry := s.children.flatMap fun c => Pawnee.logLines c.done

/-- The number of lines that count for a counter. -/
def Sys.logged (s : Sys) (k : Counter) : Nat := s.logLines.countP (LogEntry.countsFor k)

theorem increments_le_logged {l : List Child} (h : ∀ c ∈ l, c.Sound) (k : Counter) :
    increments k (l.flatMap Child.done) ≤
      (l.flatMap fun c => logLines c.done).countP (LogEntry.countsFor k) := by
  induction l with
  | nil => exact Nat.le_refl 0
  | cons c l ih =>
      have hc := (h c List.mem_cons_self).increments_le_lines k
      have hl := ih fun x hx => h x (List.mem_cons_of_mem _ hx)
      rw [List.flatMap_cons, List.flatMap_cons, increments_append, List.countP_append]
      omega

theorem increments_eq_logged {l : List Child} (h : ∀ c ∈ l, c.Sound) (hended : ∀ c ∈ l, c.Ended)
    (k : Counter) : increments k (l.flatMap Child.done) =
      (l.flatMap fun c => logLines c.done).countP (LogEntry.countsFor k) := by
  induction l with
  | nil => rfl
  | cons c l ih =>
      have hc := (h c List.mem_cons_self).lines_eq (.inl (hended c List.mem_cons_self)) k
      have hl := ih (fun x hx => h x (List.mem_cons_of_mem _ hx))
        fun x hx => hended x (List.mem_cons_of_mem _ hx)
      rw [List.flatMap_cons, List.flatMap_cons, increments_append, List.countP_append, hc, hl]

/-- Every line counts for a counter of a branch. -/
theorem Child.Sound.countsFor {c : Child} (h : c.Sound) :
    ∀ entry ∈ logLines c.done, ∃ k ∈ branchCounters, counterOf entry.code = some k := by
  intro entry hentry
  have hlogs := course_logs c.conn.env c.conn.flux
  have hmem := List.mem_map_of_mem (f := fun entry => counterOf entry.code)
    (h.lines_prefix.subset hentry)
  rw [hlogs] at hmem
  obtain ⟨k, hk, heq⟩ := List.mem_map.mp hmem
  exact ⟨k, course_counter (Option.mem_toList.mp hk), heq.symm⟩

/-- A counter is never ahead of the lines of the requests log, every line counts for
a counter, and when all children have ended the counters are the numbers of the
lines. -/
theorem log_agrees {s : Sys} (hs : Reachable s) (hlt : (accepted s.done).length < 2147483648) :
    (∀ k, k ≠ .servedConnections → s.read k ≤ s.logged k) ∧
      (∀ entry ∈ s.logLines, ∃ k ∈ branchCounters, counterOf entry.code = some k) ∧
      ((∀ c ∈ s.children, c.Ended) → ∀ k, k ≠ .servedConnections → s.read k = s.logged k) := by
  have hread : ∀ k, k ≠ .servedConnections →
      s.read k = increments k (s.children.flatMap Child.done) := fun k hk => by
    rw [hs.read_eq (hs.total_lt hlt k), hs.sound.total_children hk]
  refine ⟨fun k hk => ?_, fun entry hentry => ?_, fun hended k hk => ?_⟩
  · rw [hread k hk]
    exact Int.ofNat_le.mpr (increments_le_logged hs.sound.child k)
  · obtain ⟨c, hc, hline⟩ := List.mem_flatMap.mp hentry
    exact (hs.sound.child c hc).countsFor entry hline
  · rw [hread k hk]
    exact congrArg Nat.cast (increments_eq_logged hs.sound.child hended k)

/-- One page, one line. -/
theorem log_agrees_page :
    (∀ k, k ≠ .servedConnections →
        (Sys.served pageConnection).read k ≤ (Sys.served pageConnection).logged k) ∧
      (∀ entry ∈ (Sys.served pageConnection).logLines,
        ∃ k ∈ branchCounters, counterOf entry.code = some k) ∧
      ((∀ c ∈ (Sys.served pageConnection).children, c.Ended) → ∀ k, k ≠ .servedConnections →
        (Sys.served pageConnection).read k = (Sys.served pageConnection).logged k) :=
  log_agrees reachable_served_page (by decide +kernel)

example : (Sys.served pageConnection).logged .ok200 = 1 := by decide +kernel

end Pawnee
