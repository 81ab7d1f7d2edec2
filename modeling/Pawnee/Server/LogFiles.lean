import Pawnee.Child.LogLine
import Pawnee.Server.LoggedRequests
import Pawnee.Server.Reaping

/-!
# What is in the log files

`write_request` prints into a buffer of its process.  The line comes into the file when
the process exits, or earlier in pieces when it is longer than the buffer.

Whatever the lengths, the bytes a child has brought into a file are the beginning of what
it has printed, and all of it when it has exited (`appended`).  If the lines fit the
buffer, `requests.log` is the lines of the children that have exited, one behind the
other in the order of their exits, and every line can be read back (`requests_log`).  A count of
the lines with a code in the file is then never ahead of the counter, and when all
children are gone the counter is the lines in the file and the lines that have died with
a child (`requests_log_counts`).

`main` prints its greeting before it forks.  If `stdout` is not a terminal, every process
that exits prints it again (`greeting_repeated`).
-/

namespace Pawnee

open CText Effects

/-! ## Lines of a child -/

/-- What goes into a stream, if each call that puts something there is seen. -/
theorem texts_eq_flatMap {β : Type} {time : Tm} {ch : Channel} {f : Call → Option β} {g : β → Str}
    (hf : ∀ e : Call, e.text time ch = (f e).toList.flatMap g) (tr : List ServerEvent) :
    texts time ch tr = (observed f tr).flatMap g := by
  induction tr with
  | nil => rfl
  | cons ev tr ih =>
      have hcons : texts time ch (ev :: tr) = ev.1.text time ch ++ texts time ch tr :=
        List.flatMap_cons
      have happend : observed f (ev :: tr) = (f ev.1).toList ++ observed f tr := by
        cases hev : f ev.1 <;> simp [observed, hev]
      rw [hcons, happend, List.flatMap_append, ih, hf]

/-- The lines of the requests log are what a process puts into their stream. -/
theorem texts_requests (time : Tm) (tr : List ServerEvent) :
    texts time .requests tr = (logLines tr).flatMap LogEntry.text :=
  texts_eq_flatMap (fun e => by cases e <;> simp [Call.text, loggedEntry]) tr

/-- No call puts anything onto `stdout`. -/
theorem texts_stdout (time : Tm) (tr : List ServerEvent) : texts time .stdout tr = [] :=
  List.flatMap_eq_nil_iff.mpr fun ev _ => by
    obtain ⟨e, r⟩ := ev
    cases e <;> rfl

/-- The line of a branch is a line of its request. -/
theorem Request.Branch.line {env : Env} {q : Request} {c : Course} (h : q.Branch env c)
    {entry : LogEntry} (he : Call.logRequest entry ∈ c.before) :
    ∃ r code, rewritten q.target = some r ∧ entry = logEntry env q r code := by
  have hlookup : ∀ {l : List Call}, (∀ e ∈ l, IsLookup e) → Call.logRequest entry ∉ l :=
    fun hl hmem => hl _ hmem
  have hsite : Call.logRequest entry ∉ lookupCalls env q.headers := hlookup fun e he =>
    (lookupCalls_isLogError e he).isLookup
  have hroot : ∀ root, Call.logRequest entry ∉ rootCalls env root := fun root =>
    hlookup rootCalls_isLookup
  have hopen : ∀ path, Call.logRequest entry ∉ openCalls env path := fun path =>
    hlookup openCalls_isLookup
  cases h with
  | version => cases he
  | target => simp [Course.dies] at he
  | brokenSite => exact absurd he hsite
  | badRoot => exact absurd he (by simp [Course.dies, hsite, hroot])
  | method hm hr => exact ⟨_, _, hr, by simpa using he⟩
  | stats hm hv hr => exact ⟨_, _, hr, by simpa using he⟩
  | noSite hasks hnone => exact ⟨_, _, hasks.target, by simpa [hsite] using he⟩
  | missing hfinds hfile =>
      exact ⟨_, _, hfinds.target, by simpa [hsite, hroot, hopen] using he⟩
  | file hfinds hfile =>
      exact ⟨_, _, hfinds.target, by simpa [hsite, hroot, hopen] using he⟩

/-- The line of a course can be read back. -/
theorem course_line_clean {env : Env} {flux : Option Str} (haddress : IsField env.clientIp)
    {entry : LogEntry} (he : Call.logRequest entry ∈ (course env flux).before) : entry.Clean := by
  have hcourse := course_from env flux
  generalize course env flux = c at he hcourse
  cases hcourse with
  | noStream | noLine | rejected => simp [Course.dies] at he
  | @parsed _ _ _ _ q hread hq =>
      obtain ⟨r, code, hr, rfl⟩ := (q.branch env).line he
      have hclean := target_clean (readRequest_no_lineFeed hread) hq
      exact ⟨haddress, ⟨fun hm => (mem_rewritten hr hm).elim hclean.1 (by decide),
        fun hm => (mem_rewritten hr hm).elim hclean.2 (by decide)⟩, agent_no_lineFeed _ hq⟩

theorem Child.Sound.lines_clean {c : Child} (h : c.Sound) (haddress : IsField c.conn.env.clientIp) :
    ∀ entry ∈ logLines c.done, entry.Clean := by
  intro entry hentry
  obtain ⟨e, he, hline⟩ := List.mem_filterMap.mp (h.lines_prefix.subset hentry)
  cases e with
  | logRequest entry' =>
      obtain rfl : entry' = entry := Option.some.inj hline
      exact course_line_clean haddress he
  | _ => cases hline

/-- A child writes one line at most. -/
theorem Child.Sound.lines_le_one {c : Child} (h : c.Sound) : (logLines c.done).length ≤ 1 := by
  have hlogs := congrArg List.length (course_logs c.conn.env c.conn.flux)
  simp only [List.length_map, Option.length_toList] at hlogs
  have hle := h.lines_prefix.length_le
  split at hlogs <;> omega

/-! ## The parent -/

/-- The parent writes no line of the requests log. -/
theorem RoundRun.logLines_eq {tr : List ServerEvent} {out : Except Halt Unit}
    (h : RoundRun tr out) : logLines tr = [] := by
  cases h <;> rfl

/-- What the rounds of the parent show is what one round can show. -/
theorem Sys.Sound.observed_parent {s : Sys} (h : s.Sound) {β : Type} {f : Call → Option β}
    {x : β} (hx : x ∈ observed f s.done) :
    ∃ tr out, RoundRun tr out ∧ x ∈ observed f tr := by
  obtain ⟨rounds, cur, hdone, hrounds, hcur⟩ := h.parent.split
  obtain ⟨tr, out, hruns⟩ := hcur.complete
  rw [hdone, observed_append] at hx
  rcases List.mem_append.mp hx with hx | hx
  · obtain ⟨e, he, hfe⟩ := List.mem_filterMap.mp hx
    obtain ⟨ev, hev, rfl⟩ := List.mem_map.mp he
    obtain ⟨round, hround, hev⟩ := List.mem_flatten.mp hev
    obtain ⟨a, hround⟩ := hrounds round hround
    exact ⟨round, _, runs_serveOne hround,
      List.mem_filterMap.mpr ⟨_, List.mem_map_of_mem hev, hfe⟩⟩
  · refine ⟨_, out, runs_serveOne hruns, ?_⟩
    rw [observed_append]
    exact List.mem_append_left _ hx

/-- The parent puts nothing into the requests log and onto `stdout`. -/
theorem Sys.Sound.parent_silent {s : Sys} (h : s.Sound) (time : Tm) {ch : Channel}
    (hch : ch ≠ .errors) : texts time ch s.done = [] := by
  cases ch with
  | errors => exact absurd rfl hch
  | stdout => exact texts_stdout time _
  | requests =>
      have hnone : Pawnee.logLines s.done = [] := by
        refine List.eq_nil_iff_forall_not_mem.mpr fun entry he => ?_
        obtain ⟨tr, out, hround, hmem⟩ := h.observed_parent he
        exact List.eq_nil_iff_forall_not_mem.mp hround.logLines_eq entry hmem
      rw [texts_requests, hnone]
      rfl

/-! ## Bytes in the files -/

/-- The bytes that have been appended to the file of a stream. -/
def Host.content (h : Host) (ch : Channel) : Str := (h.output.file ch).map Prod.snd

/-- The number of a child. -/
def Process.number : Process → Option Nat
  | .parent => none
  | .child i => some i

/-- The children that have exited, in the order of their exits. -/
def Host.exits (h : Host) : List Child :=
  (h.output.order.filterMap Process.number).filterMap fun i => h.sys.children[i]?

section

variable {boot : Boot} {h : Host}

/-- The bytes of a child in a file are what it has printed, from the front, and all of it
when it has exited.  Before that nothing is in the file but what does not fit the
buffer. -/
theorem appended (hh : HostReachable boot h) {i : Nat} {c : Child}
    (hc : h.sys.children[i]? = some c) (ch : Channel) :
    SharedFiles.written (.child i) (h.output.file ch) <+:
        boot.initial ch ++ texts c.conn.env.actualTime ch c.done ∧
      (h.output.life (.child i) = .exited →
        SharedFiles.written (.child i) (h.output.file ch) =
          boot.initial ch ++ texts c.conn.env.actualTime ch c.done) ∧
      (h.output.life (.child i) ≠ .exited →
        (boot.initial ch ++ texts c.conn.env.actualTime ch c.done).length ≤ boot.cap →
          SharedFiles.written (.child i) (h.output.file ch) = []) := by
  have haccount := hh.tied.output.account (.child i) ch
  rw [hh.tied.child_given i c hc] at haccount
  exact ⟨haccount.part, haccount.exited, haccount.kept⟩

/-- The number of a child that has exited. -/
theorem HostReachable.child_of_order (hh : HostReachable boot h) {i : Nat}
    (hi : .child i ∈ h.output.order) : ∃ c, h.sys.children[i]? = some c ∧ c.Ended :=
  hh.tied.ended (.inl ((hh.tied.output.order _).mp hi))

/-- If the buffers hold all that is printed, a file is what the processes that have exited
have printed, one behind the other in the order of the exits. -/
theorem HostReachable.content_eq (hh : HostReachable boot h) {ch : Channel}
    (hparent : (boot.initial ch ++ texts boot.time ch h.sys.done).length ≤ boot.cap)
    (hfits : ∀ c ∈ h.sys.children,
      (boot.initial ch ++ texts c.conn.env.actualTime ch c.done).length ≤ boot.cap) :
    h.content ch = h.output.order.flatMap fun p => h.output.given p ch := by
  have hgiven : ∀ p, (h.output.given p ch).length ≤ boot.cap := by
    intro p
    cases p with
    | parent =>
        rw [hh.tied.parent_given]
        exact hparent
    | child i =>
        cases hc : h.sys.children[i]? with
        | none =>
            have hunborn := (hh.tied.unborn i).mpr (List.getElem?_eq_none_iff.mp hc)
            rw [((hh.tied.output.account (.child i) ch).unborn hunborn).2]
            exact Nat.zero_le _
        | some c =>
            rw [hh.tied.child_given i c hc]
            exact hfits c (List.mem_of_getElem? hc)
  rw [Host.content, hh.tied.output.whole ch hgiven, List.map_flatMap]
  refine List.flatMap_congr fun p _ => ?_
  simp [SharedFiles.signed, Function.comp_def]

/-- The parent prints nothing but errors in the loop. -/
theorem HostReachable.parent_fits (hh : HostReachable boot h) {ch : Channel} (hch : ch ≠ .errors) :
    (boot.initial ch ++ texts boot.time ch h.sys.done).length ≤ boot.cap := by
  rw [hh.sys.sound.parent_silent _ hch, List.append_nil]
  exact boot.initial_fits ch

/-- If `stdout` is not a terminal, every process that exits prints the greeting. -/
theorem greeting_repeated (hh : HostReachable boot h) :
    h.content .stdout = (List.replicate h.output.order.length boot.greeting).flatten := by
  have hgreeting : ∀ p ∈ h.output.order, h.output.given p .stdout = boot.greeting := by
    intro p hp
    cases p with
    | parent => rw [hh.tied.parent_given, texts_stdout, List.append_nil]; rfl
    | child i =>
        obtain ⟨c, hc, -⟩ := hh.child_of_order hp
        rw [hh.tied.child_given i c hc, texts_stdout, List.append_nil]; rfl
  have hfits : ∀ c ∈ h.sys.children,
      (boot.initial .stdout ++ texts c.conn.env.actualTime .stdout c.done).length ≤ boot.cap := by
    intro c _
    rw [texts_stdout, List.append_nil]
    exact boot.initial_fits _
  rw [hh.content_eq (hh.parent_fits (by decide)) hfits, List.flatMap_congr hgreeting,
    List.flatMap_def, List.map_const']

/-! ## The requests log -/

/-- The lines of the children that have exited. -/
def Host.logLines (h : Host) : List LogEntry := h.exits.flatMap fun c => Pawnee.logLines c.done

theorem HostReachable.mem_exits (hh : HostReachable boot h) {c : Child} (hc : c ∈ h.exits) :
    c ∈ h.sys.children ∧ c.Ended := by
  obtain ⟨i, hi, hc⟩ := List.mem_filterMap.mp hc
  obtain ⟨p, hp, hnumber⟩ := List.mem_filterMap.mp hi
  cases p with
  | parent => cases hnumber
  | child j =>
      cases hnumber
      obtain ⟨c', hc', hended⟩ := hh.child_of_order hp
      obtain rfl := Option.some.inj (hc.symm.trans hc')
      exact ⟨List.mem_of_getElem? hc, hended⟩

/-- What the processes of an order have printed is the lines of its children. -/
theorem HostReachable.flatMap_given (hh : HostReachable boot h) :
    ∀ {order : List Process}, (∀ p ∈ order, p ∈ h.output.order) →
      (order.flatMap fun p => h.output.given p .requests) =
        (((order.filterMap Process.number).filterMap fun i => h.sys.children[i]?).flatMap
          fun c => Pawnee.logLines c.done).flatMap LogEntry.text
  | [], _ => rfl
  | p :: order, horder => by
      have ih := hh.flatMap_given fun q hq => horder q (List.mem_cons_of_mem _ hq)
      rw [List.flatMap_cons, ih]
      cases p with
      | parent =>
          rw [hh.tied.parent_given, hh.sys.sound.parent_silent _ (by decide)]
          rfl
      | child i =>
          obtain ⟨c, hc, -⟩ := hh.child_of_order (horder _ List.mem_cons_self)
          rw [hh.tied.child_given i c hc, texts_requests]
          simp [Process.number, hc, Boot.initial]

/-- The lines of the children that have exited can be read back. -/
theorem HostReachable.logLines_clean (hh : HostReachable boot h)
    (haddress : ∀ c ∈ h.sys.children, IsField c.conn.env.clientIp) :
    ∀ entry ∈ h.logLines, entry.Clean := by
  intro entry hentry
  obtain ⟨c, hc, hline⟩ := List.mem_flatMap.mp hentry
  have hmem := (hh.mem_exits hc).1
  exact (hh.sys.sound.child c hmem).lines_clean (haddress c hmem) entry hline

/-- If the lines fit the buffers, nothing is in the file but the lines of the children that
have exited. -/
theorem HostReachable.content_requests (hh : HostReachable boot h)
    (hfits : ∀ c ∈ h.sys.children, ∀ entry ∈ Pawnee.logLines c.done,
      entry.text.length ≤ boot.cap) :
    h.content .requests = h.logLines.flatMap LogEntry.text := by
  rw [hh.content_eq (hh.parent_fits (by decide)) fun c hc => ?_]
  · exact hh.flatMap_given fun p hp => hp
  · rw [texts_requests]
    have hone := (hh.sys.sound.child c hc).lines_le_one
    have hshort := hfits c hc
    generalize Pawnee.logLines c.done = lines at hone hshort
    match lines with
    | [] => exact Nat.zero_le _
    | [entry] => simpa [Boot.initial] using hshort entry List.mem_cons_self
    | _ :: _ :: _ => simp at hone

/-- A reader finds the lines. -/
theorem HostReachable.read_requests (hh : HostReachable boot h)
    (haddress : ∀ c ∈ h.sys.children, IsField c.conn.env.clientIp)
    (hfits : ∀ c ∈ h.sys.children, ∀ entry ∈ Pawnee.logLines c.done,
      entry.text.length ≤ boot.cap) :
    getlineAll (h.content .requests) = h.logLines.map LogEntry.text := by
  have hlines : ∀ l ∈ h.logLines.map LogEntry.text, IsLine l := by
    intro l hl
    obtain ⟨entry, hentry, rfl⟩ := List.mem_map.mp hl
    obtain ⟨line, htext, hfeed, -⟩ := (hh.logLines_clean haddress entry hentry).isLogLine
    exact ⟨line, hfeed, htext⟩
  have hread := getlineAll_flatten hlines []
  rw [List.append_nil, getlineAll_nil, List.append_nil] at hread
  rw [hh.content_requests hfits, List.flatMap_def, hread]

/-- If the lines fit the buffers, `requests.log` is the lines of the children that have
exited, one behind the other in the order of the exits.  A reader finds the lines, and in
each line its fields. -/
theorem requests_log (hh : HostReachable boot h)
    (haddress : ∀ c ∈ h.sys.children, IsField c.conn.env.clientIp)
    (hfits : ∀ c ∈ h.sys.children, ∀ entry ∈ Pawnee.logLines c.done,
      entry.text.length ≤ boot.cap) :
    h.content .requests = h.logLines.flatMap LogEntry.text ∧
      getlineAll (h.content .requests) = h.logLines.map LogEntry.text ∧
      ∀ entry ∈ h.logLines, IsLogLine entry.text entry.fields entry.agent :=
  ⟨hh.content_requests hfits, hh.read_requests haddress hfits, fun entry hentry =>
    (hh.logLines_clean haddress entry hentry).isLogLine⟩

/-! ## The requests log and the counters -/

/-- The children that have not exited: they run, or have been killed. -/
def Host.others (h : Host) : List Child :=
  ((List.range h.sys.children.length).filter fun i => h.output.life (.child i) ≠ .exited).filterMap
    fun i => h.sys.children[i]?

/-- The code whose responses a counter counts, as it stands in a line of the log. -/
def Counter.codeField : Counter → Option Str
  | .ok200 => some "200".toList
  | .ko400 => some "400".toList
  | .ko403 => some "403".toList
  | .ko404 => some "404".toList
  | .ko405 => some "405".toList
  | .servedConnections | .servedRequests => none

/-- The fourth field of a line is the code of a counter. -/
def HasCode (k : Counter) (line : Str) : Prop :=
  ∃ code, k.codeField = some code ∧ (cutFields 6 line.dropLast).1[3]? = some code

instance (k : Counter) (line : Str) : Decidable (HasCode k line) :=
  match hcode : k.codeField with
  | none => isFalse fun ⟨_, h, _⟩ => Option.some_ne_none _ (h.symm.trans hcode)
  | some code =>
      decidable_of_iff ((cutFields 6 line.dropLast).1[3]? = some code)
        ⟨fun h => ⟨code, hcode, h⟩, fun ⟨_, h, hfield⟩ =>
          Option.some.inj (hcode.symm.trans h) ▸ hfield⟩

/-- The number of lines a reader finds in `requests.log` with the code of a counter. -/
def Host.inFile (h : Host) (k : Counter) : Nat :=
  (getlineAll (h.content .requests)).countP (HasCode k)

/-- The number of lines of the children that have exited that count for a counter. -/
def Host.logged (h : Host) (k : Counter) : Nat := h.logLines.countP (LogEntry.countsFor k)

/-- The number of lines of the others that count for a counter. -/
def Host.lost (h : Host) (k : Counter) : Nat :=
  (h.others.flatMap fun c => Pawnee.logLines c.done).countP (LogEntry.countsFor k)

theorem filterMap_getElem?_range {α : Type} (l : List α) :
    (List.range l.length).filterMap (fun i => l[i]?) = l := by
  induction l with
  | nil => rfl
  | cons a l ih =>
      rw [List.length_cons, List.range_succ_eq_map, List.filterMap_cons, List.getElem?_cons_zero,
        List.filterMap_map]
      simpa [Function.comp_def] using ih

/-- Every child has exited or has not. -/
theorem HostReachable.perm_children (hh : HostReachable boot h) :
    (h.exits ++ h.others).Perm h.sys.children := by
  have hnumber : ∀ i, i ∈ h.output.order.filterMap Process.number ↔
      h.output.life (.child i) = .exited := by
    intro i
    rw [← hh.tied.output.order, List.mem_filterMap]
    constructor
    · rintro ⟨p, hp, hnumber⟩
      cases p with
      | parent => cases hnumber
      | child j =>
          cases hnumber
          exact hp
    · exact fun hi => ⟨_, hi, rfl⟩
  have hnodup : (h.output.order.filterMap Process.number).Nodup :=
    hh.tied.output.nodup.filterMap fun p q i hp hq => by
      cases p <;> cases q <;> simp_all [Process.number]
  have hperm : (h.output.order.filterMap Process.number ++
      (List.range h.sys.children.length).filter fun i => h.output.life (.child i) ≠ .exited).Perm
        (List.range h.sys.children.length) := by
    refine (List.perm_ext_iff_of_nodup ?_ List.nodup_range).mpr fun i => ?_
    · refine List.nodup_append.mpr ⟨hnodup, List.nodup_range.filter _, fun i hi j hj heq => ?_⟩
      obtain ⟨-, hne⟩ := List.mem_filter.mp hj
      exact of_decide_eq_true hne (heq ▸ (hnumber i).mp hi)
    · have hlt : h.output.life (.child i) = .exited → i < h.sys.children.length := fun hi => by
        obtain ⟨c, hc, -⟩ := hh.tied.ended (.inl hi)
        exact (List.getElem?_eq_some_iff.mp hc).1
      rw [List.mem_append, hnumber, List.mem_filter, List.mem_range, decide_eq_true_eq]
      tauto
  have hall := hperm.filterMap fun i => h.sys.children[i]?
  rwa [List.filterMap_append, filterMap_getElem?_range] at hall

/-- What the children have counted is what those that have exited and the others have. -/
theorem HostReachable.increments_split (hh : HostReachable boot h) (k : Counter) :
    increments k (h.sys.children.flatMap Child.done) =
      h.logged k + increments k (h.others.flatMap Child.done) := by
  have hexits : increments k (h.exits.flatMap Child.done) = h.logged k :=
    increments_eq_logged (fun c hc => hh.sys.sound.child c (hh.mem_exits hc).1)
      (fun c hc => (hh.mem_exits hc).2) k
  have hperm := (hh.perm_children.flatMap_right Child.done).symm
  have hcount : increments k (h.sys.children.flatMap Child.done) =
      increments k ((h.exits ++ h.others).flatMap Child.done) :=
    ((hperm.map Sigma.fst).filterMap storedCounter).count_eq k
  rw [hcount, List.flatMap_append, increments_append, hexits]

/-- The codes that are counted. -/
theorem codeField_eq_some {k : Counter} {code : Int} :
    k.codeField = some (formatInt code) ↔ counterOf code = some k := by
  have hback : ∀ n : Int, formatInt n = formatInt code → code = n := fun n h =>
    formatInt_injective h.symm
  constructor
  · intro h
    cases k with
    | servedConnections | servedRequests => cases h
    | ok200 => obtain rfl := hback 200 (Option.some.inj h); rfl
    | ko400 => obtain rfl := hback 400 (Option.some.inj h); rfl
    | ko403 => obtain rfl := hback 403 (Option.some.inj h); rfl
    | ko404 => obtain rfl := hback 404 (Option.some.inj h); rfl
    | ko405 => obtain rfl := hback 405 (Option.some.inj h); rfl
  · intro h
    unfold counterOf at h
    split at h <;> cases h <;> decide

/-- The code of a line is read from its text. -/
theorem LogEntry.Clean.hasCode_iff {entry : LogEntry} (h : entry.Clean) {k : Counter} :
    HasCode k entry.text ↔ counterOf entry.code = some k := by
  obtain ⟨line, htext, -, hcut⟩ := h.isLogLine
  have hfield : (cutFields 6 entry.text.dropLast).1[3]? = some (formatInt entry.code) := by
    have hsix : entry.fields.length = 6 := rfl
    rw [htext, List.dropLast_concat, ← hsix, hcut]
    rfl
  rw [HasCode, hfield, ← codeField_eq_some]
  exact ⟨fun ⟨_, hcode, heq⟩ => heq ▸ hcode, fun hcode => ⟨_, hcode, rfl⟩⟩

/-- The lines with a code are those of the children that have exited. -/
theorem HostReachable.inFile_eq (hh : HostReachable boot h)
    (haddress : ∀ c ∈ h.sys.children, IsField c.conn.env.clientIp)
    (hfits : ∀ c ∈ h.sys.children, ∀ entry ∈ Pawnee.logLines c.done,
      entry.text.length ≤ boot.cap) (k : Counter) : h.inFile k = h.logged k := by
  rw [Host.inFile, hh.read_requests haddress hfits, List.countP_map]
  refine List.countP_congr fun entry hentry => ?_
  rw [Function.comp_apply, decide_eq_true_eq, LogEntry.countsFor, decide_eq_true_eq]
  exact (hh.logLines_clean haddress entry hentry).hasCode_iff

/-- If the lines fit the buffers, a counter is never behind the lines of its code in
`requests.log`.  When all children are gone it is the lines in the file and the lines that
are lost, and the children whose lines are lost have been killed. -/
theorem requests_log_counts (hh : HostReachable boot h)
    (haddress : ∀ c ∈ h.sys.children, IsField c.conn.env.clientIp)
    (hfits : ∀ c ∈ h.sys.children, ∀ entry ∈ Pawnee.logLines c.done,
      entry.text.length ≤ boot.cap)
    (hlt : (accepted h.sys.done).length < 2147483648) {k : Counter}
    (hk : k ≠ .servedConnections) :
    h.inFile k ≤ h.sys.read k ∧
      ((∀ i < h.sys.children.length, (h.output.life (.child i)).Gone) →
        h.sys.read k = h.inFile k + h.lost k ∧
          ∀ c ∈ h.others, ∃ f, c.prog = .stop (.fault f)) := by
  have hread : h.sys.read k = increments k (h.sys.children.flatMap Child.done) := by
    rw [hh.sys.read_eq (hh.sys.total_lt hlt k), hh.sys.sound.total_children hk]
  rw [hread, hh.inFile_eq haddress hfits, hh.increments_split k]
  refine ⟨by omega, fun hgone => ?_⟩
  have hkilled : ∀ c ∈ h.others, c ∈ h.sys.children ∧ ∃ f, c.prog = .stop (.fault f) := by
    intro c hc
    obtain ⟨i, hi, hc⟩ := List.mem_filterMap.mp hc
    obtain ⟨hlt, hne⟩ := List.mem_filter.mp hi
    refine ⟨List.mem_of_getElem? hc, hh.tied.child_killed i c hc ?_⟩
    exact (hgone i (List.mem_range.mp hlt)).resolve_left (of_decide_eq_true hne)
  refine ⟨?_, fun c hc => (hkilled c hc).2⟩
  have hlost : increments k (h.others.flatMap Child.done) = h.lost k :=
    increments_eq_logged (fun c hc => hh.sys.sound.child c (hkilled c hc).1) (fun c hc => by
      obtain ⟨f, hstop⟩ := (hkilled c hc).2
      exact ⟨_, hstop⟩) k
  rw [hlost]
  exact Int.natCast_add _ _

end

/-! ## One child -/

/-- The line of a page is in the file. -/
theorem requests_log_page : ∃ h, HostReachable smallBoot h ∧ h.output.order = [.child 0] ∧
    h.content .requests = h.logLines.flatMap LogEntry.text ∧
      getlineAll (h.content .requests) = h.logLines.map LogEntry.text ∧
      ∀ entry ∈ h.logLines, IsLogLine entry.text entry.fields entry.agent := by
  obtain ⟨h, hh, hsys, horder, -, -⟩ := exists_page_host smallBoot
  refine ⟨h, hh, horder, requests_log hh ?_ ?_⟩ <;> rw [hsys] <;> intro c hc <;>
    obtain rfl := List.mem_singleton.mp hc
  · decide
  · decide +kernel

/-- It is counted, and stands in the file. -/
theorem requests_log_counts_page : ∃ h, HostReachable smallBoot h ∧
    h.output.order = [.child 0] ∧ h.inFile .ok200 = 1 ∧ h.inFile .ok200 ≤ h.sys.read .ok200 := by
  obtain ⟨h, hh, hsys, horder, -, -⟩ := exists_page_host smallBoot
  have haddress : ∀ c ∈ h.sys.children, IsField c.conn.env.clientIp := by
    rw [hsys]
    intro c hc
    obtain rfl := List.mem_singleton.mp hc
    decide
  have hfits : ∀ c ∈ h.sys.children, ∀ entry ∈ Pawnee.logLines c.done,
      entry.text.length ≤ smallBoot.cap := by
    rw [hsys]
    intro c hc
    obtain rfl := List.mem_singleton.mp hc
    decide +kernel
  have hlt : (accepted h.sys.done).length < 2147483648 := by
    rw [hsys]
    decide
  have hone : h.inFile .ok200 = 1 := by
    rw [hh.inFile_eq haddress hfits, Host.logged, Host.logLines, Host.exits, horder, hsys]
    decide +kernel
  exact ⟨h, hh, horder, hone, (requests_log_counts hh haddress hfits hlt (by decide)).1⟩

/-- The child of a page has brought its line into the file. -/
theorem appended_page : ∃ (h : Host) (c : Child), HostReachable smallBoot h ∧
    h.sys.children[0]? = some c ∧ SharedFiles.written (.child 0) (h.output.file .requests) =
      texts c.conn.env.actualTime .requests c.done := by
  obtain ⟨h, hh, hsys, horder, -, -⟩ := exists_page_host smallBoot
  have hlt : 0 < h.sys.children.length := by
    rw [hsys]
    exact Nat.one_pos
  have hc := List.getElem?_eq_getElem hlt
  refine ⟨h, _, hh, hc, (appended hh hc .requests).2.1 ?_⟩
  exact (hh.tied.output.order _).mp (horder ▸ List.mem_singleton_self _)

/-- The greeting is printed by the child of a page. -/
theorem greeting_repeated_page : ∃ h, HostReachable smallBoot h ∧
    h.sys = .served pageConnection ∧
      h.content .stdout = (List.replicate h.output.order.length smallBoot.greeting).flatten ∧
      h.output.order.length = 1 := by
  obtain ⟨h, hh, hsys, horder, -, -⟩ := exists_page_host smallBoot
  exact ⟨h, hh, hsys, greeting_repeated hh, congrArg List.length horder⟩

end Pawnee
