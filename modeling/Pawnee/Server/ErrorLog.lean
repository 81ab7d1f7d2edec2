import Pawnee.Server.Isolation
import Pawnee.Server.LogFiles

/-!
# What is in `errors.log`

A process gives `write_error` a text of the source and nothing else (`errorTexts`), so
no byte of a client comes into `errors.log`.  If what a process prints fits its buffer,
the file is whole lines, each with a time and one of these texts, process by process in
the order of the exits (`errors_log`).

Before it exits a process shows nothing there.  A line of the parent is in the file only
when the server is down.
-/

namespace Pawnee

open CText Effects

/-! ## The texts -/

/-- The texts a process of the server gives to `write_error`. -/
def errorTexts : List Str :=
  ["accept error".toList, "getpeername error".toList, "fork error".toList,
    "fdopen error on socket".toList, "error reading request line".toList,
    "rewrite target error".toList, "missing or empty Host header".toList,
    "cannot open sites directory".toList, "vhost root error".toList,
    "no access to the root".toList, "root access error".toList,
    "root is not a directory".toList, "stat error: no such file or directory".toList,
    "stat error: not regular file".toList, "stat error: is a directory".toList,
    "fopen error".toList, "open mime file error : ".toList]

/-- A line of the errors log. -/
def loggedError : Call → Option Str
  | .logError error => some error
  | _ => none

/-- The texts a run has given to `write_error`. -/
abbrev errorsOf (tr : List ServerEvent) : List Str := observed loggedError tr

theorem texts_errors (time : Tm) (tr : List ServerEvent) :
    texts time .errors tr = (errorsOf tr).flatMap (errorText time) :=
  texts_eq_flatMap (fun e => by cases e <;> simp [Call.text, loggedError]) tr

theorem ignoresCounts_loggedError : IgnoresCounts loggedError := ⟨rfl, rfl, fun _ => rfl⟩

/-- The calls give only known texts to `write_error`. -/
def Known (l : List Call) : Prop := ∀ error, Call.logError error ∈ l → error ∈ errorTexts

theorem known_append {l l' : List Call} : Known (l ++ l') ↔ Known l ∧ Known l' := by
  simp only [Known, List.mem_append]
  exact ⟨fun h => ⟨fun m hm => h m (.inl hm), fun m hm => h m (.inr hm)⟩,
    fun h m hm => hm.elim (h.1 m) (h.2 m)⟩

theorem known_cons {e : Call} {l : List Call} : Known (e :: l) ↔ Known [e] ∧ Known l :=
  known_append (l := [e])

@[simp] theorem known_nil : Known [] := fun _ h => absurd h List.not_mem_nil

/-- The `n`-th text is known. -/
theorem known_nth (n : Nat) {error : Str} (h : errorTexts[n]? = some error) :
    Known [.logError error] := by
  intro m hm
  cases List.mem_singleton.mp hm
  exact List.mem_of_getElem? h

/-- A call that is no `write_error`. -/
theorem known_other {e : Call} (h : loggedError e = none) : Known [e] := by
  intro m hm
  rw [← List.mem_singleton.mp hm] at h
  cases h

/-- What is given to `write_error` is one of its calls. -/
theorem Known.mem_errorTexts {l : List Call} (h : Known l) {error : Str}
    (herror : error ∈ l.filterMap loggedError) : error ∈ errorTexts := by
  obtain ⟨e, he, hlogged⟩ := List.mem_filterMap.mp herror
  cases e with
  | logError m =>
      obtain rfl : m = error := Option.some.inj hlogged
      exact h m he
  | _ => cases hlogged

/-! ## A child -/

theorem known_lookupCalls (env : Env) (headers : List HttpHeader) :
    Known (lookupCalls env headers) := by
  unfold lookupCalls
  split
  · exact known_nth 6 rfl
  · exact known_nth 6 rfl
  · split
    · exact known_nth 7 rfl
    · exact known_nil

theorem known_rootCalls (env : Env) (root : Str) : Known (rootCalls env root) := by
  have haccess : Known [.access root] := known_other rfl
  have hstat : Known [.access root, .stat root] := known_cons.mpr ⟨haccess, known_other rfl⟩
  unfold rootCalls
  split
  · split
    · exact known_append.mpr ⟨hstat, known_nth 10 rfl⟩
    · split
      · exact hstat
      · exact known_append.mpr ⟨hstat, known_nth 11 rfl⟩
  · exact known_append.mpr ⟨haccess, known_nth 9 rfl⟩

theorem known_openCalls (env : Env) (path : Str) : Known (openCalls env path) := by
  have hstat : Known [.stat path] := known_other rfl
  have hopen : Known [.stat path, .fopen path] := known_cons.mpr ⟨hstat, known_other rfl⟩
  unfold openCalls
  split
  · exact known_append.mpr ⟨hstat, known_nth 12 rfl⟩
  · split
    · exact known_append.mpr ⟨hstat, known_nth 13 rfl⟩
    · split
      · exact known_append.mpr ⟨hstat, known_nth 14 rfl⟩
      · split
        · exact known_append.mpr ⟨hopen, known_nth 15 rfl⟩
        · exact hopen

theorem known_mimeCalls (env : Env) : Known (mimeCalls env) := by
  unfold mimeCalls
  split
  · exact known_nil
  · exact known_nth 16 rfl

theorem known_messageEnding (env : Env) (q : Request) (code : Int)
    (reasonPhrase errorMessage : String) :
    Known ((q.messageEnding env code reasonPhrase errorMessage).lead env) := by
  rw [messageEnding_lead]
  split
  · exact known_nil
  · exact known_cons.mpr ⟨known_other rfl, known_cons.mpr ⟨known_other rfl, known_other rfl⟩⟩

theorem known_fileEnding (env : Env) (q : Request) (r path : Str) (file : OpenFile) :
    Known ((q.fileEnding env r path file).lead env) := by
  have hreopen : Known (reopenCalls env q path) :=
    known_append.mpr ⟨known_append.mpr ⟨known_mimeCalls env, known_lookupCalls env q.headers⟩,
      known_openCalls env path⟩
  have hstatus : Known [q.okStatus] := known_other rfl
  unfold Request.fileEnding
  split
  · exact known_cons.mpr ⟨hstatus, known_mimeCalls env⟩
  · split
    · refine known_append.mpr ⟨known_cons.mpr ⟨hstatus, hreopen⟩, fun m hm => ?_⟩
      unfold fileCalls at hm
      split at hm <;> simp at hm
    · exact known_cons.mpr ⟨hstatus, hreopen⟩

/-- The calls of a course. -/
theorem known_course (env : Env) (flux : Option Str) :
    Known ((course env flux).before ++ (course env flux).ending.lead env) := by
  have hlogged : ∀ entry, Known [.logRequest entry] := fun entry => known_other rfl
  have hcourse := course_from env flux
  generalize course env flux = c at hcourse
  cases hcourse with
  | noStream => exact known_nth 3 rfl
  | noLine => exact known_nth 4 rfl
  | rejected => exact known_nil
  | @parsed _ _ _ _ q hread hq =>
      have hsite := known_lookupCalls env q.headers
      have hfound : ∀ root path entry, Known (lookupCalls env q.headers ++ rootCalls env root ++
          openCalls env path ++ [.logRequest entry]) := fun root path entry =>
        known_append.mpr ⟨known_append.mpr ⟨known_append.mpr ⟨hsite, known_rootCalls env root⟩,
          known_openCalls env path⟩, hlogged entry⟩
      have hbranch := q.branch env
      generalize q.course env = c at hbranch
      cases hbranch with
      | version => exact known_messageEnding _ _ _ _ _
      | target => exact known_nth 5 rfl
      | method => exact known_append.mpr ⟨hlogged _, known_messageEnding _ _ _ _ _⟩
      | stats =>
          exact known_cons.mpr ⟨hlogged _, known_cons.mpr ⟨known_other rfl, known_other rfl⟩⟩
      | brokenSite => exact known_append.mpr ⟨hsite, known_nil⟩
      | badRoot =>
          exact known_append.mpr ⟨known_append.mpr ⟨hsite, known_rootCalls _ _⟩, known_nil⟩
      | noSite =>
          exact known_append.mpr ⟨known_append.mpr ⟨hsite,
            known_cons.mpr ⟨known_nth 8 rfl, hlogged _⟩⟩, known_messageEnding _ _ _ _ _⟩
      | missing => exact known_append.mpr ⟨hfound _ _ _, known_messageEnding _ _ _ _ _⟩
      | file => exact known_append.mpr ⟨hfound _ _ _, known_fileEnding _ _ _ _ _⟩

/-- A child gives only known texts to `write_error`. -/
theorem Child.Sound.errors_known {c : Child} (h : c.Sound) :
    ∀ error ∈ errorsOf c.done, error ∈ errorTexts := by
  intro error herror
  obtain ⟨hpart, -⟩ := h.observed_prefix ignoresCounts_loggedError (fun _ _ => rfl)
    (show IgnoresPage loggedError (course c.conn.env c.conn.flux).ending from fun _ _ _ => rfl)
  have hmem := hpart.subset herror
  rw [← List.filterMap_append] at hmem
  exact (known_course _ _).mem_errorTexts hmem

/-! ## The parent -/

theorem RoundRun.errors_known {tr : List ServerEvent} {out : Except Halt Unit}
    (h : RoundRun tr out) : Known (Prog.callsOf tr) := by
  have hround : ∀ conn v, Known (Prog.callsOf (roundEvents conn v)) := fun conn v m hm => by
    simp [roundEvents, countEvents] at hm
  cases h with
  | noClient => exact known_cons.mpr ⟨known_other rfl, known_nth 0 rfl⟩
  | noName conn =>
      exact known_cons.mpr ⟨known_other rfl, known_cons.mpr ⟨known_other rfl, known_nth 1 rfl⟩⟩
  | noFork conn v =>
      rw [Prog.callsOf_append]
      exact known_append.mpr ⟨hround conn v, known_cons.mpr ⟨known_other rfl, known_nth 2 rfl⟩⟩
  | forked conn v =>
      rw [Prog.callsOf_append]
      exact known_append.mpr ⟨hround conn v, known_other rfl⟩

theorem Sys.Sound.parent_errors_known {s : Sys} (h : s.Sound) :
    ∀ error ∈ errorsOf s.done, error ∈ errorTexts := by
  intro error herror
  obtain ⟨tr, out, hround, hmem⟩ := h.observed_parent herror
  exact hround.errors_known.mem_errorTexts hmem

/-! ## The file -/

/-- The lines a process has printed. -/
def Host.errorsBy (boot : Boot) (h : Host) : Process → List Str
  | .parent => (errorsOf h.sys.done).map (errorText boot.time)
  | .child i =>
      match h.sys.children[i]? with
      | none => []
      | some c => (errorsOf c.done).map (errorText c.conn.env.actualTime)

/-- The lines of the processes that have exited, in the order of the exits. -/
def Host.errorLines (boot : Boot) (h : Host) : List Str := h.output.order.flatMap (h.errorsBy boot)

section

variable {boot : Boot} {h : Host}

theorem HostReachable.errorsBy_given (hh : HostReachable boot h) {p : Process}
    (hp : p ∈ h.output.order) : h.output.given p .errors = (h.errorsBy boot p).flatten := by
  cases p with
  | parent =>
      rw [hh.tied.parent_given, texts_errors, Host.errorsBy, ← List.flatMap_def]
      rfl
  | child i =>
      obtain ⟨c, hc, -⟩ := hh.child_of_order hp
      rw [hh.tied.child_given i c hc, texts_errors, Host.errorsBy, hc, ← List.flatMap_def]
      rfl

theorem HostReachable.errorsBy_known (hh : HostReachable boot h) {p : Process} {l : Str}
    (hl : l ∈ h.errorsBy boot p) : ∃ time, ∃ error ∈ errorTexts, l = errorText time error := by
  cases p with
  | parent =>
      obtain ⟨error, herror, rfl⟩ := List.mem_map.mp hl
      exact ⟨_, error, hh.sys.sound.parent_errors_known error herror, rfl⟩
  | child i =>
      rw [Host.errorsBy] at hl
      split at hl
      · cases hl
      · next c hc =>
        obtain ⟨error, herror, rfl⟩ := List.mem_map.mp hl
        exact ⟨_, error, (hh.sys.sound.child c (List.mem_of_getElem? hc)).errors_known error herror,
          rfl⟩

theorem errorText_eq (time : Tm) (error : Str) :
    errorText time error = time.stamp ++ ' ' :: error ++ ['\n'] := by
  have hclose : "] ".toList = "]".toList ++ [' '] := by decide
  have hfeed : "\n".toList = ['\n'] := by decide
  unfold errorText Tm.stamp
  rw [hclose, hfeed]
  simp only [List.append_assoc, List.cons_append, List.nil_append]

theorem errorTexts_no_lineFeed : ∀ error ∈ errorTexts, '\n' ∉ error := by decide +kernel

/-- A line of the errors log holds one line feed, at its end. -/
theorem isLine_errorText (time : Tm) {error : Str} (h : error ∈ errorTexts) :
    IsLine (errorText time error) := by
  have hstamp := (isField_stamp time).2
  have herror := errorTexts_no_lineFeed error h
  refine ⟨time.stamp ++ ' ' :: error, ?_, errorText_eq time error⟩
  simp only [List.mem_append, List.mem_cons, not_or]
  exact ⟨hstamp, by decide, herror⟩

/-- If what the processes print fits their buffers, nothing is in the file but the lines of
the processes that have exited. -/
theorem HostReachable.content_errors (hh : HostReachable boot h)
    (hparent : (texts boot.time .errors h.sys.done).length ≤ boot.cap)
    (hfits : ∀ c ∈ h.sys.children,
      (texts c.conn.env.actualTime .errors c.done).length ≤ boot.cap) :
    h.content .errors = (h.errorLines boot).flatten := by
  have hwhole : h.content .errors = h.output.order.flatMap fun p => h.output.given p .errors :=
    hh.content_eq hparent hfits
  rw [hwhole, Host.errorLines, List.flatten_eq_flatMap, List.flatMap_assoc]
  exact List.flatMap_congr fun p hp => (hh.errorsBy_given hp).trans List.flatten_eq_flatMap

theorem HostReachable.errorLines_known (hh : HostReachable boot h) :
    ∀ l ∈ h.errorLines boot, ∃ time, ∃ error ∈ errorTexts, l = errorText time error := by
  intro l hl
  obtain ⟨p, -, hl⟩ := List.mem_flatMap.mp hl
  exact hh.errorsBy_known hl

/-- A reader finds the lines. -/
theorem HostReachable.read_errors (hh : HostReachable boot h) :
    getlineAll (h.errorLines boot).flatten = h.errorLines boot := by
  have hlines : ∀ l ∈ h.errorLines boot, IsLine l := by
    intro l hl
    obtain ⟨time, error, herror, rfl⟩ := hh.errorLines_known l hl
    exact isLine_errorText time herror
  have hread := getlineAll_flatten hlines []
  rwa [List.append_nil, getlineAll_nil, List.append_nil] at hread

/-- Nothing of the parent is in the file before it exits. -/
theorem HostReachable.parent_errors (hh : HostReachable boot h)
    (hparent : (texts boot.time .errors h.sys.done).length ≤ boot.cap)
    (hwritten : SharedFiles.written .parent (h.output.file .errors) ≠ []) :
    ∃ halt, h.sys.parent = .stop halt := by
  refine hh.tied.parent_ended fun hrun => hwritten ?_
  have haccount := hh.tied.output.account .parent .errors
  rw [hh.tied.parent_given] at haccount
  exact haccount.kept (by rw [hrun]; decide) hparent

/-- What a process gives to `write_error` is a text of the source.  If what the processes
print fits their buffers, `errors.log` is the lines of the processes that have exited, one
behind the other in the order of the exits, and a reader finds them again.  Each is a time
and a text of the source.  A byte of the parent is there only if the parent has left its
loop. -/
theorem errors_log (hh : HostReachable boot h) :
    (∀ error ∈ errorsOf h.sys.done, error ∈ errorTexts) ∧
      (∀ c ∈ h.sys.children, ∀ error ∈ errorsOf c.done, error ∈ errorTexts) ∧
      ((texts boot.time .errors h.sys.done).length ≤ boot.cap →
        (∀ c ∈ h.sys.children,
          (texts c.conn.env.actualTime .errors c.done).length ≤ boot.cap) →
        h.content .errors = (h.errorLines boot).flatten ∧
          getlineAll (h.content .errors) = h.errorLines boot ∧
          (∀ l ∈ h.errorLines boot, ∃ time, ∃ error ∈ errorTexts, l = errorText time error) ∧
          (SharedFiles.written .parent (h.output.file .errors) ≠ [] →
            ∃ halt, h.sys.parent = .stop halt)) := by
  refine ⟨hh.sys.sound.parent_errors_known, fun c hc => (hh.sys.sound.child c hc).errors_known,
    fun hparent hfits => ?_⟩
  have hcontent := hh.content_errors hparent hfits
  exact ⟨hcontent, hcontent ▸ hh.read_errors, hh.errorLines_known, hh.parent_errors hparent⟩

end

/-! ## A page that is not there -/

/-- A connection that asks for a page that is not there. -/
def missingConnection : Connection where
  env := machine siteFile [("/w/x.html", "hi")]
  flux := some "GET /y.html HTTP/1.1\r\nHost: a\r\n\r\n".toList

/-- The child of a page that is not there has left a line. -/
theorem errors_log_missing : ∃ h, HostReachable smallBoot h ∧
    h.content .errors =
      errorText missingConnection.env.actualTime
        "stat error: no such file or directory".toList := by
  have hs : Reachable (.served missingConnection) := reachable_served (by decide +kernel)
  obtain ⟨h, hh, hsys, horder, -, -⟩ := exists_served_host smallBoot hs rfl
  obtain ⟨-, -, hlog⟩ := errors_log hh
  obtain ⟨hcontent, -⟩ := hlog (by rw [hsys]; decide +kernel) (by rw [hsys]; decide +kernel)
  refine ⟨h, hh, ?_⟩
  rw [hcontent, Host.errorLines, horder]
  simp only [List.flatMap_cons, List.flatMap_nil, List.append_nil, Host.errorsBy, hsys]
  decide +kernel

end Pawnee
