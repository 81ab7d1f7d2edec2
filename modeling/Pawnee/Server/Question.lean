import Pawnee.Server.Isolation

/-!
# What a client asks

Of all the bytes on a connection few decide what the child does: the method, the
version, the target without its query, and the host name without its port
(`Question`).  The other headers, their order, the query, and what is behind the request
do not matter, and neither does the address of the client.  The line in the requests log
has the address and the `User-Agent` besides.  Bytes whose request line is rejected ask
nothing (`asked`), since the child then goes on with fields that were never set.

`Course.Shown` is what can be seen of a course.  Two connections with the same question
have the same (`shown_eq`), and so two children with the same question do the same in
any two runs of the server on one machine (`question_decides`).
-/

namespace Pawnee

open CText Effects

/-! ## Questions -/

/-- The host name a request is looked up by, `none` if it has no value for `Host`. -/
def siteHost (headers : List HttpHeader) : Option Str :=
  match lookupHeader headers "Host".toList with
  | none | some [] => none
  | some host => some (strtokBuffer [':'] (host.take 255))

/-- What a request asks. -/
structure Question where
  method : HttpMethod
  major : Int
  minor : Int
  /-- The target without its query, `none` if it is nothing but `?`. -/
  resource : Option Str
  host : Option Str
deriving DecidableEq, Repr

/-- The question of a request. -/
def Request.question (q : Request) : Question :=
  ⟨q.method, q.major, q.minor, rewritten q.target, siteHost q.headers⟩

/-- What a connection asks. -/
inductive Asked where
  | noStream
  | noLine
  | request (question : Question)
deriving DecidableEq, Repr

/-- What the bytes of a connection ask, `none` if the request line is rejected. -/
def asked (flux : Option Str) : Option Asked :=
  match flux with
  | none => some .noStream
  | some stream =>
      match readRequest stream with
      | none => some .noLine
      | some (requestLine, headersBlock, _) =>
          (parseRequest requestLine headersBlock).map fun q => .request q.question

/-- The machine as a child sees it whose client has this address. -/
def Env.seenFrom (env : Env) (address : Str) : Env := { env with clientIp := address }

/-! ## Log lines without names -/

/-- A log line without what tells one client from another. -/
def LogEntry.unsigned (e : LogEntry) : LogEntry := { e with clientIp := [], userAgent := none }

/-- A call without what tells one client from another. -/
def Call.unsigned : Call → Call
  | .logRequest entry => .logRequest entry.unsigned
  | e => e

/-- What can be seen of a course, in whatever run. -/
structure Course.Shown where
  before : List Call
  counter : Option Counter
  lead : List Call
  halt : Halt
  /-- The course ends with the stats page. -/
  stats : Bool

/-- What a course shows. -/
def Course.shown (env : Env) (c : Course) : Course.Shown where
  before := c.before.map Call.unsigned
  counter := c.counter
  lead := c.ending.lead env
  halt := c.ending.halt
  stats := c.ending.isStats

/-! ## The lookups -/

/-- The site file a request selects is found by the host name. -/
theorem selectedSite_eq (env : Env) (headers : List HttpHeader) :
    selectedSite env headers =
      (siteHost headers).bind fun host => env.sites.bind (findSite host) := by
  unfold selectedSite siteHost
  cases lookupHeader headers "Host".toList with
  | none => rfl
  | some host =>
      cases host with
      | nil => rfl
      | cons c host => cases env.sites <;> rfl

/-- The calls of the lookup depend on the host name only in that there is one. -/
theorem lookupCalls_eq (env : Env) (headers : List HttpHeader) :
    lookupCalls env headers =
      match siteHost headers with
      | none => [.logError "missing or empty Host header".toList]
      | some _ =>
          match env.sites with
          | none => [.logError "cannot open sites directory".toList]
          | some _ => [] := by
  unfold lookupCalls siteHost
  cases lookupHeader headers "Host".toList with
  | none => rfl
  | some host => cases host <;> rfl

/-! ## Courses of one question -/

/-- A request with another target and other headers. -/
def Request.reworded (q : Request) (target : Str) (headers : List HttpHeader) : Request :=
  { q with target, headers }

/-- Two requests of one question differ in their targets and headers. -/
theorem Request.exists_of_question_eq {q q' : Request} (hq : q.question = q'.question) :
    ∃ target headers, q' = q.reworded target headers ∧
      rewritten target = rewritten q.target ∧ siteHost headers = siteHost q.headers := by
  obtain ⟨method, major, minor, target, headers⟩ := q
  obtain ⟨method', major', minor', target', headers'⟩ := q'
  simp only [question, Question.mk.injEq] at hq
  obtain ⟨rfl, rfl, rfl, htarget, hhost⟩ := hq
  exact ⟨target', headers', rfl, htarget.symm, hhost.symm⟩

section

variable {env : Env} {address : Str} {q : Request} {target : Str} {headers : List HttpHeader}

theorem lookupCalls_reworded (hhost : siteHost headers = siteHost q.headers) :
    lookupCalls (env.seenFrom address) (q.reworded target headers).headers =
      lookupCalls env q.headers := by
  rw [lookupCalls_eq, lookupCalls_eq, ← hhost]
  rfl

theorem selectedSite_reworded (hhost : siteHost headers = siteHost q.headers) :
    selectedSite (env.seenFrom address) (q.reworded target headers).headers =
      selectedSite env q.headers := by
  rw [selectedSite_eq, selectedSite_eq, ← hhost]
  rfl

theorem fileEnding_reworded (hhost : siteHost headers = siteHost q.headers) (r path : Str)
    (file : OpenFile) :
    (q.reworded target headers).fileEnding (env.seenFrom address) r path file =
      q.fileEnding env r path file := by
  have hreopen : reopenCalls (env.seenFrom address) (q.reworded target headers) path =
      reopenCalls env q path := by
    simp only [reopenCalls, lookupCalls_reworded hhost]
    rfl
  simp only [Request.fileEnding, hreopen]
  rfl

theorem Ending.lead_seenFrom (e : Ending) : e.lead (env.seenFrom address) = e.lead env := by
  cases e <;> rfl

/-- Courses that differ in the names on their log lines show the same. -/
theorem Course.shown_congr {before before' : List Call} {counter : Option Counter} {e : Ending}
    (hbefore : before.map Call.unsigned = before'.map Call.unsigned) :
    (⟨before, counter, e⟩ : Course).shown (env.seenFrom address) =
      (⟨before', counter, e⟩ : Course).shown env := by
  simp only [Course.shown, hbefore, Ending.lead_seenFrom]

theorem shown_fileCourse (hhost : siteHost headers = siteHost q.headers) (r : Str)
    (vhost : VhostConfig) :
    ((q.reworded target headers).fileCourse (env.seenFrom address) r vhost).shown
        (env.seenFrom address) = (q.fileCourse env r vhost).shown env := by
  have hopen : openResult (env.seenFrom address) (vhost.path r) =
    openResult env (vhost.path r) := rfl
  simp only [Request.fileCourse, hopen, lookupCalls_reworded hhost]
  cases openResult env (vhost.path r) with
  | none =>
      refine Course.shown_congr ?_
      simp only [List.map_append]
      rfl
  | some file =>
      simp only [fileEnding_reworded hhost]
      refine Course.shown_congr ?_
      simp only [List.map_append]
      rfl

theorem shown_siteCourse (hhost : siteHost headers = siteHost q.headers) (r : Str) :
    ((q.reworded target headers).siteCourse (env.seenFrom address) r).shown
        (env.seenFrom address) = (q.siteCourse env r).shown env := by
  simp only [Request.siteCourse, selectedSite_reworded hhost, lookupCalls_reworded hhost]
  cases selectedSite env q.headers with
  | none =>
      refine Course.shown_congr ?_
      simp only [List.map_append]
      rfl
  | some keys =>
      cases hv : keys.vhost with
      | none =>
          simp only [hv]
          exact Course.shown_congr rfl
      | some vhost =>
          have hpasses : RootPasses (env.seenFrom address) vhost.root.text ↔
            RootPasses env vhost.root.text := Iff.rfl
          simp only [hv, hpasses]
          by_cases hroot : RootPasses env vhost.root.text
          · simp only [if_pos hroot]
            exact shown_fileCourse hhost r vhost
          · simp only [if_neg hroot]
            exact Course.shown_congr rfl

/-- The courses of one question show the same. -/
theorem shown_reworded (htarget : rewritten target = rewritten q.target)
    (hhost : siteHost headers = siteHost q.headers) :
    ((q.reworded target headers).course (env.seenFrom address)).shown (env.seenFrom address) =
      (q.course env).shown env := by
  have hmethod : (q.reworded target headers).method = q.method := rfl
  have hmajor : (q.reworded target headers).major = q.major := rfl
  have hwritten : (q.reworded target headers).target = target := rfl
  simp only [Request.course, hmethod, hmajor, hwritten, htarget]
  by_cases hgate : q.method ≠ .unsupported ∧ 1 < q.major
  · rw [if_pos hgate, if_pos hgate]
    exact Course.shown_congr rfl
  · rw [if_neg hgate, if_neg hgate]
    cases rewritten q.target with
    | none => exact Course.shown_congr rfl
    | some r =>
        by_cases hunsupported : q.method = .unsupported
        · simp only [if_pos hunsupported]
          exact Course.shown_congr rfl
        · simp only [if_neg hunsupported]
          by_cases hstats : r = statsTarget
          · rw [if_pos hstats, if_pos hstats]
            rfl
          · rw [if_neg hstats, if_neg hstats]
            exact shown_siteCourse hhost r

end

/-- The courses of what is asked. -/
inductive Asked.Takes (env : Env) : Asked → Course → Prop
  | noStream : Takes env .noStream (.dies [.logError "fdopen error on socket".toList] .exitFailure)
  | noLine : Takes env .noLine (.dies [.logError "error reading request line".toList] .exitFailure)
  | request {q : Request} {question : Question} :
      q.question = question → Takes env (.request question) (q.course env)

/-- What is asked says which course a child takes. -/
theorem takes_course (env : Env) {flux : Option Str} {a : Asked} (h : asked flux = some a) :
    a.Takes env (course env flux) := by
  unfold asked at h
  unfold course
  cases flux with
  | none =>
      cases h
      exact .noStream
  | some stream =>
      cases hread : readRequest stream with
      | none =>
          simp only [hread] at h ⊢
          cases h
          exact .noLine
      | some parts =>
          obtain ⟨requestLine, headersBlock, unread⟩ := parts
          simp only [hread] at h ⊢
          obtain ⟨q, hq, rfl⟩ := Option.map_eq_some_iff.mp h
          simp only [hq]
          exact .request rfl

/-- Two courses of what is asked show the same. -/
theorem Asked.Takes.shown_eq {env : Env} {address : Str} {a : Asked} {c c' : Course}
    (h : a.Takes env c) (h' : a.Takes (env.seenFrom address) c') :
    c'.shown (env.seenFrom address) = c.shown env := by
  cases h with
  | noStream =>
      cases h'
      exact Course.shown_congr rfl
  | noLine =>
      cases h'
      exact Course.shown_congr rfl
  | request hq =>
      cases h' with
      | request hq' =>
          obtain ⟨target, headers, rfl, htarget, hhost⟩ :=
            Request.exists_of_question_eq (hq.trans hq'.symm)
          exact shown_reworded htarget hhost

/-- What a child shows is decided by its machine, but for the address of the client, and by
what its connection asks. -/
theorem shown_eq (env : Env) (address : Str) {flux flux' : Option Str} {a : Asked}
    (h : asked flux = some a) (h' : asked flux' = some a) :
    (course (env.seenFrom address) flux').shown (env.seenFrom address) =
      (course env flux).shown env :=
  (takes_course env h).shown_eq (takes_course _ h')

/-! ## Two runs -/

/-- An observation that does not look at the names on log lines. -/
def IgnoresNames {β : Type} (f : Call → Option β) : Prop := ∀ e, f e.unsigned = f e

/-- A call outside the shared memory, without names. -/
def unsignedCall (e : Call) : Option Call := (privateCall e).map Call.unsigned

/-- A call outside the shared memory that sends no body, without names. -/
def unsignedHeadCall (e : Call) : Option Call := (headCall e).map Call.unsigned

theorem ignoresNames_unsignedCall : IgnoresNames unsignedCall := by
  intro e
  cases e <;> rfl

theorem ignoresNames_unsignedHeadCall : IgnoresNames unsignedHeadCall := by
  intro e
  cases e with
  | write part data => cases part <;> rfl
  | _ => rfl

theorem IgnoresNames.filterMap_unsigned {β : Type} {f : Call → Option β} (hf : IgnoresNames f)
    (l : List Call) : (l.map Call.unsigned).filterMap f = l.filterMap f := by
  rw [List.filterMap_map]
  exact List.filterMap_congr fun e _ => hf e

/-- A child that has ended has counted what its course says. -/
theorem Child.Sound.storedCounter_eq {c : Child} (h : c.Sound) (hended : c.Ended) :
    observed storedCounter c.done = (course c.conn.env c.conn.flux).counter.toList := by
  obtain ⟨halt, hruns⟩ := h.runs hended
  rw [respondClient_eq] at hruns
  exact ((course_private _ _).history hruns).2

/-- Two children whose courses show the same are observed to do the same as far as both have
come, and one that has ended shows all that the other does. -/
theorem Child.Sound.observed_shown {β : Type} {f : Call → Option β} (hf : IgnoresCounts f)
    (hstore : ∀ k v, f (.store k v) = none) (hnames : IgnoresNames f) {c c' : Child}
    (h : c.Sound) (h' : c'.Sound)
    (hshown : (course c'.conn.env c'.conn.flux).shown c'.conn.env =
      (course c.conn.env c.conn.flux).shown c.conn.env)
    (hpage : IgnoresPage f (course c.conn.env c.conn.flux).ending)
    (hpage' : IgnoresPage f (course c'.conn.env c'.conn.flux).ending) :
    (observed f c.done <+: observed f c'.done ∨ observed f c'.done <+: observed f c.done) ∧
      (c.Ended → observed f c'.done <+: observed f c.done) := by
  obtain ⟨hpart, hwhole⟩ := h.observed_prefix hf hstore hpage
  obtain ⟨hpart', -⟩ := h'.observed_prefix hf hstore hpage'
  have hbefore : ((course c'.conn.env c'.conn.flux).before).filterMap f =
      ((course c.conn.env c.conn.flux).before).filterMap f := by
    rw [← hnames.filterMap_unsigned, ← hnames.filterMap_unsigned (course c.conn.env _).before]
    exact congrArg (fun shown : Course.Shown => shown.before.filterMap f) hshown
  have hlead : (course c'.conn.env c'.conn.flux).ending.lead c'.conn.env =
      (course c.conn.env c.conn.flux).ending.lead c.conn.env := congrArg Course.Shown.lead hshown
  rw [hbefore, hlead] at hpart'
  refine ⟨List.prefix_or_prefix_of_prefix hpart hpart', fun hended => ?_⟩
  rw [hwhole hended]
  exact hpart'

/-- A course that shows no stats page has none. -/
theorem Course.not_statsPage {env env' : Env} {c c' : Course}
    (hshown : c'.shown env' = c.shown env) (h : ∀ q, c.ending ≠ .statsPage q) :
    ∀ q, c'.ending ≠ .statsPage q := by
  intro q' hq'
  have hstats : c'.ending.isStats = c.ending.isStats := congrArg Course.Shown.stats hshown
  rw [hq'] at hstats
  cases he : c.ending with
  | calls l halt =>
      rw [he] at hstats
      cases hstats
  | statsPage q => exact h q he

/-- What a client is sent, what is logged and counted, and how its child ends is decided by
its question and the machine.  Two children on one machine whose connections ask the same
make the same calls outside the shared memory, in whatever runs they are, and end in the
same way with the same count.  They can differ in how far they have come, in the body of the
stats page, and in the address and the `User-Agent` on their log lines. -/
theorem question_decides {s s' : Sys} (hs : Reachable s) (hs' : Reachable s') {c c' : Child}
    (hc : c ∈ s.children) (hc' : c' ∈ s'.children) {address : Str} {a : Asked}
    (hmachine : c'.conn.env = c.conn.env.seenFrom address)
    (hasked : asked c.conn.flux = some a) (hasked' : asked c'.conn.flux = some a) :
    ((observed unsignedHeadCall c.done <+: observed unsignedHeadCall c'.done ∨
        observed unsignedHeadCall c'.done <+: observed unsignedHeadCall c.done) ∧
      (c.Ended → observed unsignedHeadCall c'.done <+: observed unsignedHeadCall c.done)) ∧
    ((∀ q, (course c.conn.env c.conn.flux).ending ≠ .statsPage q) →
      (observed unsignedCall c.done <+: observed unsignedCall c'.done ∨
        observed unsignedCall c'.done <+: observed unsignedCall c.done) ∧
      (c.Ended → observed unsignedCall c'.done <+: observed unsignedCall c.done)) ∧
    (c.Ended → c'.Ended → c.prog = c'.prog ∧
      observed storedCounter c.done = observed storedCounter c'.done) := by
  have h := hs.sound.child c hc
  have h' := hs'.sound.child c' hc'
  have hshown : (course c'.conn.env c'.conn.flux).shown c'.conn.env =
      (course c.conn.env c.conn.flux).shown c.conn.env := by
    rw [hmachine]
    exact shown_eq _ address hasked hasked'
  refine ⟨?_, fun hstats => ?_, fun hended hended' => ⟨?_, ?_⟩⟩
  · exact h.observed_shown ⟨rfl, rfl, fun _ => rfl⟩ (fun _ _ => rfl) ignoresNames_unsignedHeadCall
      h' hshown (fun _ _ _ => rfl) fun _ _ _ => rfl
  · exact h.observed_shown ⟨rfl, rfl, fun _ => rfl⟩ (fun _ _ => rfl) ignoresNames_unsignedCall
      h' hshown (fun q hq => absurd hq (hstats q))
      fun q hq => absurd hq (Course.not_statsPage hshown hstats q)
  · have hhalt : (course c'.conn.env c'.conn.flux).ending.halt =
        (course c.conn.env c.conn.flux).ending.halt := congrArg Course.Shown.halt hshown
    rw [h.prog_eq hended, h'.prog_eq hended', hhalt]
  · have hcounter : (course c'.conn.env c'.conn.flux).counter =
        (course c.conn.env c.conn.flux).counter := congrArg Course.Shown.counter hshown
    rw [h.storedCounter_eq hended, h'.storedCounter_eq hended', hcounter]

/-! ## The same page -/

/-- It asks for the page of `pageConnection` from another address, with other headers and a
query, and has more to say. -/
def wordyConnection : Connection where
  env := pageConnection.env.seenFrom "192.0.2.7".toList
  flux := some ("GET /x.html?day=1 HTTP/1.1\r\nUser-Agent: b\r\nhost:a:8080\r\n\r\n".toList ++
    "GET /y.html HTTP/1.1\r\n\r\n".toList)

theorem reachable_served_wordy : Reachable (.served wordyConnection) :=
  reachable_served (by decide +kernel)

/-- The page of a site. -/
def pageQuestion : Question := ⟨.get, 1, 1, some "x.html".toList, some "a".toList⟩

/-- Both clients get the same page. -/
theorem question_decides_page :
    ∃ c ∈ (Sys.served pageConnection).children, ∃ c' ∈ (Sys.served wordyConnection).children,
      written c.done ≠ [] ∧ observed unsignedCall c.done = observed unsignedCall c'.done ∧
        c.prog = c'.prog ∧ observed storedCounter c.done = observed storedCounter c'.done := by
  obtain ⟨c, hc, hconn, hended, hsent⟩ : ∃ c ∈ (Sys.served pageConnection).children,
      c.conn = pageConnection ∧ c.Ended ∧ written c.done ≠ [] :=
    ⟨_, List.mem_cons_self, rfl, ⟨_, rfl⟩, by decide +kernel⟩
  obtain ⟨c', hc', hconn', hended'⟩ : ∃ c' ∈ (Sys.served wordyConnection).children,
      c'.conn = wordyConnection ∧ c'.Ended := ⟨_, List.mem_cons_self, rfl, _, rfl⟩
  have hmachine : c'.conn.env = c.conn.env.seenFrom "192.0.2.7".toList := by
    rw [hconn, hconn']
    rfl
  have hmachine' : c.conn.env = c'.conn.env.seenFrom "127.0.0.1".toList := by
    rw [hconn, hconn']
    rfl
  have hasked : asked c.conn.flux = some (.request pageQuestion) := by
    rw [hconn]
    decide +kernel
  have hasked' : asked c'.conn.flux = some (.request pageQuestion) := by
    rw [hconn']
    decide +kernel
  have hstats : ∀ q, (course c.conn.env c.conn.flux).ending ≠ .statsPage q := by
    rw [hconn]
    exact pageConnection_not_stats
  have hstats' : ∀ q, (course c'.conn.env c'.conn.flux).ending ≠ .statsPage q := by
    rw [hmachine]
    exact Course.not_statsPage (shown_eq _ _ hasked hasked') hstats
  obtain ⟨-, hcalls, hend⟩ := question_decides reachable_served_page reachable_served_wordy hc hc'
    hmachine hasked hasked'
  obtain ⟨-, hcalls', -⟩ := question_decides reachable_served_wordy reachable_served_page hc' hc
    hmachine' hasked' hasked
  have hpart := (hcalls hstats).2 hended
  have hpart' := (hcalls' hstats').2 hended'
  exact ⟨c, hc, c', hc', hsent, hpart'.eq_of_length_le hpart.length_le, hend hended hended'⟩

end Pawnee
