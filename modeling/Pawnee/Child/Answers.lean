import Pawnee.Child.RootBuffer

/-!
# Which requests are answered

A request is answered if every run of its child writes exactly one status line
and exits with success, and `check_root` has not written behind the root it was
given.  `Served` goes through the branches of `respond_client` and names, for
each, what the branch needs so that it uses no NULL pointer; `Answerable` adds
that the root of the site ends with a `/`.

A request that is rejected is never answered.  The struct has no headers then,
and the log line reads them (`rejected_reads_unset`).
-/

namespace Pawnee

open CText Effects

/-! ## The codes a course sends -/

theorem sent_messageEnding (env : Env) (q : Request) (code : Int)
    (reasonPhrase errorMessage : String) :
    ((q.messageEnding env code reasonPhrase errorMessage).lead env).filterMap sentCode =
      if q.method = .head then [] else [code] := by
  rw [messageEnding_lead]
  split <;> rfl

theorem sent_fileCalls (env : Env) (q : Request) (file : OpenFile) (size : Int) (mime : Str) :
    (fileCalls env q file size mime).filterMap sentCode = [] :=
  filterMap_fileCalls (fun _ => rfl) env q file size mime

/-- The branch of a file always sends its status line. -/
theorem sent_fileEnding (env : Env) (q : Request) (r path : Str) (file : OpenFile) :
    ((q.fileEnding env r path file).lead env).filterMap sentCode = [200] := by
  have hmime := filterMap_mimeCalls seesWrites_sentCode.ignoresLookups env
  have hreopen := filterMap_reopenCalls seesWrites_sentCode.ignoresLookups env q path
  unfold Request.fileEnding
  split
  · simp only [Ending.lead, List.filterMap_cons, Request.okStatus, sentCode, hmime]
  · split
    · simp only [Ending.lead, List.cons_append, List.filterMap_cons, Request.okStatus, sentCode,
        List.filterMap_append, hreopen, sent_fileCalls, List.append_nil]
    · simp only [Ending.lead, List.filterMap_cons, Request.okStatus, sentCode, hreopen]

/-- It ends well if the mime file can be scanned and the header lines fit. -/
theorem fileEnding_halt_iff {env : Env} {q : Request} {r path : Str} {file : OpenFile} :
    (q.fileEnding env r path file).halt = .exitSuccess ↔ MimeReadable env r ∧
      ∀ mime, mimeType env r = .ok mime →
        (fileLines env q file (getFileSize file) mime).length ≤ headerSize := by
  rw [← mimeType_ok_iff]
  unfold Request.fileEnding
  cases hmime : mimeType env r with
  | error f => simp [Ending.halt]
  | ok mime =>
      simp only [Except.ok.injEq, exists_eq', true_and, forall_eq']
      split
      · next hfits => simp [Ending.halt, hfits]
      · next hfits => simp [Ending.halt, hfits]

/-! ## Requests that are parsed -/

/-- The root that a call of `check_root` looks at first. -/
def checkedRoot : Call → Option Str
  | .access root => some root
  | _ => none

/-- Every run of the child exits with success and writes one status line, and each
root it has checked has stayed in the block that `strdup` made for it. -/
def Answered (env : Env) (stream : Str) : Prop :=
  ∀ tr out, Prog.Runs (respondClient env (some stream)) tr out →
    out = .error .exitSuccess ∧ (observed sentCode tr).length = 1 ∧
      ∀ root ∈ observed checkedRoot tr, StaysInBuffer env ⟨root, root.length + 1⟩

/-- What the branches need. -/
def Request.Served (env : Env) (q : Request) : Prop :=
  if q.method = .unsupported then ∃ c ∈ q.target, c ≠ '?'
  else if 1 < q.major then q.method = .get
  else
    ∃ r, rewritten q.target = some r ∧ (r ≠ statsTarget →
      match selectedSite env q.headers with
      | none => q.method = .get
      | some keys =>
          ∃ vhost, keys.vhost = some vhost ∧
            match openResult env (vhost.path r) with
            | none => q.method = .get
            | some file => MimeReadable env r ∧ ∀ mime, mimeType env r = .ok mime →
                (fileLines env q file (getFileSize file) mime).length ≤ headerSize)

/-- The request gets as far as the root of a site. -/
def Request.Selects (env : Env) (q : Request) (vhost : VhostConfig) : Prop :=
  ∃ r keys, q.Asks r ∧ selectedSite env q.headers = some keys ∧ keys.vhost = some vhost

/-- A request whose lookup of a file appends nothing to the root of its site. -/
structure Request.Answerable (env : Env) (q : Request) : Prop where
  served : q.Served env
  slash : ∀ vhost, q.Selects env vhost → vhost.root.text.getLast? = some '/'

/-- The roots of the sites pass `check_root`. -/
def RootsPass (env : Env) (headers : List HttpHeader) : Prop :=
  ∀ keys vhost, selectedSite env headers = some keys → keys.vhost = some vhost →
    RootPasses env vhost.root.text

/-- The codes of a request are those of its ending. -/
theorem Request.observed_sentCode {env : Env} {q : Request} {tr : List ServerEvent}
    {out : Except Halt Unit} (h : Prog.Runs ((q.course env).prog env) tr out) :
    out = .error (q.course env).ending.halt ∧
      observed sentCode tr = ((q.course env).ending.lead env).filterMap sentCode := by
  refine ⟨(observed_course seesWrites_sentCode.ignoresCounts (fun _ _ _ => rfl) h).1, ?_⟩
  rw [seesWrites_sentCode.observed_course (fun _ _ _ => rfl) h,
    seesWrites_sentCode.filterMap_preparation (q.branch env).before_isPreparation, List.nil_append]

/-- A supported method that is not GET is HEAD. -/
theorem method_eq_get_iff {m : HttpMethod} (h : m ≠ .unsupported) : m = .get ↔ m ≠ .head := by
  cases m <;> simp at h ⊢

/-- Whether the course of a request sends one status line and ends well. -/
theorem served_iff {env : Env} {q : Request} (hroots : ∀ r, q.Asks r → RootsPass env q.headers) :
    ((q.course env).ending.halt = .exitSuccess ∧
      (((q.course env).ending.lead env).filterMap sentCode).length = 1) ↔ q.Served env := by
  have hbranch := q.branch env
  generalize q.course env = c at hbranch
  unfold Request.Served
  cases hbranch with
  | version hm hv =>
      have hmsg := sent_messageEnding env { q with major := 1, minor := 1 } 505
        "HTTP Version Not Supported" "HTTP Version Not Supported\r\n"
      simp only [messageEnding_halt, hmsg, if_neg hm, if_pos hv, method_eq_get_iff hm]
      by_cases hhead : q.method = .head <;> simp [hhead]
  | target hlow hr =>
      have hall := rewritten_eq_none_iff.mp hr
      by_cases hm : q.method = .unsupported
      · simpa [Course.dies, Ending.halt, hm] using hall
      · simp [Course.dies, Ending.halt, hm, hlow.resolve_left hm, hr]
  | method hm hr =>
      have hsome : ∃ c ∈ q.target, c ≠ '?' := by
        by_contra hnone
        rw [rewritten_eq_none_iff.mpr (by simpa using hnone)] at hr
        cases hr
      simp [messageEnding_halt, sent_messageEnding, hm, hsome]
  | stats hm hv hr =>
      rw [if_neg hm, if_neg hv]
      exact iff_of_true ⟨rfl, rfl⟩ ⟨statsTarget, hr, fun h => absurd rfl h⟩
  | noSite hasks hsite =>
      have hget := method_eq_get_iff hasks.method
      simp only [messageEnding_halt, sent_messageEnding, hasks.target, hasks.method, hasks.major,
        hsite, hget]
      by_cases hhead : q.method = .head <;> simp [hhead, hasks.not_stats]
  | brokenSite hasks hsite hvhost =>
      simp [Course.dies, Ending.halt, hasks.target, hasks.method, hasks.major, hsite, hvhost,
        hasks.not_stats]
  | badRoot hasks hsite hvhost hpass => exact absurd (hroots _ hasks _ _ hsite hvhost) hpass
  | @missing r vhost hfinds hfile =>
      obtain ⟨keys, hsite, hvhost⟩ := hfinds.site
      have hget := method_eq_get_iff hfinds.method
      simp only [messageEnding_halt, sent_messageEnding, hfinds.target, hfinds.method,
        hfinds.major, hsite, hget]
      by_cases hhead : q.method = .head <;> simp [hhead, hfinds.not_stats, hvhost, hfile]
  | @file r vhost file hfinds hfile =>
      obtain ⟨keys, hsite, hvhost⟩ := hfinds.site
      simp only [fileEnding_halt_iff, sent_fileEnding, hfinds.target, hfinds.method,
        hfinds.major, hsite]
      simp [hfinds.not_stats, hvhost, hfile]

/-! ## The roots that are checked -/

theorem checked_logErrors {l : List Call} (h : ∀ e ∈ l, IsLogError e) :
    l.filterMap checkedRoot = [] :=
  filterMap_ignored fun e he => by
    have hlog := h e he
    cases e with
    | access root => exact hlog.elim
    | _ => rfl

theorem checked_openCalls (env : Env) (path : Str) :
    (openCalls env path).filterMap checkedRoot = [] :=
  filterMap_ignored fun e he => by
    rcases mem_openCalls he with rfl | rfl | hlog
    · rfl
    · rfl
    · cases e with
      | access root => exact hlog.elim
      | _ => rfl

/-- Whatever becomes of it, a root is looked at once. -/
theorem checked_rootCalls (env : Env) (root : Str) :
    (rootCalls env root).filterMap checkedRoot = [root] := by
  simp only [rootCalls]
  split
  · split
    · rfl
    · split <;> rfl
  · rfl

theorem checked_messageEnding (env : Env) (q : Request) (code : Int)
    (reasonPhrase errorMessage : String) :
    ((q.messageEnding env code reasonPhrase errorMessage).lead env).filterMap checkedRoot = [] := by
  rw [messageEnding_lead]
  split <;> rfl

/-- The second lookup of a file checks no root. -/
theorem checked_reopenCalls (env : Env) (q : Request) (path : Str) :
    (reopenCalls env q path).filterMap checkedRoot = [] := by
  simp only [reopenCalls, List.filterMap_append, checked_logErrors mimeCalls_isLogError,
    checked_logErrors lookupCalls_isLogError, checked_openCalls, List.append_nil]

theorem checked_fileEnding (env : Env) (q : Request) (r path : Str) (file : OpenFile) :
    ((q.fileEnding env r path file).lead env).filterMap checkedRoot = [] := by
  have hok : checkedRoot q.okStatus = none := rfl
  unfold Request.fileEnding
  split
  · rw [Ending.lead, List.filterMap_cons_none hok, checked_logErrors mimeCalls_isLogError]
  · next mime hm =>
    split
    · rw [Ending.lead, List.cons_append, List.filterMap_cons_none hok, List.filterMap_append,
        checked_reopenCalls, filterMap_fileCalls fun _ => rfl]
      rfl
    · rw [Ending.lead, List.filterMap_cons_none hok, checked_reopenCalls]

theorem Request.Selects.eq {env : Env} {q : Request} {vhost vhost' : VhostConfig}
    {keys : SiteKeys} (h : q.Selects env vhost') (hsite : selectedSite env q.headers = some keys)
    (hvhost : keys.vhost = some vhost) : vhost' = vhost := by
  obtain ⟨-, keys', -, hsite', hvhost'⟩ := h
  cases hsite'.symm.trans hsite
  exact Option.some.inj (hvhost'.symm.trans hvhost)

/-- The root of the site that is selected is the only one. -/
theorem Request.Asks.root_iff {env : Env} {q : Request} {r root : Str} {keys : SiteKeys}
    {vhost : VhostConfig} (hasks : q.Asks r) (hsite : selectedSite env q.headers = some keys)
    (hvhost : keys.vhost = some vhost) :
    root = vhost.root.text ↔ ∃ vhost, q.Selects env vhost ∧ root = vhost.root.text := by
  constructor
  · exact fun h => ⟨vhost, ⟨r, keys, hasks, hsite, hvhost⟩, h⟩
  · rintro ⟨vhost', hselects, h⟩
    rw [h, hselects.eq hsite hvhost]

/-- The child of a request checks the root of the site it selects, and no other. -/
theorem mem_checked_course {env : Env} {q : Request} {root : Str} :
    root ∈ (q.course env).before.filterMap checkedRoot ++
        ((q.course env).ending.lead env).filterMap checkedRoot ↔
      ∃ vhost, q.Selects env vhost ∧ root = vhost.root.text := by
  have hlog : (lookupCalls env q.headers).filterMap checkedRoot = [] :=
    checked_logErrors lookupCalls_isLogError
  have hrequest : ∀ entry, checkedRoot (.logRequest entry) = none := fun _ => rfl
  have herror : ∀ error, checkedRoot (.logError error) = none := fun _ => rfl
  have hbranch := q.branch env
  generalize q.course env = c at hbranch
  cases hbranch with
  | version hm hv =>
      refine iff_of_false (by simp [checked_messageEnding]) ?_
      rintro ⟨vhost, ⟨r, keys, hasks, -⟩, -⟩
      exact hasks.major hv
  | target hlow hr =>
      refine iff_of_false (by simp [Course.dies, Ending.lead, herror]) ?_
      rintro ⟨vhost, ⟨r, keys, hasks, -⟩, -⟩
      cases hasks.target.symm.trans hr
  | method hm hr =>
      refine iff_of_false (by simp [checked_messageEnding, hrequest]) ?_
      rintro ⟨vhost, ⟨r, keys, hasks, -⟩, -⟩
      exact hasks.method hm
  | stats hm hv hr =>
      refine iff_of_false (by simp [Ending.lead, statsHeadCalls, checkedRoot]) ?_
      rintro ⟨vhost, ⟨r, keys, hasks, -⟩, -⟩
      exact hasks.not_stats (Option.some.inj (hasks.target.symm.trans hr))
  | noSite hasks hsite =>
      refine iff_of_false (by simp [hlog, checked_messageEnding, hrequest, herror]) ?_
      rintro ⟨vhost, ⟨r, keys, -, hsite', -⟩, -⟩
      cases hsite'.symm.trans hsite
  | brokenSite hasks hsite hvhost =>
      refine iff_of_false (by simp [Course.dies, Ending.lead, hlog]) ?_
      rintro ⟨vhost, ⟨r, keys, -, hsite', hvhost'⟩, -⟩
      cases hsite'.symm.trans hsite
      cases hvhost'.symm.trans hvhost
  | badRoot hasks hsite hvhost hpass =>
      simpa [Course.dies, Ending.lead, hlog, checked_rootCalls] using hasks.root_iff hsite hvhost
  | missing hfinds hfile =>
      obtain ⟨keys, hsite, hvhost⟩ := hfinds.site
      simpa [hlog, checked_rootCalls, checked_openCalls, checked_messageEnding, hrequest] using
        hfinds.toAsks.root_iff hsite hvhost
  | file hfinds hfile =>
      obtain ⟨keys, hsite, hvhost⟩ := hfinds.site
      simpa [hlog, checked_rootCalls, checked_openCalls, checked_fileEnding, hrequest] using
        hfinds.toAsks.root_iff hsite hvhost

/-- The roots that the runs of a course check. -/
theorem Request.observed_checkedRoot {env : Env} {q : Request} {tr : List ServerEvent}
    {out : Except Halt Unit} (h : Prog.Runs ((q.course env).prog env) tr out) {root : Str} :
    root ∈ observed checkedRoot tr ↔ ∃ vhost, q.Selects env vhost ∧ root = vhost.root.text := by
  rw [observed_course_of_store ⟨rfl, rfl, fun _ => rfl⟩ (fun _ _ => rfl) (fun _ _ _ => rfl) h,
    mem_checked_course]

/-- A root that passes stays in the block made for it if it ends with a `/`. -/
theorem staysInBuffer_strdup {env : Env} {root : Str} (hpass : RootPasses env root) :
    StaysInBuffer env ⟨root, root.length + 1⟩ ↔ root.getLast? = some '/' := by
  rw [staysInBuffer_iff_fits hpass, withSlash]
  split
  · next hslash => exact iff_of_true (by simp) hslash
  · next hno => exact iff_of_false (by simp) hno

/-- A request is answered exactly if its branch has what it needs, and the root of its
site ends with a `/`. -/
theorem answered_iff {env : Env} {stream requestLine headersBlock unread : Str} {q : Request}
    (hread : readRequest stream = some (requestLine, headersBlock, unread))
    (hq : parseRequest requestLine headersBlock = some q) (hroots : RootsPass env q.headers) :
    Answered env stream ↔ q.Answerable env := by
  have hstays : ∀ {vhost : VhostConfig}, q.Selects env vhost →
      (StaysInBuffer env ⟨vhost.root.text, vhost.root.text.length + 1⟩ ↔
        vhost.root.text.getLast? = some '/') := by
    rintro vhost ⟨r, keys, -, hsite, hvhost⟩
    exact staysInBuffer_strdup (hroots keys vhost hsite hvhost)
  unfold Answered
  rw [respondClient_parsed hread hq]
  constructor
  · intro hall
    obtain ⟨tr, out, hruns⟩ := Prog.exists_runs ((q.course env).prog env)
    obtain ⟨hout, hobs⟩ := Request.observed_sentCode hruns
    obtain ⟨hexit, hone, hroot⟩ := hall tr out hruns
    rw [hout] at hexit
    rw [hobs] at hone
    refine ⟨(served_iff fun _ _ => hroots).mp ⟨by injection hexit, hone⟩, fun vhost hselects => ?_⟩
    exact (hstays hselects).mp
      (hroot _ ((Request.observed_checkedRoot hruns).mpr ⟨vhost, hselects, rfl⟩))
  · rintro ⟨hserved, hslash⟩ tr out hruns
    obtain ⟨hexit, hone⟩ := (served_iff fun _ _ => hroots).mpr hserved
    obtain ⟨hout, hobs⟩ := Request.observed_sentCode hruns
    refine ⟨by rw [hout, hexit], by rw [hobs]; exact hone, fun root hroot => ?_⟩
    obtain ⟨vhost, hselects, rfl⟩ := (Request.observed_checkedRoot hruns).mp hroot
    exact (hstays hselects).mpr (hslash vhost hselects)

/-- The only site of the small machine has a root that passes. -/
theorem rootsPass_machine (files : List (String × String)) (headers : List HttpHeader) :
    RootsPass (machine siteFile files) headers := by
  intro keys vhost hsite hvhost
  have hkeys : keys = scanSite siteFile.toList := by
    simp only [selectedSite, machine, findSite] at hsite
    split at hsite
    · cases hsite
    · cases hsite
    · split at hsite
      · cases hsite; rfl
      · cases hsite
  have hroot : vhost = ⟨⟨"a".toList, 2⟩, ⟨"/w/".toList, 4⟩, ⟨"/l/".toList, 4⟩⟩ := by
    have hsome : (scanSite siteFile.toList).vhost =
        some ⟨⟨"a".toList, 2⟩, ⟨"/w/".toList, 4⟩, ⟨"/l/".toList, 4⟩⟩ := by decide +kernel
    rw [hkeys, hsome] at hvhost
    injection hvhost with h
    exact h.symm
  rw [hroot]
  exact ⟨rfl, ⟨false, true⟩, rfl, rfl⟩

/-- A request for a page that is there. -/
theorem answered_iff_page :
    Answered (machine siteFile [("/w/x.html", "hi")])
        "GET /x.html HTTP/1.1\r\nHost: a\r\n\r\n".toList ↔
      (⟨.get, 1, 1, "/x.html".toList, [⟨"Host".toList, "a".toList⟩]⟩ : Request).Answerable
        (machine siteFile [("/w/x.html", "hi")]) :=
  answered_iff
    (show readRequest _ = some ("GET /x.html HTTP/1.1\r\n".toList, "Host: a\r\n".toList, [])
      by decide +kernel)
    (by decide +kernel) (rootsPass_machine _ _)

/-- HEAD for a page that is not there: `strlen` gets the NULL message. -/
theorem not_answered_head :
    ¬ ∀ (env : Env) (stream requestLine headersBlock unread : Str) (q : Request),
      readRequest stream = some (requestLine, headersBlock, unread) →
      parseRequest requestLine headersBlock = some q → RootsPass env q.headers →
      Answered env stream := by
  intro hall
  have hanswered := hall (machine siteFile []) "HEAD /x HTTP/1.1\r\nHost: a\r\n\r\n".toList
    "HEAD /x HTTP/1.1\r\n".toList "Host: a\r\n".toList []
    ⟨.head, 1, 1, "/x".toList, [⟨"Host".toList, "a".toList⟩]⟩ (by decide +kernel)
    (by decide +kernel) (rootsPass_machine _ _)
  exact absurd (hanswered _ _ (Prog.play_runs kindAnswer _)).2.1 (by decide +kernel)

/-! ## Requests that are rejected -/

/-- Every run of the child reads no unset member, logs one line, and sends one
response, both with code 400. -/
def RejectedCleanly (env : Env) (stream : Str) : Prop :=
  ∀ tr out, Prog.Runs (respondClient env (some stream)) tr out →
    out ≠ .error (.fault .unsetField) ∧ observed loggedCode tr = [400] ∧
      observed sentCode tr = [400]

/-- The child of a rejected request reads the headers that nothing has set,
before it makes any call. -/
theorem rejected_reads_unset {env : Env} {stream requestLine headersBlock unread : Str}
    {request : HttpRequest} (hread : readRequest stream = some (requestLine, headersBlock, unread))
    (hrej : parseHttpRequest requestLine headersBlock .uninit = .ret (false, request)) :
    respondClient env (some stream) = fault .unsetField := by
  have hnone : parseRequest requestLine headersBlock = none := by
    cases hq : parseRequest requestLine headersBlock with
    | none => rfl
    | some q =>
        obtain ⟨store, -, hparse⟩ := parseHttpRequest_of_some .uninit hq
        rw [hrej] at hparse
        cases hparse
  exact respondClient_rejected hread hnone

/-- No rejected request gets a clean response. -/
theorem rejected_not_clean {env : Env} {stream requestLine headersBlock unread : Str}
    {request : HttpRequest} (hread : readRequest stream = some (requestLine, headersBlock, unread))
    (hrej : parseHttpRequest requestLine headersBlock .uninit = .ret (false, request)) :
    ¬ RejectedCleanly env stream := by
  intro hclean
  have hruns : Prog.Runs (respondClient env (some stream)) [] (.error (.fault .unsetField)) := by
    rw [rejected_reads_unset hread hrej]
    exact .stop _
  exact (hclean _ _ hruns).1 rfl

/-- A request line of one token. -/
theorem rejected_not_clean_token :
    ¬ RejectedCleanly (machine siteFile []) "GET\r\n\r\n".toList :=
  rejected_not_clean (show readRequest _ = some ("GET\r\n".toList, [], []) by decide +kernel)
    (show parseHttpRequest _ _ _ = .ret (false, .uninit) from rfl)

/-- One token is enough to be rejected, and nothing is logged then. -/
theorem not_rejectedCleanly :
    ¬ ∀ (env : Env) (stream requestLine headersBlock unread : Str) (request : HttpRequest),
      readRequest stream = some (requestLine, headersBlock, unread) →
      parseHttpRequest requestLine headersBlock .uninit = .ret (false, request) →
      RejectedCleanly env stream := by
  intro hall
  have hclean := hall (machine siteFile []) "GET\r\n\r\n".toList "GET\r\n".toList [] [] .uninit
    (by decide +kernel) rfl
  exact absurd (hclean _ _ (Prog.play_runs kindAnswer _)).2.1 (by decide +kernel)

end Pawnee
