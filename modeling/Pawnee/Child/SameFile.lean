import Pawnee.Child.Answers

/-!
# The checked file and the sent file

The child opens the file of a request to see whether it is there and how long it is,
and `send_response` opens it again to send it.  The two paths are built separately:
one from the root that `check_root` has given its slash, one from the root of a fresh
lookup.  Both end up as the root, one slash and the rewritten target, since the line
buffers of the readers are so short that no buffer of a path cuts anything
(`opensTwice_of_ok`).
-/

namespace Pawnee

open CText Effects

/-! ## The calls of one opening -/

/-- A root that passes is looked at once. -/
theorem rootCalls_of_passes {env : Env} {root : Str} (h : RootPasses env root) :
    rootCalls env root = [.access root, .stat root] := by
  obtain ⟨hacc, st, hst, hdir⟩ := h
  simp only [rootCalls, hacc, hst, hdir, if_true]

/-- A file that is found is looked at and opened. -/
theorem openCalls_of_some {env : Env} {path : Str} {file : OpenFile}
    (h : openResult env path = some file) : openCalls env path = [.stat path, .fopen path] := by
  cases hst : env.stat path with
  | none => simp [openResult, hst] at h
  | some st =>
      obtain ⟨hkind, hopen⟩ : ¬ (!st.isReg ∨ st.isDir) ∧ env.fopen path = some file := by
        simpa only [openResult, hst, Option.ite_none_left_eq_some] using h
      simp only [not_or, Bool.not_eq_true', Bool.not_eq_false] at hkind
      simp [openCalls, hst, hkind, hopen]

/-! ## Before and behind the status line -/

/-- The run looks at the root and opens the file, writes a status line with code 200,
and opens the same file again, if it does not end before in the scan of the mime
file. -/
def OpensTwice (env : Env) (root r : Str) (tr : List ServerEvent) (out : Except Halt Unit) :
    Prop :=
  ∃ checks line n sends, tr = checks ++ ⟨.write (.status 200) line, n⟩ :: sends ∧
    observed openedPath checks = [root, withSlash root ++ r, withSlash root ++ r] ∧
    (∀ mime, mimeType env r = .ok mime →
      observed openedPath sends = [withSlash root ++ r, withSlash root ++ r]) ∧
    ∀ f, mimeType env r = .error f → observed openedPath sends = [] ∧ out = .error (.fault f)

/-- A child that sends the code 200, but not the stats page, has found a file. -/
theorem finds_of_ok {env : Env} {q : Request} {tr : List ServerEvent} {out : Except Halt Unit}
    (h : Prog.Runs ((q.course env).prog env) tr out) (hok : 200 ∈ observed sentCode tr)
    (hstats : rewritten q.target ≠ some statsTarget) :
    ∃ r vhost file, q.Finds env r vhost ∧ openResult env (vhost.path r) = some file := by
  rw [(Request.observed_sentCode h).2] at hok
  have hmessage : ∀ (q' : Request) (code : Int) (reasonPhrase errorMessage : String),
      code ≠ 200 →
      200 ∉ ((q'.messageEnding env code reasonPhrase errorMessage).lead env).filterMap
        sentCode := by
    intro q' code reasonPhrase errorMessage hne
    rw [sent_messageEnding]
    split <;> simp [Ne.symm hne]
  have hbranch := q.branch env
  generalize q.course env = c at hbranch hok
  cases hbranch with
  | version => exact absurd hok (hmessage _ _ _ _ (by decide))
  | target => simp [Course.dies, Ending.lead] at hok
  | method => exact absurd hok (hmessage _ _ _ _ (by decide))
  | stats _ _ hr => exact absurd hr hstats
  | noSite => exact absurd hok (hmessage _ _ _ _ (by decide))
  | brokenSite => simp [Course.dies, Ending.lead] at hok
  | badRoot => simp [Course.dies, Ending.lead] at hok
  | missing => exact absurd hok (hmessage _ _ _ _ (by decide))
  | file hfinds hfile => exact ⟨_, _, _, hfinds, hfile⟩

/-- What is opened before the response. -/
theorem opened_before {env : Env} {q : Request} {r : Str} {vhost : VhostConfig} {file : OpenFile}
    (hfinds : q.Finds env r vhost) (hfile : openResult env (vhost.path r) = some file) :
    (q.course env).before.filterMap openedPath =
      [vhost.root.text, vhost.path r, vhost.path r] := by
  rw [(Request.Branch.file hfinds hfile).course_eq]
  simp only [List.filterMap_append, opened_logErrors lookupCalls_isLogError,
    rootCalls_of_passes hfinds.passes, openCalls_of_some hfile]
  rfl

/-- What is opened behind the status line. -/
theorem opened_behind {env : Env} {q : Request} {r : Str} {vhost : VhostConfig} {file : OpenFile}
    (hfile : openResult env (vhost.path r) = some file) :
    ∃ calls halt, q.fileEnding env r (vhost.path r) file = .calls (q.okStatus :: calls) halt ∧
      (∀ mime, mimeType env r = .ok mime →
        calls.filterMap openedPath = [vhost.path r, vhost.path r]) ∧
      ∀ f, mimeType env r = .error f → calls.filterMap openedPath = [] ∧ halt = .fault f := by
  have hmime : (mimeCalls env).filterMap openedPath = [] := opened_logErrors mimeCalls_isLogError
  have hreopen : (reopenCalls env q (vhost.path r)).filterMap openedPath =
      [vhost.path r, vhost.path r] := by
    simp only [reopenCalls, List.filterMap_append, hmime,
      opened_logErrors lookupCalls_isLogError, openCalls_of_some hfile]
    rfl
  unfold Request.fileEnding
  cases hscan : mimeType env r with
  | error f =>
      refine ⟨_, _, rfl, fun mime h => (by cases h), fun f' h => ?_⟩
      cases h
      exact ⟨hmime, rfl⟩
  | ok mime =>
      simp only
      split
      · refine ⟨reopenCalls env q (vhost.path r) ++ fileCalls env q file (getFileSize file) mime,
          _, rfl, fun _ _ => ?_, fun f h => by cases h⟩
        rw [List.filterMap_append, hreopen, filterMap_fileCalls fun _ => rfl]
        rfl
      · exact ⟨_, _, rfl, fun _ _ => hreopen, fun f h => by cases h⟩

/-- A child that has found a file opens it on both sides of the status line. -/
theorem Request.Finds.opensTwice {env : Env} {q : Request} {r : Str} {vhost : VhostConfig}
    {file : OpenFile} (hfinds : q.Finds env r vhost)
    (hfile : openResult env (vhost.path r) = some file) {tr : List ServerEvent}
    {out : Except Halt Unit} (h : Prog.Runs ((q.course env).prog env) tr out) :
    OpensTwice env vhost.root.text r tr out := by
  have hbefore := opened_before hfinds hfile
  rw [(Request.Branch.file hfinds hfile).course_eq] at h hbefore
  obtain ⟨tr₁, v, tr₂, rfl, hcalls, hrest⟩ := runs_course_split h
  obtain ⟨calls, halt, hending, hreopens, hfaults⟩ := opened_behind (q := q) hfile
  rw [hending] at hrest
  obtain ⟨n, tr₃, rfl, hdoing⟩ := Prog.runs_op_iff.mp hrest
  obtain ⟨hsends, rfl⟩ := Prog.runs_doing_stop_iff.mp hdoing
  have hsent : observed openedPath tr₃ = calls.filterMap openedPath := by rw [observed, hsends]
  refine ⟨_, _, n, tr₃, rfl, ?_, fun mime hmime => hsent.trans (hreopens mime hmime),
    fun f hf => ?_⟩
  · rw [observed_append, observed, hcalls, hbefore]
    rfl
  · obtain ⟨hnone, rfl⟩ := hfaults f hf
    exact ⟨hsent.trans hnone, rfl⟩

/-- A request that is answered with 200 from a file: the path opened to check and
measure it and the path opened to send it are both the root of the site, one slash if
it has none at its end, and the rewriting of the target as it stands in the request
line. -/
theorem opensTwice_of_ok {env : Env} {stream requestLine headersBlock unread : Str} {q : Request}
    (hread : readRequest stream = some (requestLine, headersBlock, unread))
    (hq : parseRequest requestLine headersBlock = some q) {tr : List ServerEvent}
    {out : Except Halt Unit} (h : Prog.Runs (respondClient env (some stream)) tr out)
    (hok : 200 ∈ observed sentCode tr) (hstats : rewritten q.target ≠ some statsTarget) :
    ∃ method target version keys root r,
      requestTokens requestLine = some (method, target, version) ∧
      selectedSite env q.headers = some keys ∧ keys.root = some root ∧
      rewritten target = some r ∧ OpensTwice env root r tr out := by
  have hbounded := parseRequest_bounded hread hq
  rw [respondClient_parsed hread hq] at h
  obtain ⟨r, vhost, file, hfinds, hfile⟩ := finds_of_ok h hok hstats
  obtain ⟨keys, hsite, hvhost⟩ := hfinds.site
  obtain ⟨m, t, v, major, minor, ht, -, rfl⟩ := parseRequest_eq_some.mp hq
  -- the target fits its buffer, since it is a part of the request line
  have hlen := (requestTokens_target ht).length_le
  have hline := readRequest_length hread
  have hwhole : t.take (maxTargetSize - 1) = t :=
    List.take_of_length_le (by rw [maxTargetSize]; omega)
  have hroot : keys.root = some vhost.root.text := by
    obtain ⟨hostname, root, logDir⟩ := keys
    cases hostname <;> cases root <;> cases logDir <;> cases hvhost
    rfl
  have hr : rewritten (t.take (maxTargetSize - 1)) = some r := hfinds.target
  rw [hwhole] at hr
  exact ⟨m, t, v, keys, _, r, ht, hsite, hroot, hr, hfinds.opensTwice hfile h⟩

/-- A page that is there. -/
theorem opensTwice_of_ok_page :
    ∃ checks line n sends,
      (Prog.play kindAnswer (respondClient (machine siteFile [("/w/x.html", "hi")])
        (some "GET /x.html?y HTTP/1.1\r\nHost: a\r\n\r\n".toList))).1 =
          checks ++ ⟨.write (.status 200) line, n⟩ :: sends ∧
      observed openedPath checks = ["/w/".toList, "/w/x.html".toList, "/w/x.html".toList] ∧
      observed openedPath sends = ["/w/x.html".toList, "/w/x.html".toList] := by
  obtain ⟨method, target, version, keys, root, r, htokens, hsite, hroot, hr, checks, line, n, sends,
      htr, hchecks, hreopens, -⟩ := opensTwice_of_ok
    (q := ⟨.get, 1, 1, "/x.html?y".toList, [⟨"Host".toList, "a".toList⟩]⟩)
    (show readRequest "GET /x.html?y HTTP/1.1\r\nHost: a\r\n\r\n".toList =
      some ("GET /x.html?y HTTP/1.1\r\n".toList, "Host: a\r\n".toList, []) by decide +kernel)
    (by decide +kernel) (Prog.play_runs kindAnswer
      (respondClient (machine siteFile [("/w/x.html", "hi")])
        (some "GET /x.html?y HTTP/1.1\r\nHost: a\r\n\r\n".toList)))
    (by decide +kernel) (by decide +kernel)
  have hline : requestTokens "GET /x.html?y HTTP/1.1\r\n".toList =
      some ("GET".toList, "/x.html?y".toList, "HTTP/1.1".toList) := by decide +kernel
  have hrewritten : rewritten "/x.html?y".toList = some "x.html".toList := by decide +kernel
  have hwww : (scanSite siteFile.toList).root = some "/w/".toList := by decide
  cases htokens.symm.trans hline
  cases hr.symm.trans hrewritten
  cases hsite.symm.trans (siteRequest_selects _)
  cases hroot.symm.trans hwww
  exact ⟨checks, line, n, sends, htr, hchecks, hreopens "text/html".toList rfl⟩

end Pawnee
