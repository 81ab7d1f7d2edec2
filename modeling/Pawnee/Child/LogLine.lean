import Pawnee.Child.CleanHeaders
import Pawnee.Child.Observed

/-!
# One request, one log line

A log line is six fields with a space behind each, the user agent, and a line feed
(`LogEntry.text_eq`).  The fields hold no space and nothing holds a line feed, since
the request has been cut at both: the target by `strtok` at spaces, from a request
line in which only the last byte can be a line feed, and the user agent from one
segment of the header block.  So the fields are read back from the line, whatever the
client sends (`writeRequest_oneLine`).
-/

namespace Pawnee

open CText Effects

/-! ## The line and its fields -/

/-- The date and time in front of a log line. -/
def Tm.stamp (t : Tm) : Str :=
  "[".toList ++ formatInt2 t.mday ++ "/".toList ++ formatInt2 (t.mon + 1) ++ "/".toList ++
    formatInt (t.year + 1900) ++ "][".toList ++ formatInt2 t.hour ++ ":".toList ++
    formatInt2 t.min ++ ":".toList ++ formatInt2 t.sec ++ "]".toList

/-- The version in a log line. -/
def versionField (major minor : Int) : Str :=
  "HTTP/".toList ++ formatInt major ++ ".".toList ++ formatInt minor

/-- The fields of a log line that are followed by a space. -/
def LogEntry.fields (e : LogEntry) : List Str :=
  [e.time.stamp, "IP:".toList ++ e.clientIp, versionField e.httpMajor e.httpMinor,
    formatInt e.code, getMethod e.method, e.target]

/-- The user agent in a log line. -/
def LogEntry.agent (e : LogEntry) : Str := e.userAgent.getD "(null)".toList

theorem LogEntry.text_eq (e : LogEntry) :
    e.text = (e.fields.map (· ++ [' '])).flatten ++ e.agent ++ ['\n'] := by
  have hip : "] IP:".toList = "]".toList ++ ([' '] ++ "IP:".toList) := by decide
  have hhttp : " HTTP/".toList = [' '] ++ "HTTP/".toList := by decide
  have hspace : " ".toList = [' '] := by decide
  have hfeed : "\n".toList = ['\n'] := by decide
  unfold LogEntry.text fields agent Tm.stamp versionField
  rw [hip, hhttp, hspace, hfeed]
  simp only [List.map_cons, List.map_nil, List.flatten_cons, List.flatten_nil, List.append_assoc,
    List.nil_append]

/-- A text without space and line feed. -/
def IsField (s : Str) : Prop := ' ' ∉ s ∧ '\n' ∉ s

instance (s : Str) : Decidable (IsField s) := inferInstanceAs (Decidable (_ ∧ _))

theorem isField_append {s t : Str} : IsField (s ++ t) ↔ IsField s ∧ IsField t := by
  simp only [IsField, List.mem_append, not_or]
  tauto

theorem isField_formatInt (i : Int) : IsField (formatInt i) :=
  ⟨notMem_formatInt (by decide) (by decide), notMem_formatInt (by decide) (by decide)⟩

theorem isField_formatInt2 (i : Int) : IsField (formatInt2 i) := by
  have hzero : IsField ['0'] := by decide
  unfold formatInt2
  split
  · exact isField_append.mpr ⟨hzero, isField_formatInt i⟩
  · exact isField_formatInt i

theorem isField_stamp (t : Tm) : IsField t.stamp := by
  unfold Tm.stamp
  simp only [isField_append, isField_formatInt, isField_formatInt2, and_true]
  decide

theorem isField_version (major minor : Int) : IsField (versionField major minor) := by
  unfold versionField
  simp only [isField_append, isField_formatInt, and_true]
  decide

theorem isField_method (method : HttpMethod) : IsField (getMethod method) := by
  cases method <;> decide

/-- The address, the target and the user agent are what a log line can take whole. -/
structure LogEntry.Clean (e : LogEntry) : Prop where
  address : IsField e.clientIp
  target : IsField e.target
  agent : '\n' ∉ e.agent

theorem LogEntry.Clean.fields {e : LogEntry} (h : e.Clean) : ∀ f ∈ e.fields, IsField f := by
  have hip : IsField "IP:".toList := by decide
  simp only [LogEntry.fields, List.forall_mem_cons, isField_append]
  exact ⟨isField_stamp _, ⟨hip, h.address⟩, isField_version _ _, isField_formatInt _,
    isField_method _, h.target, by simp⟩

/-- The text holds one line feed, at its end, and cutting it at single spaces gives
the fields and the user agent. -/
def IsLogLine (text : Str) (fields : List Str) (agent : Str) : Prop :=
  ∃ line, text = line ++ ['\n'] ∧ '\n' ∉ line ∧ cutFields fields.length line = (fields, agent)

theorem LogEntry.Clean.isLogLine {e : LogEntry} (h : e.Clean) :
    IsLogLine e.text e.fields e.agent := by
  refine ⟨_, e.text_eq, ?_, cutFields_join (fun f hf => (h.fields f hf).1) e.agent⟩
  simp only [List.mem_append, List.mem_flatten, List.mem_map, not_or, not_exists, not_and]
  refine ⟨?_, h.agent⟩
  rintro _ ⟨f, hf, rfl⟩ hmem
  simp only [List.mem_append, List.mem_singleton] at hmem
  exact hmem.elim (h.fields f hf).2 (by decide)

/-! ## What the request brings -/

/-- The request line is the bytes of one line, up to a NUL. -/
theorem readRequest_no_lineFeed {stream requestLine headersBlock unread : Str}
    (h : readRequest stream = some (requestLine, headersBlock, unread)) :
    '\n' ∉ requestLine.dropLast := by
  simp only [readRequest] at h
  split at h
  · cases h
  · next hline =>
    cases h
    exact no_lineFeed_of_prefix (fgets_no_lineFeed hline) (List.takeWhile_prefix _)

/-- The target holds no space, and no line feed since the version stands behind it. -/
theorem target_clean {requestLine headersBlock : Str} {q : Request}
    (hfeed : '\n' ∉ requestLine.dropLast)
    (hq : parseRequest requestLine headersBlock = some q) : IsField q.target := by
  obtain ⟨m, t, v, major, minor, ht, -, rfl⟩ := parseRequest_eq_some.mp hq
  obtain ⟨r₁, r₂, r₃, h1, h2, h3⟩ := requestTokens_eq_some.mp ht
  obtain ⟨lead₁, after₁, rfl, -, -, -, hafter₁⟩ := strtok_eq_some_iff.mp h1
  obtain ⟨lead₂, after₂, rfl, -, -, htoken, hafter₂⟩ := strtok_eq_some_iff.mp h2
  have hbehind : after₂ ≠ [] := by
    rintro rfl
    rcases hafter₂ with ⟨-, rfl⟩ | ⟨d, -, hd⟩
    · simp at h3
    · cases hd
  have hspace : ' ' ∉ t := no_delim_iff.mp htoken
  refine ⟨fun hm => hspace (List.mem_of_mem_take hm), fun hm => ?_⟩
  have hm' : '\n' ∈ t := List.mem_of_mem_take hm
  rcases hafter₁ with ⟨-, hnil⟩ | ⟨d, -, rfl⟩
  · have ht' := congrArg List.length hnil
    simp only [List.length_append, List.length_nil] at ht'
    have hne := List.length_pos_of_mem hm'
    omega
  · have hline : lead₁ ++ (m ++ d :: (lead₂ ++ (t ++ after₂))) =
        (lead₁ ++ (m ++ d :: (lead₂ ++ t))) ++ after₂ := by simp
    rw [hline] at hfeed
    exact no_lineFeed_of_append hfeed hbehind (by simp [hm'])

/-- Rewriting adds no byte of its own but those of the index page. -/
theorem mem_rewritten {target r : Str} (h : rewritten target = some r) {c : Char} (hc : c ∈ r) :
    c ∈ target ∨ c ∈ "index.html".toList := by
  obtain ⟨t, ht, rfl⟩ := Option.map_eq_some_iff.mp h
  have hpart : t <:+: target := strtok_isInfix (Prod.ext ht rfl)
  split at hc
  · exact .inr hc
  · exact .inl (hpart.subset (List.mem_of_mem_drop hc))

/-- A header value holds no line feed. -/
theorem value_no_lineFeed {block : Str} {header : HttpHeader}
    (h : header ∈ headersOf (strtokAll lineEnds block)) : '\n' ∉ header.value := by
  obtain ⟨line, hline, hreads⟩ := exists_line_of_mem_headersOf h
  obtain ⟨-, a, b, -, hends, -⟩ := mem_strtokAll hline
  exact fun hm => (hreads.fromSegment hends).value_bytes _ hm (by decide)

theorem agent_no_lineFeed {requestLine headersBlock : Str} {q : Request} (name : Str)
    (hq : parseRequest requestLine headersBlock = some q) :
    '\n' ∉ (lookupHeader q.headers name).getD "(null)".toList := by
  obtain ⟨m, t, v, major, minor, -, -, rfl⟩ := parseRequest_eq_some.mp hq
  cases hlookup : lookupHeader (headersOf (strtokAll lineEnds headersBlock)) name with
  | none =>
      change '\n' ∉ (lookupHeader (headersOf (strtokAll lineEnds headersBlock)) name).getD _
      rw [hlookup]
      decide
  | some value =>
      obtain ⟨header, hfind, rfl⟩ := Option.map_eq_some_iff.mp hlookup
      change '\n' ∉ (lookupHeader (headersOf (strtokAll lineEnds headersBlock)) name).getD _
      rw [hlookup]
      exact value_no_lineFeed (List.mem_of_find?_eq_some hfind)

/-! ## The line of a request -/

/-- The text of a method in a log line. -/
inductive LogsMethod : HttpMethod → Str → Prop
  | get : LogsMethod .get ['G', 'E', 'T']
  | head : LogsMethod .head ['H', 'E', 'A', 'D']
  | unsupported : LogsMethod .unsupported ['U', 'N', 'S', 'U', 'P', 'P', 'O', 'R', 'T', 'E', 'D']

theorem logsMethod_getMethod (method : HttpMethod) : LogsMethod method (getMethod method) := by
  cases method with
  | get => exact .get
  | head => exact .head
  | unsupported => exact .unsupported

/-- Logging a request that has been read and parsed appends one line, from which the
address, the version, the code, the method and the rewritten target are read back, and
the user agent behind them. -/
theorem writeRequest_oneLine {env : Env} {stream requestLine headersBlock unread : Str}
    {q : Request} {store : HttpHeaders}
    (hread : readRequest stream = some (requestLine, headersBlock, unread))
    (hq : parseRequest requestLine headersBlock = some q) (hh : Holds store q.headers)
    (haddress : IsField env.clientIp) (htarget : ∃ c ∈ q.target, c ≠ '?')
    (code : Int) {tr : List ServerEvent} {out : Except Halt Unit}
    (h : Prog.Runs (writeRequest env (q.filled store) code) tr out) :
    ∃ entry method r, tr = [⟨.logRequest entry, ()⟩] ∧ LogsMethod q.method method ∧
      rewritten q.target = some r ∧ IsLogLine entry.text
        [env.actualTime.stamp, "IP:".toList ++ env.clientIp, versionField q.major q.minor,
          formatInt code, method, r]
        ((lookupHeader q.headers "User-Agent".toList).getD "(null)".toList) := by
  have hsome : rewritten q.target ≠ none := by
    rw [ne_eq, rewritten_eq_none_iff]
    obtain ⟨c, hc, hne⟩ := htarget
    exact fun hall => hne (hall c hc)
  obtain ⟨r, hr⟩ := Option.ne_none_iff_exists'.mp hsome
  rw [writeRequest_of_some code hh hr] at h
  obtain ⟨_, tr', rfl, hrest⟩ := Prog.runs_op_iff.mp h
  obtain ⟨rfl, -⟩ := Prog.runs_ret_iff.mp hrest
  have hclean := target_clean (readRequest_no_lineFeed hread) hq
  have hentry : (logEntry env q r code).Clean :=
    ⟨haddress, ⟨fun hm => (mem_rewritten hr hm).elim hclean.1 (by decide),
      fun hm => (mem_rewritten hr hm).elim hclean.2 (by decide)⟩, agent_no_lineFeed _ hq⟩
  exact ⟨_, _, r, rfl, logsMethod_getMethod _, hr, hentry.isLogLine⟩

/-- A request with a query and a user agent with a space. -/
theorem writeRequest_oneLine_agent :
    ∃ entry, (Prog.play kindAnswer (writeRequest (machine siteFile [])
        ((⟨.get, 1, 1, "/x?y".toList, [⟨"user-agent".toList, "a b".toList⟩]⟩ : Request).filled
          ⟨some (some ⟨"user-agent".toList, "a b".toList⟩ :: List.replicate 7 none), 1, 8⟩)
        200)).1 = [⟨.logRequest entry, ()⟩] ∧
      IsLogLine entry.text
        [(machine siteFile []).actualTime.stamp, "IP:".toList ++ (machine siteFile []).clientIp,
          "HTTP/1.1".toList, "200".toList, "GET".toList, "x".toList] "a b".toList := by
  obtain ⟨entry, method, r, htr, hmethod, hr, hline⟩ := writeRequest_oneLine
    (q := ⟨.get, 1, 1, "/x?y".toList, [⟨"user-agent".toList, "a b".toList⟩]⟩)
    (show readRequest "GET /x?y HTTP/1.1\r\nuser-agent: a b\r\n\r\n".toList =
      some ("GET /x?y HTTP/1.1\r\n".toList, "user-agent: a b\r\n".toList, []) by decide +kernel)
    (by decide +kernel) ⟨rfl, by decide, List.replicate 7 none, rfl, rfl⟩ (by decide)
    ⟨'/', by decide, by decide⟩ 200
    (Prog.play_runs kindAnswer (writeRequest (machine siteFile [])
      ((⟨.get, 1, 1, "/x?y".toList, [⟨"user-agent".toList, "a b".toList⟩]⟩ : Request).filled
        ⟨some (some ⟨"user-agent".toList, "a b".toList⟩ :: List.replicate 7 none), 1, 8⟩) 200))
  have hx : rewritten "/x?y".toList = some "x".toList := by decide +kernel
  cases hmethod
  cases hr.symm.trans hx
  exact ⟨entry, htr, hline⟩

end Pawnee
