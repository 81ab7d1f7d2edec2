import Pawnee.Source.HttpParse

/-!
# Target rewriting and the requests log (`rewrite_target`, `log.c`)

`rewriteTarget` stops the process when the target has no byte but `?`.
`rewritten` is its result without the exit.  `getQueryParams` is the function
beside it that cuts the query.

`writeRequest` makes one call, the `fprintf` of one line, and `LogEntry.text` is
the text of that line.  `errorText` is that of a line of the errors log.
-/

namespace Pawnee

open CText Effects

/-! ## `rewrite_target` -/

/-- `rewrite_target`. -/
def rewriteTarget (target : Str) : Server Str :=
  match (strtok ['?'] target).1 with
  | none => do
      writeError "rewrite target error"
      exitFailure
  | some rewriteTarget =>
      if rewriteTarget = ['/'] then pure "index.html".toList
      else pure (rewriteTarget.drop 1)

/-- `get_query_params`, `none` for NULL. -/
def getQueryParams (target : Str) : Option Str :=
  match strtok ['?'] target with
  | (none, _) => none
  | (some _, rest) => (strtok ['?'] rest).1

/-- The result of `rewriteTarget`, `none` if it exits. -/
def rewritten (target : Str) : Option Str :=
  (strtok ['?'] target).1.map fun t => if t = ['/'] then "index.html".toList else t.drop 1

theorem rewriteTarget_of_some {target r : Str} (h : rewritten target = some r) :
    rewriteTarget target = .ret r := by
  obtain ⟨t, ht, rfl⟩ := Option.map_eq_some_iff.mp h
  simp only [rewriteTarget, ht]
  split <;> rfl

theorem rewriteTarget_of_none {target : Str} (h : rewritten target = none) :
    rewriteTarget target =
      .doing [.logError "rewrite target error".toList] exitFailure := by
  rw [rewritten, Option.map_eq_none_iff] at h
  simp only [rewriteTarget, h]
  rfl

/-- The rewriting exits on the targets whose only byte is `?`. -/
theorem rewritten_eq_none_iff {target : Str} : rewritten target = none ↔ ∀ c ∈ target, c = '?' := by
  rw [rewritten, Option.map_eq_none_iff, strtok_eq_none_iff]
  simp

/-- The rewriting makes nothing longer but the target `/`. -/
theorem rewritten_length_le {target r : Str} (h : rewritten target = some r) :
    r.length ≤ target.length + 9 := by
  obtain ⟨t, ht, hr⟩ := Option.map_eq_some_iff.mp h
  have hcut : strtok ['?'] target = (some t, (strtok ['?'] target).2) := by rw [← ht]
  have hpart : t.length ≤ target.length := (strtok_isInfix hcut).length_le
  split at hr
  · next hslash =>
    subst hr hslash
    simp only [List.length_singleton] at hpart
    simp
    omega
  · subst hr
    rw [List.length_drop]
    omega

/-! ## `write_request` -/

/-- `get_method`. -/
def getMethod : HttpMethod → Str
  | .get => "GET".toList
  | .head => "HEAD".toList
  | .unsupported => "UNSUPPORTED".toList

/-- The text of a log line. -/
def LogEntry.text (e : LogEntry) : Str :=
  "[".toList ++ formatInt2 e.time.mday ++ "/".toList ++ formatInt2 (e.time.mon + 1) ++ "/".toList ++
    formatInt (e.time.year + 1900) ++ "][".toList ++ formatInt2 e.time.hour ++ ":".toList ++
    formatInt2 e.time.min ++ ":".toList ++ formatInt2 e.time.sec ++ "] IP:".toList ++ e.clientIp ++
    " HTTP/".toList ++ formatInt e.httpMajor ++ ".".toList ++ formatInt e.httpMinor ++
    " ".toList ++ formatInt e.code ++ " ".toList ++ getMethod e.method ++ " ".toList ++
    e.target ++ " ".toList ++ e.userAgent.getD "(null)".toList ++ "\n".toList

/-- The text of the line `write_error` writes. -/
def errorText (time : Tm) (error : Str) : Str :=
  "[".toList ++ formatInt2 time.mday ++ "/".toList ++ formatInt2 (time.mon + 1) ++ "/".toList ++
    formatInt (time.year + 1900) ++ "][".toList ++ formatInt2 time.hour ++ ":".toList ++
    formatInt2 time.min ++ ":".toList ++ formatInt2 time.sec ++ "] ".toList ++ error ++ "\n".toList

/-- `write_request(get_log_requests(), request, code)`. -/
def writeRequest (env : Env) (request : HttpRequest) (code : Int) : Server Unit := do
  let headers ← field request.headers
  let userAgent ← getHeader headers "User-Agent".toList
  let httpMajor ← field request.httpMajor
  let httpMinor ← field request.httpMinor
  let method ← field request.method
  let target ← field request.target
  let target ← rewriteTarget target
  perform (.logRequest
    { time := env.actualTime
      clientIp := env.clientIp
      httpMajor, httpMinor, code, method, target, userAgent })

/-- The log line of a request whose rewritten target is `target`. -/
def logEntry (env : Env) (q : Request) (target : Str) (code : Int) : LogEntry where
  time := env.actualTime
  clientIp := env.clientIp
  httpMajor := q.major
  httpMinor := q.minor
  code := code
  method := q.method
  target := target
  userAgent := lookupHeader q.headers "User-Agent".toList

/-- A request whose target can be rewritten is logged in one line. -/
theorem writeRequest_of_some {env : Env} {q : Request} {store : HttpHeaders} {r : Str} (code : Int)
    (hh : Holds store q.headers) (hr : rewritten q.target = some r) :
    writeRequest env (q.filled store) code =
      .doing [.logRequest (logEntry env q r code)] (.ret ()) := by
  simp only [writeRequest, Request.filled, field_some, Prog.ret_bind, getHeader_eq hh,
    rewriteTarget_of_some hr]
  rfl

/-- Logging a request whose target cannot be rewritten exits. -/
theorem writeRequest_of_none {env : Env} {q : Request} {store : HttpHeaders} (code : Int)
    (hh : Holds store q.headers) (hr : rewritten q.target = none) :
    writeRequest env (q.filled store) code =
      .doing [.logError "rewrite target error".toList] exitFailure := by
  simp only [writeRequest, Request.filled, field_some, Prog.ret_bind, getHeader_eq hh,
    rewriteTarget_of_none hr, Prog.doing_bind, exitFailure_bind]

/-- Logging a request whose headers are not set reads them all the same. -/
theorem writeRequest_of_unset {env : Env} {request : HttpRequest} (code : Int)
    (h : request.headers = none) : writeRequest env request code = fault .unsetField := by
  simp only [writeRequest, h, field_none, fault_bind]

end Pawnee
