import Pawnee.Source.Http

/-!
# A child (`respond_client`)

`respondClient` is the child branch: it reads the request from the stream,
parses it, and takes one of the exit branches.  Each branch logs, counts and
answers by statements of its own.

A child looks at few answers, so what it does can be written down before it
runs.  A `Course` is a list of calls, at most one counted response, and an
ending.  `respondClient_eq` says that the child is exactly the course computed
from its input, and `runs_course` what the runs of a course are.  Properties of
all branches are then read off courses.
-/

namespace Pawnee

open CText Effects

/-! ## Reading the request -/

/-- The size of `request_line` and of `line`. -/
def lineSize : Nat := 1024

/-- The size of `headers_block`. -/
def headersBlockSize : Nat := 8192

/-- The two lines that end the header loop. -/
def isEndOfHeaders (line : Str) : Bool := line = "\r\n".toList ∨ line = "\n".toList

/-- The header loop over the lines `fgets` stores: the block, and the lines
that are left. -/
def readHeaders (headersBlock : Str) : List Str → Str × List Str
  | [] => (headersBlock, [])
  | line :: lines =>
      if isEndOfHeaders (cstr line) then (headersBlock, lines)
      else
        readHeaders (strncat headersBlock (cstr line) (headersBlockSize - headersBlock.length - 1))
          lines

/-- The request line, the header block and the unread rest of a stream, `none`
if there is no request line. -/
def readRequest (stream : Str) : Option (Str × Str × Str) :=
  match fgets lineSize stream with
  | none => none
  | some (requestLine, rest) =>
      let (headersBlock, unread) := readHeaders [] (fgetsAll lineSize rest)
      some (cstr requestLine, headersBlock, unread.flatten)

/-! ## `respond_client` -/

/-- The rewritten target of the stats page. -/
def statsTarget : Str := "stats".toList

/-- The increment of a counter between `sem_wait` and `sem_post`. -/
def countOne (c : Counter) : Server Unit := do
  perform .semWait
  let v ← perform (.load c)
  perform (.store c (v + 1))
  perform .semPost

/-- The end of the branches that answer with a message: `error_message` is NULL
for HEAD, and `strlen` gets it all the same. -/
def sendError (env : Env) (request : HttpRequest) (code : Int)
    (reasonPhrase errorMessage : String) : Server Unit := do
  let method ← field request.method
  let errorMessage ← pointee (if method ≠ .head then some errorMessage.toList else none)
  let _ ← sendResponse env request code reasonPhrase.toList errorMessage errorMessage.length
  exitSuccess

/-- The last branches: the file is there or not. -/
def respondFile (env : Env) (request : HttpRequest) (target : Str) (vhost : VhostConfig) :
    Server Unit := do
  let root ← checkRoot env vhost.root
  let file ← checkAndOpen env target (some root.text)
  match file with
  | none => do
      writeRequest env request 404
      countOne .ko404
      sendError env request 404 "Not Found" "Not Found\r\n"
  | some file => do
      writeRequest env request 200
      countOne .ok200
      let requestTarget ← field request.target
      let messageBody ← rewriteTarget requestTarget
      let _ ← sendResponse env request 200 "OK".toList messageBody (getFileSize file)
      exitSuccess

/-- The branches for a request that is parsed. -/
def respondParsed (env : Env) (request : HttpRequest) : Server Unit := do
  let method ← field request.method
  if method = .unsupported then do
    writeRequest env request 405
    countOne .ko405
    sendError env request 405 "Method Not Allowed" "Method Not Allowed\r\n"
  else do
    let version ← checkHttpVersion request
    if version ≠ 0 then
      sendError env { request with httpMajor := some 1, httpMinor := some 1 } 505
        "HTTP Version Not Supported" "HTTP Version Not Supported\r\n"
    else do
      let requestTarget ← field request.target
      let target ← rewriteTarget requestTarget
      if target = statsTarget then do
        writeRequest env request 200
        countOne .ok200
        sendStats env request
        exitSuccess
      else do
        let vhost ← getVhostConfig env request
        match vhost with
        | none => do
            writeError "vhost root error"
            writeRequest env request 400
            countOne .ko400
            sendError env request 400 "Bad Request" "Bad request\r\n"
        | some vhost => respondFile env request target vhost

/-- The child branch of `respond_client`.  `flux` is what `fdopen` returns. -/
def respondClient (env : Env) (flux : Option Str) : Server Unit :=
  match flux with
  | none => do
      writeError "fdopen error on socket"
      exitFailure
  | some stream =>
      match readRequest stream with
      | none => do
          writeError "error reading request line"
          exitFailure
      | some (requestLine, headersBlock, _) => do
          let (parsed, request) ← parseHttpRequest requestLine headersBlock .uninit
          if !parsed then do
            writeRequest env request 400
            countOne .ko400
            sendError env request 400 "Bad Request" "Bad request\r\n"
          else respondParsed env request

/-! ## Courses -/

/-- How a child ends. -/
inductive Ending where
  /-- It makes these calls and ends so. -/
  | calls (l : List Call) (halt : Halt)
  /-- It sends the stats page and exits with success. -/
  | statsPage (q : Request)

/-- What a child does. -/
structure Course where
  /-- The calls before it counts a response. -/
  before : List Call
  /-- The counter it increments, if any. -/
  counter : Option Counter
  /-- The calls behind, and the end. -/
  ending : Ending

/-- The program of an ending. -/
def Ending.prog (env : Env) : Ending → Server Unit
  | .calls l halt => .doing l (.stop halt)
  | .statsPage q =>
      .doing [.write (.status 200) (statusLine q.major q.minor 200 "OK".toList)]
        (.op (.write .header (statsHeader env)) fun written =>
          (if written < 0 then .ret () else sendStatsBody env) >>= fun _ => exitSuccess)

/-- Count a response if there is a counter for it, then go on. -/
def counting (counter : Option Counter) (p : Server Unit) : Server Unit :=
  match counter with
  | none => p
  | some c => do
      countOne c
      p

/-- The program of a course. -/
def Course.prog (env : Env) (c : Course) : Server Unit :=
  .doing c.before (counting c.counter (c.ending.prog env))

/-- A child that ends without a response. -/
def Course.dies (l : List Call) (halt : Halt) : Course := ⟨l, none, .calls [] halt⟩

/-- The ending of the branches that answer with a message. -/
def Request.messageEnding (env : Env) (q : Request) (code : Int)
    (reasonPhrase errorMessage : String) : Ending :=
  if q.method = .head then .calls [] (.fault .nullPointer)
  else .calls (messageCalls env q code reasonPhrase.toList errorMessage.toList) .exitSuccess

/-- The status line of a file. -/
def Request.okStatus (q : Request) : Call :=
  .write (.status 200) (statusLine q.major q.minor 200 "OK".toList)

/-- The ending of the branch that answers with a file. -/
def Request.fileEnding (env : Env) (q : Request) (r path : Str) (file : OpenFile) : Ending :=
  match mimeType env r with
  | .error f => .calls (q.okStatus :: mimeCalls env) (.fault f)
  | .ok mime =>
      if (fileLines env q file (getFileSize file) mime).length ≤ headerSize then
        .calls (q.okStatus :: reopenCalls env q path ++
          fileCalls env q file (getFileSize file) mime) .exitSuccess
      else .calls (q.okStatus :: reopenCalls env q path) (.fault .outOfBounds)

/-- The file of a rewritten target. -/
def VhostConfig.path (vhost : VhostConfig) (r : Str) : Str := withSlash vhost.root.text ++ r

/-- The course of a request whose site is found and whose root passes. -/
def Request.fileCourse (env : Env) (q : Request) (r : Str) (vhost : VhostConfig) : Course :=
  let before := lookupCalls env q.headers ++ rootCalls env vhost.root.text ++
    openCalls env (vhost.path r)
  match openResult env (vhost.path r) with
  | none => ⟨before ++ [.logRequest (logEntry env q r 404)], some .ko404,
      q.messageEnding env 404 "Not Found" "Not Found\r\n"⟩
  | some file => ⟨before ++ [.logRequest (logEntry env q r 200)], some .ok200,
      q.fileEnding env r (vhost.path r) file⟩

/-- The course of a request that asks for a file. -/
def Request.siteCourse (env : Env) (q : Request) (r : Str) : Course :=
  match selectedSite env q.headers with
  | none => ⟨lookupCalls env q.headers ++
      [.logError "vhost root error".toList, .logRequest (logEntry env q r 400)], some .ko400,
      q.messageEnding env 400 "Bad Request" "Bad request\r\n"⟩
  | some keys =>
      match keys.vhost with
      | none => .dies (lookupCalls env q.headers) (.fault .nullPointer)
      | some vhost =>
          if RootPasses env vhost.root.text then q.fileCourse env r vhost
          else .dies (lookupCalls env q.headers ++ rootCalls env vhost.root.text) .exitFailure

/-- The course of a request that is parsed. -/
def Request.course (env : Env) (q : Request) : Course :=
  if q.method ≠ .unsupported ∧ 1 < q.major then
    ⟨[], none, { q with major := 1, minor := 1 }.messageEnding env 505
      "HTTP Version Not Supported" "HTTP Version Not Supported\r\n"⟩
  else
    match rewritten q.target with
    | none => .dies [.logError "rewrite target error".toList] .exitFailure
    | some r =>
        if q.method = .unsupported then
          ⟨[.logRequest (logEntry env q r 405)], some .ko405,
            q.messageEnding env 405 "Method Not Allowed" "Method Not Allowed\r\n"⟩
        else if r = statsTarget then
          ⟨[.logRequest (logEntry env q r 200)], some .ok200, .statsPage q⟩
        else q.siteCourse env r

/-- The course of a child. -/
def course (env : Env) (flux : Option Str) : Course :=
  match flux with
  | none => .dies [.logError "fdopen error on socket".toList] .exitFailure
  | some stream =>
      match readRequest stream with
      | none => .dies [.logError "error reading request line".toList] .exitFailure
      | some (requestLine, headersBlock, _) =>
          match parseRequest requestLine headersBlock with
          | none => .dies [] (.fault .unsetField)
          | some q => q.course env

/-! ## The child is its course -/

/-- The bounds of a request that has been read through the line buffer. -/
structure Request.Bounded (q : Request) : Prop where
  major : IsInt32 q.major
  minor : IsInt32 q.minor
  target : q.target.length ≤ 1023

theorem readRequest_length {stream requestLine headersBlock unread : Str}
    (h : readRequest stream = some (requestLine, headersBlock, unread)) :
    requestLine.length ≤ 1023 := by
  simp only [readRequest] at h
  split at h
  · cases h
  · next hline =>
    cases h
    exact (cstr_sublist _).length_le.trans (fgets_length_le hline)

theorem parseRequest_bounded {stream requestLine headersBlock unread : Str} {q : Request}
    (hr : readRequest stream = some (requestLine, headersBlock, unread))
    (hq : parseRequest requestLine headersBlock = some q) : q.Bounded := by
  obtain ⟨h1, h2, h3⟩ := parseRequest_bounds hq
  exact ⟨h1, h2, h3.trans (readRequest_length hr)⟩

/-- A status line of a bounded request fits its buffer. -/
theorem Request.Bounded.status {q : Request} (hq : q.Bounded) {code : Int} (hcode : IsInt32 code)
    {reasonPhrase : Str} (hr : reasonPhrase.length ≤ 84) :
    (statusLine q.major q.minor code reasonPhrase).length < statusLineSize :=
  statusLine_length_lt hq.major hq.minor hcode hr

theorem counting_doing (c : Counter) (p : Server Unit) :
    (countOne c >>= fun _ => p) = counting (some c) p := rfl

section

variable {env : Env} {q : Request} {store : HttpHeaders}

theorem sendError_eq (hq : q.Bounded) {code : Int} (hcode : IsInt32 code) (hne : code ≠ 200)
    {reasonPhrase errorMessage : String} (hr : reasonPhrase.toList.length ≤ 84)
    (hm : errorMessage.toList.length ≤ 84) :
    sendError env (q.filled store) code reasonPhrase errorMessage =
      (q.messageEnding env code reasonPhrase errorMessage).prog env := by
  have hsize : IsInt32 errorMessage.toList.length := ⟨by omega, by omega⟩
  have hmethod : field (q.filled store).method = .ret q.method := rfl
  unfold sendError Request.messageEnding
  rw [hmethod, Prog.ret_bind]
  by_cases hhead : q.method = .head
  · simp only [hhead, ne_eq, not_true, if_false, pointee_none, fault_bind, if_true]
    rfl
  · simp only [hhead, ne_eq, not_false_iff, if_true, pointee_some, Prog.ret_bind, if_false,
      sendResponse_message env q store hne (hq.status hcode hr) hsize, Prog.doing_bind]
    rfl

/-- The path the child opens, and the path the response opens again. -/
theorem fullPath_vhost {keys : SiteKeys} {vhost : VhostConfig} {r : Str} (hq : q.Bounded)
    (hr : rewritten q.target = some r) (hsite : selectedSite env q.headers = some keys)
    (hvhost : keys.vhost = some vhost) :
    fullPath (withSlash vhost.root.text) r = vhost.path r ∧
      fullPath vhost.root.text r = vhost.path r := by
  have hroot := (vhost_root_bounded (selectedSite_bounded hsite) hvhost).2
  have htarget := hq.target
  have hlen := rewritten_length_le hr
  have hslash := withSlash_length_le vhost.root.text
  constructor
  · rw [fullPath_eq (by simp only [pathMax]; omega), withSlash_withSlash]
    rfl
  · exact fullPath_eq (by simp only [pathMax]; omega)

theorem sendResponse_ok {keys : SiteKeys} {vhost : VhostConfig} {r : Str} {file : OpenFile}
    (hq : q.Bounded) (hh : Holds store q.headers) (hr : rewritten q.target = some r)
    (hsite : selectedSite env q.headers = some keys) (hvhost : keys.vhost = some vhost)
    (hfile : openResult env (vhost.path r) = some file) :
    (sendResponse env (q.filled store) 200 "OK".toList r (getFileSize file) >>= fun _ =>
        exitSuccess) =
      (q.fileEnding env r (vhost.path r) file).prog env := by
  have hroot := (vhost_root_bounded (selectedSite_bounded hsite) hvhost).1
  have hpath := (fullPath_vhost hq hr hsite hvhost).2
  have hcode : IsInt32 200 := ⟨by decide, by decide⟩
  have hstatus := hq.status hcode (show "OK".toList.length ≤ 84 by decide)
  unfold Request.fileEnding
  cases hmime : mimeType env r with
  | error f =>
      rw [sendResponse_mime_fault hmime hstatus, Prog.doing_bind]
      rfl
  | ok mime =>
      have hsize : IsInt32 (getFileSize file) := toInt32_bounds _
      rw [← hpath] at hfile
      rw [sendResponse_file hh hmime hsite hvhost hroot hfile hsize hstatus,
        Prog.doing_bind, hpath]
      simp only
      split
      · rw [Prog.doing_bind, Prog.doing_doing]
        rfl
      · rfl

theorem respondFile_eq {keys : SiteKeys} {vhost : VhostConfig} {r : Str} (hq : q.Bounded)
    (hh : Holds store q.headers) (hr : rewritten q.target = some r)
    (hsite : selectedSite env q.headers = some keys) (hvhost : keys.vhost = some vhost)
    (hpass : RootPasses env vhost.root.text) :
    .doing (lookupCalls env q.headers) (respondFile env (q.filled store) r vhost) =
      (q.fileCourse env r vhost).prog env := by
  have hpath := (fullPath_vhost hq hr hsite hvhost).1
  have htarget : field (q.filled store).target = .ret q.target := rfl
  unfold respondFile Request.fileCourse
  simp only [checkRoot_eq, if_pos hpass, Prog.doing_bind, Prog.ret_bind,
    checkAndOpen_eq env r (withSlash_ne_nil _), hpath, Prog.doing_doing]
  cases hfile : openResult env (vhost.path r) with
  | none =>
      simp only [writeRequest_of_some 404 hh hr, Prog.doing_bind, Prog.ret_bind, Prog.doing_doing,
        counting_doing]
      rw [sendError_eq hq ⟨by decide, by decide⟩ (by decide) (by decide) (by decide)]
      simp only [← List.append_assoc]
      rfl
  | some file =>
      simp only [writeRequest_of_some 200 hh hr, Prog.doing_bind, Prog.ret_bind, Prog.doing_doing,
        counting_doing, htarget, rewriteTarget_of_some hr,
        sendResponse_ok hq hh hr hsite hvhost hfile, ← List.append_assoc]
      rfl

theorem siteCourse_eq {r : Str} (hq : q.Bounded) (hh : Holds store q.headers)
    (hr : rewritten q.target = some r) :
    (getVhostConfig env (q.filled store) >>= fun vhost =>
      match vhost with
      | none => do
          writeError "vhost root error"
          writeRequest env (q.filled store) 400
          countOne .ko400
          sendError env (q.filled store) 400 "Bad Request" "Bad request\r\n"
      | some vhost => respondFile env (q.filled store) r vhost) =
      (q.siteCourse env r).prog env := by
  unfold Request.siteCourse
  rw [getVhostConfig_eq env hh, Prog.doing_bind]
  cases hsite : selectedSite env q.headers with
  | none =>
      simp only [writeError, writeRequest_of_some 400 hh hr, Prog.doing_bind, Prog.ret_bind,
        Prog.call_bind, Prog.op_const, Prog.doing_doing, counting_doing]
      rw [sendError_eq hq ⟨by decide, by decide⟩ (by decide) (by decide) (by decide)]
      rfl
  | some keys =>
      simp only [vhostOf_eq]
      cases hvhost : keys.vhost with
      | none => rfl
      | some vhost =>
          simp only [Prog.ret_bind]
          by_cases hpass : RootPasses env vhost.root.text
          · rw [if_pos hpass]
            exact respondFile_eq hq hh hr hsite hvhost hpass
          · unfold respondFile
            rw [if_neg hpass, checkRoot_eq, if_neg hpass, Prog.doing_bind, exitFailure_bind,
              Prog.doing_doing]
            rfl

theorem respondParsed_eq (hq : q.Bounded) (hh : Holds store q.headers) :
    respondParsed env (q.filled store) = (q.course env).prog env := by
  have hmethod : field (q.filled store).method = .ret q.method := rfl
  have htarget : field (q.filled store).target = .ret q.target := rfl
  unfold respondParsed Request.course
  rw [hmethod, Prog.ret_bind]
  by_cases hun : q.method = .unsupported
  · simp only [hun, if_true, ne_eq, not_true, false_and, if_false]
    cases hr : rewritten q.target with
    | none =>
        rw [writeRequest_of_none 405 hh hr, Prog.doing_bind]
        rfl
    | some r =>
        simp only [writeRequest_of_some 405 hh hr, Prog.doing_bind, Prog.ret_bind, counting_doing]
        rw [sendError_eq hq ⟨by decide, by decide⟩ (by decide) (by decide) (by decide)]
        rfl
  · rw [if_neg hun]
    by_cases hmajor : 1 < q.major
    · have hversion : checkHttpVersion (q.filled store) = .ret 1 :=
        congrArg Prog.ret (if_pos hmajor)
      have hone : IsInt32 1 := ⟨by decide, by decide⟩
      have hq' : ({ q with major := 1, minor := 1 } : Request).Bounded := ⟨hone, hone, hq.target⟩
      rw [hversion, Prog.ret_bind, if_pos (by decide), if_pos ⟨hun, hmajor⟩]
      exact sendError_eq hq' ⟨by decide, by decide⟩ (by decide) (by decide) (by decide)
    · have hversion : checkHttpVersion (q.filled store) = .ret 0 :=
        congrArg Prog.ret (if_neg hmajor)
      have hlow : ¬ (q.method ≠ .unsupported ∧ 1 < q.major) := fun h => hmajor h.2
      rw [hversion, Prog.ret_bind, if_neg (by decide), if_neg hlow, htarget, Prog.ret_bind]
      cases hr : rewritten q.target with
      | none =>
          rw [rewriteTarget_of_none hr, Prog.doing_bind]
          rfl
      | some r =>
          simp only [rewriteTarget_of_some hr, Prog.ret_bind, if_neg hun]
          by_cases hstats : r = statsTarget
          · rw [if_pos hstats, if_pos hstats, writeRequest_of_some 200 hh hr, Prog.doing_bind,
              Prog.ret_bind]
            have hcode : IsInt32 200 := ⟨by decide, by decide⟩
            have hstatus := hq.status hcode (show "OK".toList.length ≤ 84 by decide)
            rw [sendStats_eq env store hstatus, Prog.doing_bind]
            rfl
          · rw [if_neg hstats, if_neg hstats]
            exact siteCourse_eq hq hh hr

end

/-- The child makes exactly the calls of its course. -/
theorem respondClient_eq (env : Env) (flux : Option Str) :
    respondClient env flux = (course env flux).prog env := by
  unfold respondClient course
  cases flux with
  | none => rfl
  | some stream =>
      rcases hread : readRequest stream with _ | ⟨requestLine, headersBlock, unread⟩
      · simp only [hread]
        rfl
      · simp only [hread]
        cases hq : parseRequest requestLine headersBlock with
        | none =>
            obtain ⟨request, hunset, hparse⟩ := parseHttpRequest_of_none .uninit hq
            simp only [hparse, Prog.ret_bind]
            rw [writeRequest_of_unset 400 hunset]
            rfl
        | some q =>
            obtain ⟨store, hh, hparse⟩ := parseHttpRequest_of_some .uninit hq
            simp only [hparse, Prog.ret_bind]
            exact respondParsed_eq (parseRequest_bounded hread hq) hh

/-! ## The runs of a course -/

/-- The events of an increment that reads `v`. -/
def countEvents (v : Int32) : Option Counter → List ServerEvent
  | none => []
  | some c => [⟨.semWait, ()⟩, ⟨.load c, v⟩, ⟨.store c (v + 1), ()⟩, ⟨.semPost, ()⟩]

/-- An ending can make these calls and end so. -/
inductive Ending.Makes (env : Env) : Ending → List Call → Halt → Prop
  | calls (l : List Call) (halt : Halt) : Makes env (.calls l halt) l halt
  /-- The header of the stats page could not be written. -/
  | statsHead (q : Request) : Makes env (.statsPage q) (statsHeadCalls env q) .exitSuccess
  | statsPage (q : Request) (page : Str) :
      Makes env (.statsPage q) (statsHeadCalls env q ++ statsPageCalls env page) .exitSuccess

/-- The events of the head of the stats page. -/
def statsHeadEvents (env : Env) (q : Request) (started written : Int) : List ServerEvent :=
  [⟨.write (.status 200) (statusLine q.major q.minor 200 "OK".toList), started⟩,
    ⟨.write .header (statsHeader env), written⟩]

@[simp] theorem callsOf_statsHeadEvents (env : Env) (q : Request) (started written : Int) :
    Prog.callsOf (statsHeadEvents env q started written) = statsHeadCalls env q := rfl

/-- Behind the head of the stats page there is nothing, or the reads of the counters
and the page with the values read. -/
theorem runs_statsEnding {env : Env} {q : Request} {tr : List ServerEvent}
    {out : Except Halt Unit} (h : Prog.Runs ((Ending.statsPage q).prog env) tr out) :
    out = .error .exitSuccess ∧ ∃ started written tr',
      tr = statsHeadEvents env q started written ++ tr' ∧ (tr' = [] ∨ ∃ values n,
        tr' = (env.statsOrder.counters.map fun c => (⟨.load c, values c⟩ : ServerEvent)) ++
          [⟨.write .body (statsPage values), n⟩]) := by
  obtain ⟨started, tr₁, rfl, h₁⟩ := Prog.runs_op_iff.mp h
  obtain ⟨written, tr₂, rfl, h₂⟩ := Prog.runs_op_iff.mp h₁
  by_cases hw : written < 0
  · rw [if_pos hw, Prog.ret_bind] at h₂
    obtain ⟨rfl, rfl⟩ := Prog.runs_stop_iff.mp h₂
    exact ⟨rfl, started, written, [], rfl, .inl rfl⟩
  · rw [if_neg hw] at h₂
    rcases Prog.runs_bind h₂ with ⟨tr₃, tr₄, _, rfl, h₃, h₄⟩ | ⟨s, rfl, h₃⟩
    · obtain ⟨-, values, n, rfl⟩ := runs_sendStatsBody h₃
      obtain ⟨rfl, rfl⟩ := Prog.runs_stop_iff.mp h₄
      rw [List.append_nil]
      exact ⟨rfl, started, written, _, rfl, .inr ⟨values, n, rfl⟩⟩
    · obtain ⟨hok, -⟩ := runs_sendStatsBody h₃
      cases hok

theorem runs_ending {env : Env} {e : Ending} {tr : List ServerEvent} {out : Except Halt Unit}
    (h : Prog.Runs (e.prog env) tr out) :
    ∃ halt, out = .error halt ∧ e.Makes env (Prog.callsOf tr) halt := by
  cases e with
  | calls l halt =>
      obtain ⟨hcalls, rfl⟩ := Prog.runs_doing_stop_iff.mp h
      refine ⟨halt, rfl, ?_⟩
      rw [hcalls]
      exact .calls l halt
  | statsPage q =>
      obtain ⟨rfl, started, written, tr', rfl, hrest⟩ := runs_statsEnding h
      refine ⟨.exitSuccess, rfl, ?_⟩
      rcases hrest with rfl | ⟨values, n, rfl⟩
      · exact .statsHead q
      · have hmakes : (Ending.statsPage q).Makes env _ _ := .statsPage q (statsPage values)
        simpa [statsPageCalls] using hmakes

theorem runs_counting {counter : Option Counter} {p : Server Unit} {tr : List ServerEvent}
    {out : Except Halt Unit} (h : Prog.Runs (counting counter p) tr out) :
    ∃ v tr', tr = countEvents v counter ++ tr' ∧ Prog.Runs p tr' out := by
  cases counter with
  | none => exact ⟨0, tr, rfl, h⟩
  | some c =>
      obtain ⟨_, tr₁, rfl, h₁⟩ := Prog.runs_op_iff.mp h
      obtain ⟨v, tr₂, rfl, h₂⟩ := Prog.runs_op_iff.mp h₁
      obtain ⟨_, tr₃, rfl, h₃⟩ := Prog.runs_op_iff.mp h₂
      obtain ⟨_, tr₄, rfl, h₄⟩ := Prog.runs_op_iff.mp h₃
      exact ⟨v, tr₄, rfl, h₄⟩

/-- A run of a course makes the calls before, counts, and goes on as a run of its
ending. -/
theorem runs_course_split {env : Env} {c : Course} {tr : List ServerEvent}
    {out : Except Halt Unit} (h : Prog.Runs (c.prog env) tr out) :
    ∃ tr₁ v tr₂, tr = tr₁ ++ countEvents v c.counter ++ tr₂ ∧ Prog.callsOf tr₁ = c.before ∧
      Prog.Runs (c.ending.prog env) tr₂ out := by
  obtain ⟨tr₁, tr', rfl, hcalls, h₁⟩ := Prog.runs_doing_iff.mp h
  obtain ⟨v, tr₂, rfl, h₂⟩ := runs_counting h₁
  exact ⟨tr₁, v, tr₂, (List.append_assoc _ _ _).symm, hcalls, h₂⟩

theorem runs_course {env : Env} {c : Course} {tr : List ServerEvent} {out : Except Halt Unit}
    (h : Prog.Runs (c.prog env) tr out) :
    ∃ tr₁ v tr₂ halt, tr = tr₁ ++ countEvents v c.counter ++ tr₂ ∧ Prog.callsOf tr₁ = c.before ∧
      out = .error halt ∧ c.ending.Makes env (Prog.callsOf tr₂) halt := by
  obtain ⟨tr₁, v, tr₂, htr, hcalls, h₂⟩ := runs_course_split h
  obtain ⟨halt, hout, hmakes⟩ := runs_ending h₂
  exact ⟨tr₁, v, tr₂, halt, htr, hcalls, hout, hmakes⟩

/-- Every ending has a run in every course, whatever its counter holds. -/
theorem runs_course_of_ending {env : Env} (c : Course) (v : Int32) {tr₂ : List ServerEvent}
    {out : Except Halt Unit} (h : Prog.Runs (c.ending.prog env) tr₂ out) {tr₁ : List ServerEvent}
    (hcalls : Prog.callsOf tr₁ = c.before) :
    Prog.Runs (c.prog env) (tr₁ ++ countEvents v c.counter ++ tr₂) out := by
  rw [List.append_assoc]
  refine Prog.runs_doing_iff.mpr ⟨tr₁, _, rfl, hcalls, ?_⟩
  cases c.counter with
  | none => exact h
  | some k => exact .op (.op (.op (.op h)))

/-- The stats page can be sent, with any values of the counters. -/
theorem exists_statsEnding (env : Env) (q : Request) (started : Int) {written : Int}
    (hw : 0 ≤ written) (values : Counter → Int32) (n : Int) :
    Prog.Runs ((Ending.statsPage q).prog env) (statsHeadEvents env q started written ++
      ((env.statsOrder.counters.map fun c => (⟨.load c, values c⟩ : ServerEvent)) ++
        [⟨.write .body (statsPage values), n⟩])) (.error .exitSuccess) := by
  have hbody := (exists_sendStatsBody env values n).bind
    (f := fun _ => (exitSuccess : Server Unit)) (.stop _)
  refine .op (.op ?_)
  rw [if_neg (Int.not_lt.mpr hw)]
  rwa [List.append_nil] at hbody

end Pawnee
