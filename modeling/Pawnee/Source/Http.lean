import Pawnee.Source.Hosts

/-!
# Responses (`http.c`, `stats.c`)

`sendResponse` writes a response in three parts: the status line, the header
section, and the body unless the method is HEAD.  The header section is built in
a buffer of 2048 bytes by successive `snprintf`s (`appendHeader`).  The cursor
counts the bytes of every text, also of those that did not fit, so it can leave
the buffer.

The second half of the module writes `sendResponse` and `sendStats` as the calls
they make.  A message always fits the buffers.  For a file the type may be too
long for the header buffer, and then the cursor leaves it.
-/

namespace Pawnee

open CText Effects

/-! ## `send_status` and `check_http_version` -/

/-- `check_http_version`. -/
def checkHttpVersion (request : HttpRequest) : Server Int := do
  let httpMajor ← field request.httpMajor
  pure (if httpMajor > 1 then 1 else 0)

/-- The status line of a response. -/
def statusLine (major minor code : Int) (reasonPhrase : Str) : Str :=
  "HTTP/".toList ++ formatInt major ++ ".".toList ++ formatInt minor ++ " ".toList ++
    formatInt code ++ " ".toList ++ reasonPhrase ++ "\r\n".toList

/-- The size of `status_line`. -/
def statusLineSize : Nat := 128

/-- `send_status`. -/
def sendStatus (request : HttpRequest) (code : Int) (reasonPhrase : Str) : Server Unit := do
  let httpMajor ← field request.httpMajor
  let httpMinor ← field request.httpMinor
  let _ ← writeFormatted (.status code) statusLineSize
    (statusLine httpMajor httpMinor code reasonPhrase)
  pure ()

/-! ## `send_response` -/

/-- `time_to_http_format`. -/
def timeToHttpFormat (env : Env) (time : Int) : Str := (env.strftime time).text

/-- The buffer `header` with the cursor `header_len`. -/
structure HeaderBuffer where
  text : Str
  len : Nat
deriving DecidableEq, Repr

/-- The size of `header`. -/
def headerSize : Nat := 2048

/-- `header_len += snprintf(header + header_len, sizeof(header) - header_len, ..)`. -/
def appendHeader (h : HeaderBuffer) (text : Str) : Server HeaderBuffer :=
  if headerSize < h.len then fault .outOfBounds
  else pure
    { text := if h.len < headerSize then h.text ++ text.take (headerSize - h.len - 1) else h.text
      len := h.len + text.length }

/-- The header lines of every response. -/
def commonHeaders (env : Env) : Str :=
  "Server: Pawnee\r\nDate: ".toList ++ timeToHttpFormat env env.now ++ "\r\n".toList

/-- The `Connection` line. -/
def connectionHeader (major minor : Int) : Str :=
  if major = 1 ∧ minor = 1 then "Connection: keep-alive\r\n".toList
  else "Connection: close\r\n".toList

/-- The `Last-Modified` line. -/
def lastModifiedHeader (env : Env) (file : OpenFile) : Str :=
  "Last-Modified: ".toList ++ timeToHttpFormat env (getLastModifiedDate file) ++ "\r\n".toList

/-- The `Content-Length` and `Accept-Ranges` lines of a file. -/
def fileLengthHeaders (size : Int) : Str :=
  "Content-Length: ".toList ++ formatInt size ++ "\r\nAccept-Ranges: bytes\r\n".toList

/-- The `Content-Type` line of a file. -/
def contentTypeHeader (mime : Str) : Str :=
  if "text/".toList.isPrefixOf mime then
    "Content-Type: ".toList ++ mime ++ "; charset=utf-8\r\n".toList
  else "Content-Type: ".toList ++ mime ++ "\r\n".toList

/-- The `Content-Length` and `Content-Type` lines of a message. -/
def messageHeaders (size : Int) : Str :=
  "Content-Length: ".toList ++ formatInt size ++
    "\r\nContent-Type: text/plain; charset=utf-8\r\n".toList

/-- The lines for code 405. -/
def notAllowedHeaders (size : Int) : Str := "Allow: GET, HEAD\r\n".toList ++ messageHeaders size

/-- The header lines that depend on the code, and the file for code 200. -/
def codeHeaders (env : Env) (request : HttpRequest) (code : Int) (messageBody : Str) (size : Int)
    (header : HeaderBuffer) : Server (HeaderBuffer × Option OpenFile) :=
  if code = 200 then do
    let mime ← getMimeType env messageBody
    let mime := mime.getD "application/octet-stream".toList
    let vhost ← getVhostConfig env request
    let vhost ← pointee vhost
    let file ← checkAndOpen env messageBody (some vhost.root.text)
    -- `fileno(file)` in `get_last_modified_date`
    let file ← pointee file
    let header ← appendHeader header (lastModifiedHeader env file)
    let header ← appendHeader header (fileLengthHeaders size)
    let header ← appendHeader header (contentTypeHeader mime)
    pure (header, some file)
  else if code = 405 then do
    let header ← appendHeader header (notAllowedHeaders size)
    pure (header, none)
  else do
    let header ← appendHeader header (messageHeaders size)
    pure (header, none)

/-- The loop that sends a file in blocks of 8192 bytes. -/
def sendBlocks : List Str → Server Unit
  | [] => pure ()
  | block :: blocks => do
      let _ ← perform (.write .body block)
      sendBlocks blocks

/-- The body of a response. -/
def sendBody (method : HttpMethod) (code : Int) (messageBody : Str) (size : Int)
    (file : Option OpenFile) : Server Unit :=
  if method = .head then pure ()
  else if code = 200 then
    match file with
    | some file => sendBlocks (freadAll 8192 file.content)
    | none => pure ()
  else do
    let _ ← writeString .body messageBody size
    pure ()

/-- `send_response`: the request as it is left. -/
def sendResponse (env : Env) (request : HttpRequest) (code : Int) (reasonPhrase messageBody : Str)
    (size : Int) : Server HttpRequest := do
  sendStatus request code reasonPhrase
  let header ← appendHeader ⟨[], 0⟩ (commonHeaders env)
  let httpMajor ← field request.httpMajor
  let httpMinor ← field request.httpMinor
  let header ← appendHeader header (connectionHeader httpMajor httpMinor)
  let (header, file) ← codeHeaders env request code messageBody size header
  let header ← appendHeader header "\r\n".toList
  let _ ← perform (.write .header header.text)
  let method ← field request.method
  sendBody method code messageBody size file
  let headers ← field request.headers
  pure { request with headers := some (freeHeaders headers) }

/-! ## `send_stats` -/

/-- The header section `send_stats` formats. -/
def statsHeader (env : Env) : Str :=
  "Content-Length: ".toList ++ formatInt 381 ++
    "\r\nContent-Type: text/html\r\nServer: Pawnee\r\nConnection: close\r\n".toList ++
    "Accept-Ranges: bytes\r\nDate: ".toList ++
    ("Date: ".toList ++ timeToHttpFormat env env.now ++ "\r\n".toList).take 127 ++ "\r\n".toList

/-- The page `send_stats` formats. -/
def statsBody (connections requests ok200 ko400 ko403 ko404 ko405 : Int32) : Str :=
  "<!DOCTYPE html><html><head><meta charset=\"UTF-8\"><style>body ".toList ++
    ['\x7b'] ++ "font: 1.2em \"Open Sans\", sans-serif; background-color: #DDDDDD;".toList ++
    ['\x7d'] ++ "</style></head><body><h1>Stats of the server</h1><ul>".toList ++
    "<li>Connexions served: ".toList ++ formatInt connections.toInt ++
    "</li><li>Requests served: ".toList ++ formatInt requests.toInt ++
    "</li><li>200 responses: ".toList ++ formatInt ok200.toInt ++
    "</li><li>400 responses: ".toList ++ formatInt ko400.toInt ++
    "</li><li>403 responses: ".toList ++ formatInt ko403.toInt ++
    "</li><li>404 responses: ".toList ++ formatInt ko404.toInt ++
    "</li><li>405 responses: ".toList ++ formatInt ko405.toInt ++
    "</li></ul></body></html>\r\n".toList

/-- The page with these values of the counters. -/
def statsPage (values : Counter → Int32) : Str :=
  statsBody (values .servedConnections) (values .servedRequests) (values .ok200) (values .ko400)
    (values .ko403) (values .ko404) (values .ko405)

/-- Read counters one by one. -/
def readCounters : List Counter → Server (Counter → Int32)
  | [] => pure fun _ => 0
  | c :: counters => do
      let v ← perform (.load c)
      let values ← readCounters counters
      pure fun c' => if c' = c then v else values c'

/-- The page of `send_stats`, with the counters read one by one. -/
def sendStatsBody (env : Env) : Server Unit := do
  let values ← readCounters env.statsOrder.counters
  let _ ← writeFormatted .body 1024 (statsPage values)
  pure ()

/-- `send_stats`. -/
def sendStats (env : Env) (request : HttpRequest) : Server Unit := do
  sendStatus request 200 "OK".toList
  let written ← writeFormatted .header 1024 (statsHeader env)
  if written < 0 then pure () else sendStatsBody env

/-! ## Texts in their buffers -/

theorem formatInt_length_of_isInt32 {i : Int} (h : IsInt32 i) : (formatInt i).length ≤ 11 :=
  formatInt_length_le h.1 h.2

theorem statusLine_length (major minor code : Int) (reasonPhrase : Str) :
    (statusLine major minor code reasonPhrase).length =
      5 + (formatInt major).length + 1 + (formatInt minor).length + 1 + (formatInt code).length +
        1 + reasonPhrase.length + 2 := by
  unfold statusLine
  simp only [List.length_append, String.reduceToList, List.length_cons, List.length_nil]

/-- A status line with a short reason phrase fits its buffer. -/
theorem statusLine_length_lt {major minor code : Int} {reasonPhrase : Str} (h1 : IsInt32 major)
    (h2 : IsInt32 minor) (h3 : IsInt32 code) (hr : reasonPhrase.length ≤ 84) :
    (statusLine major minor code reasonPhrase).length < statusLineSize := by
  have hmajor := formatInt_length_of_isInt32 h1
  have hminor := formatInt_length_of_isInt32 h2
  have hcode := formatInt_length_of_isInt32 h3
  have hlen := statusLine_length major minor code reasonPhrase
  rw [hlen, statusLineSize]
  generalize (formatInt major).length = a at hmajor ⊢
  generalize (formatInt minor).length = b at hminor ⊢
  generalize (formatInt code).length = c at hcode ⊢
  omega

theorem sendStatus_eq {q : Request} (store : HttpHeaders) {code : Int} {reasonPhrase : Str}
    (h : (statusLine q.major q.minor code reasonPhrase).length < statusLineSize) :
    sendStatus (q.filled store) code reasonPhrase =
      .doing [.write (.status code) (statusLine q.major q.minor code reasonPhrase)] (.ret ()) := by
  simp only [sendStatus, Request.filled, field_some, Prog.ret_bind, writeFormatted_eq h]
  rfl

/-- The buffer when all of `t` has been appended: what fits of it, and the cursor. -/
def HeaderBuffer.of (t : Str) : HeaderBuffer := ⟨t.take (headerSize - 1), t.length⟩

/-- A cursor in the buffer or at its end moves on. -/
theorem appendHeader_of {t : Str} (s : Str) (h : t.length ≤ headerSize) :
    appendHeader (.of t) s = .ret (.of (t ++ s)) := by
  have hin : ¬ headerSize < (HeaderBuffer.of t).len := not_lt.mpr h
  have hpos : 1 ≤ headerSize := by decide
  rw [appendHeader, if_neg hin]
  have hlen : (HeaderBuffer.of t).len = t.length := rfl
  have htext : (HeaderBuffer.of t).text = t.take (headerSize - 1) := rfl
  rw [hlen, htext]
  refine congrArg Prog.ret ?_
  rw [HeaderBuffer.of, List.length_append]
  by_cases hlt : t.length < headerSize
  · have htake : t.take (headerSize - 1) = t := List.take_of_length_le (by omega)
    have hroom : headerSize - t.length - 1 = headerSize - 1 - t.length := by omega
    rw [if_pos hlt, List.take_append, htake, hroom]
  · rw [if_neg hlt, List.take_append_of_le_length (by omega)]

/-- A cursor behind the buffer is not used. -/
theorem appendHeader_over {t : Str} (s : Str) (h : headerSize < t.length) :
    appendHeader (.of t) s = fault .outOfBounds := if_pos h

theorem timeToHttpFormat_length_lt (env : Env) (time : Int) :
    (timeToHttpFormat env time).length < 100 := (env.strftime time).fits

theorem commonHeaders_length (env : Env) :
    (commonHeaders env).length = 24 + (timeToHttpFormat env env.now).length := by
  unfold commonHeaders
  simp only [List.length_append, String.reduceToList, List.length_cons, List.length_nil]
  omega

theorem commonHeaders_length_le (env : Env) : (commonHeaders env).length ≤ 123 := by
  have hdate := timeToHttpFormat_length_lt env env.now
  rw [commonHeaders_length]
  omega

theorem connectionHeader_length (major minor : Int) :
    (connectionHeader major minor).length = if major = 1 ∧ minor = 1 then 24 else 19 := by
  unfold connectionHeader
  split <;> decide

theorem connectionHeader_length_le (major minor : Int) :
    (connectionHeader major minor).length ≤ 24 := by
  rw [connectionHeader_length]
  split <;> decide

theorem lastModifiedHeader_length (env : Env) (file : OpenFile) :
    (lastModifiedHeader env file).length =
      17 + (timeToHttpFormat env (getLastModifiedDate file)).length := by
  unfold lastModifiedHeader
  simp only [List.length_append, String.reduceToList, List.length_cons, List.length_nil]
  omega

theorem lastModifiedHeader_length_le (env : Env) (file : OpenFile) :
    (lastModifiedHeader env file).length ≤ 116 := by
  have hdate := timeToHttpFormat_length_lt env (getLastModifiedDate file)
  rw [lastModifiedHeader_length]
  omega

theorem fileLengthHeaders_length (size : Int) :
    (fileLengthHeaders size).length = 40 + (formatInt size).length := by
  unfold fileLengthHeaders
  simp only [List.length_append, String.reduceToList, List.length_cons, List.length_nil]
  omega

theorem fileLengthHeaders_length_le {size : Int} (h : IsInt32 size) :
    (fileLengthHeaders size).length ≤ 51 := by
  have hsize := formatInt_length_of_isInt32 h
  rw [fileLengthHeaders_length]
  omega

theorem contentTypeHeader_length (mime : Str) :
    (contentTypeHeader mime).length =
      16 + mime.length + if "text/".toList.isPrefixOf mime then 15 else 0 := by
  unfold contentTypeHeader
  split
  · simp only [List.length_append, String.reduceToList, List.length_cons, List.length_nil]
    omega
  · simp only [List.length_append, String.reduceToList, List.length_cons, List.length_nil]
    omega

theorem messageHeaders_length_le {size : Int} (h : IsInt32 size) :
    (messageHeaders size).length ≤ 70 := by
  have hsize := formatInt_length_of_isInt32 h
  unfold messageHeaders
  simp only [List.length_append, String.reduceToList, List.length_cons, List.length_nil]
  omega

theorem notAllowedHeaders_length_le {size : Int} (h : IsInt32 size) :
    (notAllowedHeaders size).length ≤ 88 := by
  have hsize := messageHeaders_length_le h
  unfold notAllowedHeaders
  simp only [List.length_append, String.reduceToList, List.length_cons, List.length_nil]
  omega

/-! ## `send_response` as its calls -/

/-- The header lines before those that depend on the code. -/
def leadingLines (env : Env) (q : Request) : Str :=
  commonHeaders env ++ connectionHeader q.major q.minor

/-- The request after the response. -/
def Request.freed (q : Request) (store : HttpHeaders) : HttpRequest :=
  { q.filled store with headers := some (freeHeaders store) }

theorem leadingLines_length_le (env : Env) (q : Request) : (leadingLines env q).length ≤ 147 := by
  have hcommon := commonHeaders_length_le env
  have hconn := connectionHeader_length_le q.major q.minor
  rw [leadingLines, List.length_append]
  omega

/-- Every response starts alike. -/
theorem sendResponse_eq (env : Env) (q : Request) (store : HttpHeaders) {code : Int}
    {reasonPhrase : Str} (message : Str) (size : Int)
    (hstatus : (statusLine q.major q.minor code reasonPhrase).length < statusLineSize) :
    sendResponse env (q.filled store) code reasonPhrase message size =
      .doing [.write (.status code) (statusLine q.major q.minor code reasonPhrase)]
        (do
          let (header, file) ← codeHeaders env (q.filled store) code message size
            (.of (leadingLines env q))
          let header ← appendHeader header "\r\n".toList
          let _ ← perform (.write .header header.text)
          sendBody q.method code message size file
          pure (q.freed store)) := by
  have hstart : (⟨[], 0⟩ : HeaderBuffer) = .of [] := rfl
  have hcommon := commonHeaders_length_le env
  unfold sendResponse
  simp only [sendStatus_eq store hstatus, Prog.doing_bind, Prog.ret_bind, hstart]
  rw [appendHeader_of _ (by decide)]
  simp only [Prog.ret_bind, Request.filled, field_some]
  rw [appendHeader_of _ (by simp only [List.nil_append, headerSize]; omega)]
  rfl

/-- The header lines of a message. -/
def messageLines (env : Env) (q : Request) (code size : Int) : Str :=
  leadingLines env q ++ if code = 405 then notAllowedHeaders size else messageHeaders size

/-- The header section of a message. -/
def messageHead (env : Env) (q : Request) (code size : Int) : Str :=
  messageLines env q code size ++ "\r\n".toList

/-- The `write`s of a message. -/
def messageCalls (env : Env) (q : Request) (code : Int) (reasonPhrase message : Str) : List Call :=
  [.write (.status code) (statusLine q.major q.minor code reasonPhrase),
    .write .header (messageHead env q code message.length)] ++
    if q.method = .head then [] else [.write .body message]

theorem messageLines_length_le (env : Env) (q : Request) (code : Int) {size : Int}
    (h : IsInt32 size) : (messageLines env q code size).length ≤ 235 := by
  have hlead := leadingLines_length_le env q
  have hmsg : (if code = 405 then notAllowedHeaders size else messageHeaders size).length ≤ 88 := by
    split
    · exact notAllowedHeaders_length_le h
    · exact (messageHeaders_length_le h).trans (by decide)
  rw [messageLines, List.length_append]
  omega

/-- The text of the buffer is all of `t`, if it fits. -/
theorem HeaderBuffer.text_of {t : Str} (h : t.length < headerSize) : (HeaderBuffer.of t).text = t :=
  List.take_of_length_le (by omega)

/-- A response with a message. -/
theorem sendResponse_message (env : Env) (q : Request) (store : HttpHeaders) {code : Int}
    {reasonPhrase message : Str} (hcode : code ≠ 200)
    (hstatus : (statusLine q.major q.minor code reasonPhrase).length < statusLineSize)
    (hsize : IsInt32 message.length) :
    sendResponse env (q.filled store) code reasonPhrase message message.length =
      .doing (messageCalls env q code reasonPhrase message) (.ret (q.freed store)) := by
  have hlead := leadingLines_length_le env q
  have hlines := messageLines_length_le env q code hsize
  have hend : "\r\n".toList.length = 2 := by decide
  have hroom : (leadingLines env q).length ≤ headerSize := hlead.trans (by decide)
  have hsection : codeHeaders env (q.filled store) code message message.length
      (.of (leadingLines env q)) = .ret (.of (messageLines env q code message.length), none) := by
    unfold codeHeaders messageLines
    rw [if_neg hcode]
    split <;> simp only [appendHeader_of _ hroom, Prog.ret_bind, Prog.pure_eq]
  have hbody : sendBody q.method code message message.length none =
      .doing (if q.method = .head then [] else [.write .body message]) (.ret ()) := by
    unfold sendBody
    by_cases hm : q.method = .head
    · simp [hm]
    · simp only [if_neg hm, if_neg hcode, writeString_length]
      rfl
  rw [sendResponse_eq env q store message message.length hstatus, hsection]
  simp only [Prog.ret_bind]
  rw [appendHeader_of _ (hlines.trans (by decide))]
  simp only [Prog.ret_bind, hbody, Prog.doing_bind, Prog.call_bind, Prog.pure_eq, Prog.op_const,
    Prog.doing_doing]
  rw [HeaderBuffer.text_of (by rw [List.length_append, hend, headerSize]; omega)]
  rfl

/-- Every run of such a response makes its calls. -/
theorem runs_sendResponse_message {env : Env} {q : Request} {store : HttpHeaders} {code : Int}
    {reasonPhrase message : Str} (hcode : code ≠ 200)
    (hstatus : (statusLine q.major q.minor code reasonPhrase).length < statusLineSize)
    (hsize : IsInt32 message.length) {tr : List ServerEvent} {out : Except Halt HttpRequest}
    (h : Prog.Runs (sendResponse env (q.filled store) code reasonPhrase message message.length) tr
      out) :
    out = .ok (q.freed store) ∧ Prog.callsOf tr = messageCalls env q code reasonPhrase message := by
  rw [sendResponse_message env q store hcode hstatus hsize] at h
  obtain ⟨hcalls, rfl⟩ := Prog.runs_doing_ret_iff.mp h
  exact ⟨rfl, hcalls⟩

/-- The header lines of a file. -/
def fileLines (env : Env) (q : Request) (file : OpenFile) (size : Int) (mime : Str) : Str :=
  leadingLines env q ++ lastModifiedHeader env file ++ fileLengthHeaders size ++
    contentTypeHeader mime

/-- The header section of a file, as far as it fits the buffer. -/
def fileHead (env : Env) (q : Request) (file : OpenFile) (size : Int) (mime : Str) : Str :=
  (fileLines env q file size mime ++ "\r\n".toList).take (headerSize - 1)

/-- The calls that look up the file again. -/
def reopenCalls (env : Env) (q : Request) (path : Str) : List Call :=
  mimeCalls env ++ lookupCalls env q.headers ++ openCalls env path

/-- The `write`s behind the status line of a file. -/
def fileCalls (env : Env) (q : Request) (file : OpenFile) (size : Int) (mime : Str) : List Call :=
  .write .header (fileHead env q file size mime) ::
    if q.method = .head then [] else (freadAll 8192 file.content).map (.write .body ·)

theorem sendBlocks_eq (blocks : List Str) :
    sendBlocks blocks = .doing (blocks.map (.write .body ·)) (.ret ()) := by
  induction blocks with
  | nil => rfl
  | cons block blocks ih =>
      simp only [sendBlocks, Prog.call_bind, ih, Prog.op_const, Prog.doing_doing]
      rfl

section

variable {env : Env} {q : Request} {store : HttpHeaders} {keys : SiteKeys} {vhost : VhostConfig}
  {r mime reasonPhrase : Str} {file : OpenFile} {size : Int}

/-- Only the type can be too long for the buffer. -/
theorem codeHeaders_file (hh : Holds store q.headers) (hmime : mimeType env r = .ok mime)
    (hsite : selectedSite env q.headers = some keys) (hvhost : keys.vhost = some vhost)
    (hroot : vhost.root.text ≠ []) (hfile : openResult env (fullPath vhost.root.text r) = some file)
    (hsize : IsInt32 size) :
    codeHeaders env (q.filled store) 200 r size (.of (leadingLines env q)) =
      .doing (reopenCalls env q (fullPath vhost.root.text r))
        (.ret (.of (fileLines env q file size mime), some file)) := by
  have hlead := leadingLines_length_le env q
  have hmodified := lastModifiedHeader_length_le env file
  have hlength := fileLengthHeaders_length_le hsize
  unfold codeHeaders
  rw [if_pos rfl]
  simp only [getMimeType_eq, hmime, Except.map, orFault_ok, Prog.doing_bind, Prog.ret_bind,
    getVhostConfig_eq env hh, hsite, vhostOf_eq, hvhost, pointee_some, checkAndOpen_eq _ _ hroot,
    hfile, Option.getD_some]
  rw [appendHeader_of _ (hlead.trans (by decide)), Prog.ret_bind,
    appendHeader_of _ (by rw [List.length_append, headerSize]; omega), Prog.ret_bind,
    appendHeader_of _ (by simp only [List.length_append, headerSize]; omega), Prog.ret_bind]
  simp only [Prog.doing_doing, reopenCalls, ← List.append_assoc]
  rfl

/-- A response with a file. -/
theorem sendResponse_file (hh : Holds store q.headers) (hmime : mimeType env r = .ok mime)
    (hsite : selectedSite env q.headers = some keys) (hvhost : keys.vhost = some vhost)
    (hroot : vhost.root.text ≠ []) (hfile : openResult env (fullPath vhost.root.text r) = some file)
    (hsize : IsInt32 size)
    (hstatus : (statusLine q.major q.minor 200 reasonPhrase).length < statusLineSize) :
    sendResponse env (q.filled store) 200 reasonPhrase r size =
      .doing (.write (.status 200) (statusLine q.major q.minor 200 reasonPhrase) ::
          reopenCalls env q (fullPath vhost.root.text r))
        (if (fileLines env q file size mime).length ≤ headerSize then
          .doing (fileCalls env q file size mime) (.ret (q.freed store))
        else fault .outOfBounds) := by
  have hbody : sendBody q.method 200 r size (some file) =
      .doing (if q.method = .head then []
        else (freadAll 8192 file.content).map (.write .body ·)) (.ret ()) := by
    unfold sendBody
    by_cases hm : q.method = .head
    · simp [hm]
    · simp only [if_neg hm, sendBlocks_eq]
      rfl
  rw [sendResponse_eq env q store r size hstatus,
    codeHeaders_file hh hmime hsite hvhost hroot hfile hsize]
  simp only [Prog.doing_bind, Prog.ret_bind, Prog.doing_doing, List.singleton_append]
  by_cases hfits : (fileLines env q file size mime).length ≤ headerSize
  · rw [appendHeader_of _ hfits, if_pos hfits]
    simp only [Prog.ret_bind, hbody, Prog.doing_bind, Prog.call_bind, Prog.pure_eq, Prog.op_const,
      Prog.doing_doing]
    rfl
  · rw [appendHeader_over _ (not_le.mp hfits), if_neg hfits]
    rfl

/-- Every run of a response whose header lines fit makes its calls. -/
theorem runs_sendResponse_file (hh : Holds store q.headers) (hmime : mimeType env r = .ok mime)
    (hsite : selectedSite env q.headers = some keys) (hvhost : keys.vhost = some vhost)
    (hroot : vhost.root.text ≠ []) (hfile : openResult env (fullPath vhost.root.text r) = some file)
    (hsize : IsInt32 size)
    (hstatus : (statusLine q.major q.minor 200 reasonPhrase).length < statusLineSize)
    (hfits : (fileLines env q file size mime).length ≤ headerSize) {tr : List ServerEvent}
    {out : Except Halt HttpRequest}
    (h : Prog.Runs (sendResponse env (q.filled store) 200 reasonPhrase r size) tr out) :
    out = .ok (q.freed store) ∧ Prog.callsOf tr =
      .write (.status 200) (statusLine q.major q.minor 200 reasonPhrase) ::
        (reopenCalls env q (fullPath vhost.root.text r) ++ fileCalls env q file size mime) := by
  rw [sendResponse_file hh hmime hsite hvhost hroot hfile hsize hstatus, if_pos hfits,
    Prog.doing_doing] at h
  obtain ⟨hcalls, rfl⟩ := Prog.runs_doing_ret_iff.mp h
  exact ⟨rfl, hcalls⟩

/-- A file whose type makes the scan of the mime file fault is answered with a
status line only. -/
theorem sendResponse_mime_fault {f : Fault} (hmime : mimeType env r = .error f)
    (hstatus : (statusLine q.major q.minor 200 reasonPhrase).length < statusLineSize) :
    sendResponse env (q.filled store) 200 reasonPhrase r size =
      .doing (.write (.status 200) (statusLine q.major q.minor 200 reasonPhrase) ::
        mimeCalls env) (fault f) := by
  rw [sendResponse_eq env q store r size hstatus]
  unfold codeHeaders
  rw [if_pos rfl]
  simp only [getMimeType_eq, hmime, Except.map, orFault_error, Prog.doing_bind, fault_bind,
    Prog.doing_doing, List.singleton_append]

end

/-! ## `send_stats` as its calls -/

theorem statsHeader_length_lt (env : Env) : (statsHeader env).length < 1024 := by
  have hsize : (formatInt 381).length = 3 := by decide
  have hdate := List.length_take_le 127
    ("Date: ".toList ++ timeToHttpFormat env env.now ++ "\r\n".toList)
  unfold statsHeader
  generalize ("Date: ".toList ++ timeToHttpFormat env env.now ++ "\r\n".toList).take 127 = date
    at hdate ⊢
  simp only [List.length_append, hsize, String.reduceToList, List.length_cons,
    List.length_nil]
  omega

theorem formatInt_toInt_length_le (v : Int32) : (formatInt v.toInt).length ≤ 11 :=
  formatInt_length_of_isInt32 ⟨v.le_toInt, v.toInt_lt⟩

/-- The page is its texts and the digits of the seven counters. -/
theorem statsBody_length (connections requests ok200 ko400 ko403 ko404 ko405 : Int32) :
    (statsBody connections requests ok200 ko400 ko403 ko404 ko405).length = 374 +
      ((formatInt connections.toInt).length + (formatInt requests.toInt).length +
        (formatInt ok200.toInt).length + (formatInt ko400.toInt).length +
        (formatInt ko403.toInt).length + (formatInt ko404.toInt).length +
        (formatInt ko405.toInt).length) := by
  unfold statsBody
  simp only [List.length_append, String.reduceToList, List.length_cons, List.length_nil]
  omega

/-- The page always fits its buffer. -/
theorem statsBody_length_lt (connections requests ok200 ko400 ko403 ko404 ko405 : Int32) :
    (statsBody connections requests ok200 ko400 ko403 ko404 ko405).length < 1024 := by
  have h1 := formatInt_toInt_length_le connections
  have h2 := formatInt_toInt_length_le requests
  have h3 := formatInt_toInt_length_le ok200
  have h4 := formatInt_toInt_length_le ko400
  have h5 := formatInt_toInt_length_le ko403
  have h6 := formatInt_toInt_length_le ko404
  have h7 := formatInt_toInt_length_le ko405
  rw [statsBody_length]
  omega

/-- The `write`s before the page. -/
def statsHeadCalls (env : Env) (q : Request) : List Call :=
  [.write (.status 200) (statusLine q.major q.minor 200 "OK".toList),
    .write .header (statsHeader env)]

/-- The reads of the counters and the `write` of the page. -/
def statsPageCalls (env : Env) (page : Str) : List Call :=
  env.statsOrder.counters.map .load ++ [.write .body page]

theorem sendStats_eq (env : Env) {q : Request} (store : HttpHeaders)
    (hstatus : (statusLine q.major q.minor 200 "OK".toList).length < statusLineSize) :
    sendStats env (q.filled store) =
      .doing [.write (.status 200) (statusLine q.major q.minor 200 "OK".toList)]
        (.op (.write .header (statsHeader env)) fun written =>
          if written < 0 then .ret () else sendStatsBody env) := by
  unfold sendStats
  simp only [sendStatus_eq store hstatus, writeFormatted_eq (statsHeader_length_lt env),
    Prog.doing_bind, Prog.ret_bind, Prog.call_bind, Prog.pure_eq]

theorem ReadOrder.nodup (o : ReadOrder) : o.counters.Nodup :=
  o.perm.nodup_iff.mpr (by decide)

theorem ReadOrder.mem (o : ReadOrder) (c : Counter) : c ∈ o.counters :=
  o.perm.mem_iff.mpr (by cases c <;> decide)

/-- Reading counters that are all different makes one load for each. -/
theorem runs_readCounters : ∀ {counters : List Counter}, counters.Nodup →
    ∀ {tr : List ServerEvent} {out : Except Halt (Counter → Int32)},
      Prog.Runs (readCounters counters) tr out →
      ∃ values, out = .ok values ∧
        tr = counters.map fun c => (⟨.load c, values c⟩ : ServerEvent)
  | [], _, tr, out, h => by
      obtain ⟨rfl, rfl⟩ := Prog.runs_ret_iff.mp h
      exact ⟨_, rfl, rfl⟩
  | c :: counters, hn, tr, out, h => by
      obtain ⟨hc, hrest⟩ := List.nodup_cons.mp hn
      simp only [readCounters, Prog.call_bind] at h
      obtain ⟨v, tr₁, rfl, h₁⟩ := Prog.runs_op_iff.mp h
      rcases Prog.runs_bind h₁ with ⟨tr₂, tr₃, values, rfl, h₂, h₃⟩ | ⟨s, rfl, h₂⟩
      · obtain ⟨values', hvalues, rfl⟩ := runs_readCounters hrest h₂
        cases hvalues
        obtain ⟨rfl, rfl⟩ := Prog.runs_ret_iff.mp h₃
        refine ⟨_, rfl, ?_⟩
        rw [List.append_nil, List.map_cons, if_pos rfl]
        refine congrArg _ (List.map_congr_left fun c' hc' => ?_)
        have hne : c' ≠ c := fun heq => hc (heq ▸ hc')
        rw [if_neg hne]
      · obtain ⟨values', hvalues, -⟩ := runs_readCounters hrest h₂
        cases hvalues

/-- The counters can have any values when they are read. -/
theorem exists_readCounters (values : Counter → Int32) : ∀ counters : List Counter,
    ∃ found, Prog.Runs (readCounters counters)
        (counters.map fun c => (⟨.load c, values c⟩ : ServerEvent)) (.ok found) ∧
      ∀ c ∈ counters, found c = values c
  | [] => ⟨_, .ret _, by simp⟩
  | c :: counters => by
      obtain ⟨found, hruns, hfound⟩ := exists_readCounters values counters
      refine ⟨fun c' => if c' = c then values c else found c', .op ?_, fun c' hc' => ?_⟩
      · have hrest := hruns.bind (f := fun found => (pure fun c' =>
          if c' = c then values c else found c' : Server (Counter → Int32))) (.ret _)
        rwa [List.append_nil] at hrest
      · by_cases heq : c' = c
        · simp only [heq, if_true]
        · simp only [heq, if_false]
          exact hfound c' ((List.mem_cons.mp hc').resolve_left heq)

/-- The calls behind the reads of some counters. -/
@[simp] theorem callsOf_loads (counters : List Counter) (values : Counter → Int32) :
    Prog.callsOf (counters.map fun c => (⟨.load c, values c⟩ : ServerEvent)) =
      counters.map .load := by
  simp [Prog.callsOf, Function.comp_def]

theorem writeFormatted_statsPage (values : Counter → Int32) :
    writeFormatted .body 1024 (statsPage values) = perform (.write .body (statsPage values)) :=
  writeFormatted_eq (statsBody_length_lt _ _ _ _ _ _ _)

/-- Every run of `sendStatsBody` reads the counters and writes the page that
shows the values it has read. -/
theorem runs_sendStatsBody {env : Env} {tr : List ServerEvent} {out : Except Halt Unit}
    (h : Prog.Runs (sendStatsBody env) tr out) :
    out = .ok () ∧ ∃ values n,
      tr = (env.statsOrder.counters.map fun c => (⟨.load c, values c⟩ : ServerEvent)) ++
        [⟨.write .body (statsPage values), n⟩] := by
  unfold sendStatsBody at h
  simp only [writeFormatted_statsPage, Prog.call_bind] at h
  rcases Prog.runs_bind h with ⟨tr₁, tr₂, values, rfl, h₁, h₂⟩ | ⟨s, rfl, h₁⟩
  · obtain ⟨values', hvalues, rfl⟩ := runs_readCounters env.statsOrder.nodup h₁
    cases hvalues
    obtain ⟨n, tr₃, rfl, h₃⟩ := Prog.runs_op_iff.mp h₂
    obtain ⟨rfl, rfl⟩ := Prog.runs_ret_iff.mp h₃
    exact ⟨rfl, values, n, rfl⟩
  · obtain ⟨values', hvalues, -⟩ := runs_readCounters env.statsOrder.nodup h₁
    cases hvalues

/-- The page can show any values. -/
theorem exists_sendStatsBody (env : Env) (values : Counter → Int32) (n : Int) :
    Prog.Runs (sendStatsBody env)
      ((env.statsOrder.counters.map fun c => (⟨.load c, values c⟩ : ServerEvent)) ++
        [⟨.write .body (statsPage values), n⟩]) (.ok ()) := by
  obtain ⟨found, hruns, hfound⟩ := exists_readCounters values env.statsOrder.counters
  have heq : found = values := funext fun c => hfound c (env.statsOrder.mem c)
  subst heq
  unfold sendStatsBody
  simp only [writeFormatted_statsPage]
  exact hruns.bind (.op (.ret ()))

end Pawnee
