import Pawnee.Child.Observed
import Pawnee.Foundation.Message

/-!
# Responses as messages

What `send_response` writes, all writes one after the other, is the text of a
message in the sense of `Framing.Message`.  So a reader that knows nothing of the
server finds the status line, the fields and the body again, and the
`Content-Length` it finds is the length of the body.

The texts that are not the server's own, the date, the reason phrase and the
type, must not hold a line end.
-/

namespace Pawnee

open CText Effects Framing

/-- The data of a `write`. -/
def writtenData : Call → Option Str
  | .write _ data => some data
  | _ => none

/-- All bytes a run writes. -/
def written (tr : List ServerEvent) : Str := (observed writtenData tr).flatten

theorem seesWrites_writtenData : SeesWrites writtenData := by
  intro e h
  cases e with
  | write part data => exact absurd rfl (h part data)
  | _ => rfl

/-! ## The header section as fields -/

/-- The status line without its line end. -/
def startLine (q : Request) (code : Int) (reasonPhrase : Str) : Str :=
  "HTTP/".toList ++ formatInt q.major ++ ".".toList ++ formatInt q.minor ++ " ".toList ++
    formatInt code ++ " ".toList ++ reasonPhrase

/-- The fields of every response. -/
def leadingFields (env : Env) (q : Request) : List (Str × Str) :=
  [("Server".toList, "Pawnee".toList), ("Date".toList, timeToHttpFormat env env.now),
    ("Connection".toList,
      if q.major = 1 ∧ q.minor = 1 then "keep-alive".toList else "close".toList)]

/-- The fields of a message. -/
def messageFields (code size : Int) : List (Str × Str) :=
  (if code = 405 then [("Allow".toList, "GET, HEAD".toList)] else []) ++
    [("Content-Length".toList, formatInt size),
      ("Content-Type".toList, "text/plain; charset=utf-8".toList)]

/-- The fields of a file. -/
def fileFields (env : Env) (file : OpenFile) (size : Int) (mime : Str) : List (Str × Str) :=
  [("Last-Modified".toList, timeToHttpFormat env (getLastModifiedDate file)),
    ("Content-Length".toList, formatInt size), ("Accept-Ranges".toList, "bytes".toList),
    ("Content-Type".toList,
      if "text/".toList.isPrefixOf mime then mime ++ "; charset=utf-8".toList else mime)]

theorem joinLines_append (ls ls' : List Str) :
    joinLines (ls ++ ls') = joinLines ls ++ joinLines ls' := by
  simp [joinLines]

theorem leadingLines_eq (env : Env) (q : Request) :
    leadingLines env q = joinLines ((leadingFields env q).map fieldLine) := by
  unfold leadingLines commonHeaders connectionHeader leadingFields joinLines fieldLine crlf
  split <;> simp

theorem messageLines_eq (env : Env) (q : Request) (code size : Int) :
    messageLines env q code size =
      joinLines ((leadingFields env q ++ messageFields code size).map fieldLine) := by
  rw [List.map_append, joinLines_append, ← leadingLines_eq]
  unfold messageLines notAllowedHeaders messageHeaders messageFields joinLines fieldLine crlf
  split <;> simp

theorem fileLines_eq (env : Env) (q : Request) (file : OpenFile) (size : Int) (mime : Str) :
    fileLines env q file size mime =
      joinLines ((leadingFields env q ++ fileFields env file size mime).map fieldLine) := by
  rw [List.map_append, joinLines_append, ← leadingLines_eq]
  unfold fileLines lastModifiedHeader fileLengthHeaders contentTypeHeader fileFields joinLines
    fieldLine crlf
  split <;> simp

/-! ## Texts without line ends -/

/-- The dates of a machine have no line end. -/
def DatesOk (env : Env) : Prop := ∀ time, NoBreak (timeToHttpFormat env time)

theorem noBreak_formatInt (i : Int) : NoBreak (formatInt i) :=
  ⟨notMem_formatInt (by decide) (by decide), notMem_formatInt (by decide) (by decide)⟩

theorem noBreak_startLine (q : Request) (code : Int) {reasonPhrase : Str}
    (hr : NoBreak reasonPhrase) : NoBreak (startLine q code reasonPhrase) := by
  have hname : NoBreak "HTTP/".toList := by decide
  have hdot : NoBreak ".".toList := by decide
  have hspace : NoBreak " ".toList := by decide
  exact ((((((hname.append (noBreak_formatInt _)).append hdot).append
    (noBreak_formatInt _)).append hspace).append (noBreak_formatInt _)).append hspace).append hr

/-- A field with a fixed name. -/
theorem fieldOk_of_value {name value : Str} (hn : name ≠ [] ∧ ':' ∉ name ∧ NoBreak name)
    (hv : NoBreak value) : FieldOk (name, value) := ⟨hn.1, hn.2.1, hn.2.2, hv⟩

theorem leadingFields_ok {env : Env} (hd : DatesOk env) (q : Request) :
    ∀ f ∈ leadingFields env q, FieldOk f := by
  intro f hf
  simp only [leadingFields, List.mem_cons, List.not_mem_nil, or_false] at hf
  rcases hf with rfl | rfl | rfl
  · exact fieldOk_of_value (by decide) (by decide)
  · exact fieldOk_of_value (by decide) (hd _)
  · refine fieldOk_of_value (by decide) ?_
    split <;> decide

theorem messageFields_ok (code size : Int) : ∀ f ∈ messageFields code size, FieldOk f := by
  intro f hf
  simp only [messageFields, List.mem_append, List.mem_cons, List.not_mem_nil, or_false] at hf
  rcases hf with hf | rfl | rfl
  · split at hf
    · rw [List.mem_singleton] at hf
      subst hf
      exact fieldOk_of_value (by decide) (by decide)
    · cases hf
  · exact fieldOk_of_value (by decide) (noBreak_formatInt _)
  · exact fieldOk_of_value (by decide) (by decide)

theorem fileFields_ok {env : Env} (hd : DatesOk env) (file : OpenFile) (size : Int) {mime : Str}
    (hm : NoBreak mime) : ∀ f ∈ fileFields env file size mime, FieldOk f := by
  intro f hf
  simp only [fileFields, List.mem_cons, List.not_mem_nil, or_false] at hf
  rcases hf with rfl | rfl | rfl | rfl
  · exact fieldOk_of_value (by decide) (hd _)
  · exact fieldOk_of_value (by decide) (noBreak_formatInt _)
  · exact fieldOk_of_value (by decide) (by decide)
  · refine fieldOk_of_value (by decide) ?_
    split
    · exact hm.append (by decide)
    · exact hm

/-! ## The whole response -/

/-- The fields named `Content-Length`. -/
def contentLengths (fields : List (Str × Str)) : List (Str × Str) :=
  fields.filter fun f => f.1 = "Content-Length".toList

theorem contentLengths_message (env : Env) (q : Request) (code size : Int) :
    contentLengths (leadingFields env q ++ messageFields code size) =
      [("Content-Length".toList, formatInt size)] := by
  unfold contentLengths leadingFields messageFields
  by_cases hcode : code = 405
  · rw [if_pos hcode]
    rfl
  · rw [if_neg hcode]
    rfl

theorem contentLengths_file (env : Env) (q : Request) (file : OpenFile) (size : Int) (mime : Str) :
    contentLengths (leadingFields env q ++ fileFields env file size mime) =
      [("Content-Length".toList, formatInt size)] := rfl

/-- What a response is about: its code, the arguments `message_body` and `size`,
and the body. -/
inductive Payload (env : Env) (q : Request) : Int → Str → Int → Str → Prop
  /-- A message with its length. -/
  | message {code : Int} {message : Str} : code ≠ 200 → message.length < 2147483648 →
      Payload env q code message message.length message
  /-- The rewritten target and the length of the file behind it. -/
  | file {r mime : Str} {keys : SiteKeys} {vhost : VhostConfig} {file : OpenFile} :
      selectedSite env q.headers = some keys → keys.vhost = some vhost →
      openResult env (fullPath vhost.root.text r) = some file →
      file.content.length < 2147483648 → mimeType env r = .ok mime → NoBreak mime →
      (fileLines env q file file.content.length mime).length + 3 ≤ headerSize →
      Payload env q 200 r file.content.length file.content

theorem statusLine_eq (q : Request) (code : Int) (reasonPhrase : Str) :
    statusLine q.major q.minor code reasonPhrase = startLine q code reasonPhrase ++ crlf := rfl

theorem messageHead_eq (env : Env) (q : Request) (code size : Int) :
    messageHead env q code size = messageLines env q code size ++ crlf := rfl

theorem written_message {env : Env} {q : Request} (hget : q.method = .get) (code : Int)
    (reasonPhrase message : Str) :
    ((messageCalls env q code reasonPhrase message).filterMap writtenData).flatten =
      render ⟨startLine q code reasonPhrase,
        leadingFields env q ++ messageFields code message.length, message⟩ := by
  have hhead : q.method ≠ .head := by rw [hget]; decide
  rw [render, ← messageLines_eq]
  simp only [messageCalls, if_neg hhead, List.cons_append, List.nil_append, List.filterMap_cons,
    writtenData, List.filterMap_nil, List.flatten_cons, List.flatten_nil, List.append_nil,
    List.append_assoc, statusLine_eq, messageHead_eq]

theorem written_file {env : Env} {q : Request} (hget : q.method = .get) {reasonPhrase mime : Str}
    {file : OpenFile} {path : Str}
    (hfits : (fileLines env q file file.content.length mime).length + 3 ≤ headerSize) :
    ((.write (.status 200) (statusLine q.major q.minor 200 reasonPhrase) ::
        (reopenCalls env q path ++ fileCalls env q file file.content.length mime)).filterMap
          writtenData).flatten =
      render ⟨startLine q 200 reasonPhrase,
        leadingFields env q ++ fileFields env file file.content.length mime, file.content⟩ := by
  have hhead : q.method ≠ .head := by rw [hget]; decide
  have hreopen := filterMap_reopenCalls seesWrites_writtenData.ignoresLookups env q path
  have hwhole : fileHead env q file file.content.length mime =
      fileLines env q file file.content.length mime ++ crlf := by
    refine List.take_of_length_le ?_
    rw [List.length_append, show "\r\n".toList.length = 2 by decide]
    omega
  rw [render, ← fileLines_eq]
  simp only [List.filterMap_cons, List.filterMap_append, hreopen, fileCalls, if_neg hhead, hwhole,
    List.nil_append, List.flatten_cons, flatten_blocks (f := writtenData) fun _ => rfl,
    writtenData, statusLine_eq, List.append_assoc]

/-- The bytes of a response to GET are the text of a message with its status
line, one `Content-Length`, and its body. -/
theorem sendResponse_written {env : Env} {q : Request} {store : HttpHeaders} {code size : Int}
    {reasonPhrase message body : Str} (hh : Holds store q.headers) (hget : q.method = .get)
    (hstatus : (statusLine q.major q.minor code reasonPhrase).length < statusLineSize)
    (hp : Payload env q code message size body) {tr : List ServerEvent}
    {out : Except Halt HttpRequest}
    (h : Prog.Runs (sendResponse env (q.filled store) code reasonPhrase message size) tr out) :
    out = .ok (q.freed store) ∧ ∃ fields, written tr =
        render ⟨startLine q code reasonPhrase, leadingFields env q ++ fields, body⟩ ∧
      contentLengths (leadingFields env q ++ fields) =
        [("Content-Length".toList, decimal body.length)] ∧
      ∀ f ∈ fields, f ∈ messageFields code size ∨ ∃ file mime, NoBreak mime ∧
        f ∈ fileFields env file size mime := by
  cases hp with
  | message hcode hsize =>
      have hint : IsInt32 message.length := ⟨by omega, by omega⟩
      obtain ⟨hout, hcalls⟩ := runs_sendResponse_message hcode hstatus hint h
      refine ⟨hout, messageFields code message.length, ?_, contentLengths_message env q code _,
        fun f hf => .inl hf⟩
      rw [written, observed, hcalls, written_message hget]
  | @file r mime keys vhost file hsite hvhost hfile hsize hmime hbreak hfits =>
      have hint : IsInt32 file.content.length := ⟨by omega, by omega⟩
      have hroot := (vhost_root_bounded (selectedSite_bounded hsite) hvhost).1
      obtain ⟨hout, hcalls⟩ := runs_sendResponse_file hh hmime hsite hvhost hroot hfile hint
        hstatus (by omega) h
      refine ⟨hout, fileFields env file file.content.length mime, ?_,
        contentLengths_file env q file _ mime, fun f hf => .inr ⟨file, mime, hbreak, hf⟩⟩
      rw [written, observed, hcalls, written_file hget hfits]

/-- A reader of messages finds in a response to GET the status line, one
`Content-Length` with the length of the body, and the body. -/
theorem sendResponse_framed {env : Env} {q : Request} {store : HttpHeaders} {code size : Int}
    {reasonPhrase message body : Str} (hh : Holds store q.headers) (hget : q.method = .get)
    (hstatus : (statusLine q.major q.minor code reasonPhrase).length < statusLineSize)
    (hreason : NoBreak reasonPhrase) (hdates : DatesOk env)
    (hp : Payload env q code message size body) {tr : List ServerEvent}
    {out : Except Halt HttpRequest}
    (h : Prog.Runs (sendResponse env (q.filled store) code reasonPhrase message size) tr out) :
    (∃ request, out = .ok request) ∧ ∃ m, parse (written tr) = some m ∧
      m.start = startLine q code reasonPhrase ∧ m.body = body ∧
      contentLengths m.fields = [("Content-Length".toList, decimal body.length)] := by
  obtain ⟨hout, fields, hwritten, hlength, hfields⟩ := sendResponse_written hh hget hstatus hp h
  refine ⟨⟨_, hout⟩, ⟨startLine q code reasonPhrase, leadingFields env q ++ fields, body⟩, ?_, rfl,
    rfl, hlength⟩
  rw [hwritten]
  refine parse_render (noBreak_startLine q code hreason) fun f hf => ?_
  rcases List.mem_append.mp hf with hf | hf
  · exact leadingFields_ok hdates q f hf
  · rcases hfields f hf with hf | ⟨file, mime, hm, hf⟩
    · exact messageFields_ok code size f hf
    · exact fileFields_ok hdates file size hm f hf

theorem datesOk_machine (site : String) (files : List (String × String)) :
    DatesOk (machine site files) := by
  intro time
  change NoBreak "Mon, 01 Jan 2024 00:00:00 UTC".toList
  decide

/-- A page that is not there, and one that is. -/
theorem sendResponse_framed_page :
    (∃ m, parse (written (Prog.play kindAnswer (sendResponse (machine siteFile [])
        (siteRequest.filled siteStore) 404 "Not Found".toList "Not Found\r\n".toList 11)).1) =
          some m ∧
      m.start = "HTTP/1.1 404 Not Found".toList ∧ m.body = "Not Found\r\n".toList ∧
      contentLengths m.fields = [("Content-Length".toList, "11".toList)]) ∧
    ∃ m, parse (written (Prog.play kindAnswer
        (sendResponse (machine siteFile [("/w/x.html", "hi")]) (siteRequest.filled siteStore) 200
          "OK".toList "x.html".toList 2)).1) = some m ∧
      m.start = "HTTP/1.1 200 OK".toList ∧ m.body = "hi".toList ∧
      contentLengths m.fields = [("Content-Length".toList, "2".toList)] := by
  constructor
  · obtain ⟨-, m, hparse, hstart, hbody, hlength⟩ := @sendResponse_framed (machine siteFile [])
      siteRequest siteStore 404 11 "Not Found".toList "Not Found\r\n".toList _ holds_siteStore rfl
      (by decide) (by decide) (datesOk_machine _ _) (.message (by decide) (by decide)) _ _
      (Prog.play_runs kindAnswer _)
    exact ⟨m, hparse, hstart, hbody, hlength⟩
  · obtain ⟨-, m, hparse, hstart, hbody, hlength⟩ :=
      @sendResponse_framed (machine siteFile [("/w/x.html", "hi")]) siteRequest siteStore 200 2
        "OK".toList "x.html".toList _ holds_siteStore rfl (by decide) (by decide)
        (datesOk_machine _ _)
        (.file (siteRequest_selects _) siteFile_vhost
          (show openResult _ _ = some ⟨"hi".toList, 0⟩ by decide +kernel) (by decide)
          (show mimeType _ _ = .ok "text/html".toList from rfl) (by decide) (by decide +kernel))
        _ _ (Prog.play_runs kindAnswer _)
    exact ⟨m, hparse, hstart, hbody, hlength⟩

end Pawnee
