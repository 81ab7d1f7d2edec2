import Pawnee.Child.ContentType
import Pawnee.Child.MimeTable

/-!
# The cursor of the header section

`send_response` formats the header section with one `snprintf` after the other, at a
cursor that counts the bytes the texts would have taken.  Once the cursor has passed the
end of the buffer, the room that is left wraps.

The texts are the same whatever the cursor does (`responseLines`), so the bound is one on
their lengths.  The type is the only one that can be long, and the cursor is kept exactly
if the type leaves room for the final line end (`keepsCursor_iff`).
-/

namespace Pawnee

open CText Effects

/-! ## The texts of a response -/

/-- The texts `send_response` appends that depend on the code, and the file for code
200. -/
def codeLines (env : Env) (request : HttpRequest) (code : Int) (messageBody : Str) (size : Int) :
    Server (List Str × Option OpenFile) :=
  if code = 200 then do
    let mime ← getMimeType env messageBody
    let mime := mime.getD "application/octet-stream".toList
    let vhost ← getVhostConfig env request
    let vhost ← pointee vhost
    let file ← checkAndOpen env messageBody (some vhost.root.text)
    let file ← pointee file
    pure ([lastModifiedHeader env file, fileLengthHeaders size, contentTypeHeader mime], some file)
  else if code = 405 then pure ([notAllowedHeaders size], none)
  else pure ([messageHeaders size], none)

/-- The texts `send_response` appends in front of the final line end. -/
def responseLines (env : Env) (request : HttpRequest) (code : Int) (messageBody : Str)
    (size : Int) : Server (List Str × Option OpenFile) := do
  let httpMajor ← field request.httpMajor
  let httpMinor ← field request.httpMinor
  let (lines, file) ← codeLines env request code messageBody size
  pure (commonHeaders env :: connectionHeader httpMajor httpMinor :: lines, file)

/-- Append texts, one after the other. -/
def appendAll (header : HeaderBuffer) (lines : List Str) : Server HeaderBuffer :=
  lines.foldlM appendHeader header

theorem appendAll_cons (header : HeaderBuffer) (line : Str) (lines : List Str) :
    appendAll header (line :: lines) =
      appendHeader header line >>= fun header => appendAll header lines := List.foldlM_cons

/-- The texts are appended when they are known. -/
theorem codeHeaders_eq (env : Env) (request : HttpRequest) (code : Int) (messageBody : Str)
    (size : Int) (header : HeaderBuffer) :
    codeHeaders env request code messageBody size header =
      codeLines env request code messageBody size >>= fun p =>
        appendAll header p.1 >>= fun header => pure (header, p.2) := by
  unfold codeHeaders codeLines
  split
  · simp only [Prog.bind_bind, Prog.pure_eq, Prog.ret_bind, appendAll, List.foldlM_cons,
      List.foldlM_nil]
  · split <;> simp only [Prog.bind_bind, Prog.pure_eq, Prog.ret_bind, appendAll, List.foldlM_cons,
      List.foldlM_nil]

/-! ## The cursor -/

/-- Texts that end in the buffer or at its end are all appended. -/
theorem appendAll_of : ∀ {lines : List Str} {t : Str}, (t ++ lines.flatten).length ≤ headerSize →
    appendAll (.of t) lines = .ret (.of (t ++ lines.flatten))
  | [], t, _ => by rw [List.flatten_nil, List.append_nil]; rfl
  | line :: lines, t, h => by
      rw [List.flatten_cons, ← List.append_assoc] at h ⊢
      have hhere : t.length ≤ headerSize := by
        simp only [List.length_append] at h
        omega
      rw [appendAll_cons, appendHeader_of line hhere, Prog.ret_bind, appendAll_of h]

theorem appendAll_start {lines : List Str} (h : lines.flatten.length ≤ headerSize) :
    appendAll ⟨[], 0⟩ lines = .ret (.of lines.flatten) := appendAll_of (t := []) h

/-- Appending goes wrong or moves the cursor by the lengths of the texts. -/
theorem appendAll_eq_ret : ∀ {lines : List Str} {t : Str} {header : HeaderBuffer},
    appendAll (.of t) lines = .ret header → header = .of (t ++ lines.flatten)
  | [], t, header, h => by
      rw [List.flatten_nil, List.append_nil]
      exact (Prog.ret.inj h).symm
  | line :: lines, t, header, h => by
      rw [appendAll_cons] at h
      by_cases hhere : t.length ≤ headerSize
      · rw [appendHeader_of line hhere, Prog.ret_bind] at h
        rw [appendAll_eq_ret h, List.flatten_cons, List.append_assoc]
      · rw [appendHeader_over line (not_le.mp hhere)] at h
        cases h

/-- Before each of the texts the cursor is in the buffer or at its end. -/
def CursorStays (lines : List Str) : Prop :=
  ∀ before line behind, lines = before ++ line :: behind →
    ∃ header, appendAll ⟨[], 0⟩ before = .ret header ∧ header.len ≤ headerSize

theorem cursorStays_iff {lines : List Str} {last : Str} :
    CursorStays (lines ++ [last]) ↔ lines.flatten.length ≤ headerSize := by
  constructor
  · intro h
    obtain ⟨header, hall, hlen⟩ := h lines last [] rfl
    rw [appendAll_eq_ret (t := []) hall] at hlen
    exact hlen
  · intro h before line behind hlines
    have hbefore : before.flatten.length ≤ headerSize := by
      have hprefix : before <+: lines := by
        refine (List.prefix_concat_iff.mp ⟨line :: behind, hlines.symm⟩).resolve_left fun heq => ?_
        have hlen := congrArg List.length hlines
        simp only [heq, List.length_append, List.length_cons] at hlen
        omega
      obtain ⟨rest, rfl⟩ := hprefix
      rw [List.flatten_append, List.length_append] at h
      omega
    exact ⟨_, appendAll_start hbefore, hbefore⟩

/-! ## The header section that is sent -/

/-- Every response sends what its texts have left in the buffer. -/
theorem sendResponse_lines (env : Env) (q : Request) (store : HttpHeaders) {code : Int}
    {reasonPhrase : Str} (message : Str) (size : Int)
    (hstatus : (statusLine q.major q.minor code reasonPhrase).length < statusLineSize) :
    sendResponse env (q.filled store) code reasonPhrase message size =
      .doing [.write (.status code) (statusLine q.major q.minor code reasonPhrase)]
        (responseLines env (q.filled store) code message size >>= fun p =>
          appendAll ⟨[], 0⟩ p.1 >>= fun header =>
          appendHeader header "\r\n".toList >>= fun header =>
          perform (.write .header header.text) >>= fun _ =>
          sendBody q.method code message size p.2 >>= fun _ => pure (q.freed store)) := by
  have hlead : ∀ lines, appendAll ⟨[], 0⟩
      (commonHeaders env :: connectionHeader q.major q.minor :: lines) =
      appendAll (.of (leadingLines env q)) lines := by
    intro lines
    have hcommon := (commonHeaders_length_le env).trans (by decide : 123 ≤ headerSize)
    rw [appendAll_cons, show (⟨[], 0⟩ : HeaderBuffer) = .of [] from rfl,
      appendHeader_of _ (Nat.zero_le _), Prog.ret_bind, appendAll_cons, List.nil_append,
      appendHeader_of _ hcommon, Prog.ret_bind]
    rfl
  rw [sendResponse_eq env q store message size hstatus, codeHeaders_eq, responseLines]
  simp only [Request.filled, field_some, Prog.ret_bind, Prog.bind_bind, Prog.pure_eq, hlead]

/-- The body is no header section. -/
theorem observed_header_sendBody {method : HttpMethod} {code : Int} {message : Str} {size : Int}
    {file : Option OpenFile} {tr : List ServerEvent} {out : Except Halt Unit}
    (h : Prog.Runs (sendBody method code message size file) tr out) :
    observed headerSection tr = [] := by
  unfold sendBody at h
  split at h
  · obtain ⟨rfl, -⟩ := Prog.runs_ret_iff.mp h
    rfl
  · split at h
    · cases file with
      | none =>
          obtain ⟨rfl, -⟩ := Prog.runs_ret_iff.mp h
          rfl
      | some file =>
          simp only [sendBlocks_eq] at h
          rw [observed, (Prog.runs_doing_ret_iff.mp h).1]
          refine filterMap_ignored fun e he => ?_
          obtain ⟨block, -, rfl⟩ := List.mem_map.mp he
          rfl
    · unfold writeString at h
      split at h
      · obtain ⟨n, tr₁, rfl, hrest⟩ := Prog.runs_op_iff.mp h
        obtain ⟨rfl, -⟩ := Prog.runs_ret_iff.mp hrest
        rfl
      · obtain ⟨rfl, -⟩ := Prog.runs_stop_iff.mp h
        rfl

section

variable {env : Env} {q : Request} {store : HttpHeaders} {code size : Int}
  {reasonPhrase message : Str}

/-- The header section of a response whose texts are known. -/
theorem observed_header_of_lines {calls : List Call} {lines : List Str} {file : Option OpenFile}
    (hlines : responseLines env (q.filled store) code message size =
      .doing calls (.ret (lines, file)))
    (hquiet : calls.filterMap headerSection = []) (hfits : lines.flatten.length ≤ headerSize)
    (hstatus : (statusLine q.major q.minor code reasonPhrase).length < statusLineSize)
    {tr : List ServerEvent} {out : Except Halt HttpRequest}
    (h : Prog.Runs (sendResponse env (q.filled store) code reasonPhrase message size) tr out) :
    observed headerSection tr = [(HeaderBuffer.of (lines.flatten ++ "\r\n".toList)).text] := by
  rw [sendResponse_lines env q store message size hstatus, hlines] at h
  simp only [Prog.doing_bind, Prog.ret_bind, Prog.doing_doing] at h
  rw [appendAll_start hfits, Prog.ret_bind, appendHeader_of _ hfits, Prog.ret_bind,
    Prog.call_bind] at h
  obtain ⟨tr₁, tr₂, rfl, hcalls, hrest⟩ := Prog.runs_doing_iff.mp h
  obtain ⟨n, tr₃, rfl, hbody⟩ := Prog.runs_op_iff.mp hrest
  have hquietBody : observed headerSection tr₃ = [] := by
    rcases Prog.runs_bind hbody with ⟨tr₄, tr₅, _, rfl, hsend, hret⟩ | ⟨_, -, hsend⟩
    · obtain ⟨rfl, -⟩ := Prog.runs_ret_iff.mp hret
      rw [List.append_nil, observed_header_sendBody hsend]
    · exact observed_header_sendBody hsend
  have hfirst : observed headerSection tr₁ = [] := by
    rw [observed, hcalls, List.filterMap_append, hquiet]
    rfl
  rw [observed_append, hfirst, List.nil_append, observed, Prog.callsOf_cons, List.filterMap_cons]
  exact congrArg _ hquietBody

/-- In every run of `send_response` the cursor stays where the texts are appended, and the
header section is what was in the buffer and the final line end. -/
def KeepsCursor (env : Env) (request : HttpRequest) (code : Int) (reasonPhrase message : Str)
    (size : Int) : Prop :=
  ∀ tr out, Prog.Runs (sendResponse env request code reasonPhrase message size) tr out →
    ∃ lookups lines file header,
      Prog.Runs (responseLines env request code message size) lookups (.ok (lines, file)) ∧
      CursorStays (lines ++ ["\r\n".toList]) ∧ appendAll ⟨[], 0⟩ lines = .ret header ∧
      observed headerSection tr = [header.text ++ "\r\n".toList]

/-- The cursor is kept exactly if there is room for the final line end. -/
theorem keepsCursor_iff_length {calls : List Call} {lines : List Str} {file : Option OpenFile}
    (hlines : responseLines env (q.filled store) code message size =
      .doing calls (.ret (lines, file)))
    (hquiet : calls.filterMap headerSection = [])
    (hstatus : (statusLine q.major q.minor code reasonPhrase).length < statusLineSize) :
    KeepsCursor env (q.filled store) code reasonPhrase message size ↔
      lines.flatten.length + 2 < headerSize := by
  have hend : "\r\n".toList.length = 2 := by decide
  constructor
  · intro h
    obtain ⟨tr, out, hrun⟩ :=
      Prog.exists_runs (sendResponse env (q.filled store) code reasonPhrase message size)
    obtain ⟨lookups, lines', file', header, hruns, hcursor, hall, hsent⟩ := h tr out hrun
    rw [hlines] at hruns
    cases (Prog.runs_doing_ret_iff.mp hruns).2
    have hfits := cursorStays_iff.mp hcursor
    rw [appendAll_start hfits] at hall
    cases hall
    rw [observed_header_of_lines hlines hquiet hfits hstatus hrun] at hsent
    have hlen := congrArg List.length (List.cons.inj hsent).1
    simp only [HeaderBuffer.of, List.length_take, List.length_append, hend] at hlen
    omega
  · intro hroom tr out hrun
    have hfits : lines.flatten.length ≤ headerSize := by omega
    obtain ⟨lookups, hlookups⟩ : ∃ lookups : List ServerEvent, Prog.callsOf lookups = calls :=
      Prog.exists_events calls
    have hruns : Prog.Runs (responseLines env (q.filled store) code message size) lookups
        (.ok (lines, file)) := by
      rw [hlines, Prog.runs_doing_ret_iff]
      exact ⟨hlookups, rfl⟩
    refine ⟨lookups, lines, file, _, hruns, cursorStays_iff.mpr hfits, appendAll_start hfits, ?_⟩
    rw [observed_header_of_lines hlines hquiet hfits hstatus hrun,
      HeaderBuffer.text_of (by rw [List.length_append, hend]; omega),
      HeaderBuffer.text_of (by omega)]

/-! ## Messages and files -/

/-- The texts of a message. -/
theorem responseLines_message (hcode : code ≠ 200) :
    responseLines env (q.filled store) code message size =
      .ret ([commonHeaders env, connectionHeader q.major q.minor,
        if code = 405 then notAllowedHeaders size else messageHeaders size], none) := by
  simp only [responseLines, codeLines, Request.filled, field_some, Prog.ret_bind, if_neg hcode]
  split <;> rfl

theorem message_flatten_length_le (env : Env) (q : Request) (code : Int) (hsize : IsInt32 size) :
    [commonHeaders env, connectionHeader q.major q.minor,
      if code = 405 then notAllowedHeaders size else messageHeaders size].flatten.length ≤ 235 := by
  have hlines := messageLines_length_le env q code hsize
  simpa only [messageLines, leadingLines, List.flatten_cons, List.flatten_nil, List.append_nil,
    List.append_assoc] using hlines

variable {keys : SiteKeys} {vhost : VhostConfig} {r mime : Str} {file : OpenFile}

/-- The texts of a file. -/
theorem responseLines_file (hh : Holds store q.headers) (hmime : mimeType env r = .ok mime)
    (hsite : selectedSite env q.headers = some keys) (hvhost : keys.vhost = some vhost)
    (hfile : openResult env (fullPath vhost.root.text r) = some file) :
    responseLines env (q.filled store) 200 r size =
      .doing (reopenCalls env q (fullPath vhost.root.text r))
        (.ret ([commonHeaders env, connectionHeader q.major q.minor, lastModifiedHeader env file,
          fileLengthHeaders size, contentTypeHeader mime], some file)) := by
  have hroot := (vhost_root_bounded (selectedSite_bounded hsite) hvhost).1
  have hmajor : (q.filled store).httpMajor = some q.major := rfl
  have hminor : (q.filled store).httpMinor = some q.minor := rfl
  unfold responseLines codeLines
  rw [if_pos rfl]
  simp only [hmajor, hminor, field_some, getMimeType_eq, hmime, Except.map, orFault_ok,
    Prog.doing_bind, Prog.ret_bind, getVhostConfig_eq env hh, hsite, vhostOf_eq, hvhost,
    pointee_some, checkAndOpen_eq _ _ hroot, hfile, Option.getD_some, Prog.pure_eq,
    Prog.doing_doing, reopenCalls, List.append_assoc]

/-- A scan of the mime file that goes wrong ends the process before the lookup. -/
theorem responseLines_mime_fault {f : Fault} (hmime : mimeType env r = .error f) :
    responseLines env (q.filled store) 200 r size = .doing (mimeCalls env) (fault f) := by
  have hmajor : (q.filled store).httpMajor = some q.major := rfl
  have hminor : (q.filled store).httpMinor = some q.minor := rfl
  unfold responseLines codeLines
  rw [if_pos rfl]
  simp only [hmajor, hminor, field_some, getMimeType_eq, hmime, Except.map, orFault_error,
    Prog.doing_bind, Prog.ret_bind, fault_bind]

/-- The file `send_response` opens for a name. -/
def FileAsked (env : Env) (q : Request) (name : Str) (file : OpenFile) : Prop :=
  ∃ keys vhost, selectedSite env q.headers = some keys ∧ keys.vhost = some vhost ∧
    openResult env (fullPath vhost.root.text name) = some file

/-- The dates, the version, the size and the type leave room for the final line end. -/
def TypeFits (env : Env) (q : Request) (file : OpenFile) (size : Int) (mime : Str) : Prop :=
  (timeToHttpFormat env env.now).length +
    (timeToHttpFormat env (getLastModifiedDate file)).length + (formatInt size).length +
    (mime.length + if "text/".toList.isPrefixOf mime then 15 else 0) +
    (if q.major = 1 ∧ q.minor = 1 then 24 else 19) ≤ 1948

theorem file_flatten_length_lt_iff :
    [commonHeaders env, connectionHeader q.major q.minor, lastModifiedHeader env file,
      fileLengthHeaders size, contentTypeHeader mime].flatten.length + 2 < headerSize ↔
      TypeFits env q file size mime := by
  have hconn := connectionHeader_length q.major q.minor
  simp only [List.flatten_cons, List.flatten_nil, List.length_append, List.length_nil,
    commonHeaders_length, lastModifiedHeader_length, fileLengthHeaders_length,
    contentTypeHeader_length, TypeFits, headerSize]
  omega

/-- The response with a file whose type is known. -/
theorem keepsCursor_file_iff (hh : Holds store q.headers) (hasked : FileAsked env q message file)
    (hmime : mimeType env message = .ok mime)
    (hstatus : (statusLine q.major q.minor 200 reasonPhrase).length < statusLineSize) :
    KeepsCursor env (q.filled store) 200 reasonPhrase message size ↔
      TypeFits env q file size mime := by
  obtain ⟨keys, vhost, hsite, hvhost, hopen⟩ := hasked
  have hquiet := filterMap_reopenCalls seesWrites_headerSection.ignoresLookups env q
    (fullPath vhost.root.text message)
  rw [keepsCursor_iff_length (responseLines_file hh hmime hsite hvhost hopen) hquiet hstatus,
    file_flatten_length_lt_iff]

/-- A response that ends in the scan of the mime file has no header section. -/
theorem not_keepsCursor_of_mime_fault {f : Fault} (hmime : mimeType env message = .error f) :
    ¬ KeepsCursor env (q.filled store) 200 reasonPhrase message size := by
  intro h
  obtain ⟨tr, out, hrun⟩ :=
    Prog.exists_runs (sendResponse env (q.filled store) 200 reasonPhrase message size)
  obtain ⟨_, _, _, _, hruns, -⟩ := h tr out hrun
  rw [responseLines_mime_fault hmime] at hruns
  cases (Prog.runs_doing_stop_iff.mp hruns).2

/-- The cursor is kept exactly if the response has no file, or the mime file
can be scanned for its name and the type fits. -/
theorem keepsCursor_iff (hh : Holds store q.headers)
    (hfile : code = 200 → FileAsked env q message file) (hsize : IsInt32 size)
    (hstatus : (statusLine q.major q.minor code reasonPhrase).length < statusLineSize) :
    KeepsCursor env (q.filled store) code reasonPhrase message size ↔
      (code = 200 → ∃ mime, mimeType env message = .ok mime ∧ TypeFits env q file size mime) := by
  by_cases hcode : code = 200
  · subst hcode
    cases hmime : mimeType env message with
    | error f =>
        refine iff_of_false (not_keepsCursor_of_mime_fault hmime) fun h => ?_
        obtain ⟨mime, hok, -⟩ := h rfl
        cases hok
    | ok mime =>
        rw [keepsCursor_file_iff hh (hfile rfl) hmime hstatus]
        simp
  · have hlines := message_flatten_length_le env q code hsize
    refine iff_of_true ?_ fun h => absurd h hcode
    have htexts : responseLines env (q.filled store) code message size = .doing [] _ :=
      responseLines_message hcode
    rw [keepsCursor_iff_length htexts rfl hstatus, headerSize]
    omega

end

/-! ## A long type -/

theorem mimePart_replicate {n : Nat} (hn : n ≠ 0) : MimePart (List.replicate n 'a') where
  ne_nil := by simp [hn]
  no_star := by simp [List.mem_replicate]
  no_nul := by simp [List.mem_replicate]
  no_lineFeed := by simp [List.mem_replicate]

/-- A row with a long type. -/
def longRow (n : Nat) (hn : n ≠ 0) : MimeRow where
  type := List.replicate n 'a'
  ext := "html".toList
  type_ok := mimePart_replicate hn
  ext_ok := htmlRow.ext_ok

/-- A machine with a file and this row. -/
def longMachine (n : Nat) (hn : n ≠ 0) : Env :=
  { machine siteFile [("/w/x.html", "hi")] with mimes := some (mimeFile [longRow n hn] true) }

theorem mimeType_long (n : Nat) (hn : n ≠ 0) :
    mimeType (longMachine n hn) "x.html".toList = .ok (List.replicate n 'a') := by
  have hpart : lastPart "x.html".toList = "html".toList := by decide
  have hlast : (List.replicate n 'a').getLast? ≠ some ' ' := by
    simp [List.getLast?_replicate, hn]
  have hmimes : (longMachine n hn).mimes = some (mimeFile [longRow n hn] true) := rfl
  rw [mimeType_rows (by decide) hmimes, hpart]
  simp [longRow, hlast]

theorem fileAsked_long (n : Nat) (hn : n ≠ 0) :
    FileAsked (longMachine n hn) siteRequest "x.html".toList ⟨"hi".toList, 0⟩ :=
  ⟨_, siteVhost, siteRequest_selects [("/w/x.html", "hi")], siteFile_vhost, rfl⟩

theorem keepsCursor_iff_long :
    KeepsCursor (longMachine 2000 (by decide)) (siteRequest.filled siteStore) 200 "OK".toList
        "x.html".toList 2 ↔
      ((200 : Int) = 200 → ∃ mime, mimeType (longMachine 2000 (by decide)) "x.html".toList =
        .ok mime ∧ TypeFits (longMachine 2000 (by decide)) siteRequest ⟨"hi".toList, 0⟩ 2 mime) :=
  keepsCursor_iff (q := siteRequest) holds_siteStore (fun _ => fileAsked_long _ _)
    ⟨by decide, by decide⟩ (by decide)

/-- A type of 2000 bytes is too long. -/
theorem not_keepsCursor_long :
    FileAsked (longMachine 2000 (by decide)) siteRequest "x.html".toList ⟨"hi".toList, 0⟩ ∧
      ¬ KeepsCursor (longMachine 2000 (by decide)) (siteRequest.filled siteStore) 200 "OK".toList
        "x.html".toList 2 := by
  have hasked := fileAsked_long 2000 (by decide)
  refine ⟨hasked, ?_⟩
  rw [keepsCursor_file_iff (q := siteRequest) holds_siteStore hasked
    (mimeType_long 2000 (by decide)) (by decide), TypeFits, List.length_replicate]
  omega

end Pawnee
