import Mathlib.Data.List.Nodup
import Pawnee.Child.Answers
import Pawnee.Child.ContentType

/-!
# The size of a file

The child announces the `st_size` of a file after `get_file_size` has returned it
as an `int`, and sends blocks until the file ends.  An `int` keeps the sizes below
2^31 only, so these are the files whose `Content-Length` is the length of the body
(`announcesSize_iff`).
-/

namespace Pawnee

open CText Effects Framing

/-! ## The `Content-Length` line -/

/-- A `Content-Length` field. -/
def lengthField (value : Str) : Str × Str := ("Content-Length".toList, value)

/-- The size is the only `Content-Length` of a file. -/
theorem lengthField_mem_before_iff (env : Env) (q : Request) (file : OpenFile) (size : Int)
    {value : Str} : lengthField value ∈ fieldsBefore env q file size ↔ value = formatInt size := by
  have hsize : lengthField (formatInt size) ∈ fieldsBefore env q file size :=
    List.mem_of_getElem? (show (fieldsBefore env q file size)[4]? = some _ from rfl)
  have hnodup : ((fieldsBefore env q file size).map Prod.fst).Nodup := by
    rw [fieldsBefore_names]
    decide
  constructor
  · intro hmem
    exact (Prod.mk.inj (List.inj_on_of_nodup_map hnodup hmem hsize rfl)).2
  · rintro rfl
    exact hsize

/-- The `Content-Length` line a reader finds in the header section of a file. -/
theorem lengthLine_mem_fileHead_iff {env : Env} (hd : DatesOk env) (q : Request) (file : OpenFile)
    {size : Int} (hsize : IsInt32 size) {mime value : Str} (hmime : '\n' ∉ mime) :
    headerLine (lengthField value) ∈ getlineAll (fileHead env q file size mime) ↔
      value = formatInt size := by
  have hcolon : ':' ∉ (lengthField value).1 := by
    change ':' ∉ "Content-Length".toList
    decide
  have hno : lengthField value ≠ typeField (typeValue mime) := fun h => by
    have hname : "Content-Length".toList = "Content-Type".toList := congrArg Prod.fst h
    exact absurd hname (by decide)
  rw [headerLine_mem_fileHead_iff hd q file hsize hmime hcolon, lengthField_mem_before_iff,
    or_iff_left fun h => hno h.2]

/-! ## A file that is sent -/

/-- What a child sends of a file that is found, when the mime file can be scanned and
the cursor stays in the header buffer. -/
structure Request.Sends (env : Env) (q : Request) (r mime : Str) (vhost : VhostConfig)
    (file : OpenFile) : Prop where
  get : q.method = .get
  finds : q.Finds env r vhost
  opens : openResult env (vhost.path r) = some file
  typed : mimeType env r = .ok mime
  fits : (fileLines env q file (getFileSize file) mime).length ≤ headerSize

theorem Request.Sends.pieces {env : Env} {q : Request} {r mime : Str} {vhost : VhostConfig}
    {file : OpenFile} (h : q.Sends env r mime vhost file) {β : Type} {f : Call → Option β}
    (hf : SeesWrites f) {tr : List ServerEvent} {out : Except Halt Unit}
    (hruns : Prog.Runs ((q.course env).prog env) tr out) :
    observed f tr = (q.okStatus ::
      fileCalls env q file (getFileSize file) mime).filterMap f := by
  have hbranch := Request.Branch.file h.finds h.opens
  rw [hbranch.course_eq] at hruns
  have hpage : IgnoresPage f (q.fileEnding env r (vhost.path r) file) :=
    fun _ he => absurd he Request.fileEnding_ne_stats
  rw [hf.observed_course hpage hruns, hf.filterMap_preparation hbranch.before_isPreparation]
  have hreopen := filterMap_reopenCalls hf.ignoresLookups env q (vhost.path r)
  unfold Request.fileEnding
  rw [h.typed]
  simp only [if_pos h.fits, Ending.lead, List.nil_append, List.filterMap_cons,
    List.filterMap_append, hreopen, List.cons_append]

section

variable {env : Env} {q : Request} {r mime : Str} {vhost : VhostConfig} {file : OpenFile}

theorem Request.Sends.header (h : q.Sends env r mime vhost file) {tr : List ServerEvent}
    {out : Except Halt Unit} (hruns : Prog.Runs ((q.course env).prog env) tr out) :
    observed headerSection tr = [fileHead env q file (getFileSize file) mime] := by
  rw [h.pieces seesWrites_headerSection hruns, List.filterMap_cons,
    filterMap_fileCalls fun _ => rfl]
  rfl

/-- The pieces of the body are the content of the file. -/
theorem Request.Sends.body (h : q.Sends env r mime vhost file) {tr : List ServerEvent}
    {out : Except Halt Unit} (hruns : Prog.Runs ((q.course env).prog env) tr out) :
    (observed bodyPiece tr).flatten = file.content := by
  have hhead : q.method ≠ .head := by rw [h.get]; decide
  rw [h.pieces seesWrites_bodyPiece hruns, fileCalls, if_neg hhead]
  exact flatten_blocks (fun _ => rfl) file.content

end

/-! ## The size that is announced -/

/-- Every run of the child announces the number of bytes, and sends as many. -/
def AnnouncesSize (env : Env) (stream : Str) (n : Nat) : Prop :=
  ∀ {tr : List ServerEvent} {out : Except Halt Unit},
    Prog.Runs (respondClient env (some stream)) tr out →
    (∃ head ∈ observed headerSection tr, ∀ value,
      headerLine (lengthField value) ∈ getlineAll head ↔ value = decimal n) ∧
    (observed bodyPiece tr).flatten.length = n

section

variable {env : Env} {stream requestLine headersBlock unread : Str} {q : Request} {r mime : Str}
  {vhost : VhostConfig} {file : OpenFile}

/-- The child announces what `get_file_size` returns, and sends the content. -/
theorem Request.Sends.announces_iff
    (hread : readRequest stream = some (requestLine, headersBlock, unread))
    (hq : parseRequest requestLine headersBlock = some q) (hdates : DatesOk env)
    (hsends : q.Sends env r mime vhost file) (n : Nat) :
    AnnouncesSize env stream n ↔ getFileSize file = n ∧ file.content.length = n := by
  have hline : ∀ value, headerLine (lengthField value) ∈
      getlineAll (fileHead env q file (getFileSize file) mime) ↔
        value = formatInt (getFileSize file) := fun value =>
    lengthLine_mem_fileHead_iff hdates q file (toInt32_bounds _)
      (mimeType_no_lineFeed hsends.typed)
  unfold AnnouncesSize
  rw [respondClient_parsed hread hq]
  constructor
  · intro h
    obtain ⟨tr, out, hruns⟩ := Prog.exists_runs ((q.course env).prog env)
    obtain ⟨⟨head, hhead, hvalue⟩, hbody⟩ := h hruns
    rw [hsends.header hruns, List.mem_singleton] at hhead
    rw [hsends.body hruns] at hbody
    subst hhead
    exact ⟨formatInt_injective ((hvalue _).mp ((hline _).mpr rfl)), hbody⟩
  · rintro ⟨hsize, hlength⟩ tr out hruns
    have hhead : fileHead env q file (getFileSize file) mime ∈ observed headerSection tr := by
      rw [hsends.header hruns]
      exact List.mem_singleton_self _
    refine ⟨⟨_, hhead, fun value => ?_⟩, (congrArg List.length (hsends.body hruns)).trans hlength⟩
    rw [hline, hsize, formatInt_natCast]

/-- The size of a file is announced if and only if an `int` holds it. -/
theorem announcesSize_iff (hread : readRequest stream = some (requestLine, headersBlock, unread))
    (hq : parseRequest requestLine headersBlock = some q) (hdates : DatesOk env)
    (hsends : q.Sends env r mime vhost file) :
    AnnouncesSize env stream file.content.length ↔ file.content.length < 2147483648 := by
  rw [hsends.announces_iff hread hq hdates, ← toInt32_natCast_eq_iff]
  exact and_iff_left rfl

end

/-- A machine with one file. -/
def fileMachine (file : OpenFile) : Env :=
  { machine siteFile [("/w/x.html", "")] with fopen := fun _ => some file }

/-- The stream of a request for the file. -/
def fileStream : Str := "GET /x.html HTTP/1.1\r\nHost: a\r\n\r\n".toList

/-- The request for the file. -/
def fileRequest : Request := ⟨.get, 1, 1, "/x.html".toList, [⟨"Host".toList, "a".toList⟩]⟩

theorem fileStream_read : readRequest fileStream =
    some ("GET /x.html HTTP/1.1\r\n".toList, "Host: a\r\n".toList, []) := by decide +kernel

theorem fileRequest_parsed :
    parseRequest "GET /x.html HTTP/1.1\r\n".toList "Host: a\r\n".toList = some fileRequest := by
  decide +kernel

theorem fileRequest_sends (file : OpenFile) :
    fileRequest.Sends (fileMachine file) "x.html".toList "text/html".toList siteVhost file where
  get := rfl
  finds :=
    { method := by decide
      major := by decide
      target := by decide
      not_stats := by decide
      site := ⟨scanSite siteFile.toList, rfl, siteFile_vhost⟩
      passes := ⟨rfl, ⟨false, true⟩, rfl, rfl⟩ }
  opens := rfl
  typed := rfl
  fits := by
    have htype : (contentTypeHeader "text/html".toList).length = 40 := by decide
    have hlines := fileLines_length_le (fileMachine file) fileRequest file
      (toInt32_bounds file.content.length) "text/html".toList
    rw [htype] at hlines
    exact hlines.trans (by decide)

theorem datesOk_fileMachine (file : OpenFile) : DatesOk (fileMachine file) :=
  datesOk_machine siteFile [("/w/x.html", "")]

theorem announcesSize_iff_hi :
    AnnouncesSize (fileMachine ⟨"hi".toList, 0⟩) fileStream "hi".toList.length ↔
      "hi".toList.length < 2147483648 :=
  announcesSize_iff fileStream_read fileRequest_parsed (datesOk_fileMachine _)
    (fileRequest_sends ⟨"hi".toList, 0⟩)

/-- A file of 2^31 bytes. -/
def hugeFile : OpenFile := ⟨List.replicate 2147483648 'a', 0⟩

/-- Its size is announced as a negative number. -/
theorem not_announcesSize_huge :
    hugeFile.content.length = 2147483648 ∧ getFileSize hugeFile = -2147483648 ∧
      ¬ AnnouncesSize (fileMachine hugeFile) fileStream 2147483648 := by
  have hlength : hugeFile.content.length = 2147483648 := List.length_replicate
  have hsize : getFileSize hugeFile = -2147483648 := by
    rw [getFileSize, hlength]
    rfl
  refine ⟨hlength, hsize, fun h => ?_⟩
  have hannounced := (Request.Sends.announces_iff fileStream_read fileRequest_parsed
    (datesOk_fileMachine _) (fileRequest_sends hugeFile) _).mp h
  exact absurd (hsize.symm.trans hannounced.1) (by decide)

end Pawnee
