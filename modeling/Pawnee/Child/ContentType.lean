import Pawnee.Child.FileHead

/-!
# Content types

A file should be sent with a type, `application/octet-stream` if the mime file has
none for it.  `send_response` falls back to it when `get_mime_type` returns NULL,
but that returns an empty string for a type it has not found, and cannot scan a
line of the mime file for a name without a dot.

So a type is sent exactly if the mime file gives one (`TypeFound`) and the header
section has room for it (`sendsType_iff`).
-/

namespace Pawnee

open CText Effects Framing

/-! ## The type the mime file gives -/

/-- The first line that gives a type for the extension gives this one, and the scan
gets there. -/
inductive GivenBy (ext : Option Str) : List Str → Str → Prop
  | here {line mime token : Str} {lines : List Str} : Scannable ext line →
      mimeParts (cstr line).dropLast = some (mime, token) → ext = some token →
      GivenBy ext (line :: lines) mime
  | later {line mime : Str} {lines : List Str} : Scannable ext line → ¬ GivesType ext line →
      GivenBy ext lines mime → GivenBy ext (line :: lines) mime

/-- The mime file gives the type of a name. -/
def TypeFound (env : Env) (name mime : Str) : Prop :=
  ∃ content, env.mimes = some content ∧ GivenBy (extensionOf name) (getlineAll content) mime

theorem mimeParts_ne_nil {line mime token : Str} (h : mimeParts line = some (mime, token)) :
    mime ≠ [] :=
  (strtok_some (Prod.ext (mimeParts_some h).1 rfl)).1

theorem mimeParts_subset {line mime token : Str} (h : mimeParts line = some (mime, token)) :
    ∀ c ∈ mime, c ∈ line :=
  fun _ hc => (strtok_isInfix (Prod.ext (mimeParts_some h).1 rfl)).subset hc

/-- A line has no line feed but its last byte. -/
theorem no_lineFeed_of_mem {content line : Str} (h : line ∈ getlineAll content) :
    '\n' ∉ (cstr line).dropLast := by
  rcases mem_getlineAll h with ⟨b, hb, rfl⟩ | ⟨-, hlf⟩
  · intro hmem
    by_cases hnul : '\x00' ∈ b
    · rw [cstr_append_of_mem hnul] at hmem
      exact hb (mem_of_mem_cstr (List.mem_of_mem_dropLast hmem))
    · rw [cstr_append hnul, show cstr ['\n'] = ['\n'] from rfl, List.dropLast_concat] at hmem
      exact hb hmem
  · exact fun hmem => hlf (mem_of_mem_cstr (List.mem_of_mem_dropLast hmem))

/-- The scan returns a type exactly if a line gives it. -/
theorem mimeLookup_iff_givenBy (ext : Option Str) (mime : Str) : ∀ lines : List Str,
    mimeLookup ext lines = .ok mime ∧ mime ≠ [] ↔ GivenBy ext lines mime
  | [] => by
      constructor
      · rintro ⟨h, hne⟩
        cases h
        exact absurd rfl hne
      · intro h
        cases h
  | line :: lines => by
      by_cases hscan : Scannable ext line
      · by_cases hgive : GivesType ext line
        · obtain ⟨m, token, hparts, hext⟩ := hgive
          rw [mimeLookup_here hscan hparts hext, Except.ok.injEq]
          constructor
          · rintro ⟨rfl, -⟩
            exact .here hscan hparts hext
          · intro h
            cases h with
            | here _ hp _ =>
                cases hparts.symm.trans hp
                exact ⟨rfl, mimeParts_ne_nil hparts⟩
            | later _ hno _ => exact absurd ⟨m, token, hparts, hext⟩ hno
        · rw [mimeLookup_later hscan hgive, mimeLookup_iff_givenBy ext mime lines]
          constructor
          · exact .later hscan hgive
          · intro h
            cases h with
            | here _ hp hext => exact absurd ⟨_, _, hp, hext⟩ hgive
            | later _ _ hrest => exact hrest
      · obtain ⟨f, hf⟩ := mimeLookup_unscannable hscan lines
        rw [hf]
        constructor
        · rintro ⟨h, -⟩
          cases h
        · intro h
          cases h with
          | here hs => exact absurd hs hscan
          | later hs => exact absurd hs hscan

/-- `get_mime_type` returns a type exactly if the mime file gives it. -/
theorem mimeType_iff_typeFound {env : Env} {name mime : Str} :
    mimeType env name = .ok mime ∧ mime ≠ [] ↔ TypeFound env name mime := by
  simp only [mimeType, TypeFound]
  cases env.mimes with
  | none =>
      constructor
      · rintro ⟨h, hne⟩
        cases h
        exact absurd rfl hne
      · rintro ⟨content, h, -⟩
        cases h
  | some content => simpa using mimeLookup_iff_givenBy (extensionOf name) mime (getlineAll content)

/-- What a line gives has no line feed. -/
theorem GivenBy.no_lineFeed {ext : Option Str} {lines : List Str} {mime : Str}
    (h : GivenBy ext lines mime) (hlines : ∀ line ∈ lines, '\n' ∉ (cstr line).dropLast) :
    '\n' ∉ mime := by
  induction h with
  | here _ hparts _ => exact fun hc => hlines _ List.mem_cons_self (mimeParts_subset hparts _ hc)
  | later _ _ _ ih => exact ih fun line hline => hlines line (List.mem_cons_of_mem _ hline)

theorem mimeType_no_lineFeed {env : Env} {name mime : Str} (h : mimeType env name = .ok mime) :
    '\n' ∉ mime := by
  by_cases hne : mime = []
  · simp [hne]
  · obtain ⟨content, -, hgiven⟩ := mimeType_iff_typeFound.mp ⟨h, hne⟩
    exact hgiven.no_lineFeed fun line hline => no_lineFeed_of_mem hline

/-! ## What is sent -/

/-- The line of a type is in the header section exactly if it is the type of the
file and all of it fits the buffer. -/
theorem typeLine_mem_fileHead_iff {env : Env} (hd : DatesOk env) (q : Request) (file : OpenFile)
    {size : Int} (hsize : IsInt32 size) {mime value : Str} (hmime : '\n' ∉ mime) :
    headerLine (typeField value) ∈ getlineAll (fileHead env q file size mime) ↔
      (fileLines env q file size mime).length < headerSize ∧ value = typeValue mime := by
  rw [headerLine_mem_fileHead_iff hd q file hsize hmime (typeField_name_colon value),
    or_iff_right (typeField_not_mem_before env q file size value), typeField_inj]

/-- Every run of `send_response` sends a header section with a `Content-Type` line
with a value, which is `application/octet-stream` if the mime file gives no type. -/
def SendsType (env : Env) (q : Request) (store : HttpHeaders) (reasonPhrase r : Str)
    (size : Int) : Prop :=
  ∀ {tr : List ServerEvent} {out : Except Halt HttpRequest},
    Prog.Runs (sendResponse env (q.filled store) 200 reasonPhrase r size) tr out →
    ∃ head ∈ observed headerSection tr, ∃ value, value ≠ [] ∧
      headerLine (typeField value) ∈ getlineAll head ∧
      ((∀ mime, ¬ TypeFound env r mime) → value = "application/octet-stream".toList)

section

variable {env : Env} {q : Request} {store : HttpHeaders} {keys : SiteKeys} {vhost : VhostConfig}
  {r reasonPhrase : Str} {file : OpenFile} {size : Int}

/-- A type is sent exactly if the mime file gives one that the header section has
room for. -/
theorem sendsType_iff (hh : Holds store q.headers)
    (hsite : selectedSite env q.headers = some keys) (hvhost : keys.vhost = some vhost)
    (hfile : openResult env (fullPath vhost.root.text r) = some file) (hsize : IsInt32 size)
    (hstatus : (statusLine q.major q.minor 200 reasonPhrase).length < statusLineSize)
    (hdates : DatesOk env) :
    SendsType env q store reasonPhrase r size ↔
      ∃ mime, TypeFound env r mime ∧ (fileLines env q file size mime).length < headerSize := by
  constructor
  · intro h
    have hruns := Prog.play_runs kindAnswer
      (sendResponse env (q.filled store) 200 reasonPhrase r size)
    obtain ⟨head, hhead, value, hne, hline, -⟩ := h hruns
    obtain ⟨mime, hmime, -, rfl⟩ :=
      (mem_observed_header hh hsite hvhost hfile hsize hstatus hruns).mp hhead
    obtain ⟨hfits, rfl⟩ :=
      (typeLine_mem_fileHead_iff hdates q file hsize (mimeType_no_lineFeed hmime)).mp hline
    refine ⟨mime, mimeType_iff_typeFound.mp ⟨hmime, ?_⟩, hfits⟩
    rintro rfl
    exact hne rfl
  · rintro ⟨mime, hfound, hfits⟩ tr out hruns
    obtain ⟨hmime, hne⟩ := mimeType_iff_typeFound.mpr hfound
    refine ⟨_, (mem_observed_header hh hsite hvhost hfile hsize hstatus hruns).mpr
      ⟨mime, hmime, Nat.le_of_lt hfits, rfl⟩, typeValue mime, ?_,
      (typeLine_mem_fileHead_iff hdates q file hsize (mimeType_no_lineFeed hmime)).mpr
        ⟨hfits, rfl⟩, fun hno => absurd hfound (hno mime)⟩
    unfold typeValue
    split <;> simp [hne]

end

theorem sendsType_iff_html :
    SendsType (machine siteFile [("/w/x.html", "hi")]) siteRequest siteStore "OK".toList
        "x.html".toList 2 ↔
      ∃ mime, TypeFound (machine siteFile [("/w/x.html", "hi")]) "x.html".toList mime ∧
        (fileLines (machine siteFile [("/w/x.html", "hi")]) siteRequest ⟨"hi".toList, 0⟩ 2
          mime).length < headerSize :=
  sendsType_iff (q := siteRequest) holds_siteStore (siteRequest_selects _) siteFile_vhost
    (by decide) ⟨by decide, by decide⟩ (by decide) (datesOk_machine _ _)

/-- The type of a file is empty if the mime file does not list it, and a name
without a dot is not answered. -/
theorem not_sendsType :
    ¬ SendsType (machine siteFile [("/w/x.c", "hi")]) siteRequest siteStore "OK".toList
        "x.c".toList 2 ∧
      ¬ SendsType (machine siteFile [("/w/x", "hi")]) siteRequest siteStore "OK".toList
        "x".toList 2 := by
  have hsize : IsInt32 2 := ⟨by decide, by decide⟩
  constructor
  · intro h
    have hruns := Prog.play_runs kindAnswer (sendResponse (machine siteFile [("/w/x.c", "hi")])
      (siteRequest.filled siteStore) 200 "OK".toList "x.c".toList 2)
    have hfile : openResult (machine siteFile [("/w/x.c", "hi")])
        (fullPath siteVhost.root.text "x.c".toList) = some ⟨"hi".toList, 0⟩ := by decide
    obtain ⟨head, hhead, value, hne, hline, -⟩ := h hruns
    obtain ⟨mime, hmime, -, rfl⟩ := (mem_observed_header (q := siteRequest) holds_siteStore
      (siteRequest_selects _) siteFile_vhost hfile hsize (by decide) hruns).mp hhead
    have hempty : mimeType (machine siteFile [("/w/x.c", "hi")]) "x.c".toList = .ok [] := rfl
    cases hempty.symm.trans hmime
    obtain ⟨-, rfl⟩ := (typeLine_mem_fileHead_iff (datesOk_machine _ _) siteRequest
      ⟨"hi".toList, 0⟩ hsize List.not_mem_nil).mp hline
    exact hne rfl
  · intro h
    have hruns := Prog.play_runs kindAnswer (sendResponse (machine siteFile [("/w/x", "hi")])
      (siteRequest.filled siteStore) 200 "OK".toList "x".toList 2)
    have hfile : openResult (machine siteFile [("/w/x", "hi")])
        (fullPath siteVhost.root.text "x".toList) = some ⟨"hi".toList, 0⟩ := by decide
    obtain ⟨head, hhead, -⟩ := h hruns
    obtain ⟨mime, hmime, -⟩ := (mem_observed_header (q := siteRequest) holds_siteStore
      (siteRequest_selects _) siteFile_vhost hfile hsize (by decide) hruns).mp hhead
    have hfault : mimeType (machine siteFile [("/w/x", "hi")]) "x".toList =
        .error .nullPointer := rfl
    cases hfault.symm.trans hmime

end Pawnee
