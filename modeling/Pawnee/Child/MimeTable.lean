import Pawnee.Child.Observed

/-!
# The mime file

A mime file is a list of rows, a type and an extension with a `*` between them.
`get_mime_type` takes the last byte off every line, cuts the line at its first two
`*`, and compares.  A row that ends with a line feed loses just that
(`mimeLookup_rows`).

The last byte of a file that does not end with a line feed is a byte of its last
extension.  So the last row is not found under its own extension, but under the
extension without its last byte (`findsType_iff`).

The space behind an extension is never taken off, and the one behind a type is
looked for before the line (`spacesIgnored_iff`).
-/

namespace Pawnee

open CText Effects

/-! ## Rows -/

/-- A part of a row. -/
structure MimePart (s : Str) : Prop where
  ne_nil : s ≠ []
  no_star : '*' ∉ s
  no_nul : '\x00' ∉ s
  no_lineFeed : '\n' ∉ s

/-- A row of a mime file. -/
structure MimeRow where
  type : Str
  ext : Str
  type_ok : MimePart type
  ext_ok : MimePart ext

/-- The row as a line without its line feed. -/
def MimeRow.line (r : MimeRow) : Str := r.type ++ '*' :: r.ext

/-- A file of rows, with or without a line feed at its end. -/
def mimeFile (rows : List MimeRow) (newline : Bool) : Str :=
  let lines := (rows.map fun r => r.line ++ ['\n']).flatten
  if newline then lines else lines.dropLast

/-- The type of the first row with an extension, empty if there is none. -/
def typeOf (rows : List MimeRow) (ext : Str) : Str :=
  ((rows.find? (·.ext = ext)).map MimeRow.type).getD []

/-- The part of a name behind its last dot. -/
def lastPart (name : Str) : Str := (name.reverse.takeWhile (· ≠ '.')).reverse

theorem MimeRow.not_special {r : MimeRow} : '\x00' ∉ r.line ∧ '\n' ∉ r.line := by
  simp [MimeRow.line, r.type_ok.no_nul, r.ext_ok.no_nul, r.type_ok.no_lineFeed,
    r.ext_ok.no_lineFeed]

/-! ## One line -/

/-- The type of a row is cut first, and then what stands behind its `*`. -/
theorem mimeParts_line {type rest : Str} (hne : type ≠ []) (hstar : '*' ∉ type)
    (hrest : '*' ∉ rest) :
    mimeParts (type ++ '*' :: rest) = if rest = [] then none else some (type, rest) := by
  have hcut : strtok ['*'] (type ++ '*' :: rest) = (some type, rest) :=
    strtok_token hne (no_delim_iff.mpr hstar) (by decide)
  simp only [mimeParts, hcut]
  by_cases hnil : rest = []
  · simp [hnil]
  · rw [strtok_last hnil (no_delim_iff.mpr hrest), if_neg hnil, Option.map_some]

/-- What the scan does with a line that starts with a type. -/
theorem mimeLookup_line {type rest line : Str} {lines : List Str} {x : Str} (hne : type ≠ [])
    (hstar : '*' ∉ type) (hrest : '*' ∉ rest) (hnil : cstr line ≠ [])
    (hline : (cstr line).dropLast = type ++ '*' :: rest) :
    mimeLookup (some x) (line :: lines) =
      if rest ≠ [] ∧ rest = x then
        if type.getLast? = some ' ' then .error .outOfBounds else .ok type
      else mimeLookup (some x) lines := by
  have hhead : (type ++ '*' :: rest).head? ≠ some '*' := by
    obtain ⟨c, r, rfl⟩ := List.exists_cons_of_ne_nil hne
    rintro ⟨⟩
    exact hstar List.mem_cons_self
  rw [mimeLookup, if_neg hnil, hline, mimeParts_line hne hstar hrest]
  by_cases hempty : rest = []
  · simp [hempty]
  · simp only [hempty, if_false, ne_eq, not_false_eq_true, true_and, hhead, and_true]

/-- A row that ends with a line feed is compared as it is. -/
theorem mimeLookup_row (r : MimeRow) (lines : List Str) (x : Str) :
    mimeLookup (some x) ((r.line ++ ['\n']) :: lines) =
      if r.ext = x then
        if r.type.getLast? = some ' ' then .error .outOfBounds else .ok r.type
      else mimeLookup (some x) lines := by
  have hcstr : cstr (r.line ++ ['\n']) = r.line ++ ['\n'] :=
    cstr_eq_self (by simp [r.not_special.1])
  rw [mimeLookup_line r.type_ok.ne_nil r.type_ok.no_star r.ext_ok.no_star (by simp [hcstr])
    (by rw [hcstr, List.dropLast_concat, MimeRow.line])]
  simp [r.ext_ok.ne_nil]

/-- A row at the end of the file loses the last byte of its extension. -/
theorem mimeLookup_last (r : MimeRow) (x : Str) :
    mimeLookup (some x) [r.line] =
      if r.ext.dropLast ≠ [] ∧ r.ext.dropLast = x then
        if r.type.getLast? = some ' ' then .error .outOfBounds else .ok r.type
      else .ok [] := by
  have hcstr : cstr r.line = r.line := cstr_eq_self r.not_special.1
  have hcut : r.line.dropLast = r.type ++ '*' :: r.ext.dropLast := by
    rw [MimeRow.line, List.dropLast_append_of_ne_nil (List.cons_ne_nil _ _),
      List.dropLast_cons_of_ne_nil r.ext_ok.ne_nil]
  have hstar : '*' ∉ r.ext.dropLast := fun hm => r.ext_ok.no_star (List.mem_of_mem_dropLast hm)
  rw [mimeLookup_line r.type_ok.ne_nil r.type_ok.no_star hstar
    (by rw [hcstr, MimeRow.line]; simp) (by rw [hcstr, hcut])]
  rfl

/-! ## Rows of lines -/

/-- The scan takes the first row with the extension, or goes on behind the rows. -/
theorem mimeLookup_rows (rows : List MimeRow) (lines : List Str) (x : Str) :
    mimeLookup (some x) (rows.map (fun r => r.line ++ ['\n']) ++ lines) =
      match rows.find? (·.ext = x) with
      | some r => if r.type.getLast? = some ' ' then .error .outOfBounds else .ok r.type
      | none => mimeLookup (some x) lines := by
  induction rows with
  | nil => rfl
  | cons r rows ih =>
      rw [List.map_cons, List.cons_append, mimeLookup_row, List.find?_cons]
      by_cases hx : r.ext = x
      · simp [hx]
      · simp [hx, ih]

theorem extensionOf_eq {name : Str} (h : '.' ∈ name) : extensionOf name = some (lastPart name) :=
  if_pos h

/-- The lines of a file that ends with a line feed. -/
theorem getlineAll_mimeFile (rows : List MimeRow) :
    getlineAll (mimeFile rows true) = rows.map fun r => r.line ++ ['\n'] := by
  have hread := getlineAll_lines (fun r (_ : r ∈ rows) => r.not_special.2) List.not_mem_nil
  simpa [mimeFile] using hread

/-- The lines of a file without a line feed at its end. -/
theorem getlineAll_mimeFile_concat (rows : List MimeRow) (r : MimeRow) :
    getlineAll (mimeFile (rows ++ [r]) false) =
      rows.map (fun r => r.line ++ ['\n']) ++ [r.line] := by
  have hne : r.line ≠ [] := by simp [MimeRow.line]
  have hfile : mimeFile (rows ++ [r]) false =
      (rows.map fun r => r.line ++ ['\n']).flatten ++ r.line := by
    simp only [mimeFile, Bool.false_eq_true, if_false, List.map_append, List.map_cons,
      List.map_nil, List.flatten_append, List.flatten_cons, List.flatten_nil, List.append_nil]
    rw [← List.append_assoc, List.dropLast_concat]
  rw [hfile, getlineAll_lines (fun r _ => r.not_special.2) r.not_special.2, if_neg hne]

/-! ## `get_mime_type` -/

/-- Every run of `get_mime_type` ends as its scan of the mime file. -/
theorem runs_getMimeType {env : Env} {name : Str} {tr : List ServerEvent}
    {out : Except Halt (Option Str)} (h : Prog.Runs (getMimeType env name) tr out) :
    (∃ type, mimeType env name = .ok type ∧ out = .ok (some type)) ∨
      ∃ f, mimeType env name = .error f ∧ out = .error (.fault f) := by
  rw [getMimeType_eq] at h
  obtain ⟨tr₁, tr₂, -, -, hrest⟩ := Prog.runs_doing_iff.mp h
  cases hmime : mimeType env name with
  | error f =>
      rw [hmime] at hrest
      exact .inr ⟨f, rfl, (Prog.runs_stop_iff.mp hrest).2⟩
  | ok type =>
      rw [hmime] at hrest
      exact .inl ⟨type, rfl, (Prog.runs_ret_iff.mp hrest).2⟩

/-- Every run of `get_mime_type` returns the string. -/
def ReturnsType (env : Env) (name type : Str) : Prop :=
  ∀ {tr : List ServerEvent} {out : Except Halt (Option Str)},
    Prog.Runs (getMimeType env name) tr out → out = .ok (some type)

theorem returnsType_iff {env : Env} {name type : Str} :
    ReturnsType env name type ↔ mimeType env name = .ok type := by
  constructor
  · intro h
    obtain ⟨tr, out, hruns⟩ := Prog.exists_runs (getMimeType env name)
    rcases runs_getMimeType hruns with ⟨type', hmime, hout⟩ | ⟨f, -, hout⟩
    · cases hout.symm.trans (h hruns)
      exact hmime
    · cases hout.symm.trans (h hruns)
  · intro hmime tr out hruns
    rcases runs_getMimeType hruns with ⟨type', hmime', rfl⟩ | ⟨f, hmime', -⟩
    · cases hmime.symm.trans hmime'
      rfl
    · cases hmime.symm.trans hmime'

/-- The type found in a file that ends with a line feed. -/
theorem mimeType_rows {env : Env} {name : Str} {rows : List MimeRow} (hname : '.' ∈ name)
    (hmimes : env.mimes = some (mimeFile rows true)) :
    mimeType env name =
      match rows.find? (·.ext = lastPart name) with
      | some r => if r.type.getLast? = some ' ' then .error .outOfBounds else .ok r.type
      | none => .ok [] := by
  have hlookup := mimeLookup_rows rows [] (lastPart name)
  rw [List.append_nil] at hlookup
  simp only [mimeType, hmimes, extensionOf_eq hname, getlineAll_mimeFile, hlookup]
  rfl

/-- It is the type of the first row with the extension, if no type ends with a space. -/
theorem mimeType_trimmed {env : Env} {name : Str} {rows : List MimeRow} (hname : '.' ∈ name)
    (hmimes : env.mimes = some (mimeFile rows true))
    (htrim : ∀ r ∈ rows, r.type.getLast? ≠ some ' ') :
    mimeType env name = .ok (typeOf rows (lastPart name)) := by
  rw [mimeType_rows hname hmimes, typeOf]
  cases hfind : rows.find? (·.ext = lastPart name) with
  | none => rfl
  | some r => simp [htrim r (List.mem_of_find?_eq_some hfind)]

/-! ## The last row -/

/-- No part of a row ends with a space. -/
def MimeRow.Trimmed (r : MimeRow) : Prop :=
  r.type.getLast? ≠ some ' ' ∧ r.ext.getLast? ≠ some ' '

/-- The last row of the file does not matter to the search for an extension: it
ends with a line feed, or an earlier row is found, or it has another extension,
which without its last byte is another one still. -/
def LastRowOk (rows : List MimeRow) (newline : Bool) (x : Str) : Prop :=
  newline = true ∨ (∃ r ∈ rows.dropLast, r.ext = x) ∨
    ∀ r, rows.getLast? = some r → r.ext ≠ x ∧ (r.ext.dropLast = x → x = [])

/-- The last row gives what it should exactly if it gives nothing. -/
theorem lastRow_iff (r : MimeRow) (x : Str) :
    (if r.ext.dropLast ≠ [] ∧ r.ext.dropLast = x then .ok r.type else .ok [] : Except Fault Str) =
        .ok ((((none : Option MimeRow).or ([r].find? (·.ext = x))).map MimeRow.type).getD []) ↔
      r.ext ≠ x ∧ (r.ext.dropLast = x → x = []) := by
  have htype := r.type_ok.ne_nil
  have hshort : r.ext.dropLast ≠ r.ext := fun h => by
    have hlen := congrArg List.length h
    have hpos := List.length_pos_of_ne_nil r.ext_ok.ne_nil
    rw [List.length_dropLast] at hlen
    omega
  by_cases hx : r.ext = x
  · have hcut : r.ext.dropLast ≠ x := fun h => hshort (h.trans hx.symm)
    simp [hx, hx ▸ hcut, Ne.symm htype]
  · by_cases hcut : r.ext.dropLast = x
    · by_cases hnil : x = []
      · simp [hcut, hnil, r.ext_ok.ne_nil]
      · simp [hx, hcut, hnil, htype]
    · simp [hx, hcut]

/-- The type of a name is found exactly if the last row does not matter. -/
theorem findsType_iff {env : Env} {name : Str} {rows : List MimeRow} {newline : Bool}
    (hname : '.' ∈ name) (hmimes : env.mimes = some (mimeFile rows newline))
    (htrim : ∀ r ∈ rows, r.Trimmed) :
    ReturnsType env name (typeOf rows (lastPart name)) ↔
      LastRowOk rows newline (lastPart name) := by
  rw [returnsType_iff]
  cases newline with
  | true =>
      rw [mimeType_trimmed hname hmimes fun r hr => (htrim r hr).1]
      exact iff_of_true rfl (.inl rfl)
  | false =>
      simp only [mimeType, hmimes, extensionOf_eq hname]
      generalize lastPart name = x
      rcases List.eq_nil_or_concat rows with rfl | ⟨init, last, rfl⟩
      · exact iff_of_true rfl (.inr (.inr (by simp)))
      · rw [List.concat_eq_append] at htrim ⊢
        have hlast : last.type.getLast? ≠ some ' ' := (htrim last (by simp)).1
        rw [getlineAll_mimeFile_concat, mimeLookup_rows, mimeLookup_last, if_neg hlast, typeOf,
          List.find?_append]
        cases hfind : init.find? (·.ext = x) with
        | some r =>
            have hr := List.mem_of_find?_eq_some hfind
            have hspace := (htrim r (List.mem_append_left _ hr)).1
            refine iff_of_true (by simp [hspace]) (.inr (.inl ⟨r, ?_, ?_⟩))
            · rwa [List.dropLast_concat]
            · simpa using List.find?_some hfind
        | none =>
            have hno : ∀ r ∈ init, r.ext ≠ x := by simpa using hfind
            have hiff : LastRowOk (init ++ [last]) false x ↔
                last.ext ≠ x ∧ (last.ext.dropLast = x → x = []) := by
              simp +contextual [LastRowOk, hno]
            rw [hiff]
            exact lastRow_iff last x

/-- The row of `text/html` and `html`. -/
def htmlRow : MimeRow where
  type := "text/html".toList
  ext := "html".toList
  type_ok := ⟨by decide, by decide, by decide, by decide⟩
  ext_ok := ⟨by decide, by decide, by decide, by decide⟩

/-- The machine with a mime file. -/
def mimeMachine (mimes : Str) : Env := { machine "" [] with mimes := some mimes }

/-- Rows of which two have the same extension. -/
def someRows : List MimeRow :=
  [⟨"text/css".toList, "css".toList, ⟨by decide, by decide, by decide, by decide⟩,
      ⟨by decide, by decide, by decide, by decide⟩⟩, htmlRow,
    ⟨"application/xhtml+xml".toList, "html".toList, ⟨by decide, by decide, by decide, by decide⟩,
      ⟨by decide, by decide, by decide, by decide⟩⟩]

/-- The first of two rows is found, also if no line feed is behind the last. -/
theorem findsType_iff_rows :
    ReturnsType (mimeMachine (mimeFile someRows false)) "b.a.html".toList "text/html".toList := by
  have htrim : ∀ r ∈ someRows, r.Trimmed := by
    intro r hr
    simp only [someRows, List.mem_cons, List.not_mem_nil, or_false] at hr
    rcases hr with rfl | rfl | rfl <;> exact ⟨by decide, by decide⟩
  have hlast : LastRowOk someRows false (lastPart "b.a.html".toList) :=
    .inr (.inl ⟨htmlRow, List.mem_cons_of_mem _ List.mem_cons_self, by decide⟩)
  have hmimes : (mimeMachine (mimeFile someRows false)).mimes =
    some (mimeFile someRows false) := rfl
  have htype : typeOf someRows (lastPart "b.a.html".toList) = "text/html".toList := by decide
  intro tr out h
  rw [← htype]
  exact (findsType_iff (by decide) hmimes htrim).mpr hlast h

/-- The row is not found without a line feed behind it. -/
theorem not_findsType_unterminated :
    typeOf [htmlRow] (lastPart "a.html".toList) = "text/html".toList ∧
      ¬ ReturnsType (mimeMachine (mimeFile [htmlRow] false)) "a.html".toList
        "text/html".toList := by
  refine ⟨by decide, fun h => ?_⟩
  have hruns : Prog.Runs (getMimeType (mimeMachine (mimeFile [htmlRow] false)) "a.html".toList) []
      (.ok (some [])) := .ret _
  cases h hruns

/-! ## Spaces at the ends -/

/-- A row without spaces, and where one is written behind its parts. -/
structure SpacedRow extends MimeRow where
  no_space : ' ' ∉ type ∧ ' ' ∉ ext
  typeSpace : Bool
  extSpace : Bool

/-- A part with a space behind it, or without. -/
def spaced (part : Str) (space : Bool) : Str := if space then part ++ [' '] else part

theorem MimePart.spaced {part : Str} (h : MimePart part) (space : Bool) :
    MimePart (Pawnee.spaced part space) := by
  cases space with
  | false => exact h
  | true => exact ⟨by simp [Pawnee.spaced], by simp [Pawnee.spaced, h.no_star],
      by simp [Pawnee.spaced, h.no_nul], by simp [Pawnee.spaced, h.no_lineFeed]⟩

/-- The row with its spaces. -/
def SpacedRow.written (r : SpacedRow) : MimeRow where
  type := spaced r.type r.typeSpace
  ext := spaced r.ext r.extSpace
  type_ok := r.type_ok.spaced r.typeSpace
  ext_ok := r.ext_ok.spaced r.extSpace

theorem SpacedRow.type_ends (r : SpacedRow) : r.type.getLast? ≠ some ' ' :=
  fun h => r.no_space.1 (List.mem_of_getLast? h)

/-- The written type ends with a space exactly if one is written. -/
theorem SpacedRow.written_ends (r : SpacedRow) :
    r.written.type.getLast? = some ' ' ↔ r.typeSpace = true := by
  have hplain := r.type_ends
  cases hspace : r.typeSpace <;> simp [written, spaced, hspace, hplain]

/-- `get_mime_type` returns from the file with the spaces what it returns from the
file without them. -/
def SpacesIgnored (env : Env) (name : Str) (rows : List SpacedRow) : Prop :=
  ∀ {type : Str},
    ReturnsType { env with mimes := some (mimeFile (rows.map (·.toMimeRow)) true) } name type →
    ReturnsType { env with mimes := some (mimeFile (rows.map (·.written)) true) } name type

/-- No row has the extension, as it is or as it is written; or the first row that
is written with it has the type of the first row that has it, and no space behind
the type. -/
def SpacesOk (rows : List SpacedRow) (x : Str) : Prop :=
  (∀ r ∈ rows, r.ext ≠ x ∧ r.written.ext ≠ x) ∨
    ∃ r r', rows.find? (·.ext = x) = some r ∧ rows.find? (·.written.ext = x) = some r' ∧
      r'.type = r.type ∧ r'.typeSpace = false

/-- The spaces are ignored exactly if a row is written without them for the
extension, and no other type comes first. -/
theorem spacesIgnored_iff (env : Env) {name : Str} (hname : '.' ∈ name) (rows : List SpacedRow) :
    SpacesIgnored env name rows ↔ SpacesOk rows (lastPart name) := by
  have htrim : ∀ r ∈ rows.map (·.toMimeRow), r.type.getLast? ≠ some ' ' := by
    intro r hr
    obtain ⟨r, -, rfl⟩ := List.mem_map.mp hr
    exact r.type_ends
  have hplain : mimeType
      { env with mimes := some (mimeFile (rows.map (·.toMimeRow)) true) } name =
        .ok (typeOf (rows.map (·.toMimeRow)) (lastPart name)) :=
    mimeType_trimmed hname rfl htrim
  have hsame : SpacesIgnored env name rows ↔
      mimeType { env with mimes := some (mimeFile (rows.map (·.written)) true) } name =
        .ok (typeOf (rows.map (·.toMimeRow)) (lastPart name)) := by
    simp only [SpacesIgnored, returnsType_iff, hplain, Except.ok.injEq, forall_eq']
  rw [hsame, mimeType_rows hname rfl, typeOf, List.find?_map, List.find?_map]
  generalize lastPart name = x
  simp only [Function.comp_def, SpacesOk]
  cases hfind : rows.find? (·.ext = x) with
  | none =>
      have hno : ∀ r ∈ rows, r.ext ≠ x := by simpa using hfind
      cases hwritten : rows.find? (·.written.ext = x) with
      | none =>
          have hno' : ∀ r ∈ rows, r.written.ext ≠ x := by simpa using hwritten
          exact iff_of_true rfl (.inl fun r hr => ⟨hno r hr, hno' r hr⟩)
      | some r' =>
          have hr' : r'.written.ext = x := by simpa using List.find?_some hwritten
          have hmem := List.mem_of_find?_eq_some hwritten
          refine iff_of_false ?_ ?_
          · by_cases hspace : r'.typeSpace = true <;>
              simp [r'.written_ends, hspace, r'.written.type_ok.ne_nil]
          · rintro (h | ⟨r, -, hr, -⟩)
            · exact (h r' hmem).2 hr'
            · cases hr
  | some r =>
      have hr : r.ext = x := by simpa using List.find?_some hfind
      have hmem := List.mem_of_find?_eq_some hfind
      have hsome : ¬ ∀ r ∈ rows, r.ext ≠ x ∧ r.written.ext ≠ x := fun h => (h r hmem).1 hr
      cases hwritten : rows.find? (·.written.ext = x) with
      | none => simp [hsome, Ne.symm r.type_ok.ne_nil]
      | some r' =>
          cases hspace : r'.typeSpace with
          | true => simp [r'.written_ends, hspace, hsome]
          | false =>
              have htype : r'.written.type = r'.type := by
                simp [SpacedRow.written, spaced, hspace]
              simp [r'.type_ends, htype, hspace, hsome]

/-- The row of `text/html` and `html`, with spaces. -/
def htmlSpaced (typeSpace extSpace : Bool) : SpacedRow where
  toMimeRow := htmlRow
  no_space := ⟨by decide, by decide⟩
  typeSpace := typeSpace
  extSpace := extSpace

theorem spacesIgnored_iff_html :
    SpacesIgnored (machine "" []) "a.html".toList [htmlSpaced true false] ↔
      SpacesOk [htmlSpaced true false] (lastPart "a.html".toList) :=
  spacesIgnored_iff _ (by decide) _

/-- An extension with a space behind it is not found, and a space behind the type
is looked for outside the line. -/
theorem not_spacesIgnored :
    ¬ SpacesIgnored (machine "" []) "a.html".toList [htmlSpaced false true] ∧
      Prog.Runs (getMimeType (mimeMachine (mimeFile [(htmlSpaced true false).written] true))
        "a.html".toList) [] (.error (.fault .outOfBounds)) := by
  refine ⟨fun h => ?_, .stop _⟩
  have hplain : ReturnsType
      { machine "" [] with mimes := some (mimeFile [htmlRow] true) } "a.html".toList
      "text/html".toList := by
    intro tr out hruns
    exact (Prog.runs_ret_iff.mp hruns).2
  have hruns : Prog.Runs (getMimeType { machine "" [] with
      mimes := some (mimeFile [(htmlSpaced false true).written] true) } "a.html".toList) []
      (.ok (some [])) := .ret _
  cases h hplain hruns

end Pawnee
