import Pawnee.Child.ResponseFraming

/-!
# The header section of a file

The header section of a file is a list of fields, as far as they fit the buffer,
and `headerLine_mem_fileHead_iff` says which of their lines a reader finds in it.
Only the type, the last field, can be too long.

Whatever a response with a file does besides, the header section it sends is this
one (`mem_observed_header`).
-/

namespace Pawnee

open CText Effects Framing

/-! ## Fields and lines -/

/-- A field as a line with its line end. -/
def headerLine (f : Str × Str) : Str := fieldLine f ++ crlf

theorem isLine_headerLine {f : Str × Str} (h : '\n' ∉ fieldLine f) : IsLine (headerLine f) :=
  ⟨fieldLine f ++ ['\r'], by simp [h], (List.append_assoc _ ['\r'] ['\n']).symm⟩

theorem headerLine_ne_crlf (f : Str × Str) : headerLine f ≠ crlf := by
  intro h
  have hlen := congrArg List.length h
  simp only [headerLine, fieldLine, List.length_append, List.length_cons] at hlen
  omega

/-- A line is the line of one field only. -/
theorem headerLine_inj {f g : Str × Str} (hf : ':' ∉ f.1) (hg : ':' ∉ g.1) :
    headerLine f = headerLine g ↔ f = g := by
  refine ⟨fun h => ?_, congrArg headerLine⟩
  have hline : f.1 ++ ':' :: ' ' :: f.2 = g.1 ++ ':' :: ' ' :: g.2 := List.append_cancel_right h
  obtain ⟨hname, hvalue⟩ := cut_unique hf hg hline
  exact Prod.ext hname (List.cons.inj hvalue).2

/-- Of a line and the empty line behind it, as far as they fit, a reader finds the
line if all of it fits. -/
theorem mem_getlineAll_take {line l : Str} (hline : IsLine line) (hl : '\n' ∈ l) (hne : l ≠ crlf)
    (k : Nat) : l ∈ getlineAll ((line ++ crlf).take k) ↔ line.length ≤ k ∧ l = line := by
  by_cases hfits : line.length ≤ k
  · rw [List.take_append, List.take_of_length_le hfits, getlineAll_line hline, List.mem_cons]
    generalize k - line.length = j
    have hrest : l ∉ getlineAll (crlf.take j) := by
      intro hmem
      match j with
      | 0 => cases hmem
      | 1 =>
          obtain rfl := List.mem_singleton.mp hmem
          exact absurd hl (by decide)
      | j + 2 =>
          rw [List.take_of_length_le (by simp [crlf])] at hmem
          exact hne (List.mem_singleton.mp hmem)
    simp [hfits, hrest]
  · -- what is left of the line has no line feed
    refine iff_of_false (fun hmem => ?_) fun h => hfits h.1
    obtain ⟨b, hb, rfl⟩ := hline
    rw [List.length_append, List.length_singleton] at hfits
    rw [List.append_assoc, List.take_append_of_le_length (by omega)] at hmem
    have hcut : '\n' ∉ b.take k := fun h => hb (List.mem_of_mem_take h)
    by_cases hnil : b.take k = []
    · rw [hnil] at hmem
      cases hmem
    · rw [getlineAll_rest hnil hcut, List.mem_singleton] at hmem
      exact hcut (hmem ▸ hl)

/-! ## The fields of a file -/

/-- The value of the `Content-Type` field of a file. -/
def typeValue (mime : Str) : Str :=
  if "text/".toList.isPrefixOf mime then mime ++ "; charset=utf-8".toList else mime

/-- A `Content-Type` field. -/
def typeField (value : Str) : Str × Str := ("Content-Type".toList, value)

theorem typeField_inj {value value' : Str} : typeField value = typeField value' ↔ value = value' :=
  ⟨fun h => (Prod.mk.inj h).2, congrArg typeField⟩

theorem typeField_name_colon (value : Str) : ':' ∉ (typeField value).1 := by
  change ':' ∉ "Content-Type".toList
  decide

/-- The fields in front of the type. -/
def fieldsBefore (env : Env) (q : Request) (file : OpenFile) (size : Int) : List (Str × Str) :=
  leadingFields env q ++ (fileFields env file size []).dropLast

theorem fileLines_split (env : Env) (q : Request) (file : OpenFile) (size : Int) (mime : Str) :
    fileLines env q file size mime =
      ((fieldsBefore env q file size).map headerLine).flatten ++
        headerLine (typeField (typeValue mime)) := by
  have hfields : leadingFields env q ++ fileFields env file size mime =
      fieldsBefore env q file size ++ [typeField (typeValue mime)] := by
    rw [fieldsBefore, List.append_assoc]
    rfl
  rw [fileLines_eq, hfields, joinLines, List.map_map, List.map_append, List.flatten_append]
  simp only [List.map_cons, List.map_nil, List.flatten_cons, List.flatten_nil, List.append_nil]
  rfl

theorem fieldsBefore_ok {env : Env} (hd : DatesOk env) (q : Request) (file : OpenFile)
    (size : Int) : ∀ f ∈ fieldsBefore env q file size, FieldOk f := by
  intro f hf
  rcases List.mem_append.mp hf with hf | hf
  · exact leadingFields_ok hd q f hf
  · exact fileFields_ok hd file size (by decide) f (List.dropLast_subset _ hf)

theorem fieldsBefore_names (env : Env) (q : Request) (file : OpenFile) (size : Int) :
    (fieldsBefore env q file size).map Prod.fst = ["Server".toList, "Date".toList,
      "Connection".toList, "Last-Modified".toList, "Content-Length".toList,
      "Accept-Ranges".toList] := rfl

theorem typeField_not_mem_before (env : Env) (q : Request) (file : OpenFile) (size : Int)
    (value : Str) : typeField value ∉ fieldsBefore env q file size := by
  intro hmem
  have hname : "Content-Type".toList ∈ (fieldsBefore env q file size).map Prod.fst :=
    List.mem_map_of_mem (f := Prod.fst) hmem
  rw [fieldsBefore_names] at hname
  exact absurd hname (by decide)

theorem typeValue_no_lineFeed {mime : Str} (h : '\n' ∉ mime) : '\n' ∉ typeValue mime := by
  unfold typeValue
  split
  · simp [h]
  · exact h

theorem isLine_typeField {value : Str} (h : '\n' ∉ value) :
    IsLine (headerLine (typeField value)) := by
  have hname : '\n' ∉ "Content-Type".toList := by decide
  have hsep : '\n' ∉ ':' :: ' ' :: value := by simp [h]
  refine isLine_headerLine fun hmem => ?_
  exact (List.mem_append.mp hmem).elim hname hsep

theorem fileLines_length_le (env : Env) (q : Request) (file : OpenFile) {size : Int}
    (hsize : IsInt32 size) (mime : Str) :
    (fileLines env q file size mime).length ≤ 314 + (contentTypeHeader mime).length := by
  have hlead := leadingLines_length_le env q
  have hmodified := lastModifiedHeader_length_le env file
  have hlength := fileLengthHeaders_length_le hsize
  simp only [fileLines, List.length_append]
  omega

/-- The lines in front of the type leave room in the buffer. -/
theorem fieldsBefore_length_lt (env : Env) (q : Request) (file : OpenFile) {size : Int}
    (hsize : IsInt32 size) :
    ((fieldsBefore env q file size).map headerLine).flatten.length < headerSize - 1 := by
  have hall := fileLines_length_le env q file hsize []
  have htype : (contentTypeHeader []).length = 16 := by decide
  rw [fileLines_split, List.length_append, htype] at hall
  simp only [headerSize]
  omega

/-- The lines a reader finds in the header section: those of the fields in front of
the type, and that of the type if all of it fits the buffer. -/
theorem headerLine_mem_fileHead_iff {env : Env} (hd : DatesOk env) (q : Request) (file : OpenFile)
    {size : Int} (hsize : IsInt32 size) {mime : Str} (hmime : '\n' ∉ mime) {f : Str × Str}
    (hf : ':' ∉ f.1) :
    headerLine f ∈ getlineAll (fileHead env q file size mime) ↔
      f ∈ fieldsBefore env q file size ∨
        (fileLines env q file size mime).length < headerSize ∧ f = typeField (typeValue mime) := by
  have hroom := fieldsBefore_length_lt env q file hsize
  have hok := fieldsBefore_ok hd q file size
  have hlines : ∀ l ∈ (fieldsBefore env q file size).map headerLine, IsLine l := by
    intro l hl
    obtain ⟨g, hg, rfl⟩ := List.mem_map.mp hl
    exact isLine_headerLine (hok g hg).noBreak.2
  have hbefore : headerLine f ∈ (fieldsBefore env q file size).map headerLine ↔
      f ∈ fieldsBefore env q file size := by
    constructor
    · intro hmem
      obtain ⟨g, hg, heq⟩ := List.mem_map.mp hmem
      exact (headerLine_inj (hok g hg).name_colon hf).mp heq ▸ hg
    · exact List.mem_map_of_mem
  have htype : IsLine (headerLine (typeField (typeValue mime))) :=
    isLine_typeField (typeValue_no_lineFeed hmime)
  have hcolon := typeField_name_colon (typeValue mime)
  have hsplit := fileLines_split env q file size mime
  have hlen := congrArg List.length hsplit
  rw [List.length_append] at hlen
  generalize hk : headerSize - 1 - ((fieldsBefore env q file size).map headerLine).flatten.length =
    k
  have hhead : fileHead env q file size mime = ((fieldsBefore env q file size).map
      headerLine).flatten ++ (headerLine (typeField (typeValue mime)) ++ crlf).take k := by
    rw [fileHead, hsplit, List.append_assoc, List.take_append, hk,
      List.take_of_length_le (Nat.le_of_lt hroom)]
    rfl
  have hfeed : '\n' ∈ headerLine f := by simp [headerLine, crlf]
  rw [hhead, getlineAll_flatten hlines, List.mem_append, hbefore,
    mem_getlineAll_take htype hfeed (headerLine_ne_crlf f), headerLine_inj hf hcolon, hlen]
  refine or_congr_right (and_congr_left fun _ => ?_)
  simp only [headerSize] at hk hroom ⊢
  omega

/-! ## The header section that is sent -/

section

variable {env : Env} {q : Request} {store : HttpHeaders} {keys : SiteKeys} {vhost : VhostConfig}
  {r reasonPhrase : Str} {file : OpenFile} {size : Int}

/-- The header section of a file is the only one that is sent, if the mime file can
be scanned and the cursor stays in the buffer. -/
theorem mem_observed_header (hh : Holds store q.headers)
    (hsite : selectedSite env q.headers = some keys) (hvhost : keys.vhost = some vhost)
    (hfile : openResult env (fullPath vhost.root.text r) = some file) (hsize : IsInt32 size)
    (hstatus : (statusLine q.major q.minor 200 reasonPhrase).length < statusLineSize)
    {tr : List ServerEvent} {out : Except Halt HttpRequest}
    (h : Prog.Runs (sendResponse env (q.filled store) 200 reasonPhrase r size) tr out)
    {head : Str} :
    head ∈ observed headerSection tr ↔ ∃ mime, mimeType env r = .ok mime ∧
      (fileLines env q file size mime).length ≤ headerSize ∧
      head = fileHead env q file size mime := by
  have hsees := seesWrites_headerSection
  cases hmime : mimeType env r with
  | error f =>
      rw [sendResponse_mime_fault hmime hstatus] at h
      rw [observed, (Prog.runs_doing_stop_iff.mp h).1, List.filterMap_cons,
        filterMap_mimeCalls hsees.ignoresLookups]
      simp [headerSection]
  | ok mime =>
      have hroot := (vhost_root_bounded (selectedSite_bounded hsite) hvhost).1
      have hreopen := filterMap_reopenCalls hsees.ignoresLookups env q
        (fullPath vhost.root.text r)
      simp only [Except.ok.injEq, exists_eq_left']
      by_cases hfits : (fileLines env q file size mime).length ≤ headerSize
      · have hcalls := (runs_sendResponse_file hh hmime hsite hvhost hroot hfile hsize hstatus
          hfits h).2
        rw [observed, hcalls, List.filterMap_cons, List.filterMap_append, hreopen,
          filterMap_fileCalls fun _ => rfl]
        simp [headerSection, hfits]
      · rw [sendResponse_file hh hmime hsite hvhost hroot hfile hsize hstatus, if_neg hfits] at h
        rw [observed, (Prog.runs_doing_stop_iff.mp h).1, List.filterMap_cons, hreopen]
        simp [headerSection, hfits]

end

end Pawnee
