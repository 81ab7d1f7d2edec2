import Pawnee.Source.HttpParse

/-!
# Header lines

A header line is a name, a colon and a value.  `ReadsAs` says what the name and
the value of a line are, without the loop, and `readHeaderLine_eq_header_iff`
that one pass of the loop reads exactly that.

The loop ends at the first line of blanks.  So the headers of a block are those
of its lines before that one, and a block read behind another one keeps its
headers if and only if the first has no such line, or the second has nothing to
lose (`headersIndependent_iff`).
-/

namespace Pawnee

open CText Effects

/-- The bytes that end a line. -/
def lineEnds : Str := ['\r', '\n']

/-- A text of spaces and tabs. -/
def Blank (s : Str) : Prop := ∀ c ∈ s, isBlank c = true

instance (s : Str) : Decidable (Blank s) := inferInstanceAs (Decidable (∀ c ∈ s, _))

/-! ## Names and values -/

/-- The name and the value of a header line.  Blanks in front of both are
skipped, and the name ends at its first blank. -/
structure ReadsAs (line name value : Str) : Prop where
  text : ∃ lead mid gap, line = lead ++ (name ++ (mid ++ ':' :: (gap ++ value))) ∧
    Blank lead ∧ Blank gap ∧ ':' ∉ mid ∧ ∀ c ∈ mid.head?, isBlank c = true
  name_ne : name ≠ []
  name_bytes : ∀ c ∈ name, c ≠ ':' ∧ isBlank c = false
  value_ne : value ≠ []
  value_head : ∀ c ∈ value.head?, isBlank c = false

/-- A line with a name, a colon and a value. -/
def IsHeaderLine (line : Str) : Prop := ∃ name value, ReadsAs line name value

/-- The loop ends at the lines of blanks. -/
theorem readHeaderLine_eq_blank_iff {line : Str} : readHeaderLine line = .blank ↔ Blank line := by
  have hblank : line.dropWhile isBlank = [] ↔ Blank line := List.dropWhile_eq_nil_iff
  rw [← hblank]
  constructor
  · intro h
    by_contra hne
    simp only [readHeaderLine, if_neg hne] at h
    split at h
    · cases h
    · split at h <;> cases h
  · intro h
    simp only [readHeaderLine, h, if_true]

/-- A header line is read as its name and value. -/
theorem ReadsAs.readHeaderLine {line name value : Str} (h : ReadsAs line name value) :
    readHeaderLine line = .header name value := by
  obtain ⟨⟨lead, mid, gap, rfl, hlead, hgap, hcolon, hmid⟩, hname, hbytes, hvalue, hhead⟩ := h
  have hskip : (lead ++ (name ++ (mid ++ ':' :: (gap ++ value)))).dropWhile isBlank =
      name ++ (mid ++ ':' :: (gap ++ value)) := by
    refine dropWhile_run hlead fun c hc => ?_
    obtain ⟨d, name, rfl⟩ := List.exists_cons_of_ne_nil hname
    cases hc
    exact (hbytes c List.mem_cons_self).2
  have hbefore : ∀ c ∈ name ++ mid, decide (c ≠ ':') = true := by
    intro c hc
    rcases List.mem_append.mp hc with hc | hc
    · simpa using (hbytes c hc).1
    · simpa using fun heq : c = ':' => hcolon (heq ▸ hc)
  have hstop : ∀ c ∈ (':' :: (gap ++ value)).head?, decide (c ≠ ':') = false := by simp
  have hdrop : (name ++ (mid ++ ':' :: (gap ++ value))).dropWhile (· ≠ ':') =
      ':' :: (gap ++ value) := by
    rw [← List.append_assoc, dropWhile_run hbefore hstop]
  have htake : (name ++ (mid ++ ':' :: (gap ++ value))).takeWhile (· ≠ ':') = name ++ mid := by
    rw [← List.append_assoc, takeWhile_run hbefore hstop]
  have hcut : (name ++ mid).takeWhile (fun c => !isBlank c) = name :=
    takeWhile_run (fun c hc => by simp [(hbytes c hc).2]) fun c hc => by simp [hmid c hc]
  have hne : name ++ (mid ++ ':' :: (gap ++ value)) ≠ [] := by simp
  simp only [Pawnee.readHeaderLine, hskip, if_neg hne, hdrop, htake, hcut,
    dropWhile_run hgap hhead, ne_eq, hname, hvalue, not_false_iff, and_self, if_true]

/-- A text up to its first colon. -/
theorem dropWhile_colon {s v : Str} {d : Char} (h : s.dropWhile (· ≠ ':') = d :: v) :
    s = s.takeWhile (· ≠ ':') ++ ':' :: v := by
  have hd : decide (d ≠ ':') = false := head_dropWhile d (by rw [h]; rfl)
  have hcolon : d = ':' := not_not.mp (of_decide_eq_false hd)
  rw [hcolon] at h
  calc s = s.takeWhile (· ≠ ':') ++ s.dropWhile (· ≠ ':') := List.takeWhile_append_dropWhile.symm
    _ = s.takeWhile (· ≠ ':') ++ ':' :: v := by rw [h]

/-- One pass of the loop reads the name and the value of its line. -/
theorem readHeaderLine_eq_header_iff {line name value : Str} :
    readHeaderLine line = .header name value ↔ ReadsAs line name value := by
  refine ⟨fun h => ?_, ReadsAs.readHeaderLine⟩
  simp only [readHeaderLine] at h
  generalize hl : line.dropWhile isBlank = l at h
  split at h
  · cases h
  · cases hd : l.dropWhile (· ≠ ':') with
    | nil =>
        simp only [hd] at h
        cases h
    | cons d v =>
        simp only [hd] at h
        split at h
        · next hne =>
          cases h
          have hlead := List.takeWhile_append_dropWhile (p := isBlank) (l := line)
          have hname := List.takeWhile_append_dropWhile (p := fun c => !isBlank c)
            (l := l.takeWhile (· ≠ ':'))
          have hvalue := List.takeWhile_append_dropWhile (p := isBlank) (l := v)
          have hbefore : ∀ c ∈ l.takeWhile (· ≠ ':'), c ≠ ':' := fun c hc => by
            simpa using List.mem_takeWhile_imp hc
          refine ⟨⟨line.takeWhile isBlank, (l.takeWhile (· ≠ ':')).dropWhile fun c => !isBlank c,
            v.takeWhile isBlank, ?_, ?_, ?_, ?_, ?_⟩, hne.1, ?_, hne.2, head_dropWhile⟩
          · rw [hvalue, ← List.append_assoc _ _ (':' :: v), hname, ← dropWhile_colon hd, ← hl,
              hlead]
          · exact fun c hc => List.mem_takeWhile_imp hc
          · exact fun c hc => List.mem_takeWhile_imp hc
          · exact fun hc => hbefore _ ((List.dropWhile_suffix _).mem hc) rfl
          · exact fun c hc => by simpa using head_dropWhile c hc
          · intro c hc
            exact ⟨hbefore c ((List.takeWhile_prefix _).mem hc), by
              simpa using List.mem_takeWhile_imp hc⟩
        · cases h

/-! ## The headers of some lines -/

/-- The lines up to the first line of blanks. -/
def linesRead (lines : List Str) : List Str := lines.takeWhile fun line => ¬ Blank line

/-- The header of a line, if it is a header line. -/
def headerOf (line : Str) : Option HttpHeader :=
  match readHeaderLine line with
  | .header name value => some ⟨name, value⟩
  | _ => none

theorem headerOf_eq_some_iff {line : Str} {header : HttpHeader} :
    headerOf line = some header ↔ ReadsAs line header.name header.value := by
  rw [← readHeaderLine_eq_header_iff, headerOf]
  cases readHeaderLine line with
  | blank => simp
  | ignored => simp
  | header name value => cases header; simp

theorem headerOf_eq_none_iff {line : Str} : headerOf line = none ↔ ¬ IsHeaderLine line := by
  constructor
  · rintro hnone ⟨name, value, hreads⟩
    have hsome : headerOf line = some ⟨name, value⟩ := headerOf_eq_some_iff.mpr hreads
    cases hnone.symm.trans hsome
  · intro hno
    cases h : headerOf line with
    | none => rfl
    | some header => exact absurd ⟨_, _, headerOf_eq_some_iff.mp h⟩ hno

/-- The headers are those of the lines before the first line of blanks. -/
theorem headersOf_eq (lines : List Str) :
    headersOf lines = (linesRead lines).filterMap headerOf := by
  induction lines with
  | nil => rfl
  | cons line lines ih =>
      rw [headersOf]
      by_cases hblank : Blank line
      · rw [readHeaderLine_eq_blank_iff.mpr hblank, linesRead,
          List.takeWhile_cons_of_neg (by simpa using hblank)]
        rfl
      · have hne : readHeaderLine line ≠ .blank := mt readHeaderLine_eq_blank_iff.mp hblank
        rw [linesRead, List.takeWhile_cons_of_pos (by simpa using hblank), List.filterMap_cons,
          ← linesRead, headerOf, ← ih]
        cases hline : readHeaderLine line with
        | blank => exact absurd hline hne
        | ignored => rfl
        | header name value => rfl

/-- A header comes from a header line. -/
theorem exists_line_of_mem_headersOf {lines : List Str} {header : HttpHeader}
    (h : header ∈ headersOf lines) : ∃ line ∈ lines, ReadsAs line header.name header.value := by
  rw [headersOf_eq] at h
  obtain ⟨line, hline, hheader⟩ := List.mem_filterMap.mp h
  exact ⟨line, (List.takeWhile_prefix _).mem hline, headerOf_eq_some_iff.mp hheader⟩

theorem headersOf_eq_nil_iff {lines : List Str} :
    headersOf lines = [] ↔ ∀ line ∈ linesRead lines, ¬ IsHeaderLine line := by
  simp only [headersOf_eq, List.filterMap_eq_nil_iff, headerOf_eq_none_iff]

/-- Lines behind a line of blanks are not read. -/
theorem headersOf_append_of_blank {lines lines' : List Str} (h : ∃ line ∈ lines, Blank line) :
    headersOf (lines ++ lines') = headersOf lines := by
  have hshort : (linesRead lines).length ≠ lines.length := fun hlen => by
    obtain ⟨line, hline, hblank⟩ := h
    have hall : linesRead lines = lines := (List.takeWhile_prefix _).eq_of_length hlen
    have hne := List.takeWhile_eq_self_iff.mp hall line hline
    simp [hblank] at hne
  have hread : linesRead (lines ++ lines') = linesRead lines :=
    List.takeWhile_append.trans (if_neg hshort)
  rw [headersOf_eq, headersOf_eq, hread]

theorem headersOf_append {lines lines' : List Str} (h : ∀ line ∈ lines, ¬ Blank line) :
    headersOf (lines ++ lines') = headersOf lines ++ headersOf lines' := by
  have hread : linesRead (lines ++ lines') = lines ++ linesRead lines' :=
    List.takeWhile_append_of_pos fun line hline => by simpa using h line hline
  have hall : linesRead lines = lines :=
    List.takeWhile_eq_self_iff.mpr fun line hline => by simpa using h line hline
  rw [headersOf_eq, headersOf_eq lines, headersOf_eq lines', hread, hall, List.filterMap_append]

/-! ## Header lines at their places -/

/-- The line between `x` and `y` of a block is a header line that the loop gets to. -/
structure HeaderAt (block x line y : Str) : Prop where
  text : block = x ++ (line ++ y)
  start : ∀ c ∈ x.getLast?, c ∈ lineEnds
  stop : ∀ c ∈ y.head?, c ∈ lineEnds
  bytes : ∀ c ∈ line, c ∉ lineEnds
  read : ∀ l ∈ strtokAll lineEnds x, ¬ Blank l
  header : IsHeaderLine line

theorem IsHeaderLine.not_blank {line : Str} (h : IsHeaderLine line) : ¬ Blank line := by
  obtain ⟨name, value, hreads⟩ := h
  intro hblank
  cases hreads.readHeaderLine.symm.trans (readHeaderLine_eq_blank_iff.mpr hblank)

theorem IsHeaderLine.ne_nil {line : Str} (h : IsHeaderLine line) : line ≠ [] := by
  rintro rfl
  exact h.not_blank nofun

/-- The headers of a block are those of the header lines the loop gets to. -/
theorem mem_headersOf_iff {block : Str} {header : HttpHeader} :
    header ∈ headersOf (strtokAll lineEnds block) ↔
      ∃ x line y, HeaderAt block x line y ∧ ReadsAs line header.name header.value := by
  rw [headersOf_eq, List.mem_filterMap]
  constructor
  · rintro ⟨line, hline, hheader⟩
    have hreads := headerOf_eq_some_iff.mp hheader
    obtain ⟨before, behind, hread⟩ := List.append_of_mem hline
    obtain ⟨rest, hall⟩ : linesRead (strtokAll lineEnds block) <+: strtokAll lineEnds block :=
      List.takeWhile_prefix _
    rw [hread, List.append_assoc, List.cons_append] at hall
    obtain ⟨x, y, htext, hbefore, -, hbytes, hstart, hstop⟩ := exists_place hall.symm
    refine ⟨x, line, y, ⟨htext, hstart, hstop, hbytes, fun l hl => ?_, _, _, hreads⟩, hreads⟩
    have hmem : l ∈ linesRead (strtokAll lineEnds block) := by
      rw [hread, ← hbefore]
      exact List.mem_append_left _ hl
    simpa using List.mem_takeWhile_imp hmem
  · rintro ⟨x, line, y, h, hreads⟩
    refine ⟨line, ?_, headerOf_eq_some_iff.mpr hreads⟩
    have hx : ∀ l ∈ strtokAll lineEnds x, decide (¬ Blank l) = true := by simpa using h.read
    rw [h.text, strtokAll_place h.header.ne_nil h.bytes h.start h.stop, linesRead,
      List.takeWhile_append_of_pos hx,
      List.takeWhile_cons_of_pos (by simpa using h.header.not_blank)]
    exact List.mem_append_right _ List.mem_cons_self

/-! ## Two blocks -/

/-- The parse of a request with this block succeeds and stores these headers. -/
def BuildsHeaders (requestLine headersBlock : Str) (headers : List HttpHeader) : Prop :=
  ∃ store request, parseHttpRequest requestLine headersBlock .uninit = .ret (true, request) ∧
    request.headers = some store ∧ Holds store headers

/-- A store holds one list of headers. -/
theorem Holds.unique {h : HttpHeaders} {l l' : List HttpHeader} (hl : Holds h l)
    (hl' : Holds h l') : l = l' := by
  obtain ⟨hcount, -, spare, hslots, -⟩ := hl
  obtain ⟨hcount', -, spare', hslots', -⟩ := hl'
  have hlen : (l.map some).length = (l'.map some).length := by
    rw [List.length_map, List.length_map, ← hcount, hcount']
  have happend := Option.some.inj (hslots.symm.trans hslots')
  exact List.map_injective_iff.mpr (fun _ _ heq => Option.some.inj heq)
    (List.append_inj_left happend hlen)

theorem buildsHeaders_iff {requestLine headersBlock : Str} {q : Request} {headers : List HttpHeader}
    (hq : parseRequest requestLine headersBlock = some q) :
    BuildsHeaders requestLine headersBlock headers ↔ headers = q.headers := by
  obtain ⟨store, hholds, hparse⟩ := parseHttpRequest_of_some .uninit hq
  constructor
  · rintro ⟨store', request, hparse', hstore, hholds'⟩
    cases hparse.symm.trans hparse'
    cases hstore
    exact hholds'.unique hholds
  · rintro rfl
    exact ⟨store, _, hparse, rfl, hholds⟩

/-- The parse accepts the request line, whatever the block is. -/
def AcceptsLine (requestLine : Str) : Prop := (parseRequest requestLine []).isSome

instance (requestLine : Str) : Decidable (AcceptsLine requestLine) :=
  inferInstanceAs (Decidable (_ = true))

/-- With a request line that is accepted, the headers are those of the lines of
the block. -/
theorem AcceptsLine.builds_iff {requestLine : Str} (h : AcceptsLine requestLine)
    {headersBlock : Str} {headers : List HttpHeader} :
    BuildsHeaders requestLine headersBlock headers ↔
      headers = headersOf (strtokAll lineEnds headersBlock) := by
  obtain ⟨q, hq⟩ := Option.isSome_iff_exists.mp h
  obtain ⟨m, t, v, major, minor, ht, hv, -⟩ := parseRequest_eq_some.mp hq
  exact buildsHeaders_iff (parseRequest_eq_some.mpr ⟨m, t, v, major, minor, ht, hv, rfl⟩)

/-- Headers are built for request lines that are accepted only. -/
theorem BuildsHeaders.acceptsLine {requestLine headersBlock : Str} {headers : List HttpHeader}
    (h : BuildsHeaders requestLine headersBlock headers) : AcceptsLine requestLine := by
  obtain ⟨store, request, hparse, -⟩ := h
  cases hq : parseRequest requestLine headersBlock with
  | none =>
      obtain ⟨request', -, hfail⟩ := parseHttpRequest_of_none .uninit hq
      cases hparse.symm.trans hfail
  | some q =>
      obtain ⟨m, t, v, major, minor, ht, hv, -⟩ := parseRequest_eq_some.mp hq
      exact Option.isSome_iff_exists.mpr
        ⟨_, parseRequest_eq_some.mpr ⟨m, t, v, major, minor, ht, hv, rfl⟩⟩

/-- Behind the block `a`, the block `b` adds the headers it has on its own. -/
def HeadersIndependent (requestLine a b : Str) : Prop :=
  ∀ l l', BuildsHeaders requestLine a l → BuildsHeaders requestLine b l' →
    BuildsHeaders requestLine (a ++ b) (l ++ l')

/-- Two blocks are independent if and only if the first has no line of blanks, or
the second has no header line before its first one. -/
theorem headersIndependent_iff {requestLine a b : Str} (hline : AcceptsLine requestLine)
    (ha : lineEnds <:+ a) :
    HeadersIndependent requestLine a b ↔
      (∀ line ∈ strtokAll lineEnds a, ¬ Blank line) ∨
        ∀ line ∈ linesRead (strtokAll lineEnds b), ¬ IsHeaderLine line := by
  have hsplit : strtokAll lineEnds (a ++ b) = strtokAll lineEnds a ++ strtokAll lineEnds b := by
    refine strtokAll_append fun c hc => ?_
    obtain ⟨s, rfl⟩ := ha
    rw [List.getLast?_append_of_ne_nil _ (by decide)] at hc
    exact List.mem_of_getLast? hc
  have hsame : HeadersIndependent requestLine a b ↔
      headersOf (strtokAll lineEnds a ++ strtokAll lineEnds b) =
        headersOf (strtokAll lineEnds a) ++ headersOf (strtokAll lineEnds b) := by
    simp only [HeadersIndependent, hline.builds_iff, hsplit]
    exact ⟨fun h => (h _ _ rfl rfl).symm, by rintro h _ _ rfl rfl; exact h.symm⟩
  rw [hsame, ← headersOf_eq_nil_iff]
  by_cases hblank : ∃ line ∈ strtokAll lineEnds a, Blank line
  · have hsome : ¬ ∀ line ∈ strtokAll lineEnds a, ¬ Blank line := by simpa using hblank
    rw [headersOf_append_of_blank hblank, or_iff_right hsome, List.self_eq_append_right]
  · have hnone : ∀ line ∈ strtokAll lineEnds a, ¬ Blank line := by simpa using hblank
    exact iff_of_true (headersOf_append hnone) (.inl hnone)

/-- A line without colon does not touch the lines around it. -/
theorem headersIndependent_junk :
    HeadersIndependent "GET / HTTP/1.1\r\n".toList "junk\r\n".toList "Host: a\r\n".toList := by
  have hlines : strtokAll lineEnds "junk\r\n".toList = ["junk".toList] := by decide
  refine (headersIndependent_iff (by decide) (by decide)).mpr (.inl ?_)
  rw [hlines]
  simp [Blank, isBlank]

/-- A line of one space hides the header behind it. -/
theorem not_headersIndependent_space :
    ¬ HeadersIndependent "GET / HTTP/1.1\r\n".toList " \r\n".toList "Host: a\r\n".toList := by
  have hline : AcceptsLine "GET / HTTP/1.1\r\n".toList := by decide
  intro h
  have hboth := h [] [⟨"Host".toList, "a".toList⟩] (hline.builds_iff.mpr (by decide))
    (hline.builds_iff.mpr (by decide))
  exact absurd (hline.builds_iff.mp hboth) (by decide)

end Pawnee
