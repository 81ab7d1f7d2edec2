import Pawnee.Source.Respond

/-!
# Reading the header section

The header loop reads with `fgets`, so a line longer than the buffer comes in
pieces of 1023 bytes.  Each piece is compared with the two lines that end the
section.  The last piece of a long line can look like one of them (`EndsAlike`),
and then the loop stops inside the line.  Otherwise the pieces are glued back
and the loop stops at the empty line (`readRequest_iff`).
-/

namespace Pawnee

open CText Effects

/-- The last piece of a line is a CRLF or an LF alone. -/
def EndsAlike (l : Str) : Prop :=
  l.length % 1023 = 1 ∨ (l.length % 1023 = 2 ∧ ['\r', '\n'] <:+ l)

theorem isEndOfHeaders_iff {l : Str} : isEndOfHeaders l = true ↔ l = ['\r', '\n'] ∨ l = ['\n'] := by
  simp [isEndOfHeaders]

/-- A line that fits the buffer ends the section exactly if it ends alike. -/
theorem isEndOfHeaders_line_iff {l : Str} (hl : IsLine l) (hle : l.length ≤ 1023) :
    isEndOfHeaders l = true ↔ EndsAlike l := by
  obtain ⟨b, hb, rfl⟩ := hl
  rw [isEndOfHeaders_iff, EndsAlike]
  rw [List.length_append, List.length_singleton] at hle ⊢
  constructor
  · rintro (h | h)
    · have hlen := congrArg List.length h
      simp only [List.length_append, List.length_cons, List.length_nil] at hlen
      exact .inr ⟨by omega, by rw [h]⟩
    · have hlen := congrArg List.length h
      simp only [List.length_append, List.length_cons, List.length_nil] at hlen
      exact .inl (by omega)
  · rintro (h | ⟨h, hsuffix⟩)
    · have hnil : b = [] := List.length_eq_zero_iff.mp (by omega)
      exact .inr (by rw [hnil]; rfl)
    · have hone : b.length = 1 := by omega
      refine .inl (hsuffix.eq_of_length ?_).symm
      simp [hone]

/-- A full piece of a longer line never ends the section. -/
theorem isEndOfHeaders_take {l : Str} (hlt : 1023 < l.length) :
    isEndOfHeaders (l.take 1023) = false := by
  rw [Bool.eq_false_iff]
  intro h
  have hlen : (l.take 1023).length = 1023 := by rw [List.length_take]; omega
  rcases isEndOfHeaders_iff.mp h with h | h <;> rw [h] at hlen <;> simp at hlen

/-- Reading the first piece of a long line does not change how it ends. -/
theorem endsAlike_drop {l : Str} (hlt : 1023 < l.length) :
    EndsAlike (l.drop 1023) ↔ EndsAlike l := by
  have hlen : (l.drop 1023).length = l.length - 1023 := List.length_drop
  have hmod : (l.length - 1023) % 1023 = l.length % 1023 := by omega
  rw [EndsAlike, EndsAlike, hlen, hmod]
  refine or_congr_right (and_congr_right fun h2 => ?_)
  constructor
  · exact fun h => h.trans (List.drop_suffix _ _)
  · intro h
    exact List.suffix_of_suffix_length_le h (List.drop_suffix _ _) (by
      rw [hlen]
      simp only [List.length_cons, List.length_nil]
      omega)

/-- One of the pieces of a line ends the section exactly if the line ends alike. -/
theorem exists_endOfHeaders_iff {l : Str} (hl : IsLine l) :
    (∃ p ∈ freadAll 1023 l, isEndOfHeaders p = true) ↔ EndsAlike l := by
  induction hk : l.length using Nat.strong_induction_on generalizing l with
  | _ k ih =>
      by_cases hle : l.length ≤ 1023
      · rw [freadAll_of_length_le (by decide) hl.ne_nil hle, ← isEndOfHeaders_line_iff hl hle]
        simp
      · have hlt : 1023 < l.length := by omega
        have ih' := ih (l.drop 1023).length (by rw [List.length_drop]; omega) (hl.drop hlt) rfl
        rw [freadAll_of_lt_length (by decide) hlt, ← endsAlike_drop hlt, ← ih']
        simp [isEndOfHeaders_take hlt]

/-! ## The header loop -/

/-- Pieces that do not end the section are glued. -/
theorem readHeaders_append {rest : List Str} : ∀ {pieces : List Str} {block : Str},
    (∀ p ∈ pieces, isEndOfHeaders p = false) → (∀ p ∈ pieces, '\x00' ∉ p) →
      block.length + pieces.flatten.length < headersBlockSize →
        readHeaders block (pieces ++ rest) = readHeaders (block ++ pieces.flatten) rest
  | [], block, _, _, _ => by simp
  | p :: pieces, block, hend, hnul, hlen => by
      have hp : isEndOfHeaders (cstr p) = false := by
        rw [cstr_eq_self (hnul p List.mem_cons_self)]
        exact hend p List.mem_cons_self
      simp only [List.flatten_cons, List.length_append] at hlen
      rw [List.cons_append, readHeaders, hp, if_neg (by decide),
        cstr_eq_self (hnul p List.mem_cons_self), strncat_eq_append (by omega),
        readHeaders_append (fun x hx => hend x (List.mem_cons_of_mem _ hx))
          (fun x hx => hnul x (List.mem_cons_of_mem _ hx))
          (by rw [List.length_append]; omega)]
      simp

/-- A piece that ends the section leaves less than all pieces in the block. -/
theorem readHeaders_length_lt {rest : List Str} : ∀ {pieces : List Str} {block : Str},
    (∃ p ∈ pieces, isEndOfHeaders p = true) → (∀ p ∈ pieces, '\x00' ∉ p) →
      (readHeaders block (pieces ++ rest)).1.length < block.length + pieces.flatten.length
  | [], block, hend, _ => by simp at hend
  | p :: pieces, block, hend, hnul => by
      have hcstr := cstr_eq_self (hnul p List.mem_cons_self)
      rw [List.cons_append, readHeaders, hcstr, List.flatten_cons, List.length_append]
      by_cases hp : isEndOfHeaders p = true
      · have hpos : 0 < p.length := by
          rcases isEndOfHeaders_iff.mp hp with rfl | rfl <;> simp
        rw [if_pos hp]
        change block.length < _
        omega
      · obtain ⟨x, hx, hxe⟩ := hend
        have hx' : x ∈ pieces := (List.mem_cons.mp hx).resolve_left fun h => hp (h ▸ hxe)
        have ih : (readHeaders (strncat block p (headersBlockSize - block.length - 1))
            (pieces ++ rest)).1.length < _ :=
          readHeaders_length_lt ⟨x, hx', hxe⟩ fun y hy => hnul y (List.mem_cons_of_mem _ hy)
        have hcat : (strncat block p (headersBlockSize - block.length - 1)).length ≤
            block.length + p.length := by
          rw [strncat, List.length_append, List.length_take]
          omega
        rw [if_neg hp]
        omega

/-- The pieces `fgets` stores of some lines and of what follows. -/
theorem fgetsAll_lines {lines : List Str} (hlines : ∀ l ∈ lines, IsLine l) (s : Str) :
    fgetsAll lineSize (lines.flatten ++ s) =
      lines.flatMap (freadAll 1023) ++ fgetsAll lineSize s := by
  induction lines with
  | nil => rfl
  | cons l lines ih =>
      have hl := hlines l List.mem_cons_self
      rw [List.flatten_cons, List.append_assoc, fgetsAll_line (by decide) hl,
        ih fun x hx => hlines x (List.mem_cons_of_mem _ hx), List.flatMap_cons, List.append_assoc]
      rfl

theorem flatten_flatMap_freadAll (lines : List Str) :
    (lines.flatMap (freadAll 1023)).flatten = lines.flatten := by
  induction lines with
  | nil => rfl
  | cons l lines ih =>
      rw [List.flatMap_cons, List.flatten_append, ih, flatten_freadAll (by decide),
        List.flatten_cons]

/-- An empty line is one piece. -/
theorem freadAll_endOfHeaders {l : Str} (h : isEndOfHeaders l = true) : freadAll 1023 l = [l] := by
  rcases isEndOfHeaders_iff.mp h with rfl | rfl <;>
    exact freadAll_of_length_le (by decide) (by simp) (by decide)

theorem isLine_of_endOfHeaders {l : Str} (h : isEndOfHeaders l = true) : IsLine l := by
  rcases isEndOfHeaders_iff.mp h with rfl | rfl
  · exact ⟨['\r'], by decide, rfl⟩
  · exact ⟨[], by decide, rfl⟩

/-- What `fgets` stores of a whole stream: the request line, and for the header
loop the pieces of the lines, the empty line, and the pieces behind it. -/
theorem readRequest_section {requestLine emptyLine further : Str} {lines : List Str}
    (hrequest : IsLine requestLine) (hfits : requestLine.length ≤ 1023)
    (hnul : '\x00' ∉ requestLine) (hlines : ∀ l ∈ lines, IsLine l)
    (hempty : isEndOfHeaders emptyLine = true) :
    readRequest (requestLine ++ lines.flatten ++ emptyLine ++ further) =
      some (requestLine,
        (readHeaders [] (lines.flatMap (freadAll 1023) ++
          emptyLine :: fgetsAll lineSize further)).1,
        (readHeaders [] (lines.flatMap (freadAll 1023) ++
          emptyLine :: fgetsAll lineSize further)).2.flatten) := by
  have hfirst : fgets lineSize (requestLine ++ (lines.flatten ++ (emptyLine ++ further))) =
      some (requestLine, lines.flatten ++ (emptyLine ++ further)) := by
    have hne : requestLine ++ (lines.flatten ++ (emptyLine ++ further)) ≠ [] := by
      simp [hrequest.ne_nil]
    simp only [fgets, if_neg hne, hrequest.takeLine_append,
      List.take_of_length_le (show requestLine.length ≤ lineSize - 1 from hfits), List.drop_left]
  have hrest : fgetsAll lineSize (lines.flatten ++ (emptyLine ++ further)) =
      lines.flatMap (freadAll 1023) ++ emptyLine :: fgetsAll lineSize further := by
    rw [fgetsAll_lines hlines, fgetsAll_line (by decide) (isLine_of_endOfHeaders hempty)]
    exact congrArg _ (congrArg (· ++ _) (freadAll_endOfHeaders hempty))
  simp only [List.append_assoc, readRequest, hfirst, hrest, cstr_eq_self hnul]

/-- The header loop stops at the empty line and leaves all lines before it in
the block, exactly if no line ends alike. -/
theorem readRequest_iff {requestLine emptyLine further : Str} {lines : List Str}
    (hrequest : IsLine requestLine) (hfits : requestLine.length ≤ 1023)
    (hlines : ∀ l ∈ lines, IsLine l) (htotal : lines.flatten.length ≤ 8191)
    (hempty : emptyLine = ['\r', '\n'] ∨ emptyLine = ['\n'])
    (hnul : '\x00' ∉ requestLine ++ lines.flatten ++ emptyLine ++ further) :
    readRequest (requestLine ++ lines.flatten ++ emptyLine ++ further) =
        some (requestLine, lines.flatten, further) ↔
      ∀ l ∈ lines, ¬ EndsAlike l := by
  simp only [List.mem_append, not_or] at hnul
  obtain ⟨⟨⟨hnulRequest, hnulLines⟩, hnulEmpty⟩, -⟩ := hnul
  have hpieces : ∀ p ∈ lines.flatMap (freadAll 1023), '\x00' ∉ p := by
    intro p hp hmem
    refine hnulLines ?_
    rw [← flatten_flatMap_freadAll lines]
    exact List.mem_flatten.mpr ⟨p, hp, hmem⟩
  have hmarker : isEndOfHeaders emptyLine = true := isEndOfHeaders_iff.mpr hempty
  rw [readRequest_section hrequest hfits hnulRequest hlines hmarker]
  constructor
  · intro h l hl halike
    -- the block would hold all lines, but the loop has stopped inside this one
    have hblock := congrArg List.length (congrArg (·.2.1) (Option.some.inj h))
    obtain ⟨p, hp, hpend⟩ := (exists_endOfHeaders_iff (hlines l hl)).mpr halike
    have hlt : (readHeaders [] (lines.flatMap (freadAll 1023) ++
        emptyLine :: fgetsAll lineSize further)).1.length < _ :=
      readHeaders_length_lt ⟨p, List.mem_flatMap.mpr ⟨l, hl, hp⟩, hpend⟩ hpieces
    rw [flatten_flatMap_freadAll] at hlt
    simp only [List.length_nil, Nat.zero_add] at hlt hblock
    omega
  · intro hno
    have hend : ∀ p ∈ lines.flatMap (freadAll 1023), isEndOfHeaders p = false := by
      intro p hp
      obtain ⟨l, hl, hpl⟩ := List.mem_flatMap.mp hp
      rw [Bool.eq_false_iff]
      exact fun hpend => hno l hl ((exists_endOfHeaders_iff (hlines l hl)).mp ⟨p, hpl, hpend⟩)
    have hroom : ([] : Str).length + (lines.flatMap (freadAll 1023)).flatten.length <
        headersBlockSize := by
      rw [flatten_flatMap_freadAll]
      simp only [List.length_nil, headersBlockSize]
      omega
    rw [readHeaders_append hend hpieces hroom, flatten_flatMap_freadAll, List.nil_append,
      readHeaders, cstr_eq_self hnulEmpty, if_pos hmarker]
    simp only [flatten_fgetsAll (show 2 ≤ lineSize by decide)]

/-- A section of one short line. -/
theorem readRequest_iff_host :
    readRequest
        ("GET / HTTP/1.1\r\n".toList ++ ["Host: a\r\n".toList].flatten ++ ['\r', '\n'] ++ []) =
        some ("GET / HTTP/1.1\r\n".toList, ["Host: a\r\n".toList].flatten, []) ↔
      ∀ l ∈ ["Host: a\r\n".toList], ¬ EndsAlike l :=
  readRequest_iff ⟨"GET / HTTP/1.1\r".toList, by decide, by decide⟩ (by decide)
    (fun l hl => by
      rw [List.mem_singleton] at hl
      exact ⟨"Host: a\r".toList, by decide, hl⟩)
    (by decide) (.inl rfl) (by decide)

/-- A line of 1024 bytes: its line feed is read alone and ends the section. -/
theorem not_readRequest_long :
    ¬ ∀ (requestLine emptyLine further : Str) (lines : List Str),
      IsLine requestLine → requestLine.length ≤ 1023 → (∀ l ∈ lines, IsLine l) →
      (∀ l ∈ lines, l ≠ ['\n'] ∧ l ≠ ['\r', '\n']) → lines.flatten.length ≤ 8191 →
      (emptyLine = ['\r', '\n'] ∨ emptyLine = ['\n']) →
      '\x00' ∉ requestLine ++ lines.flatten ++ emptyLine ++ further →
      readRequest (requestLine ++ lines.flatten ++ emptyLine ++ further) =
        some (requestLine, lines.flatten, further) := by
  intro hall
  have hlong : IsLine ("A: ".toList ++ List.replicate 1020 'x' ++ ['\n']) :=
    ⟨"A: ".toList ++ List.replicate 1020 'x', by decide +kernel, rfl⟩
  have hread := hall "GET / HTTP/1.1\n".toList ['\n'] []
    ["A: ".toList ++ List.replicate 1020 'x' ++ ['\n']]
    ⟨"GET / HTTP/1.1".toList, by decide, by decide⟩ (by decide)
    (fun l hl => List.mem_singleton.mp hl ▸ hlong) (by decide +kernel) (by decide +kernel)
    (.inr rfl) (by decide +kernel)
  exact absurd (congrArg (fun x => x.map (·.2.1.length)) hread) (by decide +kernel)

end Pawnee
