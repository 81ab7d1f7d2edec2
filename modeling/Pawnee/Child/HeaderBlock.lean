import Pawnee.Child.HeaderLines
import Pawnee.Child.Reading
import Pawnee.Foundation.KeptText

/-!
# Whole header lines

The child reads header lines through a line buffer into a block, and both are C
strings.  So the parser sees the bytes of the stream up to a NUL of a line, up to
8191 bytes, and behind 1023 bytes of the request line.

`markedStream` is the stream with a mark on the bytes that get into the block.  A
header line of the block stands in the stream from line end to line end exactly if
no dropped byte cuts it or takes it from its line end, and it does not begin in the
request line (`headersInPlace_iff_fit`).
-/

namespace Pawnee

open CText Effects KeptText

/-- What is left of a stream behind its first line. -/
def behindRequestLine (stream : Str) : Str := stream.drop (takeLine stream).length

/-- Every header that is stored is the name and the value of one line of the
stream, from line end to line end. -/
def HeadersWhole (stream : Str) : Prop :=
  ∀ requestLine headersBlock unread headers,
    readRequest stream = some (requestLine, headersBlock, unread) →
    BuildsHeaders requestLine headersBlock headers →
      ∀ header ∈ headers, ∃ line, Between lineEnds (behindRequestLine stream) line ∧
        ReadsAs line header.name header.value

/-! ## The block -/

/-- The lines `fgets` stores until the loop ends. -/
def headerPieces (pieces : List Str) : List Str :=
  pieces.takeWhile fun piece => !isEndOfHeaders (cstr piece)

/-- Cutting the front of a text first changes nothing. -/
theorem take_take_append (n : Nat) (s t : Str) : (s.take n ++ t).take n = (s ++ t).take n := by
  have hroom : n - min n s.length = n - s.length := by omega
  rw [List.take_append, List.take_append, List.take_take, Nat.min_self, List.length_take, hroom]

/-- The block is what is kept of the lines, as far as it fits. -/
theorem readHeaders_block : ∀ {pieces : List Str} {block : Str}, block.length ≤ 8191 →
    (readHeaders block pieces).1 =
      (block ++ ((headerPieces pieces).map cstr).flatten).take 8191
  | [], block, h => by
      simp [readHeaders, headerPieces, List.take_of_length_le h]
  | piece :: pieces, block, h => by
      by_cases hend : isEndOfHeaders (cstr piece) = true
      · have hpieces : headerPieces (piece :: pieces) = [] :=
          List.takeWhile_cons_of_neg (by simp [hend])
        simp [readHeaders, hend, hpieces, List.take_of_length_le h]
      · have hpieces : headerPieces (piece :: pieces) = piece :: headerPieces pieces :=
          List.takeWhile_cons_of_pos (by simp [hend])
        have hcat : strncat block (cstr piece) (headersBlockSize - block.length - 1) =
            (block ++ cstr piece).take 8191 := by
          rw [strncat, List.take_append, List.take_of_length_le h, headersBlockSize]
          congr 2
          omega
        rw [readHeaders, if_neg hend, hcat, readHeaders_block (List.length_take_le _ _), hpieces,
          List.map_cons, List.flatten_cons, take_take_append, List.append_assoc]

/-- What stands behind the header lines starts with a line end. -/
theorem flatten_headerPieces (s : Str) :
    ∃ tail, s = (headerPieces (fgetsAll lineSize s)).flatten ++ tail ∧
      ∀ c ∈ tail.head?, c ∈ lineEnds := by
  have hsplit := List.takeWhile_append_dropWhile (l := fgetsAll lineSize s)
    (p := fun piece => !isEndOfHeaders (cstr piece))
  refine ⟨((fgetsAll lineSize s).dropWhile fun piece => !isEndOfHeaders (cstr piece)).flatten,
    ?_, ?_⟩
  · rw [headerPieces, ← List.flatten_append, hsplit]
    exact (flatten_fgetsAll (by decide) s).symm
  · cases hdrop : (fgetsAll lineSize s).dropWhile fun piece => !isEndOfHeaders (cstr piece) with
    | nil => simp
    | cons piece pieces =>
        have hhead := List.head?_dropWhile_not (fun piece => !isEndOfHeaders (cstr piece))
          (fgetsAll lineSize s)
        rw [hdrop] at hhead
        have hend : isEndOfHeaders (cstr piece) = true := by simpa using hhead
        -- the line that ends the loop starts with a line end
        have hprefix : cstr piece <+: piece := List.takeWhile_prefix _
        obtain ⟨rest, hrest⟩ := hprefix
        rcases isEndOfHeaders_iff.mp hend with h | h <;>
          · rw [h] at hrest
            subst hrest
            simp [lineEnds]

/-! ## The bytes of the block in the stream -/

/-- The bytes the first call of `fgets` stores. -/
def firstPiece (stream : Str) : Str := (takeLine stream).take (lineSize - 1)

/-- How many bytes of the request line are left for the second call. -/
def overrun (stream : Str) : Nat := (takeLine stream).length - (lineSize - 1)

/-- A piece in the line buffer: from its first NUL on it is dropped. -/
def markPiece (piece : Str) : Marked Char :=
  mark true (cstr piece) ++ mark false (piece.drop (cstr piece).length)

/-- The stream behind the first call of `fgets`, with the bytes of the block marked. -/
def markedStream (stream : Str) : Marked Char :=
  let rest := stream.drop (firstPiece stream).length
  let pieces := headerPieces (fgetsAll lineSize rest)
  cap 8191 (pieces.flatMap markPiece) ++ mark false (rest.drop pieces.flatten.length)

/-- A NUL between CR and LF takes the LF with it. -/
example : remains (markedStream "GET / HTTP/1.1\r\nHost: a\r\x00\nb: c\r\n\r\n".toList) =
    "Host: a\rb: c\r\n".toList := by decide

theorem text_markPiece (piece : Str) : text (markPiece piece) = piece := by
  have hcut : cstr piece <+: piece := List.takeWhile_prefix _
  rw [markPiece, text_append, text_mark, text_mark]
  exact (List.prefix_append_drop hcut).symm

theorem remains_markPiece (piece : Str) : remains (markPiece piece) = cstr piece := by
  rw [markPiece, remains_append, remains_mark_true, remains_mark_false, List.append_nil]

theorem text_pieces (pieces : List Str) : text (pieces.flatMap markPiece) = pieces.flatten := by
  induction pieces with
  | nil => rfl
  | cons piece pieces ih =>
      rw [List.flatMap_cons, text_append, text_markPiece, ih, List.flatten_cons]

theorem remains_pieces (pieces : List Str) :
    remains (pieces.flatMap markPiece) = (pieces.map cstr).flatten := by
  induction pieces with
  | nil => rfl
  | cons piece pieces ih =>
      rw [List.flatMap_cons, remains_append, remains_markPiece, ih, List.map_cons,
        List.flatten_cons]

theorem text_markedStream (stream : Str) :
    text (markedStream stream) = stream.drop (firstPiece stream).length := by
  obtain ⟨tail, htail, -⟩ := flatten_headerPieces (stream.drop (firstPiece stream).length)
  rw [markedStream, text_append, text_cap, text_pieces, text_mark]
  generalize (headerPieces (fgetsAll lineSize (stream.drop (firstPiece stream).length))).flatten =
    front at htail ⊢
  rw [htail, List.drop_left]

/-- The marked bytes are those of the block. -/
theorem readRequest_eq {stream requestLine headersBlock unread : Str}
    (hread : readRequest stream = some (requestLine, headersBlock, unread)) :
    requestLine = cstr (firstPiece stream) ∧ headersBlock = remains (markedStream stream) := by
  have hne : stream ≠ [] := by
    rintro rfl
    cases hread
  have hline : fgets lineSize stream = some (firstPiece stream,
      stream.drop (firstPiece stream).length) := if_neg hne
  simp only [readRequest, hline] at hread
  obtain ⟨hfirst, hblock, -⟩ := by simpa only [Option.some.injEq, Prod.mk.injEq] using hread
  refine ⟨hfirst.symm, ?_⟩
  rw [← hblock, readHeaders_block (Nat.zero_le _), List.nil_append, markedStream, remains_append,
    remains_cap, remains_pieces, remains_mark_false, List.append_nil]

/-! ## Header lines in the stream -/

/-- Each header line of the block is one line of the stream behind the request line,
with what is kept of the bytes around it on its sides. -/
def HeadersInPlace (stream : Str) : Prop :=
  ∀ requestLine headersBlock unread,
    readRequest stream = some (requestLine, headersBlock, unread) → AcceptsLine requestLine →
      ∀ x line y, HeaderAt headersBlock x line y →
        Stands (· ∈ lineEnds) (overrun stream) (markedStream stream) x line y

/-- The buffers drop no byte of the header line behind `x`. -/
structure LeavesWhole (stream x line : Str) : Prop where
  /-- It begins behind what is kept of the request line. -/
  behind : (remains ((markedStream stream).take (overrun stream))).length ≤ x.length
  /-- No dropped byte is inside it, or next to it without being a line end. -/
  beside : ∀ u c v, markedStream stream = u ++ (c, false) :: v →
    ¬ Harms (· ∈ lineEnds) x line u c v

/-- The request line is rejected as it is read, or the bytes that are dropped leave the
header lines whole. -/
def HeadersFit (stream : Str) : Prop :=
  AcceptsLine (cstr (firstPiece stream)) →
    ∀ x line y, HeaderAt (remains (markedStream stream)) x line y → LeavesWhole stream x line

/-- A line that stands in the stream is whole. -/
theorem between_of_stands {stream x line y : Str} (hbytes : ∀ c ∈ line, c ∉ lineEnds)
    (h : Stands (· ∈ lineEnds) (overrun stream) (markedStream stream) x line y) :
    Between lineEnds (behindRequestLine stream) line := by
  obtain ⟨a, b, hmarked, -, -, hover, hstart, hstop⟩ := h
  have hrest := text_markedStream stream
  rw [hmarked, text_append, text_append, text_mark] at hrest
  have hsplit : (takeLine stream).length = (firstPiece stream).length + overrun stream := by
    rw [firstPiece, List.length_take, overrun]
    omega
  have hlen : overrun stream ≤ (text a).length := by rwa [text, List.length_map]
  refine ⟨(text a).drop (overrun stream), text b, ?_, hbytes, fun c hc => ?_, fun c hc => ?_⟩
  · rw [behindRequestLine, hsplit, ← List.drop_drop, ← hrest, List.drop_append_of_le_length hlen]
  · rw [List.getLast?_drop] at hc
    split at hc
    · cases hc
    · rw [text, List.getLast?_map] at hc
      obtain ⟨e, he, rfl⟩ := Option.map_eq_some_iff.mp hc
      exact hstart e he
  · rw [text, List.head?_map] at hc
    obtain ⟨e, he, rfl⟩ := Option.map_eq_some_iff.mp hc
    exact hstop e he

/-- Headers whose lines are in their places are those of whole lines. -/
theorem HeadersInPlace.whole {stream : Str} (h : HeadersInPlace stream) : HeadersWhole stream := by
  intro requestLine headersBlock unread headers hread hbuild header hmem
  have haccepts : AcceptsLine requestLine := hbuild.acceptsLine
  rw [haccepts.builds_iff.mp hbuild] at hmem
  obtain ⟨x, line, y, hat, hreads⟩ := mem_headersOf_iff.mp hmem
  exact ⟨line, between_of_stands hat.bytes (h _ _ _ hread haccepts x line y hat), hreads⟩

/-- The header lines of the block are whole lines of the stream exactly if the buffers
drop nothing of them, and then no header is cut or glued. -/
theorem headersInPlace_iff_fit (stream : Str) :
    (HeadersInPlace stream ↔ HeadersFit stream) ∧ (HeadersFit stream → HeadersWhole stream) := by
  have hstands : ∀ {x line y : Str}, HeaderAt (remains (markedStream stream)) x line y →
      (Stands (· ∈ lineEnds) (overrun stream) (markedStream stream) x line y ↔
        LeavesWhole stream x line) := by
    intro x line y hat
    rw [stands_iff hat.text hat.header.ne_nil hat.start hat.stop]
    exact ⟨fun ⟨hbehind, hbeside⟩ => ⟨hbehind, hbeside⟩, fun h => ⟨h.behind, h.beside⟩⟩
  have hfit : HeadersFit stream → HeadersInPlace stream := by
    intro h requestLine headersBlock unread hread haccepts x line y hat
    obtain ⟨rfl, rfl⟩ := readRequest_eq hread
    exact (hstands hat).mpr (h haccepts x line y hat)
  refine ⟨⟨fun h haccepts x line y hat => ?_, hfit⟩, fun h => (hfit h).whole⟩
  cases hread : readRequest stream with
  | none =>
      have hempty : stream = [] := by
        by_contra hne
        simp [readRequest, fgets, hne] at hread
      subst hempty
      exact absurd haccepts (by decide)
  | some parts =>
      obtain ⟨requestLine, headersBlock, unread⟩ := parts
      obtain ⟨rfl, rfl⟩ := readRequest_eq hread
      exact (hstands hat).mp (h _ _ _ hread haccepts x line y hat)

/-! ## Streams that fit -/

/-- The bytes of the header lines, as `fgets` stores them. -/
def headerBytes (stream : Str) : Str :=
  (headerPieces (fgetsAll lineSize (stream.drop (firstPiece stream).length))).flatten

/-- The lines of the request fit the buffers, or are cut at their ends. -/
structure LinesFit (stream : Str) : Prop where
  /-- The request line is read whole, or nothing of it is read as a header line. -/
  line : (takeLine stream).length ≤ 1023 ∨ headerBytes stream = []
  nul : '\x00' ∉ headerBytes stream
  /-- The block ends with the lines, or at a line end. -/
  block : (headerBytes stream).length ≤ 8191 ∨ (∃ c ∈ (headerBytes stream)[8190]?, c ∈ lineEnds) ∨
    ∃ c ∈ (headerBytes stream)[8191]?, c ∈ lineEnds

theorem markPiece_eq {piece : Str} (h : '\x00' ∉ piece) : markPiece piece = mark true piece := by
  rw [markPiece, cstr_eq_self h, List.drop_length]
  exact List.append_nil _

theorem mark_pieces {pieces : List Str} (h : '\x00' ∉ pieces.flatten) :
    pieces.flatMap markPiece = mark true pieces.flatten := by
  induction pieces with
  | nil => rfl
  | cons piece pieces ih =>
      rw [List.flatten_cons, List.mem_append, not_or] at h
      rw [List.flatMap_cons, markPiece_eq h.1, ih h.2, List.flatten_cons, mark_append]

/-- Without a NUL the block is a front part of the header lines. -/
theorem markedStream_eq {stream : Str} (hnul : '\x00' ∉ headerBytes stream) :
    ∃ tail, (∀ c ∈ tail.head?, c ∈ lineEnds) ∧ markedStream stream =
      mark true ((headerBytes stream).take 8191) ++
        mark false ((headerBytes stream).drop 8191 ++ tail) := by
  obtain ⟨tail, hstream, htail⟩ := flatten_headerPieces (stream.drop (firstPiece stream).length)
  refine ⟨tail, htail, ?_⟩
  have hdrop : (stream.drop (firstPiece stream).length).drop (headerBytes stream).length =
      tail := by
    rw [← headerBytes] at hstream
    generalize headerBytes stream = front at hstream ⊢
    rw [hstream, List.drop_left]
  rw [markedStream, mark_pieces hnul, cap_mark_true, mark_append, List.append_assoc, ← headerBytes,
    hdrop]

/-- Lines that fit are left whole. -/
theorem LinesFit.headersFit {stream : Str} (h : LinesFit stream) : HeadersFit stream := by
  obtain ⟨tail, htail, hmarked⟩ := markedStream_eq h.nul
  intro _ x line y hat
  have hne := hat.header.ne_nil
  have htext := hat.text
  rw [hmarked, remains_append, remains_mark_true, remains_mark_false, List.append_nil] at htext
  constructor
  · rcases h.line with hshort | hnone
    · have hzero : overrun stream = 0 := by
        rw [overrun, lineSize]
        omega
      simp [hzero]
    · rw [hnone] at htext
      simp [hne] at htext
  · intro u c v hdrop
    rw [hmarked] at hdrop
    refine not_harms_front hdrop htext hne ?_
    rcases h.block with hle | ⟨d, hd, hend⟩ | ⟨d, hd, hend⟩
    · rw [List.drop_eq_nil_of_le hle, List.nil_append]
      exact .inr htail
    · refine .inl fun c hc hmem => ?_
      rw [List.getLast?_take, if_neg (by decide), Option.mem_def.mp hd] at hc
      cases hc
      exact hat.bytes _ hmem hend
    · refine .inr fun c hc => ?_
      rw [List.head?_append, List.head?_drop, Option.mem_def.mp hd] at hc
      cases hc
      exact hend

/-- A request with two header lines. -/
theorem headersWhole_two_lines :
    HeadersWhole "GET / HTTP/1.1\r\nHost: a\r\nAccept: b\n\r\n".toList :=
  (headersInPlace_iff_fit _).2 (LinesFit.headersFit ⟨.inl (by decide), by decide, .inl (by decide)⟩)

theorem ReadsAs.value_isSuffix {line name value : Str} (h : ReadsAs line name value) :
    value <:+ line := by
  obtain ⟨lead, mid, gap, rfl, -⟩ := h.text
  exact ⟨lead ++ name ++ mid ++ ':' :: gap, by simp⟩

/-- A NUL takes the end of its line with it, so that the next line is read as the
rest of a host name. -/
theorem not_headersWhole_nul :
    ¬ HeadersWhole "GET / HTTP/1.1\r\nHost: a\x00\r\nb.c\r\n\r\n".toList := by
  have hread : readRequest "GET / HTTP/1.1\r\nHost: a\x00\r\nb.c\r\n\r\n".toList =
      some ("GET / HTTP/1.1\r\n".toList, "Host: ab.c\r\n".toList, []) := by decide
  have hline : AcceptsLine "GET / HTTP/1.1\r\n".toList := by decide
  intro h
  obtain ⟨line, hbetween, hreads⟩ := h _ _ _ [⟨"Host".toList, "ab.c".toList⟩] hread
    (hline.builds_iff.mpr (by decide)) ⟨"Host".toList, "ab.c".toList⟩ List.mem_cons_self
  have hhost : "ab.c".toList <:+: "Host: a\x00\r\nb.c\r\n\r\n".toList :=
    hreads.value_isSuffix.isInfix.trans hbetween.isInfix
  exact absurd hhost (by decide)

end Pawnee
