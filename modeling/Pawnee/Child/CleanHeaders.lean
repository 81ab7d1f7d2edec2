import Mathlib.Data.List.Forall2
import Pawnee.Child.HeaderLines

/-!
# What is stored of a header block

The block is cut at CR and LF into segments.  Each stored header comes from one
segment: the name stands in front of its first colon and the value behind it
(`FromSegment`).  The headers stand in the order of their segments, and no segment
gives two (`storedHeaders_clean`).  This holds for every block, since it is about
one pass of the loop (`ReadsAs`) and about the order in which lines are passed.
-/

namespace Pawnee

open CText Effects

/-- The header comes from this segment of the block. -/
structure FromSegment (header : HttpHeader) (segment : Str) : Prop where
  name_ne : header.name ≠ []
  name_bytes : ∀ c ∈ header.name, c ∉ [':', ' ', '\t', '\r', '\n']
  value_ne : header.value ≠ []
  value_bytes : ∀ c ∈ header.value, c ∉ ['\r', '\n']
  value_head : ∀ c ∈ header.value.head?, c ∉ [' ', '\t']
  /-- The name is in front of the first colon, and the value behind it. -/
  sides : ∃ left right, segment = left ++ ':' :: right ∧ ':' ∉ left ∧ header.name <:+: left ∧
    header.value <:+: right

theorem isBlank_eq_false_iff {c : Char} : isBlank c = false ↔ c ∉ [' ', '\t'] := by
  simp [isBlank]

/-- A header line without line ends of its own. -/
theorem ReadsAs.fromSegment {segment : Str} {header : HttpHeader}
    (h : ReadsAs segment header.name header.value) (hends : ∀ c ∈ segment, c ∉ lineEnds) :
    FromSegment header segment := by
  obtain ⟨⟨lead, mid, gap, rfl, hlead, -, hcolon, -⟩, hname, hbytes, hvalue, hhead⟩ := h
  have hleft : ':' ∉ lead ++ (header.name ++ mid) := by
    simp only [List.mem_append, not_or]
    refine ⟨fun hc => ?_, fun hc => (hbytes _ hc).1 rfl, hcolon⟩
    exact absurd (hlead _ hc) (by decide)
  refine ⟨hname, fun c hc hmem => ?_, hvalue, fun c hc => hends c (by simp [hc]),
    fun c hc => isBlank_eq_false_iff.mp (hhead c hc),
    lead ++ (header.name ++ mid), gap ++ header.value, by simp, hleft,
    ⟨lead, mid, List.append_assoc _ _ _⟩, (List.suffix_append gap header.value).isInfix⟩
  have hblank := isBlank_eq_false_iff.mp (hbytes c hc).2
  have hline : c ∉ lineEnds := hends c (by simp [hc])
  simp only [lineEnds, List.mem_cons, List.not_mem_nil, or_false, not_or] at hblank hline hmem
  rcases hmem with hc' | hc' | hc' | hc' | hc'
  · exact (hbytes c hc).1 hc'
  · exact hblank.1 hc'
  · exact hblank.2 hc'
  · exact hline.1 hc'
  · exact hline.2 hc'

/-- What is picked from a list stands in the order of the list. -/
theorem sublistForall₂_filterMap {α β : Type} {R : β → α → Prop} {f : α → Option β} {l : List α}
    (h : ∀ a ∈ l, ∀ b, f a = some b → R b a) : List.SublistForall₂ R (l.filterMap f) l := by
  induction l with
  | nil => exact .nil
  | cons a l ih =>
      have hrest := ih fun a' ha' => h a' (List.mem_cons_of_mem _ ha')
      cases hf : f a with
      | none =>
          rw [List.filterMap_cons_none hf]
          exact .cons_right hrest
      | some b =>
          rw [List.filterMap_cons_some hf]
          exact .cons (h a List.mem_cons_self b hf) hrest

/-- The headers of a block come from its segments, in order and one from each at
most. -/
theorem headersOf_fromSegments (block : Str) :
    List.SublistForall₂ FromSegment (headersOf (strtokAll lineEnds block))
      (segments lineEnds block) := by
  rw [← strtokAll_eq_segments, headersOf_eq]
  have hread : (linesRead (strtokAll lineEnds block)).Sublist (strtokAll lineEnds block) :=
    List.takeWhile_sublist _
  have hpick : List.SublistForall₂ FromSegment
      ((linesRead (strtokAll lineEnds block)).filterMap headerOf)
      (linesRead (strtokAll lineEnds block)) := by
    refine sublistForall₂_filterMap fun segment hmem header hheader => ?_
    obtain ⟨-, a, b, -, hends, -⟩ := mem_strtokAll (hread.subset hmem)
    exact (headerOf_eq_some_iff.mp hheader).fromSegment hends
  obtain ⟨l, hl, hsub⟩ := List.sublistForall₂_iff.mp hpick
  exact List.sublistForall₂_iff.mpr ⟨l, hl, hsub.trans hread⟩

/-- After a parse that succeeds, the store holds headers that come from the segments
of the block, in order and one from each at most. -/
theorem storedHeaders_clean {requestLine headersBlock : Str} {request request' : HttpRequest}
    (h : parseHttpRequest requestLine headersBlock request = .ret (true, request')) :
    ∃ store headers, request'.headers = some store ∧ Holds store headers ∧
      List.SublistForall₂ FromSegment headers (segments lineEnds headersBlock) := by
  cases hq : parseRequest requestLine headersBlock with
  | none =>
      obtain ⟨request'', -, hfail⟩ := parseHttpRequest_of_none request hq
      cases h.symm.trans hfail
  | some q =>
      obtain ⟨store, hholds, hparse⟩ := parseHttpRequest_of_some request hq
      cases h.symm.trans hparse
      obtain ⟨m, t, v, major, minor, -, -, rfl⟩ := parseRequest_eq_some.mp hq
      exact ⟨store, _, rfl, hholds, headersOf_fromSegments headersBlock⟩

/-- A block with a blank inside a name, a colon inside a value and a line that is not
stored. -/
theorem storedHeaders_clean_colons :
    ∃ store headers, (⟨some .get, some 1, some 1, some "/".toList, some
        ⟨some ([some ⟨"a".toList, "b:c".toList⟩, some ⟨"d".toList, "e".toList⟩] ++
          List.replicate 6 none), 2, 8⟩⟩ : HttpRequest).headers = some store ∧
      Holds store headers ∧ List.SublistForall₂ FromSegment headers
        (segments lineEnds " a x: b:c\r\njunk\nd:e".toList) :=
  storedHeaders_clean (show parseHttpRequest "GET / HTTP/1.1\r\n".toList _ .uninit = .ret (true, _)
    from rfl)

end Pawnee
