import Pawnee.Child.HeaderLines
import Pawnee.Source.Respond

/-!
# The request lines that are accepted

`IsRequestLine` is the grammar of the parser: three tokens cut by `strtok`, and a
version scanned by `sscanf`.  It takes more than one separator, numbers with a
sign, and any text behind the version.  `parsesTo_iff` says that a line is
accepted, and what is stored of it, exactly by this grammar.

`StrictRequestLine` is the grammar with single separators, plain digits and
nothing behind them.
-/

namespace Pawnee

open CText Effects

/-- A version text that `sscanf` reads: two numerals, and any text that is no
digit behind them. -/
def IsVersion (version : Str) (major minor : Int) : Prop :=
  ∃ a b tail, version = "HTTP/".toList ++ (a ++ '.' :: (b ++ tail)) ∧ Numeral a major ∧
    Numeral b minor ∧ ∀ c ∈ tail.head?, c.isDigit = false

/-- A line of the parser's grammar. -/
def IsRequestLine (line method target : Str) (major minor : Int) : Prop :=
  ∃ pad gap ends version rest,
    line = pad ++ (method ++ ' ' :: (gap ++ (target ++ ' ' :: (ends ++ (version ++ rest))))) ∧
    (∀ c ∈ pad, c = ' ') ∧ method ≠ [] ∧ ' ' ∉ method ∧
    (∀ c ∈ gap, c = ' ') ∧ target ≠ [] ∧ ' ' ∉ target ∧
    (∀ c ∈ ends, c ∈ lineEnds) ∧ (∀ c ∈ version, c ∉ lineEnds) ∧
    (∀ c ∈ rest.head?, c ∈ lineEnds) ∧ IsVersion version major minor

/-- The two numbers of a version are read exactly from a version text. -/
theorem sscanfVersion_eq_some_iff {version : Str} {major minor : Int} :
    sscanfVersion version = (some major, some minor) ↔ IsVersion version major minor := by
  constructor
  · intro h
    simp only [sscanfVersion] at h
    split at h
    · cases h
    · next s hs =>
      split at h
      · cases h
      · next m s₁ hm =>
        split at h
        · cases h
        · next s₂ hs₂ =>
          obtain ⟨h1, h2⟩ := Prod.mk.inj h
          cases h1
          obtain ⟨⟨i, s₃⟩, hi, rfl⟩ := Option.map_eq_some_iff.mp h2
          obtain ⟨a, rfl, ha, -⟩ := scanInt_eq_some_iff.mp hm
          obtain ⟨b, rfl, hb, htail⟩ := scanInt_eq_some_iff.mp hi
          refine ⟨a, b, s₃, ?_, ha, hb, htail⟩
          rw [scanLiteral_eq_some_iff.mp hs, scanLiteral_eq_some_iff.mp hs₂]
          rfl
  · rintro ⟨a, b, tail, rfl, ha, hb, htail⟩
    have hmajor : scanInt (a ++ '.' :: (b ++ tail)) = some (major, '.' :: (b ++ tail)) :=
      scanInt_numeral ha (by simp)
    have hdot : scanLiteral ['.'] ('.' :: (b ++ tail)) = some (b ++ tail) :=
      scanLiteral_append ['.'] _
    simp only [sscanfVersion, scanLiteral_append, hmajor, hdot, scanInt_numeral hb htail,
      Option.map_some]

theorem forall_mem_space {s : Str} : (∀ c ∈ s, c ∈ [' ']) ↔ ∀ c ∈ s, c = ' ' := by
  simp only [List.mem_singleton]

theorem forall_notMem_space {s : Str} : (∀ c ∈ s, c ∉ [' ']) ↔ ' ' ∉ s := by
  simp only [List.mem_singleton]
  exact ⟨fun h hmem => h ' ' hmem rfl, fun h c hc heq => h (heq ▸ hc)⟩

/-- A version is not empty. -/
theorem IsVersion.ne_nil {version : Str} {major minor : Int} (h : IsVersion version major minor) :
    version ≠ [] := by
  obtain ⟨a, b, tail, rfl, -⟩ := h
  exact List.append_ne_nil_of_left_ne_nil (by decide) _

/-- The parse reads its three tokens exactly from a line of the grammar. -/
theorem requestTokens_iff {line method target : Str} {major minor : Int} :
    (∃ version, requestTokens line = some (method, target, version) ∧
      IsVersion version major minor) ↔ IsRequestLine line method target major minor := by
  constructor
  · rintro ⟨version, htokens, hversion⟩
    obtain ⟨r₁, r₂, r₃, h1, h2, h3⟩ := requestTokens_eq_some.mp htokens
    obtain ⟨pad, after₁, rfl, hpad, hmethod, hm, hafter₁⟩ := strtok_eq_some_iff.mp h1
    obtain ⟨gap, after₂, rfl, hgap, htarget, ht, hafter₂⟩ := strtok_eq_some_iff.mp h2
    obtain ⟨ends, rest, rfl, hends, hne, hv, hrest⟩ := strtok_eq_some_iff.mp h3
    have hone : ∀ {d : Char}, d ∈ [' '] → d = ' ' := List.mem_singleton.mp
    -- a token that ends the line leaves nothing for the next one
    rcases hafter₁ with ⟨-, hnil⟩ | ⟨d, hd, rfl⟩
    · simp [htarget] at hnil
    rcases hafter₂ with ⟨-, hnil⟩ | ⟨d', hd', rfl⟩
    · simp [hne] at hnil
    obtain rfl := hone hd
    obtain rfl := hone hd'
    refine ⟨pad, gap, ends, version, rest, rfl, forall_mem_space.mp hpad, hmethod,
      forall_notMem_space.mp hm, forall_mem_space.mp hgap, htarget, forall_notMem_space.mp ht,
      hends, hv, fun c hc => ?_, hversion⟩
    rcases hrest with ⟨rfl, -⟩ | ⟨e, he, rfl⟩ <;> cases hc
    exact he
  · rintro ⟨pad, gap, ends, version, rest, rfl, hpad, hmethod, hm, hgap, htarget, ht, hends, hv,
      hrest, hversion⟩
    have hspace : ' ' ∈ [' '] := List.mem_singleton_self _
    refine ⟨version,
      requestTokens_eq_some.mpr ⟨gap ++ (target ++ ' ' :: (ends ++ (version ++ rest))),
      ends ++ (version ++ rest), rest.drop 1,
      strtok_eq_some_iff.mpr ⟨pad, _, rfl, forall_mem_space.mpr hpad, hmethod,
        forall_notMem_space.mpr hm, .inr ⟨' ', hspace, rfl⟩⟩,
      strtok_eq_some_iff.mpr ⟨gap, _, rfl, forall_mem_space.mpr hgap, htarget,
        forall_notMem_space.mpr ht, .inr ⟨' ', hspace, rfl⟩⟩,
      strtok_eq_some_iff.mpr ⟨ends, rest, rfl, hends, hversion.ne_nil, hv, ?_⟩⟩, hversion⟩
    cases rest with
    | nil => exact .inl ⟨rfl, rfl⟩
    | cons e rest => exact .inr ⟨e, hrest e rfl, rfl⟩

/-! ## What is accepted and stored -/

/-- The parse succeeds and stores these members. -/
def ParsesTo (requestLine headersBlock : Str) (method : HttpMethod) (target : Str)
    (major minor : Int) : Prop :=
  ∃ request, parseHttpRequest requestLine headersBlock .uninit = .ret (true, request) ∧
    request.method = some method ∧ request.target = some target ∧
    request.httpMajor = some major ∧ request.httpMinor = some minor

theorem parsesTo_iff_parseRequest {requestLine headersBlock target : Str} {method : HttpMethod}
    {major minor : Int} :
    ParsesTo requestLine headersBlock method target major minor ↔
      ∃ q, parseRequest requestLine headersBlock = some q ∧ q.method = method ∧
        q.target = target ∧ q.major = major ∧ q.minor = minor := by
  constructor
  · rintro ⟨request, hparse, hmethod, htarget, hmajor, hminor⟩
    cases hq : parseRequest requestLine headersBlock with
    | none =>
        obtain ⟨request', -, hfail⟩ := parseHttpRequest_of_none .uninit hq
        cases hparse.symm.trans hfail
    | some q =>
        obtain ⟨store, -, hfilled⟩ := parseHttpRequest_of_some .uninit hq
        cases hparse.symm.trans hfilled
        exact ⟨q, rfl, Option.some.inj hmethod, Option.some.inj htarget, Option.some.inj hmajor,
          Option.some.inj hminor⟩
  · rintro ⟨q, hq, rfl, rfl, rfl, rfl⟩
    obtain ⟨store, -, hfilled⟩ := parseHttpRequest_of_some .uninit hq
    exact ⟨_, hfilled, rfl, rfl, rfl, rfl⟩

/-- The request of a line that is read has the parts of the line as its members. -/
theorem exists_parseRequest_iff {stream requestLine headersBlock unread target : Str}
    {method : HttpMethod} {major minor : Int}
    (hread : readRequest stream = some (requestLine, headersBlock, unread)) :
    (∃ q, parseRequest requestLine headersBlock = some q ∧ q.method = method ∧
        q.target = target ∧ q.major = major ∧ q.minor = minor) ↔
      ∃ token, IsRequestLine requestLine token target major minor ∧ method = methodOf token := by
  -- the target is never cut, since the line buffer is the smaller one
  have hwhole : ∀ {m t v : Str}, requestTokens requestLine = some (m, t, v) →
      t.take (maxTargetSize - 1) = t := fun ht => by
    have hlen := (requestTokens_target ht).length_le
    have hline := readRequest_length hread
    refine List.take_of_length_le ?_
    simp only [maxTargetSize]
    omega
  constructor
  · rintro ⟨q, hq, rfl, rfl, rfl, rfl⟩
    obtain ⟨m, t, v, major, minor, htokens, hv, rfl⟩ := parseRequest_eq_some.mp hq
    refine ⟨m, ?_, rfl⟩
    simp only [hwhole htokens]
    exact requestTokens_iff.mp ⟨v, htokens, sscanfVersion_eq_some_iff.mp hv⟩
  · rintro ⟨token, hline, rfl⟩
    obtain ⟨v, htokens, hversion⟩ := requestTokens_iff.mpr hline
    exact ⟨_, parseRequest_eq_some.mpr ⟨token, target, v, major, minor, htokens,
      sscanfVersion_eq_some_iff.mpr hversion, rfl⟩, rfl, hwhole htokens, rfl, rfl⟩

/-- A request line that is read is accepted if and only if it is a line of the
grammar, and the members that are stored are its parts. -/
theorem parsesTo_iff {stream requestLine headersBlock unread target : Str} {method : HttpMethod}
    {major minor : Int}
    (hread : readRequest stream = some (requestLine, headersBlock, unread)) :
    ParsesTo requestLine headersBlock method target major minor ↔
      ∃ token, IsRequestLine requestLine token target major minor ∧ NamesMethod token method := by
  simp only [namesMethod_iff]
  exact parsesTo_iff_parseRequest.trans (exists_parseRequest_iff hread)

/-- Two separators, a sign and a blank are accepted, and the number wraps. -/
theorem parsesTo_lenient :
    ParsesTo " GET  /a HTTP/+1. 4294967297 x\n".toList [] .get "/a".toList 1 1 := by
  have hread : readRequest " GET  /a HTTP/+1. 4294967297 x\n".toList =
      some (" GET  /a HTTP/+1. 4294967297 x\n".toList, [], []) := by decide
  have hmajor : Numeral ['+', '1'] 1 :=
    ⟨[], ['+'], ['1'], rfl, by simp, by decide, by decide, by simp, by decide⟩
  have hminor : Numeral (' ' :: "4294967297".toList) 1 :=
    ⟨[' '], [], "4294967297".toList, rfl, by simp [isSpace], by decide, by decide, by simp,
      by decide⟩
  exact (parsesTo_iff hread).mpr ⟨"GET".toList,
    ⟨[' '], [' '], [], "HTTP/+1. 4294967297 x".toList, ['\n'], rfl, by simp, by decide,
      by decide, by simp, by decide, by decide, by simp, by simp [lineEnds], by simp [lineEnds],
      _, _, [' ', 'x'], rfl, hmajor, hminor, by simp⟩, .get⟩

/-! ## The strict grammar -/

/-- A text of digits. -/
def IsDigits (s : Str) : Prop := s ≠ [] ∧ ∀ c ∈ s, c.isDigit = true

/-- A line with single separators, plain digits and nothing behind them but a line end. -/
def StrictRequestLine (line method target major minor : Str) : Prop :=
  ∃ ends, line = method ++ ' ' :: (target ++ ' ' ::
      ("HTTP/".toList ++ (major ++ '.' :: (minor ++ ends)))) ∧
    (method ≠ [] ∧ ' ' ∉ method) ∧ (target ≠ [] ∧ ' ' ∉ target) ∧ IsDigits major ∧
    IsDigits minor ∧ (ends = "\r\n".toList ∨ ends = "\n".toList ∨ ends = [])

/-- The number `%d` stores for a text of digits. -/
def digitsInt (digits : Str) : Int := toInt32 (saturate64 (Nat.ofDigitChars 10 digits 0))

theorem IsDigits.numeral {s : Str} (h : IsDigits s) : Numeral s (digitsInt s) :=
  ⟨[], [], s, rfl, by simp, .inl rfl, h.1, h.2, rfl⟩

theorem IsDigits.not_lineEnd {s : Str} (h : IsDigits s) : ∀ c ∈ s, c ∉ lineEnds := by
  intro c hc hmem
  have hdigit := h.2 c hc
  rcases List.mem_cons.mp hmem with rfl | hmem
  · exact absurd hdigit (by decide)
  · rw [List.mem_singleton.mp hmem] at hdigit
    exact absurd hdigit (by decide)

/-- A strict line is a line of the grammar. -/
theorem StrictRequestLine.isRequestLine {line method target major minor : Str}
    (h : StrictRequestLine line method target major minor) :
    IsRequestLine line method target (digitsInt major) (digitsInt minor) := by
  obtain ⟨ends, rfl, ⟨hm, hm'⟩, ⟨ht, ht'⟩, hmajor, hminor, hends⟩ := h
  refine ⟨[], [], [], "HTTP/".toList ++ (major ++ '.' :: minor), ends, by simp, by simp, hm, hm',
    by simp, ht, ht', by simp, fun c hc => ?_, fun c hc => ?_,
    major, minor, [], by simp, hmajor.numeral, hminor.numeral, by simp⟩
  · simp only [List.mem_append, List.mem_cons] at hc
    rcases hc with hc | hc | rfl | hc
    · simp only [String.reduceToList, List.mem_cons, List.not_mem_nil, or_false] at hc
      rcases hc with rfl | rfl | rfl | rfl | rfl <;> decide
    · exact hmajor.not_lineEnd c hc
    · decide
    · exact hminor.not_lineEnd c hc
  · rcases hends with rfl | rfl | rfl <;> cases hc <;> decide

/-- The parser accepts lines that are not strict. -/
theorem not_parse_strict :
    ¬ ∀ stream requestLine headersBlock unread method target major minor,
      readRequest stream = some (requestLine, headersBlock, unread) →
      ParsesTo requestLine headersBlock method target major minor →
        ∃ m t a b, StrictRequestLine requestLine m t a b := by
  intro h
  have hparse : ParsesTo "GET / HTTP/1.1x".toList [] .get "/".toList 1 1 :=
    parsesTo_iff_parseRequest.mpr
      ⟨⟨.get, 1, 1, "/".toList, []⟩, by decide, rfl, rfl, rfl, rfl⟩
  obtain ⟨m, t, a, b, ends, hline, -, -, -, ⟨hne, hdigits⟩, hends⟩ :=
    h "GET / HTTP/1.1x".toList _ _ [] _ _ _ _ (by decide) hparse
  obtain ⟨front, hfront⟩ : ∃ front, "GET / HTTP/1.1x".toList = front ++ (b ++ ends) :=
    ⟨m ++ ' ' :: (t ++ ' ' :: ("HTTP/".toList ++ (a ++ ['.']))), by rw [hline]; simp⟩
  have hlast : (b ++ ends).getLast? = some 'x' := by
    rw [← List.getLast?_append_of_ne_nil front (by simp [hne]), ← hfront]
    rfl
  rcases hends with rfl | rfl | rfl
  · rw [List.getLast?_append_of_ne_nil _ (by decide)] at hlast
    exact absurd hlast (by decide)
  · rw [List.getLast?_append_of_ne_nil _ (by decide)] at hlast
    exact absurd hlast (by decide)
  · rw [List.append_nil] at hlast
    exact absurd (hdigits 'x' (List.mem_of_getLast? hlast)) (by decide)

end Pawnee
