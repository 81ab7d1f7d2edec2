import Pawnee.Child.HeaderLines

/-!
# Requests that are written and read back

`requestLineText` and `headersText` write a request the way a client does.
`parse_written` says that the parser reads every member back.  The tokens must
not hold a byte that separates them, and a value may hold colons, spaces and
tabs behind its first byte.
-/

namespace Pawnee

open CText Effects

/-- The request line of a client. -/
def requestLineText (method target : Str) (major minor : Nat) : Str :=
  method ++ ' ' :: (target ++ ' ' ::
    ("HTTP/".toList ++ (decimal major ++ ['.'] ++ decimal minor) ++ ['\r', '\n']))

/-- A header line of a client. -/
def HttpHeader.text (h : HttpHeader) : Str := h.name ++ ':' :: ' ' :: h.value ++ ['\r', '\n']

/-- The header block of a client. -/
def headersText (headers : List HttpHeader) : Str := (headers.map HttpHeader.text).flatten

/-- A token of the request line: not empty, and no byte that ends it. -/
structure IsToken (s : Str) : Prop where
  ne_nil : s ≠ []
  no_space : ' ' ∉ s
  no_cr : '\r' ∉ s
  no_lf : '\n' ∉ s

/-- A header that can be read back. -/
structure HttpHeader.Written (h : HttpHeader) : Prop where
  name_ne : h.name ≠ []
  /-- No byte of the name ends it. -/
  name_bytes : ∀ c ∈ h.name, c ≠ ':' ∧ c ≠ ' ' ∧ c ≠ '\t' ∧ c ≠ '\r' ∧ c ≠ '\n'
  value_ne : h.value ≠ []
  value_bytes : ∀ c ∈ h.value, c ≠ '\r' ∧ c ≠ '\n'
  /-- The value does not start with a blank. -/
  value_head : ∀ c ∈ h.value.head?, c ≠ ' ' ∧ c ≠ '\t'

/-! ## The request line -/

/-- A version is scanned as it is printed. -/
theorem sscanfVersion_print {major minor : Nat} (h1 : major < 2147483648)
    (h2 : minor < 2147483648) :
    sscanfVersion ("HTTP/".toList ++ (decimal major ++ ['.'] ++ decimal minor)) =
      (some (major : Int), some (minor : Int)) := by
  have hmajor : scanInt (decimal major ++ (['.'] ++ decimal minor)) = _ :=
    scanInt_decimal h1 (by simp)
  have hminor : scanInt (decimal minor ++ []) = _ := scanInt_decimal h2 (by simp)
  rw [List.append_nil] at hminor
  simp only [sscanfVersion, scanLiteral_append, List.append_assoc, hmajor, hminor]
  rfl

/-- The tokens of a written request line. -/
theorem requestTokens_written {method target : Str} (hm : IsToken method) (ht : IsToken target)
    (major minor : Nat) :
    requestTokens (requestLineText method target major minor) =
      some (method, target, "HTTP/".toList ++ (decimal major ++ ['.'] ++ decimal minor)) := by
  have hversion : ∀ c ∈ "HTTP/".toList ++ (decimal major ++ ['.'] ++ decimal minor),
      c ∉ ['\r', '\n'] := by
    have hprefix : ∀ c ∈ "HTTP/".toList, c ∉ ['\r', '\n'] := by simp
    intro c hc hmem
    simp only [List.mem_append, List.mem_singleton] at hc
    have hdigit : ∀ n, c ∉ decimal n := by
      intro n hd
      simp only [List.mem_cons, List.not_mem_nil, or_false] at hmem
      rcases hmem with rfl | rfl
      · exact notMem_decimal (by decide) hd
      · exact notMem_decimal (by decide) hd
    rcases hc with hc | (hc | rfl) | hc
    · exact hprefix c hc hmem
    · exact hdigit _ hc
    · exact absurd hmem (by decide)
    · exact hdigit _ hc
  refine requestTokens_eq_some.mpr ⟨_, _, ['\n'], strtok_token hm.ne_nil ?_ (by simp),
    strtok_token ht.ne_nil ?_ (by simp), strtok_token (by simp) hversion (by simp)⟩
  · intro c hc hmem
    rw [List.mem_singleton] at hmem
    exact hm.no_space (hmem ▸ hc)
  · intro c hc hmem
    rw [List.mem_singleton] at hmem
    exact ht.no_space (hmem ▸ hc)

/-! ## The header block -/

/-- A written header line is read as its header. -/
theorem HttpHeader.Written.readsAs {h : HttpHeader} (hw : h.Written) :
    ReadsAs (h.name ++ ':' :: ' ' :: h.value) h.name h.value where
  text := ⟨[], [], [' '], rfl, nofun, by simp [Blank, isBlank], by simp, by simp⟩
  name_ne := hw.name_ne
  name_bytes c hc := by
    obtain ⟨hcolon, hspace, htab, -⟩ := hw.name_bytes c hc
    exact ⟨hcolon, by simp [isBlank, hspace, htab]⟩
  value_ne := hw.value_ne
  value_head c hc := by
    obtain ⟨hspace, htab⟩ := hw.value_head c hc
    simp [isBlank, hspace, htab]

/-- The first line of a written block, and the block behind it. -/
theorem strtokAll_headersText {h : HttpHeader} (hw : h.Written) (headers : List HttpHeader) :
    strtokAll ['\r', '\n'] (headersText (h :: headers)) =
      (h.name ++ ':' :: ' ' :: h.value) :: strtokAll ['\r', '\n'] (headersText headers) := by
  have hbytes : ∀ c ∈ h.name ++ ':' :: ' ' :: h.value, c ∉ ['\r', '\n'] := by
    intro c hc
    simp only [List.mem_append, List.mem_cons] at hc
    rcases hc with hc | rfl | rfl | hc
    · obtain ⟨-, -, -, h1, h2⟩ := hw.name_bytes c hc
      simp [h1, h2]
    · decide
    · decide
    · obtain ⟨h1, h2⟩ := hw.value_bytes c hc
      simp [h1, h2]
  have hcut : strtok ['\r', '\n'] (headersText (h :: headers)) =
      (some (h.name ++ ':' :: ' ' :: h.value), ['\n'] ++ headersText headers) := by
    have htext : headersText (h :: headers) =
        (h.name ++ ':' :: ' ' :: h.value) ++ '\r' :: (['\n'] ++ headersText headers) := by
      simp [headersText, HttpHeader.text]
    rw [htext]
    exact strtok_token (by simp) hbytes (by simp)
  rw [strtokAll_some hcut, strtokAll_skip (by simp)]

/-- A written block is read as its headers. -/
theorem headersOf_written {headers : List HttpHeader} (hw : ∀ h ∈ headers, h.Written) :
    headersOf (strtokAll ['\r', '\n'] (headersText headers)) = headers := by
  induction headers with
  | nil => rfl
  | cons h headers ih =>
      have hh := hw h List.mem_cons_self
      rw [strtokAll_headersText hh, headersOf, hh.readsAs.readHeaderLine]
      simp only [ih fun x hx => hw x (List.mem_cons_of_mem _ hx)]

/-- A written request is accepted, and every member is read back as it was
written, whatever was in the struct. -/
theorem parse_written {method target : Str} {major minor : Nat} {headers : List HttpHeader}
    (request : HttpRequest) (hm : IsToken method) (ht : IsToken target)
    (hline : (requestLineText method target major minor).length ≤ 1023)
    (hmajor : major < 2147483648) (hminor : minor < 2147483648)
    (hw : ∀ h ∈ headers, h.Written) :
    ∃ stored store, NamesMethod method stored ∧ Holds store headers ∧
      parseHttpRequest (requestLineText method target major minor) (headersText headers) request =
        .ret (true, ⟨some stored, some major, some minor, some target, some store⟩) := by
  have htarget : target.take (maxTargetSize - 1) = target := by
    refine List.take_of_length_le ?_
    simp only [requestLineText, List.length_append, List.length_cons] at hline
    simp only [maxTargetSize]
    omega
  have hread : parseRequest (requestLineText method target major minor) (headersText headers) =
      some ⟨methodOf method, major, minor, target, headers⟩ :=
    parseRequest_eq_some.mpr ⟨method, target, _, major, minor,
      requestTokens_written hm ht major minor, sscanfVersion_print hmajor hminor,
      by rw [htarget, headersOf_written hw]⟩
  obtain ⟨store, hstore, hparse⟩ := parseHttpRequest_of_some request hread
  exact ⟨_, store, namesMethod_iff.mpr rfl, hstore, hparse⟩

/-- A request with a value that holds a colon and spaces. -/
theorem parse_written_agent :
    ∃ store, Holds store [⟨"User-Agent".toList, "a: b c".toList⟩] ∧
      parseHttpRequest (requestLineText "GET".toList "/?x".toList 1 1)
          (headersText [⟨"User-Agent".toList, "a: b c".toList⟩]) .uninit =
        .ret (true, ⟨some .get, some (1 : Nat), some (1 : Nat), some "/?x".toList,
          some store⟩) := by
  have hwritten : ∀ h ∈ [(⟨"User-Agent".toList, "a: b c".toList⟩ : HttpHeader)], h.Written := by
    intro h hh
    rw [List.mem_singleton] at hh
    subst hh
    exact ⟨by decide, by simp, by decide, by simp, by simp⟩
  obtain ⟨stored, store, hnames, hstore, hparse⟩ :=
    @parse_written "GET".toList "/?x".toList 1 1 _ .uninit
      ⟨by decide, by decide, by decide, by decide⟩ ⟨by decide, by decide, by decide, by decide⟩
      (by decide) (by decide) (by decide) hwritten
  cases hnames with
  | get => exact ⟨store, hstore, hparse⟩
  | other hget => exact absurd rfl hget

end Pawnee
