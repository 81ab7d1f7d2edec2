import Pawnee.Child.Reading
import Pawnee.Child.RoundTrip

/-!
# Requests one behind the other

A client can send any number of requests on one connection before it reads an
answer (`SentRequest`).  The child takes its line and its block from the first of
them, whatever follows (`exists_readRequest_text`), so its course is that of the
first request (`course_text`).

A request line of any length can be sent.  `fgets` cuts a long one, but what is
left of it is never read as another version (`parsed_version`).
-/

namespace Pawnee

open CText Effects

/-! ## Requests -/

/-- A complete HTTP/1.1 request without a body. -/
structure SentRequest where
  method : Str
  target : Str
  /-- The header lines, with their line ends. -/
  lines : List Str
  isToken_method : IsToken method
  isToken_target : IsToken target
  isLine : ∀ l ∈ lines, IsLine l
  not_empty : ∀ l ∈ lines, isEndOfHeaders l = false

/-- Its first line. -/
def SentRequest.requestLine (r : SentRequest) : Str := requestLineText r.method r.target 1 1

/-- Its bytes. -/
def SentRequest.text (r : SentRequest) : Str :=
  (r.requestLine :: r.lines).flatten ++ "\r\n".toList

/-- What the child makes of it. -/
def SentRequest.parsed (r : SentRequest) : Option Request :=
  match readRequest r.text with
  | none => none
  | some (requestLine, headersBlock, _) => parseRequest requestLine headersBlock

theorem SentRequest.isLine_requestLine (r : SentRequest) : IsLine r.requestLine := by
  have hlf : ∀ n, '\n' ∉ decimal n := fun n => notMem_decimal (by decide)
  refine ⟨r.method ++ ' ' :: (r.target ++ ' ' ::
    ("HTTP/".toList ++ (decimal 1 ++ ['.'] ++ decimal 1) ++ ['\r'])), ?_, ?_⟩
  · simp [r.isToken_method.no_lf, r.isToken_target.no_lf, hlf]
  · simp [SentRequest.requestLine, requestLineText]

/-! ## The first request -/

/-- The request that is read, in the pieces `fgets` stores of the stream. -/
theorem readRequest_pieces {stream piece : Str} {pieces : List Str}
    (h : fgetsAll lineSize stream = piece :: pieces) :
    readRequest stream = some (cstr piece, (readHeaders [] pieces).1,
      (readHeaders [] pieces).2.flatten) := by
  unfold readRequest
  cases hfirst : fgets lineSize stream with
  | none =>
      rw [fgetsAll, readAll_none hfirst] at h
      cases h
  | some p =>
      obtain ⟨line, rest⟩ := p
      rw [fgetsAll, readAll_some (fgets_shortens (by decide)) hfirst] at h
      obtain ⟨rfl, rfl⟩ := List.cons.inj h
      rfl

/-- What is behind an empty line is not in the block. -/
theorem readHeaders_behind {emptyLine : Str} (hempty : isEndOfHeaders emptyLine = true)
    (rest rest' : List Str) : ∀ (pieces : List Str) (block : Str),
      (readHeaders block (pieces ++ emptyLine :: rest)).1 =
        (readHeaders block (pieces ++ emptyLine :: rest')).1
  | [], block => by
      have hnul : '\x00' ∉ emptyLine := by
        rcases isEndOfHeaders_iff.mp hempty with rfl | rfl <;> decide
      simp [readHeaders, cstr_eq_self hnul, hempty]
  | piece :: pieces, block => by
      simp only [List.cons_append, readHeaders]
      split
      · rfl
      · exact readHeaders_behind hempty rest rest' pieces _

/-- The line and the block are read from the first request, whatever follows it. -/
theorem SentRequest.exists_readRequest_text (r : SentRequest) :
    ∃ requestLine headersBlock, requestLine <+: r.requestLine ∧
      ∀ s, ∃ unread, readRequest (r.text ++ s) = some (requestLine, headersBlock, unread) := by
  have hempty : isEndOfHeaders "\r\n".toList = true := by decide
  have hlines : ∀ l ∈ r.requestLine :: r.lines, IsLine l := by
    intro l hl
    rcases List.mem_cons.mp hl with rfl | hl
    · exact r.isLine_requestLine
    · exact r.isLine l hl
  obtain ⟨piece, pieces, hpieces⟩ := List.exists_cons_of_ne_nil
    (show freadAll 1023 r.requestLine ≠ [] from fun hnil => by
      have hflat := flatten_freadAll (n := 1023) (by decide) r.requestLine
      rw [hnil] at hflat
      exact r.isLine_requestLine.ne_nil hflat.symm)
  have hall : ∀ s, fgetsAll lineSize (r.text ++ s) =
      piece :: ((pieces ++ r.lines.flatMap (freadAll 1023)) ++
        "\r\n".toList :: fgetsAll lineSize s) := by
    intro s
    rw [SentRequest.text, List.append_assoc, fgetsAll_lines hlines,
      fgetsAll_line (by decide) (isLine_of_endOfHeaders hempty)]
    have hone : freadAll (lineSize - 1) "\r\n".toList = ["\r\n".toList] :=
      freadAll_endOfHeaders hempty
    rw [hone, List.flatMap_cons, hpieces]
    simp
  refine ⟨cstr piece, (readHeaders [] ((pieces ++ r.lines.flatMap (freadAll 1023)) ++
    ["\r\n".toList])).1, ?_, fun s => ?_⟩
  · have hflat := flatten_freadAll (n := 1023) (by decide) r.requestLine
    rw [hpieces, List.flatten_cons] at hflat
    exact (List.takeWhile_prefix _).trans ⟨_, hflat⟩
  · have hread := readRequest_pieces (hall s)
    rw [readHeaders_behind hempty (fgetsAll lineSize s) []] at hread
    exact ⟨_, hread⟩

theorem SentRequest.exists_readRequest (r : SentRequest) :
    ∃ requestLine headersBlock unread, requestLine <+: r.requestLine ∧
      readRequest r.text = some (requestLine, headersBlock, unread) := by
  obtain ⟨requestLine, headersBlock, hpart, hread⟩ := r.exists_readRequest_text
  obtain ⟨unread, hnil⟩ := hread []
  rw [List.append_nil] at hnil
  exact ⟨requestLine, headersBlock, unread, hpart, hnil⟩

/-- What a child does for the request alone. -/
def SentRequest.alone (env : Env) (r : SentRequest) : Course := course env (some r.text)

/-- What it does for a stream of requests is what it does for the first of them. -/
theorem SentRequest.course_text (r : SentRequest) (env : Env) (s : Str) :
    course env (some (r.text ++ s)) = r.alone env := by
  obtain ⟨requestLine, headersBlock, -, hread⟩ := r.exists_readRequest_text
  obtain ⟨unread, hs⟩ := hread s
  obtain ⟨unread', hnil⟩ := hread []
  rw [List.append_nil] at hnil
  simp only [SentRequest.alone, course, hs, hnil]

theorem SentRequest.alone_of_parsed {r : SentRequest} {q : Request} (h : r.parsed = some q)
    (env : Env) : r.alone env = q.course env := by
  obtain ⟨requestLine, headersBlock, unread, -, hread⟩ := r.exists_readRequest
  simp only [SentRequest.parsed, hread] at h
  simp only [SentRequest.alone, course, hread, h]

theorem SentRequest.alone_of_rejected {r : SentRequest} (h : r.parsed = none) (env : Env) :
    r.alone env = .dies [] (.fault .unsetField) := by
  obtain ⟨requestLine, headersBlock, unread, -, hread⟩ := r.exists_readRequest
  simp only [SentRequest.parsed, hread] at h
  simp only [SentRequest.alone, course, hread, h]

/-! ## Its version -/

/-- Of a text that is cut behind its first token, `strtok` leaves what is behind
the token. -/
theorem strtok_rest {line token behind a rest : Str} (htoken : IsToken token)
    (hline : line <+: token ++ ' ' :: behind) (hcut : strtok [' '] line = (some a, rest))
    (hrest : rest ≠ []) : rest <+: behind := by
  obtain ⟨lead, after, rfl, hlead, hne, ha, hafter⟩ := strtok_eq_some_iff.mp hcut
  obtain ⟨z, hz⟩ := hline
  have hlead : lead = [] := by
    cases lead with
    | nil => rfl
    | cons c lead =>
        obtain ⟨c', token', rfl⟩ := List.exists_cons_of_ne_nil htoken.ne_nil
        have hc : c = ' ' := List.mem_singleton.mp (hlead c List.mem_cons_self)
        have hhead : c = c' := (List.cons.inj hz).1
        exact absurd (by rw [← hhead, hc]; exact List.mem_cons_self) htoken.no_space
  subst hlead
  rcases hafter with ⟨-, rfl⟩ | ⟨d, hd, rfl⟩
  · exact absurd rfl hrest
  · obtain rfl := List.mem_singleton.mp hd
    have hnot : ' ' ∉ a := fun hmem => ha ' ' hmem (List.mem_singleton_self _)
    have hz' : a ++ ' ' :: (rest ++ z) = token ++ ' ' :: behind := by simpa using hz
    exact ⟨z, (cut_unique hnot htoken.no_space hz').2⟩

/-- No part of the version text is read as another version. -/
theorem sscanfVersion_part {version : Str} (h : version <+: "HTTP/1.1\r\n".toList)
    {major minor : Int} (hv : sscanfVersion version = (some major, some minor)) :
    major = 1 ∧ minor = 1 := by
  have hall : ∀ n < 11, sscanfVersion ("HTTP/1.1\r\n".toList.take n) = (some 1, some 1) ∨
      (sscanfVersion ("HTTP/1.1\r\n".toList.take n)).2 = none := by decide +kernel
  have hlen : version.length < 11 := Nat.lt_succ_of_le h.length_le
  have hpart := hall version.length hlen
  rw [← List.prefix_iff_eq_take.mp h, hv] at hpart
  rcases hpart with heq | hnone
  · cases heq
    exact ⟨rfl, rfl⟩
  · cases hnone

theorem SentRequest.parsed_version {r : SentRequest} {q : Request} (h : r.parsed = some q) :
    q.major = 1 ∧ q.minor = 1 := by
  obtain ⟨requestLine, headersBlock, unread, hpart, hread⟩ := r.exists_readRequest
  simp only [SentRequest.parsed, hread] at h
  obtain ⟨m, t, v, major, minor, htokens, hv, rfl⟩ := parseRequest_eq_some.mp h
  obtain ⟨r₁, r₂, r₃, h₁, h₂, h₃⟩ := requestTokens_eq_some.mp htokens
  have hne : ∀ {delims rest : Str} {a : Str} {rest' : Str}, strtok delims rest = (some a, rest') →
      rest ≠ [] := by
    rintro delims _ a rest' hcut rfl
    cases hcut
  have h₁' := strtok_rest r.isToken_method hpart h₁ (hne h₂)
  have h₂' := strtok_rest r.isToken_target h₁' h₂ (hne h₃)
  have hversion : "HTTP/".toList ++ (decimal 1 ++ ['.'] ++ decimal 1) ++ ['\r', '\n'] =
      "HTTP/1.1\r\n".toList := by decide +kernel
  rw [hversion] at h₂'
  obtain ⟨lead, after, rfl, hlead, -, -, -⟩ := strtok_eq_some_iff.mp h₃
  have hlead : lead = [] := by
    cases lead with
    | nil => rfl
    | cons c lead =>
        obtain ⟨z, hz⟩ := h₂'
        have hc : c = 'H' := (List.cons.inj hz).1
        have hend := hlead c List.mem_cons_self
        simp [hc] at hend
  subst hlead
  exact sscanfVersion_part ((List.prefix_append v after).trans h₂') hv

end Pawnee
