import Pawnee.Source.HttpHeaders

/-!
# Parsing a request (`http_parse.c`)

`parseHttpRequest` gets the request line and the header block as C strings and
the `http_request` to fill.  A member of the struct is `none` until something is
written to it, so the two failure exits leave what they have not written.

`parseRequest` is the request the parse reads, with the headers as a list, and
`none` for what it rejects.  The parse never faults: it fills in that request and
returns 1 (`parseHttpRequest_of_some`), or it leaves the headers as they were and
returns 0 (`parseHttpRequest_of_none`).
-/

namespace Pawnee

open CText Effects

/-- `http_request`.  A member that nothing has written is `none`. -/
structure HttpRequest where
  method : Option HttpMethod
  httpMajor : Option Int
  httpMinor : Option Int
  target : Option Str
  headers : Option HttpHeaders
deriving DecidableEq, Repr

/-- The local variable `request` of `respond_client` before the parse. -/
def HttpRequest.uninit : HttpRequest := ⟨none, none, none, none, none⟩

/-- `MAX_TARGET_SIZE`. -/
def maxTargetSize : Nat := 2048

/-- The method a token names. -/
def methodOf (token : Str) : HttpMethod :=
  if token = "GET".toList then .get
  else if token = "HEAD".toList then .head
  else .unsupported

/-- What a method token stands for: `GET`, `HEAD`, or any other. -/
inductive NamesMethod : Str → HttpMethod → Prop
  | get : NamesMethod ['G', 'E', 'T'] .get
  | head : NamesMethod ['H', 'E', 'A', 'D'] .head
  | other {token : Str} : token ≠ ['G', 'E', 'T'] → token ≠ ['H', 'E', 'A', 'D'] →
      NamesMethod token .unsupported

/-- The parser takes a token for the method it stands for. -/
theorem namesMethod_iff {token : Str} {method : HttpMethod} :
    NamesMethod token method ↔ method = methodOf token := by
  constructor
  · intro h
    cases h with
    | get => rfl
    | head => rfl
    | other hget hhead => exact ((if_neg hget).trans (if_neg hhead)).symm
  · rintro rfl
    by_cases hget : token = "GET".toList
    · subst hget
      exact .get
    by_cases hhead : token = "HEAD".toList
    · subst hhead
      exact .head
    rw [methodOf, if_neg hget, if_neg hhead]
    exact .other hget hhead

/-- `sscanf(version, "HTTP/%d.%d", &major, &minor)`: the numbers it stores. -/
def sscanfVersion (version : Str) : Option Int × Option Int :=
  match scanLiteral "HTTP/".toList version with
  | none => (none, none)
  | some s =>
      match scanInt s with
      | none => (none, none)
      | some (major, s) =>
          match scanLiteral ['.'] s with
          | none => (some major, none)
          | some s => (some major, (scanInt s).map Prod.fst)

/-- A space or a tab. -/
def isBlank (c : Char) : Bool := c = ' ' ∨ c = '\t'

/-- What one pass of the header loop does with its line. -/
inductive HeaderLine where
  /-- Only blanks: the loop ends. -/
  | blank
  /-- No colon, no name or no value: the line is passed over. -/
  | ignored
  | header (name value : Str)
deriving DecidableEq, Repr

/-- The body of the header loop. -/
def readHeaderLine (line : Str) : HeaderLine :=
  let line := line.dropWhile isBlank
  if line = [] then .blank
  else
    match line.dropWhile (· ≠ ':') with
    | [] => .ignored
    | _ :: value =>
        let name := (line.takeWhile (· ≠ ':')).takeWhile (fun c => !isBlank c)
        let value := value.dropWhile isBlank
        if name ≠ [] ∧ value ≠ [] then .header name value else .ignored

/-- The header loop over the lines `strtok` cuts. -/
def parseHeaderLines : List Str → HttpHeaders → Server HttpHeaders
  | [], h => pure h
  | line :: lines, h =>
      match readHeaderLine line with
      | .blank => pure h
      | .ignored => parseHeaderLines lines h
      | .header name value => do
          let h ← addHeader h name value
          parseHeaderLines lines h

/-- `parse_http_request`: the result, and the request as it is left. -/
def parseHttpRequest (requestLine headersBlock : Str) (request : HttpRequest) :
    Server (Bool × HttpRequest) :=
  let (method, rest) := strtok [' '] requestLine
  let (target, rest) := strtok [' '] rest
  let (version, _) := strtok ['\r', '\n'] rest
  match method, target, version with
  | some method, some target, some version =>
      let (major, minor) := sscanfVersion version
      let request := { request with
        method := some (methodOf method)
        target := some (target.take (maxTargetSize - 1))
        httpMajor := major <|> request.httpMajor
        httpMinor := minor <|> request.httpMinor }
      if major = none ∨ minor = none then pure (false, request)
      else do
        let headers ← parseHeaderLines (strtokAll ['\r', '\n'] headersBlock) initHeaders
        pure (true, { request with headers := some headers })
  | _, _, _ => pure (false, request)

/-! ## What the parse leaves -/

/-- The headers of a list of lines. -/
def headersOf : List Str → List HttpHeader
  | [] => []
  | line :: lines =>
      match readHeaderLine line with
      | .blank => []
      | .ignored => headersOf lines
      | .header name value => ⟨name, value⟩ :: headersOf lines

/-- The header loop adds the headers of its lines, in order. -/
theorem parseHeaderLines_holds : ∀ (lines : List Str) {h : HttpHeaders} {l : List HttpHeader},
    Holds h l → ∃ h', parseHeaderLines lines h = .ret h' ∧ Holds h' (l ++ headersOf lines)
  | [], h, l, hl => ⟨h, rfl, by simpa [headersOf] using hl⟩
  | line :: lines, h, l, hl => by
      simp only [parseHeaderLines, headersOf]
      cases readHeaderLine line with
      | blank => exact ⟨h, rfl, by simpa using hl⟩
      | ignored => exact parseHeaderLines_holds lines hl
      | header name value =>
          obtain ⟨h₁, hadd, hl₁⟩ := addHeader_holds hl name value
          obtain ⟨h₂, hrest, hl₂⟩ := parseHeaderLines_holds lines hl₁
          refine ⟨h₂, ?_, by simpa using hl₂⟩
          simp only [hadd, Prog.ret_bind, hrest]

/-- The three tokens of a request line, if it has them. -/
def requestTokens (requestLine : Str) : Option (Str × Str × Str) :=
  let (method, rest) := strtok [' '] requestLine
  let (target, rest) := strtok [' '] rest
  let (version, _) := strtok ['\r', '\n'] rest
  match method, target, version with
  | some method, some target, some version => some (method, target, version)
  | _, _, _ => none

/-- A request that has been read. -/
structure Request where
  method : HttpMethod
  major : Int
  minor : Int
  target : Str
  headers : List HttpHeader
deriving DecidableEq, Repr

/-- The request the parse reads, `none` if it returns 0. -/
def parseRequest (requestLine headersBlock : Str) : Option Request :=
  match requestTokens requestLine with
  | none => none
  | some (method, target, version) =>
      match sscanfVersion version with
      | (some major, some minor) =>
          some
            { method := methodOf method
              major, minor
              target := target.take (maxTargetSize - 1)
              headers := headersOf (strtokAll ['\r', '\n'] headersBlock) }
      | _ => none

/-- The struct all of whose members are set to those of a request. -/
def Request.filled (q : Request) (store : HttpHeaders) : HttpRequest :=
  ⟨some q.method, some q.major, some q.minor, some q.target, some store⟩

theorem requestTokens_eq_some {requestLine method target version : Str} :
    requestTokens requestLine = some (method, target, version) ↔
      ∃ r₁ r₂ r₃, strtok [' '] requestLine = (some method, r₁) ∧
        strtok [' '] r₁ = (some target, r₂) ∧ strtok ['\r', '\n'] r₂ = (some version, r₃) := by
  rcases h1 : strtok [' '] requestLine with ⟨m, r₁⟩
  rcases h2 : strtok [' '] r₁ with ⟨t, r₂⟩
  rcases h3 : strtok ['\r', '\n'] r₂ with ⟨v, r₃⟩
  constructor
  · intro h
    simp only [requestTokens, h1, h2, h3] at h
    cases m <;> cases t <;> cases v <;> cases h
    exact ⟨r₁, r₂, r₃, rfl, h2, h3⟩
  · rintro ⟨_, _, _, ⟨⟩, h2', h3'⟩
    cases h2.symm.trans h2'
    cases h3.symm.trans h3'
    simp only [requestTokens, h1, h2, h3]

theorem parseRequest_eq_some {requestLine headersBlock : Str} {q : Request} :
    parseRequest requestLine headersBlock = some q ↔
      ∃ m t v major minor, requestTokens requestLine = some (m, t, v) ∧
        sscanfVersion v = (some major, some minor) ∧
        q = ⟨methodOf m, major, minor, t.take (maxTargetSize - 1),
          headersOf (strtokAll ['\r', '\n'] headersBlock)⟩ := by
  simp only [parseRequest]
  constructor
  · intro h
    rcases ht : requestTokens requestLine with _ | ⟨m, t, v⟩
    · simp [ht] at h
    · rcases hv : sscanfVersion v with ⟨_ | major, _ | minor⟩ <;> simp only [ht, hv] at h
      · cases h
      · cases h
      · cases h
      · cases h
        exact ⟨m, t, v, major, minor, rfl, hv, rfl⟩
  · rintro ⟨m, t, v, major, minor, ht, hv, rfl⟩
    simp only [ht, hv]

/-- A request that is read is filled in, with a store that holds its headers. -/
theorem parseHttpRequest_of_some {requestLine headersBlock : Str} {q : Request}
    (request : HttpRequest) (h : parseRequest requestLine headersBlock = some q) :
    ∃ store, Holds store q.headers ∧
      parseHttpRequest requestLine headersBlock request = .ret (true, q.filled store) := by
  obtain ⟨m, t, v, major, minor, ht, hv, rfl⟩ := parseRequest_eq_some.mp h
  obtain ⟨r₁, r₂, r₃, h1, h2, h3⟩ := requestTokens_eq_some.mp ht
  obtain ⟨store, hparse, hholds⟩ :=
    parseHeaderLines_holds (strtokAll ['\r', '\n'] headersBlock) holds_initHeaders
  refine ⟨store, hholds, ?_⟩
  simp [parseHttpRequest, h1, h2, h3, hv, hparse, Request.filled]

/-- A request that is not read leaves the headers as they were. -/
theorem parseHttpRequest_of_none {requestLine headersBlock : Str} (request : HttpRequest)
    (h : parseRequest requestLine headersBlock = none) :
    ∃ request', request'.headers = request.headers ∧
      parseHttpRequest requestLine headersBlock request = .ret (false, request') := by
  simp only [parseHttpRequest]
  rcases h1 : strtok [' '] requestLine with ⟨_ | m, r₁⟩
  · exact ⟨request, rfl, rfl⟩
  · rcases h2 : strtok [' '] r₁ with ⟨_ | t, r₂⟩
    · exact ⟨request, rfl, by simp⟩
    · rcases h3 : strtok ['\r', '\n'] r₂ with ⟨_ | v, r₃⟩
      · exact ⟨request, rfl, by simp⟩
      · have ht : requestTokens requestLine = some (m, t, v) :=
          requestTokens_eq_some.mpr ⟨r₁, r₂, r₃, h1, h2, h3⟩
        have hv : (sscanfVersion v).1 = none ∨ (sscanfVersion v).2 = none := by
          rcases hv : sscanfVersion v with ⟨_ | major, _ | minor⟩
          · exact .inl rfl
          · exact .inl rfl
          · exact .inr rfl
          · simp [parseRequest, ht, hv] at h
        refine ⟨{ request with
            method := some (methodOf m)
            target := some (t.take (maxTargetSize - 1))
            httpMajor := (sscanfVersion v).1 <|> request.httpMajor
            httpMinor := (sscanfVersion v).2 <|> request.httpMinor }, rfl, ?_⟩
        simp only [if_pos hv]
        rfl

/-! ## Bounds of what is read -/

/-- A number `%d` stores is an `int`. -/
def IsInt32 (i : Int) : Prop := -2147483648 ≤ i ∧ i < 2147483648

theorem scanInt_isInt32 {s rest : Str} {i : Int} (h : scanInt s = some (i, rest)) : IsInt32 i := by
  simp only [scanInt, Option.ite_none_left_eq_some] at h
  obtain ⟨-, h⟩ := h
  cases h
  exact toInt32_bounds _

theorem sscanfVersion_isInt32 {version : Str} {major minor : Int}
    (h : sscanfVersion version = (some major, some minor)) : IsInt32 major ∧ IsInt32 minor := by
  simp only [sscanfVersion] at h
  split at h
  · cases h
  · split at h
    · cases h
    · next hmajor =>
      split at h
      · cases h
      · obtain ⟨h1, h2⟩ := Prod.mk.inj h
        cases h1
        obtain ⟨p, hp, rfl⟩ := Option.map_eq_some_iff.mp h2
        exact ⟨scanInt_isInt32 hmajor, scanInt_isInt32 hp⟩

/-- The target is a part of the request line. -/
theorem requestTokens_target {requestLine method target version : Str}
    (h : requestTokens requestLine = some (method, target, version)) : target <:+: requestLine := by
  obtain ⟨r₁, r₂, r₃, h1, h2, -⟩ := requestTokens_eq_some.mp h
  have hsuffix : r₁ <:+ requestLine := by
    have := strtok_suffix [' '] requestLine
    rwa [h1] at this
  exact (strtok_isInfix h2).trans hsuffix.isInfix

/-- The version of a request that is read is two `int`s, and its target is no
longer than the request line. -/
theorem parseRequest_bounds {requestLine headersBlock : Str} {q : Request}
    (h : parseRequest requestLine headersBlock = some q) :
    IsInt32 q.major ∧ IsInt32 q.minor ∧ q.target.length ≤ requestLine.length := by
  obtain ⟨m, t, v, major, minor, ht, hv, rfl⟩ := parseRequest_eq_some.mp h
  obtain ⟨h1, h2⟩ := sscanfVersion_isInt32 hv
  exact ⟨h1, h2, (List.length_take_le' _ _).trans (requestTokens_target ht).length_le⟩

end Pawnee
