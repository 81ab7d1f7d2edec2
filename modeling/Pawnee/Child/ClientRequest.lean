import Pawnee.Child.Pipeline
import Pawnee.Child.Targets

/-!
# A request and what the child reads of it

`ClientRequest` is a request as a client writes it, with any method and any version, and
the bounds of the buffers it is read into.  What is behind it on the connection does not
matter.  The child reads the request that was written (`ClientRequest.course_text`), and
the name of the resource is the path without its slash (`ClientRequest.rewritten_target`).
-/

namespace Pawnee

open CText Effects

/-- A request that can be read back. -/
structure ClientRequest where
  method : Str
  target : Str
  major : Nat
  minor : Nat
  headers : List HttpHeader
  method_isToken : IsToken method
  target_isToken : IsToken target
  slash : target.head? = some '/'
  major_lt : major < 2147483648
  minor_lt : minor < 2147483648
  written : ∀ h ∈ headers, h.Written
  line_fits : (requestLineText method target major minor).length ≤ 1023
  block_fits : (headersText headers).length ≤ 8191
  /-- No header line looks like the end of the section when it is read in pieces. -/
  not_alike : ∀ h ∈ headers, ¬ EndsAlike h.text
  no_nul : '\x00' ∉ requestLineText method target major minor ++ headersText headers

namespace ClientRequest

/-- Its bytes. -/
def text (r : ClientRequest) : Str :=
  requestLineText r.method r.target r.major r.minor ++ headersText r.headers ++ ['\r', '\n']

/-- The request that was written. -/
def request (r : ClientRequest) : Request :=
  ⟨methodOf r.method, r.major, r.minor, r.target, r.headers⟩

/-- The host name: the first `Host` header without the port. -/
def host (r : ClientRequest) : Option Str :=
  (lookupHeader r.headers "Host".toList).map fun h => h.takeWhile (· ≠ ':')

/-- The name of the resource. -/
def resource (r : ClientRequest) : Str :=
  if targetPath r.target = ['/'] then "index.html".toList else (targetPath r.target).drop 1

theorem rewritten_target (r : ClientRequest) : rewritten r.target = some r.resource := by
  obtain ⟨s, hs⟩ := List.head?_eq_some_iff.mp r.slash
  rw [resource, hs]
  exact rewritten_slash s

/-! ## The lines -/

theorem isLine_requestLine (r : ClientRequest) :
    IsLine (requestLineText r.method r.target r.major r.minor) := by
  have hlf : ∀ n, '\n' ∉ decimal n := fun n => notMem_decimal (by decide)
  refine ⟨r.method ++ ' ' :: (r.target ++ ' ' ::
    ("HTTP/".toList ++ (decimal r.major ++ ['.'] ++ decimal r.minor) ++ ['\r'])), ?_, ?_⟩
  · simp [r.method_isToken.no_lf, r.target_isToken.no_lf, hlf]
  · simp [requestLineText]

theorem isLine_header {h : HttpHeader} (hw : h.Written) : IsLine h.text := by
  refine ⟨h.name ++ ':' :: ' ' :: h.value ++ ['\r'], ?_, by simp [HttpHeader.text]⟩
  have hname : '\n' ∉ h.name := fun hc => (hw.name_bytes _ hc).2.2.2.2 rfl
  have hvalue : '\n' ∉ h.value := fun hc => (hw.value_bytes _ hc).2 rfl
  simp [hname, hvalue]

end ClientRequest

/-- The header loop leaves the lines of a section none of which ends alike. -/
theorem readHeaders_section {lines : List Str} (hlines : ∀ l ∈ lines, IsLine l)
    (hno : ∀ l ∈ lines, ¬ EndsAlike l) (hnul : '\x00' ∉ lines.flatten)
    (htotal : lines.flatten.length ≤ 8191) (rest : List Str) :
    readHeaders [] (lines.flatMap (freadAll 1023) ++ ['\r', '\n'] :: rest) =
      (lines.flatten, rest) := by
  have hend : ∀ p ∈ lines.flatMap (freadAll 1023), isEndOfHeaders p = false := by
    intro p hp
    obtain ⟨l, hl, hpl⟩ := List.mem_flatMap.mp hp
    rw [Bool.eq_false_iff]
    exact fun hpend => hno l hl ((exists_endOfHeaders_iff (hlines l hl)).mp ⟨p, hpl, hpend⟩)
  have hpieces : ∀ p ∈ lines.flatMap (freadAll 1023), '\x00' ∉ p := by
    intro p hp hmem
    refine hnul ?_
    rw [← flatten_flatMap_freadAll lines]
    exact List.mem_flatten.mpr ⟨p, hp, hmem⟩
  have hroom : ([] : Str).length + (lines.flatMap (freadAll 1023)).flatten.length <
      headersBlockSize := by
    rw [flatten_flatMap_freadAll]
    simp only [List.length_nil, headersBlockSize]
    omega
  have hempty : isEndOfHeaders (cstr ['\r', '\n']) = true := by decide
  rw [readHeaders_append hend hpieces hroom, flatten_flatMap_freadAll, List.nil_append,
    readHeaders, if_pos hempty]

namespace ClientRequest

/-- The line and the block are read as they were written, whatever is behind them. -/
theorem readRequest_text (r : ClientRequest) (s : Str) : ∃ unread,
    readRequest (r.text ++ s) = some (requestLineText r.method r.target r.major r.minor,
      headersText r.headers, unread) := by
  have hnul := r.no_nul
  simp only [List.mem_append, not_or] at hnul
  have hlines : ∀ l ∈ r.headers.map HttpHeader.text, IsLine l := by
    intro l hl
    obtain ⟨h, hh, rfl⟩ := List.mem_map.mp hl
    exact isLine_header (r.written h hh)
  have hno : ∀ l ∈ r.headers.map HttpHeader.text, ¬ EndsAlike l := by
    intro l hl
    obtain ⟨h, hh, rfl⟩ := List.mem_map.mp hl
    exact r.not_alike h hh
  have hempty : isEndOfHeaders ['\r', '\n'] = true := by decide
  have hread : readRequest (r.text ++ s) = _ :=
    readRequest_section r.isLine_requestLine r.line_fits hnul.1 hlines hempty
  rw [readHeaders_section hlines hno hnul.2 r.block_fits] at hread
  exact ⟨_, hread⟩

/-- It is parsed as the request that was written. -/
theorem parseRequest_text (r : ClientRequest) :
    parseRequest (requestLineText r.method r.target r.major r.minor) (headersText r.headers) =
      some r.request := by
  have htarget : r.target.take (maxTargetSize - 1) = r.target := by
    have hfits := r.line_fits
    refine List.take_of_length_le ?_
    simp only [requestLineText, List.length_append, List.length_cons] at hfits
    simp only [maxTargetSize]
    omega
  refine parseRequest_eq_some.mpr ⟨_, r.target, _, r.major, r.minor,
    requestTokens_written r.method_isToken r.target_isToken r.major r.minor,
    sscanfVersion_print r.major_lt r.minor_lt, ?_⟩
  rw [htarget, headersOf_written r.written]
  rfl

/-- The child for the request does what the request says. -/
theorem course_text (r : ClientRequest) (env : Env) (s : Str) :
    course env (some (r.text ++ s)) = r.request.course env := by
  obtain ⟨unread, hread⟩ := r.readRequest_text s
  simp only [course, hread, r.parseRequest_text]

end ClientRequest

end Pawnee
