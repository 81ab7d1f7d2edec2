import Pawnee.Foundation.CText

/-!
# Framed messages

A message is a start line, a list of named fields and a body (`Message`).
`render` writes it: each line ends with CRLF, an empty line ends the head, and
the body follows as it is.  `parse` is the reader: the head ends at the first
empty line, that is, at the first CRLF CRLF (`cutBlank`), and each of its lines
but the first is a name, a colon with a space, and a value.

`parse_render` is the round trip.  It needs that no line holds a CR or LF of its
own and that names are not empty and have no colon.
-/

namespace Framing

open CText (Str)

/-- The bytes that end a line. -/
def crlf : Str := ['\r', '\n']

/-- A start line, named fields and a body. -/
structure Message where
  /-- The start line, without its line end. -/
  start : Str
  /-- Names and values, in order. -/
  fields : List (Str × Str)
  /-- The body. -/
  body : Str
deriving DecidableEq

/-- A field as a line, without its line end. -/
def fieldLine (f : Str × Str) : Str := f.1 ++ ':' :: ' ' :: f.2

/-- Lines, each with its line end. -/
def joinLines (ls : List Str) : Str := (ls.map (· ++ crlf)).flatten

/-- The text of a message. -/
def render (m : Message) : Str :=
  m.start ++ crlf ++ joinLines (m.fields.map fieldLine) ++ crlf ++ m.body

/-- The text before the first CRLF CRLF, with its last line end, and the text
behind it. -/
def cutBlank : Str → Option (Str × Str)
  | [] => none
  | c :: s =>
      if ['\r', '\n', '\r', '\n'].isPrefixOf (c :: s) then some (crlf, s.drop 3)
      else (cutBlank s).map fun (head, body) => (c :: head, body)

/-- The lines of a text whose lines end with CRLF. -/
def splitLines : Str → List Str
  | [] => []
  | '\r' :: '\n' :: s => [] :: splitLines s
  | c :: s =>
      match splitLines s with
      | [] => [[c]]
      | l :: ls => (c :: l) :: ls

/-- A line read as a field. -/
def parseField (line : Str) : Option (Str × Str) :=
  match line.dropWhile (· ≠ ':') with
  | ':' :: ' ' :: value =>
      if line.takeWhile (· ≠ ':') = [] then none else some (line.takeWhile (· ≠ ':'), value)
  | _ => none

/-- A text read as a message. -/
def parse (s : Str) : Option Message := do
  let (head, body) ← cutBlank s
  match splitLines head with
  | [] => none
  | start :: lines =>
      let fields ← lines.mapM parseField
      some ⟨start, fields, body⟩

/-! ## The round trip -/

/-- A text without CR and LF. -/
def NoBreak (s : Str) : Prop := '\r' ∉ s ∧ '\n' ∉ s

instance (s : Str) : Decidable (NoBreak s) := inferInstanceAs (Decidable (_ ∧ _))

theorem NoBreak.append {s t : Str} (hs : NoBreak s) (ht : NoBreak t) : NoBreak (s ++ t) := by
  simp only [NoBreak, List.mem_append, not_or]
  exact ⟨⟨hs.1, ht.1⟩, hs.2, ht.2⟩

/-- A field that can be read back. -/
structure FieldOk (f : Str × Str) : Prop where
  /-- The name is not empty. -/
  name_ne : f.1 ≠ []
  /-- The name has no colon. -/
  name_colon : ':' ∉ f.1
  /-- The name fits a line. -/
  name_break : NoBreak f.1
  /-- The value fits a line. -/
  value_break : NoBreak f.2

theorem fieldLine_ne_nil (f : Str × Str) : fieldLine f ≠ [] := by simp [fieldLine]

theorem FieldOk.noBreak {f : Str × Str} (h : FieldOk f) : NoBreak (fieldLine f) := by
  have hsep : NoBreak [':', ' '] := by decide
  have := h.name_break.append (hsep.append h.value_break)
  simpa [fieldLine] using this

theorem parseField_fieldLine {f : Str × Str} (h : FieldOk f) :
    parseField (fieldLine f) = some f := by
  have hname : ∀ c ∈ f.1, decide (c ≠ ':') = true := by
    intro c hc
    simp only [ne_eq, decide_eq_true_eq]
    rintro rfl
    exact h.name_colon hc
  have hstop : ∀ c ∈ (':' :: ' ' :: f.2).head?, decide (c ≠ ':') = false := by simp
  have hdrop : (fieldLine f).dropWhile (· ≠ ':') = ':' :: ' ' :: f.2 :=
    CText.dropWhile_run hname hstop
  have htake : (fieldLine f).takeWhile (· ≠ ':') = f.1 := CText.takeWhile_run hname hstop
  simp only [parseField, hdrop, htake, h.name_ne, if_false]

theorem mapM_parseField {fs : List (Str × Str)} (h : ∀ f ∈ fs, FieldOk f) :
    (fs.map fieldLine).mapM parseField = some fs := by
  induction fs with
  | nil => rfl
  | cons f fs ih =>
      rw [List.map_cons, List.mapM_cons, parseField_fieldLine (h f List.mem_cons_self),
        ih fun g hg => h g (List.mem_cons_of_mem _ hg)]
      rfl

theorem cutBlank_cons_of_ne {c : Char} {s head body : Str} (hc : c ≠ '\r')
    (h : cutBlank s = some (head, body)) : cutBlank (c :: s) = some (c :: head, body) := by
  have hpre : ['\r', '\n', '\r', '\n'].isPrefixOf (c :: s) = false := by
    simp [List.isPrefixOf, Ne.symm hc]
  simp [cutBlank, hpre, h]

/-- The bytes of a line are part of the head. -/
theorem cutBlank_line {l s head body : Str} (hl : '\r' ∉ l)
    (h : cutBlank s = some (head, body)) : cutBlank (l ++ s) = some (l ++ head, body) := by
  induction l with
  | nil => exact h
  | cons c l ih =>
      rw [List.mem_cons, not_or] at hl
      exact cutBlank_cons_of_ne (Ne.symm hl.1) (ih hl.2)

/-- A line end that a line follows is part of the head. -/
theorem cutBlank_crlf {c : Char} {s head body : Str} (hc : c ≠ '\r')
    (h : cutBlank (c :: s) = some (head, body)) :
    cutBlank (crlf ++ c :: s) = some (crlf ++ head, body) := by
  have hpre : ['\r', '\n', '\r', '\n'].isPrefixOf (crlf ++ c :: s) = false := by
    simp [crlf, List.isPrefixOf, Ne.symm hc]
  have hlf : cutBlank ('\n' :: c :: s) = some ('\n' :: head, body) :=
    cutBlank_cons_of_ne (by decide) h
  simp only [crlf, List.cons_append, List.nil_append] at hpre ⊢
  rw [cutBlank, hpre]
  simp [hlf]

/-- The head ends at the first empty line. -/
theorem cutBlank_joinLines {ls : List Str} {l body : Str} (hl : '\r' ∉ l)
    (hls : ∀ x ∈ ls, '\r' ∉ x ∧ x ≠ []) :
    cutBlank (l ++ crlf ++ joinLines ls ++ crlf ++ body) =
      some (l ++ crlf ++ joinLines ls, body) := by
  induction ls generalizing l with
  | nil =>
      simp only [joinLines, List.map_nil, List.flatten_nil, List.append_nil, List.append_assoc]
      refine cutBlank_line hl ?_
      simp [crlf, cutBlank, List.isPrefixOf]
  | cons x xs ih =>
      obtain ⟨hx, hne⟩ := hls x List.mem_cons_self
      have ih' := ih hx fun y hy => hls y (List.mem_cons_of_mem _ hy)
      obtain ⟨c, r, rfl⟩ := List.exists_cons_of_ne_nil hne
      have hc : c ≠ '\r' := fun h => hx (by simp [h])
      simp only [joinLines, List.map_cons, List.flatten_cons, List.append_assoc] at ih' ⊢
      exact cutBlank_line hl (cutBlank_crlf hc ih')

theorem splitLines_cons_of_ne {c : Char} {s l : Str} {ls : List Str} (hc : c ≠ '\r')
    (h : splitLines s = l :: ls) : splitLines (c :: s) = (c :: l) :: ls := by
  rw [splitLines, h]
  rintro s' rfl
  exact absurd rfl hc

theorem splitLines_line {l s : Str} (hl : '\r' ∉ l) :
    splitLines (l ++ crlf ++ s) = l :: splitLines s := by
  induction l with
  | nil => rfl
  | cons c l ih =>
      rw [List.mem_cons, not_or] at hl
      exact splitLines_cons_of_ne (Ne.symm hl.1) (ih hl.2)

/-- Lines that are joined are split again, whatever follows. -/
theorem splitLines_joinLines {ls : List Str} (hls : ∀ x ∈ ls, '\r' ∉ x) (s : Str) :
    splitLines (joinLines ls ++ s) = ls ++ splitLines s := by
  induction ls with
  | nil => rfl
  | cons x xs ih =>
      have hx := splitLines_line (s := joinLines xs ++ s) (hls x List.mem_cons_self)
      rw [ih fun y hy => hls y (List.mem_cons_of_mem _ hy)] at hx
      rw [← List.append_assoc] at hx
      exact hx

/-- A written message is read back. -/
theorem parse_render {m : Message} (hstart : NoBreak m.start) (hf : ∀ f ∈ m.fields, FieldOk f) :
    parse (render m) = some m := by
  have hlines : ∀ x ∈ m.fields.map fieldLine, '\r' ∉ x ∧ x ≠ [] := by
    intro x hx
    obtain ⟨f, hfm, rfl⟩ := List.mem_map.mp hx
    exact ⟨(hf f hfm).noBreak.1, fieldLine_ne_nil f⟩
  have hcut : cutBlank (m.start ++ crlf ++ joinLines (m.fields.map fieldLine) ++ crlf ++
      m.body) = _ := cutBlank_joinLines hstart.1 hlines
  have hsplit : splitLines (m.start ++ crlf ++ joinLines (m.fields.map fieldLine)) =
      m.start :: m.fields.map fieldLine := by
    have hfields := splitLines_joinLines (fun x hx => (hlines x hx).1) []
    rw [List.append_nil] at hfields
    rw [splitLines_line hstart.1, hfields, splitLines, List.append_nil]
  rw [parse, render, hcut]
  simp only [Option.bind_eq_bind, Option.bind_some, hsplit, mapM_parseField hf]

end Framing
