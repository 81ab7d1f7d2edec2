import Pawnee.Foundation.Numerals
import Pawnee.Foundation.Entries

/-!
# Texts of settings

A text of settings is made of lines: comments, blank lines, and keys with their
values (`Text`).  How a key and a value are written is a parameter (`Format`).

`Reads` says what a reader makes of each kind of line.  Such a reader, given the
lines one by one by `fgets`, finds in a text the entries of its settings in their
order (`Reads.entries_content`).
-/

namespace Entries

open CText

/-- How keys and values are written. -/
structure Format (K : Type) where
  write : K → Str → Str
  /-- The values that can be written. -/
  Ok : K → Str → Prop
  no_lineFeed : ∀ {k v}, Ok k v → '\n' ∉ write k v
  ne_nil : ∀ k v, write k v ≠ []

/-- A line of a text of settings. -/
inductive TextLine (K : Type) where
  | comment (s : Str)
  | blank (s : Str)
  | setting (k : K) (v : Str)

namespace TextLine

variable {K : Type}

/-- The line without its line feed. -/
def write (F : Format K) : TextLine K → Str
  | .comment s => '#' :: s
  | .blank s => s
  | .setting k v => F.write k v

/-- The line can be written. -/
def Ok (F : Format K) : TextLine K → Prop
  | .comment s => '\n' ∉ s
  | .blank s => ∀ c ∈ s, isSpace c = true ∧ c ≠ '\n'
  | .setting k v => F.Ok k v

instance {F : Format K} [∀ k v, Decidable (F.Ok k v)] : ∀ l : TextLine K, Decidable (l.Ok F)
  | .comment s => inferInstanceAs (Decidable ('\n' ∉ s))
  | .blank s => List.decidableBAll (fun c => isSpace c = true ∧ c ≠ '\n') s
  | .setting k v => inferInstanceAs (Decidable (F.Ok k v))

/-- The key and the value of a line. -/
def setting? : TextLine K → Option (K × Str)
  | .setting k v => some (k, v)
  | _ => none

theorem no_lineFeed {F : Format K} {l : TextLine K} (h : l.Ok F) : '\n' ∉ l.write F := by
  cases l with
  | comment s =>
      have hs : '\n' ∉ s := h
      simpa [write] using hs
  | blank s => exact fun hm => (h _ hm).2 rfl
  | setting k v => exact F.no_lineFeed h

/-- Only a blank line is written in no bytes. -/
theorem setting?_of_write_eq_nil {F : Format K} {l : TextLine K} (h : l.write F = []) :
    l.setting? = none := by
  cases l with
  | setting k v => exact absurd h (F.ne_nil k v)
  | _ => rfl

/-- The settings of lines, one line after the other. -/
theorem filterMap_setting?_cons (l : TextLine K) (ls : List (TextLine K)) :
    (l :: ls).filterMap setting? = l.setting?.toList ++ ls.filterMap setting? := by
  rw [List.filterMap_cons]
  cases l.setting? <;> rfl

end TextLine

/-- A text of settings. -/
structure Text {K : Type} (F : Format K) where
  lines : List (TextLine K)
  /-- What stands behind the last line feed. -/
  last : TextLine K
  ok : ∀ l ∈ lines, l.Ok F
  ok_last : last.Ok F

namespace Text

variable {K : Type} {F : Format K}

/-- The bytes of a text. -/
def content (t : Text F) : Str :=
  (t.lines.map fun l => l.write F ++ ['\n']).flatten ++ t.last.write F

/-- The keys with their values, in the order they are written. -/
def settings (t : Text F) : List (K × Str) := (t.lines ++ [t.last]).filterMap TextLine.setting?

/-- Every line fits a buffer of `n` bytes, with its line feed and a NUL. -/
def Fits (n : Nat) (t : Text F) : Prop := ∀ l ∈ t.lines ++ [t.last], (l.write F).length + 2 ≤ n

instance (n : Nat) (t : Text F) : Decidable (t.Fits n) :=
  inferInstanceAs (Decidable (∀ l ∈ t.lines ++ [t.last], (l.write F).length + 2 ≤ n))

/-- A setting is one of the lines. -/
theorem mem_of_mem_settings {t : Text F} {s : K × Str} (h : s ∈ t.settings) :
    .setting s.1 s.2 ∈ t.lines ++ [t.last] := by
  obtain ⟨l, hl, hs⟩ := List.mem_filterMap.mp h
  cases l with
  | setting k v =>
      cases hs
      exact hl
  | _ => cases hs

theorem ok_of_mem_settings {t : Text F} {s : K × Str} (h : s ∈ t.settings) : F.Ok s.1 s.2 := by
  rcases List.mem_append.mp (mem_of_mem_settings h) with hl | hl
  · exact t.ok _ hl
  · rw [List.mem_singleton] at hl
    have hlast := t.ok_last
    rwa [← hl] at hlast

/-- The settings of a text that fits a buffer fit it. -/
theorem Fits.setting {n : Nat} {t : Text F} (ht : t.Fits n) {s : K × Str} (h : s ∈ t.settings) :
    (F.write s.1 s.2).length + 2 ≤ n := ht _ (mem_of_mem_settings h)

/-- The lines of a text. -/
theorem getlineAll_content (t : Text F) :
    getlineAll t.content =
      t.lines.map (fun l => l.write F ++ ['\n']) ++
        if t.last.write F = [] then [] else [t.last.write F] := by
  exact getlineAll_lines (fun l hl => TextLine.no_lineFeed (t.ok l hl))
    (TextLine.no_lineFeed t.ok_last)

/-- A setting starts one of the lines. -/
theorem exists_line_of_mem_settings {t : Text F} {s : K × Str} (h : s ∈ t.settings) :
    ∃ eol, F.write s.1 s.2 ++ eol ∈ getlineAll t.content := by
  rw [getlineAll_content]
  rcases List.mem_append.mp (mem_of_mem_settings h) with hl | hl
  · exact ⟨['\n'], List.mem_append_left _ (List.mem_map.mpr ⟨_, hl, rfl⟩)⟩
  · rw [List.mem_singleton] at hl
    have hne : t.last.write F ≠ [] := by
      rw [← hl]
      exact F.ne_nil _ _
    exact ⟨[], List.mem_append_right _ (by rw [if_neg hne, ← hl]; simp [TextLine.write])⟩

/-- The pieces `fgets` reads. -/
theorem fgetsAll_content {n : Nat} (t : Text F) (h : t.Fits n) :
    fgetsAll n t.content =
      t.lines.map (fun l => l.write F ++ ['\n']) ++
        if t.last.write F = [] then [] else [t.last.write F] := by
  have hn : 2 ≤ n := (Nat.le_add_left _ _).trans (h t.last (by simp))
  rw [fgetsAll_of_short hn, getlineAll_content]
  intro l hl
  rw [getlineAll_content] at hl
  rcases List.mem_append.mp hl with hl | hl
  · obtain ⟨l, hmem, rfl⟩ := List.mem_map.mp hl
    have hfit := h l (List.mem_append_left _ hmem)
    rw [List.length_append, List.length_singleton]
    omega
  · split at hl
    · cases hl
    · obtain rfl := List.mem_singleton.mp hl
      have hfit := h t.last (by simp)
      omega

end Text

/-- What a reader makes of the lines of a text: `value` is what it makes of a key
with its value. -/
structure Reads {K ε T : Type} {V : T → Type} (F : Format K)
    (read : Str → Except ε (Option (Sigma V))) (value : K × Str → Except ε (Option (Sigma V))) :
    Prop where
  comment : ∀ s, read ('#' :: s) = .ok none
  blank : ∀ s, s ≠ [] → (∀ c ∈ s, isSpace c = true) → read s = .ok none
  setting : ∀ {k v eol}, F.Ok k v → eol = [] ∨ eol = ['\n'] →
    read (F.write k v ++ eol) = value (k, v)

section

variable {K ε T : Type} {V : T → Type} {F : Format K} {read : Str → Except ε (Option (Sigma V))}
  {value : K × Str → Except ε (Option (Sigma V))}

/-- A line is read as its setting, if there is anything to read. -/
theorem Reads.line (h : Reads F read value) {l : TextLine K} (hl : l.Ok F) {eol : Str}
    (heol : eol = [] ∨ eol = ['\n']) (hne : l.write F ++ eol ≠ []) :
    entries read [l.write F ++ eol] = entries value l.setting?.toList := by
  have hspace : ∀ c ∈ eol, isSpace c = true := by
    rcases heol with rfl | rfl <;> exact List.all_eq_true.mp (by decide)
  cases l with
  | comment s => exact entries_eq_nil_iff.mpr (by simpa [TextLine.write] using h.comment (s ++ eol))
  | blank s =>
      refine entries_eq_nil_iff.mpr ?_
      simp only [List.mem_singleton, forall_eq]
      refine h.blank _ hne fun c hc => ?_
      rcases List.mem_append.mp hc with hc | hc
      · exact (hl c hc).1
      · exact hspace c hc
  | setting k v =>
      have hset : read (F.write k v ++ eol) = value (k, v) := h.setting hl heol
      simp only [TextLine.write, TextLine.setting?, Option.toList, entries, hset]

/-- The entries of a text are those of its settings. -/
theorem Reads.entries_content (h : Reads F read value) {n : Nat} {t : Text F} (ht : t.Fits n) :
    entries read (fgetsAll n t.content) = entries value t.settings := by
  have hlines : ∀ ls : List (TextLine K), (∀ l ∈ ls, l.Ok F) →
      entries read (ls.map fun l => l.write F ++ ['\n']) =
        entries value (ls.filterMap TextLine.setting?) := by
    intro ls
    induction ls with
    | nil => exact fun _ => rfl
    | cons l ls ih =>
        intro hok
        have hl := h.line (hok l List.mem_cons_self) (.inr rfl) (by simp)
        rw [List.map_cons, ← List.singleton_append, entries_append, hl,
          ih fun x hx => hok x (List.mem_cons_of_mem _ hx), TextLine.filterMap_setting?_cons,
          entries_append]
  have hlast : entries read (if t.last.write F = [] then [] else [t.last.write F]) =
      entries value t.last.setting?.toList := by
    split
    · next hnil =>
        rw [TextLine.setting?_of_write_eq_nil hnil]
        rfl
    · next hne => simpa using h.line t.ok_last (.inl rfl) (by simpa using hne)
  rw [t.fgetsAll_content ht, entries_append, hlines _ t.ok, hlast, Text.settings,
    List.filterMap_append, entries_append, TextLine.filterMap_setting?_cons, List.filterMap_nil,
    List.append_nil]

end

end Entries
