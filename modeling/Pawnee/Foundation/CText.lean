import Mathlib.Data.List.TakeWhile
import Mathlib.Data.List.Infix
import Mathlib.Tactic.Common

/-!
# C text

Strings and buffers as the C library sees them.  A byte is the character of the
same code, a buffer is the list of its bytes, and a C string is what stands
before the first NUL (`cstr`).

The library functions are pure.  `strtok` returns its token and the text that
the saved pointer is left at, so a later `strtok(NULL, ..)` is `strtok` on that
text.  A token is never empty.  When there is no token the saved pointer is at
the end of the text.  `strtokBuffer` is what `strtok` leaves in the buffer it
cut.

A loop that reads until its reader has nothing left is `readAll`, one
definition for `strtok`, `fgets`, `getline` and `fread`.  It runs on fuel, and
`readAll_some` says that the fuel it starts with is enough for every reader
that shortens what is left.
-/

namespace CText

/-- The bytes of a text or of a buffer. -/
abbrev Str := List Char

/-- The C string a buffer holds: its bytes up to the first NUL. -/
def cstr (b : Str) : Str := b.takeWhile (· ≠ '\x00')

/-- A text without NUL is the C string of its own bytes. -/
theorem cstr_eq_self {b : Str} (h : '\x00' ∉ b) : cstr b = b := by
  refine List.takeWhile_eq_self_iff.mpr fun c hc => ?_
  simp only [ne_eq, decide_eq_true_eq]
  rintro rfl
  exact h hc

theorem cstr_sublist (b : Str) : (cstr b).Sublist b := List.takeWhile_sublist _

theorem cstr_append {s t : Str} (hs : '\x00' ∉ s) : cstr (s ++ t) = s ++ cstr t := by
  refine List.takeWhile_append_of_pos fun c hc => ?_
  simp only [ne_eq, decide_eq_true_eq]
  rintro rfl
  exact hs hc

theorem cstr_append_of_mem {s : Str} (hs : '\x00' ∈ s) (t : Str) : cstr (s ++ t) = cstr s := by
  obtain ⟨a, b, rfl, ha⟩ := List.eq_append_cons_of_mem hs
  rw [List.append_assoc, cstr_append ha, cstr_append ha]
  rfl

theorem cstr_cons {c : Char} (hc : c ≠ '\x00') (s : Str) : cstr (c :: s) = c :: cstr s :=
  List.takeWhile_cons_of_pos (by simpa using hc)

theorem mem_of_mem_cstr {b : Str} {c : Char} (h : c ∈ cstr b) : c ∈ b := (cstr_sublist b).subset h

/-! ## Runs of bytes -/

/-- A run of bytes ends where the next byte is not one of them. -/
theorem takeWhile_run {p : Char → Bool} {s t : Str} (hs : ∀ c ∈ s, p c = true)
    (ht : ∀ c ∈ t.head?, p c = false) : (s ++ t).takeWhile p = s := by
  rw [List.takeWhile_append_of_pos hs]
  cases t with
  | nil => rw [List.takeWhile_nil, List.append_nil]
  | cons c t => rw [List.takeWhile_cons_of_neg (by simp [ht c rfl]), List.append_nil]

theorem dropWhile_run {p : Char → Bool} {s t : Str} (hs : ∀ c ∈ s, p c = true)
    (ht : ∀ c ∈ t.head?, p c = false) : (s ++ t).dropWhile p = t := by
  rw [List.dropWhile_append_of_pos hs]
  cases t with
  | nil => rfl
  | cons c t => rw [List.dropWhile_cons_of_neg (by simp [ht c rfl])]

/-- A text is cut at the first of a byte in one way. -/
theorem cut_unique {c : Char} {s s' x y : Str} (hs : c ∉ s) (hs' : c ∉ s')
    (h : s ++ c :: x = s' ++ c :: y) : s = s' ∧ x = y := by
  have hcut : ∀ {s : Str}, c ∉ s → ∀ x, (s ++ c :: x).takeWhile (· ≠ c) = s := by
    intro s hs x
    refine takeWhile_run (fun c' hc' => ?_) (by simp)
    simpa using fun heq : c' = c => hs (heq ▸ hc')
  have htake := congrArg (List.takeWhile (· ≠ c)) h
  rw [hcut hs, hcut hs'] at htake
  subst htake
  exact ⟨rfl, (List.cons.inj (List.append_cancel_left h)).2⟩

/-- The byte behind a run is not one of the run. -/
theorem head_dropWhile {p : Char → Bool} {s : Str} : ∀ c ∈ (s.dropWhile p).head?, p c = false := by
  intro c hc
  have hhead := List.head?_dropWhile_not p s
  rwa [Option.mem_def.mp hc] at hhead

/-- `strncat(dst, src, n)`: at most `n` bytes of `src` are appended. -/
def strncat (dst src : Str) (n : Nat) : Str := dst ++ src.take n

theorem strncat_eq_append {dst src : Str} {n : Nat} (h : src.length ≤ n) :
    strncat dst src n = dst ++ src := by
  rw [strncat, List.take_of_length_le h]

/-! ## Cutting tokens -/

/-- `strtok`: the first token of `s`, if there is one, and the text behind it. -/
def strtok (delims s : Str) : Option Str × Str :=
  let s := s.dropWhile (· ∈ delims)
  if s = [] then (none, [])
  else (some (s.takeWhile (· ∉ delims)), (s.dropWhile (· ∉ delims)).drop 1)

/-- The C string at the start of a buffer after `strtok` has cut its first
token: leading delimiters stay, and the token ends at the NUL written behind it. -/
def strtokBuffer (delims s : Str) : Str :=
  s.takeWhile (· ∈ delims) ++ (s.dropWhile (· ∈ delims)).takeWhile (· ∉ delims)

/-- No byte of a text is the one delimiter. -/
theorem no_delim_iff {s : Str} {d : Char} : (∀ c ∈ s, c ∉ [d]) ↔ d ∉ s := by
  simpa only [List.mem_singleton] using List.forall_mem_ne'

@[simp] theorem strtok_nil (delims : Str) : strtok delims [] = (none, []) := by
  simp [strtok]

/-- A text that does not start with a delimiter is cut at its first delimiter. -/
theorem strtok_cons {delims s : Str} {c : Char} (hc : c ∉ delims) :
    strtok delims (c :: s) = (some ((c :: s).takeWhile (· ∉ delims)),
      ((c :: s).dropWhile (· ∉ delims)).drop 1) := by
  have hskip : (c :: s).dropWhile (· ∈ delims) = c :: s :=
    List.dropWhile_cons_of_neg (by simpa using hc)
  simp only [strtok, hskip, reduceCtorEq, if_false]

/-- Delimiters in front of a text are skipped. -/
theorem strtok_skip {delims lead s : Str} (hl : ∀ c ∈ lead, c ∈ delims) :
    strtok delims (lead ++ s) = strtok delims s := by
  have hd : (lead ++ s).dropWhile (· ∈ delims) = s.dropWhile (· ∈ delims) :=
    List.dropWhile_append_of_pos (by simpa using hl)
  simp only [strtok, hd]

theorem strtok_skip_cons {delims : Str} {d : Char} (hd : d ∈ delims) (s : Str) :
    strtok delims (d :: s) = strtok delims s :=
  strtok_skip (List.forall_mem_singleton.mpr hd)

/-- A text of delimiters has no token. -/
theorem strtok_eq_none_iff {delims s : Str} :
    (strtok delims s).1 = none ↔ ∀ c ∈ s, c ∈ delims := by
  simp only [strtok]
  split
  · next h => simpa [List.dropWhile_eq_nil_iff] using h
  · next h => simpa [List.dropWhile_eq_nil_iff] using h

/-- What `strtok` cuts: skipped delimiters, a token, and the text behind it. -/
theorem strtok_some {delims s t rest : Str} (h : strtok delims s = (some t, rest)) :
    t ≠ [] ∧ (∀ c ∈ t, c ∉ delims) ∧
      s = s.takeWhile (· ∈ delims) ++ t ++ (s.dropWhile (· ∈ delims)).dropWhile (· ∉ delims) ∧
      rest = ((s.dropWhile (· ∈ delims)).dropWhile (· ∉ delims)).drop 1 := by
  simp only [strtok] at h
  split at h
  · cases h
  · next hne =>
    obtain ⟨ht, hrest⟩ := Prod.mk.inj h
    cases ht
    refine ⟨?_, ?_, ?_, hrest.symm⟩
    · obtain ⟨c, r, hcr⟩ := List.exists_cons_of_ne_nil hne
      have hc : c ∉ delims := by
        have := List.head_dropWhile_not (fun c => decide (c ∈ delims)) hne
        simpa [hcr] using this
      rw [hcr, List.takeWhile_cons_of_pos (by simpa using hc)]
      exact List.cons_ne_nil _ _
    · intro c hc
      simpa using List.mem_takeWhile_imp hc
    · rw [List.append_assoc, List.takeWhile_append_dropWhile, List.takeWhile_append_dropWhile]

/-- A token in front of a text that starts with a delimiter, if it goes on. -/
theorem strtok_run {delims t after : Str} (hne : t ≠ []) (ht : ∀ c ∈ t, c ∉ delims)
    (hafter : ∀ c ∈ after.head?, c ∈ delims) :
    strtok delims (t ++ after) = (some t, after.drop 1) := by
  have hbytes : ∀ c ∈ t, decide (c ∉ delims) = true := by simpa using ht
  have hstop : ∀ c ∈ after.head?, decide (c ∉ delims) = false := by simpa using hafter
  have htake := takeWhile_run hbytes hstop
  have hdrop := dropWhile_run hbytes hstop
  obtain ⟨c, r, rfl⟩ := List.exists_cons_of_ne_nil hne
  rw [List.cons_append] at htake hdrop ⊢
  rw [strtok_cons (ht c List.mem_cons_self), htake, hdrop]

/-- A token followed by a delimiter. -/
theorem strtok_token {delims t rest : Str} {d : Char} (hne : t ≠ [])
    (ht : ∀ c ∈ t, c ∉ delims) (hd : d ∈ delims) :
    strtok delims (t ++ d :: rest) = (some t, rest) :=
  strtok_run hne ht (by simpa using hd)

/-- A token that ends with the text. -/
theorem strtok_last {delims t : Str} (hne : t ≠ []) (ht : ∀ c ∈ t, c ∉ delims) :
    strtok delims t = (some t, []) := by
  have hnone : ∀ c ∈ ([] : Str).head?, c ∈ delims := by simp
  have hrun := strtok_run hne ht hnone
  rwa [List.append_nil] at hrun

/-- The first token of a buffer, with a delimiter behind it. -/
theorem strtok_cstr {delims t : Str} {d : Char} (hne : t ≠ []) (ht : ∀ c ∈ t, c ∉ delims)
    (hnul : '\x00' ∉ t) (hd : d ∈ delims) (hd' : d ≠ '\x00') (rest : Str) :
    strtok delims (cstr (t ++ d :: rest)) = (some t, cstr rest) := by
  rw [cstr_append hnul, cstr_cons hd', strtok_token hne ht hd]

/-- What `strtok` cuts: skipped delimiters, a token, and the delimiter that ends it. -/
theorem strtok_eq_some_iff {delims s t rest : Str} :
    strtok delims s = (some t, rest) ↔
      ∃ lead after, s = lead ++ (t ++ after) ∧ (∀ c ∈ lead, c ∈ delims) ∧ t ≠ [] ∧
        (∀ c ∈ t, c ∉ delims) ∧ (after = [] ∧ rest = [] ∨ ∃ d ∈ delims, after = d :: rest) := by
  constructor
  · intro h
    obtain ⟨hne, ht, hs, hrest⟩ := strtok_some h
    refine ⟨_, _, hs.trans (List.append_assoc _ _ _), fun c hc => ?_, hne, ht, ?_⟩
    · simpa using List.mem_takeWhile_imp hc
    · cases hafter : (s.dropWhile (· ∈ delims)).dropWhile (· ∉ delims) with
      | nil => exact .inl ⟨rfl, by rw [hrest, hafter]; rfl⟩
      | cons d rest' =>
          have hd : decide (d ∉ delims) = false := head_dropWhile d (by rw [hafter]; rfl)
          exact .inr ⟨d, not_not.mp (of_decide_eq_false hd), by rw [hrest, hafter]; rfl⟩
  · rintro ⟨lead, after, rfl, hlead, hne, ht, ⟨rfl, rfl⟩ | ⟨d, hd, rfl⟩⟩
    · rw [strtok_skip hlead, List.append_nil, strtok_last hne ht]
    · rw [strtok_skip hlead, strtok_token hne ht hd]

/-- The token is the whole text when the text holds no delimiter. -/
theorem strtok_eq_self_iff {delims s : Str} :
    (strtok delims s).1 = some s ↔ s ≠ [] ∧ ∀ c ∈ s, c ∉ delims := by
  constructor
  · intro h
    obtain ⟨hne, hs, -⟩ := strtok_some (Prod.ext h rfl : strtok delims s = (some s, _))
    exact ⟨hne, hs⟩
  · rintro ⟨hne, hs⟩
    rw [strtok_last hne hs]

/-- A token is a part of the text. -/
theorem strtok_isInfix {delims s t rest : Str} (h : strtok delims s = (some t, rest)) :
    t <:+: s := by
  obtain ⟨-, -, hs, -⟩ := strtok_some h
  exact ⟨_, _, hs.symm⟩

/-- The text behind a token is a suffix of the text. -/
theorem strtok_suffix (delims s : Str) : (strtok delims s).2 <:+ s := by
  simp only [strtok]
  split
  · exact List.nil_suffix
  · exact ((List.drop_suffix _ _).trans (List.dropWhile_suffix _)).trans (List.dropWhile_suffix _)

/-- Cutting a token leaves less text. -/
theorem strtok_length_lt {delims s t rest : Str} (h : strtok delims s = (some t, rest)) :
    rest.length < s.length := by
  obtain ⟨hne, -, hs, hrest⟩ := strtok_some h
  have hlen := congrArg List.length hs
  have ht : 0 < t.length := List.length_pos_of_ne_nil hne
  simp only [List.length_append] at hlen
  rw [hrest, List.length_drop]
  omega

/-! ## Reading until nothing is left -/

/-- The results of a reader called again and again, at most `fuel` times. -/
def readFrom (read : Str → Option (Str × Str)) : Nat → Str → List Str
  | 0, _ => []
  | fuel + 1, s =>
      match read s with
      | none => []
      | some (x, rest) => x :: readFrom read fuel rest

/-- The results of a reader until it has nothing left. -/
def readAll (read : Str → Option (Str × Str)) (s : Str) : List Str := readFrom read s.length s

/-- Each call of the reader leaves less text. -/
def Shortens (read : Str → Option (Str × Str)) : Prop :=
  ∀ {s x rest}, read s = some (x, rest) → rest.length < s.length

/-- Once the fuel covers the text, more fuel changes nothing. -/
theorem readFrom_eq_of_le {read : Str → Option (Str × Str)} (hr : Shortens read) :
    ∀ {n m : Nat} {s : Str}, s.length ≤ n → n ≤ m → readFrom read m s = readFrom read n s := by
  intro n
  induction n with
  | zero =>
      intro m s hs _
      have hnone : read s = none := by
        cases h : read s with
        | none => rfl
        | some p => have := hr h; omega
      cases m with
      | zero => rfl
      | succ m => simp [readFrom, hnone]
  | succ n ih =>
      intro m s hs hm
      obtain ⟨m, rfl⟩ : ∃ k, m = k + 1 := ⟨m - 1, by omega⟩
      cases h : read s with
      | none => simp [readFrom, h]
      | some p =>
          have hlt := hr h
          simp only [readFrom, h]
          rw [ih (by omega) (by omega)]

theorem readAll_none {read : Str → Option (Str × Str)} {s : Str} (h : read s = none) :
    readAll read s = [] := by
  unfold readAll
  cases s.length with
  | zero => rfl
  | succ n => simp [readFrom, h]

theorem readAll_some {read : Str → Option (Str × Str)} (hr : Shortens read) {s x rest : Str}
    (h : read s = some (x, rest)) : readAll read s = x :: readAll read rest := by
  have hlt := hr h
  unfold readAll
  obtain ⟨n, hn⟩ : ∃ n, s.length = n + 1 := ⟨s.length - 1, by omega⟩
  rw [hn]
  simp only [readFrom, h]
  rw [readFrom_eq_of_le hr le_rfl (by omega)]

/-- Every result is a result of the reader on some suffix of the text. -/
theorem mem_readFrom {read : Str → Option (Str × Str)} :
    ∀ {n : Nat} {s x : Str}, x ∈ readFrom read n s → ∃ s' rest, read s' = some (x, rest)
  | 0, _, _, h => by simp [readFrom] at h
  | n + 1, s, x, h => by
      cases hs : read s with
      | none => simp [readFrom, hs] at h
      | some p =>
          simp only [readFrom, hs, List.mem_cons] at h
          rcases h with rfl | h
          · exact ⟨s, p.2, hs⟩
          · exact mem_readFrom h

theorem mem_readAll {read : Str → Option (Str × Str)} {s x : Str} (h : x ∈ readAll read s) :
    ∃ s' rest, read s' = some (x, rest) := mem_readFrom h

/-- A reader that takes what stands in front, and stops at the end, reads the
whole text. -/
theorem flatten_readAll {read : Str → Option (Str × Str)} (hr : Shortens read)
    (happend : ∀ {s x rest}, read s = some (x, rest) → s = x ++ rest)
    (hend : ∀ {s}, read s = none → s = []) (s : Str) : (readAll read s).flatten = s := by
  induction hk : s.length using Nat.strong_induction_on generalizing s with
  | _ k ih =>
      cases h : read s with
      | none => rw [readAll_none h, hend h]; rfl
      | some p =>
          obtain ⟨x, rest⟩ := p
          rw [readAll_some hr h, List.flatten_cons, ih rest.length (hk ▸ hr h) rest rfl]
          exact (happend h).symm

/-- `strtok(NULL, delims)` until it answers NULL. -/
def strtokAll (delims : Str) : Str → List Str :=
  readAll fun s => match strtok delims s with
    | (some t, rest) => some (t, rest)
    | (none, _) => none

/-- The call of `strtok` as a reader. -/
theorem strtokReader_eq_some {delims s t rest : Str} :
    (match strtok delims s with
      | (some t, rest) => some (t, rest)
      | (none, _) => none) = some (t, rest) ↔ strtok delims s = (some t, rest) := by
  rcases h : strtok delims s with ⟨_ | t', rest'⟩ <;> simp

theorem strtokAll_none {delims s : Str} (h : ∀ c ∈ s, c ∈ delims) : strtokAll delims s = [] := by
  refine readAll_none ?_
  have hnone := strtok_eq_none_iff.mpr h
  rcases hs : strtok delims s with ⟨_ | t, rest⟩
  · rfl
  · simp [hs] at hnone

theorem strtokAll_some {delims s t rest : Str} (h : strtok delims s = (some t, rest)) :
    strtokAll delims s = t :: strtokAll delims rest :=
  readAll_some (fun h => strtok_length_lt (strtokReader_eq_some.mp h))
    (strtokReader_eq_some.mpr h)

/-- Delimiters in front of a text do not change its tokens. -/
theorem strtokAll_skip {delims lead s : Str} (hl : ∀ c ∈ lead, c ∈ delims) :
    strtokAll delims (lead ++ s) = strtokAll delims s := by
  rcases h : strtok delims s with ⟨_ | t, rest⟩
  · have hs : ∀ c ∈ s, c ∈ delims := strtok_eq_none_iff.mp (by rw [h])
    rw [strtokAll_none hs, strtokAll_none]
    intro c hc
    rcases List.mem_append.mp hc with hc | hc
    · exact hl c hc
    · exact hs c hc
  · rw [strtokAll_some h, strtokAll_some ((strtok_skip hl).trans h)]

theorem strtokAll_skip_cons {delims s : Str} {d : Char} (hd : d ∈ delims) :
    strtokAll delims (d :: s) = strtokAll delims s :=
  strtokAll_skip (List.forall_mem_singleton.mpr hd)

/-- A text that ends with a delimiter is cut on its own. -/
theorem strtokAll_append {delims s s' : Str} (h : ∀ c ∈ s.getLast?, c ∈ delims) :
    strtokAll delims (s ++ s') = strtokAll delims s ++ strtokAll delims s' := by
  induction hk : s.length using Nat.strong_induction_on generalizing s with
  | _ k ih =>
      rcases hcut : strtok delims s with ⟨_ | t, rest⟩
      · have hs : ∀ c ∈ s, c ∈ delims := strtok_eq_none_iff.mp (by rw [hcut])
        rw [strtokAll_skip hs, strtokAll_none hs, List.nil_append]
      · obtain ⟨lead, after, rfl, hlead, hne, ht, hafter⟩ := strtok_eq_some_iff.mp hcut
        rcases hafter with ⟨rfl, -⟩ | ⟨d, hd, rfl⟩
        · -- the last byte would be one of the token
          rw [List.append_nil, List.getLast?_append_of_ne_nil _ hne] at h
          have hlast := List.getLast_mem hne
          exact absurd (h _ (List.getLast?_eq_getLast_of_ne_nil hne)) (ht _ hlast)
        · have hlonger : strtok delims (lead ++ (t ++ d :: rest) ++ s') = (some t, rest ++ s') :=
            strtok_eq_some_iff.mpr ⟨lead, d :: (rest ++ s'), by simp, hlead, hne, ht,
              .inr ⟨d, hd, rfl⟩⟩
          have hrest : ∀ c ∈ rest.getLast?, c ∈ delims := fun c hc => by
            refine h c ?_
            rw [← List.append_assoc, List.getLast?_append, List.getLast?_cons, hc]
            rfl
          rw [strtokAll_some hlonger, strtokAll_some hcut, List.cons_append,
            ih rest.length (hk ▸ strtok_length_lt hcut) hrest rfl]

/-- The parts of a text between delimiters that are not empty. -/
def segments (delims s : Str) : List Str := (s.splitOnP (· ∈ delims)).filter (· ≠ [])

theorem segments_skip {delims lead s : Str} (hl : ∀ c ∈ lead, c ∈ delims) :
    segments delims (lead ++ s) = segments delims s := by
  induction lead with
  | nil => rfl
  | cons c lead ih =>
      have hc : c ∈ delims := hl c List.mem_cons_self
      rw [← ih fun d hd => hl d (List.mem_cons_of_mem _ hd)]
      simp [segments, List.splitOnP_cons_eq_if_modifyHead, hc]

/-- A part in front of a text that starts with a delimiter, if it goes on. -/
theorem segments_run {delims t after : Str} (hne : t ≠ []) (ht : ∀ c ∈ t, c ∉ delims)
    (hafter : ∀ c ∈ after.head?, c ∈ delims) :
    segments delims (t ++ after) = t :: segments delims (after.drop 1) := by
  have hbytes : ∀ c ∈ t, decide (c ∈ delims) = false := by simpa using ht
  cases after with
  | nil => simp [segments, List.splitOnP_eq_singleton hbytes, hne]
  | cons d rest =>
      have hd : decide (d ∈ delims) = true := by simpa using hafter
      simp [segments, List.splitOnP_append_cons_of_forall_mem hbytes d hd, hne]

/-- `strtok` cuts the parts of the text between delimiters, one after the other. -/
theorem strtokAll_eq_segments (delims s : Str) : strtokAll delims s = segments delims s := by
  induction hk : s.length using Nat.strong_induction_on generalizing s with
  | _ k ih =>
      rcases hcut : strtok delims s with ⟨_ | t, rest⟩
      · have hs : ∀ c ∈ s, c ∈ delims := strtok_eq_none_iff.mp (by rw [hcut])
        have hnone := segments_skip (s := []) hs
        rw [List.append_nil] at hnone
        rw [strtokAll_none hs, hnone]
        simp [segments]
      · have hrest := ih rest.length (hk ▸ strtok_length_lt hcut) rest rfl
        obtain ⟨lead, after, rfl, hlead, hne, ht, hafter⟩ := strtok_eq_some_iff.mp hcut
        rw [strtokAll_some hcut, segments_skip hlead, hrest]
        rcases hafter with ⟨rfl, rfl⟩ | ⟨d, hd, rfl⟩
        · exact (segments_run hne ht (show ∀ c ∈ ([] : Str).head?, c ∈ delims by simp)).symm
        · have hhead : ∀ c ∈ (d :: rest).head?, c ∈ delims := by simpa using hd
          exact (segments_run hne ht hhead).symm

/-- A part of a text that ends at delimiters, or at the ends of the text, on both
sides and holds no delimiter. -/
def Between (delims s t : Str) : Prop :=
  ∃ a b, s = a ++ (t ++ b) ∧ (∀ c ∈ t, c ∉ delims) ∧ (∀ c ∈ a.getLast?, c ∈ delims) ∧
    ∀ c ∈ b.head?, c ∈ delims

theorem Between.isInfix {delims s t : Str} (h : Between delims s t) : t <:+: s := by
  obtain ⟨a, b, rfl, -⟩ := h
  exact ⟨a, b, List.append_assoc _ _ _⟩

/-- A token in front of a delimiter, or of the end. -/
theorem strtokAll_token {delims t after : Str} (hne : t ≠ []) (ht : ∀ c ∈ t, c ∉ delims)
    (hafter : ∀ c ∈ after.head?, c ∈ delims) :
    strtokAll delims (t ++ after) = t :: strtokAll delims after := by
  cases after with
  | nil =>
      have hlast : strtok delims (t ++ []) = (some t, []) := by
        rw [List.append_nil]
        exact strtok_last hne ht
      rw [strtokAll_some hlast]
  | cons d rest =>
      have hd : d ∈ delims := hafter d rfl
      rw [strtokAll_some (strtok_token hne ht hd), strtokAll_skip_cons hd]

/-- The tokens around a token. -/
theorem strtokAll_place {delims a t b : Str} (hne : t ≠ []) (ht : ∀ c ∈ t, c ∉ delims)
    (ha : ∀ c ∈ a.getLast?, c ∈ delims) (hb : ∀ c ∈ b.head?, c ∈ delims) :
    strtokAll delims (a ++ (t ++ b)) = strtokAll delims a ++ t :: strtokAll delims b := by
  rw [strtokAll_append ha, strtokAll_token hne ht hb]

/-- Each token has its place in the text, between delimiters. -/
theorem exists_place {delims s t : Str} {before behind : List Str}
    (h : strtokAll delims s = before ++ t :: behind) :
    ∃ a b, s = a ++ (t ++ b) ∧ strtokAll delims a = before ∧ t ≠ [] ∧ (∀ c ∈ t, c ∉ delims) ∧
      (∀ c ∈ a.getLast?, c ∈ delims) ∧ ∀ c ∈ b.head?, c ∈ delims := by
  induction hk : s.length using Nat.strong_induction_on generalizing s before with
  | _ k ih =>
      rcases hcut : strtok delims s with ⟨_ | t', rest⟩
      · rw [strtokAll_none (strtok_eq_none_iff.mp (by rw [hcut]))] at h
        exact absurd h.symm (by simp)
      · have hshorter := strtok_length_lt hcut
        obtain ⟨lead, after, rfl, hlead, hne, ht, hafter⟩ := strtok_eq_some_iff.mp hcut
        rw [strtokAll_some hcut] at h
        cases before with
        | nil =>
            cases h
            refine ⟨lead, after, rfl, strtokAll_none hlead, hne, ht,
              fun c hc => hlead c (List.mem_of_getLast? hc), fun c hc => ?_⟩
            rcases hafter with ⟨rfl, -⟩ | ⟨d, hd, rfl⟩
            · cases hc
            · cases hc
              exact hd
        | cons t'' before =>
            injection h with ht'' h
            subst ht''
            obtain ⟨a, b, rfl, hbefore, hne', ht', ha, hb⟩ := ih _ (hk ▸ hshorter) h rfl
            rcases hafter with ⟨-, hnil⟩ | ⟨d, hd, rfl⟩
            · simp [hne'] at hnil
            · have hda : ∀ c ∈ (d :: a).head?, c ∈ delims := by simpa using hd
              refine ⟨lead ++ (t' ++ d :: a), b, by simp, ?_, hne', ht', fun c hc => ?_, hb⟩
              · rw [strtokAll_skip hlead, strtokAll_token hne ht hda, ← hbefore,
                  strtokAll_skip_cons hd]
              · rw [← List.append_assoc, List.getLast?_append, List.getLast?_cons] at hc
                cases hlast : a.getLast? with
                | none =>
                    rw [hlast] at hc
                    cases hc
                    exact hd
                | some c' =>
                    rw [hlast] at hc
                    cases hc
                    exact ha c' hlast

/-- The tokens of a text are cut at delimiters on both sides. -/
theorem mem_strtokAll {delims s t : Str} (h : t ∈ strtokAll delims s) :
    t ≠ [] ∧ Between delims s t := by
  obtain ⟨before, behind, h⟩ := List.append_of_mem h
  obtain ⟨a, b, hs, -, hne, ht, ha, hb⟩ := exists_place h
  exact ⟨hne, a, b, hs, ht, ha, hb⟩

/-! ## Reading lines and blocks -/

/-- A text up to and with its first line feed. -/
def takeLine : Str → Str
  | [] => []
  | c :: s => if c = '\n' then [c] else c :: takeLine s

/-- `fgets(buf, n, stream)`: the bytes stored and the stream behind them, or
`none` at the end of the stream. -/
def fgets (n : Nat) (s : Str) : Option (Str × Str) :=
  if s = [] then none
  else
    let line := (takeLine s).take (n - 1)
    some (line, s.drop line.length)

/-- `getline`: a line of any length with its line feed. -/
def getline (s : Str) : Option (Str × Str) :=
  if s = [] then none else some (takeLine s, s.drop (takeLine s).length)

/-- `fread(buf, 1, n, stream)`: the next block of at most `n` bytes. -/
def fread (n : Nat) (s : Str) : Option (Str × Str) :=
  if s = [] then none else some (s.take n, s.drop n)

/-- What successive calls of `fgets(buf, n, stream)` store. -/
def fgetsAll (n : Nat) : Str → List Str := readAll (fgets n)

/-- What successive calls of `getline` store. -/
def getlineAll : Str → List Str := readAll getline

/-- What successive calls of `fread(buf, 1, n, stream)` store. -/
def freadAll (n : Nat) : Str → List Str := readAll (fread n)

@[simp] theorem fgets_nil (n : Nat) : fgets n [] = none := rfl

@[simp] theorem fgetsAll_nil (n : Nat) : fgetsAll n [] = [] := rfl

@[simp] theorem freadAll_nil (n : Nat) : freadAll n [] = [] := rfl

theorem takeLine_isPrefix : ∀ s : Str, takeLine s <+: s
  | [] => List.nil_prefix
  | c :: s => by
      simp only [takeLine]
      split
      · exact ⟨s, rfl⟩
      · exact List.cons_prefix_cons.mpr ⟨rfl, takeLine_isPrefix s⟩

theorem takeLine_ne_nil {s : Str} (h : s ≠ []) : takeLine s ≠ [] := by
  obtain ⟨c, r, rfl⟩ := List.exists_cons_of_ne_nil h
  simp only [takeLine]
  split <;> exact List.cons_ne_nil _ _

/-- A text without line feed is one line. -/
theorem takeLine_eq_self : ∀ {s : Str}, '\n' ∉ s → takeLine s = s
  | [], _ => rfl
  | c :: s, h => by
      rw [List.mem_cons, not_or] at h
      rw [takeLine, if_neg (Ne.symm h.1), takeLine_eq_self h.2]

/-- The first line of a text that starts with a complete line. -/
theorem takeLine_append : ∀ {b s : Str}, '\n' ∉ b → takeLine (b ++ '\n' :: s) = b ++ ['\n']
  | [], _, _ => rfl
  | c :: b, s, h => by
      rw [List.mem_cons, not_or] at h
      rw [List.cons_append, takeLine, if_neg (Ne.symm h.1), takeLine_append h.2, List.cons_append]

/-- What `fgets` stores stands at the front of the stream. -/
theorem fgets_append {n : Nat} {s line rest : Str} (h : fgets n s = some (line, rest)) :
    s = line ++ rest := by
  simp only [fgets] at h
  split at h
  · cases h
  · cases h
    have hp : (takeLine s).take (n - 1) <+: s := (List.take_prefix _ _).trans (takeLine_isPrefix s)
    conv_lhs => rw [← List.take_append_drop ((takeLine s).take (n - 1)).length s]
    rw [← List.prefix_iff_eq_take.mp hp]

theorem fgets_length_le {n : Nat} {s line rest : Str} (h : fgets n s = some (line, rest)) :
    line.length ≤ n - 1 := by
  simp only [fgets] at h
  split at h
  · cases h
  · cases h
    exact List.length_take_le _ _

theorem fgets_shortens {n : Nat} (hn : 2 ≤ n) : Shortens (fgets n) := by
  intro s line rest h
  simp only [fgets] at h
  split at h
  · cases h
  · next hs =>
    cases h
    have h1 : 0 < (takeLine s).length := List.length_pos_of_ne_nil (takeLine_ne_nil hs)
    have h2 : 0 < s.length := List.length_pos_of_ne_nil hs
    simp only [List.length_drop, List.length_take]
    omega

theorem fread_shortens {n : Nat} (hn : 1 ≤ n) : Shortens (fread n) := by
  intro s x rest h
  simp only [fread] at h
  split at h
  · cases h
  · next hs =>
    cases h
    have h2 : 0 < s.length := List.length_pos_of_ne_nil hs
    rw [List.length_drop]
    omega

/-- Every piece `fgets` stores fits the buffer. -/
theorem length_le_of_mem_fgetsAll {n : Nat} {s line : Str} (h : line ∈ fgetsAll n s) :
    line.length ≤ n - 1 := by
  obtain ⟨s', rest, hr⟩ := mem_readAll h
  exact fgets_length_le hr

theorem freadAll_of_length_le {n : Nat} (hn : 1 ≤ n) {s : Str} (hs : s ≠ []) (hle : s.length ≤ n) :
    freadAll n s = [s] := by
  have h : fread n s = some (s, []) := by
    rw [fread, if_neg hs, List.take_of_length_le hle, List.drop_eq_nil_of_le hle]
  rw [freadAll, readAll_some (fread_shortens hn) h, readAll_none rfl]

theorem freadAll_of_lt_length {n : Nat} (hn : 1 ≤ n) {s : Str} (hlt : n < s.length) :
    freadAll n s = s.take n :: freadAll n (s.drop n) := by
  have hs : s ≠ [] := List.ne_nil_of_length_pos (by omega)
  exact readAll_some (fread_shortens hn) (by rw [fread, if_neg hs])

theorem freadAll_cons {n : Nat} (hn : 1 ≤ n) {s : Str} (hs : s ≠ []) :
    freadAll n s = s.take n :: freadAll n (s.drop n) :=
  readAll_some (fread_shortens hn) (if_neg hs)

theorem fread_append {n : Nat} {s x rest : Str} (h : fread n s = some (x, rest)) :
    s = x ++ rest := by
  simp only [fread] at h
  split at h
  · cases h
  · cases h
    exact (List.take_append_drop n s).symm

/-- The blocks `fread` stores, one after the other, are the stream. -/
theorem flatten_freadAll {n : Nat} (hn : 1 ≤ n) (s : Str) : (freadAll n s).flatten = s :=
  flatten_readAll (fread_shortens hn) fread_append (by simp [fread]) s

/-- What `fgets` stores, one after the other, is the stream. -/
theorem flatten_fgetsAll {n : Nat} (hn : 2 ≤ n) (s : Str) : (fgetsAll n s).flatten = s :=
  flatten_readAll (fgets_shortens hn) fgets_append (by simp [fgets]) s

/-- A line: bytes without line feed, then one line feed. -/
def IsLine (l : Str) : Prop := ∃ b, '\n' ∉ b ∧ l = b ++ ['\n']

theorem IsLine.ne_nil {l : Str} (h : IsLine l) : l ≠ [] := by
  obtain ⟨b, -, rfl⟩ := h
  simp

theorem IsLine.takeLine_append {l : Str} (h : IsLine l) (s : Str) : takeLine (l ++ s) = l := by
  obtain ⟨b, hb, rfl⟩ := h
  rw [List.append_assoc, List.singleton_append, CText.takeLine_append hb]

/-- What is left of a line when its front has been read is a line. -/
theorem IsLine.drop {l : Str} (h : IsLine l) {k : Nat} (hk : k < l.length) : IsLine (l.drop k) := by
  obtain ⟨b, hb, rfl⟩ := h
  have hkb : k ≤ b.length := by
    simp only [List.length_append, List.length_singleton] at hk
    omega
  exact ⟨b.drop k, fun hm => hb (List.mem_of_mem_drop hm), List.drop_append_of_le_length hkb⟩

/-- `fgets` reads a line in blocks of its buffer, then goes on behind it. -/
theorem fgetsAll_line {n : Nat} (hn : 2 ≤ n) {l : Str} (hl : IsLine l) (s : Str) :
    fgetsAll n (l ++ s) = freadAll (n - 1) l ++ fgetsAll n s := by
  induction hk : l.length using Nat.strong_induction_on generalizing l with
  | _ k ih =>
      have hne : l ++ s ≠ [] := by simp [hl.ne_nil]
      by_cases hle : l.length ≤ n - 1
      · have h : fgets n (l ++ s) = some (l, s) := by
          simp only [fgets, if_neg hne, hl.takeLine_append, List.take_of_length_le hle,
            List.drop_left]
        rw [fgetsAll, readAll_some (fgets_shortens hn) h,
          freadAll_of_length_le (by omega) hl.ne_nil hle]
        rfl
      · have hlt : n - 1 < l.length := by omega
        have h : fgets n (l ++ s) = some (l.take (n - 1), l.drop (n - 1) ++ s) := by
          have hmin : (l.take (n - 1)).length = n - 1 := by rw [List.length_take]; omega
          simp only [fgets, if_neg hne, hl.takeLine_append, hmin,
            List.drop_append_of_le_length (show n - 1 ≤ l.length by omega)]
        have ih' := ih (l.drop (n - 1)).length (by rw [List.length_drop]; omega) (hl.drop hlt) rfl
        rw [fgetsAll, readAll_some (fgets_shortens hn) h, ← fgetsAll, ih',
          freadAll_of_lt_length (by omega) hlt, List.cons_append]

/-- A text without line feed is read in blocks of the buffer, too. -/
theorem fgetsAll_rest {n : Nat} (hn : 2 ≤ n) {s : Str} (hlf : '\n' ∉ s) :
    fgetsAll n s = freadAll (n - 1) s := by
  induction hk : s.length using Nat.strong_induction_on generalizing s with
  | _ k ih =>
      by_cases hs : s = []
      · subst hs
        rfl
      · have hcut : fgets n s = some (s.take (n - 1), s.drop (s.take (n - 1)).length) := by
          simp only [fgets, if_neg hs, takeLine_eq_self hlf]
        rw [fgetsAll, readAll_some (fgets_shortens hn) hcut, ← fgetsAll]
        by_cases hle : s.length ≤ n - 1
        · rw [List.take_of_length_le hle, List.drop_length, fgetsAll_nil,
            freadAll_of_length_le (by omega) hs hle]
        · have hlt : n - 1 < s.length := by omega
          have hblock : (s.take (n - 1)).length = n - 1 := List.length_take_of_le hlt.le
          have hrest : (s.drop (n - 1)).length < k := by
            rw [List.length_drop]
            omega
          rw [hblock, ih _ hrest (fun h => hlf (List.mem_of_mem_drop h)) rfl,
            freadAll_of_lt_length (by omega) hlt]

/-! ## Lines -/

theorem getline_shortens : Shortens getline := by
  intro s line rest h
  simp only [getline, Option.ite_none_left_eq_some] at h
  obtain ⟨hs, h⟩ := h
  cases h
  have hline := List.length_pos_of_ne_nil (takeLine_ne_nil hs)
  have hpos := List.length_pos_of_ne_nil hs
  rw [List.length_drop]
  omega

@[simp] theorem getlineAll_nil : getlineAll [] = [] := rfl

theorem getlineAll_line {l : Str} (hl : IsLine l) (s : Str) :
    getlineAll (l ++ s) = l :: getlineAll s := by
  have hne : l ++ s ≠ [] := by simp [hl.ne_nil]
  refine readAll_some getline_shortens ?_
  rw [getline, if_neg hne, hl.takeLine_append, List.drop_left]

theorem getlineAll_rest {s : Str} (hs : s ≠ []) (hlf : '\n' ∉ s) : getlineAll s = [s] := by
  have hcut : getline s = some (s, []) := by
    rw [getline, if_neg hs, takeLine_eq_self hlf, List.drop_length]
  rw [getlineAll, readAll_some getline_shortens hcut, readAll_none rfl]

/-- The lines of a text, and what stands behind its last line feed. -/
theorem getlineAll_flatten {ls : List Str} (hl : ∀ l ∈ ls, IsLine l) (s : Str) :
    getlineAll (ls.flatten ++ s) = ls ++ getlineAll s := by
  induction ls with
  | nil => rfl
  | cons l ls ih =>
      rw [List.flatten_cons, List.append_assoc, getlineAll_line (hl l List.mem_cons_self),
        ih fun l' hl' => hl l' (List.mem_cons_of_mem _ hl'), List.cons_append]

/-- Texts without line feed, each with one behind it, are read back as lines. -/
theorem getlineAll_lines {β : Type} {f : β → Str} {xs : List β} (h : ∀ x ∈ xs, '\n' ∉ f x)
    {last : Str} (hlast : '\n' ∉ last) :
    getlineAll ((xs.map fun x => f x ++ ['\n']).flatten ++ last) =
      (xs.map fun x => f x ++ ['\n']) ++ if last = [] then [] else [last] := by
  have hlines : ∀ l ∈ xs.map fun x => f x ++ ['\n'], IsLine l := by
    intro l hl
    obtain ⟨x, hx, rfl⟩ := List.mem_map.mp hl
    exact ⟨f x, h x hx, rfl⟩
  rw [getlineAll_flatten hlines]
  by_cases hnil : last = []
  · simp [hnil]
  · rw [if_neg hnil, getlineAll_rest hnil hlast]

/-- A text that is not empty starts with a line, or is the rest of one. -/
theorem line_or_rest (s : Str) : (∃ l s', s = l ++ s' ∧ IsLine l) ∨ '\n' ∉ s := by
  by_cases h : '\n' ∈ s
  · obtain ⟨b, s', rfl, hb⟩ := List.eq_append_cons_of_mem h
    exact .inl ⟨b ++ ['\n'], s', by simp, b, hb, rfl⟩
  · exact .inr h

/-- `fgets` reads every line of a text in blocks of its buffer. -/
theorem fgetsAll_eq {n : Nat} (hn : 2 ≤ n) (s : Str) :
    fgetsAll n s = (getlineAll s).flatMap (freadAll (n - 1)) := by
  induction hk : s.length using Nat.strong_induction_on generalizing s with
  | _ k ih =>
      rcases line_or_rest s with ⟨l, s', rfl, hl⟩ | hlf
      · have hshort : s'.length < k := by
          have hpos := List.length_pos_of_ne_nil hl.ne_nil
          rw [List.length_append] at hk
          omega
        rw [fgetsAll_line hn hl, getlineAll_line hl, List.flatMap_cons, ih _ hshort s' rfl]
      · by_cases hs : s = []
        · subst hs
          rfl
        · rw [fgetsAll_rest hn hlf, getlineAll_rest hs hlf, List.flatMap_cons, List.flatMap_nil,
            List.append_nil]

/-- What `getline` stores is a line, or the rest of the text. -/
theorem mem_getlineAll {s l : Str} (h : l ∈ getlineAll s) : IsLine l ∨ l ≠ [] ∧ '\n' ∉ l := by
  induction hk : s.length using Nat.strong_induction_on generalizing s with
  | _ k ih =>
      rcases line_or_rest s with ⟨l', s', rfl, hl'⟩ | hlf
      · have hshort : s'.length < k := by
          have hpos := List.length_pos_of_ne_nil hl'.ne_nil
          rw [List.length_append] at hk
          omega
        rw [getlineAll_line hl'] at h
        rcases List.mem_cons.mp h with rfl | h
        · exact .inl hl'
        · exact ih _ hshort h rfl
      · by_cases hs : s = []
        · subst hs
          cases h
        · rw [getlineAll_rest hs hlf, List.mem_singleton] at h
          exact .inr (h ▸ ⟨hs, hlf⟩)

/-- Lines that fit the buffer are read whole. -/
theorem fgetsAll_of_short {n : Nat} (hn : 2 ≤ n) {s : Str}
    (h : ∀ l ∈ getlineAll s, l.length ≤ n - 1) : fgetsAll n s = getlineAll s := by
  have hwhole : ∀ l ∈ getlineAll s, freadAll (n - 1) l = [l] := by
    intro l hl
    have hne : l ≠ [] := (mem_getlineAll hl).elim IsLine.ne_nil And.left
    exact freadAll_of_length_le (by omega) hne (h l hl)
  rw [fgetsAll_eq hn, List.flatMap_congr hwhole, List.flatMap_singleton']

/-- `fgets` reads every line of a text as it would read the line alone. -/
theorem fgetsAll_flatMap {n : Nat} (hn : 2 ≤ n) (s : Str) :
    fgetsAll n s = (getlineAll s).flatMap (fgetsAll n) := by
  rw [fgetsAll_eq hn]
  refine List.flatMap_congr fun l hl => ?_
  rcases mem_getlineAll hl with hline | ⟨-, hlf⟩
  · have halone := fgetsAll_line hn hline []
    rw [List.append_nil, fgetsAll_nil, List.append_nil] at halone
    exact halone.symm
  · exact (fgetsAll_rest hn hlf).symm

/-- What stands in front of the end of a text has no line feed, if that is the only
place for one. -/
theorem no_lineFeed_of_append {a b : Str} (h : '\n' ∉ (a ++ b).dropLast) (hb : b ≠ []) :
    '\n' ∉ a := by
  rw [List.dropLast_append_of_ne_nil hb, List.mem_append, not_or] at h
  exact h.1

/-- The front of a text has it at the end only, too. -/
theorem no_lineFeed_of_prefix {a s : Str} (h : '\n' ∉ s.dropLast) (ha : a <+: s) :
    '\n' ∉ a.dropLast := by
  obtain ⟨b, rfl⟩ := ha
  by_cases hb : b = []
  · rwa [hb, List.append_nil] at h
  · exact fun hm => no_lineFeed_of_append h hb (List.mem_of_mem_dropLast hm)

/-- `fgets` stores a line feed at the end only. -/
theorem fgets_no_lineFeed {n : Nat} {s line rest : Str} (h : fgets n s = some (line, rest)) :
    '\n' ∉ line.dropLast := by
  have hline : ∀ s : Str, '\n' ∉ (takeLine s).dropLast := by
    intro s
    rcases line_or_rest s with ⟨l, s', rfl, hl⟩ | hlf
    · rw [hl.takeLine_append]
      obtain ⟨b, hb, rfl⟩ := hl
      rwa [List.dropLast_concat]
    · rw [takeLine_eq_self hlf]
      exact fun hm => hlf (List.mem_of_mem_dropLast hm)
  simp only [fgets, Option.ite_none_left_eq_some] at h
  obtain ⟨-, h⟩ := h
  cases h
  exact no_lineFeed_of_prefix (hline s) (List.take_prefix _ _)

/-! ## Fields -/

/-- The next fields of a text, each up to one space, and what is left behind them. -/
def cutFields : Nat → Str → List Str × Str
  | 0, s => ([], s)
  | n + 1, s =>
      let (fields, rest) := cutFields n ((s.dropWhile (· ≠ ' ')).drop 1)
      (s.takeWhile (· ≠ ' ') :: fields, rest)

/-- Fields that hold no space, each with one behind it, are cut back. -/
theorem cutFields_join {fields : List Str} (h : ∀ f ∈ fields, ' ' ∉ f) (rest : Str) :
    cutFields fields.length ((fields.map (· ++ [' '])).flatten ++ rest) = (fields, rest) := by
  induction fields with
  | nil => rfl
  | cons f fields ih =>
      have hbytes : ∀ c ∈ f, decide (c ≠ ' ') = true := by
        intro c hc
        simpa using fun heq : c = ' ' => h f List.mem_cons_self (heq ▸ hc)
      have hstop : ∀ c ∈ (' ' :: ((fields.map (· ++ [' '])).flatten ++ rest)).head?,
          decide (c ≠ ' ') = false := by simp
      have htext : ((f :: fields).map (· ++ [' '])).flatten ++ rest =
          f ++ ' ' :: ((fields.map (· ++ [' '])).flatten ++ rest) := by simp
      rw [htext, List.length_cons, cutFields, takeWhile_run hbytes hstop,
        dropWhile_run hbytes hstop, List.drop_one, List.tail_cons,
        ih fun f' hf' => h f' (List.mem_cons_of_mem _ hf')]

/-! ## Letter case -/

/-- The same ASCII letter in another case, or the same byte. -/
def SameLetter (c d : Char) : Prop :=
  c = d ∨ (c.isUpper ∧ d.toNat = c.toNat + 32) ∨ (d.isUpper ∧ c.toNat = d.toNat + 32)

/-- Two texts are equal, ignoring the case of ASCII letters. -/
def SameIgnoringCase (s t : Str) : Prop := List.Forall₂ SameLetter s t

theorem isUpper_iff {c : Char} : c.isUpper = true ↔ 65 ≤ c.toNat ∧ c.toNat ≤ 90 := by
  have hletter : c.isUpper = true ↔ 'A'.val ≤ c.val ∧ c.val ≤ 'Z'.val := decide_eq_true_iff
  rw [hletter, UInt32.le_iff_toNat_le, UInt32.le_iff_toNat_le, Char.toNat_val]
  rfl

theorem toLower_toNat (c : Char) :
    c.toLower.toNat = if c.isUpper then c.toNat + 32 else c.toNat := by
  by_cases h : c.isUpper = true
  · have hbound := isUpper_iff.mp h
    have hval : c.toLower.toNat = (c.val + ('a'.val - 'A'.val)).toNat :=
      congrArg Char.toNat (dif_pos (decide_eq_true_iff.mp h))
    rw [if_pos h, hval, UInt32.toNat_add, Char.toNat_val]
    change (c.toNat + 32) % 4294967296 = c.toNat + 32
    omega
  · have hsame : c.toLower = c := dif_neg (mt decide_eq_true_iff.mpr h)
    rw [if_neg h, hsame]

theorem toLower_eq_toLower_iff {c d : Char} : c.toLower = d.toLower ↔ SameLetter c d := by
  rw [← Char.toNat_inj, toLower_toNat, toLower_toNat, SameLetter, ← Char.toNat_inj]
  simp only [isUpper_iff]
  split <;> split <;> omega

theorem map_toLower_eq_iff {s t : Str} :
    s.map Char.toLower = t.map Char.toLower ↔ SameIgnoringCase s t := by
  rw [SameIgnoringCase]
  induction s generalizing t with
  | nil =>
      cases t with
      | nil => exact iff_of_true rfl .nil
      | cons d t => exact iff_of_false nofun nofun
  | cons c s ih =>
      cases t with
      | nil => exact iff_of_false nofun nofun
      | cons d t => simp [ih, toLower_eq_toLower_iff]

end CText
