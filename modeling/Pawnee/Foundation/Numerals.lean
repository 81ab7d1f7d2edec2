import Pawnee.Foundation.CText

/-!
# Numbers as C prints and scans them

`formatInt` is `%d` of `printf` and `scanInt` is `%d` of `scanf`.  A scanned
number is read as a 64-bit `long` that saturates, and its low 32 bits are
stored as an `int` (`toInt32`).  What `formatInt` prints of a natural number
that an `int` holds is read back by `scanInt` (`scanInt_decimal`).
-/

namespace CText

/-- The decimal digits of a natural number. -/
def decimal (n : Nat) : Str := Nat.toDigits 10 n

/-- `%d` of `printf`. -/
def formatInt : Int → Str
  | .ofNat n => decimal n
  | .negSucc n => '-' :: decimal (n + 1)

/-- `%02d` of `printf`. -/
def formatInt2 (i : Int) : Str :=
  if (formatInt i).length < 2 then '0' :: formatInt i else formatInt i

/-- A value stored in an `int` of 32 bits. -/
def toInt32 (i : Int) : Int := i.bmod 4294967296

/-- A value clamped to a `long` of 64 bits. -/
def saturate64 (i : Int) : Int := max (-9223372036854775808) (min i 9223372036854775807)

/-- `isspace`. -/
def isSpace (c : Char) : Bool := c ∈ [' ', '\t', '\n', '\x0b', '\x0c', '\r']

/-- `%d` of `scanf`: the number stored and the text behind it. -/
def scanInt (s : Str) : Option (Int × Str) :=
  let s := s.dropWhile isSpace
  let negative := s.head? = some '-'
  let s := if s.head? = some '-' ∨ s.head? = some '+' then s.drop 1 else s
  let digits := s.takeWhile Char.isDigit
  if digits = [] then none
  else
    let n : Int := Nat.ofDigitChars 10 digits 0
    some (toInt32 (saturate64 (if negative then -n else n)), s.dropWhile Char.isDigit)

/-- A literal of a `scanf` format: the text behind it, if it stands in front. -/
def scanLiteral (literal s : Str) : Option Str :=
  if literal.isPrefixOf s then some (s.drop literal.length) else none

@[simp] theorem formatInt_natCast (n : Nat) : formatInt (n : Int) = decimal n := rfl

theorem toInt32_eq_self {i : Int} (h1 : -2147483648 ≤ i) (h2 : i < 2147483648) :
    toInt32 i = i := by
  rw [toInt32, Int.bmod_eq_iff (by decide)]
  refine ⟨?_, ?_, ?_⟩ <;> omega

theorem toInt32_bounds (i : Int) : -2147483648 ≤ toInt32 i ∧ toInt32 i < 2147483648 := by
  have h1 := Int.le_bmod (x := i) (m := 4294967296) (by decide)
  have h2 := Int.bmod_lt (x := i) (m := 4294967296) (by decide)
  unfold toInt32
  omega

/-- An `int` keeps exactly the sizes below 2^31. -/
theorem toInt32_natCast_eq_iff {n : Nat} : toInt32 n = n ↔ n < 2147483648 := by
  refine ⟨fun h => ?_, fun h => toInt32_eq_self (by omega) (by omega)⟩
  have hbound := (toInt32_bounds n).2
  omega

theorem saturate64_eq_self {i : Int} (h1 : -9223372036854775808 ≤ i)
    (h2 : i ≤ 9223372036854775807) : saturate64 i = i := by
  unfold saturate64
  omega

/-- When a number stored through a `long` is greater than 1 as an `int`. -/
theorem one_lt_toInt32_saturate64 {n : Nat} :
    1 < toInt32 (saturate64 n) ↔
      n < 9223372036854775808 ∧ 2 ≤ n % 4294967296 ∧ n % 4294967296 < 2147483648 := by
  obtain ⟨hlow, hhigh⟩ := toInt32_bounds (saturate64 n)
  have hmod : toInt32 (saturate64 n) % 4294967296 = saturate64 n % 4294967296 := Int.bmod_emod
  by_cases hn : n < 9223372036854775808
  · rw [saturate64_eq_self (by omega) (by omega)] at hlow hhigh hmod ⊢
    omega
  · have hmax : saturate64 n = 9223372036854775807 := by
      unfold saturate64
      omega
    rw [hmax] at hlow hhigh hmod ⊢
    omega

/-- An `int` keeps exactly the numbers below 2^31. -/
theorem toInt32_saturate64_eq_iff {n : Nat} :
    toInt32 (saturate64 n) = n ↔ n < 2147483648 := by
  constructor
  · intro h
    have hbound := (toInt32_bounds (saturate64 n)).2
    omega
  · intro h
    rw [saturate64_eq_self (by omega) (by omega), toInt32_eq_self (by omega) (by omega)]

/-! ## Digits -/

theorem isDigit_of_mem_decimal {n : Nat} {c : Char} (h : c ∈ decimal n) : c.isDigit :=
  Nat.isDigit_of_mem_toDigits (by decide) (by decide) h

theorem decimal_ne_nil (n : Nat) : decimal n ≠ [] := Nat.toDigits_ne_nil

theorem notMem_decimal {n : Nat} {c : Char} (hc : c.isDigit = false) : c ∉ decimal n := by
  intro h
  rw [isDigit_of_mem_decimal h] at hc
  cases hc

theorem notMem_formatInt {i : Int} {c : Char} (hc : c.isDigit = false) (hm : c ≠ '-') :
    c ∉ formatInt i := by
  cases i with
  | ofNat n => exact notMem_decimal hc
  | negSucc n => simp [formatInt, hm, notMem_decimal hc]

theorem decimal_injective : Function.Injective decimal := by
  intro m n h
  have hval : ∀ k, Nat.ofDigitChars 10 (decimal k) 0 = k := fun _ =>
    Nat.ofDigitChars_ten_toDigits
  have hdigits := congrArg (fun s => Nat.ofDigitChars 10 s 0) h
  simpa only [hval] using hdigits

/-- Two numbers that are printed alike are the same. -/
theorem formatInt_injective : Function.Injective formatInt := by
  have hmixed : ∀ m n, decimal m ≠ '-' :: decimal n := by
    intro m n h
    have hminus : '-' ∈ decimal m := h ▸ List.mem_cons_self
    exact notMem_decimal (by decide) hminus
  intro i j h
  cases i with
  | ofNat m =>
      cases j with
      | ofNat n => exact congrArg Int.ofNat (decimal_injective h)
      | negSucc n => exact absurd h (hmixed m (n + 1))
  | negSucc m =>
      cases j with
      | ofNat n => exact absurd h.symm (hmixed n (m + 1))
      | negSucc n =>
          have hdigits := decimal_injective (List.cons.inj h).2
          rw [Nat.succ.inj hdigits]

theorem decimal_length_le {n : Nat} (h : n < 10000000000) : (decimal n).length ≤ 10 :=
  (Nat.length_toDigits_le_iff (by decide) (by decide)).mpr h

/-- Two digits are enough below 100. -/
theorem formatInt2_length_le {n : Nat} (h : n < 100) : (formatInt2 n).length ≤ 2 := by
  have hlen : (decimal n).length ≤ 2 :=
    (Nat.length_toDigits_le_iff (by decide) (by decide)).mpr h
  rw [formatInt2, formatInt_natCast]
  split
  · rw [List.length_cons]
    omega
  · exact hlen

/-- An `int` is printed in at most eleven bytes. -/
theorem formatInt_length_le {i : Int} (h1 : -2147483648 ≤ i) (h2 : i < 2147483648) :
    (formatInt i).length ≤ 11 := by
  cases i with
  | ofNat n =>
      have h : (decimal n).length ≤ 10 := decimal_length_le (by simp at h2; omega)
      exact h.trans (by decide)
  | negSucc n =>
      have h : (decimal (n + 1)).length ≤ 10 := decimal_length_le (by omega)
      simp only [formatInt, List.length_cons]
      omega

/-! ## Scanning -/

/-- A text `%d` of `scanf` takes whole, and the number it stores: white space, a
sign and digits. -/
def Numeral (s : Str) (i : Int) : Prop :=
  ∃ lead sign digits, s = lead ++ (sign ++ digits) ∧ (∀ c ∈ lead, isSpace c = true) ∧
    (sign = [] ∨ sign = ['-'] ∨ sign = ['+']) ∧ digits ≠ [] ∧
    (∀ c ∈ digits, c.isDigit = true) ∧
    i = toInt32 (saturate64 (if sign = ['-'] then -(Nat.ofDigitChars 10 digits 0 : Int)
      else Nat.ofDigitChars 10 digits 0))

/-- A digit is no white space and no sign. -/
theorem not_special_of_isDigit {c : Char} (h : c.isDigit = true) :
    isSpace c = false ∧ c ≠ '-' ∧ c ≠ '+' := by
  refine ⟨?_, ?_, ?_⟩
  · simp only [isSpace, List.mem_cons, List.not_mem_nil, or_false, decide_eq_false_iff_not]
    rintro (rfl | rfl | rfl | rfl | rfl | rfl) <;> exact absurd h (by decide)
  · rintro rfl
    exact absurd h (by decide)
  · rintro rfl
    exact absurd h (by decide)

/-- The sign in front of digits is taken off. -/
theorem sign_append {sign t : Str} (hsign : sign = [] ∨ sign = ['-'] ∨ sign = ['+'])
    (hminus : t.head? ≠ some '-') (hplus : t.head? ≠ some '+') :
    ((sign ++ t).head? = some '-' ↔ sign = ['-']) ∧
      (if (sign ++ t).head? = some '-' ∨ (sign ++ t).head? = some '+' then (sign ++ t).drop 1
        else sign ++ t) = t := by
  rcases hsign with rfl | rfl | rfl
  · simp [hminus, hplus]
  · simp
  · simp

/-- A numeral is scanned up to the first byte that is no digit. -/
theorem scanInt_numeral {s rest : Str} {i : Int} (h : Numeral s i)
    (hrest : ∀ c ∈ rest.head?, c.isDigit = false) : scanInt (s ++ rest) = some (i, rest) := by
  obtain ⟨lead, sign, digits, rfl, hlead, hsign, hne, hdigits, rfl⟩ := h
  have hhead : ∀ c ∈ (digits ++ rest).head?, isSpace c = false ∧ c ≠ '-' ∧ c ≠ '+' := by
    obtain ⟨d, ds, rfl⟩ := List.exists_cons_of_ne_nil hne
    intro c hc
    cases hc
    exact not_special_of_isDigit (hdigits d List.mem_cons_self)
  have hskip : (lead ++ (sign ++ digits) ++ rest).dropWhile isSpace =
      sign ++ (digits ++ rest) := by
    rw [List.append_assoc, List.append_assoc]
    refine dropWhile_run hlead fun c hc => ?_
    rcases hsign with rfl | rfl | rfl
    · exact (hhead c hc).1
    · cases hc
      decide
    · cases hc
      decide
  obtain ⟨hneg, hdrop⟩ := sign_append hsign (fun h => (hhead _ h).2.1 rfl)
    fun h => (hhead _ h).2.2 rfl
  simp only [scanInt, hskip, hdrop]
  simp only [hneg, takeWhile_run hdigits hrest, dropWhile_run hdigits hrest, if_neg hne]

/-- Every text has a sign in front, which may be empty. -/
theorem exists_sign (t : Str) :
    ∃ sign u, t = sign ++ u ∧ (sign = [] ∨ sign = ['-'] ∨ sign = ['+']) ∧
      (t.head? = some '-' ↔ sign = ['-']) ∧
      (if t.head? = some '-' ∨ t.head? = some '+' then t.drop 1 else t) = u := by
  by_cases hminus : t.head? = some '-'
  · obtain ⟨u, rfl⟩ := List.head?_eq_some_iff.mp hminus
    exact ⟨['-'], u, rfl, .inr (.inl rfl), by simp, by simp⟩
  · by_cases hplus : t.head? = some '+'
    · obtain ⟨u, rfl⟩ := List.head?_eq_some_iff.mp hplus
      exact ⟨['+'], u, rfl, .inr (.inr rfl), by simp, by simp⟩
    · exact ⟨[], t, rfl, .inl rfl, by simp [hminus], by simp [hminus, hplus]⟩

/-- What `%d` scans is a numeral and the text behind its digits. -/
theorem scanInt_eq_some_iff {s rest : Str} {i : Int} :
    scanInt s = some (i, rest) ↔
      ∃ n, s = n ++ rest ∧ Numeral n i ∧ ∀ c ∈ rest.head?, c.isDigit = false := by
  refine ⟨fun h => ?_, fun ⟨n, hs, hn, hrest⟩ => hs ▸ scanInt_numeral hn hrest⟩
  simp only [scanInt, Option.ite_none_left_eq_some] at h
  obtain ⟨hne, h⟩ := h
  obtain ⟨hi, hrest⟩ := Prod.mk.inj (Option.some.inj h)
  have hlead := List.takeWhile_append_dropWhile (p := isSpace) (l := s)
  obtain ⟨sign, u, ht, hsign, hneg, hu⟩ := exists_sign (s.dropWhile isSpace)
  rw [hu] at hne hi hrest
  have hdigits := List.takeWhile_append_dropWhile (p := Char.isDigit) (l := u)
  refine ⟨s.takeWhile isSpace ++ (sign ++ u.takeWhile Char.isDigit), ?_,
    ⟨_, sign, _, rfl, fun c hc => List.mem_takeWhile_imp hc, hsign, hne,
      fun c hc => List.mem_takeWhile_imp hc, ?_⟩, ?_⟩
  · rw [← hrest, List.append_assoc, List.append_assoc, hdigits, ← ht, hlead]
  · rw [← hi]
    simp only [hneg]
  · rw [← hrest]
    exact head_dropWhile

/-- Digits are a numeral of their value. -/
theorem numeral_digits {digits : Str} {n : Nat} (hne : digits ≠ [])
    (hdigits : ∀ c ∈ digits, c.isDigit = true) (hval : Nat.ofDigitChars 10 digits 0 = n)
    (hn : n < 2147483648) : Numeral digits n := by
  refine ⟨[], [], digits, rfl, by simp, .inl rfl, hne, hdigits, ?_⟩
  rw [if_neg (by decide), hval, saturate64_eq_self (by omega) (by omega),
    toInt32_eq_self (by omega) (by omega)]

/-- Printing a natural number of an `int` and scanning it again gives the number
and the text behind it. -/
theorem scanInt_decimal {n : Nat} {rest : Str} (hn : n < 2147483648)
    (hrest : ∀ c ∈ rest.head?, c.isDigit = false) :
    scanInt (decimal n ++ rest) = some ((n : Int), rest) :=
  scanInt_numeral (numeral_digits (decimal_ne_nil n) (fun _ hc => isDigit_of_mem_decimal hc)
    Nat.ofDigitChars_ten_toDigits hn) hrest

/-- A number printed with at least two digits is scanned like any other. -/
theorem scanInt_formatInt2 {n : Nat} {rest : Str} (hn : n < 2147483648)
    (hrest : ∀ c ∈ rest.head?, c.isDigit = false) :
    scanInt (formatInt2 n ++ rest) = some ((n : Int), rest) := by
  rw [formatInt2, formatInt_natCast]
  split
  · refine scanInt_numeral (numeral_digits (List.cons_ne_nil _ _) ?_ ?_ hn) hrest
    · exact List.forall_mem_cons.mpr ⟨by decide, fun _ hc => isDigit_of_mem_decimal hc⟩
    · have hval : Nat.ofDigitChars 10 (decimal n) 0 = n := Nat.ofDigitChars_ten_toDigits
      rw [Nat.ofDigitChars_cons]
      exact hval
  · exact scanInt_decimal hn hrest

/-- A literal in front of a text is taken off. -/
theorem scanLiteral_append (literal s : Str) : scanLiteral literal (literal ++ s) = some s := by
  have h : literal.isPrefixOf (literal ++ s) = true :=
    List.isPrefixOf_iff_prefix.mpr (List.prefix_append _ _)
  rw [scanLiteral, if_pos h, List.drop_left]

theorem scanLiteral_eq_some_iff {literal s rest : Str} :
    scanLiteral literal s = some rest ↔ s = literal ++ rest := by
  refine ⟨fun h => ?_, fun h => h ▸ scanLiteral_append literal rest⟩
  simp only [scanLiteral, Option.ite_none_right_eq_some, List.isPrefixOf_iff_prefix] at h
  obtain ⟨⟨t, rfl⟩, hrest⟩ := h
  rw [List.drop_left] at hrest
  rw [Option.some.inj hrest]

end CText
