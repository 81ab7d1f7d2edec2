import Pawnee.Foundation.Calendar
import Pawnee.Child.Observed

/-!
# The dates of the headers

`time_to_http_format` prints an instant with the format `"%a, %d %b %G %X %Z"`.  `%G` is
the ISO 8601 week-based year, where an HTTP date has the year of the date.  What `strftime`
writes is read back part by part (`readHttpDate_print`), so the date of an instant is
right exactly if its week belongs to its year (`denotesInstant_iff`).

The texts of two instants are different all the same: the other parts say which of the
two years is meant (`eq_of_isoYear`).
-/

namespace Pawnee

open CText Effects Calendar

/-! ## Instants -/

/-- The parts of an HTTP date. -/
structure HttpDate where
  weekday : Weekday
  day : Int
  month : Month
  year : Int
  hour : Int
  min : Int
  sec : Int
deriving DecidableEq, Repr

/-- The day number of an instant.  The instant 0 is in the first day of 1970. -/
def dayOf (t : Int) : Int := 719528 + t / 86400

/-- The parts are the Gregorian date and the time of day of the instant, in UTC. -/
structure HttpDate.Denotes (h : HttpDate) (t : Int) : Prop where
  date : ∃ date : Date, dayNumber date.year date.month date.day = dayOf t ∧
    h.year = date.year ∧ h.month = date.month ∧ h.day = date.day
  weekday : h.weekday = weekdayOf (dayOf t)
  time : h.hour * 3600 + h.min * 60 + h.sec = t % 86400
  min_range : 0 ≤ h.min ∧ h.min < 60
  sec_range : 0 ≤ h.sec ∧ h.sec < 60

/-- The instant of the parts. -/
def HttpDate.instant (h : HttpDate) : Int :=
  (dayNumber h.year h.month h.day - 719528) * 86400 + h.hour * 3600 + h.min * 60 + h.sec

/-- `localtime` of an instant, in the UTC zone. -/
def utcTime (t : Int) : HttpDate where
  weekday := weekdayOf (dayOf t)
  day := (dateOf (dayOf t)).day
  month := (dateOf (dayOf t)).month
  year := (dateOf (dayOf t)).year
  hour := t % 86400 / 3600
  min := t % 3600 / 60
  sec := t % 60

theorem utcTime_denotes (t : Int) : (utcTime t).Denotes t where
  date := ⟨dateOf (dayOf t), dayNumber_dateOf _, rfl, rfl, rfl⟩
  weekday := rfl
  time := by simp only [utcTime]; omega
  min_range := by simp only [utcTime]; omega
  sec_range := by simp only [utcTime]; omega

example : utcTime 0 = ⟨.thu, 1, .jan, 1970, 0, 0, 0⟩ := by decide

/-- The parts of an instant are determined. -/
theorem HttpDate.Denotes.eq_utcTime {h : HttpDate} {t : Int} (hd : h.Denotes t) :
    h = utcTime t := by
  obtain ⟨⟨date, hnumber, hyear, hmonth, hday⟩, hweekday, htime, hmin, hsec⟩ := hd
  obtain ⟨weekday, day, month, year, hour, min, sec⟩ := h
  have hdate : dateOf (dayOf t) = date := by rw [← hnumber, dateOf_dayNumber]
  simp only at *
  subst hyear hmonth hday hweekday
  simp only [utcTime, hdate, HttpDate.mk.injEq, true_and]
  refine ⟨?_, ?_, ?_⟩ <;> omega

/-- The parts of an instant give it back. -/
theorem instant_utcTime (t : Int) : (utcTime t).instant = t := by
  simp only [HttpDate.instant, utcTime, dayNumber_dateOf]
  unfold dayOf
  omega

/-! ## `strftime` -/

/-- The abbreviated names of the days of the week in the C locale. -/
def dayName : Weekday → Str
  | .mon => "Mon".toList
  | .tue => "Tue".toList
  | .wed => "Wed".toList
  | .thu => "Thu".toList
  | .fri => "Fri".toList
  | .sat => "Sat".toList
  | .sun => "Sun".toList

/-- The abbreviated names of the months in the C locale. -/
def monthName : Month → Str
  | .jan => "Jan".toList
  | .feb => "Feb".toList
  | .mar => "Mar".toList
  | .apr => "Apr".toList
  | .may => "May".toList
  | .jun => "Jun".toList
  | .jul => "Jul".toList
  | .aug => "Aug".toList
  | .sep => "Sep".toList
  | .oct => "Oct".toList
  | .nov => "Nov".toList
  | .dec => "Dec".toList

/-- What a conversion of `strftime` writes for an instant, in the UTC zone and the C
locale. -/
def conversion (t : Int) : Char → Str
  | 'a' => dayName (utcTime t).weekday
  | 'd' => formatInt2 (utcTime t).day
  | 'b' => monthName (utcTime t).month
  | 'G' => formatInt (isoYear (dayOf t))
  | 'X' => formatInt2 (utcTime t).hour ++ ":".toList ++ formatInt2 (utcTime t).min ++
      ":".toList ++ formatInt2 (utcTime t).sec
  | 'Z' => "UTC".toList
  -- the format of `time_to_http_format` has no other conversion
  | c => ['%', c]

/-- The text of a format.  A `%` and the byte behind it are a conversion. -/
def formatTime (t : Int) : Str → Str
  | [] => []
  | [c] => [c]
  | c :: d :: format =>
      if c = '%' then conversion t d ++ formatTime t format else c :: formatTime t (d :: format)

/-- The format of `time_to_http_format`. -/
def httpFormat : Str := "%a, %d %b %G %X %Z".toList

/-- The instants from 1970 through the year 9999. -/
def HttpTime (t : Int) : Prop := 0 ≤ t ∧ t < 253402300800

instance (t : Int) : Decidable (HttpTime t) := inferInstanceAs (Decidable (_ ∧ _))

/-- `strftime` writes a text that fits its 40 bytes as the C standard says. -/
def StandardStrftime (env : Env) : Prop :=
  ∀ t, HttpTime t → (formatTime t httpFormat).length < 40 →
    (env.strftime t).text = formatTime t httpFormat

/-- The parts `strftime` prints: the year is the week-based one. -/
def printedParts (t : Int) : HttpDate := { utcTime t with year := isoYear (dayOf t) }

/-- The text of the parts. -/
def HttpDate.print (h : HttpDate) : Str :=
  dayName h.weekday ++ ([',', ' '] ++ (formatInt2 h.day ++ ([' '] ++ (monthName h.month ++
    ([' '] ++ (formatInt h.year ++ ([' '] ++ (formatInt2 h.hour ++ ([':'] ++
    (formatInt2 h.min ++ ([':'] ++ (formatInt2 h.sec ++ [' ', 'U', 'T', 'C']))))))))))))

theorem formatTime_httpFormat (t : Int) : formatTime t httpFormat = (printedParts t).print := by
  have htext : httpFormat = ['%', 'a', ',', ' ', '%', 'd', ' ', '%', 'b', ' ', '%', 'G', ' ',
    '%', 'X', ' ', '%', 'Z'] := by decide
  rw [htext]
  simp [formatTime, conversion, HttpDate.print, printedParts]

/-! ## Reading a date back -/

/-- The first of some names that stands in front of a text, and the text behind it. -/
def scanName {α : Type} (name : α → Str) : List α → Str → Option (α × Str)
  | [], _ => none
  | a :: l, s =>
      match scanLiteral (name a) s with
      | some rest => some (a, rest)
      | none => scanName name l s

/-- A part and the literal behind it. -/
def readPart {α : Type} (part : Option (α × Str)) (literal : Str) : Option (α × Str) :=
  match part with
  | none => none
  | some (a, s) => (scanLiteral literal s).map fun rest => (a, rest)

/-- The parts of the text of a date. -/
def readHttpDate (s : Str) : Option HttpDate := do
  let (weekday, s) ← readPart (scanName dayName Weekday.all s) [',', ' ']
  let (day, s) ← readPart (scanInt s) [' ']
  let (month, s) ← readPart (scanName monthName Month.all s) [' ']
  let (year, s) ← readPart (scanInt s) [' ']
  let (hour, s) ← readPart (scanInt s) [':']
  let (min, s) ← readPart (scanInt s) [':']
  let (sec, s) ← scanInt s
  if s = [' ', 'U', 'T', 'C'] then some { weekday, day, month, year, hour, min, sec } else none

/-- Among different names of one length, the one in front of the text is found. -/
theorem scanName_append {α : Type} {name : α → Str} {n : Nat} {a : α} {s : Str} :
    ∀ {l : List α}, (∀ b ∈ l, (name b).length = n) → (l.map name).Nodup → a ∈ l →
      scanName name l (name a ++ s) = some (a, s)
  | [], _, _, ha => by cases ha
  | b :: l, hlen, hnodup, ha => by
      rw [scanName]
      rcases List.mem_cons.mp ha with rfl | hl
      · rw [scanLiteral_append]
      · have hne : name a ≠ name b := fun heq =>
          (List.nodup_cons.mp hnodup).1 (heq ▸ List.mem_map_of_mem hl)
        have hnone : scanLiteral (name b) (name a ++ s) = none := by
          refine Option.eq_none_iff_forall_ne_some.mpr fun rest h => hne ?_
          have hsame : (name a).length = (name b).length :=
            (hlen a ha).trans (hlen b List.mem_cons_self).symm
          exact (List.append_inj (scanLiteral_eq_some_iff.mp h) hsame).1
        rw [hnone]
        exact scanName_append (fun c hc => hlen c (List.mem_cons_of_mem b hc))
          (List.nodup_cons.mp hnodup).2 hl

theorem scanName_dayName (w : Weekday) (s : Str) :
    scanName dayName Weekday.all (dayName w ++ s) = some (w, s) :=
  scanName_append (n := 3) (by decide) (by decide) (by cases w <;> decide)

theorem scanName_monthName (m : Month) (s : Str) :
    scanName monthName Month.all (monthName m ++ s) = some (m, s) :=
  scanName_append (n := 3) (by decide) (by decide) (by cases m <;> decide)

theorem readPart_append {α : Type} (a : α) (literal rest : Str) :
    readPart (some (a, literal ++ rest)) literal = some (a, rest) := by
  rw [readPart, scanLiteral_append, Option.map_some]

/-- The ranges of the numbers that are printed. -/
structure HttpDate.InRange (h : HttpDate) : Prop where
  day : 0 ≤ h.day ∧ h.day < 100
  year : 0 ≤ h.year ∧ h.year < 100000
  hour : 0 ≤ h.hour ∧ h.hour < 100
  min : 0 ≤ h.min ∧ h.min < 100
  sec : 0 ≤ h.sec ∧ h.sec < 100

theorem readHttpDate_print {h : HttpDate} (hs : h.InRange) : readHttpDate h.print = some h := by
  obtain ⟨weekday, day, month, year, hour, min, sec⟩ := h
  obtain ⟨⟨hday, hday'⟩, ⟨hyear, hyear'⟩, ⟨hhour, hhour'⟩, ⟨hmin, hmin'⟩, ⟨hsec, hsec'⟩⟩ := hs
  simp only at *
  lift day to Nat using hday
  lift year to Nat using hyear
  lift hour to Nat using hhour
  lift min to Nat using hmin
  lift sec to Nat using hsec
  have hspace : ∀ rest : Str, ∀ c ∈ ([' '] ++ rest).head?, c.isDigit = false := by simp
  have hcolon : ∀ rest : Str, ∀ c ∈ ([':'] ++ rest).head?, c.isDigit = false := by simp
  have hzone : ∀ c ∈ [' ', 'U', 'T', 'C'].head?, c.isDigit = false := by simp
  simp only [readHttpDate, HttpDate.print, Option.bind_eq_bind, Option.bind_some,
    scanName_dayName, scanName_monthName, readPart_append, formatInt_natCast,
    scanInt_decimal (n := year) (by omega) (hspace _),
    scanInt_formatInt2 (n := day) (by omega) (hspace _),
    scanInt_formatInt2 (n := hour) (by omega) (hcolon _),
    scanInt_formatInt2 (n := min) (by omega) (hcolon _),
    scanInt_formatInt2 (n := sec) (by omega) hzone, if_true]

/-! ## The text of an instant -/

/-- The week-based years of the instants. -/
theorem isoYear_range {t : Int} (ht : HttpTime t) :
    0 ≤ isoYear (dayOf t) ∧ isoYear (dayOf t) < 100000 := by
  have hweek := (weekdayOf (dayOf t)).index_bounds
  have hbounds := yearOf_bounds (dayOf t - (weekdayOf (dayOf t)).index + 3)
  have hday : 719528 ≤ dayOf t ∧ dayOf t < 3652425 := by
    unfold HttpTime at ht
    unfold dayOf
    omega
  rw [isoYear]
  generalize yearOf (dayOf t - (weekdayOf (dayOf t)).index + 3) = year at hbounds ⊢
  unfold yearStart at hbounds
  omega

theorem printedParts_inRange {t : Int} (ht : HttpTime t) : (printedParts t).InRange where
  day := by
    have hpos := (dateOf (dayOf t)).day_pos
    have hle := (dateOf (dayOf t)).day_le
    have h31 := (dateOf (dayOf t)).month.days_le (dateOf (dayOf t)).year
    simp only [printedParts, utcTime]
    omega
  year := isoYear_range ht
  hour := by simp only [printedParts, utcTime]; omega
  min := by simp only [printedParts, utcTime]; omega
  sec := by simp only [printedParts, utcTime]; omega

theorem print_length_lt {h : HttpDate} (hr : h.InRange) : h.print.length < 40 := by
  have hdayName : ∀ w, (dayName w).length = 3 := by intro w; cases w <;> rfl
  have hmonthName : ∀ m, (monthName m).length = 3 := by intro m; cases m <;> rfl
  have htwo : ∀ i : Int, 0 ≤ i → i < 100 → (formatInt2 i).length ≤ 2 := by
    intro i h0 h
    lift i to Nat using h0
    exact formatInt2_length_le (by omega)
  have hday := htwo h.day hr.day.1 hr.day.2
  have hhour := htwo h.hour hr.hour.1 hr.hour.2
  have hmin := htwo h.min hr.min.1 hr.min.2
  have hsec := htwo h.sec hr.sec.1 hr.sec.2
  have hyear := formatInt_length_le (i := h.year) (by have := hr.year.1; omega)
    (by have := hr.year.2; omega)
  simp only [HttpDate.print, List.length_append, List.length_cons, List.length_nil, hdayName,
    hmonthName]
  omega

/-- The text of an instant reads as its parts, with the week-based year. -/
theorem read_timeToHttpFormat {env : Env} (hstd : StandardStrftime env) {t : Int}
    (ht : HttpTime t) : readHttpDate (timeToHttpFormat env t) = some (printedParts t) := by
  have hrange := printedParts_inRange ht
  have htext := hstd t ht (by rw [formatTime_httpFormat]; exact print_length_lt hrange)
  rw [timeToHttpFormat, htext, formatTime_httpFormat, readHttpDate_print hrange]

/-- Two instants have different texts. -/
theorem timeToHttpFormat_injective {env : Env} (hstd : StandardStrftime env) {t t' : Int}
    (ht : HttpTime t) (ht' : HttpTime t')
    (h : timeToHttpFormat env t = timeToHttpFormat env t') : t = t' := by
  have hread := read_timeToHttpFormat hstd ht
  rw [h, read_timeToHttpFormat hstd ht', Option.some_inj] at hread
  simp only [printedParts, utcTime, HttpDate.mk.injEq] at hread
  obtain ⟨hweekday, hday, hmonth, hyear, hhour, hmin, hsec⟩ := hread
  have hdays := eq_of_isoYear hweekday hday hmonth hyear
  unfold dayOf at hdays
  omega

/-- The text of an instant reads as its Gregorian date and time, and gives back the
instant.  No other instant has this text. -/
structure DenotesInstant (env : Env) (t : Int) : Prop where
  parts : ∃ h, readHttpDate (timeToHttpFormat env t) = some h ∧ h.Denotes t
  reads_back : (readHttpDate (timeToHttpFormat env t)).map HttpDate.instant = some t
  unique : ∀ t', HttpTime t' → timeToHttpFormat env t' = timeToHttpFormat env t → t' = t

/-- The date of an instant is right exactly if its week belongs to its year. -/
theorem denotesInstant_iff {env : Env} (hstd : StandardStrftime env) {t : Int}
    (ht : HttpTime t) :
    DenotesInstant env t ↔
      ¬ InOtherYear (utcTime t).weekday (utcTime t).month (utcTime t).day := by
  have hread := read_timeToHttpFormat hstd ht
  refine Iff.trans ?_ (isoYear_eq_year_iff (dayOf t))
  constructor
  · rintro ⟨⟨h, hparts, hdenotes⟩, -, -⟩
    rw [hread, Option.some_inj, hdenotes.eq_utcTime] at hparts
    exact congrArg HttpDate.year hparts
  · intro hyear
    have hparts : printedParts t = utcTime t := by rw [printedParts, hyear]; rfl
    rw [hparts] at hread
    exact
      { parts := ⟨utcTime t, hread, utcTime_denotes t⟩
        reads_back := by rw [hread, Option.map_some, instant_utcTime]
        unique := fun t' ht' h => timeToHttpFormat_injective hstd ht' ht h }

/-! ## A day in December -/

/-- A machine with the dates of the C standard. -/
def datedMachine : Env :=
  { machine siteFile [] with
    strftime := fun t =>
      if h : (formatTime t httpFormat).length < 100 then ⟨formatTime t httpFormat, h⟩
      else ⟨[], by decide⟩ }

theorem datedMachine_standard : StandardStrftime datedMachine := by
  intro t _ hfits
  have h : (formatTime t httpFormat).length < 100 := by omega
  simp only [datedMachine, dif_pos h]

/-- Monday, the 30th of December 2024. -/
def lastMonday : Int := 1735516800

theorem denotesInstant_iff_lastMonday :
    DenotesInstant datedMachine lastMonday ↔ ¬ InOtherYear (utcTime lastMonday).weekday
      (utcTime lastMonday).month (utcTime lastMonday).day :=
  denotesInstant_iff datedMachine_standard (by decide)

/-- The text is `Mon, 30 Dec 2025 00:00:00 UTC`. -/
theorem not_denotesInstant_lastMonday :
    StandardStrftime datedMachine ∧ HttpTime lastMonday ∧
      timeToHttpFormat datedMachine lastMonday = "Mon, 30 Dec 2025 00:00:00 UTC".toList ∧
      ¬ DenotesInstant datedMachine lastMonday := by
  refine ⟨datedMachine_standard, by decide, by decide +kernel, fun h => ?_⟩
  have hback := h.reads_back
  revert hback
  decide +kernel

end Pawnee
