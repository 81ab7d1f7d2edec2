import Mathlib.Algebra.Order.BigOperators.Group.List
import Mathlib.Algebra.Order.Ring.Int

/-!
# The Gregorian calendar

Days are numbered, and day 0 is the first of January of the year 0.  A date is a year,
a month and a day of the month that exists in it.  Dates and day numbers correspond
(`dayNumber_dateOf`, `dateOf_dayNumber`), for the years before 0 as well.

Weeks begin on a Monday.  The ISO 8601 week-based year of a day is the year of the
Thursday of its week.  It is the year before for the days in front of a first Monday on
the 2nd, 3rd or 4th of January, the year after from a Monday on the 29th, 30th or 31st
of December on, and else the year itself (`isoYear_eq`).
-/

namespace Calendar

/-! ## Months and years -/

/-- The months. -/
inductive Month where
  | jan | feb | mar | apr | may | jun | jul | aug | sep | oct | nov | dec
deriving DecidableEq, Repr

/-- All months, in order. -/
def Month.all : List Month :=
  [.jan, .feb, .mar, .apr, .may, .jun, .jul, .aug, .sep, .oct, .nov, .dec]

/-- A leap year. -/
def IsLeap (y : Int) : Prop := y % 4 = 0 ∧ (y % 100 ≠ 0 ∨ y % 400 = 0)

instance (y : Int) : Decidable (IsLeap y) := inferInstanceAs (Decidable (_ ∧ _))

/-- The number of days of a month. -/
def Month.days (y : Int) : Month → Int
  | .feb => if IsLeap y then 29 else 28
  | .apr | .jun | .sep | .nov => 30
  | .jan | .mar | .may | .jul | .aug | .oct | .dec => 31

/-- The number of days of a year. -/
def yearDays (y : Int) : Int := (Month.all.map (Month.days y)).sum

/-- The number of days of a year in front of a month. -/
def Month.start (y : Int) (m : Month) : Int :=
  ((all.takeWhile (· ≠ m)).map (days y)).sum

/-- The day number of the first of January.  The quotients count the leap years in
front of the year, which the quotient of integers does for negative years too. -/
def yearStart (y : Int) : Int := 365 * y + (y + 3) / 4 - (y + 99) / 100 + (y + 399) / 400

theorem yearDays_eq (y : Int) : yearDays y = if IsLeap y then 366 else 365 := by
  simp only [yearDays, Month.all, List.map_cons, List.map_nil, List.sum_cons, List.sum_nil,
    Month.days]
  split <;> rfl

theorem yearStart_succ (y : Int) : yearStart (y + 1) = yearStart y + yearDays y := by
  rw [yearDays_eq]
  unfold yearStart
  split
  · next h => unfold IsLeap at h; omega
  · next h => unfold IsLeap at h; omega

theorem le_yearDays (y : Int) : 365 ≤ yearDays y := by
  rw [yearDays_eq]
  split <;> decide

theorem yearStart_mono {y y' : Int} (h : y ≤ y') : yearStart y ≤ yearStart y' := by
  unfold yearStart
  omega

/-! ## The year of a day -/

/-- The year of a day number.  400 years have 146097 days, and the quotient is the year
or the one behind it. -/
def yearOf (n : Int) : Int :=
  if yearStart (400 * (n + 1) / 146097) ≤ n then 400 * (n + 1) / 146097
  else 400 * (n + 1) / 146097 - 1

theorem yearOf_bounds (n : Int) : yearStart (yearOf n) ≤ n ∧ n < yearStart (yearOf n + 1) := by
  unfold yearOf
  split
  · next h =>
      refine ⟨h, ?_⟩
      unfold yearStart
      omega
  · next h =>
      rw [Int.sub_add_cancel]
      refine ⟨?_, by omega⟩
      unfold yearStart
      omega

/-- The year is the only one that has the day. -/
theorem yearOf_eq {n y : Int} (h1 : yearStart y ≤ n) (h2 : n < yearStart (y + 1)) :
    yearOf n = y := by
  obtain ⟨h3, h4⟩ := yearOf_bounds n
  rcases Int.lt_trichotomy (yearOf n) y with hlt | heq | hgt
  · have hmono := yearStart_mono (show yearOf n + 1 ≤ y by omega)
    omega
  · exact heq
  · have hmono := yearStart_mono (show y + 1 ≤ yearOf n by omega)
    omega

/-! ## Stretches of days -/

/-- The stretch that holds the day `k`, when the stretches of a list follow each other. -/
def locate {α : Type*} (length : α → Int) : List α → Int → Option α
  | [], _ => none
  | a :: l, k => if k < length a then some a else locate length l (k - length a)

/-- A day of the list lies in one of its stretches. -/
theorem exists_locate {α : Type*} {length : α → Int} : ∀ {l : List α} {k : Int}, 0 ≤ k →
    k < (l.map length).sum → ∃ before a behind, l = before ++ a :: behind ∧
      locate length l k = some a ∧
      (before.map length).sum ≤ k ∧ k < (before.map length).sum + length a
  | [], k, h0, h => absurd h (by simpa using h0)
  | a :: l, k, h0, h => by
      by_cases ha : k < length a
      · exact ⟨[], a, l, rfl, if_pos ha, by simpa using h0, by simpa using ha⟩
      · rw [List.map_cons, List.sum_cons] at h
        have hrest : k - length a < (l.map length).sum := by omega
        obtain ⟨before, b, behind, rfl, hb, hlow, hhigh⟩ := exists_locate (by omega) hrest
        refine ⟨a :: before, b, behind, rfl, ?_, ?_, ?_⟩
        · rw [locate, if_neg ha, hb]
        · rw [List.map_cons, List.sum_cons]
          omega
        · rw [List.map_cons, List.sum_cons]
          omega

theorem locate_eq {α : Type*} {length : α → Int} (hpos : ∀ a, 0 ≤ length a) {a : α}
    {behind : List α} : ∀ {before : List α} {k : Int}, (before.map length).sum ≤ k →
    k < (before.map length).sum + length a →
    locate length (before ++ a :: behind) k = some a
  | [], k, _, h => if_pos (by simpa using h)
  | b :: before, k, hlow, hhigh => by
      rw [List.map_cons, List.sum_cons] at hlow hhigh
      have hbefore : 0 ≤ (before.map length).sum := List.sum_nonneg (by simp [hpos])
      rw [List.cons_append, locate, if_neg (by omega)]
      exact locate_eq hpos (by omega) (by omega)

/-! ## The month of a day -/

/-- The month of the day `k` days behind the first of January. -/
def monthOf (y k : Int) : Month := (locate (Month.days y) Month.all k).getD .dec

theorem Month.days_pos (y : Int) (m : Month) : 0 < m.days y := by
  cases m <;> simp only [days] <;> try decide
  split <;> decide

theorem Month.days_le (y : Int) (m : Month) : m.days y ≤ 31 := by
  cases m <;> simp only [days] <;> try decide
  split <;> decide

theorem Month.all_eq (m : Month) :
    ∃ behind, all = all.takeWhile (· ≠ m) ++ m :: behind := by
  cases m <;> exact ⟨_, rfl⟩

theorem Month.start_eq {m : Month} {before behind : List Month} (h : all = before ++ m :: behind)
    (y : Int) : m.start y = (before.map (days y)).sum := by
  have hmem : m ∉ before := fun hm => by
    have hnodup : all.Nodup := by decide
    rw [h, List.nodup_append] at hnodup
    exact hnodup.2.2 m hm m List.mem_cons_self rfl
  have hne : ∀ b ∈ before, decide (b ≠ m) = true := fun b hb =>
    decide_eq_true fun heq => hmem (heq ▸ hb)
  rw [start, h, List.takeWhile_append_of_pos hne, List.takeWhile_cons_of_neg (by simp),
    List.append_nil]

theorem monthOf_bounds {y k : Int} (h0 : 0 ≤ k) (h : k < yearDays y) :
    (monthOf y k).start y ≤ k ∧ k < (monthOf y k).start y + (monthOf y k).days y := by
  obtain ⟨before, m, behind, hall, hm, hbounds⟩ := exists_locate h0 h
  rw [monthOf, hm, Option.getD_some, Month.start_eq hall]
  exact hbounds

/-- The month is the only one that has the day. -/
theorem monthOf_eq {y k : Int} {m : Month} (h1 : m.start y ≤ k) (h2 : k < m.start y + m.days y) :
    monthOf y k = m := by
  obtain ⟨behind, hall⟩ := m.all_eq
  have hm : locate (Month.days y) (Month.all.takeWhile (· ≠ m) ++ m :: behind) k = some m :=
    locate_eq (fun m => Int.le_of_lt (m.days_pos y)) h1 h2
  rw [monthOf, hall, hm, Option.getD_some]

/-- The first days of the months, counted from the days of February. -/
theorem Month.start_table (y : Int) (m : Month) :
    m.start y =
      match m with
      | .jan => 0
      | .feb => 31
      | .mar => 31 + feb.days y
      | .apr => 62 + feb.days y
      | .may => 92 + feb.days y
      | .jun => 123 + feb.days y
      | .jul => 153 + feb.days y
      | .aug => 184 + feb.days y
      | .sep => 215 + feb.days y
      | .oct => 245 + feb.days y
      | .nov => 276 + feb.days y
      | .dec => 306 + feb.days y := by
  cases m <;> simp [start, all, days] <;> split <;> rfl

theorem yearDays_eq_feb (y : Int) : yearDays y = 337 + Month.feb.days y := by
  rw [yearDays_eq, Month.days]
  split <;> rfl

/-- January has the first days of a year, and the other months begin behind it. -/
theorem Month.jan_or_start (y : Int) (m : Month) :
    m = .jan ∧ m.start y = 0 ∨ m ≠ .jan ∧ 31 ≤ m.start y := by
  have hfeb := feb.days_pos y
  rw [start_table]
  cases m with
  | jan => exact .inl ⟨rfl, rfl⟩
  | _ => exact .inr ⟨nofun, by dsimp only; omega⟩

/-- December has the last days of a year, and the other months end before it. -/
theorem Month.dec_or_end (y : Int) (m : Month) :
    m = .dec ∧ m.start y + 31 = yearDays y ∨
      m ≠ .dec ∧ m.start y + m.days y + 31 ≤ yearDays y := by
  have hfeb := feb.days_pos y
  rw [start_table, yearDays_eq_feb]
  cases m with
  | dec => exact .inl ⟨rfl, by dsimp only; omega⟩
  | feb => exact .inr ⟨nofun, by dsimp only; omega⟩
  | _ => exact .inr ⟨nofun, by simp only [days]; omega⟩

/-! ## Dates -/

/-- A date. -/
@[ext]
structure Date where
  year : Int
  month : Month
  day : Int
  /-- The days of a month begin with 1. -/
  day_pos : 1 ≤ day
  day_le : day ≤ month.days year

/-- The day number of a year, a month and a day of the month. -/
def dayNumber (y : Int) (m : Month) (d : Int) : Int := yearStart y + m.start y + d - 1

theorem dayOfYear_bounds (n : Int) :
    0 ≤ n - yearStart (yearOf n) ∧ n - yearStart (yearOf n) < yearDays (yearOf n) := by
  obtain ⟨hlow, hhigh⟩ := yearOf_bounds n
  rw [yearStart_succ] at hhigh
  omega

/-- The date of a day number. -/
def dateOf (n : Int) : Date where
  year := yearOf n
  month := monthOf (yearOf n) (n - yearStart (yearOf n))
  day := n - yearStart (yearOf n) -
    (monthOf (yearOf n) (n - yearStart (yearOf n))).start (yearOf n) + 1
  day_pos := by
    have hlow := (monthOf_bounds (dayOfYear_bounds n).1 (dayOfYear_bounds n).2).1
    omega
  day_le := by
    have hhigh := (monthOf_bounds (dayOfYear_bounds n).1 (dayOfYear_bounds n).2).2
    omega

theorem dayNumber_dateOf (n : Int) :
    dayNumber (dateOf n).year (dateOf n).month (dateOf n).day = n := by
  simp only [dayNumber, dateOf]
  omega

/-- A day number has one date. -/
theorem dateOf_dayNumber (d : Date) : dateOf (dayNumber d.year d.month d.day) = d := by
  have hpos := d.day_pos
  have hle := d.day_le
  have hstart := d.month.jan_or_start d.year
  have hend := d.month.dec_or_end d.year
  have hyear : yearOf (dayNumber d.year d.month d.day) = d.year := by
    refine yearOf_eq ?_ ?_
    · unfold dayNumber
      omega
    · rw [yearStart_succ, dayNumber]
      rcases hend with ⟨hdec, hend⟩ | ⟨-, hend⟩
      · have hdays : d.month.days d.year = 31 := by rw [hdec]; rfl
        omega
      · omega
  have hmonth : monthOf d.year (dayNumber d.year d.month d.day - yearStart d.year) = d.month := by
    refine monthOf_eq ?_ ?_ <;> unfold dayNumber <;> omega
  apply Date.ext
  · exact hyear
  · simp only [dateOf, hyear, hmonth]
  · simp only [dateOf, hyear, hmonth]
    unfold dayNumber
    omega

/-! ## Weeks -/

/-- The days of the week. -/
inductive Weekday where
  | mon | tue | wed | thu | fri | sat | sun
deriving DecidableEq, Repr

/-- All days of the week, in order. -/
def Weekday.all : List Weekday := [.mon, .tue, .wed, .thu, .fri, .sat, .sun]

/-- The number of days since the Monday of the week. -/
def Weekday.index : Weekday → Int
  | .mon => 0
  | .tue => 1
  | .wed => 2
  | .thu => 3
  | .fri => 4
  | .sat => 5
  | .sun => 6

theorem Weekday.index_bounds (w : Weekday) : 0 ≤ w.index ∧ w.index ≤ 6 := by
  cases w <;> decide

/-- The day of the week of a day number.  Day 0 is a Saturday. -/
def weekdayOf (n : Int) : Weekday :=
  (Weekday.all.find? fun w => w.index = (n + 5) % 7).getD .sun

/-- The ISO 8601 week-based year: the year of the Thursday of the week. -/
def isoYear (n : Int) : Int := yearOf (n - (weekdayOf n).index + 3)

/-- A day in front of a first Monday on the 2nd, 3rd or 4th of January. -/
def EndsYearBefore (w : Weekday) (m : Month) (d : Int) : Prop := m = .jan ∧ d + 3 ≤ w.index

/-- A day from a Monday on the 29th, 30th or 31st of December on. -/
def BeginsYearAfter (w : Weekday) (m : Month) (d : Int) : Prop := m = .dec ∧ 29 + w.index ≤ d

instance (w : Weekday) (m : Month) (d : Int) : Decidable (EndsYearBefore w m d) :=
  inferInstanceAs (Decidable (_ ∧ _))

instance (w : Weekday) (m : Month) (d : Int) : Decidable (BeginsYearAfter w m d) :=
  inferInstanceAs (Decidable (_ ∧ _))

section

variable {date : Date} {w : Weekday} {n : Int}

/-- The Thursday is behind the last day of the year before. -/
theorem yearOf_thursday_before (hn : dayNumber date.year date.month date.day = n)
    (h : EndsYearBefore w date.month date.day) : yearOf (n - w.index + 3) = date.year - 1 := by
  obtain ⟨hjan, hday⟩ := h
  have hweek := w.index_bounds
  have hpos := date.day_pos
  have hfirst := ((date.month.jan_or_start date.year).resolve_right fun hno => hno.1 hjan).2
  have hlast := yearStart_succ (date.year - 1)
  have hlong := le_yearDays (date.year - 1)
  rw [Int.sub_add_cancel] at hlast
  unfold dayNumber at hn
  refine yearOf_eq ?_ ?_
  · omega
  · rw [Int.sub_add_cancel]
    omega

/-- The Thursday is in the first days of the year behind. -/
theorem yearOf_thursday_after (hn : dayNumber date.year date.month date.day = n)
    (h : BeginsYearAfter w date.month date.day) : yearOf (n - w.index + 3) = date.year + 1 := by
  obtain ⟨hdec, hday⟩ := h
  have hweek := w.index_bounds
  have hle := date.day_le.trans (date.month.days_le date.year)
  have hlast := ((date.month.dec_or_end date.year).resolve_right fun hno => hno.1 hdec).2
  have hyear := yearStart_succ date.year
  have hnext := yearStart_succ (date.year + 1)
  have hlong := le_yearDays (date.year + 1)
  unfold dayNumber at hn
  refine yearOf_eq ?_ ?_ <;> omega

/-- Else the Thursday is in the year of the date. -/
theorem yearOf_thursday_same (hn : dayNumber date.year date.month date.day = n)
    (hbefore : ¬ EndsYearBefore w date.month date.day)
    (hafter : ¬ BeginsYearAfter w date.month date.day) :
    yearOf (n - w.index + 3) = date.year := by
  have hweek := w.index_bounds
  have hpos := date.day_pos
  have hle := date.day_le
  have hyear := yearStart_succ date.year
  unfold dayNumber at hn
  refine yearOf_eq ?_ ?_
  · rcases date.month.jan_or_start date.year with ⟨hjan, hfirst⟩ | ⟨-, hfirst⟩
    · have hday : w.index < date.day + 3 := Int.not_le.mp fun hd => hbefore ⟨hjan, hd⟩
      omega
    · omega
  · rcases date.month.dec_or_end date.year with ⟨hdec, hlast⟩ | ⟨-, hlast⟩
    · have hday : date.day < 29 + w.index := Int.not_le.mp fun hd => hafter ⟨hdec, hd⟩
      omega
    · omega

end

/-- The week-based year of a day. -/
theorem isoYear_eq (n : Int) :
    isoYear n = (dateOf n).year +
      if EndsYearBefore (weekdayOf n) (dateOf n).month (dateOf n).day then -1
      else if BeginsYearAfter (weekdayOf n) (dateOf n).month (dateOf n).day then 1
      else 0 := by
  have hn := dayNumber_dateOf n
  unfold isoYear
  split
  · next h => exact yearOf_thursday_before hn h
  · next hbefore =>
      split
      · next h => exact yearOf_thursday_after hn h
      · next hafter => rw [yearOf_thursday_same hn hbefore hafter, Int.add_zero]

/-- The week of the day belongs to another year. -/
def InOtherYear (w : Weekday) (m : Month) (d : Int) : Prop :=
  EndsYearBefore w m d ∨ BeginsYearAfter w m d

/-- The week of a day belongs to its year except around the turn of the year. -/
theorem isoYear_eq_year_iff (n : Int) :
    isoYear n = (dateOf n).year ↔
      ¬ InOtherYear (weekdayOf n) (dateOf n).month (dateOf n).day := by
  rw [isoYear_eq, InOtherYear]
  split
  · next h => exact iff_of_false (by omega) (not_not.mpr (.inl h))
  · next h =>
      split
      · next h' => exact iff_of_false (by omega) (not_not.mpr (.inr h'))
      · next h' => exact iff_of_true (by omega) (not_or.mpr ⟨h, h'⟩)

/-- The weekday, the day, the month and the week-based year determine a day. -/
theorem eq_of_isoYear {n n' : Int} (hw : weekdayOf n = weekdayOf n')
    (hd : (dateOf n).day = (dateOf n').day) (hm : (dateOf n).month = (dateOf n').month)
    (hy : isoYear n = isoYear n') : n = n' := by
  rw [isoYear_eq, isoYear_eq, hw, hd, hm] at hy
  rw [← dayNumber_dateOf n, ← dayNumber_dateOf n', hd, hm, add_right_cancel hy]

end Calendar
