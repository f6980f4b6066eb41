import Mathlib.Algebra.Group.Nat.Defs
import Mathlib.Logic.Basic
import SqlDraft.Proofs.Instant.Civil

/-! What the texts of instants keep. The places of a text are those of a year with four digits: for
the years 0 to 9999 the day, the time of day and both together are told apart as they are. The year
of any other instant takes three places more, and the text of the day ends with its month, the text
of the time of day begins with the day of the month and ends with the second
(`Instant.textAs_eq_iff`). -/

namespace SqlDraft.Instant

/-! ## Digits -/

section

variable {w m n : Nat}

theorem padded_length (hw : 0 < w) (h : n < 10 ^ w) : (padded w n).length = w := by
  have hdigits := (Nat.length_toDigits_le_iff (b := 10) (by decide) hw).mpr h
  simp only [padded, List.length_append, List.length_replicate]
  omega

theorem padded_inj (h : padded w m = padded w n) : m = n := by
  have hvalue (k : Nat) : Nat.ofDigitChars 10 (padded w k) 0 = k := by
    rw [padded, Nat.ofDigitChars_append, Nat.ofDigitChars_replicate_zero, Nat.mul_zero,
      Nat.ofDigitChars_ten_toDigits]
  rw [← hvalue m, h, hvalue]

theorem isDigit_padded {c : Char} (h : c ∈ padded w n) : c.isDigit = true := by
  rcases List.mem_append.mp h with h | h
  · rw [List.eq_of_mem_replicate h]
    decide
  · exact Nat.isDigit_of_mem_toDigits (by decide) (by decide) h

end

/-! ## Years and months -/

theorem yearText_length {y : Int} (h : y.natAbs < 1000000) :
    (yearText y).length = if 0 ≤ y ∧ y ≤ 9999 then 4 else 7 := by
  unfold yearText
  split
  · exact padded_length (by decide) (by omega)
  · rw [List.length_cons, padded_length (by decide) h]

/-- A year of four digits opens with one of them, any other with its sign. -/
theorem yearText_opens (y : Int) : ∃ c r, yearText y = c :: r ∧
    (c.isDigit = true ↔ 0 ≤ y ∧ y ≤ 9999) := by
  unfold yearText
  split
  · next h =>
    obtain ⟨c, r, hcons⟩ := List.exists_cons_of_length_pos
      (l := padded 4 y.toNat) (by rw [padded_length (by decide) (by omega)]; decide)
    have hdigit : c.isDigit = true := isDigit_padded (hcons ▸ List.mem_cons_self)
    exact ⟨c, r, hcons, by simp [hdigit, h]⟩
  · next h =>
    refine ⟨_, _, rfl, iff_of_false ?_ h⟩
    split <;> decide

theorem yearText_inj {y z : Int} (h : yearText y = yearText z) : y = z := by
  obtain ⟨c, r, hy, hyopen⟩ := yearText_opens y
  obtain ⟨d, s, hz, hzopen⟩ := yearText_opens z
  have hsame : (0 ≤ y ∧ y ≤ 9999) ↔ (0 ≤ z ∧ z ≤ 9999) := by
    rw [hy, hz] at h
    rw [← hyopen, ← hzopen, (List.cons.inj h).1]
  unfold yearText at h
  by_cases hnarrow : 0 ≤ y ∧ y ≤ 9999
  · have hnarrow' := hsame.mp hnarrow
    rw [if_pos hnarrow, if_pos hnarrow'] at h
    have := padded_inj h
    omega
  · rw [if_neg hnarrow, if_neg (mt hsame.mpr hnarrow)] at h
    obtain ⟨hsign, hdigits⟩ := List.cons.inj h
    have := padded_inj hdigits
    split at hsign <;> split at hsign <;> first | omega | cases hsign

/-- The year and the month of a day. -/
def monthText (d : CivilDay) : List Char := yearText d.year ++ '-' :: padded 2 d.month

theorem dayText_eq (d : CivilDay) : dayText d = monthText d ++ '-' :: padded 2 d.day := rfl

/-! ## Seconds and milliseconds -/

/-- The hour, the minute and the second of a time of day. -/
def secondText (t : Nat) : List Char :=
  padded 2 (t / 3600000) ++ ':' :: padded 2 (t / 60000 % 60) ++ ':' :: padded 2 (t / 1000 % 60)

theorem clockText_eq (t : Nat) : clockText t = secondText t ++ '.' :: padded 3 (t % 1000) := rfl

theorem sixtieth_length (n : Nat) : (padded 2 (n % 60)).length = 2 :=
  padded_length (by decide) (by omega)

section

variable {t u : Nat} (ht : t < 86400000) (hu : u < 86400000)
include ht

theorem hour_length : (padded 2 (t / 3600000)).length = 2 := padded_length (by decide) (by omega)

theorem secondText_length : (secondText t).length = 8 := by
  simp only [secondText, List.length_append, List.length_cons, hour_length ht, sixtieth_length]

theorem clockText_length : (clockText t).length = 12 := by
  have hmilli : (padded 3 (t % 1000)).length = 3 := padded_length (by decide) (by omega)
  simp only [clockText_eq, List.length_append, List.length_cons, secondText_length ht, hmilli]

include hu

theorem secondText_eq_iff : secondText t = secondText u ↔ t / 1000 = u / 1000 := by
  constructor
  · intro h
    obtain ⟨hfront, hseconds⟩ := List.append_inj h
      (by simp only [List.length_append, List.length_cons, hour_length ht, hour_length hu,
        sixtieth_length])
    obtain ⟨hhours, hminutes⟩ := List.append_inj hfront (by rw [hour_length ht, hour_length hu])
    have hhour := padded_inj hhours
    have hminute := padded_inj (List.cons.inj hminutes).2
    have hsecond := padded_inj (List.cons.inj hseconds).2
    omega
  · intro h
    have hminute : t / 60000 = u / 60000 := by omega
    have hhour : t / 3600000 = u / 3600000 := by omega
    rw [secondText, secondText, h, hminute, hhour]

theorem clockText_eq_iff : clockText t = clockText u ↔ t = u := by
  refine ⟨fun h => ?_, congrArg clockText⟩
  rw [clockText_eq, clockText_eq] at h
  obtain ⟨hseconds, hmillis⟩ :=
    List.append_inj h (by rw [secondText_length ht, secondText_length hu])
  have hsecond := (secondText_eq_iff ht hu).mp hseconds
  have hmilli := padded_inj (List.cons.inj hmillis).2
  omega

end

/-! ## The texts of an instant -/

variable (i j : Instant)

/-- The day of the calendar that an instant falls on. -/
def civilDay : CivilDay := .ofDayNumber i.dayNumber

/-- The year of the instant is not written with four digits. -/
def Wide : Prop := ¬(0 ≤ i.civilDay.year ∧ i.civilDay.year ≤ 9999)

instance : Decidable i.Wide := inferInstanceAs (Decidable (¬_))

theorem timeOfDay_lt : i.timeOfDay < 86400000 := by
  unfold timeOfDay
  omega

theorem civilDay_year : i.civilDay.year.natAbs < 1000000 := by
  have hmillis := i.bounded
  exact CivilDay.ofDayNumber_year (by unfold dayNumber; omega)

theorem dayOfMonth_length : (padded 2 i.civilDay.day).length = 2 := by
  obtain ⟨-, -, -, hday⟩ := CivilDay.ofDayNumber_bounds i.dayNumber
  exact padded_length (by decide) (by unfold civilDay; omega)

theorem month_length : (padded 2 i.civilDay.month).length = 2 := by
  obtain ⟨-, hmonth, -, -⟩ := CivilDay.ofDayNumber_bounds i.dayNumber
  exact padded_length (by decide) (by unfold civilDay; omega)

theorem monthText_length : (monthText i.civilDay).length = if i.Wide then 10 else 7 := by
  rw [monthText, List.length_append, List.length_cons, i.month_length,
    yearText_length i.civilDay_year]
  by_cases h : i.Wide
  · rw [if_pos h, if_neg h]
  · rw [if_neg h, if_pos (not_not.mp h)]

theorem text_eq : i.text =
    monthText i.civilDay ++
      ('-' :: padded 2 i.civilDay.day ++ 'T' :: (clockText i.timeOfDay ++ ['Z'])) := by
  rw [text, show CivilDay.ofDayNumber i.dayNumber = i.civilDay from rfl, dayText_eq]
  simp only [List.append_assoc, List.cons_append]

variable {i j}

theorem dateText_wide (h : i.Wide) : i.dateText = monthText i.civilDay := by
  rw [dateText, text_eq, List.take_left' (by rw [i.monthText_length, if_pos h])]

theorem dateText_plain (h : ¬i.Wide) : i.dateText = dayText i.civilDay := by
  rw [dateText, text_eq, dayText_eq, ← List.append_assoc, List.take_left']
  rw [List.length_append, List.length_cons, i.monthText_length, if_neg h, i.dayOfMonth_length]

theorem timeText_wide (h : i.Wide) :
    i.timeText = padded 2 i.civilDay.day ++ 'T' :: (secondText i.timeOfDay ++ ['.']) := by
  have hcut : i.text = (monthText i.civilDay ++ ['-']) ++
      ((padded 2 i.civilDay.day ++ 'T' :: (secondText i.timeOfDay ++ ['.'])) ++
        (padded 3 (i.timeOfDay % 1000) ++ ['Z'])) := by
    rw [text_eq, clockText_eq]
    simp only [List.append_assoc, List.cons_append, List.nil_append]
  rw [timeText, hcut, List.drop_left'
    (by rw [List.length_append, i.monthText_length, if_pos h]; rfl), List.take_left']
  simp only [List.length_append, List.length_cons, List.length_nil, i.dayOfMonth_length,
    secondText_length i.timeOfDay_lt]

theorem timeText_plain (h : ¬i.Wide) : i.timeText = clockText i.timeOfDay := by
  have hcut : i.text = (dayText i.civilDay ++ ['T']) ++ (clockText i.timeOfDay ++ ['Z']) := by
    rw [text_eq, dayText_eq]
    simp only [List.append_assoc, List.cons_append, List.nil_append]
  rw [timeText, hcut, List.drop_left', List.take_left' (clockText_length i.timeOfDay_lt)]
  simp only [dayText_eq, List.length_append, List.length_cons, List.length_nil,
    i.monthText_length, if_neg h, i.dayOfMonth_length]

theorem dateText_length (i : Instant) : i.dateText.length = 10 := by
  by_cases h : i.Wide
  · rw [dateText_wide h, i.monthText_length, if_pos h]
  · rw [dateText_plain h, dayText_eq, List.length_append, List.length_cons,
      i.monthText_length, if_neg h, i.dayOfMonth_length]

/-! ## What the texts keep -/

/-- Two instants are the same as days, as times of day, or altogether. -/
def SameAs (i j : Instant) : Temporal → Prop
  | .date => i.dayNumber = j.dayNumber
  | .time => i.timeOfDay = j.timeOfDay
  | .datetime => i = j

/-- What is left of a longer text within the places of a shorter one: of the day the year and the
month, of the time of day the day of the month and the second, of both together the second. -/
def SameWithin (i j : Instant) : Temporal → Prop
  | .date => i.civilDay.year = j.civilDay.year ∧ i.civilDay.month = j.civilDay.month
  | .time => i.civilDay.day = j.civilDay.day ∧ i.timeOfDay / 1000 = j.timeOfDay / 1000
  | .datetime => i.millis / 1000 = j.millis / 1000

theorem eq_iff : i = j ↔ i.dayNumber = j.dayNumber ∧ i.timeOfDay = j.timeOfDay := by
  have hmillis : i = j ↔ i.millis = j.millis := by
    cases i
    cases j
    exact Instant.mk.injEq .. ▸ Iff.rfl
  rw [hmillis]
  unfold dayNumber timeOfDay
  omega

theorem second_eq_iff : i.millis / 1000 = j.millis / 1000 ↔
    i.dayNumber = j.dayNumber ∧ i.timeOfDay / 1000 = j.timeOfDay / 1000 := by
  unfold dayNumber timeOfDay
  omega

theorem dayNumber_eq_iff : i.dayNumber = j.dayNumber ↔
    (i.civilDay.year = j.civilDay.year ∧ i.civilDay.month = j.civilDay.month) ∧
      i.civilDay.day = j.civilDay.day := by
  constructor
  · intro h
    rw [civilDay, civilDay, h]
    exact ⟨⟨rfl, rfl⟩, rfl⟩
  · rintro ⟨⟨hyear, hmonth⟩, hday⟩
    refine CivilDay.ofDayNumber_injective (show i.civilDay = j.civilDay from ?_)
    cases hi : i.civilDay
    cases hj : j.civilDay
    rw [hi, hj] at hyear hmonth hday
    cases hyear
    cases hmonth
    cases hday
    rfl

theorem monthText_eq_iff : monthText i.civilDay = monthText j.civilDay ↔ SameWithin i j .date := by
  constructor
  · intro h
    obtain ⟨hyear, hmonth⟩ := List.append_inj' h
      (by rw [List.length_cons, List.length_cons, i.month_length, j.month_length])
    exact ⟨yearText_inj hyear, padded_inj (List.cons.inj hmonth).2⟩
  · rintro ⟨hyear, hmonth⟩
    rw [monthText, monthText, hyear, hmonth]

theorem dayText_eq_iff : dayText i.civilDay = dayText j.civilDay ↔ SameAs i j .date := by
  constructor
  · intro h
    obtain ⟨hmonths, hdays⟩ := List.append_inj' h
      (by rw [List.length_cons, List.length_cons, i.dayOfMonth_length, j.dayOfMonth_length])
    exact dayNumber_eq_iff.mpr ⟨monthText_eq_iff.mp hmonths, padded_inj (List.cons.inj hdays).2⟩
  · intro h
    rw [civilDay, civilDay, show i.dayNumber = j.dayNumber from h]

/-- A day shows whether its year has four digits, by the character it opens with. -/
theorem dateText_opens (i : Instant) : ∃ c r, i.dateText = c :: r ∧
    (c.isDigit = true ↔ ¬i.Wide) := by
  obtain ⟨c, r, hyear, hdigit⟩ := yearText_opens i.civilDay.year
  rw [← not_not (a := 0 ≤ i.civilDay.year ∧ _)] at hdigit
  by_cases h : i.Wide
  · rw [dateText_wide h, monthText, hyear]
    exact ⟨c, _, rfl, hdigit⟩
  · rw [dateText_plain h, dayText_eq, monthText, hyear]
    exact ⟨c, _, rfl, hdigit⟩

/-- A time of day shows it by what stands behind the first two characters. -/
theorem timeText_opens (i : Instant) : ∃ a c r, i.timeText = a ++ c :: r ∧ a.length = 2 ∧
    (c = ':' ↔ ¬i.Wide) := by
  by_cases h : i.Wide
  · rw [timeText_wide h]
    exact ⟨_, _, _, rfl, i.dayOfMonth_length, by simp [h]⟩
  · rw [timeText_plain h, clockText_eq, secondText, List.append_assoc, List.append_assoc]
    exact ⟨_, _, _, rfl, hour_length i.timeOfDay_lt, by simp [h]⟩

theorem wide_iff_of_dateText (h : i.dateText = j.dateText) : i.Wide ↔ j.Wide := by
  obtain ⟨c, r, hi, hwide⟩ := i.dateText_opens
  obtain ⟨d, s, hj, hwide'⟩ := j.dateText_opens
  rw [hi, hj] at h
  rw [← not_iff_not, ← hwide, ← hwide', (List.cons.inj h).1]

theorem wide_iff_of_timeText (h : i.timeText = j.timeText) : i.Wide ↔ j.Wide := by
  obtain ⟨a, c, r, hi, ha, hwide⟩ := i.timeText_opens
  obtain ⟨b, d, s, hj, hb, hwide'⟩ := j.timeText_opens
  rw [hi, hj] at h
  rw [← not_iff_not, ← hwide, ← hwide', (List.cons.inj (List.append_inj h (ha.trans hb.symm)).2).1]

theorem dateText_eq_iff : i.dateText = j.dateText ↔
    (i.Wide ↔ j.Wide) ∧ if i.Wide then SameWithin i j .date else SameAs i j .date := by
  by_cases hwide : i.Wide ↔ j.Wide
  · rw [and_iff_right hwide]
    split
    · next h => rw [dateText_wide h, dateText_wide (hwide.mp h), monthText_eq_iff]
    · next h => rw [dateText_plain h, dateText_plain (mt hwide.mpr h), dayText_eq_iff]
  · exact iff_of_false (mt wide_iff_of_dateText hwide) fun h => hwide h.1

theorem timeText_eq_iff : i.timeText = j.timeText ↔
    (i.Wide ↔ j.Wide) ∧ if i.Wide then SameWithin i j .time else SameAs i j .time := by
  by_cases hwide : i.Wide ↔ j.Wide
  · rw [and_iff_right hwide]
    split
    · next h =>
      rw [timeText_wide h, timeText_wide (hwide.mp h), SameWithin,
        ← secondText_eq_iff i.timeOfDay_lt j.timeOfDay_lt]
      constructor
      · intro htext
        obtain ⟨hday, hclock⟩ :=
          List.append_inj htext (i.dayOfMonth_length.trans j.dayOfMonth_length.symm)
        exact ⟨padded_inj hday, List.append_cancel_right (List.cons.inj hclock).2⟩
      · rintro ⟨hday, hsecond⟩
        rw [hday, hsecond]
    · next h =>
      rw [timeText_plain h, timeText_plain (mt hwide.mpr h),
        clockText_eq_iff i.timeOfDay_lt j.timeOfDay_lt]
      rfl
  · exact iff_of_false (mt wide_iff_of_timeText hwide) fun h => hwide h.1

theorem textAs_datetime_eq_iff : i.textAs .datetime = j.textAs .datetime ↔
    i.dateText = j.dateText ∧ i.timeText = j.timeText := by
  constructor
  · intro h
    obtain ⟨hdate, htime⟩ := List.append_inj h (i.dateText_length.trans j.dateText_length.symm)
    exact ⟨hdate, (List.cons.inj htime).2⟩
  · rintro ⟨hdate, htime⟩
    rw [textAs, textAs, hdate, htime]

theorem textAs_same_iff (k : Temporal) : i.textAs k = j.textAs k ↔
    (i.Wide ↔ j.Wide) ∧ if i.Wide then SameWithin i j k else SameAs i j k := by
  cases k with
  | date => exact dateText_eq_iff
  | time => exact timeText_eq_iff
  | datetime =>
    rw [textAs_datetime_eq_iff, dateText_eq_iff, timeText_eq_iff, ← and_and_left]
    split
    · rw [SameWithin, SameWithin, SameWithin, second_eq_iff, dayNumber_eq_iff,
        and_assoc (c := _ / _ = _)]
    · rw [SameAs, SameAs, SameAs, eq_iff]

/-! ## Instants that the texts do not tell apart -/

/-- Another instant of the same second; there is none beside the last instant of all. -/
theorem exists_same_second (h : i.millis < 8640000000000000) :
    ∃ j : Instant, i ≠ j ∧ i.millis / 1000 = j.millis / 1000 := by
  have hbounded := i.bounded
  by_cases hwhole : i.millis % 1000 = 0
  · refine ⟨⟨i.millis + 1, by omega⟩, fun hsame => ?_, by dsimp only; omega⟩
    have := congrArg millis hsame
    dsimp only at this
    omega
  · refine ⟨⟨i.millis - i.millis % 1000, by omega⟩, fun hsame => ?_, by dsimp only; omega⟩
    have := congrArg millis hsame
    dsimp only at this
    omega

theorem not_tells_of_wide (h : i.Wide) : ∃ k j, i.textAs k = j.textAs k ∧ ¬SameAs i j k := by
  by_cases hlast : i.millis < 8640000000000000
  · obtain ⟨j, hne, hsecond⟩ := exists_same_second hlast
    have hwide : i.Wide ↔ j.Wide := by
      rw [Wide, Wide, civilDay, civilDay, (second_eq_iff.mp hsecond).1]
    exact ⟨.datetime, j, (textAs_same_iff _).mpr ⟨hwide, by rwa [if_pos h]⟩, hne⟩
  · -- the last instant has the text of its day in common with the day before
    obtain ⟨millis, hbounded⟩ := i
    have hmillis : millis = 8640000000000000 := by dsimp only at hlast; omega
    subst hmillis
    have htext : (Instant.mk 8640000000000000 (by decide)).textAs .date =
        (Instant.mk 8639999913600000 (by decide)).textAs .date := by decide
    have hday : (Instant.mk 8640000000000000 (by decide)).dayNumber ≠
        (Instant.mk 8639999913600000 (by decide)).dayNumber := by decide
    exact ⟨.date, _, htext, hday⟩

/-- Texts of two instants are equal just when both years have four digits and the instants are the
same, as what they are written as; or when neither has, and they are the same as far as the places
of four digits reach. So the texts of an instant tell it from all others exactly when its year has
four digits. -/
theorem textAs_eq_iff (i j : Instant) :
    (∀ k, i.textAs k = j.textAs k ↔
      (i.Wide ↔ j.Wide) ∧ if i.Wide then SameWithin i j k else SameAs i j k) ∧
    ((∀ k j', i.textAs k = j'.textAs k → SameAs i j' k) ↔ ¬i.Wide) := by
  refine ⟨fun k => textAs_same_iff k, fun h hwide => ?_, fun hplain k j' htext => ?_⟩
  · obtain ⟨k, j', htext, hnot⟩ := not_tells_of_wide hwide
    exact hnot (h k j' htext)
  · have hsame := ((textAs_same_iff k).mp htext).2
    rwa [if_neg hplain] at hsame

/-- The year 10000 begins: the first two milliseconds have one text, as have the first two days. -/
theorem textAs_not_injective :
    let first : Instant := ⟨253402300800000, by decide⟩
    let second : Instant := ⟨253402300800001, by decide⟩
    let nextDay : Instant := ⟨253402387200000, by decide⟩
    (first.textAs .datetime = second.textAs .datetime ∧ first ≠ second) ∧
      (first.textAs .date = nextDay.textAs .date ∧ first.dayNumber ≠ nextDay.dayNumber) ∧
      (first.textAs .time = second.textAs .time ∧ first.timeOfDay ≠ second.timeOfDay) := by
  decide

end SqlDraft.Instant
