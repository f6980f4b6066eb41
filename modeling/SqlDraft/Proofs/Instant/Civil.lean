import SqlDraft.Instant

/-! Days and their places in the calendar. A place tells its day: the number of the day is counted
from the year, the month and the day of the month (`CivilDay.number_ofDayNumber`). -/

namespace SqlDraft

namespace CivilDay

/-- The days from the first of March up to a day of a month. -/
def dayOfYear (month day : Nat) : Nat :=
  let fifth := if month ≤ 2 then month + 9 else month - 3
  (153 * fifth + 2) / 5 + (day - 1)

/-- The number of a day, counted from the first of 1970. Every fourth year has a day more, the last
of a century only when the century is a fourth one. -/
def number (d : CivilDay) : Int :=
  let year := if d.month ≤ 2 then d.year - 1 else d.year
  365 * year + year / 4 - year / 100 + year / 400 + dayOfYear d.month d.day - 719468

/-! ## Days of a year -/

theorem ofDayOfYear_bounds {d : Nat} (h : d ≤ 365) :
    1 ≤ (ofDayOfYear d).1 ∧ (ofDayOfYear d).1 ≤ 12 ∧ 1 ≤ (ofDayOfYear d).2 ∧
    (ofDayOfYear d).2 ≤ 31 := by
  dsimp only [ofDayOfYear]
  split <;> omega

theorem dayOfYear_ofDayOfYear {d : Nat} (h : d ≤ 365) :
    dayOfYear (ofDayOfYear d).1 (ofDayOfYear d).2 = d := by
  dsimp only [dayOfYear, ofDayOfYear]
  split <;> split <;> omega

/-! ## Days of all years -/

/-- Where a day stands: in a cycle of four centuries, in one of its centuries, in a run of four
years, in one of these, and so many days behind its first of March. -/
theorem ofDayNumber_eq (n : Int) : ∃ (cycle : Int) (century leap single rest : Nat),
    century ≤ 3 ∧ leap ≤ 24 ∧ single ≤ 3 ∧ rest ≤ 365 ∧
      n = 146097 * cycle + 36524 * century + 1461 * leap + 365 * single + rest - 719468 ∧
      let year := 400 * cycle + (100 * century + 4 * leap + single : Nat)
      ofDayNumber n =
        { year := if (ofDayOfYear rest).1 ≤ 2 then year + 1 else year
          month := (ofDayOfYear rest).1, day := (ofDayOfYear rest).2 } := by
  refine ⟨_, _, _, _, _, ?_, ?_, ?_, ?_, ?_, rfl⟩ <;> omega

theorem number_ofDayNumber (n : Int) : (ofDayNumber n).number = n := by
  obtain ⟨cycle, century, leap, single, rest, hcentury, hleap, hsingle, hrest, hn, hday⟩ :=
    ofDayNumber_eq n
  have hback := dayOfYear_ofDayOfYear hrest
  rw [hday, number]
  dsimp only
  rw [hback]
  split <;> omega

theorem ofDayNumber_injective {m n : Int} (h : ofDayNumber m = ofDayNumber n) : m = n := by
  rw [← number_ofDayNumber m, ← number_ofDayNumber n, h]

theorem ofDayNumber_bounds (n : Int) :
    let d := ofDayNumber n
    1 ≤ d.month ∧ d.month ≤ 12 ∧ 1 ≤ d.day ∧ d.day ≤ 31 := by
  obtain ⟨cycle, century, leap, single, rest, -, -, -, hrest, -, hday⟩ := ofDayNumber_eq n
  rw [hday]
  exact ofDayOfYear_bounds hrest

/-- A hundred million days are fewer than a million years. -/
theorem ofDayNumber_year {n : Int} (h : n.natAbs ≤ 100000000) :
    (ofDayNumber n).year.natAbs < 1000000 := by
  obtain ⟨cycle, century, leap, single, rest, hcentury, hleap, hsingle, hrest, hn, hday⟩ :=
    ofDayNumber_eq n
  rw [hday]
  dsimp only
  split <;> omega

end CivilDay

end SqlDraft
