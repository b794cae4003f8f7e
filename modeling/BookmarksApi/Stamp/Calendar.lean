import BookmarksApi.Stamp
import Mathlib.Order.SuccPred.IntervalSucc
import Mathlib.Tactic.Linarith

/-!
# Stamp/Calendar — later days have later dates

`civil` reads a day number in eras of 400 years that start on the first of March.  Inverted, a day
is the start of its March year plus a day of that year (`exists_marchDate`), and the month is a
stretch of that year; so year, month and day grow with the day number, read in that order
(`civil_lt_civil`).
-/

namespace Stamp

/-- The number of the first of March of a year, counted from the first of March of year 0. -/
def yearStart (y : ℤ) : ℤ := 365 * y + y / 4 - y / 100 + y / 400

theorem yearStart_le {y z : ℤ} (h : y ≤ z) : yearStart y ≤ yearStart z := by
  simp only [yearStart]
  omega

/-- The first day of a month in a March year. -/
def monthStart (m : ℤ) : ℤ := (153 * m + 2) / 5

/-- A day of an era in centuries, leap cycles, years and days: the last year of a cycle has a leap
day, unless it ends a century that is not the era's last. -/
structure EraDay (doe c b a t : ℤ) : Prop where
  eq : doe = 36524 * c + 1461 * b + 365 * a + t
  century : 0 ≤ c ∧ c ≤ 3
  cycle : 0 ≤ b ∧ b ≤ 24
  year : 0 ≤ a ∧ a ≤ 3
  nonneg : 0 ≤ t
  top : t ≤ 364 ∨ t = 365 ∧ a = 3 ∧ (b < 24 ∨ c = 3)

theorem exists_eraDay {doe : ℤ} (h₀ : 0 ≤ doe) (h₁ : doe < 146097) :
    ∃ c b a t, EraDay doe c b a t := by
  refine ⟨min (doe / 36524) 3, (doe - 36524 * min (doe / 36524) 3) / 1461,
    min ((doe - 36524 * min (doe / 36524) 3) % 1461 / 365) 3,
    (doe - 36524 * min (doe / 36524) 3) % 1461
      - 365 * min ((doe - 36524 * min (doe / 36524) 3) % 1461 / 365) 3, ?_⟩
  constructor <;> omega

namespace EraDay

variable {doe c b a t : ℤ} (h : EraDay doe c b a t)
include h

/-- The two corrections for centuries count the whole centuries. -/
theorem centuries : doe / 36524 - doe / 146096 = c := by
  obtain ⟨heq, hc, hb, ha, ht, htop⟩ := h
  obtain ⟨r, hr⟩ : ∃ r, r = 1461 * b + 365 * a + t := ⟨_, rfl⟩
  have hdoe : doe = 36524 * c + r := by omega
  have hnonneg : 0 ≤ r := by omega
  have hle : r < 36524 ∨ r = 36524 ∧ c = 3 := by omega
  clear hr heq
  omega

/-- The correction for leap days counts the whole cycles, and this year's own leap day. -/
theorem exists_leap : ∃ e, doe / 1460 = 25 * c + b + e ∧ 0 ≤ t - e ∧ t - e < 365 := by
  obtain ⟨heq, hc, hb, ha, ht, htop⟩ := h
  refine ⟨(24 * c + b + 365 * a + t) / 1460, by omega, ?_⟩
  obtain ⟨r, hr⟩ : ∃ r, r = 24 * c + b + 365 * a + t := ⟨_, rfl⟩
  rw [← hr]
  omega

/-- **The year of the era.** -/
theorem yearOfEra :
    (doe - doe / 1460 + doe / 36524 - doe / 146096) / 365 = 100 * c + 4 * b + a := by
  obtain ⟨e, hleap, hnonneg, hlt⟩ := h.exists_leap
  have hcenturies := h.centuries
  have hquotient : doe - doe / 1460 + doe / 36524 - doe / 146096
      = 365 * (100 * c + 4 * b + a) + (t - e) := by
    rw [hleap, h.eq] at *
    omega
  rw [hquotient]
  omega

/-- **The day of that year.** -/
theorem dayOfYear : doe - (365 * (100 * c + 4 * b + a) + (100 * c + 4 * b + a) / 4
    - (100 * c + 4 * b + a) / 100) = t := by
  obtain ⟨heq, hc, hb, ha, ht, htop⟩ := h
  omega

/-- The start of the March year, with the eras before it. -/
theorem yearStart_eq (era : ℤ) : yearStart (100 * c + 4 * b + a + era * 400)
    = 146097 * era + (doe - t) := by
  obtain ⟨heq, hc, hb, ha, -, -⟩ := h
  simp only [yearStart]
  omega

theorem lt_yearStart (era : ℤ) :
    146097 * era + doe < yearStart (100 * c + 4 * b + a + era * 400 + 1) := by
  obtain ⟨heq, hc, hb, ha, -, htop⟩ := h
  simp only [yearStart]
  omega

theorem le_365 : t ≤ 365 := by
  rcases h.top with htop | ⟨htop, -⟩ <;> omega

end EraDay

/-! ## Dates in order -/

/-- The day has a date in the March year `y`, in its month `m` counted from March. -/
structure MarchDate (days y m : ℤ) : Prop where
  eq : days + 719468 = yearStart y + monthStart m + ((civil days).day - 1)
  year_lt : days + 719468 < yearStart (y + 1)
  months : 12 * (civil days).year + (civil days).month = 12 * y + m + 3
  month : 0 ≤ m ∧ m ≤ 11
  civil_month : 1 ≤ (civil days).month ∧ (civil days).month ≤ 12
  day : 1 ≤ (civil days).day ∧ (civil days).day ≤ 31
  day_lt : monthStart m + ((civil days).day - 1) < monthStart (m + 1)

/-- A day of the year falls in a month. -/
theorem monthStart_le {t : ℤ} (h₀ : 0 ≤ t) (h₁ : t ≤ 365) :
    (0 ≤ (5 * t + 2) / 153 ∧ (5 * t + 2) / 153 ≤ 11) ∧ monthStart ((5 * t + 2) / 153) ≤ t ∧
      t < monthStart ((5 * t + 2) / 153 + 1) ∧ t ≤ monthStart ((5 * t + 2) / 153) + 30 := by
  simp only [monthStart]
  omega

/-- The civil year and month of a month counted from March. -/
theorem months_eq (y : ℤ) {m : ℤ} (h₀ : 0 ≤ m) (h₁ : m ≤ 11) :
    12 * (y + if (if m < 10 then m + 3 else m - 9) ≤ 2 then 1 else 0)
        + (if m < 10 then m + 3 else m - 9) = 12 * y + m + 3 ∧
      1 ≤ (if m < 10 then m + 3 else m - 9) ∧ (if m < 10 then m + 3 else m - 9) ≤ 12 := by
  split_ifs <;> omega

/-- **`civil` finds the year and the month that a day falls in.** -/
theorem exists_marchDate (days : ℤ) : ∃ y m, MarchDate days y m := by
  obtain ⟨c, b, a, t, h⟩ := exists_eraDay
    (Int.emod_nonneg (days + 719468) (by decide : (146097 : ℤ) ≠ 0))
    (Int.emod_lt_of_pos (days + 719468) (by decide : (0 : ℤ) < 146097))
  have hera := Int.mul_ediv_add_emod (days + 719468) 146097
  obtain ⟨⟨hm₀, hm₁⟩, hle, hlt, h31⟩ := monthStart_le h.nonneg h.le_365
  have hciv : civil days = CivilDate.mk
      (100 * c + 4 * b + a + (days + 719468) / 146097 * 400 +
        if (if (5 * t + 2) / 153 < 10 then (5 * t + 2) / 153 + 3 else (5 * t + 2) / 153 - 9) ≤ 2
        then 1 else 0)
      (if (5 * t + 2) / 153 < 10 then (5 * t + 2) / 153 + 3 else (5 * t + 2) / 153 - 9)
      (t - monthStart ((5 * t + 2) / 153) + 1) := by
    simp only [civil, h.yearOfEra, h.dayOfYear, monthStart]
  obtain ⟨hmonths, hmonth⟩ := months_eq
    (100 * c + 4 * b + a + (days + 719468) / 146097 * 400) hm₀ hm₁
  have hstart := h.yearStart_eq ((days + 719468) / 146097)
  have hend := h.lt_yearStart ((days + 719468) / 146097)
  refine ⟨100 * c + 4 * b + a + (days + 719468) / 146097 * 400, (5 * t + 2) / 153, ?_⟩
  have hday : (civil days).day = t - monthStart ((5 * t + 2) / 153) + 1 := by rw [hciv]
  constructor
  · rw [hday]
    linarith
  · linarith
  · rw [hciv]
    exact hmonths
  · exact ⟨hm₀, hm₁⟩
  · rw [hciv]
    exact hmonth
  · rw [hday]
    constructor <;> linarith
  · rw [hday]
    linarith

/-- The dates in their order: by year, then by month, then by day. -/
def CivilDate.Lt (a b : CivilDate) : Prop :=
  a.year < b.year ∨ a.year = b.year ∧ (a.month < b.month ∨ a.month = b.month ∧ a.day < b.day)

/-- **A later day has a later date.** -/
theorem civil_lt_civil {d e : ℤ} (h : d < e) : (civil d).Lt (civil e) := by
  obtain ⟨y, m, hd⟩ := exists_marchDate d
  obtain ⟨z, n, he⟩ := exists_marchDate e
  have hmonotone : ∀ {i j : ℤ}, i ≤ j → monthStart i ≤ monthStart j := fun h => by
    simp only [monthStart]
    omega
  have hyear : y ≤ z := by
    by_contra hzy
    have hstart : yearStart (z + 1) ≤ yearStart y := yearStart_le (by omega)
    have hmonth : monthStart 0 ≤ monthStart m := hmonotone hd.month.1
    have hzero : monthStart 0 = 0 := rfl
    linarith [hd.eq, hd.day.1, he.year_lt]
  have hmonths : 12 * y + m < 12 * z + n ∨
      12 * y + m = 12 * z + n ∧ (civil d).day < (civil e).day := by
    rcases hyear.lt_or_eq with hyear | rfl
    · left
      linarith [hd.month.2, he.month.1]
    · rcases lt_trichotomy m n with hmn | rfl | hnm
      · left
        linarith
      · exact Or.inr ⟨rfl, by linarith [hd.eq, he.eq]⟩
      · have hmonth : monthStart (n + 1) ≤ monthStart m := hmonotone (by omega)
        linarith [hd.eq, he.eq, hd.day.1, he.day_lt]
  have hd' := hd.months
  have he' := he.months
  have hdm := hd.civil_month
  have hem := he.civil_month
  simp only [CivilDate.Lt]
  omega

/-! ## The years a date can have -/

/-- A day of the years 1 to 9999, the days of a Python `date`. -/
def InYears (days : ℤ) : Prop := -719162 ≤ days ∧ days ≤ 2932896

instance (days : ℤ) : Decidable (InYears days) := inferInstanceAs (Decidable (_ ∧ _))

/-- **Within those years the fields of a date have their digits.** -/
theorem civil_bounds {days : ℤ} (h : InYears days) :
    (1 ≤ (civil days).year ∧ (civil days).year ≤ 9999) ∧
      (1 ≤ (civil days).month ∧ (civil days).month ≤ 12) ∧
      1 ≤ (civil days).day ∧ (civil days).day ≤ 31 := by
  obtain ⟨y, m, hdate⟩ := exists_marchDate days
  refine ⟨⟨?_, ?_⟩, hdate.civil_month, hdate.day⟩
  · rcases h.1.lt_or_eq with hlt | rfl
    · have hfirst : (1 : ℤ) ≤ (civil (-719162)).year := by decide
      rcases civil_lt_civil hlt with hyear | ⟨hyear, -⟩ <;> omega
    · decide
  · rcases h.2.lt_or_eq with hlt | rfl
    · have hlast : (civil 2932896).year ≤ 9999 := by decide
      rcases civil_lt_civil hlt with hyear | ⟨hyear, -⟩ <;> omega
    · decide

end Stamp
