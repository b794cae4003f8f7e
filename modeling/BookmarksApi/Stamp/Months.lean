import BookmarksApi.Stamp.Order

/-!
# Stamp/Months — the days of a calendar month, and its text

Months are counted through, from March of year 0, so that a leap day ends a month.  A month is the
days between its first and the next one's (`between_iff`), and `YYYY-MM` names it
(`monthText_eq_iff`), whatever the year of the timestamp.
-/

namespace Stamp

/-! ## Digits -/

/-- The number that padded digits read as. -/
theorem ofDigitChars_pad (w : ℕ) (n : ℤ) : Nat.ofDigitChars 10 (pad w n) 0 = n.toNat := by
  rw [pad, Nat.ofDigitChars_append, Nat.ofDigitChars_replicate_zero, mul_zero, Str.ofNat,
    Nat.ofDigitChars_toDigits (by decide) (by decide)]

/-- **Padding is injective** on positive numbers. -/
theorem pad_inj {w : ℕ} {m n : ℤ} (hn : 0 < n) : pad w m = pad w n ↔ m = n := by
  refine ⟨fun h => ?_, congrArg (pad w)⟩
  have hnat : m.toNat = n.toNat := by rw [← ofDigitChars_pad w m, h, ofDigitChars_pad]
  omega

/-- A padded number is digits. -/
theorem dash_notMem_pad (w : ℕ) (n : ℤ) : '-' ∉ pad w n := by
  rw [pad, List.mem_append, not_or]
  refine ⟨fun h => absurd (List.eq_of_mem_replicate h) (by decide), fun h => ?_⟩
  exact absurd (Str.isDigit_of_mem_ofNat h) (by decide)

/-- Two texts that start alike up to a separator have the same first field. -/
theorem eq_of_field_prefix {c : Char} {s t u v : Str} (hs : c ∉ s) (ht : c ∉ t)
    (h : s ++ c :: u <+: t ++ c :: v) : s = t ∧ u <+: v := by
  induction s generalizing t with
  | nil =>
    rcases t with _ | ⟨d, t⟩
    · exact ⟨rfl, (List.cons_prefix_cons.mp h).2⟩
    · exact absurd ((List.cons_prefix_cons.mp h).1 ▸ List.mem_cons_self) ht
  | cons d s ih =>
    rcases t with _ | ⟨e, t⟩
    · exact absurd ((List.cons_prefix_cons.mp h).1 ▸ List.mem_cons_self) hs
    · obtain ⟨rfl, hrest⟩ := List.cons_prefix_cons.mp h
      obtain ⟨rfl, hprefix⟩ := ih (fun hc => hs (List.mem_cons_of_mem _ hc))
        (fun hc => ht (List.mem_cons_of_mem _ hc)) hrest
      exact ⟨rfl, hprefix⟩

/-- A text between two that start alike starts like them. -/
theorem prefix_of_between {p u v t : Str} (hlow : p ++ u ≤ t) (hhigh : t ≤ p ++ v) : p <+: t := by
  induction p generalizing t with
  | nil => exact List.nil_prefix
  | cons c p ih =>
    rcases t with _ | ⟨d, t⟩
    · exact absurd hlow (not_le.mpr (List.nil_lt_cons _ _))
    · rw [List.cons_append, ← not_lt, List.cons_lt_cons_iff] at hlow hhigh
      obtain ⟨hlow, hlow'⟩ := not_or.mp hlow
      obtain ⟨hhigh, hhigh'⟩ := not_or.mp hhigh
      obtain rfl : c = d := le_antisymm (not_lt.mp hlow) (not_lt.mp hhigh)
      refine List.cons_prefix_cons.mpr ⟨rfl, ih (not_lt.mp fun hlt => ?_) (not_lt.mp fun hlt => ?_)⟩
      · exact hlow' ⟨rfl, hlt⟩
      · exact hhigh' ⟨rfl, hlt⟩

/-! ## Months -/

/-- The first day of a month, counted from March of year 0. -/
def monthFirst (k : ℤ) : ℤ := yearStart (k / 12) + monthStart (k % 12) - 719468

/-- The month that a day falls in. -/
def monthOf (days : ℤ) : ℤ := 12 * (civil days).year + (civil days).month - 3

theorem monthFirst_lt_succ (k : ℤ) : monthFirst k < monthFirst (k + 1) := by
  simp only [monthFirst]
  rcases eq_or_ne (k % 12) 11 with hlast | hlast
  · have hyear : (k + 1) / 12 = k / 12 + 1 := by omega
    have hmonth : (k + 1) % 12 = 0 := by omega
    rw [hyear, hmonth, hlast]
    simp only [yearStart, monthStart]
    omega
  · have hyear : (k + 1) / 12 = k / 12 := by omega
    have hmonth : (k + 1) % 12 = k % 12 + 1 := by omega
    rw [hyear, hmonth]
    simp only [monthStart]
    omega

theorem monthFirst_le {j k : ℤ} (h : j ≤ k) : monthFirst j ≤ monthFirst k :=
  (strictMono_int_of_lt_succ monthFirst_lt_succ).monotone h

/-- **A day falls between the first of its month and the first of the next.** -/
theorem monthFirst_monthOf (days : ℤ) :
    monthFirst (monthOf days) ≤ days ∧ days < monthFirst (monthOf days + 1) := by
  obtain ⟨y, m, h⟩ := exists_marchDate days
  obtain ⟨hm₀, hm₁⟩ := h.month
  have hmonth : monthOf days = 12 * y + m := by
    rw [monthOf, h.months]
    omega
  have hyear : (12 * y + m) / 12 = y := by omega
  have hrest : (12 * y + m) % 12 = m := by omega
  have heq := h.eq
  have hday := h.day
  rw [hmonth]
  refine ⟨?_, ?_⟩
  · rw [monthFirst, hyear, hrest]
    omega
  · rcases eq_or_ne m 11 with rfl | hne
    · have hnext : (12 * y + 11 + 1) / 12 = y + 1 ∧ (12 * y + 11 + 1) % 12 = 0 := by omega
      have hlt := h.year_lt
      rw [monthFirst, hnext.1, hnext.2]
      simp only [monthStart]
      omega
    · have hnext : (12 * y + m + 1) / 12 = y ∧ (12 * y + m + 1) % 12 = m + 1 := by omega
      have hlt := h.day_lt
      rw [monthFirst, hnext.1, hnext.2]
      omega

/-- **The days of a month.** -/
theorem monthOf_eq_iff {days k : ℤ} :
    monthOf days = k ↔ monthFirst k ≤ days ∧ days < monthFirst (k + 1) := by
  obtain ⟨hfirst, hlast⟩ := monthFirst_monthOf days
  constructor
  · rintro rfl
    exact ⟨hfirst, hlast⟩
  · rintro ⟨hle, hlt⟩
    by_contra hne
    rcases lt_or_gt_of_ne hne with hbefore | hafter
    · exact absurd (hlast.trans_le (monthFirst_le hbefore)) (not_lt.mpr hle)
    · exact absurd (hlt.trans_le (monthFirst_le hafter)) (not_lt.mpr hfirst)

/-- A month of the years that a Python `date` can have. -/
structure CalendarMonth where
  year : ℤ
  month : ℤ
  year_bounds : 1 ≤ year ∧ year ≤ 9999
  month_bounds : 1 ≤ month ∧ month ≤ 12

namespace CalendarMonth

variable (M : CalendarMonth)

/-- Counted from March of year 0. -/
def number : ℤ := 12 * M.year + M.month - 3

/-- Its first day. -/
def firstDay : ℤ := monthFirst M.number

/-- Its last day. -/
def lastDay : ℤ := monthFirst (M.number + 1) - 1

/-- `YYYY-MM`. -/
def text : Str := pad 4 M.year ++ '-' :: pad 2 M.month

variable {M}

theorem civil_month_bounds (days : ℤ) : 1 ≤ (civil days).month ∧ (civil days).month ≤ 12 :=
  let ⟨_, _, h⟩ := exists_marchDate days
  h.civil_month

/-- **A day is one of the month when its date has the month's year and number.** -/
theorem between_iff {days : ℤ} : M.firstDay ≤ days ∧ days ≤ M.lastDay ↔
    (civil days).year = M.year ∧ (civil days).month = M.month := by
  have hdate := civil_month_bounds days
  have hmonth := M.month_bounds
  have hsame : monthOf days = M.number ↔
      (civil days).year = M.year ∧ (civil days).month = M.month := by
    simp only [monthOf, number]
    omega
  rw [← hsame, monthOf_eq_iff, firstDay, lastDay]
  omega

/-- **`YYYY-MM` names the month.** -/
theorem monthText_eq_iff {s : Stamp} :
    s.monthText = M.text ↔ M.firstDay ≤ s.day ∧ s.day ≤ M.lastDay := by
  have hdate := civil_month_bounds s.day
  have hmonth := M.month_bounds
  have hyear := M.year_bounds
  have htext : s.monthText = pad 4 (civil s.day).year ++ '-' :: pad 2 (civil s.day).month := rfl
  rw [between_iff, htext, text, ← pad_inj (w := 4) (show 0 < M.year by omega),
    ← pad_inj (w := 2) (show 0 < M.month by omega)]
  constructor
  · intro h
    have hlength : (pad 2 (civil s.day).month).length = (pad 2 M.month).length := by
      rw [length_pad (w := 1) (by omega) (by omega), length_pad (w := 1) (by omega) (by omega)]
    obtain ⟨hfirst, hrest⟩ := List.append_inj' h (by simpa using hlength)
    exact ⟨hfirst, (List.cons.inj hrest).2⟩
  · rintro ⟨hfirst, hrest⟩
    rw [hfirst, hrest]

/-- **Its days have dates.** -/
theorem inYears {days : ℤ} (h : M.firstDay ≤ days ∧ days ≤ M.lastDay) : InYears days := by
  obtain ⟨hyear, -⟩ := between_iff.mp h
  have hmonth := civil_month_bounds days
  have hbounds := M.year_bounds
  obtain ⟨_, _, hdate⟩ := exists_marchDate days
  have hday := hdate.day
  have hfirst : civil (-719162) = ⟨1, 1, 1⟩ := by decide
  have hlast : civil 2932896 = ⟨9999, 12, 31⟩ := by decide
  refine ⟨not_lt.mp fun hlt => ?_, not_lt.mp fun hlt => ?_⟩
  · have hbefore := civil_lt_civil hlt
    simp only [hfirst, CivilDate.Lt] at hbefore
    omega
  · have hafter := civil_lt_civil hlt
    simp only [hlast, CivilDate.Lt] at hafter
    omega

theorem firstDay_le_lastDay : M.firstDay ≤ M.lastDay :=
  Int.le_sub_one_of_lt (monthFirst_lt_succ _)

/-- The text of a stamp starts with its month. -/
theorem exists_text_eq (s : Stamp) : ∃ rest, s.text = s.monthText ++ '-' :: rest := by
  cases s with
  | seconds s =>
    rw [Stamp.text, secondText]
    simp only [List.append_assoc, List.cons_append]
    exact ⟨_, rfl⟩
  | micros us =>
    rw [Stamp.text, secondText]
    simp only [List.append_assoc, List.cons_append]
    exact ⟨_, rfl⟩

/-- **A text between two of the month is of the month**, even one that is no date. -/
theorem monthText_of_between {s lower upper : Stamp} (hlower : lower.monthText = M.text)
    (hupper : upper.monthText = M.text) (h : lower.text ≤ s.text ∧ s.text ≤ upper.text) :
    s.monthText = M.text := by
  obtain ⟨low, hlow⟩ := exists_text_eq lower
  obtain ⟨high, hhigh⟩ := exists_text_eq upper
  obtain ⟨rest, hrest⟩ := exists_text_eq s
  rw [hlow, hhigh, hlower, hupper, ← List.singleton_append, ← List.append_assoc,
    ← List.singleton_append (l := high), ← List.append_assoc] at h
  have hprefix := prefix_of_between h.1 h.2
  have htext : s.monthText = pad 4 (civil s.day).year ++ '-' :: pad 2 (civil s.day).month := rfl
  rw [hrest, htext, CalendarMonth.text] at hprefix
  simp only [List.append_assoc, List.cons_append] at hprefix
  obtain ⟨hyear, hprefix⟩ := eq_of_field_prefix (dash_notMem_pad _ _) (dash_notMem_pad _ _) hprefix
  obtain ⟨hmonth, -⟩ := eq_of_field_prefix (dash_notMem_pad _ _) (dash_notMem_pad _ _) hprefix
  rw [htext, CalendarMonth.text, hyear, hmonth]

end CalendarMonth

end Stamp
