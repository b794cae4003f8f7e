import BookmarksApi.Machinery.Rounding
import BookmarksApi.Stamp.Calendar
import Mathlib.RingTheory.Coprime.Lemmas
import Mathlib.Tactic.NormNum

/-!
# Stamp/UnixTime — `int(datetime.timestamp())`

`timestamp()` divides microseconds by a million in doubles, and `int` drops the fraction.  From 1970
to 2514 that is the whole second the moment lies in (`keepsSecond_of_lt`).  Later, the nearest
double can be the next second; earlier, `int` goes up.
-/

/-- `datetime.timestamp()` of a moment in microseconds. -/
structure UnixTime where
  timestamp : ℤ → ℚ
  nearest : ∀ us : ℤ, FloatFormat.binary64.Nearest (us / 1000000) (timestamp us)

namespace UnixTime

open FloatFormat Stamp

/-- `int(x)`: towards zero. -/
def truncate (x : ℚ) : ℤ := if 0 ≤ x then ⌊x⌋ else ⌈x⌉

/-- The whole second that a moment lies in. -/
def second (us : ℤ) : ℤ := us / 1000000

/-- From 1970 on, the next whole second is not the nearest double; before 1970, the moment's own
second is. -/
def KeepsSecond (us : ℤ) : Prop :=
  if 0 ≤ us then ¬ binary64.Nearest (us / 1000000) (second us + 1 : ℤ)
  else binary64.Nearest (us / 1000000) (second us)

/-- The double that each moment is rounded to. -/
def double : UnixTime where
  timestamp us := binary64.round (us / 1000000)
  nearest us := binary64.nearest_round (us / 1000000)

variable {us : ℤ}

theorem second_le (us : ℤ) : (second us : ℚ) ≤ us / 1000000 := by
  rw [le_div_iff₀ (by norm_num)]
  have h : second us * 1000000 ≤ us := by rw [second]; omega
  exact_mod_cast h

theorem lt_second (us : ℤ) : (us / 1000000 : ℚ) < (second us + 1 : ℤ) := by
  rw [div_lt_iff₀ (by norm_num)]
  have h : us < (second us + 1) * 1000000 := by rw [second]; omega
  exact_mod_cast h

/-- The seconds of the years 1 to 9999. -/
theorem abs_second_lt (h : InYears (us / dayMicros)) :
    |second us| < 2 ^ 39 ∧ |second us + 1| < 2 ^ 39 := by
  simp only [InYears, dayMicros] at h
  simp only [second, abs_lt]
  omega

/-- Whole seconds are doubles. -/
theorem representable_second {n : ℤ} (hn : |n| < 2 ^ 39) : binary64.Representable n :=
  representable_int (hn.trans (by decide)) (by decide) (by decide)

/-- A double beside a whole second, a binary fraction away. -/
theorem representable_beside {n s : ℤ} {k : ℕ} (h : |n * 2 ^ k + s| < 2 ^ 53) (hk : k ≤ 1074) :
    binary64.Representable (n + s / 2 ^ k) := by
  refine ⟨n * 2 ^ k + s, -k, h, by simp only [binary64]; omega, by simp only [binary64]; omega, ?_⟩
  push_cast
  rw [zpow_neg, zpow_natCast, ← div_eq_mul_inv, add_div, mul_div_cancel_right₀ _ (by positivity)]

/-- A moment near a whole second is nearest to it only when it is very near. -/
theorem abs_sub_le_of_nearest {n : ℤ} (hn : |n| < 2 ^ 39) {x : ℚ} (h : binary64.Nearest x n) :
    |x - n| ≤ 1 / 2 ^ 14 := by
  have hn' := abs_lt.mp hn
  have habove := h.2 _ (@representable_beside n 1 13 (abs_lt.mpr (by omega)) (by decide))
  have hbelow := h.2 _ (@representable_beside n (-1) 13 (abs_lt.mpr (by omega)) (by decide))
  push_cast at habove hbelow
  rcases le_total 0 (x - n) with hle | hle
  · rw [abs_of_nonneg hle] at habove ⊢
    rcases abs_cases (x - (n + 1 / 2 ^ 13 : ℚ)) with ⟨heq, -⟩ | ⟨heq, -⟩ <;> linarith
  · rw [abs_of_nonpos hle] at hbelow ⊢
    rcases abs_cases (x - (n + -1 / 2 ^ 13 : ℚ)) with ⟨heq, -⟩ | ⟨heq, -⟩ <;> linarith

/-- **No tie**: when a whole second is a nearest double of a moment, it is the only one.  A double
as near on the other side is a binary fraction with a million as denominator, so a sixty-fourth at
least away. -/
theorem eq_of_nearest {n : ℤ} (hn : |n| < 2 ^ 39) {y : ℚ}
    (hy : binary64.Nearest (us / 1000000) y) (hnear : binary64.Nearest (us / 1000000) n) :
    y = n := by
  by_contra hne
  have hhalf : y + n = 2 * (us / 1000000) := (hy.eq_or_halfway hnear).resolve_left hne
  obtain ⟨a, m, hm⟩ := hy.1.exists_mul_pow
  obtain ⟨p, q, hpq⟩ : IsCoprime ((2 : ℤ) ^ a) 15625 :=
    IsCoprime.pow_left ⟨-7812, 1, by norm_num⟩
  have hk : 64 * y * 15625 = (2 * us - 1000000 * n : ℤ) := by
    push_cast
    linarith
  have hj : 64 * y = (p * (64 * m) + q * (2 * us - 1000000 * n) : ℤ) := by
    have hone : (p : ℚ) * 2 ^ a + q * 15625 = 1 := by exact_mod_cast hpq
    calc 64 * y = 64 * y * (p * 2 ^ a + q * 15625) := by rw [hone, mul_one]
      _ = p * (64 * (y * 2 ^ a)) + q * (64 * y * 15625) := by ring
      _ = _ := by rw [hm, hk]; push_cast; ring
  generalize p * (64 * m) + q * (2 * us - 1000000 * n) = j at hj
  have hfar : (1 : ℚ) ≤ |64 * (y - n)| := by
    have hcast : 64 * (y - n) = (j - 64 * n : ℤ) := by
      push_cast
      rw [← hj]
      ring
    have hzero : j - 64 * n ≠ 0 := by
      intro h
      rw [h, Int.cast_zero] at hcast
      exact hne (by linarith)
    rw [hcast]
    exact_mod_cast Int.one_le_abs hzero
  have hclose : |64 * (y - n)| = 128 * |(us / 1000000 - n : ℚ)| := by
    have hdouble : 64 * (y - n) = 128 * (us / 1000000 - n : ℚ) := by linarith
    rw [hdouble, abs_mul, abs_of_pos (by norm_num)]
  linarith [abs_sub_le_of_nearest hn hnear]

/-! ## The truncated timestamp -/

variable (T : UnixTime) (h : InYears (us / dayMicros))

include h

theorem timestamp_bounds : (second us : ℚ) ≤ T.timestamp us ∧
    T.timestamp us ≤ (second us + 1 : ℤ) := by
  obtain ⟨hlow, hhigh⟩ := abs_second_lt h
  exact ⟨(T.nearest us).ge (representable_second hlow) (second_le us),
    (T.nearest us).le (representable_second hhigh) (lt_second us).le⟩

/-- The truncated timestamp is the second or the one after it. -/
theorem truncate_bounds : second us ≤ truncate (T.timestamp us) ∧
    truncate (T.timestamp us) ≤ second us + 1 := by
  obtain ⟨hle, hge⟩ := T.timestamp_bounds h
  rw [truncate]
  split_ifs
  · exact ⟨Int.le_floor.mpr hle, Int.cast_le.mp ((Int.floor_le _).trans hge)⟩
  · exact ⟨Int.cast_le.mp (hle.trans (Int.le_ceil _)), Int.ceil_le.mpr hge⟩

/-- From 1970 on `int` drops the fraction, so the second is lost when the nearest double is the
next one. -/
theorem floor_eq_second_iff :
    ⌊T.timestamp us⌋ = second us ↔ ¬ binary64.Nearest (us / 1000000) (second us + 1 : ℤ) := by
  obtain ⟨hle, hge⟩ := T.timestamp_bounds h
  rw [Int.floor_eq_iff, and_iff_right hle]
  constructor
  · intro hlt hnear
    have heq := eq_of_nearest (abs_second_lt h).2 (T.nearest us) hnear
    push_cast at heq
    exact hlt.ne heq
  · intro hfar
    refine lt_of_le_of_ne (by exact_mod_cast hge) fun heq => hfar ?_
    have hnear := T.nearest us
    rw [heq] at hnear
    exact_mod_cast hnear

/-- Before 1970 `int` goes up, so the second is kept when the nearest double is it. -/
theorem ceil_eq_second_iff :
    ⌈T.timestamp us⌉ = second us ↔ binary64.Nearest (us / 1000000) (second us) := by
  constructor
  · intro heq
    have hnear := T.nearest us
    have hceil : T.timestamp us ≤ second us := (Int.le_ceil _).trans_eq (congrArg Int.cast heq)
    rwa [le_antisymm hceil (T.timestamp_bounds h).1] at hnear
  · intro hnear
    rw [eq_of_nearest (abs_second_lt h).1 (T.nearest us) hnear, Int.ceil_intCast]

/-- **The truncated timestamp is the moment's second exactly when the nearest double is of it.** -/
theorem truncate_eq_iff : truncate (T.timestamp us) = second us ↔ KeepsSecond us := by
  obtain ⟨hle, hge⟩ := T.timestamp_bounds h
  rw [KeepsSecond]
  split_ifs with hus
  · have hsecond : (0 : ℚ) ≤ second us := by
      exact_mod_cast Int.ediv_nonneg hus (by decide)
    rw [truncate, if_pos (hsecond.trans hle), T.floor_eq_second_iff h]
  · have hsecond : (second us + 1 : ℤ) ≤ (0 : ℚ) := by
      have : second us + 1 ≤ 0 := by rw [second]; omega
      exact_mod_cast this
    have hceil : truncate (T.timestamp us) = ⌈T.timestamp us⌉ := by
      rw [truncate]
      split_ifs with hnonneg
      · rw [le_antisymm (hge.trans hsecond) hnonneg, Int.floor_zero, Int.ceil_zero]
      · rfl
    rw [hceil, T.ceil_eq_second_iff h]

omit h

/-- **Until 2514 the second is kept.** -/
theorem keepsSecond_of_lt (hnonneg : 0 ≤ us) (hlt : us < 2 ^ 34 * 1000000) : KeepsSecond us := by
  rw [KeepsSecond, if_pos hnonneg]
  intro hnear
  have hsecond : 0 ≤ second us ∧ second us < 2 ^ 34 := by
    rw [second]
    omega
  have hz := hnear.2 _ (@representable_beside (second us + 1) (-1) 19 (abs_lt.mpr (by omega))
    (by decide))
  have hmicro : (us / 1000000 : ℚ) ≤ (second us + 1 : ℤ) - 1 / 1000000 := by
    have hus : us + 1 ≤ (second us + 1) * 1000000 := by rw [second]; omega
    have hcast : (us + 1 : ℚ) ≤ (second us + 1 : ℤ) * 1000000 := by exact_mod_cast hus
    linarith
  rw [abs_of_nonpos (by linarith)] at hz
  push_cast at hz hmicro
  rcases abs_cases (us / 1000000 - (second us + 1 + -1 / 2 ^ 19) : ℚ) with ⟨heq, -⟩ | ⟨heq, -⟩ <;>
    linarith

end UnixTime
