import BookmarksApi.Platform
import BookmarksApi.Stamp.Calendar

/-!
# Stamp/Order — the order of stored texts is the order of time

SQLite compares timestamps as texts.  Fields of fixed width sort as their numbers (`pad_lt_pad`), so
two texts of whole seconds sort as the seconds do (`secondText_lt`); where the second is the same,
the text that also writes its microseconds is the longer, and so the greater.
-/

namespace Str

/-- The order of two texts of one length is not changed by what follows them. -/
theorem append_lt_append {s t : Str} (h : s < t) (hlength : s.length = t.length) (u v : Str) :
    s ++ u < t ++ v := by
  induction s generalizing t with
  | nil =>
    obtain rfl := List.length_eq_zero_iff.mp hlength.symm
    exact absurd h (lt_irrefl _)
  | cons c s ih =>
    rcases t with _ | ⟨d, t⟩
    · cases hlength
    · rw [List.cons_append, List.cons_append, List.cons_lt_cons_iff]
      rcases List.cons_lt_cons_iff.mp h with hlt | ⟨rfl, hlt⟩
      · exact Or.inl hlt
      · exact Or.inr ⟨rfl, ih hlt (by simpa using hlength)⟩

/-- A text is before every longer text it starts. -/
theorem lt_append (s : Str) {t : Str} (h : t ≠ []) : s < s ++ t := by
  obtain ⟨c, t, rfl⟩ := List.exists_cons_of_ne_nil h
  have happend : s ++ [] < s ++ c :: t := List.append_left_lt (List.nil_lt_cons c t)
  simpa using happend

end Str

namespace Stamp

/-! ## Fields -/

/-- The last `w` decimal digits of a number. -/
def digits : ℕ → ℕ → Str
  | 0, _ => []
  | w + 1, n => digits w (n / 10) ++ [Nat.digitChar (n % 10)]

@[simp] theorem length_digits (w n : ℕ) : (digits w n).length = w := by
  induction w generalizing n with
  | zero => rfl
  | succ w ih => rw [digits, List.length_append, ih, List.length_singleton]

theorem digitChar_lt {a b : ℕ} (h : a < b) (hb : b < 10) :
    Nat.digitChar a < Nat.digitChar b := by
  have hall : ∀ b < 10, ∀ a < b, Nat.digitChar a < Nat.digitChar b := by decide
  exact hall b hb a h

/-- **Digits sort as their numbers.** -/
theorem digits_lt_digits {w a b : ℕ} (h : a < b) (hb : b < 10 ^ w) :
    digits w a < digits w b := by
  induction w generalizing a b with
  | zero => omega
  | succ w ih =>
    rw [digits, digits]
    have hb' : b / 10 < 10 ^ w := by
      rw [pow_succ] at hb
      omega
    rcases (Nat.div_le_div_right h.le : a / 10 ≤ b / 10).lt_or_eq with hlt | heq
    · exact Str.append_lt_append (ih hlt hb') (by simp) _ _
    · rw [heq]
      refine List.append_left_lt (List.cons_lt_cons_iff.mpr (Or.inl (digitChar_lt ?_ ?_))) <;> omega

theorem digits_zero (w : ℕ) : digits w 0 = List.replicate w '0' := by
  induction w with
  | zero => rfl
  | succ w ih =>
    rw [digits, Nat.zero_div, ih, List.replicate_succ']
    rfl

/-- A number with few enough digits is padded to its last digits. -/
theorem pad_eq_digits {w n : ℕ} (h : n < 10 ^ (w + 1)) :
    pad (w + 1) n = digits (w + 1) n := by
  induction w generalizing n with
  | zero =>
    have hn : n < 10 := by simpa using h
    rw [pad, Int.toNat_natCast, Str.ofNat, Nat.toDigits_of_lt_base hn, digits,
      Nat.mod_eq_of_lt hn]
    rfl
  | succ w ih =>
    rw [digits, pad, Int.toNat_natCast, Str.ofNat]
    by_cases hn : n < 10
    · rw [Nat.toDigits_of_lt_base hn, Nat.div_eq_of_lt hn, Nat.mod_eq_of_lt hn, digits_zero]
      rfl
    · have hdiv : n / 10 < 10 ^ (w + 1) := by
        rw [pow_succ] at h
        omega
      rw [← ih hdiv, pad, Int.toNat_natCast, Str.ofNat,
        Nat.toDigits_of_base_le (by decide) (by omega), List.length_append,
        List.length_singleton, Nat.add_sub_add_right, List.append_assoc]

theorem length_pad {w : ℕ} {n : ℤ} (h₀ : 0 ≤ n) (h₁ : n < 10 ^ (w + 1)) :
    (pad (w + 1) n).length = w + 1 := by
  lift n to ℕ using h₀
  rw [pad_eq_digits (by exact_mod_cast h₁), length_digits]

/-- **Padded numbers sort as numbers.** -/
theorem pad_lt_pad {w : ℕ} {m n : ℤ} (h₀ : 0 ≤ m) (h : m < n) (h₁ : n < 10 ^ (w + 1)) :
    pad (w + 1) m < pad (w + 1) n := by
  lift m to ℕ using h₀
  lift n to ℕ using h.le.trans' (by positivity)
  have hn : n < 10 ^ (w + 1) := by exact_mod_cast h₁
  have hmn : m < n := by exact_mod_cast h
  rw [pad_eq_digits (hmn.trans hn), pad_eq_digits hn]
  exact digits_lt_digits hmn hn

/-- A field decides, or what follows it does. -/
theorem field_lt {w : ℕ} {m n : ℤ} (h₀ : 0 ≤ m) (h₁ : n < 10 ^ (w + 1)) {c : Char} {s t : Str}
    (h : m < n ∨ m = n ∧ s < t) : pad (w + 1) m ++ c :: s < pad (w + 1) n ++ c :: t := by
  rcases h with hlt | ⟨rfl, hlt⟩
  · refine Str.append_lt_append (pad_lt_pad h₀ hlt h₁) ?_ _ _
    rw [length_pad h₀ (hlt.trans h₁), length_pad (h₀.trans hlt.le) h₁]
  · exact List.append_left_lt (List.cons_lt_cons_iff.mpr (Or.inr ⟨rfl, hlt⟩))

/-! ## Seconds -/

/-- The day a stamp falls on. -/
def day (s : Stamp) : ℤ := s.instant / dayMicros

/-- The second of that day. -/
def secondOfDay (s : Stamp) : ℤ := s.instant % dayMicros / 1000000

theorem secondOfDay_bounds (s : Stamp) : 0 ≤ s.secondOfDay ∧ s.secondOfDay < 86400 := by
  simp only [secondOfDay, dayMicros]
  omega

/-- The text of a second, field by field. -/
theorem secondText_eq (s : Stamp) : s.secondText =
    pad 4 (civil s.day).year ++ '-' :: (pad 2 (civil s.day).month ++ '-' ::
      (pad 2 (civil s.day).day ++ ' ' :: (pad 2 (s.secondOfDay / 3600) ++ ':' ::
        (pad 2 (s.secondOfDay / 60 % 60) ++ ':' :: pad 2 (s.secondOfDay % 60))))) := by
  simp only [secondText, monthText, List.append_assoc, List.cons_append]
  rfl

theorem length_secondText {s : Stamp} (h : InYears s.day) : s.secondText.length = 19 := by
  obtain ⟨⟨hy₀, hy₁⟩, ⟨hm₀, hm₁⟩, hd₀, hd₁⟩ := civil_bounds h
  obtain ⟨ht₀, ht₁⟩ := s.secondOfDay_bounds
  rw [secondText_eq]
  simp only [List.length_append, List.length_cons]
  rw [length_pad (w := 3) (by omega) (by omega), length_pad (w := 1) (by omega) (by omega),
    length_pad (w := 1) (by omega) (by omega), length_pad (w := 1) (by omega) (by omega),
    length_pad (w := 1) (by omega) (by omega), length_pad (w := 1) (by omega) (by omega)]

/-- **Texts of seconds sort as the seconds do.** -/
theorem secondText_lt {s t : Stamp} (hs : InYears s.day) (ht : InYears t.day)
    (h : s.day < t.day ∨ s.day = t.day ∧ s.secondOfDay < t.secondOfDay) :
    s.secondText < t.secondText := by
  obtain ⟨⟨hsy, -⟩, ⟨hsm, -⟩, hsd, -⟩ := civil_bounds hs
  obtain ⟨⟨hty₀, hty⟩, ⟨htm₀, htm⟩, htd₀, htd⟩ := civil_bounds ht
  obtain ⟨hs₀, -⟩ := s.secondOfDay_bounds
  obtain ⟨-, ht₁⟩ := t.secondOfDay_bounds
  rw [secondText_eq, secondText_eq]
  have hyear : (civil t.day).year < 10 ^ (3 + 1) := by omega
  have hmonth : (civil t.day).month < 10 ^ (1 + 1) := by omega
  have hday : (civil t.day).day < 10 ^ (1 + 1) := by omega
  -- The first field in which the two differ decides: of the date, or else of the time of day.
  rcases h with hlt | ⟨heq, hlt⟩
  · refine field_lt (by omega) hyear ?_
    rcases civil_lt_civil hlt with hy | ⟨hy, hm⟩
    · exact Or.inl hy
    · refine Or.inr ⟨hy, field_lt (by omega) hmonth ?_⟩
      rcases hm with hm | ⟨hm, hd⟩
      · exact Or.inl hm
      · exact Or.inr ⟨hm, field_lt (by omega) hday (Or.inl hd)⟩
  · rw [heq]
    refine field_lt (by omega) hyear (Or.inr ⟨rfl, field_lt (by omega) hmonth (Or.inr ⟨rfl, ?_⟩)⟩)
    refine field_lt (by omega) hday (Or.inr ⟨rfl, ?_⟩)
    have htime : s.secondOfDay / 3600 < t.secondOfDay / 3600 ∨
        s.secondOfDay / 3600 = t.secondOfDay / 3600 ∧
          (s.secondOfDay / 60 % 60 < t.secondOfDay / 60 % 60 ∨
            s.secondOfDay / 60 % 60 = t.secondOfDay / 60 % 60 ∧
              s.secondOfDay % 60 < t.secondOfDay % 60) := by
      omega
    refine field_lt (w := 1) (by omega) (by omega) ?_
    rcases htime with hh | ⟨hh, hm⟩
    · exact Or.inl hh
    · refine Or.inr ⟨hh, field_lt (w := 1) (by omega) (by omega) ?_⟩
      rcases hm with hm | ⟨hm, hsec⟩
      · exact Or.inl hm
      · exact Or.inr ⟨hm, pad_lt_pad (w := 1) (by omega) hsec (by omega)⟩

end Stamp
