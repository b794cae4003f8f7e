import BookmarksApi.Text

/-!
# Text/Integers — `str(int)` and `int(str)`

`int` reads more than `str` writes: whitespace around the number, a sign, decimal digits of any
script, underscores between them.  It reads back what `str` wrote (`toInt?_ofInt`), up to the 4300
digits that it takes.
-/

namespace Str

/-- `str(n)`. -/
def ofInt : ℤ → Str
  | .ofNat n => ofNat n
  | .negSucc n => '-' :: ofNat (n + 1)

/-- The code points of the zeros: nine more digits follow each. -/
def zeros : List ℕ :=
  [0x30, 0x660, 0x6F0, 0x7C0, 0x966, 0x9E6, 0xA66, 0xAE6, 0xB66, 0xBE6, 0xC66, 0xCE6, 0xD66, 0xDE6,
    0xE50, 0xED0, 0xF20, 0x1040, 0x1090, 0x17E0, 0x1810, 0x1946, 0x19D0, 0x1A80, 0x1A90, 0x1B50,
    0x1BB0, 0x1C40, 0x1C50, 0xA620, 0xA8D0, 0xA900, 0xA9D0, 0xA9F0, 0xAA50, 0xABF0, 0xFF10, 0x104A0,
    0x10D30, 0x11066, 0x110F0, 0x11136, 0x111D0, 0x112F0, 0x11450, 0x114D0, 0x11650, 0x116C0,
    0x11730, 0x118E0, 0x11950, 0x11C50, 0x11D50, 0x11DA0, 0x11F50, 0x16A60, 0x16AC0, 0x16B50,
    0x1D7CE, 0x1D7D8, 0x1D7E2, 0x1D7EC, 0x1D7F6, 0x1E140, 0x1E2F0, 0x1E4F0, 0x1E950, 0x1FBF0]

/-- The value of a decimal digit. -/
def digitValue (c : Char) : Option ℕ :=
  (zeros.find? fun z => z ≤ c.toNat && c.toNat < z + 10).map fun z => c.toNat - z

/-- One digit or more, with single underscores between them. -/
def digits? : Str → Option (List ℕ)
  | [] => none
  | c :: cs => do
    let d ← digitValue c
    match cs with
    | [] => some [d]
    | '_' :: cs => (digits? cs).map (d :: ·)
    | cs => (digits? cs).map (d :: ·)

/-- The number that digits stand for. -/
def value (ds : List ℕ) : ℕ := ds.foldl (fun n d => 10 * n + d) 0

/-- `sys.get_int_max_str_digits()`. -/
def maxDigits : ℕ := 4300

/-- A number without sign: `ValueError` on any other text, and on too many digits. -/
def toNat? (s : Str) : Option ℕ := (digits? s).bind fun ds =>
  if ds.length ≤ maxDigits then some (value ds) else none

/-- The whitespace that `int` skips: the information separators do not count. -/
def isIntSpace (c : Char) : Bool := isSpace c && !(0x1C ≤ c.toNat && c.toNat ≤ 0x1F)

/-- `int(s)`; `none` is its `ValueError`. -/
def toInt? (s : Str) : Option ℤ :=
  match (s.dropWhile isIntSpace).rdropWhile isIntSpace with
  | '-' :: s => (toNat? s).map fun n => -n
  | '+' :: s => (toNat? s).map fun n => n
  | s => (toNat? s).map fun n => n

example : toInt? " -1_000\t".toList = some (-1000) := by decide +kernel

example : toInt? "1__0".toList = none := by decide +kernel

/-! ## What `str` wrote is read back -/

/-- A digit that `str` writes. -/
theorem digitValue_of_isDigit {c : Char} (h : c.isDigit = true) :
    digitValue c = some (c.toNat - '0'.toNat) := by
  obtain ⟨hge, hle⟩ := isDigit_bounds h
  have hlt : c.toNat < 0x30 + 10 := by omega
  rw [digitValue, zeros, List.find?_cons_of_pos]
  · rfl
  · rw [Bool.and_eq_true, decide_eq_true_eq, decide_eq_true_eq]
    exact ⟨hge, hlt⟩

theorem digits?_of_isDigit : ∀ {s : Str}, s ≠ [] → (∀ c ∈ s, c.isDigit = true) →
    digits? s = some (s.map fun c => c.toNat - '0'.toNat)
  | [], h, _ => absurd rfl h
  | c :: s, _, hs => by
    have hc : digitValue c = some (c.toNat - '0'.toNat) :=
      digitValue_of_isDigit (hs c List.mem_cons_self)
    have hrest : ∀ d ∈ s, d.isDigit = true := fun d hd => hs d (List.mem_cons_of_mem c hd)
    rcases s with _ | ⟨d, s⟩
    · simp [digits?, hc]
    · have hd : d ≠ '_' := by
        rintro rfl
        exact absurd (hrest '_' List.mem_cons_self) (by decide)
      rw [digits?, hc]
      simp only [Option.bind_eq_bind, Option.bind_some]
      split
      · rename_i heq
        cases heq
      · rename_i heq
        exact absurd (List.cons.inj heq).1 hd
      · rw [digits?_of_isDigit (List.cons_ne_nil d s) hrest]
        rfl

theorem value_map {s : Str} :
    value (s.map fun c => c.toNat - '0'.toNat) = Nat.ofDigitChars 10 s 0 := by
  rw [value, List.foldl_map, Nat.ofDigitChars_eq_foldl]

theorem ofNat_ne_nil (n : ℕ) : ofNat n ≠ [] :=
  List.ne_nil_of_length_pos Nat.length_toDigits_pos

/-- **`int` reads a natural number back.** -/
theorem toNat?_ofNat {n : ℕ} (hn : (ofNat n).length ≤ maxDigits) : toNat? (ofNat n) = some n := by
  rw [toNat?, digits?_of_isDigit (ofNat_ne_nil n) fun c hc => isDigit_of_mem_ofNat hc,
    Option.bind_some, List.length_map, if_pos hn, value_map]
  exact congrArg some (Nat.ofDigitChars_toDigits (by decide) (by decide))

/-- What `str` writes has nothing to skip. -/
theorem isIntSpace_of_mem_ofInt {n : ℤ} {c : Char} (h : c ∈ ofInt n) : isIntSpace c = false := by
  have hdigit : ∀ {d : Char}, d.isDigit = true → isIntSpace d = false := by
    intro d hd
    obtain ⟨hge, hle⟩ := isDigit_bounds hd
    rw [Bool.eq_false_iff]
    simp only [isIntSpace, isSpace, ne_eq, Bool.and_eq_true, Bool.or_eq_true, decide_eq_true_eq,
      beq_iff_eq]
    omega
  rcases n with n | n
  · exact hdigit (isDigit_of_mem_ofNat h)
  · rcases List.mem_cons.mp h with rfl | h
    · rfl
    · exact hdigit (isDigit_of_mem_ofNat h)

theorem skip_ofInt (n : ℤ) :
    ((ofInt n).dropWhile isIntSpace).rdropWhile isIntSpace = ofInt n := by
  have hall : ∀ c ∈ ofInt n, ¬ isIntSpace c = true := fun c hc => by
    rw [isIntSpace_of_mem_ofInt hc]
    exact Bool.false_ne_true
  rw [List.dropWhile_eq_self_iff.mpr fun hl => hall _ (List.getElem_mem hl),
    List.rdropWhile_eq_self_iff.mpr fun hl => hall _ (List.getLast_mem hl)]

/-- The digits are read, and the sign before them. -/
theorem toInt?_ofInt_eq (n : ℤ) : toInt? (ofInt n)
    = (toNat? (ofNat n.natAbs)).map fun k : ℕ => if n < 0 then -(k : ℤ) else k := by
  rw [toInt?, skip_ofInt]
  rcases n with n | n
  · -- The first character is a digit, so no sign is read.
    have hsign : ∀ c, c ∈ ofNat n → c ≠ '-' ∧ c ≠ '+' := fun c hc =>
      ⟨by rintro rfl; exact absurd (isDigit_of_mem_ofNat hc) (by decide),
        by rintro rfl; exact absurd (isDigit_of_mem_ofNat hc) (by decide)⟩
    rw [ofInt]
    split
    · rename_i heq
      exact absurd rfl (hsign '-' (heq ▸ List.mem_cons_self)).1
    · rename_i heq
      exact absurd rfl (hsign '+' (heq ▸ List.mem_cons_self)).2
    · have hpos : ¬ (n : ℤ) < 0 := by omega
      simp only [Int.ofNat_eq_natCast, Int.natAbs_natCast, hpos, if_false]
      cases toNat? (ofNat n) <;> rfl
  · have hneg : (Int.negSucc n : ℤ) < 0 := Int.negSucc_lt_zero n
    simp only [ofInt, Int.natAbs_negSucc, hneg, if_true, Nat.succ_eq_add_one]
    cases toNat? (ofNat (n + 1)) <;> rfl

/-- **`int` reads back what `str` wrote**, within the digits that it takes. -/
theorem toInt?_ofInt {n : ℤ} (hn : (ofNat n.natAbs).length ≤ maxDigits) :
    toInt? (ofInt n) = some n := by
  rw [toInt?_ofInt_eq, toNat?_ofNat hn, Option.map_some]
  congr 1
  split_ifs <;> omega

/-- **And nothing else.** -/
theorem eq_of_toInt?_ofInt {n m : ℤ} (h : toInt? (ofInt n) = some m) : m = n := by
  by_cases hn : (ofNat n.natAbs).length ≤ maxDigits
  · rw [toInt?_ofInt hn] at h
    exact (Option.some.inj h).symm
  · rw [toInt?_ofInt_eq, toNat?, digits?_of_isDigit (ofNat_ne_nil _) fun c hc =>
      isDigit_of_mem_ofNat hc, Option.bind_some, List.length_map, if_neg hn] at h
    cases h

/-- A signed 64-bit integer has few digits. -/
theorem length_ofNat_le {n : ℕ} (hn : n < 100000000000000000000) :
    (ofNat n).length ≤ maxDigits := by
  have hlength : (ofNat n).length ≤ 20 :=
    (Nat.length_toDigits_le_iff (by decide) (by decide)).mpr hn
  exact hlength.trans (by decide)

/-- **Decimal rendering is injective.** -/
theorem ofInt_inj {m n : ℤ} : ofInt m = ofInt n ↔ m = n := by
  have hminus : ∀ k l : ℕ, ofNat k ≠ '-' :: ofNat l := fun k l h =>
    absurd (isDigit_of_mem_ofNat (n := k) (h ▸ List.mem_cons_self)) (by decide)
  rcases m with m | m <;> rcases n with n | n
  · simp only [ofInt, ofNat_inj, Int.ofNat.injEq]
  · exact iff_of_false (hminus m (n + 1)) nofun
  · exact iff_of_false (hminus n (m + 1)).symm nofun
  · simp only [ofInt, List.cons.injEq, true_and, ofNat_inj, Nat.add_right_cancel_iff,
      Int.negSucc.injEq]

theorem toInt?_nil : toInt? [] = none := rfl

end Str
