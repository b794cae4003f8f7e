import BookmarksApi.Machinery.Ordering
import BookmarksApi.Stamp
import Mathlib.Algebra.Group.Int.Defs
import Mathlib.Data.List.Lex
import Mathlib.Data.Char

/-!
# Platform — what the repository's code calls and does not contain

Python's `str.lower`, and the database: its own `lower()` and letter comparison, the patterns its
`LIKE` takes, its collation, how it keeps timestamps, how it numbers new rows, which integers its
driver can bind.  Results are
stated for any platform, so they hold of SQLite and PostgreSQL alike; the laws of the structure are
the documented behaviour the code relies on.  `sqlite` is the default back end.
-/

/-- How a table numbers its new rows. -/
inductive IdRule
  /-- SQLite's `INTEGER PRIMARY KEY` without `AUTOINCREMENT`: 1 + the largest id in the table. -/
  | maxPlusOne
  /-- PostgreSQL's sequence: 1 + the last number given out, whatever became of its row. -/
  | sequence
  deriving DecidableEq, Repr

namespace IdRule

/-- The largest id in a table, 0 when there is none. -/
def maxId (ids : List ℤ) : ℤ := ids.foldr max 0

theorem le_maxId {ids : List ℤ} {i : ℤ} (h : i ∈ ids) : i ≤ maxId ids := by
  induction ids with
  | nil => cases h
  | cons j ids ih =>
    rcases List.mem_cons.mp h with rfl | h
    · exact le_max_left _ _
    · exact (ih h).trans (le_max_right _ _)

/-- The number of the next row, from the ids in the table and the last number given out. -/
def next : IdRule → List ℤ → ℤ → ℤ
  | maxPlusOne, ids, _ => maxId ids + 1
  | sequence, _, last => last + 1

/-- **A new row gets a number no row has.** -/
theorem next_ne (rule : IdRule) {ids : List ℤ} {last i : ℤ} (hlast : ∀ j ∈ ids, j ≤ last)
    (hi : i ∈ ids) : i ≠ rule.next ids last := by
  cases rule with
  | maxPlusOne => have := le_maxId hi; simp only [next]; omega
  | sequence => have := hlast i hi; simp only [next]; omega

end IdRule

/-- The outside of the repository. -/
structure Platform where
  /-- Python's `str.lower`. -/
  lower : Str → Str
  lower_lower : ∀ x, lower (lower x) = lower x
  strip_lower : ∀ x, Str.strip (lower (Str.strip x)) = lower (Str.strip x)
  /-- The database's `lower()`. -/
  sqlLower : Str → Str
  sqlLower_lower : ∀ x, sqlLower (lower x) = lower x
  /-- The database's comparison of single letters under `LIKE`. -/
  sameLetter : Char → Char → Bool
  /-- The patterns that `LIKE` takes: any other raises. -/
  takesPattern : Str → Bool
  /-- The order of texts under `ORDER BY`. -/
  collation : TotalPreorder Str
  collation_antisymm : ∀ a b, collation.le a b = true → collation.le b a = true → a = b
  /-- What the server default `now()` writes at an instant given in microseconds. -/
  currentTimestamp : ℤ → Stamp
  /-- The order of stored timestamps. -/
  stampOrder : TotalPreorder Stamp
  /-- The `YYYY-MM` bucket of a timestamp. -/
  month : Stamp → Str
  /-- How tables number their new rows. -/
  ids : IdRule
  /-- The integers the driver can bind to a statement. -/
  bindable : ℤ → Bool

/-- A signed 64-bit integer. -/
def IsInt64 (n : ℤ) : Prop := -2 ^ 63 ≤ n ∧ n < 2 ^ 63

instance (n : ℤ) : Decidable (IsInt64 n) := inferInstanceAs (Decidable (_ ∧ _))

namespace Platform

/-- The driver takes the signed 64-bit integers, and no others. -/
def TakesInt64 (P : Platform) : Prop := ∀ n, P.bindable n = true ↔ IsInt64 n

/-! ## Names

A tag and an e-mail address are compared after `strip().lower()`. -/

/-- `x.strip().lower()`. -/
def norm (P : Platform) (x : Str) : Str := P.lower (Str.strip x)

/-- **Normalizing twice is normalizing once.** -/
@[simp] theorem norm_norm (P : Platform) (x : Str) : P.norm (P.norm x) = P.norm x := by
  rw [norm, norm, P.strip_lower, P.lower_lower]

/-! ## SQLite

Letters fold over a table: `A`–`Z` for the database, and over Latin-1 for Python, whose `lower()`
agrees with `latin1Lower` on every text up to `ÿ`. -/

/-- The upper-case letters whose lower-case form is 32 code points up. -/
def isUpper (latin1 : Bool) (c : Char) : Bool :=
  (65 ≤ c.toNat && c.toNat ≤ 90) ||
    (latin1 && 0xC0 ≤ c.toNat && c.toNat ≤ 0xDE && c.toNat != 0xD7)

/-- The lower-case form of a letter. -/
def foldChar (latin1 : Bool) (c : Char) : Char :=
  if isUpper latin1 c then Char.ofNat (c.toNat + 32) else c

theorem toNat_foldChar {latin1 : Bool} {c : Char} (h : isUpper latin1 c = true) :
    (foldChar latin1 c).toNat = c.toNat + 32 := by
  have hvalid : (c.toNat + 32).isValidChar := by
    simp only [isUpper, Bool.or_eq_true, Bool.and_eq_true, decide_eq_true_eq] at h
    exact Or.inl (by omega)
  rw [foldChar, if_pos h, Char.ofNat, dif_pos hvalid]
  rfl

/-- **A folded letter is not an upper-case letter.** -/
theorem isUpper_foldChar (latin1 : Bool) (c : Char) : isUpper latin1 (foldChar true c) = false := by
  by_cases h : isUpper true c = true
  · have hn := toNat_foldChar h
    simp only [isUpper, Bool.or_eq_true, Bool.and_eq_true, decide_eq_true_eq] at h
    simp only [isUpper, hn, Bool.or_eq_false_iff, Bool.and_eq_false_iff, decide_eq_false_iff_not,
      bne_eq_false_iff_eq]
    omega
  · rw [foldChar, if_neg h]
    cases latin1 with
    | true => simpa using h
    | false =>
      simp only [isUpper, Bool.or_eq_true, not_or] at h
      simpa [isUpper] using h.1

theorem foldChar_foldChar (latin1 : Bool) (c : Char) :
    foldChar latin1 (foldChar true c) = foldChar true c := by
  rw [foldChar, if_neg]
  simp [isUpper_foldChar]

theorem isSpace_foldChar (latin1 : Bool) (c : Char) :
    Str.isSpace (foldChar latin1 c) = Str.isSpace c := by
  by_cases h : isUpper latin1 c = true
  · have hn := toNat_foldChar h
    simp only [isUpper, Bool.or_eq_true, Bool.and_eq_true, decide_eq_true_eq] at h
    rw [Bool.eq_iff_iff]
    simp only [Str.isSpace, hn, Bool.or_eq_true, Bool.and_eq_true, decide_eq_true_eq, beq_iff_eq]
    omega
  · rw [foldChar, if_neg h]

/-- The default back end: SQLite, whose driver binds signed 64-bit integers and whose `LIKE` takes
patterns of up to 50,000 bytes. -/
def sqlite : Platform where
  lower := List.map (foldChar true)
  lower_lower x := by
    rw [List.map_map]
    exact List.map_congr_left fun c _ => foldChar_foldChar true c
  strip_lower x := by
    rw [Str.strip_map (isSpace_foldChar true), Str.strip_strip]
  sqlLower := List.map (foldChar false)
  sqlLower_lower x := by
    rw [List.map_map]
    exact List.map_congr_left fun c _ => foldChar_foldChar false c
  sameLetter a b := foldChar false a == foldChar false b
  takesPattern pattern := decide (Str.utf8Size pattern ≤ 50000)
  collation := TotalPreorder.ofLinearOrder Str
  collation_antisymm a b hab hba := by
    simp only [TotalPreorder.ofLinearOrder, decide_eq_true_eq] at hab hba
    exact le_antisymm hab hba
  currentTimestamp us := .seconds (us / 1000000)
  stampOrder := (TotalPreorder.ofLinearOrder Str).comap Stamp.text
  month := Stamp.monthText
  ids := .maxPlusOne
  bindable n := decide (-2 ^ 63 ≤ n ∧ n < 2 ^ 63)

theorem takesInt64_sqlite : sqlite.TakesInt64 := fun _ => decide_eq_true_iff

/-- SQLite with `AUTOINCREMENT`: no id is given out twice. -/
def autoincrement : Platform := { sqlite with ids := .sequence }

end Platform
