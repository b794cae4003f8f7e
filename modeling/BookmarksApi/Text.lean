import Mathlib.Data.List.DropRight

/-!
# Text — Python strings, and SQL's `LIKE`

A `str` is the list of its code points.  Only what the code calls is here: `strip`, `lstrip`,
`split`, `replace`, `str(int)`, and the pattern matcher that a `LIKE … ESCAPE` runs in the database.
-/

/-- A Python `str`: its code points. -/
abbrev Str := List Char

namespace Str

/-- Texts are compared letter by letter. -/
instance lawfulBEq : LawfulBEq Str := inferInstance

/-- The characters `str.strip()` removes: `str.isspace()` over all of Unicode. -/
def isSpace (c : Char) : Bool :=
  let n := c.toNat
  (0x09 ≤ n && n ≤ 0x0D) || (0x1C ≤ n && n ≤ 0x20) || n == 0x85 || n == 0xA0 || n == 0x1680 ||
    (0x2000 ≤ n && n ≤ 0x200A) || n == 0x2028 || n == 0x2029 || n == 0x202F || n == 0x205F ||
    n == 0x3000

/-- `s.strip()`. -/
def strip (s : Str) : Str := (s.dropWhile isSpace).rdropWhile isSpace

/-- **Stripping twice is stripping once.** -/
@[simp] theorem strip_strip (s : Str) : strip (strip s) = strip s := by
  have hleft : (strip s).dropWhile isSpace = strip s := by
    refine List.dropWhile_eq_self_iff.mpr fun hl hsp => ?_
    have hpre : strip s <+: s.dropWhile isSpace := List.rdropWhile_prefix isSpace _
    have hpos : 0 < (s.dropWhile isSpace).length := hl.trans_le hpre.length_le
    refine List.dropWhile_eq_self_iff.mp (List.dropWhile_idempotent isSpace s) hpos ?_
    rw [← hpre.getElem hl]
    exact hsp
  rw [strip, hleft, strip, List.rdropWhile_idempotent]

/-- A letter map that neither makes nor removes whitespace passes through `strip`. -/
theorem strip_map {f : Char → Char} (hf : ∀ c, isSpace (f c) = isSpace c) (s : Str) :
    strip (s.map f) = (strip s).map f := by
  have hcomp : isSpace ∘ f = isSpace := funext hf
  rw [strip, strip, List.dropWhile_map, hcomp, List.rdropWhile, List.rdropWhile, ← List.map_reverse,
    List.dropWhile_map, hcomp, ← List.map_reverse]

/-- There is nothing to strip between two characters that are not whitespace. -/
theorem strip_enclosed {c d : Char} (hc : isSpace c = false) (hd : isSpace d = false) (s : Str) :
    strip (c :: s ++ [d]) = c :: s ++ [d] := by
  rw [strip, List.cons_append, List.dropWhile_cons_of_neg (by simp [hc]), ← List.cons_append,
    List.rdropWhile_concat_neg isSpace _ _ (by simp [hd])]

/-- `s.lstrip(c)` for a single character. -/
def lstrip (c : Char) (s : Str) : Str := s.dropWhile (· == c)

/-- `s.split(c)` for a single character. -/
def split (c : Char) (s : Str) : List Str := s.splitOn c

/-- A text without the separator is one piece. -/
theorem split_eq_singleton {c : Char} {s : Str} (h : c ∉ s) : split c s = [s] := by
  rw [split, List.splitOn_eq_splitOnP]
  refine List.splitOnP_eq_singleton fun x hx => beq_eq_false_iff_ne.mpr ?_
  rintro rfl
  exact h hx

/-- `s.replace(c, new)` for a single character `c`. -/
def replace (c : Char) (new : Str) (s : Str) : Str := s.flatMap fun x => if x = c then new else [x]

/-- `len(s.encode())`: how many bytes the text has in UTF-8. -/
def utf8Size (s : Str) : ℕ := s.foldr (fun c n => c.utf8Size + n) 0

/-- `str(n)` of a natural number. -/
def ofNat (n : ℕ) : Str := Nat.toDigits 10 n

/-- Its characters are digits. -/
theorem isDigit_of_mem_ofNat {n : ℕ} {c : Char} (h : c ∈ ofNat n) : c.isDigit :=
  Nat.isDigit_of_mem_toDigits (by decide) (by decide) h

/-- The digits' code points. -/
theorem isDigit_bounds {c : Char} (h : c.isDigit = true) : 0x30 ≤ c.toNat ∧ c.toNat ≤ 0x39 := by
  simp only [Char.isDigit, Bool.and_eq_true, decide_eq_true_eq] at h
  exact h

/-- **Decimal rendering is injective.** -/
theorem ofNat_inj {m n : ℕ} : ofNat m = ofNat n ↔ m = n := by
  have hread : ∀ k, Nat.ofDigitChars 10 (ofNat k) 0 = k := fun k =>
    Nat.ofDigitChars_toDigits (by decide) (by decide)
  exact ⟨fun h => by rw [← hread m, h, hread n], congrArg ofNat⟩

/-! ## `LIKE`

`%` stands for any string, `_` for any one character, and the escape character makes the one after
it stand for itself; `same` is the database's comparison of single letters. -/

/-- The pattern matcher. -/
def like (same : Char → Char → Bool) (escape : Char) : Str → Str → Bool
  | [], s => s.isEmpty
  | p :: ps, s =>
    if p = escape then
      match ps, s with
      | q :: qs, c :: cs => same q c && like same escape qs cs
      | _, _ => false
    else if p = '%' then s.tails.any (like same escape ps)
    else
      match s with
      | [] => false
      | c :: cs => (p = '_' || same p c) && like same escape ps cs

example : like (· == ·) '\\' "%a\\%_%".toList "xa%bc".toList = true := by decide +kernel

end Str
