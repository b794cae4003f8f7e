import BookmarksApi.Text
import Mathlib.Data.List.Forall2
import Mathlib.Data.List.Infix

/-!
# Text/Like — a `LIKE` pattern that asks for a piece of text

The pattern `%…%` around an escaped text accepts exactly the texts that hold it as a contiguous
piece (`like_contains_iff`).  The matcher backtracks over every split at a `%`; between the two of
them it reads one letter at a time, since escaping leaves no wildcard (`like_escapeLike_append`).
SQLite's own matcher stops at U+0000: strings with that character are outside this one.
-/

namespace Str

variable {same : Char → Char → Bool}

/-! ## Escaping -/

/-- The three replacements, in their order: the escape character itself goes first. -/
def escapeLike (t : Str) : Str :=
  replace '_' ['\\', '_'] (replace '%' ['\\', '%'] (replace '\\' ['\\', '\\'] t))

/-- What the replacements make of one character. -/
def escapeChar (c : Char) : Str := if c = '\\' ∨ c = '%' ∨ c = '_' then ['\\', c] else [c]

theorem replace_append (c : Char) (new s t : Str) :
    replace c new (s ++ t) = replace c new s ++ replace c new t := List.flatMap_append

theorem escapeLike_append (s t : Str) : escapeLike (s ++ t) = escapeLike s ++ escapeLike t := by
  rw [escapeLike, escapeLike, escapeLike, replace_append, replace_append, replace_append]

/-- **A later replacement leaves an earlier one's work alone**: each character is escaped once. -/
theorem escapeLike_singleton (c : Char) : escapeLike [c] = escapeChar c := by
  by_cases hslash : c = '\\'
  · subst hslash; decide
  by_cases hpercent : c = '%'
  · subst hpercent; decide
  by_cases hline : c = '_'
  · subst hline; decide
  simp [escapeLike, escapeChar, replace, hslash, hpercent, hline]

@[simp] theorem escapeLike_nil : escapeLike [] = [] := rfl

theorem escapeLike_cons (c : Char) (t : Str) :
    escapeLike (c :: t) = escapeChar c ++ escapeLike t := by
  rw [← List.singleton_append, escapeLike_append, escapeLike_singleton]

/-! ## Matching -/

/-- `%` accepts any string. -/
theorem like_percent {p s : Str} :
    like same '\\' ('%' :: p) s = true ↔ ∃ v, v <:+ s ∧ like same '\\' p v = true := by
  have hstep : like same '\\' ('%' :: p) s = s.tails.any (like same '\\' p) := by
    cases p <;> cases s <;> rfl
  rw [hstep, List.any_eq_true]
  simp only [List.mem_tails]

/-- **An escaped character accepts its own letter.** -/
theorem like_escapeChar_append {c : Char} {p s : Str} :
    like same '\\' (escapeChar c ++ p) s = true ↔
      ∃ d v, s = d :: v ∧ same c d = true ∧ like same '\\' p v = true := by
  by_cases h : c = '\\' ∨ c = '%' ∨ c = '_'
  · rw [escapeChar, if_pos h]
    cases s <;> simp [like]
  · rw [escapeChar, if_neg h]
    obtain ⟨hslash, hpercent, hline⟩ : c ≠ '\\' ∧ c ≠ '%' ∧ c ≠ '_' := by
      simpa only [not_or] using h
    cases p <;> cases s <;> simp [like, hslash, hpercent, hline, and_comm]

/-- **Escaped text is read letter by letter.** -/
theorem like_escapeLike_append {t p s : Str} :
    like same '\\' (escapeLike t ++ p) s = true ↔
      ∃ u v, s = u ++ v ∧ List.Forall₂ (fun c d => same c d = true) t u ∧
        like same '\\' p v = true := by
  induction t generalizing s with
  | nil => simp
  | cons c t ih =>
    rw [escapeLike_cons, List.append_assoc, like_escapeChar_append]
    constructor
    · rintro ⟨d, r, rfl, hc, hr⟩
      obtain ⟨u, v, rfl, hu, hv⟩ := ih.mp hr
      exact ⟨d :: u, v, rfl, .cons hc hu, hv⟩
    · rintro ⟨_, v, rfl, hu, hv⟩
      cases hu with
      | cons hc hu => exact ⟨_, _, rfl, hc, ih.mpr ⟨_, v, rfl, hu, hv⟩⟩

theorem like_percent_nil (s : Str) : like same '\\' ['%'] s = true :=
  like_percent.mpr ⟨[], List.nil_suffix, rfl⟩

/-- **The pattern of a search accepts the texts with a piece that compares letter by letter.** -/
theorem like_contains {t s : Str} :
    like same '\\' ('%' :: escapeLike t ++ ['%']) s = true ↔
      ∃ w, w <:+: s ∧ List.Forall₂ (fun c d => same c d = true) t w := by
  rw [List.cons_append, like_percent]
  constructor
  · rintro ⟨_, ⟨r, rfl⟩, h⟩
    obtain ⟨w, v, rfl, hw, -⟩ := like_escapeLike_append.mp h
    exact ⟨w, ⟨r, v, by simp⟩, hw⟩
  · rintro ⟨w, ⟨r, v, rfl⟩, hw⟩
    refine ⟨w ++ v, ⟨r, by simp⟩, like_escapeLike_append.mpr ⟨w, v, rfl, hw, ?_⟩⟩
    exact like_percent_nil v

/-- Where letters compare as themselves, comparing letter by letter is equality. -/
theorem forall₂_same_iff {t w : Str} (h : ∀ c ∈ t, ∀ d ∈ w, same c d = true ↔ c = d) :
    List.Forall₂ (fun c d => same c d = true) t w ↔ t = w := by
  constructor
  · intro hw
    induction hw with
    | nil => rfl
    | cons hc _ ih =>
      rw [(h _ List.mem_cons_self _ List.mem_cons_self).mp hc,
        ih fun a ha b hb => h a (.tail _ ha) b (.tail _ hb)]
  · rintro rfl
    exact List.forall₂_same.mpr fun c hc => (h c hc c hc).mpr rfl

/-- **A search for a text accepts the texts that hold it**, on letters that compare as
themselves. -/
theorem like_contains_iff {t s : Str} (h : ∀ c ∈ t, ∀ d ∈ s, same c d = true ↔ c = d) :
    like same '\\' ('%' :: escapeLike t ++ ['%']) s = true ↔ t <:+: s := by
  rw [like_contains]
  constructor
  · rintro ⟨w, hw, hsame⟩
    rwa [(forall₂_same_iff fun c hc d hd => h c hc d (hw.subset hd)).mp hsame]
  · intro ht
    exact ⟨t, ht, (forall₂_same_iff fun c hc d hd => h c hc d (ht.subset hd)).mpr rfl⟩

end Str
