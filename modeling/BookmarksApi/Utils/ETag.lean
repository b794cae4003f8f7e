import BookmarksApi.Text

/-!
# Utils/ETag — the version as an entity tag

`VersionETagService`: a bookmark's ETag is its version in quotes, and `If-Match` is compared with
it strongly.
-/

namespace VersionETagService

/-- `f'"{version}"'`. -/
def makeEtag (version : ℕ) : Str := '"' :: Str.ofNat version ++ ['"']

/-- One token of the header, stripped: does it accept the version whose text is `current`? -/
def tokenMatches (current tag : Str) : Bool :=
  if tag = [] then false
  else if tag = ['*'] then true
  else if ['W', '/'].isPrefixOf tag then false
  else decide (2 ≤ tag.length) && tag.head? == some '"' && tag.getLast? == some '"' &&
    tag.tail.dropLast == current

/-- `matches`: the loop over the comma-separated tokens returns at the first that accepts. -/
def «matches» (ifMatchHeader : Str) (version : ℕ) : Bool :=
  ((Str.split ',' ifMatchHeader).map Str.strip).any (tokenMatches (Str.ofNat version))

theorem makeEtag_inj {v w : ℕ} : makeEtag v = makeEtag w ↔ v = w := by
  rw [makeEtag, makeEtag, List.append_cancel_right_eq, List.cons.injEq, Str.ofNat_inj]
  exact and_iff_right rfl

/-- **A token accepts a version when it is `*` or the version's own tag.** -/
theorem tokenMatches_iff {current tag : Str} :
    tokenMatches current tag = true ↔ tag = ['*'] ∨ tag = '"' :: current ++ ['"'] := by
  constructor
  · rw [tokenMatches]
    split_ifs with hempty hstar hweak
    · simp
    · exact fun _ => Or.inl hstar
    · simp
    · simp only [Bool.and_eq_true, decide_eq_true_eq, beq_iff_eq]
      rintro ⟨⟨⟨hlength, hhead⟩, hlast⟩, hcurrent⟩
      obtain ⟨t, rfl⟩ := List.head?_eq_some_iff.mp hhead
      obtain ⟨r, hr⟩ := List.getLast?_eq_some_iff.mp hlast
      rcases r with _ | ⟨c, r⟩
      · simp [hr] at hlength
      · obtain ⟨rfl, rfl⟩ : '"' = c ∧ t = r ++ ['"'] := by simpa using hr
        exact Or.inr (by simpa using hcurrent)
  · rintro (rfl | rfl)
    · rfl
    · simp [tokenMatches, List.getLast?_cons]

theorem matches_iff {header : Str} {version : ℕ} : «matches» header version = true ↔
    ∃ p ∈ Str.split ',' header, Str.strip p = ['*'] ∨ Str.strip p = makeEtag version := by
  simp only [«matches», List.any_map, List.any_eq_true, Function.comp_apply, tokenMatches_iff,
    makeEtag]

/-- A version's tag has nothing to strip. -/
theorem strip_makeEtag (v : ℕ) : Str.strip (makeEtag v) = makeEtag v :=
  Str.strip_enclosed (by decide) (by decide) _

theorem comma_notMem_ofNat (v : ℕ) : ',' ∉ Str.ofNat v := fun h =>
  absurd (Str.isDigit_of_mem_ofNat h) (by decide)

/-- **A version's own tag accepts that version and no other.** -/
theorem matches_makeEtag (v w : ℕ) : «matches» (makeEtag v) w = true ↔ v = w := by
  have hcomma : ',' ∉ makeEtag v := by
    simp [makeEtag, comma_notMem_ofNat]
  have hstar : makeEtag v ≠ ['*'] := by simp [makeEtag]
  rw [matches_iff, Str.split_eq_singleton hcomma]
  simp only [List.mem_singleton, exists_eq_left, strip_makeEtag, hstar, false_or, makeEtag_inj]

end VersionETagService
