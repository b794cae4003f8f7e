import BookmarksApi.Text

/-!
# Text/Split — the pieces of a split

`split` cuts at every separator, so a piece of a text that was put together from parts is a piece of
one part (`mem_split_intercalate`), and a part's own pieces are told apart by where they stand: the
whole part, its start, its end, or a stretch between two separators (`cut_of_mem_split`).
-/

namespace Str

variable {c : Char}

/-- **A separator is where two splits meet.** -/
theorem split_append_cons (s t : Str) : split c (s ++ c :: t) = split c s ++ split c t :=
  List.splitOn_append_cons_self s t

theorem split_append_cons_of_notMem {s : Str} (h : c ∉ s) (t : Str) :
    split c (s ++ c :: t) = s :: split c t :=
  List.splitOn_append_cons_self_of_not_mem h t

/-- **The pieces of a joined text are the pieces of its parts.** -/
theorem mem_split_intercalate {p : Str} : ∀ {parts : List Str}, parts ≠ [] →
    (p ∈ split c ([c].intercalate parts) ↔ ∃ s ∈ parts, p ∈ split c s)
  | [], h => absurd rfl h
  | [s], _ => by simp
  | s :: t :: parts, _ => by
      rw [List.intercalate_cons_cons, List.append_assoc, List.singleton_append, split_append_cons,
        List.mem_append, mem_split_intercalate (List.cons_ne_nil t parts)]
      simp only [List.mem_cons, exists_eq_or_imp]

theorem mem_split_of_between {p : Str} (hp : c ∉ p) (a b : Str) :
    p ∈ split c (a ++ c :: p ++ c :: b) := by
  rw [List.append_assoc, List.cons_append, split_append_cons, split_append_cons_of_notMem hp]
  simp

/-- **A piece stands between two separators**, once one is put at either end of the text. -/
theorem exists_between_of_mem_split {p s : Str} (hp : p ∈ split c s) :
    c ∉ p ∧ ∃ a b, c :: s ++ [c] = a ++ c :: p ++ c :: b := by
  induction h : s.length using Nat.strong_induction_on generalizing s with
  | h n ih =>
    by_cases hc : c ∈ s
    · obtain ⟨t, r, rfl, ht⟩ := List.eq_append_cons_of_mem hc
      rw [split_append_cons_of_notMem ht, List.mem_cons] at hp
      rcases hp with rfl | hp
      · exact ⟨ht, [], r ++ [c], by simp⟩
      · have hr : r.length < n := by
          rw [List.length_append, List.length_cons] at h
          omega
        obtain ⟨hnot, a, b, hab⟩ := ih r.length hr hp rfl
        refine ⟨hnot, c :: t ++ a, b, ?_⟩
        calc c :: (t ++ c :: r) ++ [c] = c :: t ++ (c :: r ++ [c]) := by simp
          _ = c :: t ++ a ++ c :: p ++ c :: b := by rw [hab]; simp
    · rw [split_eq_singleton hc, List.mem_singleton] at hp
      subst hp
      exact ⟨hc, [], [], by simp⟩

/-- The last separator of a text. -/
theorem eq_append_cons_last {s : Str} (h : c ∈ s) : ∃ m q, s = m ++ c :: q ∧ c ∉ q := by
  obtain ⟨q, m, hrev, hq⟩ := List.eq_append_cons_of_mem (List.mem_reverse.mpr h)
  refine ⟨m.reverse, q.reverse, ?_, by simpa using hq⟩
  rw [← List.reverse_reverse s, hrev]
  simp

/-- Where a piece of `u ++ s ++ v` stands in `s`. -/
inductive Cut (c : Char) (u s v : Str) : Str → Prop
  | whole : c ∉ s → Cut c u s v (u ++ s ++ v)
  | start {t r : Str} : s = t ++ c :: r → c ∉ t → Cut c u s v (u ++ t)
  | stop {r t : Str} : s = r ++ c :: t → c ∉ t → Cut c u s v (t ++ v)
  | between {a p b : Str} : s = a ++ c :: p ++ c :: b → c ∉ p → Cut c u s v p

/-- **Around a text without separators**, a piece is the text's whole, its start, its end, or a
stretch between two of its separators. -/
theorem cut_of_mem_split {u s v p : Str} (hu : c ∉ u) (hv : c ∉ v)
    (hp : p ∈ split c (u ++ s ++ v)) : Cut c u s v p := by
  by_cases hs : c ∈ s
  · -- `t` runs to the first separator, `q` from the last.
    obtain ⟨t, r, rfl, ht⟩ := List.eq_append_cons_of_mem hs
    have hcut : u ++ (t ++ c :: r) ++ v = (u ++ t) ++ c :: (r ++ v) := by simp
    rw [hcut, split_append_cons_of_notMem (by simp [hu, ht]), List.mem_cons] at hp
    rcases hp with rfl | hp
    · exact .start rfl ht
    · by_cases hr : c ∈ r
      · obtain ⟨m, q, rfl, hq⟩ := eq_append_cons_last hr
        have hqv : c ∉ q ++ v := by simp [hq, hv]
        rw [List.append_assoc, List.cons_append, split_append_cons, split_eq_singleton hqv,
          List.mem_append, List.mem_singleton] at hp
        rcases hp with hp | rfl
        · obtain ⟨hnot, a, b, hab⟩ := exists_between_of_mem_split hp
          refine .between (a := t ++ a) (b := b ++ q) ?_ hnot
          calc t ++ c :: (m ++ c :: q) = t ++ (c :: m ++ [c]) ++ q := by simp
            _ = t ++ a ++ c :: p ++ c :: (b ++ q) := by rw [hab]; simp
        · exact .stop (r := t ++ c :: m) (by simp) hq
      · rw [split_eq_singleton (by simp [hr, hv]), List.mem_singleton] at hp
        subst hp
        exact .stop rfl hr
  · rw [split_eq_singleton (by simp [hu, hs, hv]), List.mem_singleton] at hp
    subst hp
    exact .whole hs

end Str
