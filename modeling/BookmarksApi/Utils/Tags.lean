import BookmarksApi.Machinery.Occurrences
import BookmarksApi.Platform
import BookmarksApi.Core.Errors

/-!
# Utils/Tags — normalizing a list of tag names

`normalize_tags` trims and lower-cases every name, drops the blanks and the repetitions, and keeps
the order of first occurrence (`normalizeTags_cases`).  The schema runs it on the request and the
service runs it again, so what matters downstream is that the second run changes nothing
(`normalizeTags_normalized`).
-/

/-- `MAX_TAG_LENGTH`. -/
def maxTagLength : ℕ := 50

/-- `MAX_TAGS_PER_BOOKMARK`. -/
def maxTagsPerBookmark : ℕ := 30

/-- The loop of `normalize_tags`; the names normalized so far are also the ones seen. -/
def normalizeLoop (P : Platform) (normalized : List Str) : List Str → Except Exc (List Str)
  | [] => .ok normalized
  | item :: raw =>
    let name := P.norm item
    if name = [] then normalizeLoop P normalized raw
    else if maxTagLength < name.length then .error .valueError
    else if name ∈ normalized then normalizeLoop P normalized raw
    else normalizeLoop P (normalized ++ [name]) raw

/-- `normalize_tags`. -/
def normalizeTags (P : Platform) (raw : List Str) : Except Exc (List Str) := do
  let normalized ← normalizeLoop P [] raw
  if maxTagsPerBookmark < normalized.length then .error .valueError else .ok normalized

/-- **What a normalized list is.** -/
structure Normalized (P : Platform) (names : List Str) : Prop where
  norm : ∀ n ∈ names, P.norm n = n
  nonempty : ∀ n ∈ names, n ≠ []
  short : ∀ n ∈ names, n.length ≤ maxTagLength
  nodup : names.Nodup
  few : names.length ≤ maxTagsPerBookmark

/-- One turn of the loop keeps what it has collected normal, up to the final count. -/
theorem normalizeLoop_inv {P : Platform} {raw : List Str} : ∀ {acc out : List Str},
    normalizeLoop P acc raw = .ok out →
    (∀ n ∈ acc, P.norm n = n ∧ n ≠ [] ∧ n.length ≤ maxTagLength) → acc.Nodup →
    (∀ n ∈ out, P.norm n = n ∧ n ≠ [] ∧ n.length ≤ maxTagLength) ∧ out.Nodup := by
  induction raw with
  | nil =>
    intro acc out h hacc hnd
    obtain rfl : acc = out := by simpa [normalizeLoop] using h
    exact ⟨hacc, hnd⟩
  | cons item raw ih =>
    intro acc out h hacc hnd
    rw [normalizeLoop] at h
    split_ifs at h with hblank hlong hseen
    · exact ih h hacc hnd
    · exact ih h hacc hnd
    · refine ih h ?_ ?_
      · intro n hn
        rcases List.mem_append.mp hn with hn | hn
        · exact hacc n hn
        · obtain rfl := List.mem_singleton.mp hn
          exact ⟨P.norm_norm item, hblank, not_lt.mp hlong⟩
      · exact hnd.append (List.nodup_singleton _) (by simpa using hseen)

/-- **`normalize_tags` returns a normalized list.** -/
theorem normalized_of_normalizeTags {P : Platform} {raw names : List Str}
    (h : normalizeTags P raw = .ok names) : Normalized P names := by
  rcases hloop : normalizeLoop P [] raw with e | out
  · rw [normalizeTags, hloop] at h
    cases h
  · have h' : (if maxTagsPerBookmark < out.length then .error .valueError else .ok out)
        = (.ok names : Except Exc (List Str)) := by
      rw [← h, normalizeTags, hloop]
      rfl
    split_ifs at h' with hfew
    obtain rfl : out = names := by simpa using h'
    obtain ⟨hall, hnd⟩ := normalizeLoop_inv hloop (by simp) List.nodup_nil
    exact ⟨fun n hn => (hall n hn).1, fun n hn => (hall n hn).2.1, fun n hn => (hall n hn).2.2,
      hnd, not_lt.mp hfew⟩

/-- The loop passes over a list that is already normal and disjoint from what it has. -/
theorem normalizeLoop_normal {P : Platform} : ∀ {names acc : List Str},
    (∀ n ∈ names, P.norm n = n ∧ n ≠ [] ∧ n.length ≤ maxTagLength) → (acc ++ names).Nodup →
    normalizeLoop P acc names = .ok (acc ++ names) := by
  intro names
  induction names with
  | nil => intro acc _ _; rw [normalizeLoop, List.append_nil]
  | cons n names ih =>
    intro acc hall hnd
    obtain ⟨hn, hne, hlen⟩ := hall n List.mem_cons_self
    have hnew : n ∉ acc := fun hmem =>
      (List.nodup_append.mp hnd).2.2 n hmem n List.mem_cons_self rfl
    have hnd' : (acc ++ [n] ++ names).Nodup := by rwa [List.append_assoc, List.singleton_append]
    simp only [normalizeLoop, hn]
    rw [if_neg hne, if_neg (not_lt.mpr hlen), if_neg hnew,
      ih (fun m hm => hall m (List.mem_cons_of_mem n hm)) hnd', List.append_assoc,
      List.singleton_append]

/-- **Normalizing what is normalized changes nothing and cannot fail.** -/
theorem normalizeTags_normalized {P : Platform} {names : List Str} (h : Normalized P names) :
    normalizeTags P names = .ok names := by
  have hloop : normalizeLoop P [] names = .ok names :=
    normalizeLoop_normal (fun n hn => ⟨h.norm n hn, h.nonempty n hn, h.short n hn⟩) h.nodup
  rw [normalizeTags, hloop]
  exact if_neg (not_lt.mpr h.few)

/-! ## Exactly -/

/-- The names of a raw list, without the blanks. -/
def namesOf (P : Platform) (raw : List Str) : List Str := (raw.map P.norm).filter fun n => n ≠ []

/-- **The loop** collects the names in order, unless one is too long. -/
theorem normalizeLoop_cases {P : Platform} (raw : List Str) {seen acc : List Str}
    (h : FirstOccurrences seen acc) :
    (∃ x ∈ raw, maxTagLength < (P.norm x).length) ∧
        normalizeLoop P acc raw = .error .valueError ∨
      (∀ x ∈ raw, (P.norm x).length ≤ maxTagLength) ∧
        ∃ out, normalizeLoop P acc raw = .ok out ∧
          FirstOccurrences (seen ++ namesOf P raw) out := by
  induction raw generalizing seen acc with
  | nil => exact Or.inr ⟨by simp, acc, rfl, by simpa [namesOf] using h⟩
  | cons x raw ih =>
    -- The names after this turn, with what the rest of the loop makes of them.
    have hturn : ∀ {seen' acc' : List Str}, FirstOccurrences seen' acc' →
        seen' ++ namesOf P raw = seen ++ namesOf P (x :: raw) →
        (P.norm x).length ≤ maxTagLength →
        normalizeLoop P acc (x :: raw) = normalizeLoop P acc' raw →
        (∃ y ∈ x :: raw, maxTagLength < (P.norm y).length) ∧
            normalizeLoop P acc (x :: raw) = .error .valueError ∨
          (∀ y ∈ x :: raw, (P.norm y).length ≤ maxTagLength) ∧
            ∃ out, normalizeLoop P acc (x :: raw) = .ok out ∧
              FirstOccurrences (seen ++ namesOf P (x :: raw)) out := by
      intro seen' acc' h' hseen hshort hloop
      rw [hloop, ← hseen]
      refine (ih h').imp (And.imp_left ?_) (And.imp_left ?_)
      · rintro ⟨y, hy, hlong⟩
        exact ⟨y, List.mem_cons_of_mem x hy, hlong⟩
      · exact fun hall => List.forall_mem_cons.mpr ⟨hshort, hall⟩
    have hstep : normalizeLoop P acc (x :: raw) = if P.norm x = [] then normalizeLoop P acc raw
        else if maxTagLength < (P.norm x).length then .error .valueError
        else if P.norm x ∈ acc then normalizeLoop P acc raw
        else normalizeLoop P (acc ++ [P.norm x]) raw := rfl
    by_cases hblank : P.norm x = []
    · refine hturn h ?_ (by rw [hblank]; exact Nat.zero_le _) (by rw [hstep, if_pos hblank])
      simp [namesOf, hblank]
    · have hnames : seen ++ namesOf P (x :: raw) = (seen ++ [P.norm x]) ++ namesOf P raw := by
        simp [namesOf, hblank]
      by_cases hlong : maxTagLength < (P.norm x).length
      · exact Or.inl ⟨⟨x, List.mem_cons_self, hlong⟩, by rw [hstep, if_neg hblank, if_pos hlong]⟩
      · by_cases hseen : P.norm x ∈ acc
        · refine hturn (h.again ((h.mem _).mp hseen)) hnames.symm (not_lt.mp hlong) ?_
          rw [hstep, if_neg hblank, if_neg hlong, if_pos hseen]
        · refine hturn (h.new fun hmem => hseen ((h.mem _).mpr hmem)) hnames.symm
            (not_lt.mp hlong) ?_
          rw [hstep, if_neg hblank, if_neg hlong, if_neg hseen]

/-- **All that `normalize_tags` comes to.** -/
theorem normalizeTags_cases (P : Platform) (raw : List Str) :
    ((∃ x ∈ raw, maxTagLength < (P.norm x).length) ∨
        maxTagsPerBookmark < (namesOf P raw).toFinset.card) ∧
        normalizeTags P raw = .error .valueError ∨
      ((∀ x ∈ raw, (P.norm x).length ≤ maxTagLength) ∧
        (namesOf P raw).toFinset.card ≤ maxTagsPerBookmark) ∧
        ∃ names, normalizeTags P raw = .ok names ∧ FirstOccurrences (namesOf P raw) names := by
  obtain ⟨hlong, hloop⟩ | ⟨hshort, out, hloop, hout⟩ :=
    normalizeLoop_cases (P := P) raw FirstOccurrences.nil
  · exact Or.inl ⟨Or.inl hlong, by rw [normalizeTags, hloop]; rfl⟩
  · have hcount : normalizeTags P raw
        = if maxTagsPerBookmark < out.length then .error .valueError else .ok out := by
      rw [normalizeTags, hloop]
      rfl
    rw [List.nil_append] at hout
    rw [← hout.length_eq, hcount]
    split_ifs with hmany
    · exact Or.inl ⟨Or.inr hmany, rfl⟩
    · exact Or.inr ⟨⟨hshort, not_lt.mp hmany⟩, out, rfl, hout⟩

section Exactly

variable {P : Platform} {raw names : List Str}

/-- **What `normalize_tags` refuses.** -/
theorem normalizeTags_eq_error_iff : normalizeTags P raw = .error .valueError ↔
    (∃ x ∈ raw, maxTagLength < (P.norm x).length) ∨
      maxTagsPerBookmark < (namesOf P raw).toFinset.card := by
  obtain ⟨hbad, hraise⟩ | ⟨⟨hshort, hfew⟩, names, hreturn, -⟩ := normalizeTags_cases P raw
  · exact iff_of_true hraise hbad
  · rw [hreturn]
    refine iff_of_false (fun h => by cases h) (not_or.mpr ⟨?_, not_lt.mpr hfew⟩)
    rintro ⟨x, hx, hlong⟩
    exact absurd (hshort x hx) (not_le.mpr hlong)

/-- **What `normalize_tags` returns.** -/
theorem normalizeTags_eq_ok_iff : normalizeTags P raw = .ok names ↔
    (∀ x ∈ raw, (P.norm x).length ≤ maxTagLength) ∧
      (namesOf P raw).toFinset.card ≤ maxTagsPerBookmark ∧
        FirstOccurrences (namesOf P raw) names := by
  obtain ⟨hbad, hraise⟩ | ⟨⟨hshort, hfew⟩, out, hreturn, hout⟩ := normalizeTags_cases P raw
  · rw [hraise]
    refine iff_of_false (fun h => by cases h) ?_
    rintro ⟨hshort, hfew, -⟩
    obtain ⟨x, hx, hlong⟩ | hmany := hbad
    · exact absurd (hshort x hx) (not_le.mpr hlong)
    · exact absurd hfew (not_le.mpr hmany)
  · rw [hreturn, Except.ok.injEq]
    exact ⟨fun h => ⟨hshort, hfew, h ▸ hout⟩, fun h => hout.unique h.2.2⟩

/-- Its result is a fixed point. -/
theorem normalizeTags_idem (h : normalizeTags P raw = .ok names) :
    normalizeTags P names = .ok names :=
  normalizeTags_normalized (normalized_of_normalizeTags h)

end Exactly
