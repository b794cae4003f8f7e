import BookmarksApi.Store.View

/-!
# Store/Statements — what each statement does to the view

One lemma a statement: it keeps the constraints, and changes the view in one place or nowhere.
Creating a tag changes it nowhere — nothing is linked to a new row.
-/

namespace Db

variable {P : Platform} {db db' : Db}

/-! ## Tags -/

/-- The id of the next tag is not in use. -/
theorem newTag_fresh (P : Platform) (I : db.Integrity) (name : Str) :
    ∀ s ∈ db.tags.rows, s.id ≠ (newTag P db name).id :=
  fun _ hs => IdRule.next_ne _ (by simpa using I.tagSeq) (List.mem_map_of_mem hs)

/-- **A new name can be inserted**, as one more row. -/
theorem insertTag_ok (I : db.Integrity) {name : Str} (h : ∀ t ∈ db.tags.rows, t.name ≠ name) :
    ∃ db', db.insertTag P name = .ok (db', newTag P db name) := by
  obtain ⟨tags, hins⟩ := Table.insert?_of_fresh (newTag_fresh P I name)
  refine ⟨{ db with tags := tags, tagSeq := max db.tagSeq (newTag P db name).id }, ?_⟩
  rw [insertTag, if_neg (by simpa using h), hins]

/-- **A tag insert adds one row to `tags`.** -/
theorem insertTag_spec (I : db.Integrity) {name : Str} {t : TagRow}
    (h : db.insertTag P name = .ok (db', t)) :
    db'.Integrity ∧ db.GainsTags db' ∧ t = newTag P db name ∧
      db'.tags.rows = db.tags.rows ++ [t] := by
  rw [insertTag] at h
  split_ifs at h with hname
  rcases hins : db.tags.insert? (newTag P db name) with _ | tags
  · rw [hins] at h
    cases h
  rw [hins] at h
  cases h
  have hrows := Table.rows_of_insert? hins
  refine ⟨⟨I.username, I.email, ?_, I.owner, I.linkBookmark, ?_, I.bookmarkSeq, ?_⟩,
    ⟨rfl, rfl, rfl, by simp [hrows], rfl, le_max_left _ _⟩, rfl, hrows⟩
  · simp only [hrows, List.map_append, List.map_singleton]
    exact I.tagName.append (List.nodup_singleton _) (by simpa [newTag] using hname)
  · intro l hl
    obtain ⟨s, hs, hid⟩ := I.linkTag l hl
    exact ⟨s, by simp [hrows, hs], hid⟩
  · intro s hs
    simp only [hrows, List.mem_append, List.mem_singleton] at hs
    rcases hs with hs | rfl
    · exact (I.tagSeq s hs).trans (le_max_left _ _)
    · exact le_max_right _ _

/-! ## Bookmarks -/

/-- The id of the next bookmark is not in use. -/
theorem newRow_fresh (P : Platform) (I : db.Integrity) (now : ℤ) (url title : Str)
    (description : Option Str) (userId : ℤ) :
    ∀ b ∈ db.bookmarks.rows, b.id ≠ (newRow P now db url title description userId).id :=
  fun _ hb => IdRule.next_ne _ (by simpa using I.bookmarkSeq) (List.mem_map_of_mem hb)

/-- **A bookmark insert gives a new id an entry without tags.** -/
theorem insertBookmark_ok (P : Platform) (I : db.Integrity) (now : ℤ) (url title : Str)
    (description : Option Str) {userId : ℤ} {u : UserRow} (hu : db.users.get? userId = some u) :
    ∃ db' row, db.insertBookmark P now url title description userId = .ok (db', row) ∧
      row = newRow P now db url title description userId ∧
      db'.Integrity ∧ db.Keeps db' ∧ db'.tags = db.tags ∧ db'.bookmarkTags = db.bookmarkTags ∧
      row.id ≤ db'.bookmarkSeq ∧
      ∀ k, db'.view k = if k = row.id then some ⟨row, ∅⟩ else db.view k := by
  have hfresh := newRow_fresh P I now url title description userId
  set row := newRow P now db url title description userId with hrow
  obtain ⟨bookmarks, hins⟩ := Table.insert?_of_fresh hfresh
  have hrows := Table.rows_of_insert? hins
  refine ⟨{ db with bookmarks := bookmarks, bookmarkSeq := max db.bookmarkSeq row.id }, row, ?_,
    rfl, ⟨I.username, I.email, I.tagName, ?_, ?_, I.linkTag, ?_, I.tagSeq⟩,
    ⟨rfl, List.Subset.refl _, le_max_left _ _, le_rfl⟩, rfl, rfl, le_max_right _ _, ?_⟩
  · rw [insertBookmark, if_neg (by simp [hu]), ← hrow, hins]
  · intro b hb
    simp only [hrows, List.mem_append, List.mem_singleton] at hb
    rcases hb with hb | rfl
    · exact I.owner b hb
    · exact ⟨u, Table.get?_eq_some.mp hu⟩
  · intro l hl
    obtain ⟨b, hb, hid⟩ := I.linkBookmark l hl
    exact ⟨b, by simp [hrows, hb], hid⟩
  · intro b hb
    simp only [hrows, List.mem_append, List.mem_singleton] at hb
    rcases hb with hb | rfl
    · exact (I.bookmarkSeq b hb).trans (le_max_left _ _)
    · exact le_max_right _ _
  · intro k
    change (bookmarks.get? k).map _ = _
    rw [Table.get?_insert? hins]
    split
    case isTrue hk =>
      subst hk
      have hnone : db.bookmarks.get? row.id = none := Table.get?_eq_none.mpr hfresh
      exact congrArg (fun s => some (Entry.mk row s)) (tagNames_eq_empty I hnone)
    case isFalse => rfl

/-- **Over the row that was loaded, setting the changed columns sets them all.** -/
theorem setChanged_stored {stored cur : BookmarkRow} (hid : cur.id = stored.id) :
    setChanged stored cur stored = { cur with version := stored.version + 1 } := by
  have hkeep : ∀ {β : Type} [DecidableEq β] (a b : β), (if a = b then b else a) = a := by
    intro β _ a b
    split_ifs with h
    · exact h.symm
    · rfl
  simp only [setChanged, hkeep, hid]

/-- **A guarded update whose version still holds replaces the row**, and leaves its tags. -/
theorem updateBookmark_ok (I : db.Integrity) {stored cur : BookmarkRow} {e : Entry}
    (hstored : db.view stored.id = some e) (he : e.row = stored) (hid : cur.id = stored.id)
    (howner : cur.userId = stored.userId) :
    ∃ db', db.updateBookmark stored cur = .ok db' ∧ db'.Integrity ∧ db.Keeps db' ∧
      db'.tags = db.tags ∧ db'.bookmarkTags = db.bookmarkTags ∧
      ∀ k, db'.view k =
        if k = stored.id then some ⟨{ cur with version := stored.version + 1 }, e.tags⟩
        else db.view k := by
  obtain ⟨hget, htags⟩ := view_eq_some.mp hstored
  rw [he] at hget
  have hrow : ({ cur with version := stored.version + 1 } : BookmarkRow).id = stored.id := hid
  refine ⟨{ db with bookmarks := db.bookmarks.update { cur with version := stored.version + 1 } },
    ?_, ⟨I.username, I.email, I.tagName, ?_, ?_, I.linkTag, ?_, I.tagSeq⟩,
    ⟨rfl, List.Subset.refl _, le_rfl, le_rfl⟩, rfl, rfl, ?_⟩
  · rw [updateBookmark, hget]
    simp only [↓reduceIte, setChanged_stored hid]
  · intro b hb
    rcases Table.mem_update.mp hb with ⟨rfl, -⟩ | ⟨hb, -⟩
    · exact howner ▸ I.owner stored (Table.get?_eq_some.mp hget).1
    · exact I.owner b hb
  · intro l hl
    obtain ⟨b, hb, hl⟩ := I.linkBookmark l hl
    by_cases hk : b.id = stored.id
    · exact ⟨_, Table.mem_update.mpr (Or.inl ⟨rfl, b, hb, hk.trans hid.symm⟩),
        hid.trans (hk.symm.trans hl)⟩
    · exact ⟨b, Table.mem_update.mpr (Or.inr ⟨hb, fun h => hk (h.trans hid)⟩), hl⟩
  · intro b hb
    rcases Table.mem_update.mp hb with ⟨rfl, -⟩ | ⟨hb, -⟩
    · exact hid ▸ I.bookmarkSeq stored (Table.get?_eq_some.mp hget).1
    · exact I.bookmarkSeq b hb
  · intro k
    change ((db.bookmarks.update _).get? k).map _ = _
    rw [Table.get?_update (hrow ▸ hget), hrow]
    split
    case isTrue hk =>
      subst hk
      exact congrArg (fun s => some (Entry.mk _ s)) htags
    case isFalse => rfl

/-- **A guarded write whose version is gone matches no row.** -/
theorem updateBookmark_stale {stored cur : BookmarkRow}
    (h : ∀ row, db.bookmarks.get? stored.id = some row → row.version ≠ stored.version) :
    db.updateBookmark stored cur = .error .staleData := by
  rw [updateBookmark]
  rcases hget : db.bookmarks.get? stored.id with _ | row
  · rfl
  · exact if_neg (h row hget)

theorem deleteBookmark_stale {stored : BookmarkRow}
    (h : ∀ row, db.bookmarks.get? stored.id = some row → row.version ≠ stored.version) :
    db.deleteBookmark stored = .error .staleData := by
  rw [deleteBookmark]
  rcases hget : db.bookmarks.get? stored.id with _ | row
  · rfl
  · exact if_neg (h row hget)

/-- **A guarded delete whose version still holds removes the entry.** -/
theorem deleteBookmark_ok (I : db.Integrity) {stored : BookmarkRow}
    (hget : db.bookmarks.get? stored.id = some stored) :
    ∃ db', db.deleteBookmark stored = .ok db' ∧ db'.Integrity ∧ db.Keeps db' ∧
      db'.tags = db.tags ∧ ∀ k, db'.view k = if k = stored.id then none else db.view k := by
  refine ⟨{ db with
      bookmarks := db.bookmarks.filter fun b => b.id ≠ stored.id
      bookmarkTags := db.bookmarkTags.filter fun l => l.bookmarkId ≠ stored.id }, ?_,
    ⟨I.username, I.email, I.tagName, ?_, ?_, ?_, ?_, I.tagSeq⟩,
    ⟨rfl, List.Subset.refl _, le_rfl, le_rfl⟩, rfl, ?_⟩
  · rw [deleteBookmark, hget]
    exact if_pos rfl
  · exact fun b hb => I.owner b (List.mem_filter.mp hb).1
  · intro l hl
    obtain ⟨hl, hne⟩ := List.mem_filter.mp hl
    obtain ⟨b, hb, hid⟩ := I.linkBookmark l hl
    exact ⟨b, List.mem_filter.mpr ⟨hb, by simpa [hid] using hne⟩, hid⟩
  · exact fun l hl => I.linkTag l (List.mem_filter.mp hl).1
  · exact fun b hb => I.bookmarkSeq b (List.mem_filter.mp hb).1
  · intro k
    change ((db.bookmarks.filter _).get? k).map _ = _
    rw [Table.get?_filter_ne]
    split
    case isTrue => rfl
    case isFalse hk =>
      refine congrArg (fun g => (db.bookmarks.get? k).map g) (funext fun row => ?_)
      refine congrArg (Entry.mk row) (Finset.ext fun n => ?_)
      rw [mem_tagNames, mem_tagNames]
      simp [Linked, hk]

/-! ## Links -/

/-- **A link insert adds one link.** -/
theorem insertLink_ok (I : db.Integrity) {bookmarkId : ℤ} {row : BookmarkRow}
    (hrow : db.bookmarks.get? bookmarkId = some row) {t : TagRow} (ht : t ∈ db.tags.rows)
    (hnew : ¬ db.Linked bookmarkId t) :
    ∃ db', db.insertLink bookmarkId t.id = .ok db' ∧ db'.Integrity ∧ db.Keeps db' ∧
      db'.tags = db.tags ∧ db'.bookmarks = db.bookmarks ∧
      ∀ k s, s ∈ db.tags.rows → (db'.Linked k s ↔ db.Linked k s ∨ (k = bookmarkId ∧ s = t)) := by
  have hfresh : ∀ l ∈ db.bookmarkTags.rows, l.key ≠ (LinkRow.mk bookmarkId t.id).key := by
    intro l hl hk
    rw [LinkRow.key_inj.mp hk] at hl
    exact hnew hl
  obtain ⟨links, hins⟩ := Table.insert?_of_fresh hfresh
  have hrows := Table.rows_of_insert? hins
  refine ⟨{ db with bookmarkTags := links }, ?_,
    ⟨I.username, I.email, I.tagName, I.owner, ?_, ?_, I.bookmarkSeq, I.tagSeq⟩,
    ⟨rfl, List.Subset.refl _, le_rfl, le_rfl⟩, rfl, rfl, ?_⟩
  · rw [insertLink, if_neg (by simp [hrow, Table.get?_key ht]), hins]
  · intro l hl
    simp only [hrows, List.mem_append, List.mem_singleton] at hl
    rcases hl with hl | rfl
    · exact I.linkBookmark l hl
    · exact ⟨row, Table.get?_eq_some.mp hrow⟩
  · intro l hl
    simp only [hrows, List.mem_append, List.mem_singleton] at hl
    rcases hl with hl | rfl
    · exact I.linkTag l hl
    · exact ⟨t, ht, rfl⟩
  · intro k s hs
    simp only [Linked, hrows, List.mem_append, List.mem_singleton, LinkRow.mk.injEq]
    refine or_congr_right (and_congr_right fun _ => ?_)
    exact ⟨db.tags.eq_of_key hs ht, congrArg TagRow.id⟩

/-- **New links of one bookmark are inserted one by one.** -/
theorem insertLinks_ok (I : db.Integrity) {bookmarkId : ℤ} {row : BookmarkRow}
    (hrow : db.bookmarks.get? bookmarkId = some row) : ∀ ts : List TagRow,
    (∀ t ∈ ts, t ∈ db.tags.rows) → (∀ t ∈ ts, ¬ db.Linked bookmarkId t) → ts.Nodup →
    ∃ db', db.insertLinks bookmarkId ts = .ok db' ∧ db'.Integrity ∧ db.Keeps db' ∧
      db'.tags = db.tags ∧ db'.bookmarks = db.bookmarks ∧
      ∀ k t, t ∈ db.tags.rows → (db'.Linked k t ↔ db.Linked k t ∨ (k = bookmarkId ∧ t ∈ ts)) := by
  intro ts
  induction ts generalizing db with
  | nil =>
    intro _ _ _
    exact ⟨db, rfl, I, Keeps.refl db, rfl, rfl, by simp⟩
  | cons t ts ih =>
    intro hmem hnew hnd
    obtain ⟨hmem₀, hmem⟩ := List.forall_mem_cons.mp hmem
    obtain ⟨hnew₀, hnew⟩ := List.forall_mem_cons.mp hnew
    obtain ⟨hnd₀, hnd⟩ := List.nodup_cons.mp hnd
    obtain ⟨db₁, h₁, I₁, K₁, ht₁, hb₁, hl₁⟩ := insertLink_ok I hrow hmem₀ hnew₀
    have hnew₁ : ∀ s ∈ ts, ¬ db₁.Linked bookmarkId s := by
      intro s hs
      rw [hl₁ bookmarkId s (hmem s hs)]
      rintro (hl | ⟨-, rfl⟩)
      · exact hnew s hs hl
      · exact hnd₀ hs
    obtain ⟨db₂, h₂, I₂, K₂, ht₂, hb₂, hl₂⟩ := ih I₁ (hb₁ ▸ hrow) (ht₁ ▸ hmem) hnew₁ hnd
    refine ⟨db₂, ?_, I₂, K₁.trans K₂, ht₂.trans ht₁, hb₂.trans hb₁, fun k s hs => ?_⟩
    · rw [insertLinks, h₁]
      exact h₂
    · rw [hl₂ k s (ht₁ ▸ hs), hl₁ k s hs, List.mem_cons]
      tauto

/-- **Deleting links that are all there removes exactly them.** -/
theorem deleteLinks_ok (I : db.Integrity) (bookmarkId : ℤ) (ts : List TagRow)
    (hmem : ∀ t ∈ ts, t ∈ db.tags.rows) (hlinked : ∀ t ∈ ts, db.Linked bookmarkId t) :
    ∃ db', db.deleteLinks bookmarkId ts = .ok db' ∧ db'.Integrity ∧ db.Keeps db' ∧
      db'.tags = db.tags ∧ db'.bookmarks = db.bookmarks ∧
      ∀ k t, t ∈ db.tags.rows → (db'.Linked k t ↔ db.Linked k t ∧ ¬ (k = bookmarkId ∧ t ∈ ts)) := by
  refine ⟨_, if_pos hlinked, ⟨I.username, I.email, I.tagName, I.owner, ?_, ?_, I.bookmarkSeq,
    I.tagSeq⟩, ⟨rfl, List.Subset.refl _, le_rfl, le_rfl⟩, rfl, rfl, ?_⟩
  · exact fun l hl => I.linkBookmark l (List.mem_filter.mp hl).1
  · exact fun l hl => I.linkTag l (List.mem_filter.mp hl).1
  · intro k t ht
    simp only [Linked, Table.rows_filter, List.mem_filter, decide_eq_true_eq]
    refine and_congr_right fun _ => not_congr (and_congr_right fun _ => ?_)
    rw [List.mem_map]
    constructor
    · rintro ⟨s, hs, hid⟩
      exact db.tags.eq_of_key (hmem s hs) ht hid ▸ hs
    · exact fun h => ⟨t, h, rfl⟩

end Db
