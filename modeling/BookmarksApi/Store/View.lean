import BookmarksApi.Orm

/-!
# Store/View — a bookmark as one entry

Four tables hold a bookmark in pieces: its row, its links, and the shared tag rows they point at.
The **view** puts them together, an id to its row and the *set* of its tag names, and forgets the
rest: tag ids, the order of rows, tags nobody uses.  Every read of one bookmark is a function of its
entry, and every statement below is read through what it does to the view.
-/

/-- A bookmark: its columns, and the names of its tags. -/
@[ext] structure Entry where
  row : BookmarkRow
  tags : Finset Str
  deriving DecidableEq

/-- The version of an entry. -/
def Entry.version (e : Entry) : ℕ := e.row.version

namespace Db

/-- The names of a bookmark's tags. -/
def tagNames (db : Db) (bookmarkId : ℤ) : Finset Str :=
  ((db.tags.rows.filter fun t => db.Linked bookmarkId t).map TagRow.name).toFinset

theorem mem_tagNames {db : Db} {bookmarkId : ℤ} {n : Str} :
    n ∈ db.tagNames bookmarkId ↔ ∃ t ∈ db.tags.rows, db.Linked bookmarkId t ∧ t.name = n := by
  simp [tagNames, and_assoc]

/-- The entry under an id. -/
def view (db : Db) (bookmarkId : ℤ) : Option Entry :=
  (db.bookmarks.get? bookmarkId).map fun row => ⟨row, db.tagNames bookmarkId⟩

/-- An entry is a row, and the names its links lead to. -/
theorem view_eq_some {db : Db} {bookmarkId : ℤ} {e : Entry} :
    db.view bookmarkId = some e ↔
      db.bookmarks.get? bookmarkId = some e.row ∧ db.tagNames bookmarkId = e.tags := by
  rw [view, Option.map_eq_some_iff]
  constructor
  · rintro ⟨row, hrow, rfl⟩
    exact ⟨hrow, rfl⟩
  · rintro ⟨hrow, htags⟩
    exact ⟨e.row, hrow, Entry.ext rfl htags⟩

/-- There is none without a row. -/
theorem view_eq_none {db : Db} {bookmarkId : ℤ} :
    db.view bookmarkId = none ↔ db.bookmarks.get? bookmarkId = none :=
  Option.map_eq_none_iff

/-- An entry is under the id of its own row. -/
theorem id_of_view {db : Db} {bookmarkId : ℤ} {e : Entry} (h : db.view bookmarkId = some e) :
    e.row.id = bookmarkId :=
  (Table.get?_eq_some.mp (view_eq_some.mp h).1).2

theorem mem_of_view {db : Db} {bookmarkId : ℤ} {e : Entry} (h : db.view bookmarkId = some e) :
    e.row ∈ db.bookmarks.rows :=
  (Table.get?_eq_some.mp (view_eq_some.mp h).1).1

/-- **A row is in the table exactly when the view shows it under its id.** -/
theorem mem_rows_iff {db : Db} {row : BookmarkRow} :
    row ∈ db.bookmarks.rows ↔ db.view row.id = some ⟨row, db.tagNames row.id⟩ := by
  rw [view_eq_some, Table.get?_eq_some]
  simp

/-- Without a row there is no link. -/
theorem tagNames_eq_empty {db : Db} (I : db.Integrity) {bookmarkId : ℤ}
    (h : db.bookmarks.get? bookmarkId = none) : db.tagNames bookmarkId = ∅ := by
  refine Finset.eq_empty_of_forall_notMem fun n hn => ?_
  obtain ⟨t, -, hl, -⟩ := mem_tagNames.mp hn
  obtain ⟨b, hb, hid⟩ := I.linkBookmark _ hl
  exact Table.get?_eq_none.mp h b hb hid

/-! ## The tags of an instance -/

/-- The tags loaded are the linked ones. -/
theorem mem_tagsOf {P : Platform} {db : Db} {bookmarkId : ℤ} {t : TagRow} :
    t ∈ db.tagsOf P bookmarkId ↔ t ∈ db.tags.rows ∧ db.Linked bookmarkId t := by
  simp [tagsOf]

/-- Each is loaded once. -/
theorem nodup_tagsOf (P : Platform) (db : Db) (bookmarkId : ℤ) : (db.tagsOf P bookmarkId).Nodup :=
  TotalPreorder.nodup_sort.mpr (db.tags.rows_nodup.filter _)

/-- **The loaded tags are the entry's names in order.** -/
theorem map_tagsOf {P : Platform} {db : Db} (I : db.Integrity) (bookmarkId : ℤ) :
    (db.tagsOf P bookmarkId).map TagRow.name = P.collation.sortSet (db.tagNames bookmarkId) := by
  rw [tagsOf, TotalPreorder.map_sort_comap]
  exact TotalPreorder.sort_eq_sortSet P.collation_antisymm
    (I.tagName.sublist (List.filter_sublist.map TagRow.name)) rfl

/-- What an instance shows of its tags, for the links its bookmark has. -/
theorem tagNames_eq_of_linked {db : Db} {bookmarkId : ℤ} {ts : List TagRow}
    (hts : ∀ t ∈ ts, t ∈ db.tags.rows)
    (h : ∀ t ∈ db.tags.rows, db.Linked bookmarkId t ↔ t ∈ ts) :
    db.tagNames bookmarkId = (ts.map TagRow.name).toFinset := by
  ext n
  rw [mem_tagNames, List.mem_toFinset, List.mem_map]
  constructor
  · rintro ⟨t, ht, hl, rfl⟩
    exact ⟨t, (h t ht).mp hl, rfl⟩
  · rintro ⟨t, ht, rfl⟩
    exact ⟨t, hts t ht, (h t (hts t ht)).mpr ht, rfl⟩

/-! ## What no statement undoes -/

/-- Accounts stay, tags are never renamed or removed, sequences only advance. -/
structure Keeps (db db' : Db) : Prop where
  users : db'.users = db.users
  tags : db.tags.rows ⊆ db'.tags.rows
  bookmarkSeq : db.bookmarkSeq ≤ db'.bookmarkSeq
  tagSeq : db.tagSeq ≤ db'.tagSeq

theorem Keeps.refl (db : Db) : db.Keeps db :=
  ⟨rfl, List.Subset.refl _, le_rfl, le_rfl⟩

theorem Keeps.trans {db db' db'' : Db} (h : db.Keeps db') (h' : db'.Keeps db'') : db.Keeps db'' :=
  ⟨h'.users.trans h.users, List.Subset.trans h.tags h'.tags, h.bookmarkSeq.trans h'.bookmarkSeq,
    h.tagSeq.trans h'.tagSeq⟩

/-- Nothing but new tags. -/
structure GainsTags (db db' : Db) : Prop where
  users : db'.users = db.users
  bookmarks : db'.bookmarks = db.bookmarks
  bookmarkTags : db'.bookmarkTags = db.bookmarkTags
  tags : db.tags.rows ⊆ db'.tags.rows
  bookmarkSeq : db'.bookmarkSeq = db.bookmarkSeq
  tagSeq : db.tagSeq ≤ db'.tagSeq

namespace GainsTags

variable {db db' db'' : Db}

theorem refl (db : Db) : db.GainsTags db := ⟨rfl, rfl, rfl, List.Subset.refl _, rfl, le_rfl⟩

theorem trans (h : db.GainsTags db') (h' : db'.GainsTags db'') : db.GainsTags db'' :=
  ⟨h'.users.trans h.users, h'.bookmarks.trans h.bookmarks, h'.bookmarkTags.trans h.bookmarkTags,
    List.Subset.trans h.tags h'.tags, h'.bookmarkSeq.trans h.bookmarkSeq, h.tagSeq.trans h'.tagSeq⟩

/-- Gaining tags keeps what is to be kept. -/
theorem keeps (h : db.GainsTags db') : db.Keeps db' :=
  ⟨h.users, h.tags, h.bookmarkSeq.ge, h.tagSeq⟩

/-- **A tag nobody links to is in no entry**, and nobody links to a new one. -/
theorem view_eq (h : db.GainsTags db') (I : db.Integrity) : db'.view = db.view := by
  funext k
  have htags : db'.tagNames k = db.tagNames k := by
    ext n
    rw [mem_tagNames, mem_tagNames]
    simp only [Linked, h.bookmarkTags]
    constructor
    · rintro ⟨t, ht, hl, rfl⟩
      obtain ⟨s, hs, hid⟩ := I.linkTag _ hl
      obtain rfl : s = t := db'.tags.eq_of_key (h.tags hs) ht hid
      exact ⟨s, hs, hl, rfl⟩
    · rintro ⟨t, ht, hl, rfl⟩
      exact ⟨t, h.tags ht, hl, rfl⟩
  rw [view, view, h.bookmarks, htags]

end GainsTags

end Db
