import BookmarksApi.Store.Entries

/-!
# Store/Accounts — what writes ask of the accounts

A statement over bookmarks, tags and links asks of `users` at most whether the bookmark's user has
an account, in the foreign key.  So with other accounts in the table it does the same, and leaves
them as they are (`Bookmark.flush_withUsers`, `NewBookmark.flush_withUsers`).
-/

variable {P : Platform}

namespace Db

/-- The tables with other accounts. -/
def withUsers (users : Table UserRow.id) (db : Db) : Db := { db with users := users }

variable {U : Table UserRow.id} {db : Db}

/-- Accounts that are added leave those there were. -/
theorem Registered.mono {db : Db} {users : Table UserRow.id} {user : ℤ}
    (hu : db.Registered user) (hrows : db.users.rows ⊆ users.rows) :
    (db.withUsers users).Registered user := by
  obtain ⟨u, hu⟩ := hu
  obtain ⟨hmem, rfl⟩ := Table.get?_eq_some.mp hu
  exact ⟨u, Table.get?_key (hrows hmem)⟩

/-- A new bookmark is the same, as long as its user has an account in both tables. -/
theorem insertBookmark_withUsers {user : ℤ} (hu : db.Registered user)
    (hU : (db.withUsers U).Registered user) (now : ℤ) (url title : Str)
    (description : Option Str) :
    (db.withUsers U).insertBookmark P now url title description user
      = (db.insertBookmark P now url title description user).map (Prod.map (withUsers U) id) := by
  obtain ⟨u, hu⟩ := hu
  obtain ⟨v, hv⟩ := hU
  have hrow : (db.withUsers U).newRow P now url title description user
      = db.newRow P now url title description user := rfl
  simp only [insertBookmark, hu, hv, Option.isNone_some, Bool.false_eq_true, if_false]
  have hbookmarks : (db.withUsers U).bookmarks = db.bookmarks := rfl
  rw [hrow, hbookmarks]
  rcases db.bookmarks.insert? (db.newRow P now url title description user) with _ | rows <;> rfl

/-- A link is checked against bookmarks and tags alone. -/
theorem insertLink_withUsers (bookmarkId tagId : ℤ) : (db.withUsers U).insertLink bookmarkId tagId
    = (db.insertLink bookmarkId tagId).map (withUsers U) := by
  by_cases hmissing : (db.bookmarks.get? bookmarkId).isNone ∨ (db.tags.get? tagId).isNone
  · have hmissing' : ((db.withUsers U).bookmarks.get? bookmarkId).isNone ∨
        ((db.withUsers U).tags.get? tagId).isNone := hmissing
    rw [insertLink, insertLink, if_pos hmissing, if_pos hmissing']
    rfl
  · have hmissing' : ¬ (((db.withUsers U).bookmarks.get? bookmarkId).isNone ∨
        ((db.withUsers U).tags.get? tagId).isNone) := hmissing
    rw [insertLink, insertLink, if_neg hmissing, if_neg hmissing']
    have hlinks : (db.withUsers U).bookmarkTags = db.bookmarkTags := rfl
    rw [hlinks]
    rcases db.bookmarkTags.insert? ⟨bookmarkId, tagId⟩ with _ | links <;> rfl

/-- So are several, one after the other. -/
theorem insertLinks_withUsers (bookmarkId : ℤ) (ts : List TagRow) :
    (db.withUsers U).insertLinks bookmarkId ts
      = (db.insertLinks bookmarkId ts).map (withUsers U) := by
  induction ts generalizing db with
  | nil => rfl
  | cons t ts ih =>
    rw [insertLinks, insertLinks, insertLink_withUsers]
    rcases db.insertLink bookmarkId t.id with x | db'
    · rfl
    · exact ih

theorem deleteLinks_withUsers (bookmarkId : ℤ) (ts : List TagRow) :
    (db.withUsers U).deleteLinks bookmarkId ts
      = (db.deleteLinks bookmarkId ts).map (withUsers U) := by
  change (if ∀ t ∈ ts, db.Linked bookmarkId t then _ else _) = _
  rw [deleteLinks]
  split_ifs <;> rfl

/-- An `UPDATE` goes by the id and the version. -/
theorem updateBookmark_withUsers (stored cur : BookmarkRow) :
    (db.withUsers U).updateBookmark stored cur
      = (db.updateBookmark stored cur).map (withUsers U) := by
  simp only [updateBookmark, withUsers]
  rcases db.bookmarks.get? stored.id with _ | row
  · rfl
  · simp only
    split_ifs <;> rfl

/-- So does a `DELETE`. -/
theorem deleteBookmark_withUsers (stored : BookmarkRow) :
    (db.withUsers U).deleteBookmark stored
      = (db.deleteBookmark stored).map (withUsers U) := by
  simp only [deleteBookmark, withUsers]
  rcases db.bookmarks.get? stored.id with _ | row
  · rfl
  · simp only
    split_ifs <;> rfl

end Db

/-- **Flushing an update asks nothing of the accounts**: it never changes the owner. -/
theorem Bookmark.flush_withUsers {U : Table UserRow.id} {db : Db} (b : Bookmark) :
    b.flush (db.withUsers U) = (b.flush db).map (Prod.map (Db.withUsers U) id) := by
  have hlinks : ∀ (d : Db) (b' : Bookmark),
      (do
        let d ← (d.withUsers U).deleteLinks b.stored.id b.removedTags
        let d ← d.insertLinks b.stored.id b.addedTags
        .ok (d, b'))
      = (do
        let d ← d.deleteLinks b.stored.id b.removedTags
        let d ← d.insertLinks b.stored.id b.addedTags
        Except.ok (d, b')).map (Prod.map (Db.withUsers U) id) := by
    intro d b'
    rw [Db.deleteLinks_withUsers]
    rcases d.deleteLinks b.stored.id b.removedTags with x | d₁
    · rfl
    simp only [Except.map, bind, Except.bind, Db.insertLinks_withUsers]
    rcases d₁.insertLinks b.stored.id b.addedTags with x | d₂ <;> rfl
  by_cases hdirty : b.dirty = true
  · simp only [flush, if_pos hdirty, Db.updateBookmark_withUsers]
    rcases db.updateBookmark b.stored b.row with x | db₁
    · rfl
    · exact hlinks db₁ _
  · simp only [flush, if_neg hdirty]
    exact hlinks db _

/-- **Nor does flushing a delete.** -/
theorem Bookmark.flushDelete_withUsers {U : Table UserRow.id} {db : Db} (b : Bookmark) :
    b.flushDelete (db.withUsers U) = (b.flushDelete db).map (Db.withUsers U) := by
  rw [flushDelete, flushDelete, Db.deleteLinks_withUsers]
  rcases db.deleteLinks b.stored.id b.storedTags with x | db'
  · rfl
  · exact Db.deleteBookmark_withUsers _

/-- **Flushing a new bookmark asks for its user's account**, and for no other. -/
theorem NewBookmark.flush_withUsers {U : Table UserRow.id} {db : Db} {b : NewBookmark}
    (hu : db.Registered b.userId) (hU : (db.withUsers U).Registered b.userId) (now : ℤ) :
    b.flush P now (db.withUsers U) = (b.flush P now db).map (Prod.map (Db.withUsers U) id) := by
  rw [flush, flush, Db.insertBookmark_withUsers hu hU]
  rcases db.insertBookmark P now b.url b.title b.description b.userId with x | ⟨db', row⟩
  · rfl
  simp only [Except.map, bind, Except.bind, Prod.map, id_eq, Db.insertLinks_withUsers]
  rcases db'.insertLinks row.id b.tags with x | db'' <;> rfl
