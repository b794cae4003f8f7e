import BookmarksApi.Models

/-!
# Orm — mapped instances and flushes

What the code relies on of SQLAlchemy.  A mapped `Bookmark` remembers the columns and tags it was
loaded with; a flush emits one `UPDATE`, guarded by the loaded version, when a column differs or was
flagged modified, and the link rows by comparing the two tag lists.  `autoflush` is off, so nothing
flushes but an explicit `flush()` or a commit.
-/

/-- A mapped `Bookmark` in a session. -/
structure Bookmark where
  stored : BookmarkRow
  storedTags : List TagRow
  row : BookmarkRow
  tags : List TagRow
  flagged : Bool
  deriving DecidableEq

namespace Bookmark

/-- An instance as a query loads it. -/
def loaded (row : BookmarkRow) (tags : List TagRow) : Bookmark := ⟨row, tags, row, tags, false⟩

/-- Does a flush emit an `UPDATE` for the row? -/
def dirty (b : Bookmark) : Bool := b.flagged || b.row != b.stored

/-- The links a flush inserts. -/
def addedTags (b : Bookmark) : List TagRow := b.tags.filter fun t => t ∉ b.storedTags

/-- The links a flush deletes. -/
def removedTags (b : Bookmark) : List TagRow := b.storedTags.filter fun t => t ∉ b.tags

/-- A flush of a persistent instance: the row, then its links. -/
def flush (db : Db) (b : Bookmark) : Except Exc (Db × Bookmark) := do
  let db ← if b.dirty then db.updateBookmark b.stored b.row else .ok db
  let db ← db.deleteLinks b.stored.id b.removedTags
  let db ← db.insertLinks b.stored.id b.addedTags
  let version := if b.dirty then b.stored.version + 1 else b.row.version
  .ok (db, loaded { b.row with version := version } b.tags)

/-- A flush of a deleted instance: its links, then the row. -/
def flushDelete (db : Db) (b : Bookmark) : Except Exc Db := do
  let db ← db.deleteLinks b.stored.id b.storedTags
  db.deleteBookmark b.stored

end Bookmark

/-- A transient `Bookmark`, not yet in the database. -/
structure NewBookmark where
  url : Str
  title : Str
  description : Option Str
  userId : ℤ
  tags : List TagRow

/-- A flush of a new instance: the row, then its links. -/
def NewBookmark.flush (P : Platform) (now : ℤ) (db : Db) (b : NewBookmark) :
    Except Exc (Db × BookmarkRow) := do
  let (db, row) ← db.insertBookmark P now b.url b.title b.description b.userId
  let db ← db.insertLinks row.id b.tags
  .ok (db, row)

/-- A session: the tables as its transaction sees them, and the persistent `Bookmark` it holds. -/
structure Session where
  db : Db
  bookmark : Option Bookmark

namespace Session

/-- `Session.flush()`. -/
def flush (s : Session) : Except Exc Session :=
  match s.bookmark with
  | none => .ok s
  | some b => do
    let (db, b) ← b.flush s.db
    .ok ⟨db, some b⟩

/-- `add(Tag(name=name)); flush()`. -/
def addTag (P : Platform) (s : Session) (name : Str) : Except Exc (Session × TagRow) := do
  let s ← s.flush
  let (db, tag) ← s.db.insertTag P name
  .ok (⟨db, s.bookmark⟩, tag)

/-- `refresh(bookmark)`: the row, then its tags. -/
def refresh (P : Platform) (db : Db) (id : ℤ) : Except Exc Bookmark :=
  match db.bookmarks.get? id with
  | none => .error .invalidRequest
  | some row => .ok (.loaded row (db.tagsOf P row.id))

end Session
