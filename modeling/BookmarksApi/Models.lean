import BookmarksApi.Machinery.Table
import BookmarksApi.Platform
import BookmarksApi.Core.Errors

/-!
# Models — the four tables, and the statements that change them

`Db` holds `users`, `bookmarks`, `tags` and `bookmark_tags` with the last number each id sequence
gave out.  A statement that a constraint refuses raises `IntegrityError`; one that is guarded by a
row count raises `StaleDataError`.  Column lengths are not here: SQLite does not enforce them.
-/

/-- A row of `users`. -/
structure UserRow where
  id : ℤ
  username : Str
  email : Str
  passwordHash : Str
  createdAt : Stamp
  deriving DecidableEq, Repr

/-- A row of `bookmarks`. -/
structure BookmarkRow where
  id : ℤ
  url : Str
  title : Str
  description : Option Str
  userId : ℤ
  createdAt : Stamp
  updatedAt : Stamp
  version : ℕ
  deriving DecidableEq, Repr

/-- A row of `tags`. -/
structure TagRow where
  id : ℤ
  name : Str
  deriving DecidableEq, Repr

/-- A row of `bookmark_tags`; both columns are the primary key. -/
structure LinkRow where
  bookmarkId : ℤ
  tagId : ℤ
  deriving DecidableEq, Repr

/-- The primary key of `bookmark_tags`. -/
def LinkRow.key (l : LinkRow) : ℤ × ℤ := (l.bookmarkId, l.tagId)

theorem LinkRow.key_inj {l m : LinkRow} : l.key = m.key ↔ l = m := by
  obtain ⟨b, t⟩ := l
  obtain ⟨b', t'⟩ := m
  simp [LinkRow.key]

/-- The database. -/
structure Db where
  users : Table UserRow.id
  bookmarks : Table BookmarkRow.id
  tags : Table TagRow.id
  bookmarkTags : Table LinkRow.key
  bookmarkSeq : ℤ
  tagSeq : ℤ
  deriving DecidableEq

namespace Db

/-- **What the schema's constraints promise**, beyond the primary keys. -/
structure Integrity (db : Db) : Prop where
  username : (db.users.rows.map (·.username)).Nodup
  email : (db.users.rows.map (·.email)).Nodup
  tagName : (db.tags.rows.map (·.name)).Nodup
  owner : ∀ b ∈ db.bookmarks.rows, ∃ u ∈ db.users.rows, u.id = b.userId
  linkBookmark : ∀ l ∈ db.bookmarkTags.rows, ∃ b ∈ db.bookmarks.rows, b.id = l.bookmarkId
  linkTag : ∀ l ∈ db.bookmarkTags.rows, ∃ t ∈ db.tags.rows, t.id = l.tagId
  bookmarkSeq : ∀ b ∈ db.bookmarks.rows, b.id ≤ db.bookmarkSeq
  tagSeq : ∀ t ∈ db.tags.rows, t.id ≤ db.tagSeq

/-- Accounts, and nothing else. -/
def accounts (users : Table UserRow.id) : Db :=
  ⟨users, Table.empty, Table.empty, Table.empty, 0, 0⟩

theorem integrity_accounts {users : Table UserRow.id}
    (username : (users.rows.map (·.username)).Nodup) (email : (users.rows.map (·.email)).Nodup) :
    (accounts users).Integrity := by
  refine ⟨username, email, List.nodup_nil, ?_, ?_, ?_, ?_, ?_⟩ <;>
    simp [accounts, Table.empty]

/-- The accounts 1 and 2: where a concrete run starts. -/
def twoAccounts : Db :=
  accounts ⟨[⟨1, "alice".toList, "alice@example.com".toList, [], .seconds 0⟩,
    ⟨2, "bob".toList, "bob@example.com".toList, [], .seconds 0⟩], by decide⟩

theorem integrity_twoAccounts : twoAccounts.Integrity :=
  integrity_accounts (by decide +kernel) (by decide +kernel)

/-- **The name determines the tag.** -/
theorem Integrity.eq_of_name {db : Db} (I : db.Integrity) {s t : TagRow} (hs : s ∈ db.tags.rows)
    (ht : t ∈ db.tags.rows) (h : s.name = t.name) : s = t :=
  List.inj_on_of_nodup_map I.tagName hs ht h

/-! ## Reads -/

/-- A bookmark carries a tag. -/
def Linked (db : Db) (bookmarkId : ℤ) (t : TagRow) : Prop :=
  LinkRow.mk bookmarkId t.id ∈ db.bookmarkTags.rows

instance (db : Db) (bookmarkId : ℤ) (t : TagRow) : Decidable (db.Linked bookmarkId t) :=
  inferInstanceAs (Decidable (_ ∈ _))

/-- The `selectin` load of `Bookmark.tags`, ordered by `Tag.name`. -/
def tagsOf (P : Platform) (db : Db) (bookmarkId : ℤ) : List TagRow :=
  (P.collation.comap TagRow.name).sort (db.tags.rows.filter fun t => db.Linked bookmarkId t)

/-! ## Statements -/

/-- The row of a new tag. -/
def newTag (P : Platform) (db : Db) (name : Str) : TagRow :=
  ⟨P.ids.next (db.tags.rows.map TagRow.id) db.tagSeq, name⟩

/-- `INSERT INTO tags (name)`. -/
def insertTag (P : Platform) (db : Db) (name : Str) : Except Exc (Db × TagRow) :=
  let tag := newTag P db name
  if name ∈ db.tags.rows.map TagRow.name then .error .integrityError
  else match db.tags.insert? tag with
    | none => .error .integrityError
    | some tags => .ok ({ db with tags := tags, tagSeq := max db.tagSeq tag.id }, tag)

/-- The row of a new bookmark: the version counter at 1, both timestamps at the server default. -/
def newRow (P : Platform) (now : ℤ) (db : Db) (url title : Str) (description : Option Str)
    (userId : ℤ) : BookmarkRow :=
  { id := P.ids.next (db.bookmarks.rows.map BookmarkRow.id) db.bookmarkSeq
    url := url, title := title, description := description, userId := userId
    createdAt := P.currentTimestamp now, updatedAt := P.currentTimestamp now, version := 1 }

/-- `INSERT INTO bookmarks`. -/
def insertBookmark (P : Platform) (now : ℤ) (db : Db) (url title : Str) (description : Option Str)
    (userId : ℤ) : Except Exc (Db × BookmarkRow) :=
  let row := newRow P now db url title description userId
  if (db.users.get? userId).isNone then .error .integrityError
  else match db.bookmarks.insert? row with
    | none => .error .integrityError
    | some bookmarks =>
      .ok ({ db with bookmarks := bookmarks, bookmarkSeq := max db.bookmarkSeq row.id }, row)

/-- `INSERT INTO bookmark_tags`. -/
def insertLink (db : Db) (bookmarkId tagId : ℤ) : Except Exc Db :=
  if (db.bookmarks.get? bookmarkId).isNone ∨ (db.tags.get? tagId).isNone then .error .integrityError
  else match db.bookmarkTags.insert? ⟨bookmarkId, tagId⟩ with
    | none => .error .integrityError
    | some links => .ok { db with bookmarkTags := links }

/-- One `INSERT INTO bookmark_tags` for each tag. -/
def insertLinks (db : Db) (bookmarkId : ℤ) : List TagRow → Except Exc Db
  | [] => .ok db
  | t :: ts => do
    let db ← db.insertLink bookmarkId t.id
    db.insertLinks bookmarkId ts

/-- `DELETE FROM bookmark_tags` for each tag, with the row count checked. -/
def deleteLinks (db : Db) (bookmarkId : ℤ) (ts : List TagRow) : Except Exc Db :=
  if ∀ t ∈ ts, db.Linked bookmarkId t then
    .ok { db with bookmarkTags := db.bookmarkTags.filter fun l =>
      ¬ (l.bookmarkId = bookmarkId ∧ l.tagId ∈ ts.map TagRow.id) }
  else .error .staleData

/-- The row after `UPDATE … SET` of the columns that differ from what was loaded. -/
def setChanged (stored cur row : BookmarkRow) : BookmarkRow :=
  { row with
    url := if cur.url = stored.url then row.url else cur.url
    title := if cur.title = stored.title then row.title else cur.title
    description := if cur.description = stored.description then row.description else cur.description
    userId := if cur.userId = stored.userId then row.userId else cur.userId
    createdAt := if cur.createdAt = stored.createdAt then row.createdAt else cur.createdAt
    updatedAt := cur.updatedAt
    version := stored.version + 1 }

/-- `UPDATE bookmarks SET …, version = v + 1 WHERE id = … AND version = v`, for the version `v`
that was loaded. -/
def updateBookmark (db : Db) (stored cur : BookmarkRow) : Except Exc Db :=
  match db.bookmarks.get? stored.id with
  | none => .error .staleData
  | some row =>
    if row.version = stored.version then
      .ok { db with bookmarks := db.bookmarks.update (setChanged stored cur row) }
    else .error .staleData

/-- `DELETE FROM bookmarks WHERE id = … AND version = …`; the links go by `ON DELETE CASCADE`. -/
def deleteBookmark (db : Db) (stored : BookmarkRow) : Except Exc Db :=
  match db.bookmarks.get? stored.id with
  | none => .error .staleData
  | some row =>
    if row.version = stored.version then
      .ok { db with
        bookmarks := db.bookmarks.filter fun b => b.id ≠ stored.id
        bookmarkTags := db.bookmarkTags.filter fun l => l.bookmarkId ≠ stored.id }
    else .error .staleData

end Db
