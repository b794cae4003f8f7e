import BookmarksApi.Models

/-!
# Alembic/Versions — the upgrades, on SQLite with foreign keys on

The steps after `0001_initial`, over tables that hold rows.  `0002` adds a column in place.  `0003`
widens `bookmarks.url`, and on SQLite a batch `alter_column` rebuilds the table: create a copy, fill
it, drop the original, rename the copy.  `env.py` runs it through an engine whose connect listener
has turned `foreign_keys` on, and then `DROP TABLE` first deletes every row — which cascades.

So the upgrade keeps every user, tag and bookmark, and keeps the links exactly when there are none
(`upgrade_preserves_iff`).
-/

/-- A row of `bookmarks` at `0001_initial`. -/
structure InitialBookmarkRow where
  id : ℤ
  url : Str
  title : Str
  description : Option Str
  userId : ℤ
  createdAt : Stamp
  updatedAt : Stamp
  deriving DecidableEq, Repr

/-- The row with the column of `0002`, at its server default. -/
def InitialBookmarkRow.withVersion (r : InitialBookmarkRow) : BookmarkRow :=
  { id := r.id, url := r.url, title := r.title, description := r.description, userId := r.userId
    createdAt := r.createdAt, updatedAt := r.updatedAt, version := 1 }

theorem InitialBookmarkRow.id_withVersion (r : InitialBookmarkRow) : r.withVersion.id = r.id := rfl

namespace Alembic

/-- The tables of the database: `users`, `tags`, `bookmark_tags`, and under their names the tables
that have the columns of `bookmarks`. -/
structure Catalog {β : Type} (key : β → ℤ) where
  users : Table UserRow.id
  tags : Table TagRow.id
  bookmarkTags : Table LinkRow.key
  named : String → Option (Table key)

namespace Catalog

variable {β : Type} {key : β → ℤ}

/-! ## Statements

A statement fails on a name that is missing, or is taken. -/

/-- `CREATE TABLE`. -/
def createTable (name : String) (c : Catalog key) : Option (Catalog key) :=
  match c.named name with
  | some _ => none
  | none => some { c with named := fun n => if n = name then some .empty else c.named n }

/-- `INSERT INTO … SELECT`, into an empty table. -/
def insertSelect (target source : String) (c : Catalog key) : Option (Catalog key) :=
  match c.named target, c.named source with
  | some _, some t => some { c with named := fun n => if n = target then some t else c.named n }
  | _, _ => none

/-- The links that `ON DELETE CASCADE` leaves when rows of `bookmarks` are deleted. -/
def cascade (links : Table LinkRow.key) (deleted : Table key) : Table LinkRow.key :=
  links.filter fun l => l.bookmarkId ∉ deleted.rows.map key

/-- `DROP TABLE`: with foreign keys on, an implicit `DELETE` of all rows comes first. -/
def dropTable (foreignKeys : Bool) (name : String) (c : Catalog key) : Option (Catalog key) :=
  (c.named name).map fun t =>
    { c with
      named := fun n => if n = name then none else c.named n
      bookmarkTags :=
        if foreignKeys ∧ name = "bookmarks" then cascade c.bookmarkTags t else c.bookmarkTags }

/-- `ALTER TABLE … RENAME TO`. -/
def renameTable (old new : String) (c : Catalog key) : Option (Catalog key) :=
  match c.named old, c.named new with
  | some t, none =>
    some { c with
      named := fun n => if n = new then some t else if n = old then none else c.named n }
  | _, _ => none

end Catalog

/-! ## Upgrades -/

/-- `_enable_sqlite_foreign_keys`: is the pragma on for a connection? -/
def enableSqliteForeignKeys (isSqlite : Bool) : Bool := isSqlite

/-- `batch_alter_table` around an `alter_column`, where the table is recreated. -/
def recreate {β : Type} {key : β → ℤ} (foreignKeys : Bool) (name : String) (c : Catalog key) :
    Option (Catalog key) := do
  let tmp := "_alembic_tmp_" ++ name
  let c ← c.createTable tmp
  let c ← c.insertSelect tmp name
  let c ← c.dropTable foreignKeys name
  c.renameTable tmp name

/-- `upgrade` of `0002_bookmark_version`: a plain `ADD COLUMN` with a constant default. -/
def upgrade0002 (c : Catalog InitialBookmarkRow.id) : Catalog BookmarkRow.id :=
  { users := c.users, tags := c.tags, bookmarkTags := c.bookmarkTags
    named := fun n => (c.named n).map fun t =>
      t.mapRows InitialBookmarkRow.withVersion InitialBookmarkRow.id_withVersion }

/-- `upgrade` of `0003_url_len_and_index`: SQLite recreates the table, other back ends alter the
column; the index holds no rows. -/
def upgrade0003 (isSqlite : Bool) (c : Catalog BookmarkRow.id) : Option (Catalog BookmarkRow.id) :=
  if isSqlite then recreate (enableSqliteForeignKeys isSqlite) "bookmarks" c else some c

/-- **What a revision stores**: the rows of its four tables, under its constraints. -/
structure Stored {β : Type} (key owner : β → ℤ) where
  users : Table UserRow.id
  tags : Table TagRow.id
  bookmarks : Table key
  bookmarkTags : Table LinkRow.key
  username : (users.rows.map (·.username)).Nodup
  email : (users.rows.map (·.email)).Nodup
  tagName : (tags.rows.map (·.name)).Nodup
  ownerExists : ∀ b ∈ bookmarks.rows, owner b ∈ users.rows.map UserRow.id
  bookmarkExists : ∀ l ∈ bookmarkTags.rows, l.bookmarkId ∈ bookmarks.rows.map key
  tagExists : ∀ l ∈ bookmarkTags.rows, l.tagId ∈ tags.rows.map TagRow.id

/-- Its tables, with `bookmarks` the only one of its shape. -/
def Stored.catalog {β : Type} {key owner : β → ℤ} (s : Stored key owner) : Catalog key :=
  ⟨s.users, s.tags, s.bookmarkTags, fun n => if n = "bookmarks" then some s.bookmarks else none⟩

/-- A database at a revision before head. -/
inductive Content
  | initial (s : Stored InitialBookmarkRow.id InitialBookmarkRow.userId)
  | bookmarkVersion (s : Stored BookmarkRow.id BookmarkRow.userId)

/-- `alembic upgrade head`. -/
def upgradeHead (isSqlite : Bool) : Content → Option (Catalog BookmarkRow.id)
  | .initial s => upgrade0003 isSqlite (upgrade0002 s.catalog)
  | .bookmarkVersion s => upgrade0003 isSqlite s.catalog

/-! ## What an upgrade keeps -/

namespace Content

def users : Content → Table UserRow.id
  | initial s => s.users
  | bookmarkVersion s => s.users

def tags : Content → Table TagRow.id
  | initial s => s.tags
  | bookmarkVersion s => s.tags

def bookmarkTags : Content → Table LinkRow.key
  | initial s => s.bookmarkTags
  | bookmarkVersion s => s.bookmarkTags

/-- The rows of `bookmarks`, at version 1 where they predate the column. -/
def bookmarks : Content → List BookmarkRow
  | initial s => s.bookmarks.rows.map InitialBookmarkRow.withVersion
  | bookmarkVersion s => s.bookmarks.rows

/-- **An upgrade keeps the data**: every row of every table is as it was. -/
structure Preserved (s : Content) (c : Catalog BookmarkRow.id) : Prop where
  users : c.users.rows = s.users.rows
  tags : c.tags.rows = s.tags.rows
  bookmarkTags : c.bookmarkTags.rows = s.bookmarkTags.rows
  bookmarks : (c.named "bookmarks").map Table.rows = some s.bookmarks

/-- The database with the column of `0002`. -/
def atVersion : Content → Stored BookmarkRow.id BookmarkRow.userId
  | initial s =>
    { s with
      bookmarks :=
        s.bookmarks.mapRows InitialBookmarkRow.withVersion InitialBookmarkRow.id_withVersion
      ownerExists := fun b hb => by
        obtain ⟨r, hr, rfl⟩ := List.mem_map.mp hb
        exact s.ownerExists r hr
      bookmarkExists := fun l hl => by
        have hmem := s.bookmarkExists l hl
        rw [Table.rows_mapRows, List.map_map]
        exact hmem }
  | bookmarkVersion s => s

end Content

theorem upgrade0002_catalog (s : Stored InitialBookmarkRow.id InitialBookmarkRow.userId) :
    upgrade0002 s.catalog = (Content.initial s).atVersion.catalog := by
  have hnamed : (fun n => (s.catalog.named n).map fun t =>
        t.mapRows InitialBookmarkRow.withVersion InitialBookmarkRow.id_withVersion)
      = (Content.initial s).atVersion.catalog.named := by
    funext n
    by_cases h : n = "bookmarks"
    · simp only [Stored.catalog, h, if_true]
      rfl
    · simp only [Stored.catalog, h, if_false]
      rfl
  rw [upgrade0002, hnamed]
  rfl

/-- **Recreating `bookmarks` keeps its rows, and cascades to the links** if foreign keys are on. -/
theorem recreate_catalog {β : Type} {key owner : β → ℤ} (foreignKeys : Bool)
    (s : Stored key owner) :
    recreate foreignKeys "bookmarks" s.catalog = some
      { s.catalog with
        bookmarkTags :=
          if foreignKeys then Catalog.cascade s.bookmarkTags s.bookmarks else s.bookmarkTags } := by
  have htmp : "_alembic_tmp_" ++ "bookmarks" ≠ "bookmarks" := by decide
  rw [recreate]
  generalize "_alembic_tmp_" ++ "bookmarks" = tmp at htmp
  have hcreate : s.catalog.createTable tmp = some { s.catalog with
      named := fun n => if n = tmp then some .empty else s.catalog.named n } := by
    simp [Catalog.createTable, Stored.catalog, htmp]
  have hbookmarks : s.catalog.named "bookmarks" = some s.bookmarks := by simp [Stored.catalog]
  simp only [hcreate, Catalog.insertSelect, Catalog.dropTable, Catalog.renameTable, hbookmarks,
    htmp, htmp.symm, bind, Option.bind, Option.map_some, if_true, if_false, and_true]
  refine congrArg some (congrArg (Catalog.mk _ _ _) (funext fun n => ?_))
  simp only [Stored.catalog]
  split_ifs <;> rfl

/-- **A cascade from a whole table leaves no link.** -/
theorem cascade_rows {β : Type} {key owner : β → ℤ} (s : Stored key owner) :
    (Catalog.cascade s.bookmarkTags s.bookmarks).rows = [] := by
  rw [Catalog.cascade, Table.rows_filter, List.filter_eq_nil_iff]
  intro l hl
  simpa using s.bookmarkExists l hl

/-- **On SQLite the upgrade runs, and keeps the data exactly when no bookmark has a tag.** -/
theorem upgrade_preserves_iff (s : Content) :
    ∃ c, upgradeHead true s = some c ∧ (s.Preserved c ↔ s.bookmarkTags.rows = []) := by
  have hrun : upgradeHead true s = some
      { s.atVersion.catalog with
        bookmarkTags := Catalog.cascade s.atVersion.bookmarkTags s.atVersion.bookmarks } := by
    rcases s with s | s
    · rw [upgradeHead, upgrade0002_catalog, upgrade0003, if_pos rfl, recreate_catalog]
      rfl
    · rw [upgradeHead, upgrade0003, if_pos rfl, recreate_catalog]
      rfl
  refine ⟨_, hrun, fun h => ?_, fun h => ?_⟩
  · rw [← h.bookmarkTags]
    exact cascade_rows s.atVersion
  · have hlinks : (Catalog.cascade s.atVersion.bookmarkTags s.atVersion.bookmarks).rows
        = s.bookmarkTags.rows := (cascade_rows s.atVersion).trans h.symm
    rcases s with s | s
    · exact ⟨rfl, rfl, hlinks, rfl⟩
    · exact ⟨rfl, rfl, hlinks, rfl⟩

/-- One user's one bookmark, with one tag. -/
def oneTagged : Stored BookmarkRow.id BookmarkRow.userId where
  users := ⟨[⟨1, "alice".toList, "alice@example.com".toList, [], .seconds 0⟩], by decide⟩
  tags := ⟨[⟨1, "news".toList⟩], by decide⟩
  bookmarks :=
    ⟨[⟨1, "https://example.com/".toList, "Example".toList, none, 1, .seconds 0, .seconds 0, 1⟩],
      by decide⟩
  bookmarkTags := ⟨[⟨1, 1⟩], by decide⟩
  username := List.nodup_singleton _
  email := List.nodup_singleton _
  tagName := List.nodup_singleton _
  ownerExists := by simp
  bookmarkExists := by simp
  tagExists := by simp

/-- **The upgrade loses the tags of a bookmark.** -/
theorem not_preserved_oneTagged :
    ¬ ∃ c, upgradeHead true (.bookmarkVersion oneTagged) = some c ∧
      (Content.bookmarkVersion oneTagged).Preserved c := by
  rintro ⟨c, hc, h⟩
  rw [upgradeHead, upgrade0003, if_pos rfl, recreate_catalog] at hc
  obtain rfl := Option.some.inj hc
  have hlinks : (Catalog.cascade oneTagged.bookmarkTags oneTagged.bookmarks).rows
      = oneTagged.bookmarkTags.rows := h.bookmarkTags
  rw [cascade_rows] at hlinks
  cases hlinks

/-- Elsewhere nothing is recreated, and nothing is lost. -/
theorem upgrade_preserves_elsewhere (s : Content) :
    ∃ c, upgradeHead false s = some c ∧ s.Preserved c := by
  rcases s with s | s
  · refine ⟨_, rfl, rfl, rfl, rfl, ?_⟩
    rw [upgrade0002_catalog]
    rfl
  · exact ⟨_, rfl, rfl, rfl, rfl, rfl⟩

end Alembic
