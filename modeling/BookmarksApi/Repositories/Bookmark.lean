import BookmarksApi.Orm

/-!
# Repositories/Bookmark — the bookmark queries and writes

Every query is scoped to a user.  A write commits: a flush that loses its race on the version, or
collides on a link, is rolled back and surfaces as `StaleVersionError`.
-/

/-- The filters of a list request. -/
structure BookmarkFilters where
  tag : Option Str := none
  q : Option Str := none
  dateFrom : Option ℤ := none
  dateTo : Option ℤ := none
  deriving DecidableEq, Repr

namespace BookmarkRepository

/-! ## Writes -/

/-- `add`: commit, then refresh. -/
def add (P : Platform) (now : ℤ) (s : Session) (b : NewBookmark) : Except Exc (Db × Bookmark) := do
  let (db, row) ← b.flush P now s.db
  let b ← Session.refresh P db row.id
  .ok (db, b)

/-- The row that `get_owned` selects. -/
def ownedRow (P : Platform) (db : Db) (userId bookmarkId : ℤ) : Except Exc (Option BookmarkRow) :=
  if P.bindable bookmarkId then
    .ok ((db.bookmarks.get? bookmarkId).filter fun row => row.userId = userId)
  else .error .overflow

/-- `get_owned`: the row, then its tags. -/
def getOwned (P : Platform) (db : Db) (userId bookmarkId : ℤ) : Except Exc (Option Bookmark) :=
  (ownedRow P db userId bookmarkId).map fun row? =>
    row?.map fun row => .loaded row (db.tagsOf P row.id)

/-- `update`, up to the commit: `updated_at` is set and flagged, so that the flush always emits the
guarded `UPDATE`, tag-only edits included. -/
def touch (now : ℤ) (b : Bookmark) : Bookmark :=
  { b with row := { b.row with updatedAt := .micros now }, flagged := true }

/-- `except (StaleDataError, IntegrityError)`: roll back, and report a lost race. -/
def translate : Exc → Exc
  | .staleData => .staleVersion
  | .integrityError => .staleVersion
  | e => e

/-- `update`: commit, then refresh. -/
def update (P : Platform) (now : ℤ) (db : Db) (b : Bookmark) : Except Exc (Db × Bookmark) := do
  let (db, _) ← ((touch now b).flush db).mapError translate
  let b ← Session.refresh P db b.stored.id
  .ok (db, b)

/-- `delete`. -/
def delete (db : Db) (b : Bookmark) : Except Exc Db := (b.flushDelete db).mapError translate

/-! ## Reads -/

/-- `if filters.tag:` — a Python string is true when it is not empty. -/
def truthy (s : Option Str) : Option Str := s.filter fun s => s ≠ []

/-- The `LIKE` pattern for a keyword: its own wildcards are escaped. -/
def likePattern (P : Platform) (q : Str) : Str :=
  let term := P.norm q
  let term := Str.replace '_' ['\\', '_']
    (Str.replace '%' ['\\', '%'] (Str.replace '\\' ['\\', '\\'] term))
  '%' :: term ++ ['%']

/-- The `FROM` clause: joined through the links to the tags named `tag`, when a tag is given. -/
def source (P : Platform) (db : Db) (tag : Option Str) : List BookmarkRow :=
  match truthy tag with
  | none => db.bookmarks.rows
  | some tag =>
    db.bookmarks.rows.flatMap fun b =>
      (db.bookmarkTags.rows.filter fun l => l.bookmarkId = b.id).flatMap fun l =>
        (db.tags.rows.filter fun t => t.id = l.tagId ∧ t.name = P.norm tag).map fun _ => b

/-- The conditions on a bookmark's own columns. -/
def columnsMatch (P : Platform) (userId : ℤ) (f : BookmarkFilters) (b : BookmarkRow) : Bool :=
  decide (b.userId = userId) &&
    ((truthy f.q).all fun q =>
      Str.like P.sameLetter '\\' (likePattern P q) (P.sqlLower b.title) ||
        b.description.any fun d => Str.like P.sameLetter '\\' (likePattern P q) (P.sqlLower d)) &&
    (f.dateFrom.all fun d => P.stampOrder.le (.micros (d * Stamp.dayMicros)) b.createdAt) &&
    (f.dateTo.all fun d => P.stampOrder.le b.createdAt (.micros ((d + 1) * Stamp.dayMicros - 1)))

/-- `_apply_filters`: the rows the query selects. -/
def applyFilters (P : Platform) (db : Db) (userId : ℤ) (f : BookmarkFilters) : List BookmarkRow :=
  (source P db f.tag).filter (columnsMatch P userId f)

/-- Is the keyword's pattern, if there is one, one that `LIKE` takes? -/
def patternTaken (P : Platform) (f : BookmarkFilters) : Bool :=
  (truthy f.q).all fun q => P.takesPattern (likePattern P q)

/-- `LIKE` raises on a pattern that it does not take, when it gets a row to compare with it: `rows`
are those that the query's other conditions leave. -/
def runLike (P : Platform) (f : BookmarkFilters) (rows : List BookmarkRow) : Except Exc Unit :=
  if patternTaken P f || rows.isEmpty then .ok () else .error .operational

/-- What `count(distinct(Bookmark.id))` comes to. -/
def total (P : Platform) (db : Db) (userId : ℤ) (f : BookmarkFilters) : ℕ :=
  ((applyFilters P db userId f).map BookmarkRow.id).dedup.length

/-- `count`. -/
def count (P : Platform) (db : Db) (userId : ℤ) (f : BookmarkFilters) : Except Exc ℕ := do
  runLike P f (applyFilters P db userId { f with q := none })
  .ok (total P db userId f)

/-- The order of a whitelisted sort field, `created_at` when the field is unknown. -/
def columnOrder (P : Platform) (field : Str) : TotalPreorder BookmarkRow :=
  if field = "updated_at".toList then P.stampOrder.comap BookmarkRow.updatedAt
  else if field = "title".toList then P.collation.comap BookmarkRow.title
  else if field = "id".toList then (TotalPreorder.ofLinearOrder ℤ).comap BookmarkRow.id
  else P.stampOrder.comap BookmarkRow.createdAt

/-- Newest id first. -/
def idDesc : TotalPreorder BookmarkRow :=
  (TotalPreorder.ofLinearOrder ℤ).reverse.comap BookmarkRow.id

/-- `order_by(direction(column), Bookmark.id.desc())`. -/
def sortOrder (P : Platform) (sort : Str) : TotalPreorder BookmarkRow :=
  let column := columnOrder P (Str.lstrip '-' sort)
  (if ['-'].isPrefixOf sort then column.reverse else column).lex idDesc

/-- The driver refuses an integer it cannot bind. -/
def bind (P : Platform) (ns : List ℤ) : Except Exc Unit :=
  if ns.all P.bindable then .ok () else .error .overflow

/-- `.unique()`: the first occurrence of each row. -/
def unique (rows : List BookmarkRow) : List BookmarkRow := rows.reverse.dedup.reverse

/-- A page of rows with their tags, each row once. -/
def load (P : Platform) (db : Db) (rows : List BookmarkRow) : List Bookmark :=
  (unique rows).map fun row => .loaded row (db.tagsOf P row.id)

/-- `list_offset`. -/
def listOffset (P : Platform) (db : Db) (userId : ℤ) (f : BookmarkFilters) (sort : Str)
    (limit offset : ℤ) : Except Exc (List Bookmark) := do
  bind P [limit, offset]
  runLike P f (applyFilters P db userId { f with q := none })
  let rows := (sortOrder P sort).sort (applyFilters P db userId f)
  .ok (load P db ((rows.drop offset.toNat).take limit.toNat))

/-- `list_keyset`. -/
def listKeyset (P : Platform) (db : Db) (userId : ℤ) (f : BookmarkFilters) (cursor limit : ℤ) :
    Except Exc (List Bookmark) := do
  bind P [cursor, limit]
  runLike P f ((applyFilters P db userId { f with q := none }).filter fun b => b.id < cursor)
  let rows := idDesc.sort ((applyFilters P db userId f).filter fun b => b.id < cursor)
  .ok (load P db (rows.take limit.toNat))

end BookmarkRepository
