import BookmarksApi.Repositories.Bookmark
import BookmarksApi.Repositories.Tag
import BookmarksApi.Schemas
import BookmarksApi.Utils.ETag

/-!
# Services/Bookmark — ownership, preconditions, pagination

`BookmarkService`: a write loads the owned bookmark, checks `If-Match` against its version, resolves
the tags, and only then changes the instance and commits.
-/

/-- The `changes` of an update: a field is there when the router put it in. -/
structure Changes where
  url : Option Str
  title : Option Str
  description : Option (Option Str)
  tags : Option (Option (List Str))

/-- The attribute writes of `update`. -/
def Changes.apply (c : Changes) (newTags : Option (List TagRow)) (b : Bookmark) : Bookmark :=
  { b with
    row := { b.row with
      url := c.url.getD b.row.url
      title := c.title.getD b.row.title
      description := c.description.getD b.row.description }
    tags := newTags.getD b.tags }

namespace BookmarkService

/-- `MAX_PER_PAGE`. -/
def maxPerPage : ℤ := 100

/-! ## Preconditions -/

/-- `_conflict`: the uniform 412. -/
def conflict (currentEtag : Option Str) : AppError :=
  preconditionFailedError
    "The bookmark was modified by another request. Re-fetch it and retry with the latest ETag."
    (currentEtag.map fun e => [("expected", .str e)]) (currentEtag.toList.map fun e => ("ETag", e))

/-- The 428 for a missing header. -/
def required (currentEtag : Str) : AppError :=
  preconditionRequiredError
    "This operation requires an 'If-Match' header with the bookmark's current ETag to prevent lost updates."
    [("header", .str "If-Match".toList), ("current", .str currentEtag)] [("ETag", currentEtag)]

/-- `_check_precondition`. -/
def checkPrecondition (version : ℕ) (ifMatch : Option Str) : Except Exc Unit :=
  let currentEtag := VersionETagService.makeEtag version
  match ifMatch with
  | none => .error (.app (required currentEtag))
  | some header =>
    if Str.strip header = [] then .error (.app (required currentEtag))
    else if VersionETagService.matches header version then .ok ()
    else .error (.app (conflict (some currentEtag)))

/-- **What a failed precondition raises**: a 428 or a 412 that reports the version. -/
theorem checkPrecondition_eq_error {version : ℕ} {ifMatch : Option Str} {x : Exc}
    (h : checkPrecondition version ifMatch = .error x) :
    x = .app (required (VersionETagService.makeEtag version)) ∨
      x = .app (conflict (some (VersionETagService.makeEtag version))) := by
  rcases ifMatch with _ | header
  · exact Or.inl (Except.error.inj h).symm
  · simp only [checkPrecondition] at h
    split_ifs at h
    · exact Or.inl (Except.error.inj h).symm
    · exact Or.inr (Except.error.inj h).symm

/-- **A version's own tag is a precondition that this version meets, and no other.** -/
theorem checkPrecondition_makeEtag {v w : ℕ} :
    checkPrecondition w (some (VersionETagService.makeEtag v)) = .ok () ↔ v = w := by
  have hstrip : Str.strip (VersionETagService.makeEtag v) ≠ [] := by
    rw [VersionETagService.strip_makeEtag]
    exact List.cons_ne_nil _ _
  simp only [checkPrecondition, if_neg hstrip, ← VersionETagService.matches_makeEtag v w]
  split_ifs with hmatches
  · exact iff_of_true rfl hmatches
  · exact iff_of_false (by simp) hmatches

/-! ## Operations -/

/-- The 404 for an id that is absent or another user's. -/
def notFound (bookmarkId : ℤ) : AppError :=
  notFoundError "Bookmark not found." [("field", .str "id".toList), ("value", .int bookmarkId)]

/-- `create`. -/
def create (P : Platform) (now : ℤ) (db : Db) (userId : ℤ) (url title : Str)
    (description : Option Str) (tags : List Str) : Except Exc (Db × Bookmark) := do
  let names ← normalizeTags P tags
  let (s, tagObjs) ← TagRepository.getOrCreate P ⟨db, none⟩ names
  BookmarkRepository.add P now s ⟨url, title, description, userId, tagObjs⟩

/-- `get`. -/
def get (P : Platform) (db : Db) (userId bookmarkId : ℤ) : Except Exc Bookmark := do
  match ← BookmarkRepository.getOwned P db userId bookmarkId with
  | none => .error (.app (notFound bookmarkId))
  | some b => .ok b

/-- `_current_etag`: the re-read after a rollback. -/
def currentEtag (P : Platform) (db : Db) (userId bookmarkId : ℤ) : Except Exc (Option Str) := do
  let current ← BookmarkRepository.getOwned P db userId bookmarkId
  .ok (current.map fun b => VersionETagService.makeEtag b.row.version)

/-- `new_tags` of an update: resolved first, while the instance is still as it was loaded. -/
def resolveTags (P : Platform) (s : Session) (changes : Changes) :
    Except Exc (Session × Option (List TagRow)) :=
  match changes.tags.join with
  | none => .ok (s, none)
  | some tags => do
    let names ← normalizeTags P tags
    let (s, newTags) ← TagRepository.getOrCreate P s names
    .ok (s, some newTags)

/-- `update`. -/
def update (P : Platform) (now : ℤ) (db : Db) (userId bookmarkId : ℤ) (changes : Changes)
    (ifMatch : Option Str) : Except Exc (Db × Bookmark) := do
  let b ← get P db userId bookmarkId
  checkPrecondition b.row.version ifMatch
  let (s, newTags) ← resolveTags P ⟨db, some b⟩ changes
  let b := changes.apply newTags (s.bookmark.getD b)
  match BookmarkRepository.update P now s.db b with
  | .error .staleVersion => do
    let etag ← currentEtag P db userId bookmarkId
    .error (.app (conflict etag))
  | result => result

/-- `delete`. -/
def delete (P : Platform) (db : Db) (userId bookmarkId : ℤ) (ifMatch : Option Str) :
    Except Exc Db := do
  let b ← get P db userId bookmarkId
  checkPrecondition b.row.version ifMatch
  match BookmarkRepository.delete db b with
  | .error .staleVersion => do
    let etag ← currentEtag P db userId bookmarkId
    .error (.app (conflict etag))
  | result => result

/-! ## Pages -/

/-- The result of `list`. -/
structure Page where
  items : List Bookmark
  pagination : PageMeta

/-- `math.ceil(total / per_page) if total else 0`; the float quotient rounds to the exact ceiling
for every count a table can reach. -/
def totalPages (total : ℕ) (perPage : ℤ) : ℤ :=
  if total = 0 then 0 else (total + perPage - 1) / perPage

/-- `list`. -/
def list (P : Platform) (db : Db) (userId : ℤ) (query : ListQuery) : Except Exc Page := do
  let perPage := max 1 (min query.perPage maxPerPage)
  let filters : BookmarkFilters := ⟨query.tag, query.q, query.dateFrom, query.dateTo⟩
  let total ← BookmarkRepository.count P db userId filters
  let pages := totalPages total perPage
  match query.cursor with
  | some cursor => do
    let rows ← BookmarkRepository.listKeyset P db userId filters cursor (perPage + 1)
    let hasMore := decide (perPage < rows.length)
    let items := rows.take perPage.toNat
    let nextCursor := if hasMore then items.getLast?.map fun b => b.row.id else none
    .ok ⟨items, ⟨1, perPage, total, pages, hasMore, false, nextCursor⟩⟩
  | none => do
    let items ← BookmarkRepository.listOffset P db userId filters query.sort perPage
      ((query.page - 1) * perPage)
    .ok ⟨items, ⟨query.page, perPage, total, pages, decide (query.page < pages),
      decide (1 < query.page), none⟩⟩

end BookmarkService
