import BookmarksApi.Orm
import BookmarksApi.Repositories.Stats
import BookmarksApi.Utils.Tags

/-!
# Schemas — requests that passed validation, and response bodies

A payload carries what its schema has checked: a title of 1 to 200 characters, a description of at
most 500, and tags that `normalize_tags` returned.  `url` is `str(HttpUrl)`.
-/

/-- `BookmarkCreate`. -/
structure BookmarkCreate (P : Platform) where
  url : Str
  title : Str
  description : Option Str
  tags : List Str
  titleLength : 1 ≤ title.length ∧ title.length ≤ 200
  descriptionLength : ∀ d, description = some d → d.length ≤ 500
  tagsNormalized : ∃ raw, normalizeTags P raw = .ok tags

/-- `BookmarkUpdate`: the outer `Option` of a field is its presence in the request body
(`model_fields_set`), the inner one is `null`. -/
structure BookmarkUpdate (P : Platform) where
  url : Option (Option Str)
  title : Option (Option Str)
  description : Option (Option Str)
  tags : Option (Option (List Str))
  titleLength : ∀ t, title = some (some t) → 1 ≤ t.length ∧ t.length ≤ 200
  descriptionLength : ∀ d, description = some (some d) → d.length ≤ 500
  tagsNormalized : ∀ ts, tags = some (some ts) → ∃ raw, normalizeTags P raw = .ok ts

/-- A payload without tags, for concrete runs. -/
def BookmarkCreate.titled {P : Platform} (title : Char) : BookmarkCreate P where
  url := "https://example.com/".toList
  title := [title]
  description := none
  tags := []
  titleLength := by simp
  descriptionLength := by simp
  tagsNormalized := ⟨[], rfl⟩

/-- A payload that sets the title alone, for concrete runs. -/
def BookmarkUpdate.titled {P : Platform} (title : Char) : BookmarkUpdate P where
  url := none
  title := some (some [title])
  description := none
  tags := none
  titleLength := by simp
  descriptionLength := by simp
  tagsNormalized := by simp

/-- A payload with one tag, for concrete runs. -/
def BookmarkCreate.tagged {P : Platform} (name : Str) (h : normalizeTags P [name] = .ok [name]) :
    BookmarkCreate P :=
  { (BookmarkCreate.titled 'a' : BookmarkCreate P) with
    tags := [name], tagsNormalized := ⟨[name], h⟩ }

/-- A payload with some tags, for concrete runs. -/
def BookmarkCreate.listing {P : Platform} (names : List Str)
    (h : normalizeTags P names = .ok names) : BookmarkCreate P :=
  { (BookmarkCreate.titled 'a' : BookmarkCreate P) with
    tags := names, tagsNormalized := ⟨names, h⟩ }

/-- A payload that sets one tag alone, for concrete runs. -/
def BookmarkUpdate.tagged {P : Platform} (name : Str) (h : normalizeTags P [name] = .ok [name]) :
    BookmarkUpdate P where
  url := none
  title := none
  description := none
  tags := some (some [name])
  titleLength := by simp
  descriptionLength := by simp
  tagsNormalized := fun _ hts => ⟨[name], by simp_all⟩

/-- **Normalizing is exact and stable**: it raises for a name that is too long and for too many
names, and else returns the distinct names in the order in which they occur first; what it has
returned, to a payload too, it returns again. -/
theorem normalize_tags_exact (P : Platform) (raw : List Str) :
    (normalizeTags P raw = .error .valueError ↔
      (∃ x ∈ raw, maxTagLength < (P.norm x).length) ∨
        maxTagsPerBookmark < (namesOf P raw).toFinset.card) ∧
    (∀ names, normalizeTags P raw = .ok names ↔
      (∀ x ∈ raw, (P.norm x).length ≤ maxTagLength) ∧
        (namesOf P raw).toFinset.card ≤ maxTagsPerBookmark ∧
          FirstOccurrences (namesOf P raw) names) ∧
    (∀ names, normalizeTags P raw = .ok names → normalizeTags P names = .ok names) ∧
    (∀ payload : BookmarkCreate P, normalizeTags P payload.tags = .ok payload.tags) ∧
    ∀ (payload : BookmarkUpdate P) (tags : List Str), payload.tags = some (some tags) →
      normalizeTags P tags = .ok tags := by
  refine ⟨normalizeTags_eq_error_iff, fun names => normalizeTags_eq_ok_iff,
    fun names => normalizeTags_idem, fun payload => ?_, fun payload tags htags => ?_⟩
  · obtain ⟨raw, hraw⟩ := payload.tagsNormalized
    exact normalizeTags_idem hraw
  · obtain ⟨raw, hraw⟩ := payload.tagsNormalized tags htags
    exact normalizeTags_idem hraw

/-- The validated query of a list request. -/
structure ListQuery where
  tag : Option Str
  q : Option Str
  dateFrom : Option ℤ
  dateTo : Option ℤ
  page : ℤ
  perPage : ℤ
  sort : Str
  cursor : Option ℤ
  pageGe : 1 ≤ page
  perPageGe : 1 ≤ perPage
  perPageLe : perPage ≤ 100
  cursorGe : ∀ c, cursor = some c → 1 ≤ c

/-- `BookmarkOut`. -/
structure BookmarkOut where
  id : ℤ
  url : Str
  title : Str
  description : Option Str
  tags : List Str
  createdAt : Stamp
  updatedAt : Stamp
  version : ℕ
  deriving DecidableEq, Repr

/-- `BookmarkOut.model_validate`. -/
def BookmarkOut.ofBookmark (b : Bookmark) : BookmarkOut :=
  { id := b.row.id, url := b.row.url, title := b.row.title, description := b.row.description
    tags := b.tags.map TagRow.name, createdAt := b.row.createdAt, updatedAt := b.row.updatedAt
    version := b.row.version }

/-- `PageMeta`. -/
structure PageMeta where
  page : ℤ
  perPage : ℤ
  total : ℕ
  totalPages : ℤ
  hasNext : Bool
  hasPrev : Bool
  nextCursor : Option ℤ
  deriving DecidableEq, Repr

/-- `BookmarkPage`. -/
structure BookmarkPage where
  items : List BookmarkOut
  pagination : PageMeta
  deriving DecidableEq, Repr

/-- The body of a successful response. -/
inductive Body
  | bookmark (b : BookmarkOut)
  | page (p : BookmarkPage)
  | stats (s : Stats)
  | empty
  deriving DecidableEq, Repr
