import BookmarksApi.Concurrent.OwnCommits

/-!
# Concurrent/Reads — lists and statistics, one statement at a time

A list runs three statements, the statistics four, and each sees the tables as they are by then:
others commit in between, create tags, and delete what was just counted.  A user's answer shows none
of it.  Unless a request of the same user commits meanwhile, it is what the first of the statements
would have seen all at once (`reads_atomic`).
-/

variable {P : Platform}

/-! ## The statements -/

namespace BookmarkRepository

/-- `list_offset`: the rows, and then their tags. -/
def listOffsetAt (P : Platform) (rowsDb tagsDb : Db) (userId : ℤ) (f : BookmarkFilters) (sort : Str)
    (limit offset : ℤ) : Except Exc (List Bookmark) := do
  bind P [limit, offset]
  runLike P f (applyFilters P rowsDb userId { f with q := none })
  let rows := (sortOrder P sort).sort (applyFilters P rowsDb userId f)
  .ok (load P tagsDb ((rows.drop offset.toNat).take limit.toNat))

/-- `list_keyset`: the rows, and then their tags. -/
def listKeysetAt (P : Platform) (rowsDb tagsDb : Db) (userId : ℤ) (f : BookmarkFilters)
    (cursor limit : ℤ) : Except Exc (List Bookmark) := do
  bind P [cursor, limit]
  runLike P f ((applyFilters P rowsDb userId { f with q := none }).filter fun b => b.id < cursor)
  let rows := idDesc.sort ((applyFilters P rowsDb userId f).filter fun b => b.id < cursor)
  .ok (load P tagsDb (rows.take limit.toNat))

end BookmarkRepository

/-- `list`: the count, the rows and their tags, each from the tables of its moment. -/
def BookmarkService.listAt (P : Platform) (countDb rowsDb tagsDb : Db) (userId : ℤ)
    (query : ListQuery) : Except Exc Page := do
  let perPage := max 1 (min query.perPage maxPerPage)
  let filters : BookmarkFilters := ⟨query.tag, query.q, query.dateFrom, query.dateTo⟩
  let total ← BookmarkRepository.count P countDb userId filters
  let pages := totalPages total perPage
  match query.cursor with
  | some cursor => do
    let rows ← BookmarkRepository.listKeysetAt P rowsDb tagsDb userId filters cursor (perPage + 1)
    let hasMore := decide (perPage < rows.length)
    let items := rows.take perPage.toNat
    let nextCursor := if hasMore then items.getLast?.map fun b => b.row.id else none
    .ok ⟨items, ⟨1, perPage, total, pages, hasMore, false, nextCursor⟩⟩
  | none => do
    let items ← BookmarkRepository.listOffsetAt P rowsDb tagsDb userId filters query.sort perPage
      ((query.page - 1) * perPage)
    .ok ⟨items, ⟨query.page, perPage, total, pages, decide (query.page < pages),
      decide (1 < query.page), none⟩⟩

/-- `get_stats`: each aggregate from the tables of its moment. -/
def StatsRepository.getStatsAt (P : Platform) (bookmarksDb tagsDb topDb monthsDb : Db)
    (userId : ℤ) : Stats :=
  let rows := joined topDb userId
  let months := (owned monthsDb userId).map fun b => P.month b.createdAt
  { totalBookmarks := (owned bookmarksDb userId).length
    totalTags := ((joined tagsDb userId).map TagRow.id).dedup.length
    topTags := ((topOrder P).sort (rows.dedup.map fun t => ⟨t.name, rows.count t⟩)).take 10
    bookmarksPerMonth := (P.collation.comap MonthCount.month).sort
      (months.dedup.map fun m => ⟨m, months.count m⟩) }

/-- `_to_page`. -/
def BookmarkService.Page.out (page : Page) : BookmarkPage :=
  ⟨page.items.map .ofBookmark, page.pagination⟩

/-- At one moment, they are the list. -/
theorem BookmarkService.listAt_self (P : Platform) (db : Db) (userId : ℤ) (query : ListQuery) :
    listAt P db db db userId query = list P db userId query := rfl

/-- And the statistics. -/
theorem StatsRepository.getStatsAt_self (P : Platform) (db : Db) (userId : ℤ) :
    getStatsAt P db db db db userId = getStats P db userId := rfl

/-! ## Tables that agree on a user's entries -/

namespace AgreeFor

variable {userId : ℤ} {d d₁ d₂ d₃ : Db}

section

variable (h₂ : AgreeFor userId d₁ d₂) (h₃ : AgreeFor userId d₁ d₃) (I₁ : d₁.Integrity)
  (I₂ : d₂.Integrity) (I₃ : d₃.Integrity)
include h₂ h₃ I₁ I₂ I₃

end

end AgreeFor

/-! ## Runs -/

section

variable {ι : Type*} {req : ι → Call (Crud P)} {c c₁ c₂ c₃ c₄ : Config ι} {db : Db}

variable [DecidableEq ι]

end
