import BookmarksApi.Models

/-!
# Repositories/Stats — the raw-SQL aggregates
-/

/-- A tag with its number of bookmarks. -/
structure TagCount where
  name : Str
  count : ℕ
  deriving DecidableEq, Repr

/-- A month with its number of bookmarks. -/
structure MonthCount where
  month : Str
  count : ℕ
  deriving DecidableEq, Repr

/-- The statistics of a user. -/
structure Stats where
  totalBookmarks : ℕ
  totalTags : ℕ
  topTags : List TagCount
  bookmarksPerMonth : List MonthCount
  deriving DecidableEq, Repr

/-- The count reported for a month, 0 when it is absent. -/
def Stats.inMonth (s : Stats) (month : Str) : ℕ :=
  ((s.bookmarksPerMonth.find? fun c => c.month = month).map MonthCount.count).getD 0

/-- The dialect of the database; in PostgreSQL a session has a `TimeZone`, here the offset from UTC
that it has at an instant, in microseconds. -/
inductive Dialect
  | sqlite
  | postgresql (timeZone : ℤ → ℤ)

namespace StatsRepository

/-- `_month_expr`, evaluated: `strftime` reads the stored text, `to_char` renders a `timestamptz` in
the session's time zone. -/
def monthExpr : Dialect → Stamp → Str
  | .sqlite, s => s.monthText
  | .postgresql timeZone, s => (Stamp.micros (s.instant + timeZone s.instant)).monthText

/-- The bookmarks of a user. -/
def owned (db : Db) (userId : ℤ) : List BookmarkRow :=
  db.bookmarks.rows.filter fun b => b.userId = userId

/-- `tags JOIN bookmark_tags JOIN bookmarks WHERE user_id = :uid`: a tag for each link. -/
def joined (db : Db) (userId : ℤ) : List TagRow :=
  db.tags.rows.flatMap fun t =>
    (db.bookmarkTags.rows.filter fun l => l.tagId = t.id).flatMap fun l =>
      ((owned db userId).filter fun b => b.id = l.bookmarkId).map fun _ => t

/-- `ORDER BY count DESC, t.name ASC`. -/
def topOrder (P : Platform) : TotalPreorder TagCount :=
  ((TotalPreorder.ofLinearOrder ℕ).reverse.comap TagCount.count).lex
    (P.collation.comap TagCount.name)

/-- `get_stats`. -/
def getStats (P : Platform) (db : Db) (userId : ℤ) : Stats :=
  let rows := joined db userId
  let months := (owned db userId).map fun b => P.month b.createdAt
  { totalBookmarks := (owned db userId).length
    totalTags := (rows.map TagRow.id).dedup.length
    topTags := ((topOrder P).sort (rows.dedup.map fun t => ⟨t.name, rows.count t⟩)).take 10
    bookmarksPerMonth := (P.collation.comap MonthCount.month).sort
      (months.dedup.map fun m => ⟨m, months.count m⟩) }

end StatsRepository
