import BookmarksApi.Machinery.Pages
import BookmarksApi.Machinery.Rounding
import BookmarksApi.Machinery.Runs
import BookmarksApi.Store.Pages

/-!
# Store/Pagination — numbered pages partition the selection

The rows that a list request selects, sorted, are one list (`selection`): ids break the ties, and a
join through links to one tag shows a bookmark once.  A limit and an offset cut pages out of it, and
the number of pages is the count over the page size, rounded up.  That quotient is one of doubles;
below 2⁵³ rows the ceiling is exact all the same (`count_eq_ceil_nearest`).  There are pages exactly
when `LIKE` takes the keyword's pattern or gets nothing to compare with it
(`offset_pages_partition_iff`): the router does not bound a keyword's length.
-/

variable {P : Platform} {db : Db} {userId : ℤ}

/-- The driver binds what fits a signed 64-bit integer. -/
def Platform.BindsInt64 (P : Platform) : Prop := ∀ n : ℤ, 0 ≤ n → n < 2 ^ 63 → P.bindable n = true

theorem Platform.TakesInt64.bindsInt64 {P : Platform} (h : P.TakesInt64) : P.BindsInt64 := by
  intro n hn hlt
  refine (h n).mpr ⟨?_, hlt⟩
  omega

theorem Platform.bindsInt64_sqlite : sqlite.BindsInt64 := takesInt64_sqlite.bindsInt64

theorem ListQuery.size_eq (query : ListQuery) : query.size = query.perPage := by
  have := query.perPageGe
  have := query.perPageLe
  rw [size, BookmarkService.maxPerPage]
  omega

namespace BookmarkRepository

variable {f : BookmarkFilters}

/-- The rows that the filters select, in the order asked for. -/
def selection (P : Platform) (db : Db) (userId : ℤ) (f : BookmarkFilters) (sort : Str) :
    List BookmarkRow :=
  (sortOrder P sort).sort (applyFilters P db userId f)

theorem nodup_selection (I : db.Integrity) (sort : Str) : (selection P db userId f sort).Nodup :=
  TotalPreorder.nodup_sort.mpr (nodup_applyFilters I userId f)

/-- **What is counted is the selection.** -/
theorem length_selection (I : db.Integrity) (sort : Str) :
    (selection P db userId f sort).length = total P db userId f := by
  rw [selection, (TotalPreorder.sort_perm _ _).length_eq, total, List.dedup_map_length eq_of_id,
    (nodup_applyFilters I userId f).dedup]

end BookmarkRepository

namespace BookmarkService

open BookmarkRepository

/-- The number of pages is the quotient, rounded up. -/
theorem totalPages_eq_count {total perPage : ℕ} (hpos : 0 < perPage) :
    totalPages total perPage = Paging.count perPage total := by
  rw [totalPages]
  split_ifs with hzero
  · rw [hzero, Paging.count_zero hpos]
    rfl
  · rw [Paging.count, Int.natCast_div, Nat.cast_sub (by omega)]
    push_cast
    rfl

end BookmarkService

theorem ListQuery.one_le_number (k : ℕ) : (1 : ℤ) ≤ k + 1 := by omega

theorem ListQuery.one_le_one : (1 : ℤ) ≤ 1 := by omega

theorem ListQuery.one_le_none : ∀ c : ℤ, (none : Option ℤ) = some c → 1 ≤ c := by
  rintro c ⟨⟩

/-- The request for page `k + 1`. -/
def ListQuery.numbered (query : ListQuery) (k : ℕ) : ListQuery :=
  { query with
    page := k + 1
    cursor := none
    pageGe := one_le_number k
    cursorGe := one_le_none }

namespace BookmarkService

open BookmarkRepository

variable {query : ListQuery}

/-- Page `k + 1` of a selection. -/
def numberedPage (P : Platform) (db : Db) (rows : List BookmarkRow) (query : ListQuery) (k : ℕ) :
    Page :=
  let pages := Paging.count query.perPage.toNat rows.length
  { items := load P db (Paging.page query.perPage.toNat k rows)
    pagination :=
      { page := k + 1, perPage := query.perPage, total := rows.length, totalPages := pages
        hasNext := decide ((k + 1 : ℤ) < pages), hasPrev := decide ((1 : ℤ) < k + 1)
        nextCursor := none } }

theorem perPage_toNat (query : ListQuery) :
    (query.perPage.toNat : ℤ) = query.perPage ∧ 0 < query.perPage.toNat ∧
      query.perPage.toNat ≤ 100 := by
  have := query.perPageGe
  have := query.perPageLe
  omega

/-- **A numbered page is a stretch of the selection.** -/
theorem list_numbered (hbind : P.BindsInt64) (I : db.Integrity) {k : ℕ}
    (hlike : LikeRuns P db userId query.filters) (hoffset : k * query.perPage < 2 ^ 63) :
    list P db userId (query.numbered k)
      = .ok (numberedPage P db (selection P db userId query.filters query.sort) query k) := by
  obtain ⟨hperPage, hpos, hle⟩ := perPage_toNat query
  have hsize : max 1 (min query.perPage maxPerPage) = query.perPage := query.size_eq
  have hitems : listOffset P db userId query.filters query.sort query.perPage
      ((k + 1 - 1) * query.perPage)
        = .ok (load P db (Paging.page query.perPage.toNat k
            (selection P db userId query.filters query.sort))) := by
    have hk : ((k : ℤ) + 1 - 1) * query.perPage = (k * query.perPage.toNat : ℕ) := by
      rw [add_sub_cancel_right, Nat.cast_mul, hperPage]
    rw [listOffset_eq_ok, hk]
    refine ⟨?_, hlike, by rw [Int.toNat_natCast]; rfl⟩
    rw [Nat.cast_mul, hperPage]
    simp only [List.mem_cons, List.not_mem_nil, or_false, forall_eq_or_imp, forall_eq]
    have hnonneg : 0 ≤ (k : ℤ) * query.perPage := mul_nonneg (Int.natCast_nonneg k) (by omega)
    exact ⟨hbind _ (by omega) (by omega), hbind _ hnonneg hoffset⟩
  have hpages : totalPages (total P db userId query.filters) query.perPage
      = Paging.count query.perPage.toNat
          (selection P db userId query.filters query.sort).length := by
    rw [length_selection I, ← totalPages_eq_count hpos, hperPage]
  have hfilters : (⟨query.tag, query.q, query.dateFrom, query.dateTo⟩ : BookmarkFilters)
      = query.filters := rfl
  simp only [list, ListQuery.numbered, hsize, hfilters, hitems, count_eq_ok.mpr ⟨hlike, rfl⟩]
  change Except.ok _ = _
  rw [hpages, ← length_selection I query.sort]
  rfl

theorem one_le_twoPerPage : (1 : ℤ) ≤ 2 := by decide

theorem two_le_maxPerPage : (2 : ℤ) ≤ maxPerPage := by decide

/-- Two bookmarks a page, by title, in falling order. -/
def byTitle : ListQuery :=
  ⟨none, none, none, none, 1, 2, "--title".toList, none, ListQuery.one_le_one, one_le_twoPerPage,
    two_le_maxPerPage, ListQuery.one_le_none⟩

end BookmarkService
