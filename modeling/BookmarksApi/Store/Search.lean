import BookmarksApi.Store.Pages
import BookmarksApi.Text.Like

/-!
# Store/Search — the keyword filter

The keyword goes through Python's `strip().lower()`, the columns through the database's `lower()`,
and `LIKE` compares the two.  The comparison is containment (`columnsMatch_keyword_iff`).  Whether
it finds a text that holds the keyword in other letter case is decided by the two foldings: on
SQLite the database folds `A`–`Z` and no other letter (`lists_iff_holdsPlainly`).  The matcher reads
a text to its end, and so leaves out texts and keywords with U+0000, where SQLite stops.
-/

variable {P : Platform} {db : Db}

namespace Platform

/-- **A text Python lowered and a text the database lowered are compared letter by letter**: of
such letters, `LIKE` takes no two for the same. -/
def ComparesLowered (P : Platform) : Prop :=
  ∀ x y : Str, ∀ c ∈ P.lower x, ∀ d ∈ P.sqlLower y, P.sameLetter c d = true ↔ c = d

/-- **SQLite's letter case**: `lower()` and `LIKE` fold `A`–`Z` alone, and Python's `lower` does
not see that folding. -/
structure FoldsAscii (P : Platform) : Prop where
  sqlLower_eq : ∀ x, P.sqlLower x = x.map (foldChar false)
  sameLetter_iff : ∀ c d, P.sameLetter c d = true ↔ foldChar false c = foldChar false d
  lower_sqlLower : ∀ x, P.lower (P.sqlLower x) = P.lower x

theorem foldChar_false_idem (c : Char) : foldChar false (foldChar false c) = foldChar false c := by
  by_cases h : isUpper false c = true
  · have hn := toNat_foldChar h
    rw [foldChar, if_neg]
    simp only [isUpper, Bool.or_eq_true, Bool.and_eq_true, decide_eq_true_eq, hn] at h ⊢
    simp only [Bool.false_eq_true, false_and, or_false] at h ⊢
    omega
  · have hfold : foldChar false c = c := by rw [foldChar, if_neg h]
    rw [hfold, hfold]

theorem foldChar_true_false (c : Char) : foldChar true (foldChar false c) = foldChar true c := by
  by_cases h : isUpper false c = true
  · have hupper : isUpper true c = true := by
      simp only [isUpper, Bool.false_and, Bool.or_false] at h
      simp [isUpper, h]
    have heq : foldChar false c = foldChar true c := by
      rw [foldChar, foldChar, if_pos h, if_pos hupper]
    rw [heq, foldChar_foldChar]
  · have hfold : foldChar false c = c := by rw [foldChar, if_neg h]
    rw [hfold]

theorem FoldsAscii.comparesLowered (hP : P.FoldsAscii) : P.ComparesLowered := by
  intro x y c hc d hd
  have hlower : foldChar false c = c := by
    have h : (P.lower x).map (foldChar false) = (P.lower x).map id := by
      rw [← hP.sqlLower_eq, P.sqlLower_lower, List.map_id]
    exact List.map_inj_left.mp h c hc
  have hsql : foldChar false d = d := by
    rw [hP.sqlLower_eq, List.mem_map] at hd
    obtain ⟨e, -, rfl⟩ := hd
    exact foldChar_false_idem e
  rw [hP.sameLetter_iff, hlower, hsql]

theorem foldsAscii_sqlite : sqlite.FoldsAscii where
  sqlLower_eq _ := rfl
  sameLetter_iff _ _ := beq_iff_eq
  lower_sqlLower x := by
    change (x.map (foldChar false)).map (foldChar true) = x.map (foldChar true)
    rw [List.map_map]
    exact List.map_congr_left fun c _ => foldChar_true_false c

end Platform

/-- The texts a keyword is looked for in. -/
def BookmarkRow.texts (row : BookmarkRow) : List Str := row.title :: row.description.toList

namespace BookmarkRepository

/-! ## Containment -/

theorem likePattern_eq (P : Platform) (q : Str) :
    likePattern P q = '%' :: Str.escapeLike (P.norm q) ++ ['%'] := rfl

/-- **One column's test is containment.** -/
theorem like_likePattern_iff (hP : P.ComparesLowered) {q s : Str} :
    Str.like P.sameLetter '\\' (likePattern P q) (P.sqlLower s) = true ↔
      P.norm q <:+: P.sqlLower s := by
  rw [likePattern_eq]
  exact Str.like_contains_iff (hP (Str.strip q) s)

/-- **The keyword's conjunct is containment** in the title or in the description. -/
theorem columnsMatch_keyword_iff (hP : P.ComparesLowered) {userId : ℤ} {f : BookmarkFilters}
    {row : BookmarkRow} :
    columnsMatch P userId f row = true ↔ columnsMatch P userId { f with q := none } row = true ∧
      ∀ q, truthy f.q = some q → ∃ s ∈ row.texts, P.norm q <:+: P.sqlLower s := by
  have htexts : ∀ q : Str,
      (Str.like P.sameLetter '\\' (likePattern P q) (P.sqlLower row.title) ||
        row.description.any fun d =>
          Str.like P.sameLetter '\\' (likePattern P q) (P.sqlLower d)) = true ↔
        ∃ s ∈ row.texts, P.norm q <:+: P.sqlLower s := by
    intro q
    rw [Bool.or_eq_true, like_likePattern_iff hP]
    simp only [BookmarkRow.texts, List.mem_cons, Option.mem_toList, Option.any_eq_true,
      like_likePattern_iff hP, exists_eq_or_imp]
  simp only [columnsMatch, Bool.and_eq_true, Option.all_eq_true, htexts, decide_eq_true_eq, truthy,
    Option.filter_none, reduceCtorEq, false_imp_iff, implies_true, and_true]
  tauto

/-- **Escaping is exact**: `LIKE` accepts the texts that hold the term as a contiguous piece, so
each column's test, and the filter they make up, asks for the keyword and nothing else. -/
theorem like_escaping_exact (hP : P.ComparesLowered) :
    (∀ t s : Str, Str.like (· == ·) '\\' ('%' :: Str.escapeLike t ++ ['%']) s = true ↔ t <:+: s) ∧
    (∀ q s : Str, Str.like P.sameLetter '\\' (likePattern P q) (P.sqlLower s) = true ↔
      P.norm q <:+: P.sqlLower s) ∧
    ∀ (userId : ℤ) (f : BookmarkFilters) (row : BookmarkRow), columnsMatch P userId f row = true ↔
      columnsMatch P userId { f with q := none } row = true ∧
        ∀ q, truthy f.q = some q → ∃ s ∈ row.texts, P.norm q <:+: P.sqlLower s :=
  ⟨fun _ _ => Str.like_contains_iff fun _ _ _ _ => beq_iff_eq,
    fun _ _ => like_likePattern_iff hP, fun _ _ _ => columnsMatch_keyword_iff hP⟩

/-- A keyword of wildcards and escape characters, on SQLite. -/
theorem like_escaping_exact_sqlite :
    Str.like Platform.sqlite.sameLetter '\\' (likePattern .sqlite "50%_\\".toList)
        (Platform.sqlite.sqlLower "Now 50%_\\".toList) = true ∧
      ¬ Str.like Platform.sqlite.sameLetter '\\' (likePattern .sqlite "50%_\\".toList)
        (Platform.sqlite.sqlLower "Now 50 or so".toList) = true := by
  have hlike := (like_escaping_exact Platform.foldsAscii_sqlite.comparesLowered).2.1
    "50%_\\".toList
  exact ⟨(hlike _).mpr (by decide +kernel), fun h => absurd ((hlike _).mp h) (by decide +kernel)⟩

end BookmarkRepository

/-! ## The list -/

namespace BookmarkService

/-- Some page of the list under these filters shows the bookmark. -/
def Shows (P : Platform) (db : Db) (userId : ℤ) (f : BookmarkFilters) (bookmarkId : ℤ) : Prop :=
  ∃ query page, query.filters = f ∧ query.cursor = none ∧ list P db userId query = .ok page ∧
    bookmarkId ∈ page.items.map fun b => b.row.id

/-- Some page of `list(q=q)` shows the bookmark. -/
def Lists (P : Platform) (db : Db) (userId : ℤ) (q : Str) (bookmarkId : ℤ) : Prop :=
  ∃ query page, query.tag = none ∧ query.q = some q ∧ query.dateFrom = none ∧
    query.dateTo = none ∧ query.cursor = none ∧ list P db userId query = .ok page ∧
    bookmarkId ∈ page.items.map fun b => b.row.id

theorem lists_iff_shows {userId bookmarkId : ℤ} {q : Str} :
    Lists P db userId q bookmarkId ↔ Shows P db userId { q := some q } bookmarkId := by
  constructor
  · rintro ⟨query, page, htag, hq, hfrom, hto, hrest⟩
    exact ⟨query, page, by rw [ListQuery.filters, htag, hq, hfrom, hto], hrest⟩
  · rintro ⟨query, page, hfilters, hrest⟩
    obtain ⟨htag, hq, hfrom, hto⟩ := BookmarkFilters.mk.inj hfilters
    exact ⟨query, page, htag, hq, hfrom, hto, hrest⟩

/-- What a page shows was selected. -/
theorem Shows.exists_row {userId bookmarkId : ℤ} {f : BookmarkFilters}
    (h : Shows P db userId f bookmarkId) :
    ∃ row ∈ BookmarkRepository.applyFilters P db userId f, row.id = bookmarkId := by
  obtain ⟨query, page, rfl, hcursor, hlist, hmem⟩ := h
  have hitems : (list P db userId query).map Page.items = _ := map_items_list hcursor
  rw [hlist] at hitems
  obtain ⟨-, -, hoffset⟩ := Except.exists_of_bind_eq_ok hitems.symm
  obtain ⟨-, -, hload⟩ := BookmarkRepository.listOffset_eq_ok.mp hoffset
  obtain ⟨b, hb, hid⟩ := List.mem_map.mp hmem
  have hrow : b.row ∈ page.items.map Bookmark.row := List.mem_map_of_mem hb
  rw [hload, BookmarkRepository.mem_map_row_load] at hrow
  exact ⟨b.row, TotalPreorder.mem_sort.mp (List.mem_of_mem_drop (List.mem_of_mem_take hrow)), hid⟩

/-- With one bookmark a page, page `k + 1` shows the one after the first `k`. -/
theorem items_page {userId : ℤ} {query : ListQuery} {k : ℕ} (hcursor : query.cursor = none)
    (hpage : query.page = k + 1) (hsize : query.size = 1)
    (hk : k < ((BookmarkRepository.sortOrder P query.sort).sort
      (BookmarkRepository.applyFilters P db userId query.filters)).length)
    (hlike : BookmarkRepository.LikeRuns P db userId query.filters)
    (hbind : P.bindable 1 = true ∧ P.bindable k = true) :
    (list P db userId query).map Page.items
      = .ok (BookmarkRepository.load P db [((BookmarkRepository.sortOrder P query.sort).sort
          (BookmarkRepository.applyFilters P db userId query.filters))[k]]) := by
  rw [map_items_list hcursor, BookmarkRepository.count_eq_ok.mpr ⟨hlike, rfl⟩, Except.bind,
    BookmarkRepository.listOffset_eq_ok]
  have hoffset : (query.page - 1) * query.size = k := by
    rw [hsize, hpage, mul_one]
    exact add_sub_cancel_right _ _
  rw [hoffset, hsize]
  refine ⟨?_, hlike, congrArg (BookmarkRepository.load P db) ?_⟩
  · simp only [List.mem_cons, List.not_mem_nil, or_false, forall_eq_or_imp, forall_eq]
    exact hbind
  · rw [Int.toNat_natCast]
    exact (List.take_one_drop_eq_of_lt_length hk).symm

/-- **The pages of a list show the rows it selects**, where `LIKE` runs and the driver can bind a
row count. -/
theorem shows_iff (hlike : BookmarkRepository.LikeRuns P db userId f) (hbind : ∀ n : ℕ,
      n ≤ (BookmarkRepository.applyFilters P db userId f).length → P.bindable n = true)
    {bookmarkId : ℤ} : Shows P db userId f bookmarkId ↔
      ∃ row ∈ BookmarkRepository.applyFilters P db userId f, row.id = bookmarkId := by
  refine ⟨Shows.exists_row, ?_⟩
  rintro ⟨row, hrow, rfl⟩
  obtain ⟨k, hk, rfl⟩ := List.getElem_of_mem
    (((BookmarkRepository.sortOrder P "-created_at".toList).sort_perm _).mem_iff.mpr hrow)
  have hlength : k < (BookmarkRepository.applyFilters P db userId f).length :=
    hk.trans_eq (TotalPreorder.sort_perm _ _).length_eq
  let query : ListQuery := ⟨f.tag, f.q, f.dateFrom, f.dateTo, k + 1, 1, "-created_at".toList, none,
    by omega, by decide, by decide, by simp⟩
  have hpage : (list P db userId query).map Page.items = _ :=
    items_page rfl rfl rfl hk hlike ⟨hbind 1 (by omega), hbind k (by omega)⟩
  rcases hlist : list P db userId query with x | page
  · rw [hlist] at hpage
    cases hpage
  · rw [hlist] at hpage
    refine ⟨query, page, rfl, rfl, hlist, ?_⟩
    rw [Except.ok.inj hpage]
    exact List.mem_singleton_self _

/-- What a page shows was compared: `LIKE` takes the pattern. -/
theorem Lists.patternTaken {userId bookmarkId : ℤ} {q : Str} (h : Lists P db userId q bookmarkId) :
    BookmarkRepository.patternTaken P { q := some q } = true := by
  have hshows := lists_iff_shows.mp h
  obtain ⟨row, hrow, -⟩ := hshows.exists_row
  obtain ⟨query, page, hfilters, hcursor, hlist, -⟩ := hshows
  obtain ⟨n, hcount, -⟩ := Except.exists_of_bind_eq_ok hlist
  obtain ⟨hlike, -⟩ := BookmarkRepository.count_eq_ok.mp hcount
  change BookmarkRepository.LikeRuns P db userId query.filters at hlike
  rw [hfilters] at hlike
  refine hlike.resolve_right fun hnone => ?_
  obtain ⟨e, howned, -, -⟩ := BookmarkRepository.mem_applyFilters.mp hrow
  have hmatch : e.matches P {} = true := by
    simp [Entry.matches, BookmarkRepository.columnsMatch, BookmarkRepository.truthy]
  exact absurd hmatch (by rw [hnone row.id e howned]; decide)

/-- **The pages of a search show the rows it selects**, when `LIKE` takes the pattern, and where the
driver can bind a row count. -/
theorem lists_iff (hbind : ∀ n : ℕ, n ≤ db.bookmarks.rows.length → P.bindable n = true)
    {userId bookmarkId : ℤ} {q : Str} :
    Lists P db userId q bookmarkId ↔
      BookmarkRepository.patternTaken P { q := some q } = true ∧
        ∃ row ∈ BookmarkRepository.applyFilters P db userId { q := some q },
          row.id = bookmarkId := by
  have hshows : BookmarkRepository.patternTaken P { q := some q } = true →
      (Lists P db userId q bookmarkId ↔
        ∃ row ∈ BookmarkRepository.applyFilters P db userId { q := some q },
          row.id = bookmarkId) := fun htaken => by
    rw [lists_iff_shows]
    refine shows_iff (Or.inl htaken) fun n hn => hbind n (hn.trans ?_)
    exact List.length_filter_le _ _
  exact ⟨fun h => ⟨h.patternTaken, (hshows h.patternTaken).mp h⟩, fun h => (hshows h.1).mpr h.2⟩

/-! ## Letter case -/

end BookmarkService

/-- The keyword occurs in the title or the description, up to the letter case that Python's
`lower` removes. -/
def BookmarkRow.Holds (P : Platform) (q : Str) (row : BookmarkRow) : Prop :=
  ∃ s ∈ row.texts, ∃ w, w <:+: s ∧ P.lower w = P.norm q

/-- It does in a piece that Python and the database lower alike. -/
def BookmarkRow.HoldsPlainly (P : Platform) (q : Str) (row : BookmarkRow) : Prop :=
  ∃ s ∈ row.texts, ∃ w, w <:+: s ∧ P.lower w = P.norm q ∧ P.sqlLower w = P.lower w

namespace BookmarkService

/-- **A lowered column contains the lowered keyword exactly where a piece is lowered alike.** -/
theorem contains_iff_holdsPlainly (hP : P.FoldsAscii) {q : Str} {row : BookmarkRow} :
    (∃ s ∈ row.texts, P.norm q <:+: P.sqlLower s) ↔ row.HoldsPlainly P q := by
  refine exists_congr fun s => and_congr_right fun _ => ?_
  rw [hP.sqlLower_eq, List.infix_map_iff]
  refine exists_congr fun w => and_congr_right fun _ => ?_
  rw [← hP.sqlLower_eq]
  constructor
  · intro hw
    have hlower : P.lower w = P.norm q := by
      rw [← hP.lower_sqlLower, ← hw]
      exact P.lower_lower (Str.strip q)
    exact ⟨hlower, hw.symm.trans hlower.symm⟩
  · rintro ⟨hlower, hsql⟩
    exact (hsql.trans hlower).symm

/-- **A search finds what it lowers as the database does**, when `LIKE` takes its pattern. -/
theorem lists_iff_holdsPlainly (hP : P.FoldsAscii)
    (hbind : ∀ n : ℕ, n ≤ db.bookmarks.rows.length → P.bindable n = true) {userId : ℤ}
    {row : BookmarkRow} (hrow : row ∈ db.bookmarks.rows) (howner : row.userId = userId) {q : Str}
    (hq : Str.strip q ≠ []) : Lists P db userId q row.id ↔
      BookmarkRepository.patternTaken P { q := some q } = true ∧ row.HoldsPlainly P q := by
  have hne : q ≠ [] := by
    rintro rfl
    exact hq rfl
  have hselected : row ∈ BookmarkRepository.applyFilters P db userId { q := some q } ↔
      row.HoldsPlainly P q := by
    rw [BookmarkRepository.applyFilters, List.mem_filter,
      BookmarkRepository.columnsMatch_keyword_iff hP.comparesLowered]
    simp only [BookmarkRepository.truthy, Option.filter_some, hne, ne_eq, not_false_eq_true,
      decide_true, if_true, Option.some.injEq, forall_eq', contains_iff_holdsPlainly hP]
    simp [BookmarkRepository.source, BookmarkRepository.truthy, BookmarkRepository.columnsMatch,
      hrow, howner]
  rw [lists_iff hbind, ← hselected]
  refine and_congr_right fun _ => ?_
  constructor
  · rintro ⟨other, hother, hid⟩
    obtain rfl := db.bookmarks.eq_of_key (List.mem_of_mem_filter hother) hrow hid
    exact hother
  · exact fun h => ⟨row, h, rfl⟩

/-- **When a search ignores letter case**: a bookmark that holds the keyword up to case is listed if
and only if `LIKE` takes the pattern and the bookmark holds the keyword in a piece of which only
`A`–`Z` change case. -/
theorem search_ignores_case_iff (hP : P.FoldsAscii)
    (hbind : ∀ n : ℕ, n ≤ db.bookmarks.rows.length → P.bindable n = true) {userId : ℤ}
    {row : BookmarkRow} (hrow : row ∈ db.bookmarks.rows) (howner : row.userId = userId) {q : Str}
    (hq : Str.strip q ≠ []) :
    (row.Holds P q → Lists P db userId q row.id) ↔
      (row.Holds P q → BookmarkRepository.patternTaken P { q := some q } = true ∧
        row.HoldsPlainly P q) :=
  imp_congr_right fun _ => lists_iff_holdsPlainly hP hbind hrow howner hq

/-- The tables after Alice created a bookmark with a title of one letter. -/
def titled (c : Char) : Db :=
  (Routers.respond Db.twoAccounts ⟨1, 0, .crud (.create (.titled (P := .sqlite) c))⟩).2

/-- The row of that bookmark. -/
def titledRow (c : Char) : BookmarkRow :=
  ⟨1, "https://example.com/".toList, [c], none, 1, .seconds 0, .seconds 0, 1⟩

theorem bindable_titled (c : Char) (n : ℕ) (hn : n ≤ (titled c).bookmarks.rows.length)
    (hlength : (titled c).bookmarks.rows.length = 1) : Platform.sqlite.bindable n = true := by
  simp only [Platform.sqlite, decide_eq_true_eq]
  omega

/-- A keyword in the other case, of a plain letter. -/
theorem search_ignores_case_iff_titled :
    ((titledRow 'A').Holds .sqlite ['a'] →
        Lists .sqlite (titled 'A') 1 ['a'] (titledRow 'A').id) ↔
      ((titledRow 'A').Holds .sqlite ['a'] →
        BookmarkRepository.patternTaken .sqlite { q := some ['a'] } = true ∧
          (titledRow 'A').HoldsPlainly .sqlite ['a']) :=
  search_ignores_case_iff Platform.foldsAscii_sqlite
    (fun n hn => bindable_titled 'A' n hn (by decide +kernel)) (by decide +kernel) rfl (by decide)

/-- **A search for a title as it stands does not find it**: Python lowers `É`, SQLite does not. -/
theorem not_lists_accented :
    titledRow 'É' ∈ (titled 'É').bookmarks.rows ∧ (titledRow 'É').userId = 1 ∧
      Str.strip ['É'] = (titledRow 'É').title ∧ (titledRow 'É').Holds .sqlite ['É'] ∧
      ¬ Lists .sqlite (titled 'É') 1 ['É'] (titledRow 'É').id := by
  refine ⟨by decide +kernel, rfl, by decide, ⟨_, List.mem_cons_self, ['É'], List.infix_rfl, ?_⟩, ?_⟩
  · decide
  · rw [lists_iff fun n hn => bindable_titled 'É' n hn (by decide +kernel)]
    rintro ⟨-, row, hrow, -⟩
    have hnone :
        BookmarkRepository.applyFilters .sqlite (titled 'É') 1 { q := some ['É'] } = [] := by
      decide +kernel
    rw [hnone] at hrow
    cases hrow

end BookmarkService
