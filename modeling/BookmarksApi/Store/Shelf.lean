import BookmarksApi.Store.Cursors

/-!
# Store/Shelf — lists and statistics of a finite set of entries

What a user has is a finite set of entries, the user's *shelf*.  A page and the statistics are
stated over that set alone: filter it, count it, put it in order, cut a page out of it.  That is
what the queries return, with all their joins, their look-ahead row and their loading of tags
(`listBookmarks_shelf`, `getStats_shelf`).
-/

variable {P : Platform} {db : Db} {userId : ℤ}

open scoped Classical in
/-- The entries of a user. -/
noncomputable def Entries.shelf (s : Entries) (userId : ℤ) : Finset Entry :=
  if h : {e : Entry | s.owned userId e.row.id = some e}.Finite then h.toFinset else ∅

namespace Shelf

variable (P) (shelf : Finset Entry)

/-- The entries that match a request's filters. -/
def found (f : BookmarkFilters) : Finset Entry := shelf.filter fun e => e.matches P f = true

/-- The order that a request asks for. -/
def order (sort : Str) : TotalPreorder Entry :=
  (BookmarkRepository.sortOrder P sort).comap Entry.row

/-- Newest id first. -/
def newest : TotalPreorder Entry := BookmarkRepository.idDesc.comap Entry.row

/-- A keyword that is too long is refused, unless no entry matches the other filters. -/
def runLike (f : BookmarkFilters) : Except Exc Unit :=
  if BookmarkRepository.patternTaken P f || (found P shelf { f with q := none }).card = 0
  then .ok () else .error .operational

/-- A numbered page. -/
noncomputable def numbered (query : ListQuery) : Except Exc BookmarkPage := do
  runLike P shelf query.filters
  let found := found P shelf query.filters
  let pages := BookmarkService.totalPages found.card query.perPage
  let offset := (query.page - 1) * query.perPage
  BookmarkRepository.bind P [query.perPage, offset]
  let items := (((order P query.sort).sortSet found).drop offset.toNat).take query.perPage.toNat
  .ok
    { items := items.map (Entry.out P)
      pagination :=
        { page := query.page, perPage := query.perPage, total := found.card, totalPages := pages
          hasNext := decide (query.page < pages), hasPrev := decide (1 < query.page)
          nextCursor := none } }

/-- A page below a cursor. -/
noncomputable def below (query : ListQuery) (cursor : ℤ) : Except Exc BookmarkPage := do
  runLike P shelf query.filters
  let found := found P shelf query.filters
  BookmarkRepository.bind P [cursor, query.perPage + 1]
  let rest := newest.sortSet (found.filter fun e => e.row.id < cursor)
  let items := rest.take query.perPage.toNat
  let more := decide (query.perPage < rest.length)
  .ok
    { items := items.map (Entry.out P)
      pagination :=
        { page := 1, perPage := query.perPage, total := found.card
          totalPages := BookmarkService.totalPages found.card query.perPage
          hasNext := more, hasPrev := false
          nextCursor := if more then items.getLast?.map fun e => e.row.id else none } }

/-- What a list request shows. -/
noncomputable def page (query : ListQuery) : Except Exc BookmarkPage :=
  query.cursor.elim (numbered P shelf query) (below P shelf query)

/-- The number of entries with a tag. -/
def tagged (name : Str) : TagCount := ⟨name, (shelf.filter fun e => name ∈ e.tags).card⟩

/-- The number of entries created in a month. -/
def created (month : Str) : MonthCount :=
  ⟨month, (shelf.filter fun e => P.month e.row.createdAt = month).card⟩

/-- The statistics. -/
noncomputable def stats : Stats where
  totalBookmarks := shelf.card
  totalTags := (shelf.biUnion Entry.tags).card
  topTags := ((StatsRepository.topOrder P).sortSet
    ((shelf.biUnion Entry.tags).image (tagged shelf))).take 10
  bookmarksPerMonth := (P.collation.comap MonthCount.month).sortSet
    ((shelf.image fun e => P.month e.row.createdAt).image (created P shelf))

end Shelf

/-! ## The shelf of a database -/

theorem Db.mem_shelf {e : Entry} : e ∈ Entries.shelf db.view userId ↔
    Entries.owned db.view userId e.row.id = some e := by
  have hfinite : {e : Entry | Entries.owned db.view userId e.row.id = some e}.Finite := by
    refine (List.finite_toSet (db.bookmarks.rows.map db.entry)).subset fun e he => ?_
    obtain ⟨hmem, -, -, hentry⟩ := Db.eq_entry_of_owned he
    exact List.mem_map.mpr ⟨e.row, hmem, hentry.symm⟩
  rw [Entries.shelf, dif_pos hfinite, Set.Finite.mem_toFinset]
  rfl

namespace Shelf

variable (userId)

/-- The rows that a query selects are those of the entries that match. -/
theorem applyFilters_perm (I : db.Integrity) (f : BookmarkFilters) :
    (BookmarkRepository.applyFilters P db userId f).Perm
      ((found P (Entries.shelf db.view userId) f).toList.map Entry.row) := by
  refine (List.perm_ext_iff_of_nodup (BookmarkRepository.nodup_applyFilters I userId f)
    ((Finset.nodup_toList _).map_on ?_)).mpr fun row => ?_
  · intro e he e' he' hrow
    rw [Finset.mem_toList, found, Finset.mem_filter, Db.mem_shelf] at he he'
    rw [hrow] at he
    exact Option.some.inj (he.1.symm.trans he'.1)
  · rw [BookmarkRepository.mem_applyFilters, List.mem_map]
    constructor
    · rintro ⟨e, hown, rfl, hmatch⟩
      refine ⟨e, ?_, rfl⟩
      rw [Finset.mem_toList, found, Finset.mem_filter, Db.mem_shelf]
      exact ⟨hown, hmatch⟩
    · rintro ⟨e, he, rfl⟩
      rw [Finset.mem_toList, found, Finset.mem_filter, Db.mem_shelf] at he
      exact ⟨e, he.1, rfl, he.2⟩

/-- **`LIKE` runs when the shelf's does.** -/
theorem runLike_eq (I : db.Integrity) (f : BookmarkFilters) :
    BookmarkRepository.runLike P f
        (BookmarkRepository.applyFilters P db userId { f with q := none })
      = runLike P (Entries.shelf db.view userId) f := by
  have hempty : (BookmarkRepository.applyFilters P db userId { f with q := none }).isEmpty
      = decide ((found P (Entries.shelf db.view userId) { f with q := none }).card = 0) := by
    rw [(applyFilters_perm userId I { f with q := none }).isEmpty_eq, Bool.eq_iff_iff,
      List.isEmpty_iff_length_eq_zero, List.length_map, Finset.length_toList, decide_eq_true_eq]
  rw [BookmarkRepository.runLike, runLike, hempty]

/-- It does for the filters of a list request. -/
theorem runLike_list (I : db.Integrity) (query : ListQuery) :
    BookmarkRepository.runLike P query.filters (BookmarkRepository.applyFilters P db userId
        ⟨query.tag, none, query.dateFrom, query.dateTo⟩)
      = runLike P (Entries.shelf db.view userId) query.filters := runLike_eq userId I query.filters

/-- **As many are counted.** -/
theorem total_eq (I : db.Integrity) (f : BookmarkFilters) :
    BookmarkRepository.total P db userId f = (found P (Entries.shelf db.view userId) f).card := by
  rw [BookmarkRepository.total, List.dedup_map_length BookmarkRepository.eq_of_id,
    (BookmarkRepository.nodup_applyFilters I userId f).dedup,
    (applyFilters_perm userId I f).length_eq, List.length_map, Finset.length_toList]

/-- **They come in the same order.** -/
theorem sort_eq (I : db.Integrity) (f : BookmarkFilters) (sort : Str) :
    (BookmarkRepository.sortOrder P sort).sort (BookmarkRepository.applyFilters P db userId f)
      = ((order P sort).sortSet (found P (Entries.shelf db.view userId) f)).map Entry.row := by
  rw [TotalPreorder.sortSet, order, TotalPreorder.map_sort_comap]
  exact TotalPreorder.sort_eq_of_perm (applyFilters_perm userId I f)
    (BookmarkRepository.decides_idDesc BookmarkRepository.eq_of_id).lex

/-- **Loaded, they show the entries.** -/
theorem load_eq (I : db.Integrity) {es : List Entry} (hnodup : es.Nodup)
    (hes : ∀ e ∈ es, e ∈ Entries.shelf db.view userId) :
    (BookmarkRepository.load P db (es.map Entry.row)).map BookmarkOut.ofBookmark
      = es.map (Entry.out P) := by
  have hview : ∀ e ∈ es, db.view e.row.id = some e := fun e he =>
    (Entries.owned_eq_some.mp (Db.mem_shelf.mp (hes e he))).1
  have hrows : (es.map Entry.row).Nodup := by
    refine hnodup.map_on fun e he e' he' hrow => ?_
    exact Option.some.inj ((hview e he).symm.trans (hrow ▸ hview e' he'))
  rw [BookmarkRepository.load_eq_map hrows, List.map_map, List.map_map]
  refine List.map_congr_left fun e he => ?_
  exact Body.bookmark.inj (Sum.inl.inj (congrArg Response.body
    (Db.bookmarkResponse_load (P := P) I (hview e he) 200)))

/-- **A numbered page.** -/
theorem list_numbered (I : db.Integrity) {query : ListQuery} (hcursor : query.cursor = none) :
    (BookmarkService.list P db userId query).map (fun p =>
        (⟨p.items.map .ofBookmark, p.pagination⟩ : BookmarkPage))
      = numbered P (Entries.shelf db.view userId) query := by
  have hsize : max 1 (min query.perPage BookmarkService.maxPerPage) = query.perPage := query.size_eq
  have hfilters : (⟨query.tag, query.q, query.dateFrom, query.dateTo⟩ : BookmarkFilters)
      = query.filters := rfl
  simp only [BookmarkService.list, hcursor, hsize, hfilters, BookmarkRepository.listOffset,
    BookmarkRepository.count, numbered, sort_eq userId I, total_eq userId I, runLike_list userId I]
  rcases runLike P (Entries.shelf db.view userId) query.filters with x | _
  · rfl
  rcases BookmarkRepository.bind P [query.perPage, (query.page - 1) * query.perPage] with x | _
  · rfl
  · have hsub := ((List.take_sublist query.perPage.toNat _).trans (List.drop_sublist
      ((query.page - 1) * query.perPage).toNat ((order P query.sort).sortSet
        (found P (Entries.shelf db.view userId) query.filters))))
    have hitems := load_eq (P := P) userId I
      ((TotalPreorder.nodup_sort.mpr (Finset.nodup_toList _)).sublist hsub) fun e he =>
        (Finset.mem_filter.mp (Finset.mem_toList.mp (TotalPreorder.mem_sort.mp (hsub.subset he)))).1
    rw [List.map_take, List.map_drop] at hitems
    exact congrArg (fun items => Except.ok (⟨items, _⟩ : BookmarkPage)) hitems

attribute [ext] TagCount Stats

/-- A listing counts a key as often as the set has members with it. -/
theorem count_map_toList {α β : Type*} [BEq β] [LawfulBEq β] [DecidableEq β] (s : Finset α)
    (f : α → β) (b : β) : (s.toList.map f).count b = (s.filter fun a => f a = b).card := by
  classical
  have hperm : (s.toList.filter fun a => f a = b).Perm (s.filter fun a => f a = b).toList :=
    (List.perm_ext_iff_of_nodup (s.nodup_toList.filter _) (Finset.nodup_toList _)).mpr fun a => by
      simp [List.mem_filter]
  rw [List.count, List.countP_map, ← Finset.length_toList, ← hperm.length_eq,
    ← List.countP_eq_length_filter]
  exact List.countP_congr fun a _ => by simp

/-- The user's rows are those of the entries. -/
theorem owned_perm : (StatsRepository.owned db userId).Perm
    ((Entries.shelf db.view userId).toList.map Entry.row) := by
  refine (List.perm_ext_iff_of_nodup (db.bookmarks.rows_nodup.filter _)
    ((Finset.nodup_toList _).map_on ?_)).mpr fun row => ?_
  · intro e he e' he' hrow
    rw [Finset.mem_toList, Db.mem_shelf] at he he'
    rw [hrow] at he
    exact Option.some.inj (he.symm.trans he')
  · change row ∈ StatsRepository.owned db userId ↔ _
    rw [StatsRepository.mem_owned, List.mem_map]
    constructor
    · rintro ⟨hrow, howner⟩
      exact ⟨db.entry row,
        Finset.mem_toList.mpr (Db.mem_shelf.mpr (Db.owned_entry hrow howner)), rfl⟩
    · rintro ⟨e, he, rfl⟩
      obtain ⟨hrow, howner, -, -⟩ := Db.eq_entry_of_owned
        (Db.mem_shelf.mp (Finset.mem_toList.mp he))
      exact ⟨hrow, howner⟩

/-- The names that the statistics join are those in the entries. -/
theorem mem_joinedNames (I : db.Integrity) {name : Str} :
    name ∈ StatsRepository.joinedNames db userId ↔
      name ∈ (Entries.shelf db.view userId).biUnion Entry.tags := by
  obtain ⟨pairs, -, heq, hmem⟩ := StatsRepository.exists_joinedNames I userId
  rw [heq, List.mem_map, Finset.mem_biUnion]
  constructor
  · rintro ⟨⟨n, i⟩, hpair, rfl⟩
    obtain ⟨e, hown, htag⟩ := (hmem n i).mp hpair
    obtain ⟨-, -, rfl, -⟩ := Db.eq_entry_of_owned hown
    exact ⟨e, Db.mem_shelf.mpr hown, htag⟩
  · rintro ⟨e, he, htag⟩
    exact ⟨⟨name, e.row.id⟩, (hmem _ _).mpr ⟨e, Db.mem_shelf.mp he, htag⟩, rfl⟩

/-- **Each is joined as often as entries have it.** -/
theorem count_joinedNames (I : db.Integrity) (name : Str) :
    (StatsRepository.joinedNames db userId).count name
      = ((Entries.shelf db.view userId).filter fun e => name ∈ e.tags).card := by
  obtain ⟨pairs, hnodup, heq, hmem⟩ := StatsRepository.exists_joinedNames I userId
  have hids : ((pairs.filter fun x => x.1 == name).map Prod.snd).Perm
      (((Entries.shelf db.view userId).filter fun e => name ∈ e.tags).toList.map
        fun e => e.row.id) := by
    refine (List.perm_ext_iff_of_nodup ((hnodup.filter _).map_on ?_)
      ((Finset.nodup_toList _).map_on ?_)).mpr fun i => ?_
    · rintro ⟨n, i⟩ hx ⟨n', i'⟩ hy (rfl : i = i')
      obtain rfl : n = name := eq_of_beq (List.mem_filter.mp hx).2
      obtain rfl : n' = n := eq_of_beq (List.mem_filter.mp hy).2
      rfl
    · intro e he e' he' hid
      rw [Finset.mem_toList, Finset.mem_filter, Db.mem_shelf] at he he'
      rw [hid] at he
      exact Option.some.inj (he.1.symm.trans he'.1)
    · rw [List.mem_map, List.mem_map]
      constructor
      · rintro ⟨⟨n, i⟩, hx, rfl⟩
        obtain ⟨hpair, hn⟩ := List.mem_filter.mp hx
        obtain rfl : n = name := eq_of_beq hn
        obtain ⟨e, hown, htag⟩ := (hmem _ _).mp hpair
        obtain ⟨-, -, rfl, -⟩ := Db.eq_entry_of_owned hown
        exact ⟨e, Finset.mem_toList.mpr (Finset.mem_filter.mpr ⟨Db.mem_shelf.mpr hown, htag⟩), rfl⟩
      · rintro ⟨e, he, rfl⟩
        obtain ⟨hown, htag⟩ := Finset.mem_filter.mp (Finset.mem_toList.mp he)
        exact ⟨_, List.mem_filter.mpr
          ⟨(hmem _ _).mpr ⟨e, Db.mem_shelf.mp hown, htag⟩, beq_self_eq_true _⟩, rfl⟩
  have hlength := hids.length_eq
  rw [List.length_map, List.length_map, Finset.length_toList] at hlength
  rw [← hlength, heq, List.count, List.countP_map, ← List.countP_eq_length_filter]
  rfl

/-- **As many names are joined.** -/
theorem totalTags_eq (I : db.Integrity) : (StatsRepository.getStats P db userId).totalTags
    = ((Entries.shelf db.view userId).biUnion Entry.tags).card := by
  have hid : ∀ s ∈ StatsRepository.joined db userId, ∀ t ∈ StatsRepository.joined db userId,
      s.id = t.id → s = t := fun s hs t ht =>
    db.tags.eq_of_key (StatsRepository.mem_joined hs) (StatsRepository.mem_joined ht)
  have hnames : (StatsRepository.getStats P db userId).totalTags
      = (StatsRepository.joinedNames db userId).dedup.length :=
    (List.dedup_map_length hid).trans
      (List.dedup_map_length (StatsRepository.eq_of_name I userId)).symm
  rw [hnames, ← List.card_toFinset]
  congr 1
  ext name
  rw [List.mem_toFinset, mem_joinedNames userId I]

/-- **The top tags are those of the shelf.** -/
theorem topTags_eq (I : db.Integrity) : (StatsRepository.getStats P db userId).topTags
    = (stats P (Entries.shelf db.view userId)).topTags := by
  refine congrArg (List.take 10) (TotalPreorder.sort_eq_sortSet (fun c c' hle hle' => ?_)
    (StatsRepository.nodup_tagCounts I userId) (Finset.ext fun c => ?_))
  · obtain ⟨hname, hname'⟩ := TotalPreorder.lex_antisymm hle hle'
    refine TagCount.ext (P.collation_antisymm _ _ hname hname') (le_antisymm ?_ ?_)
    · exact of_decide_eq_true (Bool.and_eq_true_iff.mp hle').1
    · exact of_decide_eq_true (Bool.and_eq_true_iff.mp hle).1
  · rw [List.mem_toFinset, StatsRepository.mem_tagCounts I, Finset.mem_image]
    simp only [← mem_joinedNames userId I, count_joinedNames userId I]
    constructor
    · rintro ⟨hname, hcount⟩
      exact ⟨c.name, hname, TagCount.ext rfl hcount.symm⟩
    · rintro ⟨name, hname, rfl⟩
      exact ⟨hname, rfl⟩

variable (P db) in
/-- **So are the months.** -/
theorem bookmarksPerMonth_eq : (StatsRepository.getStats P db userId).bookmarksPerMonth
    = (stats P (Entries.shelf db.view userId)).bookmarksPerMonth := by
  have hmonths : ((StatsRepository.owned db userId).map fun b => P.month b.createdAt).Perm
      ((Entries.shelf db.view userId).toList.map fun e => P.month e.row.createdAt) := by
    have howned : (StatsRepository.owned db userId).Perm _ := owned_perm userId
    have h := howned.map fun b => P.month b.createdAt
    rwa [List.map_map] at h
  refine TotalPreorder.sort_eq_of_perm ((List.perm_ext_iff_of_nodup
    ((List.nodup_dedup _).map fun m m' h => congrArg MonthCount.month h)
      (Finset.nodup_toList _)).mpr fun c => ?_) ?_
  · rw [Finset.mem_toList, Finset.mem_image]
    simp only [List.mem_map, List.mem_dedup, Finset.mem_image, hmonths.mem_iff, hmonths.count_eq,
      count_map_toList, Finset.mem_toList, created]
  · refine TotalPreorder.decides_key P.collation_antisymm fun c hc c' hc' hmonth => ?_
    obtain ⟨m, -, rfl⟩ := List.mem_map.mp hc
    obtain ⟨m', -, rfl⟩ := List.mem_map.mp hc'
    obtain rfl : m = m' := hmonth
    rfl

end Shelf
