import BookmarksApi.Store.Reads

/-!
# Store/Pages — what one page of a list holds

A page is a stretch of the sorted selection: of a position, for the numbered pages, or of the ids
below a cursor, with one row more to tell whether another page follows.
-/

variable {P : Platform} {db : Db} {userId : ℤ}

/-- The filters of a list request. -/
def ListQuery.filters (query : ListQuery) : BookmarkFilters :=
  ⟨query.tag, query.q, query.dateFrom, query.dateTo⟩

/-- The page size the service settles on. -/
def ListQuery.size (query : ListQuery) : ℤ := max 1 (min query.perPage BookmarkService.maxPerPage)

theorem ListQuery.one_le_size (query : ListQuery) : 1 ≤ query.size := le_max_left _ _

namespace BookmarkRepository

theorem bind_eq_ok {ns : List ℤ} {u : Unit} :
    bind P ns = .ok u ↔ ∀ n ∈ ns, P.bindable n = true := by
  rw [bind, ← List.all_eq_true]
  split <;> simp_all

variable {f : BookmarkFilters} {items : List Bookmark} {u : Unit}

/-- **`LIKE` runs** when it takes the pattern, or has nothing to compare with it. -/
theorem runLike_eq_ok {rows : List BookmarkRow} :
    runLike P f rows = .ok u ↔ patternTaken P f = true ∨ rows = [] := by
  rw [runLike, ← List.isEmpty_iff, ← Bool.or_eq_true]
  split <;> simp_all

/-- **When `LIKE` runs in a search**: it takes the keyword's pattern, or no bookmark of the user
matches the other filters. -/
def LikeRuns (P : Platform) (db : Db) (userId : ℤ) (f : BookmarkFilters) : Prop :=
  patternTaken P f = true ∨
    ∀ i e, Entries.owned db.view userId i = some e → e.matches P { f with q := none } = false

/-- Without a keyword there is nothing to refuse. -/
theorem LikeRuns.of_none (h : f.q = none) : LikeRuns P db userId f := by
  rw [LikeRuns, patternTaken, h]
  exact Or.inl rfl

theorem runLike_applyFilters : runLike P f (applyFilters P db userId { f with q := none }) = .ok u ↔
    LikeRuns P db userId f := by
  rw [runLike_eq_ok, LikeRuns, List.eq_nil_iff_forall_not_mem]
  refine or_congr_right ⟨fun h i e howned => ?_, fun h row hrow => ?_⟩
  · obtain ⟨-, -, rfl, -⟩ := Db.eq_entry_of_owned howned
    refine Bool.eq_false_iff.mpr fun hmatch => h e.row ?_
    exact mem_applyFilters.mpr ⟨e, howned, rfl, hmatch⟩
  · obtain ⟨e, howned, -, hmatch⟩ := mem_applyFilters.mp hrow
    rw [h row.id e howned] at hmatch
    cases hmatch

/-- Below a cursor it runs as well. -/
theorem LikeRuns.below (h : LikeRuns P db userId f) {cursor : ℤ} : patternTaken P f = true ∨
    (applyFilters P db userId { f with q := none }).filter (fun b => b.id < cursor) = [] := by
  rw [← runLike_applyFilters (u := ()), runLike_eq_ok] at h
  refine h.imp_right fun hnone => ?_
  rw [hnone]
  rfl

/-- **The count**, where `LIKE` runs. -/
theorem count_eq_ok {n : ℕ} :
    count P db userId f = .ok n ↔ LikeRuns P db userId f ∧ n = total P db userId f := by
  rw [← runLike_applyFilters (u := ()), count]
  rcases runLike P f _ with x | u <;>
    simp [Bind.bind, Except.bind, eq_comm]

theorem listOffset_eq_ok {sort : Str} {limit offset : ℤ} :
    listOffset P db userId f sort limit offset = .ok items ↔
      (∀ n ∈ [limit, offset], P.bindable n = true) ∧
        LikeRuns P db userId f ∧
        items = load P db ((((sortOrder P sort).sort (applyFilters P db userId f)).drop
          offset.toNat).take limit.toNat) := by
  rw [← bind_eq_ok (u := ()), ← runLike_applyFilters (u := ()), listOffset]
  rcases bind P [limit, offset] with x | u <;>
    rcases runLike P f _ with x | u <;>
      simp [Bind.bind, Except.bind, eq_comm]

/-- The rows a page below a cursor is cut from, newest id first. -/
def below (P : Platform) (db : Db) (userId : ℤ) (f : BookmarkFilters) (cursor : ℤ) :
    List BookmarkRow :=
  idDesc.sort ((applyFilters P db userId f).filter fun b => b.id < cursor)

theorem listKeyset_eq_ok {cursor limit : ℤ} :
    listKeyset P db userId f cursor limit = .ok items ↔
      (∀ n ∈ [cursor, limit], P.bindable n = true) ∧
        (patternTaken P f = true ∨
          (applyFilters P db userId { f with q := none }).filter (fun b => b.id < cursor) = []) ∧
        items = load P db ((below P db userId f cursor).take limit.toNat) := by
  rw [← bind_eq_ok (u := ()), ← runLike_eq_ok (u := ()), listKeyset, below]
  rcases bind P [cursor, limit] with x | u <;>
    rcases runLike P f _ with x | u <;>
      simp [Bind.bind, Except.bind, eq_comm]

/-- Their ids. -/
def idsBelow (P : Platform) (db : Db) (userId : ℤ) (f : BookmarkFilters) (cursor : ℤ) : List ℤ :=
  (below P db userId f cursor).map BookmarkRow.id

/-- **They are those of the entries that match**, up to the cursor. -/
theorem mem_idsBelow {cursor k : ℤ} : k ∈ idsBelow P db userId f cursor ↔
    (∃ e, Entries.owned db.view userId k = some e ∧ e.matches P f = true) ∧ k < cursor := by
  simp only [idsBelow, below, List.mem_map, TotalPreorder.mem_sort, List.mem_filter,
    decide_eq_true_eq, mem_applyFilters]
  constructor
  · rintro ⟨row, ⟨⟨e, howned, rfl, hmatch⟩, hlt⟩, rfl⟩
    exact ⟨⟨e, howned, hmatch⟩, hlt⟩
  · rintro ⟨⟨e, howned, hmatch⟩, hlt⟩
    obtain ⟨-, -, rfl, -⟩ := Db.eq_entry_of_owned howned
    exact ⟨e.row, ⟨⟨e, howned, rfl, hmatch⟩, hlt⟩, rfl⟩

theorem nodup_below (I : db.Integrity) (cursor : ℤ) : (below P db userId f cursor).Nodup :=
  TotalPreorder.nodup_sort.mpr ((nodup_applyFilters I userId f).filter _)

/-- **Each once, the newest first.** -/
theorem pairwise_idsBelow (I : db.Integrity) (cursor : ℤ) :
    (idsBelow P db userId f cursor).Pairwise (· > ·) := by
  have hne : (below P db userId f cursor).Pairwise fun a b => a.id ≠ b.id := by
    refine (nodup_below I cursor).imp_of_mem fun ha hb hne hid => hne ?_
    simp only [below, TotalPreorder.mem_sort, List.mem_filter] at ha hb
    exact eq_of_id _ ha.1 _ hb.1 hid
  have hle : (below P db userId f cursor).Pairwise fun a b => b.id ≤ a.id :=
    (TotalPreorder.pairwise_sort idDesc _).imp of_decide_eq_true
  exact List.pairwise_map.mpr (hle.imp₂ (fun _ _ hle hne => lt_of_le_of_ne hle hne.symm) hne)

/-- **A page of different rows is loaded as it is.** -/
theorem map_row_load {rows : List BookmarkRow} (h : rows.Nodup) :
    (load P db rows).map Bookmark.row = rows := by
  rw [load, unique, (List.nodup_reverse.mpr h).dedup, List.reverse_reverse, List.map_map]
  exact List.map_id rows

theorem mem_map_row_load {rows : List BookmarkRow} {row : BookmarkRow} :
    row ∈ (load P db rows).map Bookmark.row ↔ row ∈ rows := by
  rw [load, unique, List.map_map]
  simp [Bookmark.loaded]

/-- **The ids that `list_keyset` returns.** -/
theorem map_id_listKeyset (I : db.Integrity) {cursor limit : ℤ}
    (h : listKeyset P db userId f cursor limit = .ok items) :
    items.map (fun b => b.row.id) = (idsBelow P db userId f cursor).take limit.toNat := by
  obtain ⟨-, -, rfl⟩ := listKeyset_eq_ok.mp h
  have hnodup : ((below P db userId f cursor).take limit.toNat).Nodup :=
    (nodup_below I cursor).sublist (List.take_sublist _ _)
  calc (load P db ((below P db userId f cursor).take limit.toNat)).map (fun b => b.row.id)
      = ((load P db ((below P db userId f cursor).take limit.toNat)).map Bookmark.row).map
          BookmarkRow.id := List.map_map.symm
    _ = (idsBelow P db userId f cursor).take limit.toNat := by
        rw [map_row_load hnodup, idsBelow, List.map_take]

end BookmarkRepository

namespace BookmarkService

open BookmarkRepository

variable {query : ListQuery}

/-- **A numbered page** shows what `list_offset` returns, once the count is in. -/
theorem map_items_list (hcursor : query.cursor = none) :
    (list P db userId query).map Page.items = (count P db userId query.filters).bind fun _ =>
      listOffset P db userId query.filters query.sort query.size
        ((query.page - 1) * query.size) := by
  simp only [list, hcursor]
  change ((count P db userId query.filters).bind fun _ => (listOffset P db userId query.filters
    query.sort query.size ((query.page - 1) * query.size)).bind _).map _ = _
  rcases count P db userId query.filters with x | total
  · rfl
  rcases listOffset P db userId query.filters query.sort query.size
    ((query.page - 1) * query.size) with x | items <;> rfl

/-- The items of a page below a cursor, and the cursor it hands out: the last id shown, when a row
was found beyond it. -/
def cut (size : ℤ) (rows : List Bookmark) : List Bookmark × Option ℤ :=
  let items := rows.take size.toNat
  (items, if size < rows.length then items.getLast?.map fun b => b.row.id else none)

/-- **A page below a cursor** shows what `list_keyset` returns, up to the look-ahead row. -/
theorem map_cut_list {cursor : ℤ} (hcursor : query.cursor = some cursor) :
    (list P db userId query).map (fun page => (page.items, page.pagination.nextCursor))
      = (count P db userId query.filters).bind fun _ =>
          (listKeyset P db userId query.filters cursor (query.size + 1)).map (cut query.size) := by
  simp only [list, hcursor]
  change ((count P db userId query.filters).bind fun _ =>
    (listKeyset P db userId query.filters cursor (query.size + 1)).bind _).map _ = _
  rcases count P db userId query.filters with x | total
  · rfl
  rcases listKeyset P db userId query.filters cursor (query.size + 1) with x | rows
  · rfl
  · simp only [Except.bind, Except.map, cut, decide_eq_true_eq]
    rfl

variable {cursor : ℤ} {page : Page}

/-- A page below a cursor, from the rows that were selected for it. -/
theorem exists_rows_list (hcursor : query.cursor = some cursor)
    (h : list P db userId query = .ok page) :
    ∃ rows, listKeyset P db userId query.filters cursor (query.size + 1) = .ok rows ∧
      (page.items, page.pagination.nextCursor) = cut query.size rows := by
  have hcut := @map_cut_list P db userId query cursor hcursor
  rw [h] at hcut
  rcases hcount : count P db userId query.filters with x | total
  · rw [hcount] at hcut
    cases hcut
  rw [hcount] at hcut
  rcases hrows : listKeyset P db userId query.filters cursor (query.size + 1) with x | rows
  · rw [hrows] at hcut
    cases hcut
  · rw [hrows] at hcut
    exact ⟨rows, rfl, Except.ok.inj hcut⟩

/-- **It shows the first of the ids below the cursor.** -/
theorem map_id_items_list (I : db.Integrity) (hcursor : query.cursor = some cursor)
    (h : list P db userId query = .ok page) :
    page.items.map (fun b => b.row.id)
      = (idsBelow P db userId query.filters cursor).take query.size.toNat := by
  obtain ⟨rows, hrows, hcut⟩ := exists_rows_list hcursor h
  have hpos := query.one_le_size
  obtain ⟨hitems, -⟩ := Prod.mk.inj hcut
  rw [hitems, List.map_take, map_id_listKeyset I hrows, List.take_take]
  congr 1
  omega

/-- **It hands out the last of them**, when there are others. -/
theorem nextCursor_list (I : db.Integrity) (hcursor : query.cursor = some cursor)
    (h : list P db userId query = .ok page) :
    page.pagination.nextCursor
      = if query.size.toNat < (idsBelow P db userId query.filters cursor).length
        then (page.items.map fun b => b.row.id).getLast? else none := by
  obtain ⟨rows, hrows, hcut⟩ := exists_rows_list hcursor h
  have hpos := query.one_le_size
  obtain ⟨hitems, hnext⟩ := Prod.mk.inj hcut
  have hlength : query.size < rows.length ↔
      query.size.toNat < (idsBelow P db userId query.filters cursor).length := by
    rw [← List.length_map (fun b : Bookmark => b.row.id), map_id_listKeyset I hrows,
      List.length_take]
    omega
  rw [hnext, ← hitems, List.getLast?_map]
  simp only [hlength]

/-- **A page below a cursor is the beginning of what is selected**: all of it when the page hands
out no cursor, and up to the cursor when it hands one out. -/
theorem exists_idsBelow_list (I : db.Integrity) (hcursor : query.cursor = some cursor)
    (h : list P db userId query = .ok page) :
    ∃ rest, idsBelow P db userId query.filters cursor
        = page.items.map (fun b => b.row.id) ++ rest ∧
      (page.pagination.nextCursor = none → rest = []) ∧
      ∀ n, page.pagination.nextCursor = some n →
        ∃ init, page.items.map (fun b => b.row.id) = init ++ [n] := by
  have hitems := map_id_items_list I hcursor h
  have hnext := nextCursor_list I hcursor h
  refine ⟨(idsBelow P db userId query.filters cursor).drop query.size.toNat, ?_, fun hnone => ?_,
    fun n hn => ?_⟩
  · rw [hitems, List.take_append_drop]
  · refine List.drop_eq_nil_of_le (not_lt.mp fun hmore => ?_)
    rw [hnext, if_pos hmore, List.getLast?_eq_none_iff] at hnone
    have hempty := congrArg List.length (hitems.symm.trans hnone)
    have hpos := query.one_le_size
    rw [List.length_nil, List.length_take] at hempty
    omega
  · rw [hnext] at hn
    split_ifs at hn
    exact List.getLast?_eq_some_iff.mp hn

end BookmarkService
