import BookmarksApi.Sequential.TagStore
import BookmarksApi.Store.Pagination
import BookmarksApi.Store.Search

/-!
# Sequential/TagSearch — a bookmark is found under its tags as they were typed

A client's spelling of a tag goes through `normalize_tags` twice, `get_or_create` and the links on
its way in, and through the `strip().lower()` of the filter when it is searched for.  Whatever the
requests, the two meet: the list under a spelling shows the bookmarks whose last accepted list has
a name of that normal form, each once (`tags_found_as_typed`).
-/

variable {P : Platform}

/-- The names that were made of a raw list are its normal forms. -/
theorem mem_of_normalizeTags {raw names : List Str} (h : normalizeTags P raw = .ok names)
    {name : Str} : name ∈ names ↔ ∃ x ∈ raw, P.norm x ≠ [] ∧ P.norm x = name := by
  obtain ⟨-, hraise⟩ | ⟨-, out, hreturn, hout⟩ := normalizeTags_cases P raw
  · rw [hraise] at h
    cases h
  · obtain rfl : out = names := Except.ok.inj (hreturn.symm.trans h)
    rw [hout.mem, namesOf, List.mem_filter, List.mem_map, decide_eq_true_iff]
    constructor
    · rintro ⟨⟨x, hx, rfl⟩, hne⟩
      exact ⟨x, hx, hne, rfl⟩
    · rintro ⟨x, hx, hne, rfl⟩
      exact ⟨⟨x, hx, rfl⟩, hne⟩

namespace BookmarkRepository

variable {db : Db} {userId : ℤ}

/-- **A filter selects no more rows than there are**: a join shows a bookmark once. -/
theorem length_applyFilters_le (I : db.Integrity) (f : BookmarkFilters) :
    (applyFilters P db userId f).length ≤ db.bookmarks.rows.length := by
  refine (List.subperm_of_subset (nodup_applyFilters I userId f) fun row hrow => ?_).length_le
  obtain ⟨e, hown, rfl, -⟩ := mem_applyFilters.mp hrow
  exact (Db.eq_entry_of_owned hown).1

/-- **The filter selects an owner's bookmark by its tag names.** -/
theorem exists_row_tag_iff {row : BookmarkRow} (hrow : row ∈ db.bookmarks.rows) {f : Str}
    (hf : f ≠ []) :
    (∃ r ∈ applyFilters P db row.userId { tag := some f }, r.id = row.id) ↔
      P.norm f ∈ db.tagNames row.id := by
  have hown := Db.owned_entry hrow rfl
  constructor
  · rintro ⟨r, hr, hid⟩
    obtain ⟨e, he, -, hname⟩ := (mem_applyFilters_tag hf).mp hr
    rw [hid, hown] at he
    rw [← Option.some.inj he] at hname
    exact hname
  · exact fun hname => ⟨row, (mem_applyFilters_tag hf).mpr ⟨_, hown, rfl, hname⟩, rfl⟩

end BookmarkRepository

namespace BookmarkService

variable {db : Db} {userId : ℤ}

/-- The rows on a numbered page. -/
theorem map_row_numbered (I : db.Integrity) {query : ListQuery} {k : ℕ} {page : Page}
    (h : list P db userId (query.numbered k) = .ok page) :
    page.items.map Bookmark.row = Paging.page query.size.toNat k
      (BookmarkRepository.selection P db userId query.filters query.sort) := by
  have hitems : (list P db userId (query.numbered k)).map Page.items = _ := map_items_list rfl
  rw [h] at hitems
  obtain ⟨-, -, hlist⟩ := Except.exists_of_bind_eq_ok hitems.symm
  obtain ⟨-, -, hload⟩ := BookmarkRepository.listOffset_eq_ok.mp hlist
  have hoffset : (((query.numbered k).page - 1) * (query.numbered k).size).toNat
      = k * query.size.toNat := by
    have hsize := query.one_le_size
    obtain ⟨size, heq⟩ := Int.eq_ofNat_of_zero_le (le_trans (by decide : (0 : ℤ) ≤ 1) hsize)
    change (((k : ℤ) + 1 - 1) * query.size).toNat = _
    rw [add_sub_cancel_right, heq, ← Nat.cast_mul, Int.toNat_natCast, Int.toNat_natCast]
  rw [hload, hoffset]
  exact BookmarkRepository.map_row_load (((BookmarkRepository.nodup_selection I query.sort).sublist
    (List.drop_sublist _ _)).sublist (List.take_sublist _ _))

/-- **The pages of a list show no bookmark twice.** -/
theorem nodup_pages (I : db.Integrity) {query : ListQuery} {page : ℕ → Page} {n : ℕ}
    (hpages : ∀ k < n, list P db userId (query.numbered k) = .ok (page k)) :
    ((List.range n).flatMap fun k => (page k).items.map fun b => b.row.id).Nodup := by
  have hrows : (List.range n).flatMap (fun k => (page k).items.map fun b => b.row.id)
      = ((BookmarkRepository.selection P db userId query.filters query.sort).take
          (n * query.size.toNat)).map BookmarkRow.id := by
    rw [← Paging.flatMap_range_page, List.map_flatMap]
    refine List.flatMap_congr fun k hk => ?_
    rw [← map_row_numbered I (hpages k (List.mem_range.mp hk)), List.map_map]
    rfl
  rw [hrows]
  refine List.Nodup.map_on (fun a ha b hb hid => ?_)
    ((BookmarkRepository.nodup_selection I query.sort).sublist (List.take_sublist _ _))
  exact BookmarkRepository.eq_of_id a (TotalPreorder.mem_sort.mp (List.mem_of_mem_take ha)) b
    (TotalPreorder.mem_sort.mp (List.mem_of_mem_take hb)) hid

end BookmarkService

/-- **Tags are found as they were typed**: whatever the requests, the list under a spelling shows a
bookmark if and only if a name of the list accepted last for it has the same normal form, so under
each name of that list that is not blank, and its pages show it once. -/
theorem tags_found_as_typed {db : Db} (I : db.Integrity) (hbookmarks : db.bookmarks.rows = [])
    (htags : db.tags.rows = []) (calls : List (Call (Crud P)))
    (hbind : ∀ n : ℕ, n ≤ (finalState Routers.respondCrud db calls).bookmarks.rows.length →
      P.bindable n = true)
    {row : BookmarkRow} (hrow : row ∈ (finalState Routers.respondCrud db calls).bookmarks.rows)
    {raw names : List Str} (hraw : normalizeTags P raw = .ok names)
    (hlast : acceptedTags db calls row.id = some names) :
    (∀ f ≠ [], BookmarkService.Shows P (finalState Routers.respondCrud db calls) row.userId
        { tag := some f } row.id ↔ ∃ x ∈ raw, P.norm x ≠ [] ∧ P.norm x = P.norm f) ∧
      (∀ x ∈ raw, x ≠ [] → P.norm x ≠ [] →
        BookmarkService.Shows P (finalState Routers.respondCrud db calls) row.userId
          { tag := some x } row.id) ∧
      ∀ (query : ListQuery) (page : ℕ → BookmarkService.Page) (n : ℕ),
        (∀ k < n, BookmarkService.list P (finalState Routers.respondCrud db calls) row.userId
          (query.numbered k) = .ok (page k)) →
        ((List.range n).flatMap fun k => (page k).items.map fun b => b.row.id).Nodup := by
  have hrun := (Tagged.empty (P := P) I hbookmarks htags).run calls
  obtain ⟨names', hnames', -, hset⟩ := hrun.tagStore.names row hrow
  obtain rfl : names' = names := Option.some.inj (hnames'.symm.trans hlast)
  have hfound : ∀ f ≠ [], BookmarkService.Shows P (finalState Routers.respondCrud db calls)
      row.userId { tag := some f } row.id ↔ ∃ x ∈ raw, P.norm x ≠ [] ∧ P.norm x = P.norm f := by
    intro f hf
    rw [BookmarkService.shows_iff (.of_none rfl) fun n hn =>
        hbind n (hn.trans (BookmarkRepository.length_applyFilters_le hrun.integrity _)),
      BookmarkRepository.exists_row_tag_iff hrow hf, hset, List.mem_toFinset,
      mem_of_normalizeTags hraw]
  exact ⟨hfound, fun x hx hne hnorm => (hfound x hne).mpr ⟨x, hx, hnorm, rfl⟩,
    fun query page n hpages => BookmarkService.nodup_pages hrun.integrity hpages⟩

/-- Alice's tag ` Déjà-Vu ` is found under `DÉJÀ-VU`. -/
theorem tags_found_as_typed_accented :
    let payload : BookmarkCreate .sqlite :=
      .tagged "déjà-vu".toList (by decide +kernel)
    let db := finalState Routers.respondCrud Db.twoAccounts [⟨1, 0, .create payload⟩]
    BookmarkService.Shows .sqlite db 1 { tag := some "DÉJÀ-VU".toList } 1 := by
  intro payload db
  have hbookmarks : db.bookmarks.rows
      = [⟨1, "https://example.com/".toList, ['a'], none, 1, .seconds 0, .seconds 0, 1⟩] := by
    decide +kernel
  have hfound := (tags_found_as_typed (P := .sqlite) Db.integrity_twoAccounts rfl rfl
    [⟨1, 0, .create payload⟩] (fun n hn => ?_) (hbookmarks ▸ List.mem_cons_self)
    (show normalizeTags .sqlite [" Déjà-Vu ".toList, "  ".toList] = .ok ["déjà-vu".toList] by
      decide +kernel) (by decide +kernel)).1 "DÉJÀ-VU".toList (by decide)
  · exact hfound.mpr ⟨_, List.mem_cons_self, by decide +kernel, by decide +kernel⟩
  · refine Platform.bindsInt64_sqlite n (Int.natCast_nonneg n) ?_
    have hlength : n ≤ 1 := by
      rw [show (finalState Routers.respondCrud Db.twoAccounts
        [⟨1, 0, .create payload⟩]).bookmarks.rows = _ from hbookmarks] at hn
      exact hn
    omega
