import BookmarksApi.Reachable.States
import BookmarksApi.Store.Pagination

/-!
# Reachable/Statistics — the statistics and the list endpoint count the same

The statistics are four aggregates written in SQL, over joins that start from the tags; a list's
total comes from the ORM's filters, over joins that start from the bookmarks.  A name is joined as
often as the list under that tag counts (`count_joinedNames`), so in every reachable state the
statistics are what the list endpoint's totals say (`stats_agree_with_lists`).
-/

variable {P : Platform} {db : Db} {userId : ℤ}

theorem ListQuery.one_le_twenty : (1 : ℤ) ≤ 20 := by decide

theorem ListQuery.twenty_le_hundred : (20 : ℤ) ≤ 100 := by decide

/-- A list request with a tag, or none, and nothing else. -/
def ListQuery.tagged (tag : Option Str) : ListQuery where
  tag := tag
  q := none
  dateFrom := none
  dateTo := none
  page := 1
  perPage := 20
  sort := "-created_at".toList
  cursor := none
  pageGe := one_le_one
  perPageGe := one_le_twenty
  perPageLe := twenty_le_hundred
  cursorGe := one_le_none

/-- The total that the list endpoint reports. -/
def listTotal (P : Platform) (db : Db) (userId : ℤ) (tag : Option Str) : Except Exc ℕ :=
  (BookmarkService.list P db userId (.tagged tag)).map fun page => page.pagination.total

/-- **A name of the user's tags**: in the spelling in which tags are stored, and the list under it
is not empty. -/
def UserTag (P : Platform) (db : Db) (userId : ℤ) (name : Str) : Prop :=
  P.norm name = name ∧ name ≠ [] ∧
    ∃ total, listTotal P db userId (some name) = .ok total ∧ 0 < total

/-- A name goes before another: its list is longer, or as long and the name comes first. -/
def Ranks (P : Platform) (db : Db) (userId : ℤ) (name name' : Str) : Prop :=
  ∃ total total', listTotal P db userId (some name) = .ok total ∧
    listTotal P db userId (some name') = .ok total' ∧
    (total' < total ∨ total' = total ∧ P.collation.le name name' = true ∧ name ≠ name')

/-- **The statistics agree with the list endpoint**: `names` are the names of the user's tags, in
order. -/
structure AgreesWithLists (P : Platform) (db : Db) (userId : ℤ) (names : List Str)
    (stats : Stats) : Prop where
  totalBookmarks : listTotal P db userId none = .ok stats.totalBookmarks
  nodup : names.Nodup
  mem : ∀ name, name ∈ names ↔ UserTag P db userId name
  spelled : ∀ name total, name ≠ [] → listTotal P db userId (some name) = .ok total → 0 < total →
    P.norm name ∈ names
  ranked : names.Pairwise (Ranks P db userId)
  totalTags : stats.totalTags = names.length
  topTags : stats.topTags.map TagCount.name = names.take (min 10 stats.totalTags)
  counts : ∀ c ∈ stats.topTags, listTotal P db userId (some c.name) = .ok c.count
  months : stats.bookmarksPerMonth.Pairwise fun a b =>
    P.collation.le a.month b.month = true ∧ a.month ≠ b.month
  monthCounts : ∀ c ∈ stats.bookmarksPerMonth, 0 < c.count
  monthsTotal : (stats.bookmarksPerMonth.map MonthCount.count).sum = stats.totalBookmarks

/-! ## One tag -/

/-- **A list's total is the count**: its limit and its offset can be bound. -/
theorem listTotal_eq (hbind : P.BindsInt64) (I : db.Integrity) (tag : Option Str) :
    listTotal P db userId tag
      = .ok (BookmarkRepository.total P db userId ⟨tag, none, none, none⟩) := by
  have hoffset : ((0 : ℕ) : ℤ) * (ListQuery.tagged tag).perPage < 2 ^ 63 := by
    rw [Nat.cast_zero, zero_mul]
    decide
  change (BookmarkService.list P db userId ((ListQuery.tagged tag).numbered 0)).map _ = _
  rw [BookmarkService.list_numbered hbind I (.of_none rfl) hoffset]
  exact congrArg Except.ok (BookmarkRepository.length_selection I _)

/-- **A name is joined as often as the list under it counts.** -/
theorem count_joinedNames (I : db.Integrity) {name : Str} (hname : name ≠ []) :
    (StatsRepository.joinedNames db userId).count (P.norm name)
      = BookmarkRepository.total P db userId ⟨some name, none, none, none⟩ := by
  obtain ⟨pairs, hnodup, heq, hmem⟩ := StatsRepository.exists_joinedNames I userId
  have hids : ((pairs.filter fun x => x.1 == P.norm name).map Prod.snd).Perm
      ((BookmarkRepository.applyFilters P db userId ⟨some name, none, none, none⟩).map
        BookmarkRow.id) := by
    refine (List.perm_ext_iff_of_nodup ?_ ?_).mpr fun i => ?_
    · refine (hnodup.filter _).map_on ?_
      rintro ⟨n, i⟩ hx ⟨n', i'⟩ hy (rfl : i = i')
      obtain rfl : n = P.norm name := eq_of_beq (List.mem_filter.mp hx).2
      obtain rfl : n' = P.norm name := eq_of_beq (List.mem_filter.mp hy).2
      rfl
    · exact (BookmarkRepository.nodup_applyFilters I userId _).map_on BookmarkRepository.eq_of_id
    · rw [List.mem_map, List.mem_map]
      constructor
      · rintro ⟨⟨n, i⟩, hx, rfl⟩
        obtain ⟨hpair, hn⟩ := List.mem_filter.mp hx
        obtain rfl : n = P.norm name := eq_of_beq hn
        obtain ⟨e, hown, htag⟩ := (hmem _ _).mp hpair
        obtain ⟨-, -, rfl, -⟩ := Db.eq_entry_of_owned hown
        exact ⟨e.row, (BookmarkRepository.mem_applyFilters_tag hname).mpr ⟨e, hown, rfl, htag⟩, rfl⟩
      · rintro ⟨row, hrow, rfl⟩
        obtain ⟨e, hown, rfl, htag⟩ := (BookmarkRepository.mem_applyFilters_tag hname).mp hrow
        exact ⟨_, List.mem_filter.mpr ⟨(hmem _ _).mpr ⟨e, hown, htag⟩, beq_self_eq_true _⟩, rfl⟩
  calc (StatsRepository.joinedNames db userId).count (P.norm name)
      = ((pairs.filter fun x => x.1 == P.norm name).map Prod.snd).length := by
        rw [heq, List.length_map, List.count, List.countP_map, ← List.countP_eq_length_filter]
        rfl
    _ = _ := by
        rw [hids.length_eq, BookmarkRepository.total, List.length_map,
          List.dedup_map_length BookmarkRepository.eq_of_id,
          (BookmarkRepository.nodup_applyFilters I userId _).dedup]

namespace StatsRepository

/-- The tags of a user with their numbers, in order. -/
def ranking (P : Platform) (db : Db) (userId : ℤ) : List TagCount :=
  (topOrder P).sort ((joined db userId).dedup.map fun t => ⟨t.name, (joined db userId).count t⟩)

theorem mem_ranking (I : db.Integrity) {c : TagCount} : c ∈ ranking P db userId ↔
    c.name ∈ joinedNames db userId ∧ c.count = (joinedNames db userId).count c.name := by
  rw [ranking, TotalPreorder.mem_sort, mem_tagCounts I]

/-- **The ranking has the names that are joined.** -/
theorem mem_names_ranking (I : db.Integrity) {name : Str} :
    name ∈ (ranking P db userId).map TagCount.name ↔ name ∈ joinedNames db userId := by
  rw [List.mem_map]
  constructor
  · rintro ⟨c, hc, rfl⟩
    exact ((mem_ranking I).mp hc).1
  · exact fun hname =>
      ⟨⟨name, (joinedNames db userId).count name⟩, (mem_ranking I).mpr ⟨hname, rfl⟩, rfl⟩

theorem length_ranking (P : Platform) (db : Db) (userId : ℤ) :
    (ranking P db userId).length = ((joined db userId).map TagRow.id).dedup.length := by
  rw [ranking, (TotalPreorder.sort_perm _ _).length_eq, List.length_map, List.dedup_map_length]
  exact fun s hs t ht => db.tags.eq_of_key (mem_joined hs) (mem_joined ht)

theorem nodup_names_ranking (I : db.Integrity) :
    ((ranking P db userId).map TagCount.name).Nodup := by
  refine (TotalPreorder.nodup_sort.mpr (nodup_tagCounts I userId)).map_on fun c hc c' hc' h => ?_
  obtain ⟨name, count⟩ := c
  obtain ⟨name', count'⟩ := c'
  obtain rfl : name = name' := h
  exact congrArg (TagCount.mk name)
    (((mem_ranking I).mp hc).2.trans ((mem_ranking I).mp hc').2.symm)

/-- **The ranking is in order**, strictly. -/
theorem pairwise_ranking (I : db.Integrity) :
    (ranking P db userId).Pairwise fun c c' => c'.count < c.count ∨
      c'.count = c.count ∧ P.collation.le c.name c'.name = true ∧ c.name ≠ c'.name := by
  refine ((TotalPreorder.pairwise_sort (topOrder P) _).and
    (List.pairwise_map.mp (nodup_names_ranking I))).imp ?_
  rintro c c' ⟨hle, hne⟩
  simp only [topOrder, TotalPreorder.lex, TotalPreorder.comap, TotalPreorder.reverse,
    TotalPreorder.ofLinearOrder, Bool.and_eq_true, Bool.or_eq_true, Bool.not_eq_true',
    decide_eq_true_eq, decide_eq_false_iff_not] at hle
  obtain ⟨hcount, htie⟩ := hle
  obtain hlt | heq := lt_or_eq_of_le hcount
  · exact Or.inl hlt
  · exact Or.inr ⟨heq, htie.resolve_left (not_not.mpr heq.ge), hne⟩

/-- The names that are joined are normal. -/
theorem norm_of_mem_joinedNames (hdb : db.NormalNames P) {name : Str}
    (h : name ∈ joinedNames db userId) : P.norm name = name ∧ name ≠ [] := by
  obtain ⟨t, ht, rfl⟩ := List.mem_map.mp h
  have hnormal := hdb t (mem_joined ht)
  exact ⟨by rw [Platform.norm, hnormal.strip, hnormal.lower], hnormal.nonempty⟩

section

variable (P : Platform) (db : Db) (userId : ℤ)

/-- The month of each bookmark. -/
def bookmarkMonths : List Str := (owned db userId).map fun b => P.month b.createdAt

theorem months_perm : (getStats P db userId).bookmarksPerMonth.Perm
    ((bookmarkMonths P db userId).dedup.map fun m => ⟨m, (bookmarkMonths P db userId).count m⟩) :=
  TotalPreorder.sort_perm _ _

/-- **The months are in order**, strictly. -/
theorem pairwise_months : (getStats P db userId).bookmarksPerMonth.Pairwise fun a b =>
    P.collation.le a.month b.month = true ∧ a.month ≠ b.month := by
  have hmonths : ((getStats P db userId).bookmarksPerMonth.map MonthCount.month).Nodup := by
    rw [((months_perm P db userId).map MonthCount.month).nodup_iff, List.map_map]
    exact (List.map_id _).symm ▸ List.nodup_dedup _
  exact (TotalPreorder.pairwise_sort _ _).and (List.pairwise_map.mp hmonths)

/-- Each month has bookmarks. -/
theorem monthCount_pos {c : MonthCount} (hc : c ∈ (getStats P db userId).bookmarksPerMonth) :
    0 < c.count := by
  obtain ⟨m, hm, rfl⟩ := List.mem_map.mp ((months_perm P db userId).mem_iff.mp hc)
  exact List.count_pos_iff.mpr (List.mem_dedup.mp hm)

/-- **All months together have all bookmarks.** -/
theorem sum_months : ((getStats P db userId).bookmarksPerMonth.map MonthCount.count).sum
    = (owned db userId).length := by
  have hlength : (bookmarkMonths P db userId).length = (owned db userId).length :=
    List.length_map _
  rw [((months_perm P db userId).map MonthCount.count).sum_eq, List.map_map, ← hlength]
  -- `count` compares texts letter by letter here, and by their decidable equality there.
  have hcount : ∀ m, (bookmarkMonths P db userId).count m
      = @List.count Str instBEqOfDecidableEq m (bookmarkMonths P db userId) :=
    fun m => List.countP_congr fun b _ => by simp
  simp only [Function.comp_def, hcount]
  exact List.sum_map_count_dedup_eq_length _

end

end StatsRepository

/-- The list without filters counts the user's bookmarks. -/
theorem count_unfiltered : BookmarkRepository.total P db userId {}
    = (StatsRepository.owned db userId).length := by
  have hrows : BookmarkRepository.applyFilters P db userId {}
      = StatsRepository.owned db userId := by
    refine List.filter_congr fun b _ => ?_
    simp [BookmarkRepository.columnsMatch, BookmarkRepository.truthy]
  have hnodup : (StatsRepository.owned db userId).Nodup := db.bookmarks.rows_nodup.filter _
  rw [BookmarkRepository.total, List.dedup_map_length BookmarkRepository.eq_of_id, hrows,
    hnodup.dedup]

/-! ## Agreement -/

open StatsRepository

/-- **The list under a name counts how often it is joined.** -/
theorem listTotal_some (hbind : P.BindsInt64) (I : db.Integrity) {name : Str} (hname : name ≠ []) :
    listTotal P db userId (some name) = .ok ((joinedNames db userId).count (P.norm name)) := by
  rw [listTotal_eq hbind I, count_joinedNames I hname]

/-- **The names of the user's tags are the names that are joined.** -/
theorem mem_joinedNames_iff (hbind : P.BindsInt64) (I : db.Integrity) (hdb : db.NormalNames P)
    {name : Str} : name ∈ joinedNames db userId ↔ UserTag P db userId name := by
  constructor
  · intro hmem
    obtain ⟨hnorm, hname⟩ := norm_of_mem_joinedNames hdb hmem
    have hpos : 0 < (joinedNames db userId).count (P.norm name) := by
      rw [hnorm]
      exact List.count_pos_iff.mpr hmem
    exact ⟨hnorm, hname, _, listTotal_some hbind I hname, hpos⟩
  · rintro ⟨hnorm, hname, total, htotal, hpos⟩
    obtain rfl := Except.ok.inj ((listTotal_some hbind I hname).symm.trans htotal)
    rw [hnorm] at hpos
    exact List.count_pos_iff.mp hpos

/-- **The statistics agree with the list endpoint**, in every state that the service can reach. -/
theorem stats_agree_with_lists (hbind : P.BindsInt64) (hdb : Reachable P db) (userId : ℤ) :
    ∃ names, AgreesWithLists P db userId names (StatsRepository.getStats P db userId) := by
  obtain ⟨I, hnames⟩ := hdb.stored
  have hranked : ∀ c ∈ ranking P db userId, listTotal P db userId (some c.name) = .ok c.count := by
    intro c hc
    obtain ⟨hmem, hcount⟩ := (mem_ranking I).mp hc
    obtain ⟨hnorm, hname⟩ := norm_of_mem_joinedNames hnames hmem
    rw [listTotal_some hbind I hname, hnorm, hcount]
  refine ⟨(ranking P db userId).map TagCount.name, {
    totalBookmarks := ?_
    nodup := nodup_names_ranking I
    mem := fun name => (mem_names_ranking I).trans (mem_joinedNames_iff hbind I hnames)
    spelled := fun name total hname htotal hpos => ?_
    ranked := ?_
    totalTags := ?_
    topTags := ?_
    counts := fun c hc => hranked c (List.mem_of_mem_take hc)
    months := pairwise_months P db userId
    monthCounts := fun c hc => monthCount_pos P db userId hc
    monthsTotal := sum_months P db userId }⟩
  · rw [listTotal_eq hbind I, count_unfiltered]
    rfl
  · obtain rfl := Except.ok.inj ((listTotal_some hbind I hname).symm.trans htotal)
    exact (mem_names_ranking I).mpr (List.count_pos_iff.mp hpos)
  · rw [List.pairwise_map]
    refine (pairwise_ranking I).imp_of_mem fun {c c'} hc hc' h => ?_
    exact ⟨c.count, c'.count, hranked c hc, hranked c' hc', h⟩
  · rw [List.length_map, length_ranking]
    rfl
  · have hlength : (StatsRepository.getStats P db userId).totalTags
        = ((ranking P db userId).map TagCount.name).length := by
      rw [List.length_map, length_ranking]
      rfl
    rw [hlength, ← List.take_eq_take_min, List.map_take.symm]
    rfl

theorem normalizeTags_tagged : normalizeTags .sqlite ["x".toList] = .ok ["x".toList] := by
  decide +kernel

/-- Alice registers, and adds a bookmark with a tag. -/
theorem stats_agree_with_lists_tagged :
    let alice : UserRow := ⟨1, "alice".toList, "alice@example.com".toList, [], .seconds 0⟩
    let payload : BookmarkCreate .sqlite := .tagged "x".toList normalizeTags_tagged
    let db := (Routers.respond (Db.accounts ⟨[alice], List.nodup_singleton _⟩)
      ⟨1, 0, .crud (.create payload)⟩).2
    (getStats .sqlite db 1).topTags = [⟨"x".toList, 1⟩] ∧
      ∃ names, AgreesWithLists .sqlite db 1 names (getStats .sqlite db 1) := by
  intro alice payload db
  have hregister : AuthService.register .sqlite 0 (.accounts Table.empty) alice.username
      alice.email [] = .ok (.accounts ⟨[alice], List.nodup_singleton _⟩, alice) := by
    decide +kernel
  have hdb : Reachable .sqlite db := .answered (.registered .empty hregister) _
  exact ⟨by decide +kernel, stats_agree_with_lists Platform.bindsInt64_sqlite hdb 1⟩
