import BookmarksApi.Store.Entries
import Mathlib.Data.Finset.Card

/-!
# Store/Reads — lists and statistics see one user's entries

A list joins bookmarks through links to tags, and the statistics join the other way round, over
tables everybody writes to.  What either returns is settled by the entries of one user: the rows a
filter selects are exactly that user's entries that match (`mem_applyFilters`), each once
(`nodup_applyFilters`), and the tags the statistics count are the names in those entries
(`exists_joinedNames`).  So two databases that agree on a user's entries (`AgreeFor`) answer that
user's every read alike.
-/

/-- Outcomes that agree under a map fail alike, or succeed with values that agree. -/
theorem Except.map_eq_map {ε α β : Type*} {f : α → β} {r s : Except ε α} (h : r.map f = s.map f) :
    (∃ x, r = .error x ∧ s = .error x) ∨ ∃ a b, r = .ok a ∧ s = .ok b ∧ f a = f b := by
  rcases r with x | a
  · rcases s with y | b
    · obtain rfl : x = y := Except.error.inj h
      exact Or.inl ⟨x, rfl, rfl⟩
    · cases h
  · rcases s with y | b
    · cases h
    · exact Or.inr ⟨a, b, rfl, rfl, Except.ok.inj h⟩

variable {P : Platform} {db : Db}

/-- Does an entry match a list request's filters? -/
def Entry.matches (P : Platform) (f : BookmarkFilters) (e : Entry) : Bool :=
  BookmarkRepository.columnsMatch P e.row.userId f e.row &&
    (BookmarkRepository.truthy f.tag).all fun tag => decide (P.norm tag ∈ e.tags)

namespace Db

/-- The entry of a row. -/
def entry (db : Db) (row : BookmarkRow) : Entry := ⟨row, db.tagNames row.id⟩

/-- A row of the user is in an entry that the user owns. -/
theorem owned_entry {userId : ℤ} {row : BookmarkRow} (h : row ∈ db.bookmarks.rows)
    (howner : row.userId = userId) :
    Entries.owned db.view userId row.id = some (db.entry row) :=
  Entries.owned_eq_some.mpr ⟨mem_rows_iff.mp h, howner⟩

theorem eq_entry_of_owned {userId bookmarkId : ℤ} {e : Entry}
    (h : Entries.owned db.view userId bookmarkId = some e) :
    e.row ∈ db.bookmarks.rows ∧ e.row.userId = userId ∧ e.row.id = bookmarkId ∧
      e = db.entry e.row := by
  obtain ⟨hview, howner⟩ := Entries.owned_eq_some.mp h
  have hid := id_of_view hview
  refine ⟨mem_of_view hview, howner, hid, Entry.ext rfl ?_⟩
  rw [entry, hid]
  exact (view_eq_some.mp hview).2.symm

end Db

/-! ## Filters -/

namespace BookmarkRepository

/-- The join keeps a bookmark when one of its links leads to a tag of the name asked for. -/
theorem mem_source {tag : Option Str} {row : BookmarkRow} :
    row ∈ source P db tag ↔ row ∈ db.bookmarks.rows ∧
      ∀ t, truthy tag = some t → P.norm t ∈ db.tagNames row.id := by
  rw [source]
  rcases truthy tag with _ | t
  · simp
  · simp only [List.mem_flatMap, List.mem_map, List.mem_filter, decide_eq_true_eq,
      Option.some.injEq, forall_eq', Db.mem_tagNames, Db.Linked]
    constructor
    · rintro ⟨b, hb, ⟨i, j⟩, ⟨hl, rfl⟩, s, ⟨hs, rfl, hname⟩, rfl⟩
      exact ⟨hb, s, hs, hl, hname⟩
    · rintro ⟨hb, s, hs, hl, hname⟩
      exact ⟨row, hb, _, ⟨hl, rfl⟩, s, ⟨hs, rfl, hname⟩, rfl⟩

theorem matches_entry {f : BookmarkFilters} {row : BookmarkRow} :
    (db.entry row).matches P f = true ↔ columnsMatch P row.userId f row = true ∧
      ∀ t, truthy f.tag = some t → P.norm t ∈ db.tagNames row.id := by
  simp only [Entry.matches, Bool.and_eq_true, Option.all_eq_true, decide_eq_true_eq]
  rfl

/-- **The query selects the user's entries that match.** -/
theorem mem_applyFilters {userId : ℤ} {f : BookmarkFilters} {row : BookmarkRow} :
    row ∈ applyFilters P db userId f ↔ ∃ e, Entries.owned db.view userId row.id = some e ∧
      e.row = row ∧ e.matches P f = true := by
  rw [applyFilters, List.mem_filter, mem_source]
  constructor
  · rintro ⟨⟨hmem, htag⟩, hcols⟩
    have howner : row.userId = userId := by
      simp only [columnsMatch, Bool.and_eq_true, decide_eq_true_eq] at hcols
      exact hcols.1.1.1
    exact ⟨_, Db.owned_entry hmem howner, rfl, matches_entry.mpr ⟨howner.symm ▸ hcols, htag⟩⟩
  · rintro ⟨e, hown, rfl, hmatch⟩
    obtain ⟨hmem, howner, -, he⟩ := Db.eq_entry_of_owned hown
    rw [he] at hmatch
    obtain ⟨hcols, htag⟩ := matches_entry.mp hmatch
    exact ⟨⟨hmem, htag⟩, howner ▸ hcols⟩

/-- **The rows under a tag.** -/
theorem mem_applyFilters_tag {userId : ℤ} {name : Str} (hname : name ≠ []) {row : BookmarkRow} :
    row ∈ applyFilters P db userId { tag := some name } ↔
      ∃ e, Entries.owned db.view userId row.id = some e ∧ e.row = row ∧ P.norm name ∈ e.tags := by
  rw [mem_applyFilters]
  refine exists_congr fun e => and_congr_right fun _ => and_congr_right fun _ => ?_
  have htruthy : truthy (some name) = some name := by simp [truthy, hname]
  simp only [Entry.matches, htruthy, columnsMatch]
  simp [truthy]

/-- The joined rows behind a tag filter, of which the query keeps the bookmark. -/
def taggedRows (db : Db) (name : Str) : List (BookmarkRow × LinkRow × TagRow) :=
  db.bookmarks.rows.flatMap fun b =>
    ((db.bookmarkTags.rows.filter fun l => l.bookmarkId = b.id).flatMap fun l =>
      (db.tags.rows.filter fun t => t.id = l.tagId ∧ t.name = name).map (Prod.mk l)).map (Prod.mk b)

theorem nodup_taggedRows (db : Db) (name : Str) : (taggedRows db name).Nodup :=
  Table.nodup_join db.bookmarks.rows_nodup fun _ _ =>
    Table.nodup_join (db.bookmarkTags.rows_nodup.filter _) fun _ _ => db.tags.rows_nodup.filter _

/-- A joined row is a link from its bookmark to its tag. -/
theorem link_of_mem_taggedRows {name : Str} {b : BookmarkRow} {l : LinkRow} {t : TagRow}
    (h : (b, l, t) ∈ taggedRows db name) :
    l = ⟨b.id, t.id⟩ ∧ t ∈ db.tags.rows ∧ t.name = name := by
  simp only [taggedRows, List.mem_flatMap, List.mem_map, List.mem_filter, decide_eq_true_eq] at h
  obtain ⟨_, -, _, ⟨⟨i, j⟩, ⟨-, rfl⟩, s, ⟨hs, rfl, hname⟩, rfl⟩, heq⟩ := h
  cases heq
  exact ⟨rfl, hs, hname⟩

/-- **A join through links to one tag shows a bookmark at most once.** -/
theorem nodup_source (I : db.Integrity) (tag : Option Str) : (source P db tag).Nodup := by
  rw [source]
  rcases truthy tag with _ | t
  · exact db.bookmarks.rows_nodup
  have heq : (db.bookmarks.rows.flatMap fun b =>
      (db.bookmarkTags.rows.filter fun l => l.bookmarkId = b.id).flatMap fun l =>
        (db.tags.rows.filter fun s => s.id = l.tagId ∧ s.name = P.norm t).map fun _ => b)
      = (taggedRows db (P.norm t)).map Prod.fst := by
    simp only [taggedRows, List.map_flatMap, List.map_map, Function.comp_def]
  show (db.bookmarks.rows.flatMap _).Nodup
  rw [heq]
  refine (nodup_taggedRows db (P.norm t)).map_on ?_
  rintro ⟨b, l, s⟩ hx ⟨b', l', s'⟩ hy (rfl : b = b')
  obtain ⟨rfl, hs, hname⟩ := link_of_mem_taggedRows hx
  obtain ⟨rfl, hs', hname'⟩ := link_of_mem_taggedRows hy
  obtain rfl : s = s' := I.eq_of_name hs hs' (hname.trans hname'.symm)
  rfl

/-- **So the query shows none twice.** -/
theorem nodup_applyFilters (I : db.Integrity) (userId : ℤ) (f : BookmarkFilters) :
    (applyFilters P db userId f).Nodup :=
  (nodup_source I f.tag).filter _

/-- The rows a query selects are told apart by their ids. -/
theorem eq_of_id {userId : ℤ} {f : BookmarkFilters} :
    ∀ a ∈ applyFilters P db userId f, ∀ b ∈ applyFilters P db userId f, a.id = b.id → a = b := by
  intro a ha b hb h
  exact db.bookmarks.eq_of_key (mem_source.mp (List.mem_filter.mp ha).1).1
    (mem_source.mp (List.mem_filter.mp hb).1).1 h

/-- **Ids decide.** -/
theorem decides_idDesc {l : List BookmarkRow} (h : ∀ a ∈ l, ∀ b ∈ l, a.id = b.id → a = b) :
    idDesc.Decides l := by
  refine TotalPreorder.decides_key (fun a b hab hba => ?_) h
  simp only [TotalPreorder.reverse, TotalPreorder.ofLinearOrder, decide_eq_true_eq] at hab hba
  exact le_antisymm hba hab

end BookmarkRepository

/-! ## Joins for the statistics -/

/-- Counting the values of a key that tells the members apart counts the members. -/
theorem List.dedup_map_length {α β : Type*} [DecidableEq α] [DecidableEq β] {f : α → β} {l : List α}
    (hf : ∀ a ∈ l, ∀ b ∈ l, f a = f b → a = b) : (l.map f).dedup.length = l.dedup.length := by
  have himage : (l.map f).toFinset = l.toFinset.image f := by
    ext b
    simp
  rw [← List.card_toFinset, ← List.card_toFinset, himage]
  exact Finset.card_image_of_injOn fun a ha b hb => hf a (by simpa using ha) b (by simpa using hb)

theorem List.count_map_of_mem {α β : Type*} [BEq α] [LawfulBEq α] [BEq β] [LawfulBEq β] {f : α → β}
    {l : List α} (hf : ∀ a ∈ l, ∀ b ∈ l, f a = f b → a = b) {a : α} (ha : a ∈ l) :
    (l.map f).count (f a) = l.count a := by
  rw [List.count, List.count, List.countP_map]
  refine List.countP_congr fun b hb => ?_
  simp only [Function.comp_apply, beq_iff_eq]
  exact ⟨hf b hb a ha, congrArg f⟩

namespace StatsRepository

/-- The names the statistics join, one for each link of an owned bookmark. -/
def joinedNames (db : Db) (userId : ℤ) : List Str := (joined db userId).map TagRow.name

theorem mem_owned {userId : ℤ} {row : BookmarkRow} :
    row ∈ owned db userId ↔ row ∈ db.bookmarks.rows ∧ row.userId = userId := by
  simp [owned]

/-- Only stored tags are joined. -/
theorem mem_joined {userId : ℤ} {t : TagRow} : t ∈ joined db userId → t ∈ db.tags.rows := by
  intro ht
  simp only [joined, List.mem_flatMap, List.mem_map] at ht
  obtain ⟨_, hs, _, -, _, -, rfl⟩ := ht
  exact hs

/-- The joined rows behind the statistics, of which the queries keep the tag. -/
def joinedRows (db : Db) (userId : ℤ) : List (TagRow × LinkRow × BookmarkRow) :=
  db.tags.rows.flatMap fun t =>
    ((db.bookmarkTags.rows.filter fun l => l.tagId = t.id).flatMap fun l =>
      ((owned db userId).filter fun b => b.id = l.bookmarkId).map (Prod.mk l)).map (Prod.mk t)

theorem nodup_joinedRows (db : Db) (userId : ℤ) : (joinedRows db userId).Nodup :=
  Table.nodup_join db.tags.rows_nodup fun _ _ =>
    Table.nodup_join (db.bookmarkTags.rows_nodup.filter _) fun _ _ =>
      (db.bookmarks.rows_nodup.filter _).filter _

theorem mem_joinedRows {userId : ℤ} {t : TagRow} {l : LinkRow} {b : BookmarkRow} :
    (t, l, b) ∈ joinedRows db userId ↔ t ∈ db.tags.rows ∧ l = ⟨b.id, t.id⟩ ∧
      l ∈ db.bookmarkTags.rows ∧ b ∈ db.bookmarks.rows ∧ b.userId = userId := by
  simp only [joinedRows, List.mem_flatMap, List.mem_map, List.mem_filter, decide_eq_true_eq,
    mem_owned]
  constructor
  · rintro ⟨s, hs, _, ⟨⟨i, j⟩, ⟨hl, htag⟩, c, ⟨⟨hc, howner⟩, hid⟩, rfl⟩, h⟩
    obtain ⟨rfl, hlc⟩ := Prod.mk.inj h
    obtain ⟨rfl, rfl⟩ := Prod.mk.inj hlc
    exact ⟨hs, LinkRow.key_inj.mp (Prod.ext hid.symm htag), hl, hc, howner⟩
  · rintro ⟨ht, rfl, hl, hb, howner⟩
    exact ⟨t, ht, _, ⟨_, ⟨hl, rfl⟩, b, ⟨⟨hb, howner⟩, rfl⟩, rfl⟩, rfl⟩

/-- An owned entry's name is the name of a joined row. -/
theorem mem_joinedRows_map {userId : ℤ} {n : Str} {i : ℤ} :
    (n, i) ∈ (joinedRows db userId).map (fun x => (x.1.name, x.2.2.id)) ↔
      ∃ e, Entries.owned db.view userId i = some e ∧ n ∈ e.tags := by
  rw [List.mem_map]
  constructor
  · rintro ⟨⟨t, l, b⟩, hx, h⟩
    obtain ⟨ht, hkey, hl, hb, howner⟩ := mem_joinedRows.mp hx
    obtain ⟨rfl, rfl⟩ := Prod.mk.inj h
    exact ⟨_, Db.owned_entry hb howner, Db.mem_tagNames.mpr ⟨t, ht, hkey ▸ hl, rfl⟩⟩
  · rintro ⟨e, hown, hn⟩
    obtain ⟨hb, howner, rfl, he⟩ := Db.eq_entry_of_owned hown
    rw [he] at hn
    obtain ⟨t, ht, hl, rfl⟩ := Db.mem_tagNames.mp hn
    exact ⟨(t, ⟨e.row.id, t.id⟩, e.row), mem_joinedRows.mpr ⟨ht, rfl, hl, hb, howner⟩, rfl⟩

/-- **The statistics join a name once for each entry that has it.** -/
theorem exists_joinedNames (I : db.Integrity) (userId : ℤ) :
    ∃ pairs : List (Str × ℤ), pairs.Nodup ∧ joinedNames db userId = pairs.map Prod.fst ∧
      ∀ n i, (n, i) ∈ pairs ↔ ∃ e, Entries.owned db.view userId i = some e ∧ n ∈ e.tags := by
  refine ⟨(joinedRows db userId).map fun x => (x.1.name, x.2.2.id), ?_, ?_,
    fun _ _ => mem_joinedRows_map⟩
  · refine (nodup_joinedRows db userId).map_on ?_
    rintro ⟨t, l, b⟩ hx ⟨t', l', b'⟩ hy h
    obtain ⟨ht, rfl, -, hb, -⟩ := mem_joinedRows.mp hx
    obtain ⟨ht', rfl, -, hb', -⟩ := mem_joinedRows.mp hy
    obtain ⟨hname, hid⟩ := Prod.mk.inj h
    obtain rfl : t = t' := I.eq_of_name ht ht' hname
    obtain rfl : b = b' := db.bookmarks.eq_of_key hb hb' hid
    rfl
  · simp only [joinedNames, joined, joinedRows, List.map_flatMap, List.map_map, Function.comp_def]

/-- A name is joined from one tag. -/
theorem eq_of_name (I : db.Integrity) (userId : ℤ) :
    ∀ s ∈ joined db userId, ∀ t ∈ joined db userId, s.name = t.name → s = t :=
  fun _ hs _ ht hname => I.eq_of_name (mem_joined hs) (mem_joined ht) hname

/-- **The top tags count names.** -/
theorem mem_tagCounts (I : db.Integrity) {userId : ℤ} {c : TagCount} :
    c ∈ ((joined db userId).dedup.map fun t => (⟨t.name, (joined db userId).count t⟩ : TagCount)) ↔
      c.name ∈ joinedNames db userId ∧ c.count = (joinedNames db userId).count c.name := by
  rw [joinedNames, List.mem_map, List.mem_map]
  constructor
  · rintro ⟨t, ht, rfl⟩
    have hmem := List.mem_dedup.mp ht
    exact ⟨⟨t, hmem, rfl⟩, (List.count_map_of_mem (eq_of_name I userId) hmem).symm⟩
  · rintro ⟨⟨t, ht, hname⟩, hcount⟩
    obtain ⟨name, count⟩ := c
    obtain rfl : t.name = name := hname
    exact ⟨t, List.mem_dedup.mpr ht,
      congrArg (TagCount.mk t.name) ((List.count_map_of_mem (eq_of_name I userId) ht).symm.trans
        hcount.symm)⟩

/-- Each name is counted once. -/
theorem nodup_tagCounts (I : db.Integrity) (userId : ℤ) :
    ((joined db userId).dedup.map fun t =>
      (⟨t.name, (joined db userId).count t⟩ : TagCount)).Nodup := by
  refine (List.nodup_dedup _).map_on fun s hs t ht h => ?_
  exact eq_of_name I userId s (List.mem_dedup.mp hs) t (List.mem_dedup.mp ht)
    (congrArg TagCount.name h)

end StatsRepository

/-! ## Agreement -/

/-- Two databases hold the same entries of a user. -/
def AgreeFor (userId : ℤ) (d₁ d₂ : Db) : Prop :=
  ∀ i, Entries.owned d₁.view userId i = Entries.owned d₂.view userId i

namespace AgreeFor

variable {userId : ℤ} {d₁ d₂ : Db}

theorem refl (userId : ℤ) (d : Db) : AgreeFor userId d d := fun _ => rfl

theorem symm (h : AgreeFor userId d₁ d₂) : AgreeFor userId d₂ d₁ := fun i => (h i).symm

/-- **An entry of the one is an entry of the other.** -/
theorem entry_eq (h : AgreeFor userId d₁ d₂) {row : BookmarkRow} (hrow : row ∈ d₁.bookmarks.rows)
    (howner : row.userId = userId) : row ∈ d₂.bookmarks.rows ∧ d₂.entry row = d₁.entry row := by
  have hown := (h row.id).symm.trans (Db.owned_entry hrow howner)
  obtain ⟨hmem, -, -, he⟩ := Db.eq_entry_of_owned hown
  exact ⟨hmem, he.symm⟩

/-! ### Lists -/

variable (h : AgreeFor userId d₁ d₂) (I₁ : d₁.Integrity) (I₂ : d₂.Integrity)
include h I₁ I₂

/-- **A filter selects the same rows**, if in another order. -/
theorem applyFilters_perm (f : BookmarkFilters) :
    (BookmarkRepository.applyFilters P d₁ userId f).Perm
      (BookmarkRepository.applyFilters P d₂ userId f) := by
  refine (List.perm_ext_iff_of_nodup (BookmarkRepository.nodup_applyFilters I₁ userId f)
    (BookmarkRepository.nodup_applyFilters I₂ userId f)).mpr fun row => ?_
  rw [BookmarkRepository.mem_applyFilters, BookmarkRepository.mem_applyFilters, h row.id]

/-- So `LIKE` has the same rows to compare. -/
theorem runLike_eq (f : BookmarkFilters) :
    BookmarkRepository.runLike P f
        (BookmarkRepository.applyFilters P d₁ userId { f with q := none })
      = BookmarkRepository.runLike P f
          (BookmarkRepository.applyFilters P d₂ userId { f with q := none }) := by
  rw [BookmarkRepository.runLike, BookmarkRepository.runLike,
    (applyFilters_perm h I₁ I₂ { f with q := none }).isEmpty_eq]

/-- It has below a cursor, too. -/
theorem runLike_keyset_eq (f : BookmarkFilters) (cursor : ℤ) :
    BookmarkRepository.runLike P f ((BookmarkRepository.applyFilters P d₁ userId
        { f with q := none }).filter fun b => b.id < cursor)
      = BookmarkRepository.runLike P f ((BookmarkRepository.applyFilters P d₂ userId
          { f with q := none }).filter fun b => b.id < cursor) := by
  rw [BookmarkRepository.runLike, BookmarkRepository.runLike,
    ((applyFilters_perm h I₁ I₂ { f with q := none }).filter _).isEmpty_eq]

/-- **They are as many.** -/
theorem count_eq (f : BookmarkFilters) :
    BookmarkRepository.count P d₁ userId f = BookmarkRepository.count P d₂ userId f := by
  have htotal : BookmarkRepository.total P d₁ userId f = BookmarkRepository.total P d₂ userId f :=
    (((applyFilters_perm h I₁ I₂ f).map BookmarkRow.id).dedup).length_eq
  rw [BookmarkRepository.count, BookmarkRepository.count, runLike_eq h I₁ I₂, htotal]

/-- **Sorted, they come in the same order**: ids break the ties. -/
theorem sort_eq (f : BookmarkFilters) (sort : Str) :
    (BookmarkRepository.sortOrder P sort).sort (BookmarkRepository.applyFilters P d₁ userId f)
      = (BookmarkRepository.sortOrder P sort).sort
          (BookmarkRepository.applyFilters P d₂ userId f) :=
  TotalPreorder.sort_eq_of_perm (applyFilters_perm h I₁ I₂ f)
    (BookmarkRepository.decides_idDesc BookmarkRepository.eq_of_id).lex

theorem sort_keyset_eq (f : BookmarkFilters) (cursor : ℤ) :
    BookmarkRepository.idDesc.sort
        ((BookmarkRepository.applyFilters P d₁ userId f).filter fun b => b.id < cursor)
      = BookmarkRepository.idDesc.sort
          ((BookmarkRepository.applyFilters P d₂ userId f).filter fun b => b.id < cursor) := by
  refine TotalPreorder.sort_eq_of_perm ((applyFilters_perm h I₁ I₂ f).filter _) ?_
  refine BookmarkRepository.decides_idDesc fun a ha b hb => ?_
  exact BookmarkRepository.eq_of_id a (List.mem_filter.mp ha).1 b (List.mem_filter.mp hb).1

/-- Loading the same rows shows the same. -/
theorem load_out_eq {f : BookmarkFilters} {rows : List BookmarkRow}
    (hrows : rows ⊆ BookmarkRepository.applyFilters P d₁ userId f) :
    (BookmarkRepository.load P d₁ rows).map BookmarkOut.ofBookmark
      = (BookmarkRepository.load P d₂ rows).map BookmarkOut.ofBookmark := by
  rw [BookmarkRepository.load, BookmarkRepository.load, List.map_map, List.map_map]
  refine List.map_congr_left fun row hrow => ?_
  have hmem : row ∈ rows := by simpa [BookmarkRepository.unique] using hrow
  obtain ⟨e, hown, rfl, -⟩ := BookmarkRepository.mem_applyFilters.mp (hrows hmem)
  obtain ⟨hmem₁, howner, -, -⟩ := Db.eq_entry_of_owned hown
  have htags : d₂.tagNames e.row.id = d₁.tagNames e.row.id :=
    congrArg Entry.tags (h.entry_eq hmem₁ howner).2
  have hnames : (d₁.tagsOf P e.row.id).map TagRow.name
      = (d₂.tagsOf P e.row.id).map TagRow.name := by
    rw [Db.map_tagsOf I₁, Db.map_tagsOf I₂, htags]
  exact congrArg (fun tags => BookmarkOut.mk e.row.id e.row.url e.row.title e.row.description tags
    e.row.createdAt e.row.updatedAt e.row.version) hnames

/-- A numbered page shows the same. -/
theorem listOffset_eq (f : BookmarkFilters) (sort : Str) (limit offset : ℤ) :
    (BookmarkRepository.listOffset P d₁ userId f sort limit offset).map (List.map .ofBookmark)
      = (BookmarkRepository.listOffset P d₂ userId f sort limit offset).map
          (List.map BookmarkOut.ofBookmark) := by
  rw [BookmarkRepository.listOffset, BookmarkRepository.listOffset, ← sort_eq h I₁ I₂ f sort,
    ← runLike_eq h I₁ I₂]
  rcases BookmarkRepository.bind P [limit, offset] with x | _
  · rfl
  rcases BookmarkRepository.runLike P f _ with x | _
  · rfl
  · refine congrArg Except.ok (load_out_eq h I₁ I₂ (f := f) fun row hrow => ?_)
    exact TotalPreorder.mem_sort.mp (List.mem_of_mem_drop (List.mem_of_mem_take hrow))

/-- A page below a cursor shows the same. -/
theorem listKeyset_eq (f : BookmarkFilters) (cursor limit : ℤ) :
    (BookmarkRepository.listKeyset P d₁ userId f cursor limit).map (List.map .ofBookmark)
      = (BookmarkRepository.listKeyset P d₂ userId f cursor limit).map
          (List.map BookmarkOut.ofBookmark) := by
  rw [BookmarkRepository.listKeyset, BookmarkRepository.listKeyset,
    ← sort_keyset_eq h I₁ I₂ f cursor, ← runLike_keyset_eq h I₁ I₂]
  rcases BookmarkRepository.bind P [cursor, limit] with x | _
  · rfl
  rcases BookmarkRepository.runLike P f _ with x | _
  · rfl
  · refine congrArg Except.ok (load_out_eq h I₁ I₂ (f := f) fun row hrow => ?_)
    exact (List.mem_filter.mp (TotalPreorder.mem_sort.mp (List.mem_of_mem_take hrow))).1

/-- **A user's list is the same.** -/
theorem list_eq (query : ListQuery) :
    (Routers.listBookmarks P d₁ userId query).map Prod.fst
      = (Routers.listBookmarks P d₂ userId query).map Prod.fst := by
  simp only [Routers.listBookmarks, BookmarkService.list, count_eq h I₁ I₂]
  rcases BookmarkRepository.count P d₂ userId _ with x | total
  · rfl
  rcases query.cursor with _ | cursor
  · rcases Except.map_eq_map (listOffset_eq h I₁ I₂ (P := P)
        ⟨query.tag, query.q, query.dateFrom, query.dateTo⟩ query.sort
        (max 1 (min query.perPage BookmarkService.maxPerPage))
        ((query.page - 1) * max 1 (min query.perPage BookmarkService.maxPerPage)))
      with ⟨x, h₁, h₂⟩ | ⟨bs, bs', h₁, h₂, houts⟩
    · simp only [h₁, h₂, bind, Except.bind, Except.map]
    · simp only [h₁, h₂, bind, Except.bind, Except.map, houts]
  · rcases Except.map_eq_map (listKeyset_eq h I₁ I₂ (P := P)
        ⟨query.tag, query.q, query.dateFrom, query.dateTo⟩ cursor
        (max 1 (min query.perPage BookmarkService.maxPerPage) + 1))
      with ⟨x, h₁, h₂⟩ | ⟨bs, bs', h₁, h₂, houts⟩
    · simp only [h₁, h₂, bind, Except.bind, Except.map]
    · have hlen : bs.length = bs'.length := by simpa using congrArg List.length houts
      have hids : ∀ cs : List Bookmark, (cs.getLast?.map fun b => b.row.id)
          = (cs.map BookmarkOut.ofBookmark).getLast?.map BookmarkOut.id := fun cs => by
        rw [List.getLast?_map, Option.map_map]
        rfl
      simp only [h₁, h₂, bind, Except.bind, Except.map, hids, List.map_take, houts, hlen]

/-! ### Statistics -/

omit I₁ I₂ in
/-- The rows behind the totals are the same. -/
theorem owned_perm :
    (StatsRepository.owned d₁ userId).Perm (StatsRepository.owned d₂ userId) := by
  refine (List.perm_ext_iff_of_nodup (d₁.bookmarks.rows_nodup.filter _)
    (d₂.bookmarks.rows_nodup.filter _)).mpr fun row => ?_
  change row ∈ StatsRepository.owned d₁ userId ↔ row ∈ StatsRepository.owned d₂ userId
  rw [StatsRepository.mem_owned, StatsRepository.mem_owned]
  exact ⟨fun ⟨hrow, howner⟩ => ⟨(h.entry_eq hrow howner).1, howner⟩,
    fun ⟨hrow, howner⟩ => ⟨(h.symm.entry_eq hrow howner).1, howner⟩⟩

/-- **The statistics join the same names**, each as often. -/
theorem joinedNames_perm :
    (StatsRepository.joinedNames d₁ userId).Perm (StatsRepository.joinedNames d₂ userId) := by
  obtain ⟨pairs₁, hnd₁, heq₁, hmem₁⟩ := StatsRepository.exists_joinedNames I₁ userId
  obtain ⟨pairs₂, hnd₂, heq₂, hmem₂⟩ := StatsRepository.exists_joinedNames I₂ userId
  rw [heq₁, heq₂]
  refine ((List.perm_ext_iff_of_nodup hnd₁ hnd₂).mpr fun ⟨n, i⟩ => ?_).map Prod.fst
  rw [hmem₁, hmem₂, h i]

/-- So the top tags are the same: names break the ties. -/
theorem topTags_eq :
    (StatsRepository.getStats P d₁ userId).topTags
      = (StatsRepository.getStats P d₂ userId).topTags := by
  have hnames := joinedNames_perm h I₁ I₂
  refine congrArg (List.take 10) (TotalPreorder.sort_eq_of_perm ?_ ?_)
  · refine (List.perm_ext_iff_of_nodup (StatsRepository.nodup_tagCounts I₁ userId)
      (StatsRepository.nodup_tagCounts I₂ userId)).mpr fun c => ?_
    rw [StatsRepository.mem_tagCounts I₁, StatsRepository.mem_tagCounts I₂, hnames.mem_iff,
      hnames.count_eq]
  · refine TotalPreorder.Decides.lex (TotalPreorder.decides_key P.collation_antisymm ?_)
    intro c hc c' hc' hname
    obtain ⟨-, hcount⟩ := (StatsRepository.mem_tagCounts I₁).mp hc
    obtain ⟨-, hcount'⟩ := (StatsRepository.mem_tagCounts I₁).mp hc'
    obtain ⟨name, count⟩ := c
    obtain ⟨name', count'⟩ := c'
    obtain rfl : name = name' := hname
    exact congrArg (TagCount.mk name) (hcount.trans hcount'.symm)

theorem totalTags_eq :
    (StatsRepository.getStats P d₁ userId).totalTags
      = (StatsRepository.getStats P d₂ userId).totalTags := by
  have hnames : ∀ {d : Db}, d.Integrity → (StatsRepository.getStats P d userId).totalTags
      = (StatsRepository.joinedNames d userId).dedup.length := by
    intro d I
    have hid : ∀ s ∈ StatsRepository.joined d userId, ∀ t ∈ StatsRepository.joined d userId,
        s.id = t.id → s = t := fun s hs t ht =>
      d.tags.eq_of_key (StatsRepository.mem_joined hs) (StatsRepository.mem_joined ht)
    exact (List.dedup_map_length hid).trans
      (List.dedup_map_length (StatsRepository.eq_of_name I userId)).symm
  rw [hnames I₁, hnames I₂, (joinedNames_perm h I₁ I₂).dedup.length_eq]

omit I₁ I₂ in
theorem bookmarksPerMonth_eq :
    (StatsRepository.getStats P d₁ userId).bookmarksPerMonth
      = (StatsRepository.getStats P d₂ userId).bookmarksPerMonth := by
  have hmonths := h.owned_perm.map fun b => P.month b.createdAt
  refine TotalPreorder.sort_eq_of_perm ?_ ?_
  · have hcount : (fun m => (⟨m, ((StatsRepository.owned d₁ userId).map fun b =>
        P.month b.createdAt).count m⟩ : MonthCount))
          = fun m => ⟨m, ((StatsRepository.owned d₂ userId).map fun b =>
            P.month b.createdAt).count m⟩ :=
      funext fun m => congrArg (MonthCount.mk m) (hmonths.count_eq m)
    rw [hcount]
    exact hmonths.dedup.map _
  · refine TotalPreorder.decides_key P.collation_antisymm fun c hc c' hc' hmonth => ?_
    obtain ⟨m, -, rfl⟩ := List.mem_map.mp hc
    obtain ⟨m', -, rfl⟩ := List.mem_map.mp hc'
    obtain rfl : m = m' := hmonth
    rfl

/-- **A user's statistics are the same.** -/
theorem getStats_eq :
    StatsRepository.getStats P d₁ userId = StatsRepository.getStats P d₂ userId := by
  have htotal : (StatsRepository.getStats P d₁ userId).totalBookmarks
      = (StatsRepository.getStats P d₂ userId).totalBookmarks := h.owned_perm.length_eq
  have htags := totalTags_eq (P := P) h I₁ I₂
  have htop := topTags_eq (P := P) h I₁ I₂
  have hmonths := bookmarksPerMonth_eq (P := P) h
  generalize StatsRepository.getStats P d₁ userId = s₁ at *
  generalize StatsRepository.getStats P d₂ userId = s₂ at *
  obtain ⟨n, t, top, months⟩ := s₁
  obtain ⟨n', t', top', months'⟩ := s₂
  simp only at htotal htags htop hmonths
  rw [htotal, htags, htop, hmonths]

end AgreeFor
