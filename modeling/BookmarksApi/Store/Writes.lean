import BookmarksApi.Repositories.Tag
import BookmarksApi.Store.Statements

/-!
# Store/Writes — flushes

A flush runs several statements for one instance, and its effect on the view is one entry: when the
instance still shows its bookmark as it is stored (`Snapshot`), the flush succeeds and writes the
instance's columns and tags; when the version has moved on, it matches no row and fails.
-/

variable {P : Platform} {db : Db}

/-- What went through went through in each part. -/
theorem Except.exists_of_bind_eq_ok {ε α β : Type*} {x : Except ε α} {f : α → Except ε β} {b : β}
    (h : x.bind f = .ok b) : ∃ a, x = .ok a ∧ f a = .ok b := by
  rcases x with e | a
  · cases h
  · exact ⟨a, rfl, h⟩

/-- What failed failed in one of its parts. -/
theorem Except.of_bind_eq_error {ε α β : Type*} {x : Except ε α} {f : α → Except ε β} {e : ε}
    (h : x.bind f = .error e) : x = .error e ∨ ∃ a, x = .ok a ∧ f a = .error e := by
  rcases x with e' | a
  · exact Or.inl (congrArg Except.error (Except.error.inj h))
  · exact Or.inr ⟨a, rfl, h⟩

/-- A row and a list of tags that are the stored bookmark. -/
structure Snapshot (db : Db) (row : BookmarkRow) (tags : List TagRow) : Prop where
  view : db.view row.id = some ⟨row, (tags.map TagRow.name).toFinset⟩
  stored : ∀ t ∈ tags, t ∈ db.tags.rows
  nodup : tags.Nodup

namespace Snapshot

variable {row : BookmarkRow} {tags : List TagRow}

theorem get? (h : Snapshot db row tags) : db.bookmarks.get? row.id = some row :=
  (Db.view_eq_some.mp h.view).1

theorem tagNames (h : Snapshot db row tags) :
    db.tagNames row.id = (tags.map TagRow.name).toFinset :=
  (Db.view_eq_some.mp h.view).2

/-- **Its tags are the linked ones** — the names decide, since a name belongs to one tag. -/
theorem linked_iff (h : Snapshot db row tags) (I : db.Integrity) :
    ∀ t ∈ db.tags.rows, db.Linked row.id t ↔ t ∈ tags := by
  intro t ht
  have hnames : t.name ∈ db.tagNames row.id ↔ t.name ∈ tags.map TagRow.name := by
    rw [h.tagNames, List.mem_toFinset]
  constructor
  · intro hl
    obtain ⟨s, hs, hname⟩ := List.mem_map.mp (hnames.mp (Db.mem_tagNames.mpr ⟨t, ht, hl, rfl⟩))
    exact I.eq_of_name (h.stored s hs) ht hname ▸ hs
  · intro hmem
    obtain ⟨s, hs, hl, hname⟩ := Db.mem_tagNames.mp (hnames.mpr (List.mem_map_of_mem hmem))
    exact I.eq_of_name hs ht hname ▸ hl

/-- What a query loads is the stored bookmark. -/
theorem of_load (P : Platform) {row : BookmarkRow} (h : db.bookmarks.get? row.id = some row) :
    Snapshot db row (db.tagsOf P row.id) where
  view := by
    rw [Db.view_eq_some]
    refine ⟨h, ?_⟩
    exact Db.tagNames_eq_of_linked (fun t ht => (Db.mem_tagsOf.mp ht).1)
      fun t ht => by rw [Db.mem_tagsOf, and_iff_right ht]
  stored t ht := (Db.mem_tagsOf.mp ht).1
  nodup := Db.nodup_tagsOf P db row.id

/-- New tags leave it the stored bookmark. -/
theorem gainsTags {db' : Db} (h : Snapshot db row tags) (I : db.Integrity) (G : db.GainsTags db') :
    Snapshot db' row tags :=
  ⟨G.view_eq I ▸ h.view, fun t ht => G.tags (h.stored t ht), h.nodup⟩

end Snapshot

namespace Db

/-- An entry survives what changes neither its row nor its links. -/
theorem view_congr {db db' : Db} {k : ℤ} (hb : db'.bookmarks.get? k = db.bookmarks.get? k)
    (ht : db'.tags = db.tags)
    (hl : ∀ t ∈ db.tags.rows, db'.Linked k t ↔ db.Linked k t) : db'.view k = db.view k := by
  have htags : db'.tagNames k = db.tagNames k := by
    ext n
    rw [mem_tagNames, mem_tagNames, ht]
    exact exists_congr fun t => and_congr_right fun hmem => and_congr_left' (hl t hmem)
  rw [view, view, hb, htags]

@[simp] theorem deleteLinks_nil (db : Db) (bookmarkId : ℤ) :
    db.deleteLinks bookmarkId [] = .ok db := by
  rw [deleteLinks, if_pos (by simp)]
  refine congrArg Except.ok ?_
  have h : (db.bookmarkTags.filter fun l =>
      ¬ (l.bookmarkId = bookmarkId ∧ l.tagId ∈ ([] : List TagRow).map TagRow.id))
        = db.bookmarkTags :=
    Table.ext (by simp)
  rw [h]

end Db

namespace Bookmark

/-! ## Updating -/

/-- **Flushing an instance that nobody touched does nothing.** -/
theorem flush_loaded (db : Db) (row : BookmarkRow) (tags : List TagRow) :
    (loaded row tags).flush db = .ok (db, loaded row tags) := by
  have hnone : (tags.filter fun t => t ∉ tags) = [] := by simp
  have hdirty : (loaded row tags).dirty = false := by simp [dirty, loaded]
  have hdel : (loaded row tags).removedTags = [] := hnone
  have hadd : (loaded row tags).addedTags = [] := hnone
  simp only [flush, hdirty, hdel, hadd, Db.deleteLinks_nil, Db.insertLinks, bind, Except.bind,
    Bool.false_eq_true, if_false]
  rfl

/-- **The link statements of a flush** leave its bookmark with the instance's tags. -/
theorem relink_ok {b : Bookmark} {row : BookmarkRow} (I : db.Integrity)
    (hget : db.bookmarks.get? b.stored.id = some row)
    (hstored : ∀ t ∈ b.storedTags, t ∈ db.tags.rows)
    (hlinked : ∀ t ∈ db.tags.rows, db.Linked b.stored.id t ↔ t ∈ b.storedTags)
    (htags : ∀ t ∈ b.tags, t ∈ db.tags.rows) (hnd : b.tags.Nodup) :
    ∃ db₁ db₂, db.deleteLinks b.stored.id b.removedTags = .ok db₁ ∧
      db₁.insertLinks b.stored.id b.addedTags = .ok db₂ ∧ db₂.Integrity ∧ db.Keeps db₂ ∧
      db₂.tags = db.tags ∧
      ∀ k, db₂.view k = if k = b.stored.id then some ⟨row, (b.tags.map TagRow.name).toFinset⟩
        else db.view k := by
  obtain ⟨db₁, h₁, I₁, K₁, ht₁, hb₁, hl₁⟩ := Db.deleteLinks_ok I b.stored.id b.removedTags
    (fun t ht => hstored t (List.mem_filter.mp ht).1) fun t ht => by
      have hmem := (List.mem_filter.mp ht).1
      exact (hlinked t (hstored t hmem)).mpr hmem
  have hnew : ∀ t ∈ b.addedTags, ¬ db₁.Linked b.stored.id t := by
    intro t ht hl
    obtain ⟨hmem, hnew⟩ := List.mem_filter.mp ht
    have htd : t ∈ db.tags.rows := htags t hmem
    exact of_decide_eq_true hnew ((hlinked t htd).mp ((hl₁ _ t htd).mp hl).1)
  obtain ⟨db₂, h₂, I₂, K₂, ht₂, hb₂, hl₂⟩ := Db.insertLinks_ok I₁ (hb₁ ▸ hget) b.addedTags
    (fun t ht => ht₁ ▸ htags t (List.mem_filter.mp ht).1) hnew (hnd.filter _)
  have hl : ∀ k t, t ∈ db.tags.rows → (db₂.Linked k t ↔
      (db.Linked k t ∧ ¬ (k = b.stored.id ∧ t ∈ b.removedTags))
        ∨ (k = b.stored.id ∧ t ∈ b.addedTags)) := by
    intro k t ht
    rw [hl₂ k t (ht₁ ▸ ht), hl₁ k t ht]
  have htag : db₂.tags = db.tags := ht₂.trans ht₁
  refine ⟨db₁, db₂, h₁, h₂, I₂, K₁.trans K₂, htag, fun k => ?_⟩
  split
  case isTrue hk =>
    subst hk
    rw [Db.view_eq_some]
    refine ⟨by rw [hb₂, hb₁, hget], ?_⟩
    refine Db.tagNames_eq_of_linked (fun t ht => htag ▸ htags t ht) fun t ht => ?_
    have htd : t ∈ db.tags.rows := htag ▸ ht
    rw [hl _ t htd, hlinked t htd]
    simp only [removedTags, addedTags, List.mem_filter, decide_eq_true_eq, true_and]
    tauto
  case isFalse hk =>
    refine Db.view_congr (by rw [hb₂, hb₁]) htag fun t ht => ?_
    rw [hl k t ht]
    simp [hk]

/-- **A flush over the stored bookmark writes the instance**, one version up. -/
theorem flush_ok {b : Bookmark} (I : db.Integrity) (hs : Snapshot db b.stored b.storedTags)
    (hdirty : b.dirty = true) (hid : b.row.id = b.stored.id)
    (howner : b.row.userId = b.stored.userId) (htags : ∀ t ∈ b.tags, t ∈ db.tags.rows)
    (hnd : b.tags.Nodup) :
    ∃ db', b.flush db = .ok (db', loaded { b.row with version := b.stored.version + 1 } b.tags) ∧
      db'.Integrity ∧ db.Keeps db' ∧ db'.tags = db.tags ∧
      ∀ k, db'.view k = if k = b.stored.id then
        some ⟨{ b.row with version := b.stored.version + 1 }, (b.tags.map TagRow.name).toFinset⟩
        else db.view k := by
  obtain ⟨db₁, h₁, I₁, K₁, ht₁, hl₁, hv₁⟩ := Db.updateBookmark_ok I hs.view rfl hid howner
  have hget₁ : db₁.bookmarks.get? b.stored.id
      = some { b.row with version := b.stored.version + 1 } := by
    have := hv₁ b.stored.id
    rw [if_pos rfl, Db.view_eq_some] at this
    exact this.1
  have hlinked₁ : ∀ t ∈ db₁.tags.rows, db₁.Linked b.stored.id t ↔ t ∈ b.storedTags := by
    intro t ht
    rw [Db.Linked, hl₁]
    exact hs.linked_iff I t (ht₁ ▸ ht)
  obtain ⟨db₂, db₃, h₂, h₃, I₃, K₃, ht₃, hv₃⟩ :=
    relink_ok I₁ hget₁ (ht₁ ▸ hs.stored) hlinked₁ (ht₁ ▸ htags) hnd
  refine ⟨db₃, ?_, I₃, K₁.trans K₃, ht₃.trans ht₁, fun k => ?_⟩
  · simp only [flush, hdirty, if_true, h₁, bind, Except.bind, h₂, h₃]
  · rw [hv₃ k, hv₁ k]
    split_ifs <;> rfl

/-- **A flush whose version is gone matches no row.** -/
theorem flush_stale {b : Bookmark} (hdirty : b.dirty = true)
    (h : ∀ row, db.bookmarks.get? b.stored.id = some row → row.version ≠ b.stored.version) :
    b.flush db = .error .staleData := by
  have hupd : db.updateBookmark b.stored b.row = .error .staleData := Db.updateBookmark_stale h
  simp only [flush, hdirty, if_true, hupd, bind, Except.bind]

/-! ## Deleting -/

theorem flushDelete_ok {b : Bookmark} (I : db.Integrity) (hs : Snapshot db b.stored b.storedTags) :
    ∃ db', b.flushDelete db = .ok db' ∧ db'.Integrity ∧ db.Keeps db' ∧ db'.tags = db.tags ∧
      ∀ k, db'.view k = if k = b.stored.id then none else db.view k := by
  obtain ⟨db₁, h₁, I₁, K₁, ht₁, hb₁, hl₁⟩ := Db.deleteLinks_ok I b.stored.id b.storedTags
    hs.stored fun t ht => (hs.linked_iff I t (hs.stored t ht)).mpr ht
  obtain ⟨db₂, h₂, I₂, K₂, ht₂, hv₂⟩ := Db.deleteBookmark_ok I₁ (hb₁ ▸ hs.get?)
  refine ⟨db₂, ?_, I₂, K₁.trans K₂, ht₂.trans ht₁, fun k => ?_⟩
  · simp only [flushDelete, bind, Except.bind, h₁, h₂]
  · rw [hv₂]
    split
    case isTrue => rfl
    case isFalse hk =>
      exact Db.view_congr (by rw [hb₁]) ht₁ fun t ht => by rw [hl₁ k t ht]; simp [hk]

theorem flushDelete_stale {b : Bookmark}
    (h : ∀ row, db.bookmarks.get? b.stored.id = some row → row.version ≠ b.stored.version) :
    b.flushDelete db = .error .staleData := by
  rw [flushDelete, Db.deleteLinks]
  split_ifs
  · exact Db.deleteBookmark_stale h
  · rfl

end Bookmark

/-! ## Creating -/

/-- **A new bookmark is stored under a new id with its tags.** -/
theorem NewBookmark.flush_ok (P : Platform) (I : db.Integrity) (now : ℤ) {b : NewBookmark}
    {u : UserRow} (hu : db.users.get? b.userId = some u) (htags : ∀ t ∈ b.tags, t ∈ db.tags.rows)
    (hnd : b.tags.Nodup) :
    ∃ db' row, b.flush P now db = .ok (db', row) ∧
      row = db.newRow P now b.url b.title b.description b.userId ∧
      db'.Integrity ∧ db.Keeps db' ∧ db'.tags = db.tags ∧ row.id ≤ db'.bookmarkSeq ∧
      ∀ k, db'.view k = if k = row.id then some ⟨row, (b.tags.map TagRow.name).toFinset⟩
        else db.view k := by
  obtain ⟨db₁, row, h₁, hrow, I₁, K₁, ht₁, hl₁, hseq, hv₁⟩ :=
    Db.insertBookmark_ok P I now b.url b.title b.description hu
  have hnew : db₁.view row.id = some ⟨row, ∅⟩ := by rw [hv₁, if_pos rfl]
  obtain ⟨hget₁, hempty⟩ := Db.view_eq_some.mp hnew
  have hunlinked : ∀ t ∈ db₁.tags.rows, ¬ db₁.Linked row.id t := by
    intro t ht hl
    have hmem : t.name ∈ db₁.tagNames row.id := Db.mem_tagNames.mpr ⟨t, ht, hl, rfl⟩
    rw [hempty] at hmem
    exact Finset.notMem_empty t.name hmem
  obtain ⟨db₂, h₂, I₂, K₂, ht₂, hb₂, hl₂⟩ := Db.insertLinks_ok I₁ hget₁ b.tags
    (fun t ht => ht₁ ▸ htags t ht) (fun t ht => hunlinked t (ht₁ ▸ htags t ht)) hnd
  refine ⟨db₂, row, ?_, hrow, I₂, K₁.trans K₂, ht₂.trans ht₁, hseq.trans K₂.bookmarkSeq,
    fun k => ?_⟩
  · simp only [NewBookmark.flush, bind, Except.bind, h₁, h₂]
  · split
    case isTrue hk =>
      subst hk
      rw [Db.view_eq_some]
      refine ⟨by rw [hb₂, hget₁], ?_⟩
      have hsub : ∀ t ∈ b.tags, t ∈ db₂.tags.rows := fun t ht => by
        rw [ht₂, ht₁]
        exact htags t ht
      refine Db.tagNames_eq_of_linked hsub fun t ht => ?_
      have htd : t ∈ db₁.tags.rows := ht₂ ▸ ht
      rw [hl₂ _ t htd]
      simp [hunlinked t htd]
    case isFalse hk =>
      rw [← (hv₁ k).trans (if_neg hk)]
      exact Db.view_congr (by rw [hb₂]) ht₂ fun t ht => by rw [hl₂ k t ht]; simp [hk]

/-! ## Resolving tags -/

namespace TagRepository

/-- **A missing tag is created**, over a session that has nothing to flush. -/
theorem addTag_ok {held : Option Bookmark}
    (hclean : ∀ db, (⟨db, held⟩ : Session).flush = .ok ⟨db, held⟩) (I : db.Integrity) {name : Str}
    (hnew : ∀ t ∈ db.tags.rows, t.name ≠ name) :
    ∃ db' tag, Session.addTag P ⟨db, held⟩ name = .ok (⟨db', held⟩, tag) ∧ db'.Integrity ∧
      db.GainsTags db' ∧ tag.name = name ∧ db'.tags.rows = db.tags.rows ++ [tag] := by
  obtain ⟨db', hins⟩ := Db.insertTag_ok (P := P) I hnew
  obtain ⟨I', G, -, hrows⟩ := Db.insertTag_spec I hins
  refine ⟨db', _, ?_, I', G, rfl, hrows⟩
  simp only [Session.addTag, hclean, bind, Except.bind, hins]

/-- **The loop of `get_or_create` returns a row for each name**: `byName` has every stored row whose
name is still to come, and the instance the session holds has nothing to flush. -/
theorem resolve_ok {held : Option Bookmark}
    (hclean : ∀ db, (⟨db, held⟩ : Session).flush = .ok ⟨db, held⟩) :
    ∀ (names : List Str) {db : Db} (byName : List TagRow), db.Integrity →
      (∀ t ∈ byName, t ∈ db.tags.rows) →
      (∀ t ∈ db.tags.rows, t.name ∈ names → t ∈ byName) →
      ∃ db' ts, resolve P ⟨db, held⟩ byName names = .ok (⟨db', held⟩, ts) ∧ db'.Integrity ∧
        db.GainsTags db' ∧ ts.map TagRow.name = names ∧ ∀ t ∈ ts, t ∈ db'.tags.rows := by
  intro names
  induction names with
  | nil =>
    intro db _ I _ _
    exact ⟨db, [], rfl, I, Db.GainsTags.refl db, rfl, by simp⟩
  | cons name names ih =>
    intro db byName I hby hall
    have hall' := fun t ht hmem => hall t ht (List.mem_cons_of_mem name hmem)
    rcases hfind : byName.find? fun t => t.name = name with _ | tag
    · -- no row has the name: it is created, and joins `byName`
      have hnew : ∀ t ∈ db.tags.rows, t.name ≠ name := by
        intro t ht hname
        have hmem := hall t ht (hname ▸ List.mem_cons_self)
        simpa [hname] using List.find?_eq_none.mp hfind t hmem
      obtain ⟨db₁, tag, hadd, I₁, G₁, hname, hrows⟩ := addTag_ok (P := P) hclean I hnew
      have hstored : ∀ t, t ∈ db₁.tags.rows ↔ t ∈ db.tags.rows ∨ t = tag := by simp [hrows]
      have hby₁ : ∀ t ∈ tag :: byName, t ∈ db₁.tags.rows :=
        List.forall_mem_cons.mpr ⟨(hstored tag).mpr (Or.inr rfl),
          fun t ht => (hstored t).mpr (Or.inl (hby t ht))⟩
      obtain ⟨db', ts, hres, I', G', hnames, hts⟩ := ih _ I₁ hby₁ fun t ht hmem =>
        List.mem_cons.mpr (((hstored t).mp ht).symm.imp_right fun ht => hall' t ht hmem)
      refine ⟨db', tag :: ts, ?_, I', G₁.trans G', by rw [List.map_cons, hnames, hname], ?_⟩
      · simp only [resolve, hfind, hadd, bind, Except.bind, hres]
      · exact List.forall_mem_cons.mpr ⟨G'.tags (hby₁ _ List.mem_cons_self), hts⟩
    · have htag : tag ∈ byName := List.mem_of_find?_eq_some hfind
      have hname : tag.name = name := by simpa using List.find?_some hfind
      obtain ⟨db', ts, hres, I', G', hnames, hts⟩ := ih byName I hby hall'
      refine ⟨db', tag :: ts, ?_, I', G', by rw [List.map_cons, hnames, hname], ?_⟩
      · simp only [resolve, hfind, bind, Except.bind, hres]
      · exact List.forall_mem_cons.mpr ⟨G'.tags (hby _ htag), hts⟩

/-- **`get_or_create` returns a row for each name**, and adds nothing but tags. -/
theorem getOrCreate_ok (P : Platform) (held : Option Bookmark)
    (hclean : ∀ db, (⟨db, held⟩ : Session).flush = .ok ⟨db, held⟩) (I : db.Integrity)
    (names : List Str) :
    ∃ db' ts, getOrCreate P ⟨db, held⟩ names = .ok (⟨db', held⟩, ts) ∧ db'.Integrity ∧
      db.GainsTags db' ∧ ts.map TagRow.name = names ∧ ∀ t ∈ ts, t ∈ db'.tags.rows := by
  by_cases hnil : names = []
  · subst hnil
    exact ⟨db, [], rfl, I, Db.GainsTags.refl db, rfl, by simp⟩
  · obtain ⟨db', ts, h⟩ := resolve_ok (P := P) hclean names («existing» db names) I
      (fun t ht => (List.mem_filter.mp ht).1)
      fun t ht hname => List.mem_filter.mpr ⟨ht, by simpa using hname⟩
    refine ⟨db', ts, ?_, h.2⟩
    rw [getOrCreate, if_neg hnil]
    exact h.1

end TagRepository
