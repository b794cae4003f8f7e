import BookmarksApi.Concurrent.Machine
import BookmarksApi.Machinery.Versioned
import BookmarksApi.Store.Frame

/-!
# Concurrent/Commit — a commit writes what its request loaded

Between the two reads of a request and its commit anything may happen to the bookmark, but an entry
only ever gives way to one of a larger version, or to none.  So what the request loaded is still the
whole entry or has been overtaken (`Loaded`), and the version in the `WHERE` clause tells which: the
commit writes the entry that was loaded, or nothing (`commit_update`, `commit_delete`).
-/

variable {P : Platform}

/-! ## Uncommitted tags -/

namespace Db

variable {db : Db} {ts : List TagRow}

/-- Tags that can join the table. -/
structure Addable (db : Db) (ts : List TagRow) : Prop where
  ids : (ts.map TagRow.id).Nodup
  names : (ts.map TagRow.name).Nodup
  reserved : ∀ t ∈ ts, t.id ≤ db.tagSeq
  fresh : ∀ t ∈ ts, ∀ s ∈ db.tags.rows, s.id ≠ t.id ∧ s.name ≠ t.name

/-- **A transaction sees its own tags**, and otherwise what is committed. -/
theorem addTags_spec (I : db.Integrity) (h : db.Addable ts) :
    (db.addTags ts).Integrity ∧ db.GainsTags (db.addTags ts) ∧
      (db.addTags ts).tags.rows = db.tags.rows ++ ts := by
  have hrows : (db.addTags ts).tags.rows = db.tags.rows ++ ts :=
    Table.rows_insertAll h.ids fun t ht s hs => (h.fresh t ht s hs).1
  refine ⟨⟨I.username, I.email, ?_, I.owner, I.linkBookmark, ?_, I.bookmarkSeq, ?_⟩,
    ⟨rfl, rfl, rfl, by simp [hrows], rfl, le_rfl⟩, hrows⟩
  · rw [hrows, List.map_append, List.nodup_append]
    refine ⟨I.tagName, h.names, ?_⟩
    rintro n hn _ hn' rfl
    obtain ⟨s, hs, rfl⟩ := List.mem_map.mp hn
    obtain ⟨t, ht, hname⟩ := List.mem_map.mp hn'
    exact (h.fresh t ht s hs).2 hname.symm
  · intro l hl
    obtain ⟨t, ht, hid⟩ := I.linkTag l hl
    exact ⟨t, by simp [hrows, ht], hid⟩
  · intro t ht
    rw [hrows, List.mem_append] at ht
    exact ht.elim (I.tagSeq t) (h.reserved t)

theorem mem_addTags (I : db.Integrity) (h : db.Addable ts) {t : TagRow} :
    t ∈ (db.addTags ts).tags.rows ↔ t ∈ db.tags.rows ∨ t ∈ ts := by
  rw [(addTags_spec I h).2.2, List.mem_append]

theorem addable_nil (db : Db) : db.Addable [] := ⟨List.nodup_nil, List.nodup_nil, by simp, by simp⟩

/-- Taking a number of the tags' sequence. -/
theorem Integrity.advanceTagSeq (I : db.Integrity) :
    ({ db with tagSeq := db.tagSeq + 1 } : Db).Integrity :=
  { I with tagSeq := fun t ht => (I.tagSeq t ht).trans (Int.le_add_one le_rfl) }

theorem Addable.advanceTagSeq (h : db.Addable ts) :
    ({ db with tagSeq := db.tagSeq + 1 } : Db).Addable ts :=
  { h with reserved := fun t ht => (h.reserved t ht).trans (Int.le_add_one le_rfl) }

/-- **One more tag can join**: it takes the next number, and a name nobody has. -/
theorem Addable.concat (I : db.Integrity) (h : db.Addable ts) {name : Str}
    (hnew : name ∉ db.tags.rows.map TagRow.name) (hown : name ∉ ts.map TagRow.name) :
    ({ db with tagSeq := db.tagSeq + 1 } : Db).Addable (ts ++ [⟨db.tagSeq + 1, name⟩]) := by
  have hid : db.tagSeq + 1 ∉ ts.map TagRow.id := by
    intro hmem
    obtain ⟨t, ht, hid⟩ := List.mem_map.mp hmem
    have := h.reserved t ht
    omega
  refine ⟨?_, ?_, fun t ht => ?_, fun t ht s hs => ?_⟩
  · rw [List.map_append]
    exact h.ids.append (List.nodup_singleton _) (by simpa using hid)
  · rw [List.map_append]
    exact h.names.append (List.nodup_singleton _) (by simpa using hown)
  · rcases List.mem_append.mp ht with ht | ht
    · exact h.advanceTagSeq.reserved t ht
    · rw [List.mem_singleton.mp ht]
  · rcases List.mem_append.mp ht with ht | ht
    · exact h.fresh t ht s hs
    · obtain rfl := List.mem_singleton.mp ht
      have hle : s.id ≤ db.tagSeq := I.tagSeq s hs
      refine ⟨by simp only; omega, ?_⟩
      rintro rfl
      exact hnew (List.mem_map_of_mem hs)

/-- Tags of another transaction can join after its commit. -/
theorem Addable.commit {db' : Db} {us : List TagRow} (h : db.Addable ts) (hkeeps : db.Keeps db')
    (htags : db'.tags.rows = db.tags.rows ++ us)
    (hapart : ∀ s ∈ us, ∀ t ∈ ts, s.id ≠ t.id ∧ s.name ≠ t.name) : db'.Addable ts where
  ids := h.ids
  names := h.names
  reserved t ht := (h.reserved t ht).trans hkeeps.tagSeq
  fresh t ht s hs := by
    rw [htags, List.mem_append] at hs
    exact hs.elim (h.fresh t ht s) fun hs => hapart s hs t ht

end Db

/-! ## What a history keeps -/

namespace History

/-- The entries now, with the ids that ever had one. -/
def versioned (h : History Db) : Versioned ℤ Entry :=
  ⟨h.now.view, {k | ∃ db ∈ h.states, (db.view k).isSome}⟩

theorem used_push (h : History Db) (db : Db) :
    h.versioned.used ⊆ (h.push db).versioned.used :=
  fun _ ⟨d, hd, hk⟩ => ⟨d, mem_push.mpr (Or.inr hd), hk⟩

/-- **What moves leave of a history**: entries only evolve, tags and accounts stay. -/
structure Advances (h h' : History Db) : Prop where
  states : h.states ⊆ h'.states
  evolves : Versioned.Evolves Entry.version h.versioned h'.versioned
  keeps : h.now.Keeps h'.now

theorem Advances.push {h : History Db} {db : Db}
    (he : Versioned.Evolves Entry.version h.versioned (h.push db).versioned)
    (hk : h.now.Keeps db) : h.Advances (h.push db) :=
  ⟨fun _ hd => mem_push.mpr (Or.inr hd), he, hk⟩

/-- A statement that shows in no entry. -/
theorem Advances.of_view_eq {h : History Db} {db : Db} (hv : db.view = h.now.view)
    (hk : h.now.Keeps db) : h.Advances (h.push db) :=
  .push (.of_cell_eq (h.used_push db) fun k _ => congrFun hv k) hk

end History

/-! ## What a request has read -/

/-- A row that was selected: the bookmark still has it, or has moved on. -/
structure ReadRow (h : History Db) (row : BookmarkRow) : Prop where
  selected : ∃ db ∈ h.states, db.bookmarks.get? row.id = some row
  current : ∀ e, h.now.view row.id = some e → e.row = row ∨ row.version < e.version

/-- The entry that a row and tags show. -/
def Entry.ofRows (row : BookmarkRow) (tags : List TagRow) : Entry :=
  ⟨row, (tags.map TagRow.name).toFinset⟩

/-- **A row and tags that were selected**, one after the other: the bookmark still has them all, or
has moved on. -/
structure Loaded (P : Platform) (h : History Db) (row : BookmarkRow) (tags : List TagRow) :
    Prop where
  selected : ∃ db ∈ h.states, db.bookmarks.get? row.id = some row
  selectedTags : ∃ db ∈ h.states, tags = db.tagsOf P row.id
  stored : ∀ t ∈ tags, t ∈ h.now.tags.rows
  current : ∀ e, h.now.view row.id = some e → e = Entry.ofRows row tags ∨ row.version < e.version

/-- A selected row's id has been used. -/
theorem History.used_of_selected {h : History Db} {row : BookmarkRow}
    (hs : ∃ db ∈ h.states, db.bookmarks.get? row.id = some row) : row.id ∈ h.versioned.used := by
  obtain ⟨db, hdb, hget⟩ := hs
  exact ⟨db, hdb, by rw [Db.view, hget]; rfl⟩

theorem ReadRow.of_get? {h : History Db} {row : BookmarkRow} {k : ℤ}
    (hget : h.now.bookmarks.get? k = some row) : ReadRow h row := by
  obtain rfl : row.id = k := (Table.get?_eq_some.mp hget).2
  have hv : h.now.view row.id = some ⟨row, h.now.tagNames row.id⟩ :=
    Db.view_eq_some.mpr ⟨hget, rfl⟩
  refine ⟨⟨h.now, h.now_mem, hget⟩, fun e he => Or.inl ?_⟩
  exact congrArg Entry.row (Option.some.inj (he.symm.trans hv))

theorem ReadRow.advance {h h' : History Db} (a : h.Advances h') {row : BookmarkRow}
    (r : ReadRow h row) : ReadRow h' row := by
  obtain ⟨db, hdb, hget⟩ := r.selected
  refine ⟨⟨db, a.states hdb, hget⟩, fun e' he' => ?_⟩
  obtain ⟨e, he, heq⟩ := a.evolves.step row.id (History.used_of_selected r.selected) e' he'
  rcases heq with rfl | hlt
  · exact r.current e he
  · rcases r.current e he with rfl | hlt'
    · exact Or.inr hlt
    · exact Or.inr (hlt'.trans hlt)

namespace Loaded

variable {h h' : History Db} {row : BookmarkRow} {tags : List TagRow}

/-- The tags selected after the row. -/
theorem of_readRow (P : Platform) (r : ReadRow h row) : Loaded P h row (h.now.tagsOf P row.id) where
  selected := r.selected
  selectedTags := ⟨h.now, h.now_mem, rfl⟩
  stored t ht := (Db.mem_tagsOf.mp ht).1
  current e he := by
    refine (r.current e he).imp_left fun hrow => ?_
    have hsnap : Snapshot h.now row (h.now.tagsOf P row.id) :=
      Snapshot.of_load P (hrow ▸ (Db.view_eq_some.mp he).1)
    exact Option.some.inj (he.symm.trans hsnap.view)

theorem advance (a : h.Advances h') (l : Loaded P h row tags) : Loaded P h' row tags where
  selected := l.selected.imp fun _ => And.imp_left fun hd => a.states hd
  selectedTags := l.selectedTags.imp fun _ => And.imp_left fun hd => a.states hd
  stored t ht := a.keeps.tags (l.stored t ht)
  current e' he' := by
    obtain ⟨e, he, heq⟩ := a.evolves.step row.id (History.used_of_selected l.selected) e' he'
    rcases heq with rfl | hlt
    · exact l.current e he
    · rcases l.current e he with rfl | hlt'
      · exact Or.inr hlt
      · exact Or.inr (hlt'.trans hlt)

/-- **Under the loaded version the bookmark is as it was loaded.** -/
theorem snapshot (l : Loaded P h row tags)
    (hv : h.now.view row.id = some (Entry.ofRows row tags)) : Snapshot h.now row tags := by
  obtain ⟨db, -, htags⟩ := l.selectedTags
  exact ⟨hv, l.stored, htags ▸ Db.nodup_tagsOf P db row.id⟩

/-- **Otherwise its version is gone.** -/
theorem overtaken (l : Loaded P h row tags)
    (hv : h.now.view row.id ≠ some (Entry.ofRows row tags)) :
    ∀ r, h.now.bookmarks.get? row.id = some r → r.version ≠ row.version := by
  intro r hr
  have he : h.now.view row.id = some ⟨r, h.now.tagNames row.id⟩ := Db.view_eq_some.mpr ⟨hr, rfl⟩
  rcases l.current _ he with heq | hlt
  · exact absurd (heq ▸ he) hv
  · exact (Nat.ne_of_lt hlt).symm

end Loaded

/-! ## Commits -/

namespace Phase

variable {h : History Db} {call : Call (Crud P)} {newTags : Option (List TagRow)}
  {row : BookmarkRow} {tags pending : List TagRow}

/-- **A create commits.** -/
theorem commit_create (I : h.now.Integrity) (hadd : h.now.Addable pending)
    (hreg : h.now.Registered call.user) {payload : BookmarkCreate P}
    (hreq : call.request = .create payload)
    (hnames : newTags.map (List.map TagRow.name) = some payload.tags)
    (hts : ∀ ts, newTags = some ts → ∀ t ∈ ts, t ∈ h.now.tags.rows ∨ t ∈ pending) :
    ∃ db', commit call h.now newTags pending none = some (db', refreshing (h.now.nextId P)) ∧
      db'.tags.rows = h.now.tags.rows ++ pending ∧
      h.now.Writes db' (h.now.nextId P)
        (some (Entry.ofPayload call.now (h.now.nextId P) call.user payload)) := by
  obtain ⟨u, hu⟩ := hreg
  obtain ⟨ts, rfl, hts'⟩ := Option.map_eq_some_iff.mp hnames
  obtain ⟨I₁, G, hrows⟩ := Db.addTags_spec I hadd
  obtain ⟨db', row, hflush, hid, htags, W⟩ := flush_create I I₁ G call.now hu payload hts'
    fun t ht => (Db.mem_addTags I hadd).mpr (hts ts rfl t ht)
  refine ⟨db', ?_, htags ▸ hrows, W⟩
  simp only [commit, hreq, Option.getD_some, hflush, hid]

/-- **An update commits over the entry it loaded, or not at all.** -/
theorem commit_update (I : h.now.Integrity) (hadd : h.now.Addable pending)
    (l : Loaded P h row tags) {payload : BookmarkUpdate P} {bookmarkId : ℤ} {ifMatch : Option Str}
    (hreq : call.request = .update bookmarkId payload ifMatch)
    (hnames : newTags.map (List.map TagRow.name) = payload.tags.join)
    (hts : ∀ ts, newTags = some ts → ∀ t ∈ ts, t ∈ h.now.tags.rows ∨ t ∈ pending) :
    (h.now.view row.id = some (Entry.ofRows row tags) ∧ ∃ db',
      commit call h.now newTags pending (some (.loaded row tags)) = some (db', refreshing row.id) ∧
      db'.tags.rows = h.now.tags.rows ++ pending ∧
      h.now.Writes db' row.id
        (some ((Entry.ofRows row tags).change call.now (Routers.changesOf payload)))) ∨
    (h.now.view row.id ≠ some (Entry.ofRows row tags) ∧
      commit call h.now newTags pending (some (.loaded row tags))
        = some (h.now, conflicted row.id)) := by
  obtain ⟨I₁, G, hrows⟩ := Db.addTags_spec I hadd
  by_cases hv : h.now.view row.id = some (Entry.ofRows row tags)
  · obtain ⟨db', b', hflush, htags, W⟩ := flush_update I I₁ G call.now
      ((l.snapshot hv).gainsTags I G) payload hnames
      fun ts h t ht => (Db.mem_addTags I hadd).mpr (hts ts h t ht)
    refine Or.inl ⟨hv, db', ?_, htags ▸ hrows, W⟩
    simp only [commit, hreq, hflush]
    rfl
  · have hstale : (BookmarkRepository.touch call.now ((Routers.changesOf payload).apply newTags
        (.loaded row tags))).flush (h.now.addTags pending) = .error .staleData :=
      Bookmark.flush_stale rfl (G.bookmarks ▸ l.overtaken hv)
    refine Or.inr ⟨hv, ?_⟩
    simp only [commit, hreq, hstale]
    rfl

/-- **A delete removes the entry it loaded, or nothing.** -/
theorem commit_delete (I : h.now.Integrity) (hadd : h.now.Addable pending)
    (newTags : Option (List TagRow)) (l : Loaded P h row tags) {bookmarkId : ℤ}
    {ifMatch : Option Str} (hreq : call.request = .delete bookmarkId ifMatch) :
    (h.now.view row.id = some (Entry.ofRows row tags) ∧ ∃ db',
      commit call h.now newTags pending (some (.loaded row tags))
        = some (db', done (.ok { status := 204, body := .inl .empty })) ∧
      db'.tags.rows = h.now.tags.rows ++ pending ∧ h.now.Writes db' row.id none) ∨
    (h.now.view row.id ≠ some (Entry.ofRows row tags) ∧
      commit call h.now newTags pending (some (.loaded row tags))
        = some (h.now, conflicted row.id)) := by
  obtain ⟨I₁, G, hrows⟩ := Db.addTags_spec I hadd
  by_cases hv : h.now.view row.id = some (Entry.ofRows row tags)
  · obtain ⟨db', hflush, htags, W⟩ := flush_delete I I₁ G ((l.snapshot hv).gainsTags I G)
    refine Or.inl ⟨hv, db', ?_, htags ▸ hrows, W⟩
    simp only [commit, hreq, hflush]
  · have hstale : (Bookmark.loaded row tags).flushDelete (h.now.addTags pending)
        = .error .staleData := Bookmark.flushDelete_stale (G.bookmarks ▸ l.overtaken hv)
    refine Or.inr ⟨hv, ?_⟩
    simp only [commit, hreq, hstale]
    rfl

end Phase
