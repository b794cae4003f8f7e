import BookmarksApi.Store.Entries

/-!
# Store/Frame — what a statement leaves alone

Writing a bookmark or its links leaves `users` and `tags` as they are, whatever the tables hold
(`Db.SameTags`).  New rows of `tags` come from `get_or_create` alone, under the names it is given
(`Routers.tagsFrom_crud`).
-/

variable {P : Platform} {db db' : Db}

namespace Db

/-- Accounts and tags are as they were. -/
structure SameTags (db db' : Db) : Prop where
  users : db'.users = db.users
  tags : db'.tags = db.tags
  tagSeq : db'.tagSeq = db.tagSeq

theorem SameTags.refl (db : Db) : db.SameTags db := ⟨rfl, rfl, rfl⟩

/-- Leaving them alone twice leaves them alone. -/
theorem SameTags.trans {db'' : Db} (h : db.SameTags db') (h' : db'.SameTags db'') :
    db.SameTags db'' :=
  ⟨h'.users.trans h.users, h'.tags.trans h.tags, h'.tagSeq.trans h.tagSeq⟩

/-! ## Bookmarks and links -/

/-- A new row of `bookmarks` touches no other table. -/
theorem sameTags_insertBookmark {now : ℤ} {url title : Str} {description : Option Str} {userId : ℤ}
    {row : BookmarkRow}
    (h : db.insertBookmark P now url title description userId = .ok (db', row)) :
    db.SameTags db' := by
  rw [insertBookmark] at h
  split_ifs at h
  split at h
  · cases h
  · cases h
    exact ⟨rfl, rfl, rfl⟩

/-- Nor does a link, though its foreign keys read two. -/
theorem sameTags_insertLink {bookmarkId tagId : ℤ} (h : db.insertLink bookmarkId tagId = .ok db') :
    db.SameTags db' := by
  rw [insertLink] at h
  split_ifs at h
  split at h
  · cases h
  · cases h
    exact ⟨rfl, rfl, rfl⟩

/-- Several links, one after the other. -/
theorem sameTags_insertLinks {bookmarkId : ℤ} {ts : List TagRow}
    (h : db.insertLinks bookmarkId ts = .ok db') : db.SameTags db' := by
  induction ts generalizing db with
  | nil =>
    cases h
    exact .refl _
  | cons t ts ih =>
    obtain ⟨db₁, hlink, h⟩ := Except.exists_of_bind_eq_ok h
    exact (sameTags_insertLink hlink).trans (ih h)

theorem sameTags_deleteLinks {bookmarkId : ℤ} {ts : List TagRow}
    (h : db.deleteLinks bookmarkId ts = .ok db') : db.SameTags db' := by
  rw [deleteLinks] at h
  split_ifs at h
  cases h
  exact ⟨rfl, rfl, rfl⟩

/-- An `UPDATE` that finds its row rewrites that row alone. -/
theorem sameTags_updateBookmark {stored cur : BookmarkRow}
    (h : db.updateBookmark stored cur = .ok db') : db.SameTags db' := by
  rw [updateBookmark] at h
  split at h
  · cases h
  · split_ifs at h
    cases h
    exact ⟨rfl, rfl, rfl⟩

/-- A `DELETE` that finds its row takes the row and, by the cascade, its links. -/
theorem sameTags_deleteBookmark {stored : BookmarkRow} (h : db.deleteBookmark stored = .ok db') :
    db.SameTags db' := by
  rw [deleteBookmark] at h
  split at h
  · cases h
  · split_ifs at h
    cases h
    exact ⟨rfl, rfl, rfl⟩

end Db

/-! ## Flushes -/

/-- **Flushing a new bookmark** inserts a row and links. -/
theorem NewBookmark.sameTags_flush {now : ℤ} {b : NewBookmark} {row : BookmarkRow}
    (h : b.flush P now db = .ok (db', row)) : db.SameTags db' := by
  obtain ⟨⟨db₁, row₁⟩, hrow, h⟩ := Except.exists_of_bind_eq_ok h
  obtain ⟨db₂, hlinks, h⟩ := Except.exists_of_bind_eq_ok h
  cases h
  exact (Db.sameTags_insertBookmark hrow).trans (Db.sameTags_insertLinks hlinks)

/-- **Flushing an update** writes a row when a column has changed, and links. -/
theorem Bookmark.sameTags_flush {b b' : Bookmark} (h : b.flush db = .ok (db', b')) :
    db.SameTags db' := by
  rw [flush] at h
  split_ifs at h with hdirty
  · obtain ⟨db₁, hrow, h⟩ := Except.exists_of_bind_eq_ok h
    obtain ⟨db₂, hdelete, h⟩ := Except.exists_of_bind_eq_ok h
    obtain ⟨db₃, hinsert, h⟩ := Except.exists_of_bind_eq_ok h
    cases h
    exact (Db.sameTags_updateBookmark hrow).trans
      ((Db.sameTags_deleteLinks hdelete).trans (Db.sameTags_insertLinks hinsert))
  · obtain ⟨db₁, hrow, h⟩ := Except.exists_of_bind_eq_ok h
    obtain rfl := Except.ok.inj hrow
    obtain ⟨db₂, hdelete, h⟩ := Except.exists_of_bind_eq_ok h
    obtain ⟨db₃, hinsert, h⟩ := Except.exists_of_bind_eq_ok h
    cases h
    exact (Db.sameTags_deleteLinks hdelete).trans (Db.sameTags_insertLinks hinsert)

/-- **Flushing a delete** takes the links and the row away. -/
theorem Bookmark.sameTags_flushDelete {b : Bookmark} (h : b.flushDelete db = .ok db') :
    db.SameTags db' := by
  obtain ⟨db₁, hlinks, h⟩ := Except.exists_of_bind_eq_ok h
  exact (Db.sameTags_deleteLinks hlinks).trans (Db.sameTags_deleteBookmark h)

/-! ### What a flush raises -/

/-- The errors of a statement that writes. -/
def Exc.IsRefusal (x : Exc) : Prop := x = .integrityError ∨ x = .staleData

/-- A link that cannot be inserted breaks a constraint. -/
theorem Db.isRefusal_insertLinks {bookmarkId : ℤ} {ts : List TagRow} {x : Exc}
    (h : db.insertLinks bookmarkId ts = .error x) : x.IsRefusal := by
  induction ts generalizing db with
  | nil => cases h
  | cons t ts ih =>
    rcases Except.of_bind_eq_error h with h | ⟨db₁, -, h⟩
    · rw [insertLink] at h
      split_ifs at h
      · exact Or.inl (Except.error.inj h).symm
      · split at h
        · exact Or.inl (Except.error.inj h).symm
        · cases h
    · exact ih h

/-- A link that is gone already makes the session's data stale. -/
theorem Db.isRefusal_deleteLinks {bookmarkId : ℤ} {ts : List TagRow} {x : Exc}
    (h : db.deleteLinks bookmarkId ts = .error x) : x.IsRefusal := by
  rw [deleteLinks] at h
  split_ifs at h
  exact Or.inr (Except.error.inj h).symm

/-- **The flush of a new bookmark fails on a constraint**: its user, its tags, its number. -/
theorem NewBookmark.isRefusal_flush {now : ℤ} {b : NewBookmark} {x : Exc}
    (h : b.flush P now db = .error x) : x.IsRefusal := by
  rcases Except.of_bind_eq_error h with h | ⟨⟨db₁, row⟩, -, h⟩
  · rw [Db.insertBookmark] at h
    split_ifs at h
    · exact Or.inl (Except.error.inj h).symm
    · split at h
      · exact Or.inl (Except.error.inj h).symm
      · cases h
  · rcases Except.of_bind_eq_error h with h | ⟨db₂, -, h⟩
    · exact Db.isRefusal_insertLinks h
    · cases h

/-- **That of a delete, on a row or a link that is gone.** -/
theorem Bookmark.isRefusal_flushDelete {b : Bookmark} {x : Exc} (h : b.flushDelete db = .error x) :
    x.IsRefusal := by
  rcases Except.of_bind_eq_error h with h | ⟨db₁, -, h⟩
  · exact Db.isRefusal_deleteLinks h
  · rw [Db.deleteBookmark] at h
    split at h
    · exact Or.inr (Except.error.inj h).symm
    · split_ifs at h
      exact Or.inr (Except.error.inj h).symm

/-- **That of an update, on any of these.** -/
theorem Bookmark.isRefusal_flush {b : Bookmark} {x : Exc} (h : b.flush db = .error x) :
    x.IsRefusal := by
  have hlinks : ∀ {db₁ : Db} {f : Db → Except Exc (Db × Bookmark)} (_ : ∀ db₂, f db₂ ≠ .error x),
      ((db₁.deleteLinks b.stored.id b.removedTags).bind fun db₂ =>
        (db₂.insertLinks b.stored.id b.addedTags).bind f) = .error x → x.IsRefusal := by
    intro db₁ f hf h
    rcases Except.of_bind_eq_error h with h | ⟨db₂, -, h⟩
    · exact Db.isRefusal_deleteLinks h
    · rcases Except.of_bind_eq_error h with h | ⟨db₃, -, h⟩
      · exact Db.isRefusal_insertLinks h
      · exact absurd h (hf db₃)
  rw [flush] at h
  split_ifs at h with hdirty
  · rcases Except.of_bind_eq_error h with h | ⟨db₁, -, h⟩
    · rw [Db.updateBookmark] at h
      split at h
      · exact Or.inr (Except.error.inj h).symm
      · split_ifs at h
        exact Or.inr (Except.error.inj h).symm
    · exact hlinks (fun _ h => by cases h) h
  · rcases Except.of_bind_eq_error h with h | ⟨db₁, -, h⟩
    · cases h
    · exact hlinks (fun _ h => by cases h) h

/-- Translating errors makes no success of one. -/
theorem Except.of_mapError_eq_ok {ε ε' α : Type*} {f : ε → ε'} {x : Except ε α} {a : α}
    (h : x.mapError f = .ok a) : x = .ok a := by
  rcases x with e | b
  · cases h
  · exact congrArg Except.ok (Except.ok.inj h)

/-- `update` flushes, and then only reads. -/
theorem BookmarkRepository.sameTags_update {now : ℤ} {b b' : Bookmark}
    (h : update P now db b = .ok (db', b')) : db.SameTags db' := by
  obtain ⟨⟨db₁, b₁⟩, hflush, h⟩ := Except.exists_of_bind_eq_ok h
  obtain ⟨b₂, -, h⟩ := Except.exists_of_bind_eq_ok h
  cases h
  exact Bookmark.sameTags_flush (Except.of_mapError_eq_ok hflush)

theorem BookmarkRepository.sameTags_delete {b : Bookmark} (h : delete db b = .ok db') :
    db.SameTags db' := Bookmark.sameTags_flushDelete (Except.of_mapError_eq_ok h)

/-! ## New tags -/

/-- The tags there were, and others of some names. -/
def Db.TagsFrom (db : Db) (names : List Str) (db' : Db) : Prop :=
  ∀ t ∈ db'.tags.rows, t ∈ db.tags.rows ∨ t.name ∈ names

namespace Db.TagsFrom

variable {names : List Str}

/-- No new tag is of any names. -/
theorem refl (db : Db) (names : List Str) : db.TagsFrom names db := fun _ ht => Or.inl ht

/-- Writes that leave the tags alone may follow. -/
theorem sameTags {db'' : Db} (h : db.TagsFrom names db') (h' : db'.SameTags db'') :
    db.TagsFrom names db'' := fun t ht => h t (h'.tags ▸ ht)

end Db.TagsFrom

/-- A tag that is added has the name it was added for, and the flush before it adds none. -/
theorem Session.tagsFrom_addTag {s s' : Session} {name : Str} {t : TagRow}
    (h : s.addTag P name = .ok (s', t)) : s.db.TagsFrom [name] s'.db := by
  obtain ⟨s₁, hflush, h⟩ := Except.exists_of_bind_eq_ok h
  obtain ⟨⟨db₂, tag⟩, hinsert, h⟩ := Except.exists_of_bind_eq_ok h
  cases h
  have hsame : s.db.SameTags s₁.db := by
    rw [Session.flush] at hflush
    split at hflush
    · cases hflush
      exact .refl _
    · obtain ⟨⟨db₁, b₁⟩, hb, hflush⟩ := Except.exists_of_bind_eq_ok hflush
      cases hflush
      exact Bookmark.sameTags_flush hb
  rw [Db.insertTag] at hinsert
  split_ifs at hinsert
  rcases hins : s₁.db.tags.insert? (Db.newTag P s₁.db name) with _ | tags
  · rw [hins] at hinsert
    cases hinsert
  rw [hins] at hinsert
  cases hinsert
  intro u hu
  rw [Table.rows_of_insert? hins, hsame.tags, List.mem_append, List.mem_singleton] at hu
  exact hu.imp_right fun hu => by rw [hu]; exact List.mem_singleton_self name

namespace TagRepository

/-- Each name of a list is looked up or added. -/
theorem tagsFrom_resolve : ∀ (names : List Str) {s s' : Session} {byName ts : List TagRow},
    resolve P s byName names = .ok (s', ts) → s.db.TagsFrom names s'.db := by
  intro names
  induction names with
  | nil =>
    intro s s' byName ts h
    cases h
    exact .refl _ []
  | cons name names ih =>
    intro s s' byName ts h
    rw [resolve] at h
    split at h
    · obtain ⟨⟨s₁, result⟩, hres, h⟩ := Except.exists_of_bind_eq_ok h
      cases h
      exact fun t ht => (ih hres t ht).imp_right (List.mem_cons_of_mem name)
    · obtain ⟨⟨s₁, tag⟩, hadd, h⟩ := Except.exists_of_bind_eq_ok h
      obtain ⟨⟨s₂, result⟩, hres, h⟩ := Except.exists_of_bind_eq_ok h
      cases h
      intro t ht
      rcases ih hres t ht with ht | hname
      · refine (Session.tagsFrom_addTag hadd t ht).imp_right fun hname => ?_
        exact List.mem_singleton.mp hname ▸ List.mem_cons_self
      · exact Or.inr (List.mem_cons_of_mem name hname)

/-- **`get_or_create` adds tags of the names it is given.** -/
theorem tagsFrom_getOrCreate {names : List Str} {s s' : Session} {ts : List TagRow}
    (h : getOrCreate P s names = .ok (s', ts)) : s.db.TagsFrom names s'.db := by
  rw [getOrCreate] at h
  split_ifs at h
  · cases h
    exact .refl _ names
  · exact tagsFrom_resolve names h

end TagRepository

/-! ## Requests -/

/-- The tag names a request gives its bookmark. -/
def Crud.names : Crud P → Option (List Str)
  | .create payload => some payload.tags
  | .update _ payload _ => payload.tags.join
  | _ => none

/-- They are normalized. -/
theorem Crud.normalized_names {c : Crud P} {names : List Str} (h : c.names = some names) :
    Normalized P names := by
  cases c with
  | create payload =>
    obtain ⟨raw, hraw⟩ := payload.tagsNormalized
    exact Option.some.inj h ▸ normalized_of_normalizeTags hraw
  | update bookmarkId payload ifMatch =>
    obtain ⟨raw, hraw⟩ := payload.tagsNormalized names (Option.join_eq_some_iff.mp h)
    exact normalized_of_normalizeTags hraw
  | get => cases h
  | delete => cases h

namespace BookmarkService

variable {now userId bookmarkId : ℤ}

/-- A create adds tags of its own names, before it writes the bookmark. -/
theorem tagsFrom_create {url title : Str} {description : Option Str} {tags : List Str}
    {b : Bookmark}
    (hnorm : Normalized P tags)
    (h : create P now db userId url title description tags = .ok (db', b)) :
    db.TagsFrom tags db' := by
  obtain ⟨names, hnames, h⟩ := Except.exists_of_bind_eq_ok h
  obtain rfl := Except.ok.inj ((normalizeTags_normalized hnorm).symm.trans hnames)
  obtain ⟨⟨s, ts⟩, hget, h⟩ := Except.exists_of_bind_eq_ok h
  obtain ⟨⟨db₁, row⟩, hflush, h⟩ := Except.exists_of_bind_eq_ok h
  obtain ⟨b', -, h⟩ := Except.exists_of_bind_eq_ok h
  cases h
  exact (TagRepository.tagsFrom_getOrCreate hget).sameTags (NewBookmark.sameTags_flush hflush)

/-- An update does when it was given a list of tags, and adds none otherwise. -/
theorem tagsFrom_resolveTags {s s' : Session} {changes : Changes} {newTags : Option (List TagRow)}
    (hnorm : ∀ tags, changes.tags.join = some tags → Normalized P tags)
    (h : resolveTags P s changes = .ok (s', newTags)) :
    s.db.TagsFrom (changes.tags.join.getD []) s'.db := by
  rw [resolveTags] at h
  rcases htags : changes.tags.join with _ | tags
  · rw [htags] at h
    cases h
    exact .refl _ _
  · rw [htags] at h
    obtain ⟨names, hnames, h⟩ := Except.exists_of_bind_eq_ok h
    obtain rfl := Except.ok.inj ((normalizeTags_normalized (hnorm tags htags)).symm.trans hnames)
    obtain ⟨⟨s₁, ts⟩, hget, h⟩ := Except.exists_of_bind_eq_ok h
    cases h
    exact TagRepository.tagsFrom_getOrCreate hget

/-- What follows in an update adds none. -/
theorem tagsFrom_update {changes : Changes} {ifMatch : Option Str} {b : Bookmark}
    (hnorm : ∀ tags, changes.tags.join = some tags → Normalized P tags)
    (h : update P now db userId bookmarkId changes ifMatch = .ok (db', b)) :
    db.TagsFrom (changes.tags.join.getD []) db' := by
  obtain ⟨b₀, -, h⟩ := Except.exists_of_bind_eq_ok h
  obtain ⟨_, -, h⟩ := Except.exists_of_bind_eq_ok h
  obtain ⟨⟨s, newTags⟩, hresolve, h⟩ := Except.exists_of_bind_eq_ok h
  have htags := tagsFrom_resolveTags hnorm hresolve
  simp only at h
  split at h
  · obtain ⟨etag, -, h⟩ := Except.exists_of_bind_eq_ok h
    cases h
  · exact htags.sameTags (BookmarkRepository.sameTags_update h)

/-- A delete resolves no tags. -/
theorem sameTags_delete {ifMatch : Option Str}
    (h : delete P db userId bookmarkId ifMatch = .ok db') :
    db.SameTags db' := by
  obtain ⟨b, -, h⟩ := Except.exists_of_bind_eq_ok h
  obtain ⟨_, -, h⟩ := Except.exists_of_bind_eq_ok h
  split at h
  · obtain ⟨etag, -, h⟩ := Except.exists_of_bind_eq_ok h
    cases h
  · exact BookmarkRepository.sameTags_delete h

end BookmarkService

namespace Routers

/-- **A request adds tags of the names it gives its bookmark.** -/
theorem tagsFrom_crud {now userId : ℤ} {c : Crud P} {r : Response Body}
    (h : crud now db userId c = .ok (r, db')) : db.TagsFrom (c.names.getD []) db' := by
  cases c with
  | create payload =>
    obtain ⟨⟨db₁, b⟩, hcreate, h⟩ := Except.exists_of_bind_eq_ok h
    cases h
    exact BookmarkService.tagsFrom_create (Crud.normalized_names (c := .create payload) rfl) hcreate
  | get bookmarkId =>
    obtain ⟨b, -, h⟩ := Except.exists_of_bind_eq_ok h
    cases h
    exact .refl _ _
  | update bookmarkId payload ifMatch =>
    obtain ⟨⟨db₁, b⟩, hupdate, h⟩ := Except.exists_of_bind_eq_ok h
    cases h
    have htags := BookmarkService.tagsFrom_update (fun tags htags => ?_) hupdate
    · rw [changesOf_tags] at htags
      exact htags
    · exact Crud.normalized_names (c := .update bookmarkId payload ifMatch)
        ((changesOf_tags payload).symm.trans htags)
  | delete bookmarkId ifMatch =>
    obtain ⟨db₁, hdelete, h⟩ := Except.exists_of_bind_eq_ok h
    cases h
    exact (Db.TagsFrom.refl db _).sameTags (BookmarkService.sameTags_delete hdelete)

/-- So does its response. -/
theorem tagsFrom_respondCrud (db : Db) (call : Call (Crud P)) :
    db.TagsFrom (call.request.names.getD []) (respondCrud db call).2 := by
  by_cases hu : db.Registered call.user
  · rw [respondCrud, respond_eq hu]
    rcases hcrud : crud call.now db call.user call.request with x | ⟨r, db₁⟩
    · simp only [Call.crud, route, hcrud]
      exact .refl db _
    · simp only [Call.crud, route, hcrud]
      exact tagsFrom_crud hcrud
  · rw [respondCrud, respond_unregistered hu]
    exact .refl db _

end Routers
