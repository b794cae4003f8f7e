import BookmarksApi.Store.Frame

/-!
# Store/VersionSteps — an update moves the version once

The version moves when a flush emits an `UPDATE` for the row.  While `get_or_create` flushes one new
tag after the other, the bookmark that the session holds is as it was loaded, so those flushes emit
nothing for it; the flush that ends the update always does, because `updated_at` is flagged.  What
other transactions commit in the meantime makes that flush fail or changes nothing about it: the
version it writes is one up from the loaded one.
-/

variable {P : Platform}

/-! ## One flush -/

namespace Db

variable {db db' : Db}

theorem bookmarks_insertLinks {bookmarkId : ℤ} {ts : List TagRow}
    (h : db.insertLinks bookmarkId ts = .ok db') : db'.bookmarks = db.bookmarks := by
  induction ts generalizing db with
  | nil =>
    cases h
    rfl
  | cons t ts ih =>
    obtain ⟨db₁, hlink, h⟩ := Except.exists_of_bind_eq_ok h
    rw [ih h]
    rw [insertLink] at hlink
    split_ifs at hlink
    split at hlink
    · cases hlink
    · cases hlink
      rfl

theorem bookmarks_deleteLinks {bookmarkId : ℤ} {ts : List TagRow}
    (h : db.deleteLinks bookmarkId ts = .ok db') : db'.bookmarks = db.bookmarks := by
  rw [deleteLinks] at h
  split_ifs at h
  cases h
  rfl

/-- **The guarded `UPDATE` goes from the loaded version to the next.** -/
theorem version_updateBookmark {stored cur : BookmarkRow}
    (h : db.updateBookmark stored cur = .ok db') :
    ∃ old new, db.bookmarks.get? stored.id = some old ∧ old.version = stored.version ∧
      db'.bookmarks.get? stored.id = some new ∧ new.version = stored.version + 1 := by
  rw [updateBookmark] at h
  split at h
  · cases h
  · next old hget =>
    split_ifs at h with hversion
    cases h
    have hid : old.id = stored.id := (Table.get?_eq_some.mp hget).2
    refine ⟨old, setChanged stored cur old, hget, hversion, ?_, rfl⟩
    rw [Table.get?_update (show db.bookmarks.get? (setChanged stored cur old).id = some old by
      rw [setChanged, hid, hget])]
    exact if_pos hid.symm

end Db

namespace Bookmark

variable {db db' : Db} {b b' : Bookmark}

/-- **A flush with something to write moves the version once.** -/
theorem version_flush (hdirty : b.dirty = true) (h : b.flush db = .ok (db', b')) :
    ∃ old new, db.bookmarks.get? b.stored.id = some old ∧ old.version = b.stored.version ∧
      db'.bookmarks.get? b.stored.id = some new ∧ new.version = b.stored.version + 1 := by
  rw [flush, if_pos hdirty] at h
  obtain ⟨db₁, hrow, h⟩ := Except.exists_of_bind_eq_ok h
  obtain ⟨db₂, hdelete, h⟩ := Except.exists_of_bind_eq_ok h
  obtain ⟨db₃, hinsert, h⟩ := Except.exists_of_bind_eq_ok h
  cases h
  rw [Db.bookmarks_insertLinks hinsert, Db.bookmarks_deleteLinks hdelete]
  exact Db.version_updateBookmark hrow

end Bookmark

/-! ## The flushes of an update -/

namespace Session

/-- **What a session goes through** while the tags of an update are resolved: flushes of new tags,
and between them whatever other transactions commit. -/
inductive Resolving (P : Platform) (s₀ : Session) : Session → Prop
  | start : Resolving P s₀ s₀
  | flushed {s s' : Session} {name : Str} {tag : TagRow} (h : Resolving P s₀ s)
      (hadd : s.addTag P name = .ok (s', tag)) : Resolving P s₀ s'
  | others {s : Session} (db : Db) (h : Resolving P s₀ s) : Resolving P s₀ ⟨db, s.bookmark⟩

/-- **A flush of a new tag writes nothing of a bookmark that is as it was loaded.** -/
theorem addTag_loaded {db : Db} {row : BookmarkRow} {tags : List TagRow} {name : Str}
    {s' : Session} {tag : TagRow}
    (h : addTag P ⟨db, some (.loaded row tags)⟩ name = .ok (s', tag)) :
    s'.bookmark = some (.loaded row tags) ∧ s'.db.bookmarks = db.bookmarks ∧
      s'.db.bookmarkTags = db.bookmarkTags := by
  obtain ⟨s₁, hflush, h⟩ := Except.exists_of_bind_eq_ok h
  simp only [flush, Bookmark.flush_loaded, bind, Except.bind] at hflush
  cases hflush
  obtain ⟨⟨db₂, tag'⟩, hinsert, h⟩ := Except.exists_of_bind_eq_ok h
  cases h
  rw [Db.insertTag] at hinsert
  split_ifs at hinsert
  split at hinsert
  · cases hinsert
  · cases hinsert
    exact ⟨rfl, rfl, rfl⟩

/-- The session keeps the bookmark as it was loaded. -/
theorem Resolving.bookmark {db : Db} {row : BookmarkRow} {tags : List TagRow} {s : Session}
    (h : Resolving P ⟨db, some (.loaded row tags)⟩ s) : s.bookmark = some (.loaded row tags) := by
  induction h with
  | start => rfl
  | @flushed s s' name tag _ hadd ih =>
    obtain ⟨db₁, held⟩ := s
    obtain rfl : held = some (.loaded row tags) := ih
    exact (addTag_loaded hadd).1
  | others _ _ ih => exact ih

end Session

/-- The loop of `get_or_create` is such flushes. -/
theorem TagRepository.resolving_resolve {s₀ : Session} : ∀ {names : List Str} {s s' : Session}
    {byName ts : List TagRow}, Session.Resolving P s₀ s → resolve P s byName names = .ok (s', ts) →
      Session.Resolving P s₀ s' := by
  intro names
  induction names with
  | nil =>
    intro s s' byName ts hs h
    cases h
    exact hs
  | cons name names ih =>
    intro s s' byName ts hs h
    rw [resolve] at h
    split at h
    · obtain ⟨⟨s₁, ts₁⟩, hrest, h⟩ := Except.exists_of_bind_eq_ok h
      cases h
      exact ih hs hrest
    · obtain ⟨⟨s₁, tag⟩, hadd, h⟩ := Except.exists_of_bind_eq_ok h
      obtain ⟨⟨s₂, ts₂⟩, hrest, h⟩ := Except.exists_of_bind_eq_ok h
      cases h
      exact ih (hs.flushed hadd) hrest

namespace BookmarkService

variable {db db' : Db} {userId bookmarkId now : ℤ} {changes : Changes} {ifMatch : Option Str}

theorem resolving_resolveTags {s s' : Session} {newTags : Option (List TagRow)}
    (h : resolveTags P s changes = .ok (s', newTags)) : Session.Resolving P s s' := by
  rw [resolveTags] at h
  split at h
  · cases h
    exact .start
  · obtain ⟨names, -, h⟩ := Except.exists_of_bind_eq_ok h
    obtain ⟨⟨s₁, ts⟩, hget, h⟩ := Except.exists_of_bind_eq_ok h
    cases h
    rw [TagRepository.getOrCreate] at hget
    split_ifs at hget
    · cases hget
      exact .start
    · exact TagRepository.resolving_resolve .start hget

/-- What `get` returns is as it is stored, under the id asked for. -/
theorem loaded_of_get {b : Bookmark} (h : get P db userId bookmarkId = .ok b) :
    ∃ row tags, b = .loaded row tags ∧ row.id = bookmarkId := by
  rw [Db.get_eq] at h
  rcases hread : Entries.read P db.view userId bookmarkId with x | e
  · rw [hread] at h
    cases h
  · rw [hread] at h
    obtain rfl := Except.ok.inj h
    have hview := (Entries.owned_eq_some.mp (Entries.read_eq_ok.mp hread).2).1
    exact ⟨e.row, _, rfl, Db.id_of_view hview⟩

/-- The commit of an update, and the reload of what it wrote. -/
theorem exists_flush_of_update {b b' : Bookmark}
    (h : BookmarkRepository.update P now db b = .ok (db', b')) :
    (∃ b₁, (BookmarkRepository.touch now b).flush db = .ok (db', b₁)) ∧
      db'.bookmarks.get? b.stored.id = some b'.row := by
  obtain ⟨⟨db₁, b₁⟩, hflush, h⟩ := Except.exists_of_bind_eq_ok h
  obtain ⟨b₂, hrefresh, h⟩ := Except.exists_of_bind_eq_ok h
  cases h
  refine ⟨⟨b₁, Except.of_mapError_eq_ok hflush⟩, ?_⟩
  rw [Session.refresh] at hrefresh
  split at hrefresh
  · cases hrefresh
  · next row hget =>
    cases hrefresh
    exact hget

/-- **An accepted update moves the version exactly once**: what is committed is one version up from
what was loaded, and the flushes before the last write nothing of the bookmark.  So it is whatever
other transactions commit between the flushes. -/
theorem exactly_one_version_step {b' : Bookmark}
    (h : update P now db userId bookmarkId changes ifMatch = .ok (db', b')) :
    ∃ row tags, get P db userId bookmarkId = .ok (.loaded row tags) ∧
      db'.bookmarks.get? bookmarkId = some b'.row ∧ b'.row.version = row.version + 1 ∧
      (∃ s newTags b₁, Session.Resolving P ⟨db, some (.loaded row tags)⟩ s ∧
        resolveTags P ⟨db, some (.loaded row tags)⟩ changes = .ok (s, newTags) ∧
        (BookmarkRepository.touch now (changes.apply newTags (.loaded row tags))).flush s.db
          = .ok (db', b₁)) ∧
      ∀ s, Session.Resolving P ⟨db, some (.loaded row tags)⟩ s →
        (∀ name s' tag, s.addTag P name = .ok (s', tag) →
          s'.db.bookmarks = s.db.bookmarks ∧ s'.db.bookmarkTags = s.db.bookmarkTags) ∧
        ∀ newTags db₂ b₂,
          (BookmarkRepository.touch now
            (changes.apply newTags (s.bookmark.getD (.loaded row tags)))).flush s.db
              = .ok (db₂, b₂) →
          ∃ old new, s.db.bookmarks.get? bookmarkId = some old ∧ old.version = row.version ∧
            db₂.bookmarks.get? bookmarkId = some new ∧ new.version = row.version + 1 := by
  obtain ⟨b, hget, h⟩ := Except.exists_of_bind_eq_ok h
  obtain ⟨_, -, h⟩ := Except.exists_of_bind_eq_ok h
  obtain ⟨⟨s, newTags⟩, hresolve, h⟩ := Except.exists_of_bind_eq_ok h
  obtain ⟨row, tags, rfl, rfl⟩ := loaded_of_get hget
  have hresolving := resolving_resolveTags hresolve
  have hupdate : BookmarkRepository.update P now s.db
      (changes.apply newTags (.loaded row tags)) = .ok (db', b') := by
    simp only [hresolving.bookmark, Option.getD_some] at h
    split at h
    · obtain ⟨etag, -, h⟩ := Except.exists_of_bind_eq_ok h
      cases h
    · exact h
  obtain ⟨⟨b₁, hflush⟩, hstored⟩ := exists_flush_of_update hupdate
  have hstep : ∀ (db₁ : Db) newTags db₂ b₂,
      (BookmarkRepository.touch now (changes.apply newTags (.loaded row tags))).flush db₁
        = .ok (db₂, b₂) → ∃ old new, db₁.bookmarks.get? row.id = some old ∧
          old.version = row.version ∧ db₂.bookmarks.get? row.id = some new ∧
          new.version = row.version + 1 := fun _ _ _ _ hflush => Bookmark.version_flush rfl hflush
  refine ⟨row, tags, hget, hstored, ?_, ⟨s, newTags, b₁, hresolving, hresolve, hflush⟩, ?_⟩
  · obtain ⟨-, new, -, -, hnew, hversion⟩ := hstep _ _ _ _ hflush
    obtain rfl := Option.some.inj (hnew.symm.trans hstored)
    exact hversion
  · intro s₁ hs₁
    have hheld := hs₁.bookmark
    obtain ⟨db₁, held⟩ := s₁
    obtain rfl : held = some (.loaded row tags) := hheld
    exact ⟨fun name s' tag hadd => (Session.addTag_loaded hadd).2,
      fun _ _ _ hfl => hstep _ _ _ _ hfl⟩

/-- Two new tags and nothing else. -/
theorem exactly_one_version_step_tagged :
    let db :=
      (Routers.respond (P := .sqlite) Db.twoAccounts ⟨1, 0, .crud (.create (.titled 'a'))⟩).2
    let changes : Changes := ⟨none, none, none, some (some ["x".toList, "y".toList])⟩
    ∃ db' b', update .sqlite 1 db 1 1 changes (some ['*']) = .ok (db', b') ∧
      b'.row.version = 2 := by
  intro db changes
  have hok : (update .sqlite 1 db 1 1 changes (some ['*'])).isOk = true := by decide +kernel
  have hloaded : (get .sqlite db 1 1).toOption.map (fun b => b.row.version) = some 1 := by
    decide +kernel
  rcases h : update .sqlite 1 db 1 1 changes (some ['*']) with x | ⟨db', b'⟩
  · rw [h] at hok
    cases hok
  · obtain ⟨row, tags, hget, -, hversion, -⟩ := exactly_one_version_step h
    rw [hget] at hloaded
    have hone : row.version = 1 := Option.some.inj hloaded
    exact ⟨db', b', rfl, by rw [hversion, hone]⟩

end BookmarkService
