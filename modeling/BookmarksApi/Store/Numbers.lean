import BookmarksApi.Concurrent.Flush
import BookmarksApi.Store.Frame

/-!
# Store/Numbers — who takes a number

The next id depends on the ids in the table and the last number given out, and of all requests only
a create takes one.  So two databases that view the same bookmarks and have given out the same
numbers go on to number their bookmarks alike (`Db.nextId_congr`).
-/

variable {P : Platform} {db db' : Db}

/-- The largest id is that of the ids there are, in whatever order. -/
theorem IdRule.maxId_congr {ids ids' : List ℤ} (h : ∀ i, i ∈ ids ↔ i ∈ ids') :
    maxId ids = maxId ids' := by
  have hle : ∀ {ids ids' : List ℤ}, (∀ i ∈ ids, i ∈ ids') → maxId ids ≤ maxId ids' := by
    intro ids ids' hsub
    induction ids with
    | nil =>
      induction ids' with
      | nil => exact le_rfl
      | cons i ids' ih => exact (ih fun _ hi => absurd hi List.not_mem_nil).trans (le_max_right _ _)
    | cons i ids ih =>
      obtain ⟨hi, hids⟩ := List.forall_mem_cons.mp hsub
      exact max_le (le_maxId hi) (ih hids)
  exact le_antisymm (hle fun i => (h i).mp) (hle fun i => (h i).mpr)

/-- **The same bookmarks and the same last number, the same next id.** -/
theorem Db.nextId_congr (hview : db'.view = db.view) (hseq : db'.bookmarkSeq = db.bookmarkSeq) :
    db'.nextId P = db.nextId P := by
  have hids : ∀ i, i ∈ db'.bookmarks.rows.map BookmarkRow.id ↔
      i ∈ db.bookmarks.rows.map BookmarkRow.id := by
    have hmem : ∀ (d : Db) i, i ∈ d.bookmarks.rows.map BookmarkRow.id ↔ d.view i ≠ none := by
      intro d i
      rw [ne_eq, view_eq_none, Table.get?_eq_none, List.mem_map]
      push Not
      rfl
    intro i
    rw [hmem, hmem, hview]
  rw [nextId, nextId, hseq]
  cases P.ids with
  | maxPlusOne => rw [IdRule.next, IdRule.next, IdRule.maxId_congr hids]
  | sequence => rfl

/-! ## Statements -/

namespace Db

/-- A new row takes its number. -/
theorem bookmarkSeq_insertBookmark {now : ℤ} {url title : Str} {description : Option Str}
    {userId : ℤ} {row : BookmarkRow}
    (h : db.insertBookmark P now url title description userId = .ok (db', row)) :
    db'.bookmarkSeq = max db.bookmarkSeq row.id := by
  rw [insertBookmark] at h
  split_ifs at h
  split at h
  · cases h
  · cases h
    rfl

/-- Links have no numbers of their own. -/
theorem bookmarkSeq_insertLinks {bookmarkId : ℤ} {ts : List TagRow}
    (h : db.insertLinks bookmarkId ts = .ok db') : db'.bookmarkSeq = db.bookmarkSeq := by
  induction ts generalizing db with
  | nil =>
    cases h
    rfl
  | cons t ts ih =>
    obtain ⟨db₁, hlink, h⟩ := Except.exists_of_bind_eq_ok h
    rw [ih h]
    rw [insertLink] at hlink
    split_ifs at hlink
    split at hlink
    · cases hlink
    · cases hlink
      rfl

theorem bookmarkSeq_deleteLinks {bookmarkId : ℤ} {ts : List TagRow}
    (h : db.deleteLinks bookmarkId ts = .ok db') : db'.bookmarkSeq = db.bookmarkSeq := by
  rw [deleteLinks] at h
  split_ifs at h
  cases h
  rfl

theorem bookmarkSeq_updateBookmark {stored cur : BookmarkRow}
    (h : db.updateBookmark stored cur = .ok db') : db'.bookmarkSeq = db.bookmarkSeq := by
  rw [updateBookmark] at h
  split at h
  · cases h
  · split_ifs at h
    cases h
    rfl

/-- A deleted row does not give its number back. -/
theorem bookmarkSeq_deleteBookmark {stored : BookmarkRow}
    (h : db.deleteBookmark stored = .ok db') : db'.bookmarkSeq = db.bookmarkSeq := by
  rw [deleteBookmark] at h
  split at h
  · cases h
  · split_ifs at h
    cases h
    rfl

end Db

/-! ## Flushes -/

/-- **The flush of a new bookmark takes the number of its row.** -/
theorem NewBookmark.bookmarkSeq_flush {now : ℤ} {b : NewBookmark} {row : BookmarkRow}
    (h : b.flush P now db = .ok (db', row)) : db'.bookmarkSeq = max db.bookmarkSeq row.id := by
  obtain ⟨⟨db₁, row₁⟩, hrow, h⟩ := Except.exists_of_bind_eq_ok h
  obtain ⟨db₂, hlinks, h⟩ := Except.exists_of_bind_eq_ok h
  cases h
  rw [Db.bookmarkSeq_insertLinks hlinks, Db.bookmarkSeq_insertBookmark hrow]

/-- The flush of an update takes none: it inserts links at most. -/
theorem Bookmark.bookmarkSeq_flush {b b' : Bookmark} (h : b.flush db = .ok (db', b')) :
    db'.bookmarkSeq = db.bookmarkSeq := by
  rw [flush] at h
  split_ifs at h with hdirty
  · obtain ⟨db₁, hrow, h⟩ := Except.exists_of_bind_eq_ok h
    obtain ⟨db₂, hdelete, h⟩ := Except.exists_of_bind_eq_ok h
    obtain ⟨db₃, hinsert, h⟩ := Except.exists_of_bind_eq_ok h
    cases h
    rw [Db.bookmarkSeq_insertLinks hinsert, Db.bookmarkSeq_deleteLinks hdelete,
      Db.bookmarkSeq_updateBookmark hrow]
  · obtain ⟨db₁, hrow, h⟩ := Except.exists_of_bind_eq_ok h
    obtain rfl := Except.ok.inj hrow
    obtain ⟨db₂, hdelete, h⟩ := Except.exists_of_bind_eq_ok h
    obtain ⟨db₃, hinsert, h⟩ := Except.exists_of_bind_eq_ok h
    cases h
    rw [Db.bookmarkSeq_insertLinks hinsert, Db.bookmarkSeq_deleteLinks hdelete]

/-- Nor does that of a delete. -/
theorem Bookmark.bookmarkSeq_flushDelete {b : Bookmark} (h : b.flushDelete db = .ok db') :
    db'.bookmarkSeq = db.bookmarkSeq := by
  obtain ⟨db₁, hlinks, h⟩ := Except.exists_of_bind_eq_ok h
  rw [Db.bookmarkSeq_deleteBookmark h, Db.bookmarkSeq_deleteLinks hlinks]

/-- **A commit takes a number for a new bookmark.** -/
theorem Phase.bookmarkSeq_commit_none {call : Call (Crud P)} {newTags : Option (List TagRow)}
    {pending : List TagRow} {k : ℤ}
    (h : commit call db newTags pending none = some (db', refreshing k)) :
    db'.bookmarkSeq = max db.bookmarkSeq k := by
  rw [commit] at h
  rcases hreq : call.request with payload | k | ⟨k, payload, ifMatch⟩ | ⟨k, ifMatch⟩ <;>
    simp only [hreq] at h
  · split at h
    · cases h
    · next hflush =>
      cases h
      have hseq := NewBookmark.bookmarkSeq_flush hflush
      exact hseq
  all_goals cases h

/-- **And for no other.** -/
theorem Phase.bookmarkSeq_commit_some {call : Call (Crud P)} {newTags : Option (List TagRow)}
    {pending : List TagRow} {b : Bookmark} {p' : Phase}
    (h : commit call db newTags pending (some b) = some (db', p')) :
    db'.bookmarkSeq = db.bookmarkSeq := by
  rw [commit] at h
  rcases hreq : call.request with payload | k | ⟨k, payload, ifMatch⟩ | ⟨k, ifMatch⟩ <;>
    simp only [hreq] at h
  · cases h
  · cases h
  · split at h
    · cases h
      rfl
    · next hflush =>
      cases h
      have hseq := Bookmark.bookmarkSeq_flush hflush
      exact hseq
  · split at h
    · cases h
      rfl
    · next hflush =>
      cases h
      have hseq := Bookmark.bookmarkSeq_flushDelete hflush
      exact hseq

/-! ## Requests -/

/-- A new tag takes a number of its own table, and flushes an update at most. -/
theorem Session.bookmarkSeq_addTag {s s' : Session} {name : Str} {t : TagRow}
    (h : s.addTag P name = .ok (s', t)) : s'.db.bookmarkSeq = s.db.bookmarkSeq := by
  obtain ⟨s₁, hflush, h⟩ := Except.exists_of_bind_eq_ok h
  obtain ⟨⟨db₂, tag⟩, hinsert, h⟩ := Except.exists_of_bind_eq_ok h
  cases h
  have hsame : s₁.db.bookmarkSeq = s.db.bookmarkSeq := by
    rw [Session.flush] at hflush
    split at hflush
    · cases hflush
      rfl
    · obtain ⟨⟨db₁, b₁⟩, hb, hflush⟩ := Except.exists_of_bind_eq_ok hflush
      cases hflush
      exact Bookmark.bookmarkSeq_flush hb
  rw [Db.insertTag] at hinsert
  split_ifs at hinsert
  split at hinsert
  · cases hinsert
  · cases hinsert
    exact hsame

namespace TagRepository

/-- So does each tag of a list. -/
theorem bookmarkSeq_resolve : ∀ (names : List Str) {s s' : Session} {byName ts : List TagRow},
    resolve P s byName names = .ok (s', ts) → s'.db.bookmarkSeq = s.db.bookmarkSeq := by
  intro names
  induction names with
  | nil =>
    intro s s' byName ts h
    cases h
    rfl
  | cons name names ih =>
    intro s s' byName ts h
    rw [resolve] at h
    split at h
    · obtain ⟨⟨s₁, result⟩, hres, h⟩ := Except.exists_of_bind_eq_ok h
      cases h
      exact ih hres
    · obtain ⟨⟨s₁, tag⟩, hadd, h⟩ := Except.exists_of_bind_eq_ok h
      obtain ⟨⟨s₂, result⟩, hres, h⟩ := Except.exists_of_bind_eq_ok h
      cases h
      exact (ih hres).trans (Session.bookmarkSeq_addTag hadd)

/-- **Resolving tags takes no number of a bookmark.** -/
theorem bookmarkSeq_getOrCreate {names : List Str} {s s' : Session} {ts : List TagRow}
    (h : getOrCreate P s names = .ok (s', ts)) : s'.db.bookmarkSeq = s.db.bookmarkSeq := by
  rw [getOrCreate] at h
  split_ifs at h
  · cases h
    rfl
  · exact bookmarkSeq_resolve names h

end TagRepository

namespace BookmarkService

variable {now userId bookmarkId : ℤ}

/-- **A create takes the number of the bookmark it returns.** -/
theorem bookmarkSeq_create {url title : Str} {description : Option Str} {tags : List Str}
    {b : Bookmark} (h : create P now db userId url title description tags = .ok (db', b)) :
    db'.bookmarkSeq = max db.bookmarkSeq b.row.id := by
  obtain ⟨names, -, h⟩ := Except.exists_of_bind_eq_ok h
  obtain ⟨⟨s, ts⟩, hget, h⟩ := Except.exists_of_bind_eq_ok h
  obtain ⟨⟨db₁, row⟩, hflush, h⟩ := Except.exists_of_bind_eq_ok h
  obtain ⟨b', hrefresh, h⟩ := Except.exists_of_bind_eq_ok h
  cases h
  have hid : b.row.id = row.id := by
    rw [Session.refresh] at hrefresh
    split at hrefresh
    · cases hrefresh
    · next hrow =>
      cases hrefresh
      exact (Table.get?_eq_some.mp hrow).2
  rw [NewBookmark.bookmarkSeq_flush hflush, TagRepository.bookmarkSeq_getOrCreate hget, hid]

/-- **An update takes none**, and one that is refused has committed nothing. -/
theorem bookmarkSeq_update {changes : Changes} {ifMatch : Option Str} {b : Bookmark}
    (h : update P now db userId bookmarkId changes ifMatch = .ok (db', b)) :
    db'.bookmarkSeq = db.bookmarkSeq := by
  obtain ⟨b₀, -, h⟩ := Except.exists_of_bind_eq_ok h
  obtain ⟨_, -, h⟩ := Except.exists_of_bind_eq_ok h
  obtain ⟨⟨s, newTags⟩, hresolve, h⟩ := Except.exists_of_bind_eq_ok h
  have hseq : s.db.bookmarkSeq = db.bookmarkSeq := by
    rw [resolveTags] at hresolve
    split at hresolve
    · cases hresolve
      rfl
    · obtain ⟨names, -, hresolve⟩ := Except.exists_of_bind_eq_ok hresolve
      obtain ⟨⟨s₁, ts⟩, hget, hresolve⟩ := Except.exists_of_bind_eq_ok hresolve
      cases hresolve
      exact TagRepository.bookmarkSeq_getOrCreate hget
  simp only at h
  split at h
  · obtain ⟨etag, -, h⟩ := Except.exists_of_bind_eq_ok h
    cases h
  · obtain ⟨⟨db₁, b₁⟩, hflush, h⟩ := Except.exists_of_bind_eq_ok h
    obtain ⟨b₂, -, h⟩ := Except.exists_of_bind_eq_ok h
    cases h
    rw [Bookmark.bookmarkSeq_flush (Except.of_mapError_eq_ok hflush), hseq]

/-- **Nor does a delete.** -/
theorem bookmarkSeq_delete {ifMatch : Option Str}
    (h : delete P db userId bookmarkId ifMatch = .ok db') : db'.bookmarkSeq = db.bookmarkSeq := by
  obtain ⟨b, -, h⟩ := Except.exists_of_bind_eq_ok h
  obtain ⟨_, -, h⟩ := Except.exists_of_bind_eq_ok h
  split at h
  · obtain ⟨etag, -, h⟩ := Except.exists_of_bind_eq_ok h
    cases h
  · exact Bookmark.bookmarkSeq_flushDelete (Except.of_mapError_eq_ok h)

end BookmarkService

namespace Routers

/-- **Only a create takes a number.** -/
theorem bookmarkSeq_respondCrud (I : db.Integrity) (call : Call (Crud P))
    (hu : db.Registered call.user) : (respondCrud db call).2.bookmarkSeq =
      if call.request.target = none then max db.bookmarkSeq (db.nextId P)
      else db.bookmarkSeq := by
  obtain ⟨hout, -, -, -⟩ := respond_refines I call hu
  rw [respondCrud, respond_eq hu] at hout ⊢
  obtain ⟨user, now, payload | i | ⟨i, payload, ifMatch⟩ | ⟨i, ifMatch⟩⟩ := call <;>
    simp only [Call.crud, route, crud] at hout ⊢
  · rcases hcreate : createBookmark now db user payload with x | ⟨r, db₁⟩
    · rw [hcreate] at hout
      cases x <;> cases congrArg (fun r => r.body.isLeft) hout
    · rw [hcreate] at hout
      obtain ⟨⟨db₂, b⟩, hservice, h⟩ := Except.exists_of_bind_eq_ok hcreate
      cases h
      have hid : b.row.id = db.nextId P :=
        congrArg BookmarkOut.id (Body.bookmark.inj (Sum.inl.inj (congrArg Response.body hout)))
      rw [← hid]
      exact BookmarkService.bookmarkSeq_create hservice
  · rcases hget : getBookmark P db user i with x | ⟨r, db₁⟩
    · rfl
    · obtain ⟨b, -, h⟩ := Except.exists_of_bind_eq_ok hget
      cases h
      rfl
  · rcases hupdate : updateBookmark now db user i payload ifMatch with x | ⟨r, db₁⟩
    · rfl
    · obtain ⟨⟨db₂, b⟩, hservice, h⟩ := Except.exists_of_bind_eq_ok hupdate
      cases h
      exact BookmarkService.bookmarkSeq_update hservice
  · rcases hdelete : deleteBookmark P db user i ifMatch with x | ⟨r, db₁⟩
    · rfl
    · obtain ⟨db₂, hservice, h⟩ := Except.exists_of_bind_eq_ok hdelete
      cases h
      exact BookmarkService.bookmarkSeq_delete hservice

end Routers
