import BookmarksApi.Routers.Bookmarks
import BookmarksApi.Store.Writes
import Mathlib.Logic.Function.Basic

/-!
# Store/Entries — the service over one map

What the bookmark routes are for, without tables: a map from ids to entries.  A request reads one
entry its user owns, may be refused, and changes that one entry or creates a new one.
`crud_refines` is the connection: over any tables that satisfy their constraints, the route's answer
is the map's, and the tables it leaves are viewed as the map it leaves.
-/

variable {P : Platform}

namespace Entry

/-- The entry as a response shows it: the tag names in order. -/
noncomputable def out (P : Platform) (e : Entry) : BookmarkOut :=
  { id := e.row.id, url := e.row.url, title := e.row.title, description := e.row.description
    tags := P.collation.sortSet e.tags, createdAt := e.row.createdAt, updatedAt := e.row.updatedAt
    version := e.row.version }

/-- A success that carries the entry. -/
noncomputable def answer (P : Platform) (status : ℕ) (e : Entry) : Response Body :=
  { status := status, headers := [("ETag", VersionETagService.makeEtag e.row.version)]
    body := .inl (.bookmark (e.out P)) }

/-- The entry of a new bookmark. -/
def ofPayload (now bookmarkId userId : ℤ) (payload : BookmarkCreate P) : Entry :=
  { row := { id := bookmarkId, url := payload.url, title := payload.title
             description := payload.description, userId := userId
             createdAt := P.currentTimestamp now, updatedAt := P.currentTimestamp now
             version := 1 }
    tags := payload.tags.toFinset }

/-- The entry after an update: the fields given, and one version up. -/
def change (now : ℤ) (c : Changes) (e : Entry) : Entry :=
  { row := { e.row with
      url := c.url.getD e.row.url
      title := c.title.getD e.row.title
      description := c.description.getD e.row.description
      updatedAt := .micros now
      version := e.row.version + 1 }
    tags := (c.tags.join.map List.toFinset).getD e.tags }

end Entry

/-! ## The map -/

/-- Entries under their ids. -/
abbrev Entries := ℤ → Option Entry

namespace Entries

/-- What a user finds under an id. -/
def owned (s : Entries) (userId bookmarkId : ℤ) : Option Entry :=
  (s bookmarkId).filter fun e => e.row.userId = userId

/-- Reading for a request: an id that cannot be bound, one without an owned entry, or the entry. -/
def read (P : Platform) (s : Entries) (userId bookmarkId : ℤ) : Except Exc Entry :=
  if P.bindable bookmarkId then
    match s.owned userId bookmarkId with
    | none => .error (.app (BookmarkService.notFound bookmarkId))
    | some e => .ok e
  else .error .overflow

/-- A request over the map; `fresh` is the id a create gets. -/
noncomputable def crud (now fresh userId : ℤ) (s : Entries) :
    Crud P → Except Exc (Response Body × Entries)
  | .create payload =>
    let e := Entry.ofPayload now fresh userId payload
    .ok (e.answer P 201, Function.update s fresh (some e))
  | .get bookmarkId => do
    let e ← s.read P userId bookmarkId
    .ok (e.answer P 200, s)
  | .update bookmarkId payload ifMatch => do
    let e ← s.read P userId bookmarkId
    BookmarkService.checkPrecondition e.row.version ifMatch
    let e := e.change now (Routers.changesOf payload)
    .ok (e.answer P 200, Function.update s bookmarkId (some e))
  | .delete bookmarkId ifMatch => do
    let e ← s.read P userId bookmarkId
    BookmarkService.checkPrecondition e.row.version ifMatch
    .ok ({ status := 204, body := .inl .empty }, Function.update s bookmarkId none)

end Entries

/-! ## Loading -/

namespace Db

variable {db : Db}

/-- The id the next bookmark gets. -/
def nextId (P : Platform) (db : Db) : ℤ :=
  P.ids.next (db.bookmarks.rows.map BookmarkRow.id) db.bookmarkSeq

/-- The instance that loading an entry gives. -/
def load (P : Platform) (db : Db) (row : BookmarkRow) : Bookmark := .loaded row (db.tagsOf P row.id)

/-- **A loaded row's answer is its entry's.** -/
theorem bookmarkResponse_loaded (I : db.Integrity) (row : BookmarkRow) (status : ℕ) :
    Routers.bookmarkResponse status (.loaded row (db.tagsOf P row.id))
      = Entry.answer P status ⟨row, db.tagNames row.id⟩ := by
  have htags : (db.tagsOf P row.id).map TagRow.name = P.collation.sortSet (db.tagNames row.id) :=
    map_tagsOf I row.id
  rw [Routers.bookmarkResponse, Entry.answer, BookmarkOut.ofBookmark, Entry.out, Bookmark.loaded,
    htags]

theorem bookmarkResponse_load (I : db.Integrity) {e : Entry} {bookmarkId : ℤ}
    (h : db.view bookmarkId = some e) (status : ℕ) :
    Routers.bookmarkResponse status (db.load P e.row) = e.answer P status := by
  obtain rfl : e.row.id = bookmarkId := id_of_view h
  rw [load, bookmarkResponse_loaded I, (view_eq_some.mp h).2]

/-- What is loaded for an entry is as stored, and shows it. -/
theorem snapshot_load {bookmarkId : ℤ} {e : Entry} (hv : db.view bookmarkId = some e) :
    Snapshot db e.row (db.tagsOf P e.row.id) ∧
      (⟨e.row, ((db.tagsOf P e.row.id).map TagRow.name).toFinset⟩ : Entry) = e := by
  obtain rfl : e.row.id = bookmarkId := Db.id_of_view hv
  have hsnap : Snapshot db e.row (db.tagsOf P e.row.id) :=
    Snapshot.of_load P (Db.view_eq_some.mp hv).1
  exact ⟨hsnap, Option.some.inj (hsnap.view.symm.trans hv)⟩

theorem refresh_eq {bookmarkId : ℤ} {e : Entry} (h : db.view bookmarkId = some e) :
    Session.refresh P db bookmarkId = .ok (db.load P e.row) := by
  rw [Session.refresh, (view_eq_some.mp h).1]
  rfl

/-- **`get` loads what the map reads.** -/
theorem get_eq (db : Db) (userId bookmarkId : ℤ) :
    BookmarkService.get P db userId bookmarkId
      = (Entries.read P db.view userId bookmarkId).map fun e => db.load P e.row := by
  rw [BookmarkService.get, BookmarkRepository.getOwned, BookmarkRepository.ownedRow, Entries.read,
    Entries.owned, view]
  split_ifs
  · rcases hrow : db.bookmarks.get? bookmarkId with _ | row
    · rfl
    · by_cases howner : row.userId = userId
      · simp only [Option.map_some, Option.filter_some, howner, decide_true, if_true]
        rfl
      · simp only [Option.map_some, Option.filter_some, howner, decide_false, Bool.false_eq_true,
          if_false]
        rfl
  · rfl

end Db

namespace Entries

variable {s : Entries} {userId bookmarkId : ℤ} {e : Entry}

theorem owned_eq_some : s.owned userId bookmarkId = some e ↔
    s bookmarkId = some e ∧ e.row.userId = userId := by
  simp [owned, Option.filter_eq_some_iff]

theorem read_eq_ok : s.read P userId bookmarkId = .ok e ↔
    P.bindable bookmarkId = true ∧ s.owned userId bookmarkId = some e := by
  rw [read]
  split_ifs with hb
  · rcases s.owned userId bookmarkId with _ | e'
    · simp [hb]
    · simp [hb]
  · simp [hb]

end Entries

namespace BookmarkRepository

/-- A flush that went through is committed, and the instance reloaded. -/
theorem update_eq {now : ℤ} {db db' : Db} {b b' : Bookmark} {e : Entry}
    (hflush : (touch now b).flush db = .ok (db', b')) (hv : db'.view b.stored.id = some e) :
    update P now db b = .ok (db', db'.load P e.row) := by
  simp only [update, hflush, Except.mapError, Bind.bind, Except.bind, Db.refresh_eq hv]

end BookmarkRepository

/-! ## Writes

A request's flush, over the tables with the tags it resolved: it writes its one entry. -/

/-- One entry set or removed, and nothing else that a view shows. -/
structure Db.Writes (db db' : Db) (bookmarkId : ℤ) (entry : Option Entry) : Prop where
  integrity : db'.Integrity
  keeps : db.Keeps db'
  view : db'.view = Function.update db.view bookmarkId entry

theorem Db.Writes.view_self {db db' : Db} {bookmarkId : ℤ} {entry : Option Entry}
    (h : db.Writes db' bookmarkId entry) : db'.view bookmarkId = entry := by
  rw [h.view, Function.update_self]

section

variable {db db₁ : Db} {now : ℤ} {row : BookmarkRow} {tags : List TagRow}

/-- **The flush of a create** stores the payload under the next id. -/
theorem flush_create (I : db.Integrity) (I₁ : db₁.Integrity) (G : db.GainsTags db₁) (now : ℤ)
    {userId : ℤ} {u : UserRow} (hu : db.users.get? userId = some u) (payload : BookmarkCreate P)
    {ts : List TagRow} (hnames : ts.map TagRow.name = payload.tags)
    (hts : ∀ t ∈ ts, t ∈ db₁.tags.rows) :
    ∃ db₂ row, NewBookmark.flush P now db₁
        ⟨payload.url, payload.title, payload.description, userId, ts⟩
        = .ok (db₂, row) ∧ row.id = db.nextId P ∧ db₂.tags = db₁.tags ∧
      db.Writes db₂ (db.nextId P) (some (Entry.ofPayload now (db.nextId P) userId payload)) := by
  obtain ⟨raw, hraw⟩ := payload.tagsNormalized
  have hnd : ts.Nodup :=
    List.Nodup.of_map TagRow.name (hnames ▸ (normalized_of_normalizeTags hraw).nodup)
  obtain ⟨db₂, row, hflush, hrow, I₂, K₂, htags, -, hv₂⟩ := NewBookmark.flush_ok P I₁ now
    (b := ⟨payload.url, payload.title, payload.description, userId, ts⟩) (G.users ▸ hu) hts hnd
  have hentry : (⟨row, (ts.map TagRow.name).toFinset⟩ : Entry)
      = Entry.ofPayload now (db.nextId P) userId payload := by
    rw [hrow, hnames, Db.newRow, G.bookmarks, G.bookmarkSeq]
    rfl
  have hid : row.id = db.nextId P := congrArg (fun e => e.row.id) hentry
  refine ⟨db₂, row, hflush, hid, htags, I₂, G.keeps.trans K₂, funext fun k => ?_⟩
  rw [hv₂, hentry, hid, G.view_eq I, Function.update_apply]

/-- **The flush of an update** over the stored bookmark writes the changed entry. -/
theorem flush_update (I : db.Integrity) (I₁ : db₁.Integrity) (G : db.GainsTags db₁) (now : ℤ)
    (hs : Snapshot db₁ row tags) (payload : BookmarkUpdate P) {newTags : Option (List TagRow)}
    (hnames : newTags.map (List.map TagRow.name) = payload.tags.join)
    (hts : ∀ ts, newTags = some ts → ∀ t ∈ ts, t ∈ db₁.tags.rows) :
    ∃ db₂ b', (BookmarkRepository.touch now
        ((Routers.changesOf payload).apply newTags (.loaded row tags))).flush db₁ = .ok (db₂, b') ∧
      db₂.tags = db₁.tags ∧
      db.Writes db₂ row.id (some (Entry.change now (Routers.changesOf payload)
        ⟨row, (tags.map TagRow.name).toFinset⟩)) := by
  let b := BookmarkRepository.touch now
    ((Routers.changesOf payload).apply newTags (.loaded row tags))
  have htags : b.tags = newTags.getD tags := rfl
  have htagsOk : b.tags.Nodup ∧ ∀ t ∈ b.tags, t ∈ db₁.tags.rows := by
    rcases newTags with _ | ts
    · exact ⟨hs.nodup, hs.stored⟩
    · obtain ⟨raw, hraw⟩ := payload.tagsNormalized (ts.map TagRow.name)
        (Option.join_eq_some_iff.mp hnames.symm)
      exact ⟨(normalized_of_normalizeTags hraw).nodup.of_map TagRow.name, hts ts rfl⟩
  obtain ⟨db₂, hflush, I₂, K₂, htags₂, hv₂⟩ := Bookmark.flush_ok (b := b) I₁ hs rfl rfl rfl
    htagsOk.2 htagsOk.1
  have hset : (b.tags.map TagRow.name).toFinset
      = ((Routers.changesOf payload).tags.join.map List.toFinset).getD
        (tags.map TagRow.name).toFinset := by
    rw [Routers.changesOf_tags, ← hnames, htags]
    rcases newTags with _ | ts <;> rfl
  have hentry :
      (⟨{ b.row with version := b.stored.version + 1 }, (b.tags.map TagRow.name).toFinset⟩ :
        Entry) = Entry.change now (Routers.changesOf payload)
        ⟨row, (tags.map TagRow.name).toFinset⟩ := by
    rw [hset]
    rfl
  refine ⟨db₂, _, hflush, htags₂, I₂, G.keeps.trans K₂, funext fun k => ?_⟩
  rw [hv₂, hentry, G.view_eq I, Function.update_apply]
  rfl

/-- **The flush of a delete** over the stored bookmark removes its entry. -/
theorem flush_delete (I : db.Integrity) (I₁ : db₁.Integrity) (G : db.GainsTags db₁)
    (hs : Snapshot db₁ row tags) :
    ∃ db₂, (Bookmark.loaded row tags).flushDelete db₁ = .ok db₂ ∧ db₂.tags = db₁.tags ∧
      db.Writes db₂ row.id none := by
  obtain ⟨db₂, hflush, I₂, K₂, htags, hv₂⟩ :=
    Bookmark.flushDelete_ok (b := .loaded row tags) I₁ hs
  refine ⟨db₂, hflush, htags, I₂, G.keeps.trans K₂, funext fun k => ?_⟩
  rw [hv₂, G.view_eq I, Function.update_apply]
  rfl

end

/-! ## Refinement -/

/-- An outcome over tables is one over the map: the same error, or the same response with tables
that satisfy their constraints and are viewed as the map. -/
inductive Simulates (db : Db) :
    Except Exc (Response Body × Db) → Except Exc (Response Body × Entries) → Prop
  | error (e : Exc) : Simulates db (.error e) (.error e)
  | ok (r : Response Body) {db' : Db} {s' : Entries} (hI : db'.Integrity) (hK : db.Keeps db')
      (hv : db'.view = s') : Simulates db (.ok (r, db')) (.ok (r, s'))

/-- **A write reads and checks as the map does**; what is left is what it does with its entry. -/
theorem Simulates.guarded {db : Db} {userId bookmarkId : ℤ} {ifMatch : Option Str}
    {f : Bookmark → Except Exc (Response Body × Db)}
    {g : Entry → Except Exc (Response Body × Entries)}
    (h : ∀ e, db.view bookmarkId = some e →
      BookmarkService.checkPrecondition e.row.version ifMatch = .ok () →
      Simulates db (f (db.load P e.row)) (g e)) :
    Simulates db
      (do
        let b ← BookmarkService.get P db userId bookmarkId
        BookmarkService.checkPrecondition b.row.version ifMatch
        f b)
      (do
        let e ← Entries.read P db.view userId bookmarkId
        BookmarkService.checkPrecondition e.row.version ifMatch
        g e) := by
  rw [Db.get_eq]
  rcases hread : Entries.read P db.view userId bookmarkId with x | e
  · exact .error x
  have hv := (Entries.owned_eq_some.mp (Entries.read_eq_ok.mp hread).2).1
  simp only [Except.map, bind, Except.bind]
  rw [show (db.load P e.row).row = e.row from rfl]
  rcases hpre : BookmarkService.checkPrecondition e.row.version ifMatch with x | _
  · exact .error x
  · exact h e hv hpre

namespace Routers

variable {db : Db} {userId : ℤ} {now : ℤ}

theorem createBookmark_refines (I : db.Integrity) {u : UserRow} (hu : db.users.get? userId = some u)
    (payload : BookmarkCreate P) :
    Simulates db (createBookmark now db userId payload)
      (Entries.crud now (db.nextId P) userId db.view (.create payload)) := by
  obtain ⟨raw, hraw⟩ := payload.tagsNormalized
  have hnorm := normalized_of_normalizeTags hraw
  obtain ⟨db₁, ts, hget, I₁, G, hnames, hts⟩ :=
    TagRepository.getOrCreate_ok P none (fun _ => rfl) I payload.tags
  obtain ⟨db₂, row, hflush, hid, -, W⟩ := flush_create I I₁ G now hu payload hnames hts
  have hcreate : BookmarkService.create P now db userId payload.url payload.title
      payload.description payload.tags
      = .ok (db₂, db₂.load P (Entry.ofPayload now (db.nextId P) userId payload).row) := by
    simp only [BookmarkService.create, BookmarkRepository.add, normalizeTags_normalized hnorm, hget,
      bind, Except.bind, hflush, hid, Db.refresh_eq W.view_self]
  simp only [createBookmark, hcreate, bind, Except.bind, Entries.crud,
    Db.bookmarkResponse_load W.integrity W.view_self]
  exact .ok _ W.integrity W.keeps W.view

theorem getBookmark_refines (I : db.Integrity) (bookmarkId : ℤ) :
    Simulates db (getBookmark P db userId bookmarkId)
      (Entries.crud (P := P) now (db.nextId P) userId db.view (.get bookmarkId)) := by
  rw [getBookmark, Db.get_eq, Entries.crud]
  rcases hread : Entries.read P db.view userId bookmarkId with x | e
  · exact .error x
  · have hv := (Entries.owned_eq_some.mp (Entries.read_eq_ok.mp hread).2).1
    simp only [Except.map, bind, Except.bind, Db.bookmarkResponse_load I hv]
    exact .ok _ I (Db.Keeps.refl db) rfl

/-- **Resolving the tags of an update** returns rows of the given names, and adds only tags. -/
theorem resolveTags_ok (I : db.Integrity) (row : BookmarkRow) (payload : BookmarkUpdate P) :
    ∃ db' newTags, BookmarkService.resolveTags P ⟨db, some (db.load P row)⟩ (changesOf payload)
        = .ok (⟨db', some (db.load P row)⟩, newTags) ∧ db'.Integrity ∧ db.GainsTags db' ∧
      newTags.map (List.map TagRow.name) = payload.tags.join ∧
      ∀ ts, newTags = some ts → ∀ t ∈ ts, t ∈ db'.tags.rows := by
  have hjoin := changesOf_tags payload
  rcases hnames : payload.tags.join with _ | names
  · refine ⟨db, none, ?_, I, Db.GainsTags.refl db, rfl, by simp⟩
    rw [BookmarkService.resolveTags, hjoin, hnames]
  · have hgiven : payload.tags = some (some names) := Option.join_eq_some_iff.mp hnames
    obtain ⟨raw, hraw⟩ := payload.tagsNormalized names hgiven
    have hnorm := normalized_of_normalizeTags hraw
    have hclean : ∀ db₁, (⟨db₁, some (db.load P row)⟩ : Session).flush
        = .ok ⟨db₁, some (db.load P row)⟩ := by
      intro db₁
      simp only [Session.flush, Db.load, Bookmark.flush_loaded, bind, Except.bind]
    obtain ⟨db', ts, hget, I', G, hmap, hts⟩ := TagRepository.getOrCreate_ok P _ hclean I names
    refine ⟨db', some ts, ?_, I', G, by rw [Option.map_some, hmap], ?_⟩
    · simp only [BookmarkService.resolveTags, hjoin, hnames, normalizeTags_normalized hnorm, bind,
        Except.bind, hget]
    · rintro _ ⟨⟩
      exact hts

theorem updateBookmark_refines (I : db.Integrity) (bookmarkId : ℤ) (payload : BookmarkUpdate P)
    (ifMatch : Option Str) :
    Simulates db (updateBookmark now db userId bookmarkId payload ifMatch)
      (Entries.crud now (db.nextId P) userId db.view (.update bookmarkId payload ifMatch)) := by
  rw [updateBookmark, BookmarkService.update, Entries.crud]
  simp only [bind_assoc]
  refine .guarded fun e hv hpre => ?_
  obtain rfl : e.row.id = bookmarkId := Db.id_of_view hv
  obtain ⟨db₁, newTags, hres, I₁, G, hnames, hts⟩ := resolveTags_ok I e.row payload
  obtain ⟨hsnap, hshown⟩ := Db.snapshot_load (P := P) hv
  obtain ⟨db₂, b', hflush, -, W⟩ :=
    flush_update I I₁ G now (hsnap.gainsTags I G) payload hnames hts
  rw [hshown] at W
  have hrepo : BookmarkRepository.update P now db₁
      ((changesOf payload).apply newTags (db.load P e.row))
        = .ok (db₂, db₂.load P (e.change now (changesOf payload)).row) :=
    BookmarkRepository.update_eq hflush W.view_self
  simp only [hres, bind, Except.bind, Option.getD_some, hrepo,
    Db.bookmarkResponse_load W.integrity W.view_self]
  exact .ok _ W.integrity W.keeps W.view

theorem deleteBookmark_refines (I : db.Integrity) (bookmarkId : ℤ) (ifMatch : Option Str) :
    Simulates db (deleteBookmark P db userId bookmarkId ifMatch)
      (Entries.crud (P := P) now (db.nextId P) userId db.view (.delete bookmarkId ifMatch)) := by
  rw [deleteBookmark, BookmarkService.delete, Entries.crud]
  simp only [bind_assoc]
  refine .guarded fun e hv hpre => ?_
  obtain rfl : e.row.id = bookmarkId := Db.id_of_view hv
  obtain ⟨hsnap, -⟩ := Db.snapshot_load (P := P) hv
  obtain ⟨db₂, hflush, -, W⟩ := flush_delete I I (Db.GainsTags.refl db) hsnap
  simp only [BookmarkRepository.delete, Db.load, hflush, Except.mapError, bind, Except.bind]
  exact .ok _ W.integrity W.keeps W.view

/-- **The routes refine the map.** -/
theorem crud_refines (I : db.Integrity) {u : UserRow} (hu : db.users.get? userId = some u)
    (c : Crud P) :
    Simulates db (crud now db userId c) (Entries.crud now (db.nextId P) userId db.view c) := by
  cases c with
  | create payload => exact createBookmark_refines I hu payload
  | get bookmarkId => exact getBookmark_refines I bookmarkId
  | update bookmarkId payload ifMatch => exact updateBookmark_refines I bookmarkId payload ifMatch
  | delete bookmarkId ifMatch => exact deleteBookmark_refines I bookmarkId ifMatch

end Routers

/-! ## Calls -/

/-- A call on one bookmark, as a request. -/
def Call.crud (call : Call (Crud P)) : Call (Request P) := ⟨call.user, call.now, .crud call.request⟩

/-- A call over the map. -/
noncomputable def Entries.respond (s : Entries) (fresh : ℤ) (call : Call (Crud P)) :
    Response Body × Entries :=
  match s.crud call.now fresh call.user call.request with
  | .error e => (Response.ofExc e, s)
  | .ok result => result

/-- **All a call can come to**, over the map: no entry to read, a refusal by the precondition, or
what the request asks for. -/
inductive Entries.Outcome (s : Entries) (fresh user now : ℤ) :
    Crud P → Response Body × Entries → Prop
  | unread {c : Crud P} {i : ℤ} {x : Exc} (hc : c.target = some i)
      (hx : x = .app (BookmarkService.notFound i) ∨ x = .overflow) :
      Outcome s fresh user now c (Response.ofExc x, s)
  | refused {c : Crud P} {i : ℤ} {e : Entry} {ifMatch : Option Str} {x : Exc}
      (hc : c.target = some i) (he : s.owned user i = some e)
      (hx : BookmarkService.checkPrecondition e.row.version ifMatch = .error x) :
      Outcome s fresh user now c (Response.ofExc x, s)
  | created (payload : BookmarkCreate P) :
      Outcome s fresh user now (.create payload)
        ((Entry.ofPayload now fresh user payload).answer P 201,
          Function.update s fresh (some (Entry.ofPayload now fresh user payload)))
  | got {i : ℤ} {e : Entry} (he : s.owned user i = some e) :
      Outcome s fresh user now (.get i) (e.answer P 200, s)
  | updated {i : ℤ} {e : Entry} {payload : BookmarkUpdate P} {ifMatch : Option Str}
      (he : s.owned user i = some e)
      (hx : BookmarkService.checkPrecondition e.row.version ifMatch = .ok ()) :
      Outcome s fresh user now (.update i payload ifMatch)
        ((e.change now (Routers.changesOf payload)).answer P 200,
          Function.update s i (some (e.change now (Routers.changesOf payload))))
  | deleted {i : ℤ} {e : Entry} {ifMatch : Option Str} (he : s.owned user i = some e)
      (hx : BookmarkService.checkPrecondition e.row.version ifMatch = .ok ()) :
      Outcome s fresh user now (.delete i ifMatch)
        ({ status := 204, body := .inl .empty }, Function.update s i none)

theorem Entries.read_eq_error {s : Entries} {user i : ℤ} {x : Exc}
    (h : s.read P user i = .error x) :
    x = .app (BookmarkService.notFound i) ∨ x = .overflow := by
  rw [read] at h
  split_ifs at h
  · rcases hown : s.owned user i with _ | e
    · rw [hown] at h
      exact Or.inl (Except.error.inj h).symm
    · rw [hown] at h
      cases h
  · exact Or.inr (Except.error.inj h).symm

/-- **A call comes to one of its outcomes.** -/
theorem Entries.respond_outcome (s : Entries) (fresh user now : ℤ) (c : Crud P) :
    s.Outcome fresh user now c (s.respond fresh ⟨user, now, c⟩) := by
  rcases c with payload | i | ⟨i, payload, ifMatch⟩ | ⟨i, ifMatch⟩
  · exact .created payload
  all_goals
    simp only [respond, crud, bind, Except.bind]
    rcases hread : s.read P user i with x | e
    · exact .unread rfl (read_eq_error hread)
    have he := (read_eq_ok.mp hread).2
  · exact .got he
  all_goals
    simp only
    rcases hx : BookmarkService.checkPrecondition e.row.version ifMatch with x | _
    · exact .refused rfl he hx
  · exact .updated he hx
  · exact .deleted he hx

/-- **Where an entry comes from**: it was there, a create put it there, or an update changed it. -/
theorem Entries.Outcome.entry {s : Entries} {fresh user now : ℤ} {c : Crud P}
    {outcome : Response Body × Entries} (h : s.Outcome fresh user now c outcome) {i : ℤ} {e : Entry}
    (he : outcome.2 i = some e) :
    s i = some e ∨ (∃ payload, c = .create payload ∧ i = fresh ∧
        e = Entry.ofPayload now fresh user payload) ∨
      ∃ payload ifMatch old, c = .update i payload ifMatch ∧ s.owned user i = some old ∧
        e = old.change now (Routers.changesOf payload) := by
  cases h with
  | unread _ _ => exact Or.inl he
  | refused _ _ _ => exact Or.inl he
  | got _ => exact Or.inl he
  | created payload =>
    simp only [Function.update_apply] at he
    split_ifs at he with hi
    · exact Or.inr (Or.inl ⟨payload, rfl, hi, (Option.some.inj he).symm⟩)
    · exact Or.inl he
  | @updated j old payload ifMatch hown _ =>
    simp only [Function.update_apply] at he
    split_ifs at he with hi
    · subst hi
      exact Or.inr (Or.inr ⟨payload, ifMatch, old, rfl, hown, (Option.some.inj he).symm⟩)
    · exact Or.inl he
  | deleted _ _ =>
    simp only [Function.update_apply] at he
    split_ifs at he
    exact Or.inl he

namespace Db

/-- The user has an account. -/
def Registered (db : Db) (userId : ℤ) : Prop := ∃ u, db.users.get? userId = some u

instance (db : Db) (userId : ℤ) : Decidable (db.Registered userId) :=
  decidable_of_iff ((db.users.get? userId).isSome = true) Option.isSome_iff_exists

theorem Keeps.registered {db db' : Db} (h : db.Keeps db') {userId : ℤ} :
    db'.Registered userId ↔ db.Registered userId := by
  rw [Registered, Registered, h.users]

/-- The next id has no entry. -/
theorem view_nextId {db : Db} (P : Platform) (I : db.Integrity) : db.view (db.nextId P) = none := by
  refine view_eq_none.mpr (Table.get?_eq_none.mpr fun b hb => ?_)
  exact IdRule.next_ne _ (by simpa using I.bookmarkSeq) (List.mem_map_of_mem hb)

end Db

namespace Routers

variable {db : Db}

/-- One call on one bookmark: its response, and the tables after it. -/
def respondCrud (db : Db) (call : Call (Crud P)) : Response Body × Db := respond db call.crud

/-- A registered user's request reaches its route. -/
theorem respond_eq {call : Call (Request P)} (hu : db.Registered call.user) :
    respond db call = match route call.now db call.user call.request with
      | .error e => (Response.ofExc e, db)
      | .ok result => result := by
  obtain ⟨u, hu⟩ := hu
  have hid : u.id = call.user := (Table.get?_eq_some.mp hu).2
  rcases hroute : route call.now db call.user call.request with e | result
  · simp only [respond, getCurrentUser, hu, bind, Except.bind, hid, hroute]
  · simp only [respond, getCurrentUser, hu, bind, Except.bind, hid, hroute]

/-- **A call answers as the map does, and leaves tables viewed as the map it leaves.** -/
theorem respond_refines (I : db.Integrity) (call : Call (Crud P)) (hu : db.Registered call.user) :
    (respondCrud db call).1 = (Entries.respond db.view (db.nextId P) call).1 ∧
      (respondCrud db call).2.view = (Entries.respond db.view (db.nextId P) call).2 ∧
      (respondCrud db call).2.Integrity ∧ db.Keeps (respondCrud db call).2 := by
  rw [respondCrud, respond_eq hu]
  obtain ⟨u, hu⟩ := hu
  have hsim : Simulates db (crud call.now db call.user call.request)
      (Entries.crud call.now (db.nextId P) call.user db.view call.request) :=
    crud_refines I hu call.request
  simp only [Call.crud, route, Entries.respond]
  generalize crud call.now db call.user call.request = outcome at hsim ⊢
  generalize Entries.crud call.now (db.nextId P) call.user db.view call.request = outcome' at hsim ⊢
  rcases hsim with e | ⟨r, hI, hK, hv⟩
  · exact ⟨rfl, rfl, I, Db.Keeps.refl db⟩
  · exact ⟨rfl, hv, hI, hK⟩

/-- Nobody without an account gets past authentication. -/
theorem respond_unregistered {call : Call (Request P)} (hu : ¬ db.Registered call.user) :
    respond db call = (Response.ofExc (.app (authError "User account no longer exists.")), db) := by
  have hnone : db.users.get? call.user = none :=
    Option.eq_none_iff_forall_ne_some.mpr fun u h => hu ⟨u, h⟩
  simp only [respond, getCurrentUser, hnone, bind, Except.bind]

/-- A list leaves the tables as they are. -/
theorem respond_list (db : Db) (user now : ℤ) (query : ListQuery) :
    (respond (P := P) db ⟨user, now, .list query⟩).2 = db := by
  by_cases hu : db.Registered user
  · rw [respond_eq hu, route, listBookmarks]
    rcases BookmarkService.list P db user query with x | page <;> rfl
  · rw [respond_unregistered hu]

theorem respond_stats (db : Db) (user now : ℤ) :
    (respond (P := P) db ⟨user, now, .stats⟩).2 = db := by
  by_cases hu : db.Registered user
  · rw [respond_eq hu]
    rfl
  · rw [respond_unregistered hu]

/-- **Every request keeps the constraints**, the accounts and the tags. -/
theorem respond_keeps (I : db.Integrity) (call : Call (Request P)) :
    (respond db call).2.Integrity ∧ db.Keeps (respond db call).2 := by
  by_cases hu : db.Registered call.user
  · obtain ⟨user, now, request⟩ := call
    rcases request with c | query | _
    · exact (respond_refines I ⟨user, now, c⟩ hu).2.2
    · rw [respond_list]
      exact ⟨I, Db.Keeps.refl db⟩
    · rw [respond_stats]
      exact ⟨I, Db.Keeps.refl db⟩
  · rw [respond_unregistered hu]
    exact ⟨I, Db.Keeps.refl db⟩

end Routers
