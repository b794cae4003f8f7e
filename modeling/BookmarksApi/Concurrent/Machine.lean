import BookmarksApi.Machinery.Runs
import BookmarksApi.Routers.Bookmarks
import Mathlib.Data.Fintype.Basic

/-!
# Concurrent/Machine — requests interleaved, one SQL statement at a time

Every request runs in a session of its own, and a **phase** says how far it has come: which rows it
has selected, which names it still has to resolve, which tag rows it has inserted and not committed.
One move is one statement, read at the latest committed state (READ COMMITTED); a flush and the
commit that ends it are one move, guarded by the version that was loaded.  Between the statements of
that flush a database can make one request wait for a row that another has locked: such waits are
not seen here.

What a transaction has inserted is seen by the others when it commits.  Until then an insert of the
same name waits for it, and a request that raises drops it.  A tag takes the next number of its
sequence when it is inserted, so no two transactions share one.  That is PostgreSQL's way; SQLite,
where one transaction writes at a time, gives one more than the greatest id stored, and gives it
again after a rollback.  The numbers only tell rows apart: no result about interleaved requests says
which one a tag gets.
-/

variable {P : Platform}

/-- The tables as a transaction sees them that has inserted these tags. -/
def Db.addTags (db : Db) (ts : List TagRow) : Db :=
  { db with tags := db.tags.insertAll ts }

/-- How far a request has come. -/
inductive Phase
  | start
  /-- `get_owned` has selected the row, its tags are next. -/
  | rowRead (row : BookmarkRow)
  /-- `get_or_create` is called, with the instance the session holds, if any. -/
  | lookup (held : Option Bookmark) (names : List Str)
  /-- The loop of `get_or_create`: `by_name`, the names to come, and the `result` so far. -/
  | resolving (held : Option Bookmark) (byName : List TagRow) (todo : List Str)
      (result pending : List TagRow)
  /-- The tags are resolved, when there were any to resolve; the commit is next. -/
  | committing (held : Option Bookmark) (newTags : Option (List TagRow)) (pending : List TagRow)
  /-- `refresh` has yet to select the row. -/
  | refreshing (bookmarkId : ℤ)
  /-- `refresh` has selected the row, its tags are next. -/
  | rowRefreshed (row : BookmarkRow)
  /-- The commit lost its race and was rolled back; `_current_etag` is next. -/
  | conflicted (bookmarkId : ℤ)
  | done (result : Except Exc (Response Body))
  deriving DecidableEq

/-- An update or delete, with its `If-Match`. -/
inductive Crud.Writes : Crud P → Option Str → Prop
  | update {k : ℤ} {payload : BookmarkUpdate P} {ifMatch : Option Str} :
      Writes (.update k payload ifMatch) ifMatch
  | delete {k : ℤ} {ifMatch : Option Str} : Writes (.delete k ifMatch) ifMatch

namespace Phase

/-- The tags inserted and not committed. -/
def pending : Phase → List TagRow
  | resolving _ _ _ _ pending => pending
  | committing _ _ pending => pending
  | _ => []

/-- The name whose `INSERT` is the next statement. -/
def inserting : Phase → Option Str
  | resolving _ byName (name :: _) _ _ => if name ∈ byName.map TagRow.name then none else some name
  | _ => none

/-- `get_or_create` of the normalized names, or the commit when there are no tags to resolve. -/
def resolve (P : Platform) (held : Option Bookmark) : Option (List Str) → Phase
  | none => committing held none []
  | some tags =>
    match normalizeTags P tags with
    | .error e => done (.error e)
    | .ok names => if names = [] then committing held (some []) [] else lookup held names

/-- All that resolving can come to. -/
theorem resolve_cases (P : Platform) (held : Option Bookmark) (names : Option (List Str)) :
    (∃ x, resolve P held names = done (.error x)) ∨
      (∃ newTags, resolve P held names = committing held newTags []) ∨
      ∃ ns, Normalized P ns ∧ resolve P held names = lookup held ns := by
  rcases names with _ | raw
  · exact Or.inr (Or.inl ⟨none, rfl⟩)
  · rw [resolve]
    rcases hnames : normalizeTags P raw with x | ns
    · exact Or.inl ⟨x, rfl⟩
    · by_cases hnil : ns = []
      · exact Or.inr (Or.inl ⟨some [], by simp only [hnil, if_true]⟩)
      · refine Or.inr (Or.inr ⟨ns, normalized_of_normalizeTags hnames, ?_⟩)
        simp only [hnil, if_false]

/-- `get`: the row `get_owned` selects, or the 404. -/
def selected (P : Platform) (db : Db) (userId bookmarkId : ℤ) : Phase :=
  match BookmarkRepository.ownedRow P db userId bookmarkId with
  | .error e => done (.error e)
  | .ok none => done (.error (.app (BookmarkService.notFound bookmarkId)))
  | .ok (some row) => rowRead row

/-- After `get`: the response, or the precondition and what follows it. -/
def loaded (b : Bookmark) : Crud P → Phase
  | .update _ payload ifMatch =>
    match BookmarkService.checkPrecondition b.row.version ifMatch with
    | .error e => done (.error e)
    | .ok () => resolve P (some b) (Routers.changesOf payload).tags.join
  | .delete _ ifMatch =>
    match BookmarkService.checkPrecondition b.row.version ifMatch with
    | .error e => done (.error e)
    | .ok () => committing (some b) none []
  | _ => done (.ok (Routers.bookmarkResponse 200 b))

/-- One turn of the loop of `get_or_create`.  The instance held is as it was loaded, so a flush
emits the `INSERT` alone. -/
def turn (db : Db) (held : Option Bookmark) (byName result pending : List TagRow) :
    List Str → Db × Phase
  | [] => (db, committing held (some result) pending)
  | name :: todo =>
    match byName.find? fun t => t.name = name with
    | some tag => (db, resolving held byName todo (result ++ [tag]) pending)
    | none =>
      if name ∈ db.tags.rows.map TagRow.name then (db, done (.error .integrityError))
      else
        let tag : TagRow := ⟨db.tagSeq + 1, name⟩
        ({ db with tagSeq := db.tagSeq + 1 },
          resolving held (tag :: byName) todo (result ++ [tag]) (pending ++ [tag]))

/-- What a failed commit of an update or delete leads to. -/
def failed (bookmarkId : ℤ) : Exc → Phase
  | .staleVersion => conflicted bookmarkId
  | e => done (.error e)

/-- The flush and commit of what the session holds, over the tables as its transaction sees them. -/
def commit (call : Call (Crud P)) (db : Db) (newTags : Option (List TagRow))
    (pending : List TagRow) : Option Bookmark → Option (Db × Phase)
  | none =>
    match call.request with
    | .create payload =>
      some <| match NewBookmark.flush P call.now (db.addTags pending) ⟨payload.url, payload.title,
          payload.description, call.user, newTags.getD []⟩ with
        | .error e => (db, done (.error e))
        | .ok (db', row) => (db', refreshing row.id)
    | _ => none
  | some b =>
    match call.request with
    | .update _ payload _ =>
      some <| match (BookmarkRepository.touch call.now
          ((Routers.changesOf payload).apply newTags b)).flush (db.addTags pending) with
        | .error e => (db, failed b.stored.id (BookmarkRepository.translate e))
        | .ok (db', _) => (db', refreshing b.stored.id)
    | .delete _ _ =>
      some <| match b.flushDelete (db.addTags pending) with
        | .error e => (db, failed b.stored.id (BookmarkRepository.translate e))
        | .ok db' => (db', done (.ok { status := 204, body := .inl .empty }))
    | _ => none

/-- `refresh`: the row, if it is still there. -/
def reselected (db : Db) (bookmarkId : ℤ) : Phase :=
  match db.bookmarks.get? bookmarkId with
  | none => done (.error .invalidRequest)
  | some row => rowRefreshed row

/-- The status of a success that carries a bookmark. -/
def okStatus : Crud P → ℕ
  | .create _ => 201
  | _ => 200

/-- **The next statement of a request**, with the phase it leads to. -/
def next (call : Call (Crud P)) (db : Db) : Phase → Option (Db × Phase)
  | start => some (db, match call.request with
    | .create payload => resolve P none (some payload.tags)
    | .get bookmarkId => selected P db call.user bookmarkId
    | .update bookmarkId _ _ => selected P db call.user bookmarkId
    | .delete bookmarkId _ => selected P db call.user bookmarkId)
  | rowRead row => some (db, loaded (.loaded row (db.tagsOf P row.id)) call.request)
  | lookup held names =>
    some (db, resolving held (TagRepository.existing db names) names [] [])
  | resolving held byName todo result pending => some (turn db held byName result pending todo)
  | committing held newTags pending => commit call db newTags pending held
  | refreshing bookmarkId => some (db, reselected db bookmarkId)
  | rowRefreshed row =>
    some (db, done (.ok (Routers.bookmarkResponse (okStatus call.request)
      (.loaded row (db.tagsOf P row.id)))))
  | conflicted bookmarkId => some (db, done (do
    let etag ← BookmarkService.currentEtag P db call.user bookmarkId
    .error (.app (BookmarkService.conflict etag))))
  | done _ => none

/-- **All a statement can do.** -/
inductive Move (call : Call (Crud P)) (db : Db) : Phase → Db → Phase → Prop
  | created {payload : BookmarkCreate P} (hreq : call.request = .create payload) :
      Move call db start db (resolve P none (some payload.tags))
  | unbindable {k : ℤ} (hk : call.request.target = some k) (hb : ¬ P.bindable k = true) :
      Move call db start db (done (.error .overflow))
  | absent {k : ℤ} (hk : call.request.target = some k)
      (habsent : ∀ row, db.bookmarks.get? k = some row → row.userId ≠ call.user) :
      Move call db start db (done (.error (.app (BookmarkService.notFound k))))
  | found {k : ℤ} {row : BookmarkRow} (hk : call.request.target = some k)
      (hget : db.bookmarks.get? k = some row) (howner : row.userId = call.user) :
      Move call db start db (rowRead row)
  | shown {row : BookmarkRow} (hreq : ¬ ∃ ifMatch, call.request.Writes ifMatch) :
      Move call db (rowRead row) db
        (done (.ok (Routers.bookmarkResponse 200 (.loaded row (db.tagsOf P row.id)))))
  | refused {row : BookmarkRow} {ifMatch : Option Str} {x : Exc}
      (hreq : call.request.Writes ifMatch)
      (hx : BookmarkService.checkPrecondition row.version ifMatch = .error x) :
      Move call db (rowRead row) db (done (.error x))
  | updating {row : BookmarkRow} {k : ℤ} {payload : BookmarkUpdate P} {ifMatch : Option Str}
      (hreq : call.request = .update k payload ifMatch)
      (hx : BookmarkService.checkPrecondition row.version ifMatch = .ok ()) :
      Move call db (rowRead row) db (resolve P (some (.loaded row (db.tagsOf P row.id)))
        (Routers.changesOf payload).tags.join)
  | deleting {row : BookmarkRow} {k : ℤ} {ifMatch : Option Str}
      (hreq : call.request = .delete k ifMatch)
      (hx : BookmarkService.checkPrecondition row.version ifMatch = .ok ()) :
      Move call db (rowRead row) db (committing (some (.loaded row (db.tagsOf P row.id))) none [])
  | lookedUp {held : Option Bookmark} {names : List Str} :
      Move call db (lookup held names) db
        (resolving held (TagRepository.existing db names) names [] [])
  | resolved {held : Option Bookmark} {byName result pending : List TagRow} :
      Move call db (resolving held byName [] result pending) db
        (committing held (some result) pending)
  | reused {held : Option Bookmark} {byName result pending : List TagRow} {name : Str}
      {todo : List Str} {tag : TagRow} (htag : tag ∈ byName) (hname : tag.name = name) :
      Move call db (resolving held byName (name :: todo) result pending) db
        (resolving held byName todo (result ++ [tag]) pending)
  | collided {held : Option Bookmark} {byName result pending : List TagRow} {name : Str}
      {todo : List Str} (hmissing : name ∉ byName.map TagRow.name)
      (hstored : name ∈ db.tags.rows.map TagRow.name) :
      Move call db (resolving held byName (name :: todo) result pending) db
        (done (.error .integrityError))
  | inserted {held : Option Bookmark} {byName result pending : List TagRow} {name : Str}
      {todo : List Str} (hmissing : name ∉ byName.map TagRow.name)
      (hnew : name ∉ db.tags.rows.map TagRow.name) :
      Move call db (resolving held byName (name :: todo) result pending)
        { db with tagSeq := db.tagSeq + 1 }
        (resolving held (⟨db.tagSeq + 1, name⟩ :: byName) todo
          (result ++ [⟨db.tagSeq + 1, name⟩]) (pending ++ [⟨db.tagSeq + 1, name⟩]))
  | committed {held : Option Bookmark} {newTags : Option (List TagRow)} {pending : List TagRow}
      {db' : Db} {p' : Phase} (hcommit : commit call db newTags pending held = some (db', p')) :
      Move call db (committing held newTags pending) db' p'
  | gone {k : ℤ} (hget : db.bookmarks.get? k = none) :
      Move call db (refreshing k) db (done (.error .invalidRequest))
  | reselected {k : ℤ} {row : BookmarkRow} (hget : db.bookmarks.get? k = some row) :
      Move call db (refreshing k) db (rowRefreshed row)
  | answered {row : BookmarkRow} :
      Move call db (rowRefreshed row) db (done (.ok (Routers.bookmarkResponse
        (okStatus call.request) (.loaded row (db.tagsOf P row.id)))))
  | reported {k : ℤ} :
      Move call db (conflicted k) db (done (do
        let etag ← BookmarkService.currentEtag P db call.user k
        .error (.app (BookmarkService.conflict etag))))

section

variable {call : Call (Crud P)} {db db' : Db} {p p' : Phase}

theorem move_selected {k : ℤ} (hk : call.request.target = some k) :
    Move call db start db (selected P db call.user k) := by
  rw [selected, BookmarkRepository.ownedRow]
  split_ifs with hb
  · generalize hrow : Option.filter _ (db.bookmarks.get? k) = row?
    rcases row? with _ | row
    · refine .absent hk fun row hget howner => ?_
      simp [hget, howner] at hrow
    · obtain ⟨hget, howner⟩ := Option.filter_eq_some_iff.mp hrow
      exact .found hk hget (of_decide_eq_true howner)
  · exact .unbindable hk hb

theorem move_loaded (row : BookmarkRow) : Move call db (rowRead row) db
    (loaded (.loaded row (db.tagsOf P row.id)) call.request) := by
  cases hreq : call.request with
  | create payload => exact .shown (by rw [hreq]; rintro ⟨_, ⟨⟩⟩)
  | get k => exact .shown (by rw [hreq]; rintro ⟨_, ⟨⟩⟩)
  | update k payload ifMatch =>
    rw [loaded]
    rcases hx : BookmarkService.checkPrecondition row.version ifMatch with x | _
    · simp only [Bookmark.loaded, hx]
      exact .refused (by rw [hreq]; exact .update) hx
    · simp only [Bookmark.loaded, hx]
      exact .updating hreq hx
  | delete k ifMatch =>
    rw [loaded]
    rcases hx : BookmarkService.checkPrecondition row.version ifMatch with x | _
    · simp only [Bookmark.loaded, hx]
      exact .refused (by rw [hreq]; exact .delete) hx
    · simp only [Bookmark.loaded, hx]
      exact .deleting hreq hx

theorem move_turn {held : Option Bookmark} {byName result pending : List TagRow}
    {todo : List Str} : Move call db (resolving held byName todo result pending)
      (turn db held byName result pending todo).1 (turn db held byName result pending todo).2 := by
  cases todo with
  | nil => exact .resolved
  | cons name todo =>
    rw [turn]
    rcases hfind : byName.find? fun t => t.name = name with _ | tag
    · have hmissing : name ∉ byName.map TagRow.name := by simpa using List.find?_eq_none.mp hfind
      simp only [hfind]
      split_ifs with hstored
      · exact .collided hmissing hstored
      · exact .inserted hmissing hstored
    · simp only [hfind]
      exact .reused (List.mem_of_find?_eq_some hfind) (by simpa using List.find?_some hfind)

/-- **A statement does one of these things.** -/
theorem move_of_next (hnext : p.next call db = some (db', p')) : Move call db p db' p' := by
  cases p with
  | start =>
    obtain ⟨rfl, rfl⟩ := Prod.mk.inj (Option.some.inj hnext)
    cases hreq : call.request with
    | create payload => exact .created hreq
    | _ => exact move_selected (by rw [hreq]; rfl)
  | rowRead row =>
    obtain ⟨rfl, rfl⟩ := Prod.mk.inj (Option.some.inj hnext)
    exact move_loaded row
  | lookup held names =>
    obtain ⟨rfl, rfl⟩ := Prod.mk.inj (Option.some.inj hnext)
    exact .lookedUp
  | resolving held byName todo result pending =>
    obtain ⟨rfl, rfl⟩ := Prod.mk.inj (Option.some.inj hnext)
    exact move_turn
  | committing held newTags pending => exact .committed hnext
  | refreshing k =>
    obtain ⟨rfl, rfl⟩ := Prod.mk.inj (Option.some.inj hnext)
    rw [Phase.reselected]
    rcases hget : db.bookmarks.get? k with _ | row
    · exact .gone hget
    · exact .reselected hget
  | rowRefreshed row =>
    obtain ⟨rfl, rfl⟩ := Prod.mk.inj (Option.some.inj hnext)
    exact .answered
  | conflicted k =>
    obtain ⟨rfl, rfl⟩ := Prod.mk.inj (Option.some.inj hnext)
    exact .reported
  | done result => cases hnext

end

/-- The response of a request that succeeded. -/
def response? : Phase → Option (Response Body)
  | done (.ok r) => some r
  | _ => none

end Phase

/-! ## The machine -/

section

variable {ι : Type*}

/-- Configurations: the committed tables with the states they had, and the phase of each request. -/
abbrev Config (ι : Type*) := Conf ι (History Db) Phase

/-- Nobody else has inserted the name that this request inserts next. -/
def Config.Unblocked (c : Config ι) (i : ι) : Prop :=
  ∀ name ∈ (c.thread i).inserting, ∀ j, j ≠ i → name ∉ (c.thread j).pending.map TagRow.name

/-- **The service under concurrent requests.** -/
def machine (req : ι → Call (Crud P)) : Interleaving ι (History Db) Phase where
  move i c h' p' := Config.Unblocked c i ∧
    ∃ db', (c.thread i).next (req i) c.shared.now = some (db', p') ∧ h' = c.shared.push db'

/-- Where a run starts. -/
def Config.initial (db : Db) : Config ι := ⟨History.single db, fun _ => .start⟩

variable [DecidableEq ι] [Fintype ι]

instance Config.decidableUnblocked (c : Config ι) (i : ι) : Decidable (Config.Unblocked c i) :=
  inferInstanceAs (Decidable (∀ name ∈ (c.thread i).inserting, _))

/-- The move of a thread, computed. -/
def Config.next (req : ι → Call (Crud P)) (i : ι) (c : Config ι) : Option (History Db × Phase) :=
  if Config.Unblocked c i then
    ((c.thread i).next (req i) c.shared.now).map (Prod.map c.shared.push id)
  else none

theorem Config.move_of_next {req : ι → Call (Crud P)} {i : ι} {c : Config ι} {h' : History Db}
    {p' : Phase} (h : Config.next req i c = some (h', p')) : (machine req).move i c h' p' := by
  rw [Config.next] at h
  split_ifs at h with hfree
  obtain ⟨⟨db', q⟩, hnext, heq⟩ := Option.map_eq_some_iff.mp h
  obtain ⟨rfl, rfl⟩ := Prod.mk.inj heq
  exact ⟨hfree, db', hnext, rfl⟩

/-- **A schedule that can be computed is a run**, here one around a move of a thread. -/
theorem Config.exists_run (req : ι → Call (Crud P)) (C : ι → Config ι → History Db → Prop)
    [∀ i c h, Decidable (C i c h)] (c₀ : Config ι) (before : List ι) (i : ι) (after : List ι)
    (p : Config ι → Config ι → Config ι → Bool)
    (h : ((Interleaving.schedule (Config.next req) C before c₀).bind fun c₁ =>
      (Interleaving.perform (Config.next req) C i c₁).bind fun c₂ =>
        (Interleaving.schedule (Config.next req) C after c₂).map fun c₃ => p c₁ c₂ c₃)
      = some true) :
    ∃ c₁ c₂ c₃, ((machine req).restrict C).Run c₀ c₁ ∧ ((machine req).restrict C).StepBy i c₁ c₂ ∧
      ((machine req).restrict C).Run c₂ c₃ ∧ p c₁ c₂ c₃ = true :=
  Interleaving.exists_run_around (Config.next req) C (fun _ _ _ _ => Config.move_of_next) c₀
    before i after p h

end
