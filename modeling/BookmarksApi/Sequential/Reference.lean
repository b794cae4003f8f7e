import BookmarksApi.Machinery.Runs
import BookmarksApi.Store.Entries

/-!
# Sequential/Reference — one request at a time is a map

The reference is what a client can know of the service: a map from an id to an owner, a url, a
title, a description, a set of tag names and a version.  It says nothing of tables, links, tag rows
or clocks, and an answer is compared by what it shows of a bookmark, or by its status.

Requests run one at a time answer as the reference does — as long as the driver can bind the ids
they name (`runs_iff_bindable`).  An id outside its range is answered 500, and the reference has no
such answer.
-/

variable {P : Platform}

/-! ## The reference -/

/-- A bookmark of the reference. -/
@[ext] structure RefBookmark where
  owner : ℤ
  url : Str
  title : Str
  description : Option Str
  tags : Finset Str
  version : ℕ

/-- What an answer shows of a bookmark. -/
structure Shown where
  id : ℤ
  url : Str
  title : Str
  description : Option Str
  tags : List Str
  version : ℕ

/-- What is compared of a response. -/
inductive Answer
  /-- A bookmark, under its ETag. -/
  | bookmark (status : ℕ) (etag : Option Str) (b : Shown)
  /-- A success without a bookmark. -/
  | done (status : ℕ)
  /-- A refusal, with the ETag it reports. -/
  | refused (status : ℕ) (etag : Option Str)

/-- The part of a response that is compared. -/
def observe (r : Response Body) : Answer :=
  match r.body with
  | .inl (.bookmark b) =>
    .bookmark r.status r.etag ⟨b.id, b.url, b.title, b.description, b.tags, b.version⟩
  | .inl _ => .done r.status
  | .inr _ => .refused r.status r.etag

/-- The map. -/
abbrev Reference := ℤ → Option RefBookmark

namespace RefBookmark

/-- A stored bookmark in an answer: its tag names in order, and its version as ETag. -/
noncomputable def shown (P : Platform) (status : ℕ) (bookmarkId : ℤ) (b : RefBookmark) : Answer :=
  .bookmark status (some (VersionETagService.makeEtag b.version))
    ⟨bookmarkId, b.url, b.title, b.description, P.collation.sortSet b.tags, b.version⟩

/-- A new bookmark: the given fields, at version 1. -/
def ofCreate (owner : ℤ) (payload : BookmarkCreate P) : RefBookmark :=
  { owner := owner, url := payload.url, title := payload.title
    description := payload.description, tags := payload.tags.toFinset, version := 1 }

/-- An update: `url` and `title` if not null, `description` if supplied, `tags` if not null. -/
def replace (payload : BookmarkUpdate P) (b : RefBookmark) : RefBookmark :=
  { owner := b.owner
    url := payload.url.join.getD b.url
    title := payload.title.join.getD b.title
    description := payload.description.getD b.description
    tags := (payload.tags.join.map List.toFinset).getD b.tags
    version := b.version + 1 }

/-- The refusal of a write: 428 without an `If-Match`, 412 with one that does not match. -/
def refusal (b : RefBookmark) (ifMatch : Option Str) : Option Answer :=
  let etag := VersionETagService.makeEtag b.version
  match ifMatch with
  | none => some (.refused 428 (some etag))
  | some header =>
    if Str.strip header = [] then some (.refused 428 (some etag))
    else if VersionETagService.matches header b.version then none
    else some (.refused 412 (some etag))

end RefBookmark

/-- **The precondition refuses as the reference does.** -/
theorem RefBookmark.refusal_eq (b : RefBookmark) (ifMatch : Option Str) :
    b.refusal ifMatch = match BookmarkService.checkPrecondition b.version ifMatch with
      | .error x => some (observe (Response.ofExc x))
      | .ok _ => none := by
  rcases ifMatch with _ | header
  · rfl
  · rw [refusal, BookmarkService.checkPrecondition]
    by_cases hblank : Str.strip header = []
    · simp only [hblank, if_true]
      rfl
    · simp only [hblank, if_false]
      by_cases hm : VersionETagService.matches header b.version = true
      · simp only [hm, if_true]
      · simp only [hm]
        rfl

namespace Reference

/-- One call on the reference; `fresh` is the id a create gets. -/
noncomputable def call (fresh : ℤ) (m : Reference) (c : Call (Crud P)) : Answer × Reference :=
  let owned (bookmarkId : ℤ) := (m bookmarkId).filter fun b => b.owner = c.user
  match c.request with
  | .create payload =>
    let b := RefBookmark.ofCreate c.user payload
    (b.shown P 201 fresh, Function.update m fresh (some b))
  | .get bookmarkId =>
    match owned bookmarkId with
    | none => (.refused 404 none, m)
    | some b => (b.shown P 200 bookmarkId, m)
  | .update bookmarkId payload ifMatch =>
    match owned bookmarkId with
    | none => (.refused 404 none, m)
    | some b =>
      match b.refusal ifMatch with
      | some refusal => (refusal, m)
      | none => ((b.replace payload).shown P 200 bookmarkId,
          Function.update m bookmarkId (some (b.replace payload)))
  | .delete bookmarkId ifMatch =>
    match owned bookmarkId with
    | none => (.refused 404 none, m)
    | some b =>
      match b.refusal ifMatch with
      | some refusal => (refusal, m)
      | none => (.done 204, Function.update m bookmarkId none)

/-- **The answers a reference may give to a list of calls**: a create gets an id that is free. -/
inductive Runs : Reference → List (Call (Crud P)) → List Answer → Prop
  | nil (m : Reference) : Runs m [] []
  | cons {m : Reference} {c : Call (Crud P)} {calls : List (Call (Crud P))} {answers : List Answer}
      (fresh : ℤ) (hfresh : m fresh = none) (h : Runs (call fresh m c).2 calls answers) :
      Runs m (c :: calls) ((call fresh m c).1 :: answers)

end Reference

/-! ## From entries to the reference -/

/-- The reference's part of an entry. -/
def Entry.ref (e : Entry) : RefBookmark :=
  ⟨e.row.userId, e.row.url, e.row.title, e.row.description, e.tags, e.row.version⟩

/-- The reference of a map of entries. -/
def Entries.ref (s : Entries) : Reference := fun bookmarkId => (s bookmarkId).map Entry.ref

/-- The driver can bind every id a call names. -/
def Call.Bindable (c : Call (Crud P)) : Prop := ∀ i ∈ c.request.target, P.bindable i = true

namespace Entries

variable {s : Entries} {userId bookmarkId : ℤ}

theorem ref_owned (s : Entries) (userId bookmarkId : ℤ) :
    ((s.ref bookmarkId).filter fun b => b.owner = userId)
      = (s.owned userId bookmarkId).map Entry.ref := by
  rw [ref, owned, Option.filter_map]
  rfl

theorem ref_update (s : Entries) (bookmarkId : ℤ) (e : Option Entry) :
    Entries.ref (Function.update s bookmarkId e)
      = Function.update s.ref bookmarkId (e.map Entry.ref) := by
  funext k
  rw [ref, Function.update_apply, Function.update_apply]
  split_ifs <;> rfl

theorem observe_answer {e : Entry} (h : e.row.id = bookmarkId) (status : ℕ) :
    observe (e.answer P status) = e.ref.shown P status bookmarkId := by
  subst h
  rfl

theorem read_eq (hb : P.bindable bookmarkId = true) :
    s.read P userId bookmarkId = (s.owned userId bookmarkId).elim
      (.error (.app (BookmarkService.notFound bookmarkId))) .ok := by
  rw [read, if_pos hb]
  cases s.owned userId bookmarkId <;> rfl

/-- **A call on entries answers as one on their reference.** -/
theorem respond_ref (fresh : ℤ) (c : Call (Crud P)) (hc : c.Bindable)
    (hid : ∀ i e, s i = some e → e.row.id = i) :
    observe (s.respond fresh c).1 = (Reference.call fresh s.ref c).1 ∧
      (s.respond fresh c).2.ref = (Reference.call fresh s.ref c).2 := by
  obtain ⟨user, now, request⟩ := c
  rcases request with payload | i | ⟨i, payload, ifMatch⟩ | ⟨i, ifMatch⟩
  · exact ⟨observe_answer rfl 201, ref_update _ _ _⟩
  all_goals
    simp only [respond, crud, Reference.call, read_eq (hc i rfl), ref_owned]
    rcases hown : s.owned user i with _ | e
    · exact ⟨rfl, rfl⟩
  · exact ⟨observe_answer (hid i e (owned_eq_some.mp hown).1) 200, rfl⟩
  all_goals
    simp only [Option.elim_some, Option.map_some, RefBookmark.refusal_eq, bind, Except.bind]
    rw [show e.ref.version = e.row.version from rfl]
    rcases BookmarkService.checkPrecondition e.row.version ifMatch with x | _
    · exact ⟨rfl, rfl⟩
  · have hchange : (e.change now (Routers.changesOf payload)).ref = e.ref.replace payload := by
      rw [Entry.change, Routers.changesOf_tags]
      rfl
    refine ⟨?_, ?_⟩
    · rw [← hchange]
      exact observe_answer (e := e.change now _) (hid i e (owned_eq_some.mp hown).1) 200
    · rw [← hchange]
      exact ref_update _ _ _
  · exact ⟨rfl, ref_update _ _ _⟩

end Entries

/-! ## Runs -/

namespace Reference

variable {m : Reference} {c : Call (Crud P)} {fresh fresh' : ℤ}

theorem runs_cons {calls : List (Call (Crud P))} {a : Answer} {answers : List Answer} :
    Runs m (c :: calls) (a :: answers) ↔
      ∃ fresh, m fresh = none ∧ (call fresh m c).1 = a ∧ Runs (call fresh m c).2 calls answers := by
  constructor
  · intro h
    cases h with
    | cons fresh hfresh h => exact ⟨fresh, hfresh, rfl, h⟩
  · rintro ⟨fresh, hfresh, rfl, h⟩
    exact .cons fresh hfresh h

/-- **The reference never fails.** -/
theorem call_ne_internalError (fresh : ℤ) (m : Reference) (c : Call (Crud P)) :
    (call fresh m c).1 ≠ observe Response.internalError := by
  have hrefusal : ∀ (b : RefBookmark) ifMatch a, b.refusal ifMatch = some a →
      a ≠ observe Response.internalError := by
    rintro b (_ | header) a h rfl
    · cases h
    · rw [RefBookmark.refusal] at h
      split_ifs at h <;> cases h
  obtain ⟨user, now, request⟩ := c
  intro h
  rcases request with payload | i | ⟨i, payload, ifMatch⟩ | ⟨i, ifMatch⟩
  · cases h
  all_goals
    simp only [call] at h
    generalize Option.filter _ (m i) = owned at h
    rcases owned with _ | b
    · cases h
  · cases h
  all_goals
    simp only at h
    rcases href : b.refusal ifMatch with _ | a
    · rw [href] at h
      cases h
    · rw [href] at h
      exact hrefusal b ifMatch a href h

/-- **The answer determines the map after it**: a create shows the id it got. -/
theorem call_state_eq (h : (call fresh m c).1 = (call fresh' m c).1) :
    (call fresh m c).2 = (call fresh' m c).2 := by
  obtain ⟨user, now, request⟩ := c
  rcases request with payload | i | ⟨i, payload, ifMatch⟩ | ⟨i, ifMatch⟩
  · have hid : fresh = fresh' := by
      simp only [call, RefBookmark.shown, Answer.bookmark.injEq, Shown.mk.injEq] at h
      exact h.2.2.1
    rw [hid]
  · rfl
  · rfl
  · rfl

end Reference

namespace Routers

variable {db : Db}

/-- A request that names an id the driver cannot bind overflows. -/
theorem crud_unbindable {now userId i : ℤ} {c : Crud P} (hi : i ∈ c.target)
    (hb : ¬ P.bindable i = true) : crud now db userId c = .error .overflow := by
  have hunread : BookmarkService.get P db userId i = .error .overflow := by
    rw [Db.get_eq, Entries.read, if_neg hb]
    rfl
  rcases c with payload | j | ⟨j, payload, ifMatch⟩ | ⟨j, ifMatch⟩
  · cases hi
  all_goals
    obtain rfl : j = i := Option.some.inj hi
    simp only [crud, getBookmark, updateBookmark, deleteBookmark, BookmarkService.update,
      BookmarkService.delete, hunread, bind, Except.bind]

/-- A call that names an id the driver cannot bind fails. -/
theorem respond_unbindable {c : Call (Crud P)} (hu : db.Registered c.user) (hc : ¬ c.Bindable) :
    (respondCrud db c).1 = Response.internalError := by
  simp only [Call.Bindable, not_forall] at hc
  obtain ⟨i, hi, hb⟩ := hc
  rw [respondCrud, respond_eq hu, Call.crud, route, crud_unbindable hi hb]
  rfl

/-- One call answers as the reference does when its id can be bound. -/
theorem respond_ref (I : db.Integrity) {c : Call (Crud P)} (hu : db.Registered c.user)
    (hc : c.Bindable) :
    observe (respondCrud db c).1 = (Reference.call (db.nextId P) (Entries.ref db.view) c).1 ∧
      Entries.ref (respondCrud db c).2.view
        = (Reference.call (db.nextId P) (Entries.ref db.view) c).2 := by
  obtain ⟨hout, hview, -, -⟩ := respond_refines I c hu
  obtain ⟨hans, href⟩ := Entries.respond_ref (s := db.view) (db.nextId P) c hc
    fun _ _ h => Db.id_of_view h
  exact ⟨(congrArg observe hout).trans hans, (congrArg Entries.ref hview).trans href⟩

/-- **One call at a time, the routes are the reference map exactly when every id they are asked for
can be bound.** -/
theorem runs_iff_bindable (calls : List (Call (Crud P))) : ∀ {db : Db}, db.Integrity →
    (∀ c ∈ calls, db.Registered c.user) →
    (Reference.Runs (Entries.ref db.view) calls
        ((outputs respondCrud db calls).map observe) ↔ ∀ c ∈ calls, c.Bindable) := by
  induction calls with
  | nil =>
    intro db _ _
    simp only [List.not_mem_nil, false_implies, implies_true, iff_true]
    exact .nil _
  | cons c calls ih =>
    intro db I hu
    have hc := hu c List.mem_cons_self
    obtain ⟨-, -, I', K⟩ := respond_refines I c hc
    have hu' : ∀ d ∈ calls, (respondCrud db c).2.Registered d.user := fun d hd =>
      K.registered.mpr (hu d (List.mem_cons_of_mem c hd))
    rw [List.forall_mem_cons, ← ih I' hu', outputs, List.map_cons,
      Reference.runs_cons]
    constructor
    · rintro ⟨fresh, -, hans, hrest⟩
      have hb : c.Bindable := by
        by_contra hb
        rw [respond_unbindable hc hb] at hans
        exact Reference.call_ne_internalError _ _ _ hans
      obtain ⟨hout, href⟩ := respond_ref I hc hb
      refine ⟨hb, ?_⟩
      rw [href, ← Reference.call_state_eq (hans.trans hout)]
      exact hrest
    · rintro ⟨hb, hrest⟩
      obtain ⟨hout, href⟩ := respond_ref I hc hb
      refine ⟨db.nextId P, ?_, hout.symm, href ▸ hrest⟩
      rw [Entries.ref, Db.view_nextId P I]
      rfl

/-- Alice reads an id that is absent, and one SQLite cannot bind. -/
theorem runs_iff_bindable_twoAccounts :
    Reference.Runs (Entries.ref Db.twoAccounts.view)
        [(⟨1, 0, .get 7⟩ : Call (Crud .sqlite)), ⟨1, 1, .get (2 ^ 63)⟩]
        ((outputs respondCrud Db.twoAccounts
          [(⟨1, 0, .get 7⟩ : Call (Crud .sqlite)), ⟨1, 1, .get (2 ^ 63)⟩]).map observe) ↔
      ∀ c ∈ [(⟨1, 0, .get 7⟩ : Call (Crud .sqlite)), ⟨1, 1, .get (2 ^ 63)⟩], c.Bindable :=
  runs_iff_bindable _ Db.integrity_twoAccounts fun _ hc => by
    obtain rfl | hc := List.mem_cons.mp hc
    · exact ⟨_, rfl⟩
    · obtain rfl := List.mem_singleton.mp hc
      exact ⟨_, rfl⟩

/-- **An id outside the driver's range is not answered as absent**: the reference says 404. -/
theorem not_runs_get_unbindable :
    ¬ Reference.Runs (Entries.ref Db.twoAccounts.view)
      [(⟨1, 0, .get (2 ^ 63)⟩ : Call (Crud .sqlite))]
      ((outputs respondCrud Db.twoAccounts
        [(⟨1, 0, .get (2 ^ 63)⟩ : Call (Crud .sqlite))]).map observe) := by
  intro h
  obtain ⟨fresh, -, hans, -⟩ := Reference.runs_cons.mp h
  have hfail : (respondCrud Db.twoAccounts (⟨1, 0, .get (2 ^ 63)⟩ : Call (Crud .sqlite))).1
      = Response.internalError :=
    respond_unbindable ⟨_, rfl⟩ fun hb => absurd (hb (2 ^ 63) rfl) (by decide)
  rw [hfail] at hans
  exact Reference.call_ne_internalError _ _ _ hans

end Routers
