import BookmarksApi.Concurrent.Refusals
import BookmarksApi.Machinery.Serialization
import BookmarksApi.Store.Numbers

/-!
# Concurrent/Serialization — the commits as requests one at a time

Requests interleave statement by statement, and a request takes effect in its commit.  There the
service that takes one request at a time would accept it, and would do to the bookmarks what the
commit does: the version in the `WHERE` clause has kept the entry that the request loaded.  So a run
leaves the bookmarks that the service leaves when it is given the requests that have committed, one
at a time in the order of their commits, and it accepts each of them (`serializable`).

It is the bookmarks that are the same, with their ids and versions.  The tables under them are not:
tags may have other ids.  Nor are the answers, which are re-read after the commit.
-/

variable {P : Platform}

/-- **A request has committed**: it is re-reading what it wrote, has answered, or was left without a
bookmark to re-read. -/
def Phase.HasCommitted (c : Crud P) : Phase → Prop
  | refreshing _ => True
  | rowRefreshed _ => True
  | done (.ok _) => ∀ k, c ≠ .get k
  | done (.error x) => x = .invalidRequest
  | _ => False

/-- A success. -/
def Response.Accepted (r : Response Body) : Prop := r.body.isLeft = true

/-! ## One request at a time -/

/-- The tables of a service that takes one request at a time, as those committed: the same bookmarks
and accounts, and the same numbers given out. -/
structure Db.Mirrors (h : History Db) (db : Db) : Prop where
  integrity : db.Integrity
  view : db.view = h.now.view
  users : db.users = h.now.users
  bookmarkSeq : db.bookmarkSeq = h.now.bookmarkSeq

namespace Db.Mirrors

variable {h : History Db} {db db' : Db}

theorem nextId (m : db.Mirrors h) : db.nextId P = h.now.nextId P :=
  nextId_congr m.view m.bookmarkSeq

theorem registered (m : db.Mirrors h) {user : ℤ} (hu : h.now.Registered user) :
    db.Registered user := by
  rwa [Registered, m.users]

/-- Nothing that shows. -/
theorem quiet (m : db.Mirrors h) (hview : db'.view = h.now.view) (husers : db'.users = h.now.users)
    (hseq : db'.bookmarkSeq = h.now.bookmarkSeq) : db.Mirrors (h.push db') :=
  ⟨m.integrity, m.view.trans hview.symm, m.users.trans husers.symm, m.bookmarkSeq.trans hseq.symm⟩

end Db.Mirrors

namespace Routers

variable {db : Db} {call : Call (Crud P)}

/-- **An update or delete of the user's bookmark in a version it accepts** edits its entry. -/
theorem respondCrud_accepts (I : db.Integrity) (hu : db.Registered call.user) {k : ℤ} {e : Entry}
    (hk : call.request.target = some k) (hb : P.bindable k = true) (hv : db.view k = some e)
    (howner : e.row.userId = call.user) (hacc : call.request.Accepts e.row.version) :
    (respondCrud db call).1.Accepted ∧
      (respondCrud db call).2.view
        = Function.update db.view k (call.request.edit call.now e) := by
  obtain ⟨hout, hview, -, -⟩ := respond_refines I call hu
  have hread : Entries.read P db.view call.user k = .ok e :=
    Entries.read_eq_ok.mpr ⟨hb, Entries.owned_eq_some.mpr ⟨hv, howner⟩⟩
  rw [Response.Accepted, hout, hview]
  obtain ⟨user, now, payload | i | ⟨i, payload, ifMatch⟩ | ⟨i, ifMatch⟩⟩ := call
  · cases hk
  · exact absurd hacc id
  all_goals
    obtain rfl := Option.some.inj hk
    rw [Crud.Accepts] at hacc
    simp only [Entries.respond, Entries.crud, hread, hacc, bind, Except.bind]
    exact ⟨rfl, rfl⟩

/-- A create stores its payload under the next id. -/
theorem respondCrud_creates (I : db.Integrity) (hu : db.Registered call.user)
    {payload : BookmarkCreate P} (hreq : call.request = .create payload) :
    (respondCrud db call).1.Accepted ∧ (respondCrud db call).2.view = Function.update db.view
      (db.nextId P) (some (Entry.ofPayload call.now (db.nextId P) call.user payload)) := by
  obtain ⟨hout, hview, -, -⟩ := respond_refines I call hu
  rw [Response.Accepted, hout, hview]
  obtain ⟨user, now, request⟩ := call
  obtain rfl : request = .create payload := hreq
  exact ⟨rfl, rfl⟩

end Routers

/-! ## One move -/

/-- **A request under way**: the driver binds the id it is about, and what re-reads has written. -/
structure Phase.Underway (call : Call (Crud P)) (p : Phase) : Prop where
  bindable : ∀ k, call.request.target = some k →
    P.bindable k = true ∨ p = .start ∨ ∃ result, p = .done result
  wrote : (∃ k, p = .refreshing k) ∨ (∃ row, p = .rowRefreshed row) → ∀ k, call.request ≠ .get k

/-- Resolving leads to no re-read. -/
theorem Phase.not_rereading_resolve (held : Option Bookmark) (names : Option (List Str)) :
    ¬ ((∃ k, resolve P held names = refreshing k) ∨
      ∃ row, resolve P held names = rowRefreshed row) := by
  obtain ⟨x, hp⟩ | ⟨newTags, hp⟩ | ⟨ns, -, hp⟩ := resolve_cases P held names <;> rw [hp] <;> simp

theorem Phase.commit_get {call : Call (Crud P)} {db : Db} {newTags : Option (List TagRow)}
    {pending : List TagRow} {k : ℤ} (hreq : call.request = .get k) (held : Option Bookmark) :
    commit call db newTags pending held = none := by
  rcases held with _ | b <;> simp only [commit, hreq]

theorem Phase.Underway.next {call : Call (Crud P)} {db db' : Db} {p p' : Phase}
    (u : p.Underway call) (hnext : p.next call db = some (db', p')) : p'.Underway call where
  bindable k hk := by
    rcases u.bindable k hk with hb | rfl | ⟨result, rfl⟩
    · exact Or.inl hb
    · cases Phase.move_of_next hnext with
      | created hreq =>
        rw [hreq] at hk
        cases hk
      | found hk' => exact Or.inl (Phase.bindable_of_start hk hnext)
      | unbindable => exact Or.inr (Or.inr ⟨_, rfl⟩)
      | absent => exact Or.inr (Or.inr ⟨_, rfl⟩)
    · cases hnext
  wrote := by
    cases Phase.move_of_next hnext with
    | created => exact fun hp => absurd hp (Phase.not_rereading_resolve _ _)
    | updating => exact fun hp => absurd hp (Phase.not_rereading_resolve _ _)
    | committed hcommit =>
      intro _ k hreq
      rw [Phase.commit_get hreq] at hcommit
      cases hcommit
    | reselected => exact fun _ => u.wrote (Or.inl ⟨_, rfl⟩)
    | _ => simp

section

variable {call : Call (Crud P)} {h : History Db} {db db' : Db} {p p' : Phase}

theorem Phase.not_hasCommitted_resolve (c : Crud P) (held : Option Bookmark)
    (names : Option (List Str)) : ¬ (resolve P held names).HasCommitted c := by
  rcases names with _ | raw
  · exact id
  · rw [resolve]
    rcases hnames : normalizeTags P raw with x | ns
    · obtain ⟨-, hx⟩ | ⟨-, names, hok, -⟩ := normalizeTags_cases P raw
      · obtain rfl := Except.error.inj (hnames.symm.trans hx)
        intro hinvalid
        cases hinvalid
      · cases hnames.symm.trans hok
    · by_cases hnil : ns = []
      · simp only [hnil, if_true]
        exact id
      · simp only [hnil, if_false]
        exact id

/-- A re-read after a lost race fails on an id that cannot be bound. -/
theorem BookmarkService.currentEtag_eq_error {user k : ℤ} {x : Exc}
    (hetag : currentEtag P db user k = .error x) : x = .overflow := by
  rw [currentEtag, BookmarkRepository.getOwned, BookmarkRepository.ownedRow] at hetag
  split_ifs at hetag
  · cases hetag
  · exact (Except.error.inj hetag).symm

/-- **A move that is no commit** shows in no bookmark, and commits nothing. -/
theorem Running.idle (r : Running call h p) (u : p.Underway call)
    (hnext : p.next call h.now = some (db', p'))
    (hidle : ∀ held newTags pending, p ≠ .committing held newTags pending) :
    (p'.HasCommitted call.request ↔ p.HasCommitted call.request) ∧ db'.view = h.now.view ∧
      db'.users = h.now.users ∧ db'.bookmarkSeq = h.now.bookmarkSeq := by
  -- The move of a request that has not committed, and does not.
  have hnot : ¬ p.HasCommitted call.request → ¬ p'.HasCommitted call.request →
      (p'.HasCommitted call.request ↔ p.HasCommitted call.request) :=
    fun hp hp' => iff_of_false hp' hp
  cases Phase.move_of_next hnext with
  | committed => exact absurd rfl (hidle _ _ _)
  | created => exact ⟨hnot id (Phase.not_hasCommitted_resolve _ _ _), rfl, rfl, rfl⟩
  | updating => exact ⟨hnot id (Phase.not_hasCommitted_resolve _ _ _), rfl, rfl, rfl⟩
  | unbindable => exact ⟨hnot id nofun, rfl, rfl, rfl⟩
  | absent => exact ⟨hnot id nofun, rfl, rfl, rfl⟩
  | collided => exact ⟨hnot id nofun, rfl, rfl, rfl⟩
  | @refused row ifMatch x hreq hx =>
    refine ⟨hnot id fun hinvalid => ?_, rfl, rfl, rfl⟩
    obtain rfl | rfl := BookmarkService.checkPrecondition_eq_error hx <;> cases hinvalid
  | @shown row hreq =>
    -- Only a get answers with the row it has read.
    obtain ⟨-, -, htarget⟩ := r.holds
    refine ⟨hnot id fun hget => ?_, rfl, rfl, rfl⟩
    cases hc : call.request with
    | create payload =>
      rw [hc] at htarget
      cases htarget
    | get k => exact hget k hc
    | update k payload ifMatch => exact hreq ⟨ifMatch, hc ▸ .update⟩
    | delete k ifMatch => exact hreq ⟨ifMatch, hc ▸ .delete⟩
  | gone => exact ⟨iff_of_true rfl trivial, rfl, rfl, rfl⟩
  | answered => exact ⟨iff_of_true (u.wrote (Or.inr ⟨_, rfl⟩)) trivial, rfl, rfl, rfl⟩
  | @reported k =>
    refine ⟨hnot id fun hinvalid => ?_, rfl, rfl, rfl⟩
    rcases hetag : BookmarkService.currentEtag P h.now call.user k with x | etag
    · rw [hetag] at hinvalid
      obtain rfl := BookmarkService.currentEtag_eq_error hetag
      cases hinvalid
    · rw [hetag] at hinvalid
      cases hinvalid
  | _ => exact ⟨Iff.rfl, rfl, rfl, rfl⟩

/-- **The service sees a move**: it sees nothing, or the move is the commit, and it accepts the
request and comes to the tables after it. -/
theorem Running.seen (r : Running call h p) (u : p.Underway call) (m : db.Mirrors h)
    (hnext : p.next call h.now = some (db', p')) :
    (p'.HasCommitted call.request ↔ p.HasCommitted call.request) ∧ db.Mirrors (h.push db') ∨
      ¬ p.HasCommitted call.request ∧ p'.HasCommitted call.request ∧
        (Routers.respondCrud db call).2.Mirrors (h.push db') ∧
          (Routers.respondCrud db call).1.Accepted := by
  have hu : db.Registered call.user := m.registered r.registered
  have hkeeps := (Routers.respond_refines m.integrity call hu).2.2
  by_cases hidle : ∀ held newTags pending, p ≠ .committing held newTags pending
  · obtain ⟨hcommitted, hview, husers, hseq⟩ := r.idle u hnext hidle
    exact Or.inl ⟨hcommitted, m.quiet hview husers hseq⟩
  push Not at hidle
  obtain ⟨held, newTags, pending, rfl⟩ := hidle
  have hserial := Routers.bookmarkSeq_respondCrud m.integrity call hu
  have hmirrors : ∀ {k entry}, h.now.Writes db' k entry →
      (Routers.respondCrud db call).2.view = Function.update db.view k entry →
      (Routers.respondCrud db call).2.bookmarkSeq = db'.bookmarkSeq →
      (Routers.respondCrud db call).2.Mirrors (h.push db') := fun W hview hnumber =>
    ⟨hkeeps.1, by rw [hview, m.view]; exact W.view.symm,
      hkeeps.2.users.trans (m.users.trans W.keeps.users.symm), hnumber⟩
  have hholds := r.holds
  cases commit_cases r hnext with
  | created hreq htags W =>
    obtain ⟨hok, hview⟩ := Routers.respondCrud_creates m.integrity hu hreq
    rw [m.nextId] at hview
    rw [if_pos (show call.request.target = none from hreq ▸ rfl)] at hserial
    refine Or.inr ⟨id, trivial, hmirrors W hview ?_, hok⟩
    rw [Phase.bookmarkSeq_commit_none hnext, hserial, m.bookmarkSeq, m.nextId]
  | @updated row tags payload ifMatch _ hreq hv htags W =>
    obtain ⟨⟨_, _, hloaded, -, howner, hk, hacc⟩, -, -⟩ := hholds
    cases hloaded
    have hb := (u.bindable row.id hk).resolve_right (by simp)
    obtain ⟨hok, hview⟩ := Routers.respondCrud_accepts (e := Entry.ofRows row tags) m.integrity
      hu hk hb (m.view ▸ hv) howner hacc
    rw [hk, if_neg (Option.some_ne_none _)] at hserial
    rw [hreq] at hview
    refine Or.inr ⟨id, trivial, hmirrors W hview ?_, hok⟩
    rw [Phase.bookmarkSeq_commit_some hnext, hserial, m.bookmarkSeq]
  | @deleted row tags ifMatch _ hreq hv htags W =>
    obtain ⟨⟨_, _, hloaded, -, howner, hk, hacc⟩, -, -⟩ := hholds
    cases hloaded
    have hb := (u.bindable row.id hk).resolve_right (by simp)
    obtain ⟨hok, hview⟩ := Routers.respondCrud_accepts (e := Entry.ofRows row tags) m.integrity
      hu hk hb (m.view ▸ hv) howner hacc
    rw [hk, if_neg (Option.some_ne_none _)] at hserial
    rw [hreq] at hview
    refine Or.inr ⟨id, fun k hget => ?_, hmirrors W hview ?_, hok⟩
    · cases hreq.symm.trans hget
    · rw [Phase.bookmarkSeq_commit_some hnext, hserial, m.bookmarkSeq]
  | lost => exact Or.inl ⟨iff_of_false id id, m.quiet rfl rfl rfl⟩

end

/-! ## Runs -/

section

variable {ι : Type*} {req : ι → Call (Crud P)} {c c' : Config ι} {db : Db} {order : List ι}

/-- **A serial order of a run**: its requests that have committed, such that the service leaves the
same bookmarks when it is given them one at a time, and accepts each. -/
structure SerialOrder (req : ι → Call (Crud P)) (db : Db) (c : Config ι) (order : List ι) :
    Prop where
  nodup : order.Nodup
  mem_iff : ∀ i, i ∈ order ↔ (c.thread i).HasCommitted (req i).request
  view : (finalState Routers.respondCrud db (order.map req)).view = c.shared.now.view
  accepted : ∀ r ∈ outputs Routers.respondCrud db (order.map req), r.Accepted

/-- The service on the request of a thread. -/
def Routers.respondTo (req : ι → Call (Crud P)) (db : Db) (i : ι) : Response Body × Db :=
  respondCrud db (req i)

theorem Routers.respondTo_map (req : ι → Call (Crud P)) (db : Db) (order : List ι) :
    finalState (respondTo req) db order = finalState respondCrud db (order.map req) ∧
      outputs (respondTo req) db order = outputs respondCrud db (order.map req) := by
  induction order generalizing db with
  | nil => exact ⟨rfl, rfl⟩
  | cons i order ih => exact ⟨(ih _).1, congrArg (List.cons _) (ih _).2⟩

/-- A serial order, as the library has it. -/
abbrev SerialRun (req : ι → Call (Crud P)) : Db → Config ι → List ι → Prop :=
  Interleaving.Serial (fun h db => Db.Mirrors h db) (fun i p => p.HasCommitted (req i).request)
    Response.Accepted (Routers.respondTo req)

theorem SerialRun.serialOrder (h : SerialRun req db c order) : SerialOrder req db c order := by
  obtain ⟨hfinal, houtputs⟩ := Routers.respondTo_map req db order
  exact ⟨h.nodup, h.mem_iff, hfinal ▸ h.related.view, houtputs ▸ h.good⟩

/-- What runs keep beyond soundness. -/
def Tracked (req : ι → Call (Crud P)) (c : Config ι) : Prop :=
  Sound req c ∧ ∀ i, (c.thread i).Underway (req i)

theorem Tracked.initial (I : db.Integrity) (hreg : ∀ i, db.Registered (req i).user) :
    Tracked req (Config.initial db) :=
  ⟨.initial I hreg, fun _ => ⟨fun _ _ => Or.inr (Or.inl rfl), by simp [Config.initial]⟩⟩

theorem SerialRun.initial (I : db.Integrity) : SerialRun req db (Config.initial db) [] :=
  Interleaving.Serial.initial ⟨I, rfl, rfl, rfl⟩ fun _ => id

variable [DecidableEq ι]

theorem Tracked.step (t : Tracked req c) {i : ι} (hs : (freshMachine req).StepBy i c c') :
    Tracked req c' := by
  obtain ⟨hs, hfresh⟩ := Interleaving.restrict_stepBy.mp hs
  obtain ⟨-, db', hnext, -⟩ := hs.move_self
  exact ⟨t.1.step hfresh hs, hs.forall_thread ((t.2 i).next hnext) fun j _ => t.2 j⟩

/-- **A run goes on as its commits do**, one at a time. -/
theorem Tracked.run (hrun : (freshMachine req).Run c c') (t : Tracked req c)
    (h : SerialRun req db c order) :
    Tracked req c' ∧ ∃ later, SerialRun req db c' (order ++ later) := by
  refine Interleaving.Serial.run (I := Tracked req) ?_ hrun t h
  intro i d d' e t m hs
  refine ⟨t.step hs, ?_⟩
  obtain ⟨-, db', hnext, hpush⟩ := (Interleaving.restrict_stepBy.mp hs).1.move_self
  rcases (t.1.running i).seen (t.2 i) m hnext with ⟨htook, m'⟩ | ⟨hbefore, hafter, m', hok⟩
  · exact .nothing htook (hpush ▸ m')
  · exact .input hbefore hafter (hpush ▸ m') hok

/-- **The commits are serializable.**  However the requests interleave, there is an order of those
that have committed in which the service, taking one at a time, accepts each of them and leaves the
same bookmarks, with their ids and versions; and as the run goes on, the order is only added to. -/
theorem serializable (I : db.Integrity) (hreg : ∀ i, db.Registered (req i).user)
    (hrun : (freshMachine req).Run (Config.initial db) c) (hrun' : (freshMachine req).Run c c') :
    ∃ order later, SerialOrder req db c order ∧ SerialOrder req db c' (order ++ later) := by
  have hstart : SerialRun req db (Config.initial db) [] := .initial I
  obtain ⟨t, order, h⟩ := Tracked.run hrun (.initial I hreg) hstart
  obtain ⟨-, later, h'⟩ := t.run hrun' h
  exact ⟨order, later, h.serialOrder, h'.serialOrder⟩

end

/-- Alice's create and the update that overtakes the other one have committed. -/
theorem serializable_race : ∃ (c : Config (Fin 3)) (order : List (Fin 3)),
    SerialOrder raceRequests Db.twoAccounts c order ∧ 0 ∈ order ∧ 1 ∈ order ∧ 2 ∉ order := by
  obtain ⟨c, -, -, hrun, -, -, hc⟩ := Config.exists_run raceRequests
    (fun i c _ => Config.Fresh .autoincrement c i) (.initial Db.twoAccounts)
    [0, 0, 1, 1, 2, 2, 1, 2] 2 [] (fun c _ _ =>
      decide (c.thread 0 = .refreshing 1 ∧ c.thread 1 = .refreshing 1 ∧
        c.thread 2 = .conflicted 1)) (by decide +kernel)
  obtain ⟨hzero, hone, htwo⟩ := of_decide_eq_true hc
  obtain ⟨order, later, h, -⟩ :=
    serializable Db.integrity_twoAccounts (by decide +kernel) hrun (Interleaving.Run.refl c)
  refine ⟨c, order, h, (h.mem_iff 0).mpr ?_, (h.mem_iff 1).mpr ?_, fun hmem => ?_⟩
  · rw [hzero]
    trivial
  · rw [hone]
    trivial
  · have hcommitted := (h.mem_iff 2).mp hmem
    rw [htwo] at hcommitted
    exact hcommitted
