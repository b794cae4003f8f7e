import BookmarksApi.Concurrent.Serialization
import BookmarksApi.Concurrent.StrongETags

/-!
# Concurrent/Linearizability — answers as if one request at a time

A create or update answers with what it re-reads after its commit, a `GET` reads a row and then its
tags.  As long as nobody else changes what a request is in the middle of reading, its answer is
settled when it takes effect: in its commit, or where a `GET` reads its row (`Owed`).  Then the
service is linearizable: in one order of the requests that have taken effect, which is only added to
as the run goes on, the service that takes one request at a time gives each of them the very answer
it got, and leaves the same bookmarks (`linearizable`).
-/

variable {P : Platform}

/-- **A request has taken effect**: it has committed, or is a `GET` that has found its row. -/
def Phase.TakenEffect (c : Crud P) : Phase → Prop
  | rowRead _ => ∃ k, c = .get k
  | refreshing _ => True
  | rowRefreshed _ => True
  | done (.ok _) => True
  | done (.error x) => x = .invalidRequest
  | _ => False

/-- **What a request owes that has taken effect**: the answer that it will give, if nobody changes
what it reads. -/
def Owed (call : Call (Crud P)) (db : Db) (b : Response Body) : Phase → Prop
  | .rowRead row => (∃ k, call.request = .get k) ∧
      b = Entry.answer P 200 ⟨row, db.tagNames row.id⟩
  | .refreshing k => ∃ e, db.view k = some e ∧ b = e.answer P (Phase.okStatus call.request)
  | .rowRefreshed row =>
    b = Entry.answer P (Phase.okStatus call.request) ⟨row, db.tagNames row.id⟩
  | .done result => result = .ok b
  | _ => False

section

variable {call : Call (Crud P)} {h : History Db} {db db' : Db} {b : Response Body} {p p' : Phase}

/-- **Its own moves give what it owes.** -/
theorem Owed.next (I : db.Integrity) (ho : Owed call db b p)
    (hnext : p.next call db = some (db', p')) : Owed call db' b p' := by
  cases Phase.move_of_next hnext with
  | shown =>
    obtain ⟨-, rfl⟩ := ho
    exact congrArg Except.ok (Db.bookmarkResponse_loaded I _ 200)
  | refused hreq =>
    obtain ⟨⟨k, hget⟩, -⟩ := ho
    rw [hget] at hreq
    cases hreq
  | updating hreq =>
    obtain ⟨⟨k, hget⟩, -⟩ := ho
    cases hreq.symm.trans hget
  | deleting hreq =>
    obtain ⟨⟨k, hget⟩, -⟩ := ho
    cases hreq.symm.trans hget
  | gone hget =>
    obtain ⟨e, hv, -⟩ := ho
    cases hget.symm.trans (Db.view_eq_some.mp hv).1
  | @reselected k row hget =>
    obtain ⟨e, hv, rfl⟩ := ho
    obtain ⟨hget', htags⟩ := Db.view_eq_some.mp hv
    obtain rfl := Option.some.inj (hget.symm.trans hget')
    change _ = Entry.answer P _ ⟨e.row, db.tagNames e.row.id⟩
    rw [Db.id_of_view hv, htags]
  | answered =>
    obtain rfl := ho
    exact congrArg Except.ok (Db.bookmarkResponse_loaded I _ _)
  | _ => cases ho

/-- **So do the others' moves**, if they leave alone what it reads. -/
theorem Owed.settled (ho : Owed call db b p) (huntouched : p.Untouched db db')
    (htags : ∀ k ∈ p.getting call.request, db'.tagNames k = db.tagNames k) :
    Owed call db' b p := by
  cases p with
  | rowRead row =>
    obtain ⟨⟨k, hget⟩, rfl⟩ := ho
    rw [hget] at htags
    exact ⟨⟨k, hget⟩, by rw [htags row.id rfl]⟩
  | refreshing k =>
    obtain ⟨e, hv, rfl⟩ := ho
    exact ⟨e, huntouched.trans hv, rfl⟩
  | rowRefreshed row =>
    obtain rfl := ho
    change _ = Entry.answer P _ ⟨row, db'.tagNames row.id⟩
    rw [show db'.tagNames row.id = db.tagNames row.id from huntouched]
  | done result => exact ho
  | _ => cases ho

/-- Off `GET`s, to take effect is to commit. -/
theorem Phase.takenEffect_iff {c : Crud P} (hc : ∀ k, c ≠ .get k) (p : Phase) :
    p.TakenEffect c ↔ p.HasCommitted c := by
  cases p with
  | rowRead row => exact iff_of_false (by rintro ⟨k, hk⟩; exact hc k hk) id
  | done result =>
    rcases result with x | r
    · exact Iff.rfl
    · exact iff_of_true trivial hc
  | _ => exact Iff.rfl

/-- **A commit owes what the service answers.** -/
theorem Running.owed_commit (r : Running call h p) (u : p.Underway call) (m : db.Mirrors h)
    (hnext : p.next call h.now = some (db', p')) (hbefore : ¬ p.HasCommitted call.request)
    (hafter : p'.HasCommitted call.request) : Owed call db' (Routers.respondCrud db call).1 p' := by
  by_cases hidle : ∀ held newTags pending, p ≠ .committing held newTags pending
  · exact absurd ((r.idle u hnext hidle).1.mp hafter) hbefore
  push Not at hidle
  obtain ⟨held, newTags, pending, rfl⟩ := hidle
  have hu : db.Registered call.user := m.registered r.registered
  obtain ⟨hout, -, -, -⟩ := Routers.respond_refines m.integrity call hu
  have hholds := r.holds
  have hread : ∀ {row : BookmarkRow} {tags : List TagRow},
      Held call h (some (.loaded row tags)) → h.now.view row.id = some (Entry.ofRows row tags) →
      Entries.read P db.view call.user row.id = .ok (Entry.ofRows row tags) ∧
        call.request.Accepts (Entry.ofRows row tags).row.version := by
    rintro row tags ⟨_, _, hloaded, -, howner, hk, hacc⟩ hv
    cases hloaded
    have hb := (u.bindable row.id hk).resolve_right (by simp)
    exact ⟨Entries.read_eq_ok.mpr ⟨hb, Entries.owned_eq_some.mpr ⟨m.view ▸ hv, howner⟩⟩, hacc⟩
  cases commit_cases r hnext with
  | @created payload _ hreq htags W =>
    refine ⟨_, W.view_self, ?_⟩
    rw [hout, m.nextId, Entries.respond, hreq]
    rfl
  | @updated row tags payload ifMatch _ hreq hv htags W =>
    obtain ⟨hread, hacc⟩ := hread hholds.1 hv
    refine ⟨_, W.view_self, ?_⟩
    rw [hreq, Crud.Accepts] at hacc
    rw [hout, Entries.respond, hreq]
    simp only [Entries.crud, hread, hacc, bind, Except.bind]
    rfl
  | @deleted row tags ifMatch _ hreq hv htags W =>
    obtain ⟨hread, hacc⟩ := hread hholds.1 hv
    rw [hreq, Crud.Accepts] at hacc
    have hanswer : (Routers.respondCrud db call).1 = { status := 204, body := .inl .empty } := by
      rw [hout, Entries.respond, hreq]
      simp only [Entries.crud, hread, hacc, bind, Except.bind]
    exact congrArg Except.ok hanswer.symm
  | lost => exact absurd hafter id

/-- **So does a `GET` that finds its row.** -/
theorem Running.owed_found (r : Running call h .start) (m : db.Mirrors h) {k : ℤ}
    (hreq : call.request = .get k) {row : BookmarkRow} (hb : P.bindable k = true)
    (hget : h.now.bookmarks.get? k = some row) (howner : row.userId = call.user) :
    Owed call h.now (Routers.respondCrud db call).1 (.rowRead row) := by
  obtain ⟨hout, -, -, -⟩ :=
    Routers.respond_refines m.integrity call (m.registered r.registered)
  obtain rfl : row.id = k := (Table.get?_eq_some.mp hget).2
  have hv : h.now.view row.id = some ⟨row, h.now.tagNames row.id⟩ :=
    Db.view_eq_some.mpr ⟨hget, rfl⟩
  have hread : Entries.read P db.view call.user row.id = .ok ⟨row, h.now.tagNames row.id⟩ :=
    Entries.read_eq_ok.mpr ⟨hb, Entries.owned_eq_some.mpr ⟨m.view ▸ hv, howner⟩⟩
  refine ⟨⟨row.id, hreq⟩, ?_⟩
  rw [hout, Entries.respond, hreq]
  simp only [Entries.crud, hread, bind, Except.bind]

/-- A `GET` of the service changes nothing. -/
theorem Db.Mirrors.get (m : db.Mirrors h) {k : ℤ} (hreq : call.request = .get k)
    (hu : db.Registered call.user) : (Routers.respondCrud db call).2.Mirrors h := by
  obtain ⟨-, hview, I', K⟩ := Routers.respond_refines m.integrity call hu
  have hsame : (Entries.respond db.view (db.nextId P) call).2 = db.view := by
    rw [Entries.respond, hreq]
    rcases hread : Entries.read P db.view call.user k with x | e <;>
      simp only [Entries.crud, hread, bind, Except.bind]
  refine ⟨I', (hview.trans hsame).trans m.view, K.users.trans m.users, ?_⟩
  rw [Routers.bookmarkSeq_respondCrud m.integrity call hu, hreq]
  exact m.bookmarkSeq

/-- **The service sees a move**: it sees nothing, or the request takes effect, and owes what the
service answers. -/
theorem Running.takes_effect (r : Running call h p) (u : p.Underway call) (m : db.Mirrors h)
    (hnext : p.next call h.now = some (db', p')) :
    (p'.TakenEffect call.request ↔ p.TakenEffect call.request) ∧ db.Mirrors (h.push db') ∨
      ¬ p.TakenEffect call.request ∧ p'.TakenEffect call.request ∧
        (Routers.respondCrud db call).2.Mirrors (h.push db') ∧
          Owed call db' (Routers.respondCrud db call).1 p' := by
  by_cases hget : ∀ k, call.request ≠ .get k
  · rw [Phase.takenEffect_iff hget, Phase.takenEffect_iff hget]
    rcases r.seen u m hnext with hnothing | ⟨hbefore, hafter, m', -⟩
    · exact Or.inl hnothing
    · exact Or.inr ⟨hbefore, hafter, m', r.owed_commit u m hnext hbefore hafter⟩
  push Not at hget
  obtain ⟨k, hreq⟩ := hget
  have hidle : ∀ held newTags pending, p ≠ .committing held newTags pending := by
    rintro held newTags pending rfl
    cases (Phase.commit_get hreq held).symm.trans hnext
  obtain ⟨-, hview, husers, hseq⟩ := r.idle u hnext hidle
  have m' := m.quiet hview husers hseq
  cases Phase.move_of_next hnext with
  | @found k' row hk hget howner =>
    obtain rfl : k = k' := by rw [hreq] at hk; exact Option.some.inj hk
    have hb := Phase.bindable_of_start hk hnext
    refine Or.inr ⟨id, ⟨k, hreq⟩, m'.get hreq (m.registered r.registered),
      r.owed_found m hreq hb hget howner⟩
  | shown => exact Or.inl ⟨iff_of_true trivial ⟨k, hreq⟩, m'⟩
  | unbindable => exact Or.inl ⟨iff_of_false (by simp [Phase.TakenEffect]) id, m'⟩
  | absent => exact Or.inl ⟨iff_of_false (by simp [Phase.TakenEffect]) id, m'⟩
  | collided => exact Or.inl ⟨iff_of_false (by simp [Phase.TakenEffect]) id, m'⟩
  | gone => exact Or.inl ⟨iff_of_true rfl trivial, m'⟩
  | answered => exact Or.inl ⟨Iff.rfl, m'⟩
  | created hcreate => cases hreq.symm.trans hcreate
  | refused hwrites =>
    rw [hreq] at hwrites
    cases hwrites
  | updating hupdate => cases hreq.symm.trans hupdate
  | deleting hdelete => cases hreq.symm.trans hdelete
  | committed => exact absurd rfl (hidle _ _ _)
  | @reported k' =>
    refine Or.inl ⟨iff_of_false (fun hinvalid => ?_) id, m'⟩
    rcases hetag : BookmarkService.currentEtag P h.now call.user k' with x | etag
    · rw [hetag] at hinvalid
      obtain rfl := BookmarkService.currentEtag_eq_error hetag
      cases hinvalid
    · rw [hetag] at hinvalid
      cases hinvalid
  | _ => exact Or.inl ⟨Iff.rfl, m'⟩

end

/-! ## Runs -/

section

variable {ι : Type*} {req : ι → Call (Crud P)} {c c' : Config ι} {i : ι} {db : Db}

/-- A move that leaves alone what the others are in the middle of reading, and hands out no id that
was used before. -/
def Config.Settled (req : ι → Call (Crud P)) (i : ι) (c : Config ι) (h' : History Db) : Prop :=
  Config.Undisturbed P i c h' ∧ Config.TagsSettled req i c h'

instance Config.decidableSettled [DecidableEq ι] [Fintype ι] (req : ι → Call (Crud P)) (i : ι)
    (c : Config ι) (h' : History Db) : Decidable (Config.Settled req i c h') :=
  inferInstanceAs (Decidable (_ ∧ _))

/-- The machine, on runs that leave alone what the others are in the middle of reading. -/
abbrev settledMachine (req : ι → Call (Crud P)) : Interleaving ι (History Db) Phase :=
  (machine req).restrict (Config.Settled req)

/-- **A linearization of a run**: its requests that have taken effect, such that the service, taking
them one at a time, answers each as it has been answered, and leaves the same bookmarks. -/
structure Linearization (req : ι → Call (Crud P)) (db : Db) (c : Config ι) (order : List ι) :
    Prop where
  nodup : order.Nodup
  mem_iff : ∀ i, i ∈ order ↔ (c.thread i).TakenEffect (req i).request
  view : (finalState (Routers.respondTo req) db order).view = c.shared.now.view
  answers : ∀ x ∈ answered (Routers.respondTo req) db order, ∀ result,
    c.thread x.input = .done result → result = .ok x.output

/-- An order that the library has serialized, with what each of it owes. -/
def Linearized (req : ι → Call (Crud P)) (db : Db) (c : Config ι) (order : List ι) : Prop :=
  Interleaving.Serial (fun h db => Db.Mirrors h db) (fun i p => p.TakenEffect (req i).request)
    (fun _ => True) (Routers.respondTo req) db c order ∧
  ∀ x ∈ answered (Routers.respondTo req) db order,
    Owed (req x.input) c.shared.now x.output (c.thread x.input)

theorem Linearized.linearization {order : List ι} (h : Linearized req db c order) :
    Linearization req db c order := by
  refine ⟨h.1.nodup, h.1.mem_iff, h.1.related.view, fun x hx result hdone => ?_⟩
  have ho := h.2 x hx
  rwa [hdone] at ho

variable [DecidableEq ι]

/-- **What is owed stays owed**, whoever moves. -/
theorem Owed.step (t : Tracked req c) (hs : (settledMachine req).StepBy i c c') {j : ι}
    {b : Response Body} (ho : Owed (req j) c.shared.now b (c.thread j)) :
    Owed (req j) c'.shared.now b (c'.thread j) := by
  obtain ⟨hs, ⟨-, huntouched⟩, htags⟩ := Interleaving.restrict_stepBy.mp hs
  by_cases hj : j = i
  · subst hj
    obtain ⟨-, db', hnext, hpush⟩ := hs.move_self
    rw [hpush]
    exact ho.next t.1.1.integrity hnext
  · rw [hs.thread_ne hj]
    exact ho.settled (huntouched j hj) (htags j hj)

/-- **A run goes on in that order.** -/
theorem Linearized.run {order : List ι} (h : Linearized req db c order) (t : Tracked req c)
    (hrun : (settledMachine req).Run c c') :
    Tracked req c' ∧ ∃ later, Linearized req db c' (order ++ later) := by
  have hfresh : ∀ {i d d'}, (settledMachine req).StepBy i d d' →
      (freshMachine req).StepBy i d d' := fun hs => by
    obtain ⟨hs, ⟨hfresh, -⟩, -⟩ := Interleaving.restrict_stepBy.mp hs
    exact Interleaving.restrict_stepBy.mpr ⟨hs, hfresh⟩
  refine Interleaving.Serial.run_owed (I := Tracked req)
    (fun j b d => Owed (req j) d.shared.now b (d.thread j)) ?_
    (fun i d d' j b t hs ho => ho.step t hs) hrun t h.1 h.2
  intro i d d' e t m hs
  obtain ⟨-, db', hnext, hpush⟩ := (Interleaving.restrict_stepBy.mp hs).1.move_self
  refine ⟨t.step (hfresh hs), ?_⟩
  rcases (t.1.running i).takes_effect (t.2 i) m hnext with
    ⟨htook, m'⟩ | ⟨hbefore, hafter, m', ho⟩
  · exact ⟨.nothing htook (hpush ▸ m'), fun hb ha => absurd (htook.mp ha) hb⟩
  · refine ⟨.input hbefore hafter (hpush ▸ m') trivial, fun _ _ => ?_⟩
    rw [hpush]
    exact ho

/-- **The service is linearizable**, where nobody changes what another is in the middle of reading.
There is an order of the requests that have taken effect, only added to as the run goes on, in which
the service that takes one request at a time gives each the answer it has got, and leaves the same
bookmarks. -/
theorem linearizable (I : db.Integrity) (hreg : ∀ i, db.Registered (req i).user)
    (hrun : (settledMachine req).Run (Config.initial db) c)
    (hrun' : (settledMachine req).Run c c') :
    ∃ order later, Linearization req db c order ∧ Linearization req db c' (order ++ later) := by
  have hstart : Linearized req db (Config.initial db) [] :=
    ⟨Interleaving.Serial.initial ⟨I, rfl, rfl, rfl⟩ fun _ => id, fun _ hx => absurd hx
      List.not_mem_nil⟩
  obtain ⟨t, order, h⟩ := hstart.run (.initial I hreg) hrun
  obtain ⟨-, later, h'⟩ := h.run t hrun'
  exact ⟨order, later, h.linearization, h'.linearization⟩

end

/-- A create and an update of what it has just created, each left to its reads. -/
theorem linearizable_createAndUpdate : ∃ (c : Config (Fin 2)) (order : List (Fin 2)),
    Linearization createAndUpdate Db.twoAccounts c order ∧ (c.thread 0).response?.isSome ∧
      1 ∈ order := by
  obtain ⟨c, -, -, hrun, -, -, hc⟩ := Config.exists_run createAndUpdate
    (Config.Settled createAndUpdate) (.initial Db.twoAccounts) [0, 0, 1, 0, 1, 0, 1] 1 []
    (fun c _ _ => decide ((c.thread 0).response?.isSome ∧ c.thread 1 = .refreshing 1))
    (by decide +kernel)
  obtain ⟨hzero, hone⟩ := of_decide_eq_true hc
  obtain ⟨order, -, h, -⟩ := linearizable Db.integrity_twoAccounts (by decide +kernel) hrun
    (Interleaving.Run.refl c)
  refine ⟨c, order, h, hzero, (h.mem_iff 1).mpr ?_⟩
  rw [hone]
  trivial
