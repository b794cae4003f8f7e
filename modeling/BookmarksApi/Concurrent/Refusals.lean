import BookmarksApi.Concurrent.Flush
import BookmarksApi.Concurrent.LostUpdates
import BookmarksApi.Store.Reads

/-!
# Concurrent/Refusals — a refused write can be repeated

A write is refused by its precondition, against the row it has read, or by its commit, and then a
second read says what took its place.  Either way the refusal reports one row that was read
(`Phase.reports`), if there was one, and the row's ETag is good for as long as the row stays: the
same request with that `If-Match` succeeds (`respond_again`).  A refusal that reports nothing has
found the bookmark gone (`refusal_recoverable`).

Nothing is asked of the run: ids may be handed out twice.  The constraints matter only where the
request is repeated; `Sound.run` keeps them.
-/

variable {P : Platform}

/-! ## The request again -/

/-- The request with another `If-Match`. -/
def Crud.withIfMatch (ifMatch : Option Str) : Crud P → Crud P
  | .update bookmarkId payload _ => .update bookmarkId payload ifMatch
  | .delete bookmarkId _ => .delete bookmarkId ifMatch
  | c => c

/-- The call repeated at another time, with another `If-Match`. -/
def Call.again (call : Call (Crud P)) (now : ℤ) (ifMatch : Option Str) : Call (Crud P) :=
  ⟨call.user, now, call.request.withIfMatch ifMatch⟩

namespace Routers

variable {db : Db} {call : Call (Crud P)} {k : ℤ} {row : BookmarkRow}

/-- **Repeated with the ETag of the row that is there, a write succeeds.** -/
theorem respond_again (I : db.Integrity) {ifMatch : Option Str}
    (hwrites : call.request.Writes ifMatch) (hk : call.request.target = some k)
    (hb : P.bindable k = true) (hget : db.bookmarks.get? k = some row)
    (howner : row.userId = call.user) (now : ℤ) :
    let result := respondCrud db (call.again now (some (VersionETagService.makeEtag row.version)))
    result.1.body.isLeft = true ∧
      result.2.view = Function.update db.view k (call.request.edit now (db.entry row)) := by
  obtain ⟨hmem, rfl⟩ := Table.get?_eq_some.mp hget
  obtain ⟨u, hu, hid⟩ := I.owner row hmem
  have hreg : db.Registered call.user := ⟨u, Table.get?_eq_some.mpr ⟨hu, hid.trans howner⟩⟩
  have hread : Entries.read P db.view call.user row.id = .ok (db.entry row) :=
    Entries.read_eq_ok.mpr ⟨hb, Db.owned_entry hmem howner⟩
  have hcheck := BookmarkService.checkPrecondition_makeEtag.mpr (Eq.refl row.version)
  obtain ⟨hout, hview, -, -⟩ := respond_refines I
    (call.again now (some (VersionETagService.makeEtag row.version))) hreg
  simp only
  rw [hout, hview]
  cases hreq : call.request with
  | update bookmarkId payload ifMatch =>
    obtain rfl : bookmarkId = row.id := by simpa [hreq, Crud.target] using hk
    simp only [Entries.respond, Call.again, hreq, Crud.withIfMatch, Entries.crud, hread, bind,
      Except.bind, Db.entry, hcheck]
    exact ⟨rfl, rfl⟩
  | delete bookmarkId ifMatch =>
    obtain rfl : bookmarkId = row.id := by simpa [hreq, Crud.target] using hk
    simp only [Entries.respond, Call.again, hreq, Crud.withIfMatch, Entries.crud, hread, bind,
      Except.bind, Db.entry, hcheck]
    exact ⟨rfl, rfl⟩
  | _ =>
    rw [hreq] at hwrites
    cases hwrites

/-- **Repeated where the user has no such bookmark, it is not found.** -/
theorem respond_again_absent (hreg : db.Registered call.user) {ifMatch : Option Str}
    (hwrites : call.request.Writes ifMatch) (hk : call.request.target = some k)
    (hb : P.bindable k = true)
    (habsent : ∀ row, db.bookmarks.get? k = some row → row.userId ≠ call.user) (now : ℤ)
    (ifMatch' : Option Str) :
    (respondCrud db (call.again now ifMatch')).1
      = Response.ofAppError (BookmarkService.notFound k) := by
  have hnone : Entries.owned db.view call.user k = none := by
    refine Option.eq_none_iff_forall_ne_some.mpr fun e he => ?_
    obtain ⟨hview, howner⟩ := Entries.owned_eq_some.mp he
    exact habsent e.row (Db.view_eq_some.mp hview).1 howner
  have hget : BookmarkService.get P db call.user k
      = .error (.app (BookmarkService.notFound k)) := by
    rw [Db.get_eq, Entries.read, if_pos hb, hnone]
    rfl
  rw [respondCrud, respond_eq hreg]
  cases hreq : call.request with
  | update bookmarkId payload ifMatch =>
    obtain rfl : bookmarkId = k := by simpa [hreq, Crud.target] using hk
    simp only [Call.crud, Call.again, hreq, Crud.withIfMatch, route, crud, updateBookmark,
      BookmarkService.update, hget, bind, Except.bind]
    rfl
  | delete bookmarkId ifMatch =>
    obtain rfl : bookmarkId = k := by simpa [hreq, Crud.target] using hk
    simp only [Call.crud, Call.again, hreq, Crud.withIfMatch, route, crud, deleteBookmark,
      BookmarkService.delete, hget, bind, Except.bind]
    rfl
  | _ =>
    rw [hreq] at hwrites
    cases hwrites

end Routers

/-! ## Up to a refusal -/

namespace Phase

/-- The bookmark that a phase is about to write, or failed to. -/
def writing : Phase → Option ℤ
  | lookup (some b) _ => some b.stored.id
  | resolving (some b) _ _ _ _ => some b.stored.id
  | committing (some b) _ _ => some b.stored.id
  | conflicted bookmarkId => some bookmarkId
  | _ => none

/-- **The row that a refusal reports**: the one its precondition was checked against, or the one
found after the rollback. -/
def reports (user : ℤ) (db : Db) : Phase → Option BookmarkRow
  | rowRead row => some row
  | conflicted bookmarkId => (db.bookmarks.get? bookmarkId).filter fun row => row.userId = user
  | _ => none

end Phase

/-- **What a phase has to do with its request's target**: the row it has read was the target's and
the user's, and what it writes is the target. -/
structure OnTarget (call : Call (Crud P)) (h : History Db) (p : Phase) : Prop where
  read : ∀ row, p = .rowRead row → P.bindable row.id = true ∧
    call.request.target = some row.id ∧ row.userId = call.user ∧
    ∃ db ∈ h.states, db.bookmarks.get? row.id = some row
  writes : ∀ k, p.writing = some k →
    call.request.target = some k ∧ ∃ ifMatch, call.request.Writes ifMatch

section

variable {call : Call (Crud P)} {h : History Db} {db db' : Db} {p p' : Phase}

theorem OnTarget.push (o : OnTarget call h p) (db : Db) : OnTarget call (h.push db) p where
  read row hp := by
    obtain ⟨hb, hk, howner, d, hd, hget⟩ := o.read row hp
    exact ⟨hb, hk, howner, d, History.mem_push.mpr (Or.inr hd), hget⟩
  writes := o.writes

/-- A phase that has read nothing to check. -/
theorem OnTarget.of_writes (hread : ∀ row, p ≠ .rowRead row)
    (hwrites : ∀ k, p.writing = some k →
      call.request.target = some k ∧ ∃ ifMatch, call.request.Writes ifMatch) :
    OnTarget call h p :=
  ⟨fun row hp => absurd hp (hread row), hwrites⟩

/-- `get_owned` binds the id it selects by. -/
theorem Phase.bindable_of_selected {user k : ℤ} {row : BookmarkRow}
    (h : selected P db user k = rowRead row) : P.bindable k = true := by
  rw [selected, BookmarkRepository.ownedRow] at h
  split_ifs at h with hb
  exact hb

theorem Phase.bindable_of_start {k : ℤ} {row : BookmarkRow} (hk : call.request.target = some k)
    (h : start.next call db = some (db', rowRead row)) : P.bindable k = true := by
  obtain ⟨-, hselected⟩ := Prod.mk.inj (Option.some.inj h)
  cases hreq : call.request with
  | create payload =>
    rw [hreq] at hk
    cases hk
  | _ =>
    rw [hreq] at hk hselected
    obtain rfl := Option.some.inj hk
    exact bindable_of_selected hselected

/-- **A move keeps to the target.** -/
theorem OnTarget.next (o : OnTarget call h p) (hnext : p.next call h.now = some (db', p')) :
    OnTarget call (h.push db') p' := by
  have hresolve : ∀ {held : Option Bookmark} {names : Option (List Str)},
      (∀ b, held = some b → call.request.target = some b.stored.id ∧
        ∃ ifMatch, call.request.Writes ifMatch) →
      OnTarget call (h.push db') (Phase.resolve P held names) := by
    intro held names hheld
    obtain ⟨x, hp⟩ | ⟨newTags, hp⟩ | ⟨ns, -, hp⟩ := Phase.resolve_cases P held names <;> rw [hp]
    · exact .of_writes (by simp) (by rintro k ⟨⟩)
    all_goals
      refine .of_writes (by simp) fun k hk => ?_
      rcases held with _ | b
      · cases hk
      · obtain rfl := Option.some.inj hk
        exact hheld b rfl
  have hidle : (∀ row, p' ≠ .rowRead row) → p'.writing = none → OnTarget call (h.push db') p' :=
    fun hread hnone => .of_writes hread fun k hk => by rw [hnone] at hk; cases hk
  have hsame : (∀ row, p' ≠ .rowRead row) → p'.writing = p.writing →
      OnTarget call (h.push db') p' :=
    fun hread hwriting => .of_writes hread fun k hk => o.writes k (hwriting ▸ hk)
  cases Phase.move_of_next hnext with
  | created => exact hresolve (by rintro b ⟨⟩)
  | @found k row hk hget howner =>
    obtain rfl : row.id = k := (Table.get?_eq_some.mp hget).2
    refine ⟨?_, by rintro k ⟨⟩⟩
    rintro _ ⟨⟩
    exact ⟨Phase.bindable_of_start hk hnext, hk, howner, h.now,
      History.mem_push.mpr (Or.inr h.now_mem), hget⟩
  | @updating row k payload ifMatch hreq =>
    obtain ⟨-, hk, -⟩ := o.read row rfl
    refine hresolve ?_
    rintro _ ⟨⟩
    exact ⟨hk, ifMatch, hreq ▸ .update⟩
  | @deleting row k ifMatch hreq =>
    obtain ⟨-, hk, -⟩ := o.read row rfl
    refine .of_writes (by simp) ?_
    rintro _ ⟨⟩
    exact ⟨hk, ifMatch, hreq ▸ .delete⟩
  | @lookedUp held => exact hsame (by simp) (by cases held <;> rfl)
  | @resolved held => exact hsame (by simp) (by cases held <;> rfl)
  | @reused held => exact hsame (by simp) (by cases held <;> rfl)
  | @inserted held => exact hsame (by simp) (by cases held <;> rfl)
  | committed hcommit =>
    obtain ⟨-, -, ⟨k, rfl⟩ | rfl⟩ | ⟨x, -, -, -, ⟨-, rfl⟩ | ⟨b, rfl, rfl⟩⟩ :=
      Phase.commit_cases_flush hcommit
    · exact hidle (by simp) rfl
    · exact hidle (by simp) rfl
    · exact hidle (by simp) rfl
    · exact hsame (by simp) rfl
  | _ => exact hidle (by simp) rfl

/-- **A run keeps to the targets.** -/
theorem OnTarget.run {ι : Type*} [DecidableEq ι] {req : ι → Call (Crud P)} {c : Config ι}
    (hrun : (machine req).Run (Config.initial db) c) (i : ι) :
    OnTarget (req i) c.shared (c.thread i) := by
  refine Interleaving.Run.invariant (I := fun c => ∀ i, OnTarget (req i) c.shared (c.thread i))
    ?_ hrun (fun i => .of_writes (by simp [Config.initial]) ?_) i
  · intro i c c' ho hs
    obtain ⟨-, db', hnext, hpush⟩ := hs.move_self
    rw [hpush]
    exact hs.forall_thread ((ho i).next hnext) fun j _ => (ho j).push db'
  · rintro k ⟨⟩

/-! ## The refusal -/

/-- **What a refusal of a write of `k` lets its client do**, when this is the row it reports.  It
carries that row's ETag, and as long as the row is as it was read, the request is repeated with that
ETag and succeeds; or the user's row is gone, and the request is repeated in vain. -/
inductive Recoverable (call : Call (Crud P)) (h : History Db) (k : ℤ) :
    Option BookmarkRow → Option Str → Prop
  | retry {row : BookmarkRow} (howner : row.userId = call.user)
      (hstored : ∃ db ∈ h.states, db.bookmarks.get? k = some row)
      (haccepted : ∀ (db : Db) (now : ℤ), db.Integrity → db.bookmarks.get? k = some row →
        let result := Routers.respondCrud db
          (call.again now (some (VersionETagService.makeEtag row.version)))
        result.1.body.isLeft = true ∧
          result.2.view = Function.update db.view k (call.request.edit now (db.entry row))) :
      Recoverable call h k (some row) (some (VersionETagService.makeEtag row.version))
  | gone (hgone : ∀ row, h.now.bookmarks.get? k = some row → row.userId ≠ call.user)
      (hnotFound : ∀ (db : Db) (now : ℤ) (ifMatch : Option Str), db.Registered call.user →
        (∀ row, db.bookmarks.get? k = some row → row.userId ≠ call.user) →
        (Routers.respondCrud db (call.again now ifMatch)).1
          = Response.ofAppError (BookmarkService.notFound k)) :
      Recoverable call h k none none

/-- A 428 or a 412. -/
def Response.Refuses (r : Response Body) : Prop := r.status = 428 ∨ r.status = 412

theorem Response.not_refuses_ofExc {x : Exc} (h : ∀ e, x ≠ .app e) :
    ¬ (Response.ofExc x).Refuses := by
  rcases x with e | _
  · exact absurd rfl (h e)
  all_goals
    rintro (hstatus | hstatus)
    · cases hstatus
    · cases hstatus

/-- The re-read reports the user's row, if there is one. -/
theorem BookmarkService.currentEtag_eq_ok {user k : ℤ} {etag : Option Str}
    (hetag : currentEtag P db user k = .ok etag) : P.bindable k = true ∧
      etag = ((Phase.conflicted k).reports user db).map fun row =>
        VersionETagService.makeEtag row.version := by
  rw [currentEtag, BookmarkRepository.getOwned, BookmarkRepository.ownedRow] at hetag
  split_ifs at hetag with hb
  · refine ⟨hb, ?_⟩
    obtain rfl := Except.ok.inj hetag
    rw [Phase.reports, Option.map_map]
    rfl
  · cases hetag

/-- **A refusal comes from one of two places.** -/
inductive RefusedBy (call : Call (Crud P)) (db : Db) : Phase → Exc → Prop
  | precondition {row : BookmarkRow} {ifMatch : Option Str} {x : Exc}
      (hwrites : call.request.Writes ifMatch)
      (hx : BookmarkService.checkPrecondition row.version ifMatch = .error x) :
      RefusedBy call db (.rowRead row) x
  | commit {k : ℤ} {etag : Option Str}
      (hetag : BookmarkService.currentEtag P db call.user k = .ok etag) :
      RefusedBy call db (.conflicted k) (.app (BookmarkService.conflict etag))

theorem RefusedBy.of_next {result : Except Exc (Response Body)}
    (hnext : p.next call db = some (db', .done result))
    (hrefused : (Response.ofExcept result).Refuses) :
    db' = db ∧ ∃ x, result = .error x ∧ RefusedBy call db p x := by
  have hok : ∀ {r : Response Body}, result = .ok r →
      r.status = 200 ∨ r.status = 201 ∨ r.status = 204 → False := by
    rintro r rfl (hr | hr | hr)
    all_goals rcases hrefused with h | h <;> cases hr.symm.trans h
  have hexc : ∀ {x : Exc}, result = .error x → (∀ e, x ≠ .app e) → False := by
    rintro x rfl hx
    exact Response.not_refuses_ofExc hx hrefused
  have hresolve : ∀ {held : Option Bookmark} {names : Option (List Str)},
      call.request.names = names → Phase.done result = Phase.resolve P held names → False := by
    intro held names hnames hdone
    obtain ⟨-, hp⟩ | ⟨-, hp⟩ | ⟨ns, -, hp⟩ := resolve_names held hnames <;> rw [hp] at hdone <;>
      cases hdone
  have hm := Phase.move_of_next hnext
  generalize hp' : Phase.done result = p' at hm
  cases hm with
  | created hreq => exact (hresolve (by rw [hreq]; rfl) hp').elim
  | unbindable => exact (hexc (Phase.done.inj hp') (by simp)).elim
  | absent =>
    obtain rfl := Phase.done.inj hp'
    rcases hrefused with h | h <;> cases h
  | shown => exact (hok (Phase.done.inj hp') (Or.inl rfl)).elim
  | refused hwrites hx => exact ⟨rfl, _, Phase.done.inj hp', .precondition hwrites hx⟩
  | updating hreq => exact (hresolve (by rw [hreq, Routers.changesOf_tags]; rfl) hp').elim
  | collided => exact (hexc (Phase.done.inj hp') (by simp)).elim
  | committed hcommit =>
    obtain ⟨-, -, ⟨k, rfl⟩ | rfl⟩ | ⟨x, -, rfl | rfl, -, ⟨-, rfl⟩ | ⟨b, -, rfl⟩⟩ :=
      Phase.commit_cases_flush hcommit
    · cases hp'
    · exact (hok (Phase.done.inj hp') (Or.inr (Or.inr rfl))).elim
    · exact (hexc (Phase.done.inj hp') (by simp)).elim
    · cases hp'
    · exact (hexc (Phase.done.inj hp') (by simp)).elim
    · cases hp'
  | gone => exact (hexc (Phase.done.inj hp') (by simp)).elim
  | answered =>
    refine (hok (Phase.done.inj hp') ?_).elim
    cases call.request with
    | create => exact Or.inr (Or.inl rfl)
    | _ => exact Or.inl rfl
  | @reported k =>
    rcases hetag : BookmarkService.currentEtag P db call.user k with x | etag
    · refine (hexc (x := x) ((Phase.done.inj hp').trans (by rw [hetag]; rfl)) ?_).elim
      rw [BookmarkService.currentEtag, BookmarkRepository.getOwned,
        BookmarkRepository.ownedRow] at hetag
      split_ifs at hetag
      · cases hetag
      · obtain rfl := Except.error.inj hetag
        simp
    · exact ⟨rfl, _, (Phase.done.inj hp').trans (by rw [hetag]; rfl), .commit hetag⟩
  | _ => cases hp'

/-- **Whichever place it comes from, the refusal can be recovered from.** -/
theorem RefusedBy.recoverable (o : OnTarget call h p) {x : Exc}
    (hrefused : RefusedBy call h.now p x) : ∃ k, call.request.target = some k ∧
      Recoverable call h k (p.reports call.user h.now) (Response.ofExc x : Response Body).etag := by
  cases hrefused with
  | @precondition row ifMatch x hwrites hx =>
    obtain ⟨hb, hk, howner, hstored⟩ := o.read row rfl
    have hetag : (Response.ofExc x : Response Body).etag
        = some (VersionETagService.makeEtag row.version) := by
      rcases BookmarkService.checkPrecondition_eq_error hx with rfl | rfl <;> rfl
    rw [hetag]
    exact ⟨row.id, hk, .retry howner hstored fun db now I hget =>
      Routers.respond_again I hwrites hk hb hget howner now⟩
  | @commit k etag hetag =>
    obtain ⟨hk, ifMatch, hwrites⟩ := o.writes k rfl
    obtain ⟨hb, rfl⟩ := BookmarkService.currentEtag_eq_ok hetag
    refine ⟨k, hk, ?_⟩
    rcases hrow : (Phase.conflicted k).reports call.user h.now with _ | row
    · have hgone : ∀ row, h.now.bookmarks.get? k = some row → row.userId ≠ call.user := by
        intro row hget howner
        simp [Phase.reports, hget, howner] at hrow
      exact .gone hgone fun db now ifMatch' hreg habsent =>
        Routers.respond_again_absent hreg hwrites hk hb habsent now ifMatch'
    · obtain ⟨hget, howner⟩ := Option.filter_eq_some_iff.mp hrow
      have howner := of_decide_eq_true howner
      exact .retry howner ⟨h.now, h.now_mem, hget⟩ fun db now I hget =>
        Routers.respond_again I hwrites hk hb hget howner now

end

/-- **A refusal is recoverable.**  However the requests interleave, a write that is answered with a
428 or a 412 reports one row of its user's under the id it names, and carries that row's ETag: as
long as the row is as it was read, the same request with that ETag succeeds and makes its change.
If it carries no ETag, the user has no such bookmark any more, and repeating the request finds
none. -/
theorem refusal_recoverable {ι : Type*} [DecidableEq ι] {req : ι → Call (Crud P)} {db : Db}
    {c c' : Config ι} {i : ι} (hrun : (machine req).Run (Config.initial db) c)
    (hstep : (machine req).StepBy i c c') {result : Except Exc (Response Body)}
    (hdone : c'.thread i = .done result) (hrefused : (Response.ofExcept result).Refuses) :
    c'.shared.now = c.shared.now ∧ ∃ k, (req i).request.target = some k ∧
      Recoverable (req i) c.shared k ((c.thread i).reports (req i).user c.shared.now)
        (Response.ofExcept result).etag := by
  obtain ⟨-, db', hnext, hpush⟩ := hstep.move_self
  rw [hdone] at hnext
  obtain ⟨rfl, x, rfl, hby⟩ := RefusedBy.of_next hnext hrefused
  rw [hpush]
  exact ⟨rfl, hby.recoverable (.run hrun i)⟩

/-- The row that the first update leaves. -/
def raceWinner : BookmarkRow :=
  ⟨1, "https://example.com/".toList, ['b'], none, 1, .seconds 0, .micros 1, 2⟩

/-- The update that lost the race reports version 2, and succeeds when it is repeated with it. -/
theorem refusal_recoverable_race : ∃ (c c' : Config (Fin 3)) (result : Except Exc (Response Body)),
    (machine raceRequests).Run (Config.initial Db.twoAccounts) c ∧
      (machine raceRequests).StepBy 2 c c' ∧ c'.thread 2 = .done result ∧
      (Response.ofExcept result).etag = some "\"2\"".toList ∧
      (Routers.respondCrud c'.shared.now
        ((raceRequests 2).again 3 (some "\"2\"".toList))).1.body.isLeft = true := by
  obtain ⟨c, c', -, hrun, hstep, -, hc⟩ := Config.exists_run raceRequests (fun _ _ _ => True)
    (.initial Db.twoAccounts) [0, 0, 1, 1, 2, 2, 1, 2] 2 [] (fun c c' _ =>
      decide (c.thread 2 = .conflicted 1 ∧ c.shared.now.bookmarks.get? 1 = some raceWinner ∧
        c'.thread 2 = .done (.error (.app (BookmarkService.conflict (some "\"2\"".toList))))))
    (by decide +kernel)
  obtain ⟨hphase, hget, hdone⟩ := of_decide_eq_true hc
  have hrun := Interleaving.run_of_restrict hrun
  have hstep := (Interleaving.restrict_stepBy.mp hstep).1
  have I := ((Sound.initial Db.integrity_twoAccounts (by decide +kernel)).run_of_sequence rfl
    (History.numbered_single Db.integrity_twoAccounts) hrun).2.1.1.integrity
  obtain ⟨hnow, k, hk, hrec⟩ := refusal_recoverable hrun hstep hdone (Or.inr rfl)
  obtain rfl := Option.some.inj hk
  have hreports : (Phase.conflicted 1).reports 1 c.shared.now = some raceWinner := by
    rw [Phase.reports, hget]
    rfl
  rw [hphase, show (raceRequests 2).user = 1 from rfl, hreports] at hrec
  cases hrec with
  | retry howner hstored haccepted =>
    have hagain := (haccepted c.shared.now 3 I hget).1
    exact ⟨c, c', _, hrun, hstep, hdone, rfl, hnow ▸ hagain⟩
