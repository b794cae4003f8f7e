import BookmarksApi.Concurrent.Serialization
import BookmarksApi.Machinery.Projection
import BookmarksApi.Sequential.Isolation

/-!
# Concurrent/OwnCommits — a user's bookmarks come of the user's own commits

The requests of all users share the tables, interleave, and create tags for one another.  In the
serial order of the commits each user has a part, and a user's bookmarks are what that part alone
makes of the user's bookmarks at the start: with everybody else's requests left out, the map answers
each of the user's as a success and comes to the same entries (`own_commits`).

Only the numbers come from outside.  An id is given out over all bookmarks, so the part is numbered:
each request goes with the id that the database would give out at its turn.
-/

variable {P : Platform}

namespace Entries

variable {s : Entries} {user : ℤ}

/-- A request, with the id that a create gets. -/
noncomputable def respondNumbered (s : Entries) (c : ℤ × Call (Crud P)) :
    Response Body × Entries := s.respond c.1 c.2

/-- **A request does to a user's own entries what it does to them among all.** -/
theorem respond_owned (s : Entries) (fresh user now : ℤ) (c : Crud P) :
    (Entries.respond (s.owned user) fresh ⟨user, now, c⟩).1 = (s.respond fresh ⟨user, now, c⟩).1 ∧
      (Entries.respond (s.owned user) fresh ⟨user, now, c⟩).2
        = Entries.owned (s.respond fresh ⟨user, now, c⟩).2 user := by
  have hread : ∀ i, Entries.read P (s.owned user) user i = s.read P user i := by
    intro i
    have howned : Entries.owned (s.owned user) user i = s.owned user i := by
      rw [owned, owned, Option.filter_filter]
      simp
    rw [read, read, howned]
  have hupdate : ∀ i e, (∀ e', e = some e' → e'.row.userId = user) →
      Function.update (s.owned user) i e = Entries.owned (Function.update s i e) user := by
    intro i e he
    funext k
    rw [owned_update, Function.update_apply]
    split_ifs
    · rcases e with _ | e'
      · rfl
      · rw [Option.filter_some, if_pos (by simpa using he e' rfl)]
    · rfl
  rcases c with payload | i | ⟨i, payload, ifMatch⟩ | ⟨i, ifMatch⟩
  · refine ⟨rfl, hupdate fresh _ ?_⟩
    rintro e ⟨⟩
    rfl
  all_goals
    simp only [respond, crud, bind, Except.bind, hread i]
    rcases hr : s.read P user i with x | e
    · exact ⟨rfl, rfl⟩
  · exact ⟨rfl, rfl⟩
  all_goals
    simp only
    rcases BookmarkService.checkPrecondition e.row.version ifMatch with x | _
    · exact ⟨rfl, rfl⟩
  · refine ⟨rfl, hupdate i _ ?_⟩
    rintro e' ⟨⟩
    exact (owned_eq_some.mp (read_eq_ok.mp hr).2).2
  · exact ⟨rfl, hupdate i none (by simp)⟩

end Entries

namespace Routers

/-- What a user puts in: the user's own requests, numbered. -/
def numbered (user : ℤ) (db : Db) (c : Call (Crud P)) : Option (ℤ × Call (Crud P)) :=
  if c.user = user then some (db.nextId P, c) else none

/-- A user's entries, as a map of its own. -/
structure PartOf (user : ℤ) (db : Db) (s : Entries) : Prop where
  integrity : db.Integrity
  registered : db.Registered user
  entries : s = Entries.owned db.view user

/-- **A user's entries keep up with the user's requests**, and with nobody else's. -/
theorem projection (user : ℤ) :
    Projection (respondCrud (P := P)) Entries.respondNumbered (PartOf user) (numbered user) where
  mine := by
    rintro db s ⟨user', now, c⟩ numbered' p hown
    rw [numbered] at hown
    split_ifs at hown with huser
    subst huser
    obtain rfl := Option.some.inj hown
    obtain ⟨hout, hview, I', K⟩ := respond_refines p.integrity ⟨user', now, c⟩ p.registered
    obtain ⟨hsame, hentries⟩ := Entries.respond_owned db.view (db.nextId P) user' now c
    rw [p.entries]
    refine ⟨hout.trans hsame.symm, I', K.registered.mpr p.registered, ?_⟩
    rw [hview]
    exact hentries
  theirs := by
    rintro db s c p hown
    rw [numbered] at hown
    split_ifs at hown with huser
    obtain ⟨I', K⟩ := respond_keeps p.integrity c.crud
    refine ⟨I', K.registered.mpr p.registered, p.entries.trans (funext ?_)⟩
    exact agreeFor_respond p.integrity (Ne.symm huser) c.now (.crud c.request)

/-- The user's part of a list of calls. -/
theorem ownInputs_numbered (user : ℤ) (db : Db) (calls : List (Call (Crud P))) :
    (ownInputs respondCrud (numbered user) db calls).map Prod.snd
      = calls.filter fun c => c.user = user := by
  induction calls generalizing db with
  | nil => rfl
  | cons c calls ih =>
    rw [ownInputs_cons, List.map_append, ih, List.filter_cons, numbered]
    simp only [decide_eq_true_eq]
    split_ifs <;> rfl

end Routers

section

variable {ι : Type*} [DecidableEq ι] {req : ι → Call (Crud P)} {c : Config ι} {db : Db}

/-- **A user's bookmarks come of the user's own commits.**  However the requests of all users
interleave, there is one order of those that have committed such that, for each user, the map of the
user's bookmarks at the start, given only the user's requests in that order, accepts every one of
them and comes to the user's bookmarks at the end. -/
theorem own_commits (I : db.Integrity) (hreg : ∀ i, db.Registered (req i).user)
    (hrun : (freshMachine req).Run (Config.initial db) c) :
    ∃ order : List ι, order.Nodup ∧
      (∀ i, i ∈ order ↔ (c.thread i).HasCommitted (req i).request) ∧
      ∀ user, db.Registered user → ∃ numbered : List (ℤ × Call (Crud P)),
        numbered.map Prod.snd = (order.map req).filter (fun call => call.user = user) ∧
        (∀ r ∈ outputs Entries.respondNumbered (Entries.owned db.view user) numbered,
          r.Accepted) ∧
        finalState Entries.respondNumbered (Entries.owned db.view user) numbered
          = Entries.owned c.shared.now.view user := by
  have hstart : SerialRun req db (Config.initial db) [] := .initial I
  obtain ⟨-, order, h⟩ := Tracked.run hrun (.initial I hreg) hstart
  have hserial := h.serialOrder
  refine ⟨order, hserial.nodup, hserial.mem_iff, fun user hu => ?_⟩
  obtain ⟨houtputs, hend⟩ :=
    (Routers.projection user).run ⟨I, hu, rfl⟩ (order.map req)
  refine ⟨_, Routers.ownInputs_numbered user db (order.map req), fun r hr => ?_, ?_⟩
  · rw [← houtputs] at hr
    exact hserial.accepted r (mem_outputs_of_mem_ownOutputs hr)
  · rw [hend.entries]
    exact congrArg (fun view => Entries.owned view user) hserial.view

end

/-- Alice and Bob each create a bookmark. -/
def oneEach : Fin 2 → Call (Crud .sqlite)
  | 0 => ⟨1, 0, .create (.titled 'a')⟩
  | 1 => ⟨2, 1, .create (.titled 'b')⟩

/-- Their creates interleave, and both commit. -/
theorem own_commits_oneEach : ∃ (c : Config (Fin 2)) (order : List (Fin 2)), 0 ∈ order ∧ 1 ∈ order ∧
    ∃ numbered : List (ℤ × Call (Crud .sqlite)),
      numbered.map Prod.snd = (order.map oneEach).filter (fun call => call.user = 2) ∧
      finalState Entries.respondNumbered (Entries.owned Db.twoAccounts.view 2) numbered
        = Entries.owned c.shared.now.view 2 := by
  obtain ⟨c, -, -, hrun, -, -, hc⟩ := Config.exists_run oneEach
    (fun i c _ => Config.Fresh .sqlite c i) (.initial Db.twoAccounts) [0, 1, 0, 1, 0] 1 []
    (fun c _ _ => decide (c.thread 0 = .rowRefreshed
        ⟨1, "https://example.com/".toList, ['a'], none, 1, .seconds 0, .seconds 0, 1⟩ ∧
      c.thread 1 = .refreshing 2)) (by decide +kernel)
  obtain ⟨hzero, hone⟩ := of_decide_eq_true hc
  obtain ⟨order, -, hmem, hparts⟩ := own_commits Db.integrity_twoAccounts (by decide +kernel) hrun
  obtain ⟨numbered, hnumbered, -, hend⟩ := hparts 2 (by decide +kernel)
  refine ⟨c, order, (hmem 0).mpr ?_, (hmem 1).mpr ?_, numbered, hnumbered, hend⟩
  · rw [hzero]
    trivial
  · rw [hone]
    trivial
