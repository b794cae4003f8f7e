import BookmarksApi.Concurrent.SpentETags
import BookmarksApi.Sequential.Isolation

/-!
# Concurrent/Ledger — every commit counts, and counts once

Requests interleave, lose races, are refused and are retried, and the books balance all the same.
A user has as many bookmarks more as the user's creates have committed, and as many less as the
deletes; a bookmark is as many versions further as its updates have committed (`books_balance`).
An update that was overwritten, or one that was written twice, would show in its version.
-/

variable {P : Platform}

/-! ## Kinds of requests -/

namespace Crud

/-- A create. -/
def isCreate : Crud P → Bool
  | create _ => true
  | _ => false

/-- A delete. -/
def isDelete : Crud P → Bool
  | delete _ _ => true
  | _ => false

/-- An update of a bookmark. -/
def updates (k : ℤ) : Crud P → Bool
  | update i _ _ => i = k
  | _ => false

/-- A delete of a bookmark. -/
def deletes (k : ℤ) : Crud P → Bool
  | delete i _ => i = k
  | _ => false

end Crud

/-! ## One request at a time -/

namespace Entries

/-- The ids that a user has. -/
def idsOf (s : Entries) (user : ℤ) : Set ℤ := {k | (s.owned user k).isSome = true}

/-- The version under an id, or the one that a create gives. -/
def versionAt (s : Entries) (k : ℤ) : ℕ := (s k).elim 1 Entry.version

variable {s : Entries} {fresh user now : ℤ} {c : Crud P} {result : Response Body × Entries}

/-- A user's entry is written. -/
theorem idsOf_update_some {i : ℤ} {e : Entry} (he : e.row.userId = user) :
    Entries.idsOf (Function.update s i (some e)) user = insert i (s.idsOf user) := by
  ext k
  change (Entries.owned (Function.update s i (some e)) user k).isSome = true ↔
    k = i ∨ (s.owned user k).isSome = true
  rw [owned_update]
  split_ifs with hk <;> simp [hk, he]

/-- An entry is removed. -/
theorem idsOf_update_none {i : ℤ} :
    Entries.idsOf (Function.update s i none) user = s.idsOf user \ {i} := by
  ext k
  change (Entries.owned (Function.update s i none) user k).isSome = true ↔
    (s.owned user k).isSome = true ∧ ¬ k = i
  rw [owned_update]
  split_ifs with hk <;> simp [hk]

/-- An entry of another user is written or removed. -/
theorem idsOf_update_foreign {other i : ℤ} {e : Option Entry} (hne : user ≠ other)
    (hs : ∀ e', s i = some e' → e'.row.userId = other)
    (he : ∀ e', e = some e' → e'.row.userId = other) :
    Entries.idsOf (Function.update s i e) user = s.idsOf user := by
  ext k
  change (Entries.owned (Function.update s i e) user k).isSome = true ↔ _
  rw [owned_update_foreign hne hs he]
  rfl

/-- **An accepted request changes a user's number of bookmarks** if it is a create or a delete of
that user. -/
theorem Outcome.ncard (h : s.Outcome fresh user now c result) (hok : result.1.Accepted)
    (hfresh : s fresh = none) (owner : ℤ) (hfinite : (s.idsOf owner).Finite) :
    (Entries.idsOf result.2 owner).ncard + (decide (user = owner) && c.isDelete).toNat
      = (s.idsOf owner).ncard + (decide (user = owner) && c.isCreate).toNat := by
  have howned : ∀ {i : ℤ} {e : Entry}, s.owned user i = some e → i ∈ s.idsOf user ∧
      ∀ e', s i = some e' → e'.row.userId = user := by
    intro i e he
    refine ⟨Option.isSome_iff_exists.mpr ⟨e, he⟩, fun e' he' => ?_⟩
    obtain ⟨hi, howner⟩ := owned_eq_some.mp he
    rwa [Option.some.inj (he'.symm.trans hi)]
  cases h with
  | unread => exact absurd hok (by simp [Response.Accepted, Response.isLeft_ofExc])
  | refused => exact absurd hok (by simp [Response.Accepted, Response.isLeft_ofExc])
  | got => simp [Crud.isDelete, Crud.isCreate]
  | created payload =>
    by_cases huser : user = owner
    · subst huser
      have hnew : fresh ∉ s.idsOf user := fun hmem => by
        obtain ⟨e, he⟩ := Option.isSome_iff_exists.mp hmem
        exact absurd ((owned_eq_some.mp he).1.symm.trans hfresh) (Option.some_ne_none e)
      have howner : (Entry.ofPayload now fresh user payload).row.userId = user := rfl
      rw [idsOf_update_some howner, Set.ncard_insert_of_notMem hnew hfinite]
      simp [Crud.isDelete, Crud.isCreate]
    · rw [idsOf_update_foreign (Ne.symm huser) (by simp [hfresh]) (by rintro e ⟨⟩; rfl)]
      simp [huser]
  | @updated i e payload ifMatch he hx =>
    obtain ⟨hmem, hforeign⟩ := howned he
    have howner : (e.change now (Routers.changesOf payload)).row.userId = user :=
      (owned_eq_some.mp he).2
    by_cases huser : user = owner
    · subst huser
      rw [idsOf_update_some howner, Set.insert_eq_of_mem hmem]
      simp [Crud.isDelete, Crud.isCreate]
    · rw [idsOf_update_foreign (Ne.symm huser) hforeign (by rintro e' ⟨⟩; exact howner)]
      simp [huser]
  | @deleted i e ifMatch he hx =>
    obtain ⟨hmem, hforeign⟩ := howned he
    by_cases huser : user = owner
    · subst huser
      rw [idsOf_update_none, ← Set.ncard_sdiff_singleton_add_one hmem hfinite]
      simp [Crud.isDelete, Crud.isCreate]
    · rw [idsOf_update_foreign (Ne.symm huser) hforeign (by simp)]
      simp [huser]

/-- **An accepted request takes a bookmark a version further** if it updates it, and if it does not
delete it. -/
theorem Outcome.versionAt (h : s.Outcome fresh user now c result) (hok : result.1.Accepted)
    (hfresh : s fresh = none) {k : ℤ} (hc : c.deletes k = false) :
    Entries.versionAt result.2 k = s.versionAt k + (c.updates k).toNat := by
  cases h with
  | unread => exact absurd hok (by simp [Response.Accepted, Response.isLeft_ofExc])
  | refused => exact absurd hok (by simp [Response.Accepted, Response.isLeft_ofExc])
  | got => rfl
  | created payload =>
    simp only [Entries.versionAt, Function.update_apply]
    split_ifs with hk
    · rw [hk, hfresh]
      rfl
    · rfl
  | @updated i e payload ifMatch he hx =>
    simp only [Entries.versionAt, Function.update_apply, Crud.updates]
    by_cases hk : k = i
    · subst hk
      rw [if_pos rfl, (owned_eq_some.mp he).1]
      simp [Entry.change, Entry.version]
    · rw [if_neg hk, decide_eq_false (Ne.symm hk)]
      rfl
  | @deleted i e ifMatch he hx =>
    have hk : k ≠ i := fun hk => by simp [Crud.deletes, hk] at hc
    simp only [Entries.versionAt, Function.update_apply, if_neg hk]
    rfl

end Entries

namespace Routers

variable {db : Db}

theorem finite_idsOf (db : Db) (user : ℤ) : (Entries.idsOf db.view user).Finite := by
  refine (List.finite_toSet (db.bookmarks.rows.map BookmarkRow.id)).subset fun k hk => ?_
  obtain ⟨e, he⟩ := Option.isSome_iff_exists.mp hk
  obtain ⟨hmem, -, rfl, -⟩ := Db.eq_entry_of_owned he
  exact List.mem_map_of_mem hmem

/-- **The statistics count the ids.** -/
theorem totalBookmarks_eq (P : Platform) (db : Db) (user : ℤ) :
    (StatsRepository.getStats P db user).totalBookmarks = (Entries.idsOf db.view user).ncard := by
  have hset : Entries.idsOf db.view user
      = (((StatsRepository.owned db user).map BookmarkRow.id).toFinset : Set ℤ) := by
    ext k
    rw [Finset.mem_coe, List.mem_toFinset, List.mem_map]
    change (Entries.owned db.view user k).isSome = true ↔ _
    rw [Option.isSome_iff_exists]
    constructor
    · rintro ⟨e, he⟩
      obtain ⟨hmem, howner, hid, -⟩ := Db.eq_entry_of_owned he
      exact ⟨e.row, StatsRepository.mem_owned.mpr ⟨hmem, howner⟩, hid⟩
    · rintro ⟨row, hrow, rfl⟩
      obtain ⟨hmem, howner⟩ := StatsRepository.mem_owned.mp hrow
      exact ⟨_, Db.owned_entry hmem howner⟩
  have hnodup : ((StatsRepository.owned db user).map BookmarkRow.id).Nodup :=
    db.bookmarks.nodup.sublist (List.filter_sublist.map _)
  rw [hset, Set.ncard_coe_finset, List.toFinset_card_of_nodup hnodup, List.length_map]
  rfl

/-- **So it is for the routes**: an accepted request changes the number. -/
theorem ncard_of_accepted (I : db.Integrity) (call : Call (Crud P))
    (hok : (respondCrud db call).1.Accepted) (owner : ℤ) :
    (Entries.idsOf (respondCrud db call).2.view owner).ncard
        + (decide (call.user = owner) && call.request.isDelete).toNat
      = (Entries.idsOf db.view owner).ncard
        + (decide (call.user = owner) && call.request.isCreate).toNat := by
  obtain ⟨hout, hview, -, -⟩ := respond_refines I call (registered_of_ok hok)
  rw [hout] at hok
  rw [hview]
  exact (Entries.respond_outcome db.view (db.nextId P) call.user call.now call.request).ncard hok
    (Db.view_nextId P I) owner (finite_idsOf db owner)

/-- And the version. -/
theorem versionAt_of_accepted (I : db.Integrity) (call : Call (Crud P))
    (hok : (respondCrud db call).1.Accepted) {k : ℤ} (hk : call.request.deletes k = false) :
    Entries.versionAt (respondCrud db call).2.view k
      = Entries.versionAt db.view k + (call.request.updates k).toNat := by
  obtain ⟨hout, hview, -, -⟩ := respond_refines I call (registered_of_ok hok)
  rw [hout] at hok
  rw [hview]
  exact (Entries.respond_outcome db.view (db.nextId P) call.user call.now call.request).versionAt
    hok (Db.view_nextId P I) hk

end Routers

/-! ## Runs -/

section

variable {ι : Type*} {req : ι → Call (Crud P)} {c c' : Config ι} {i : ι} {db : Db}

/-- The requests that have committed, of a kind. -/
def Config.committed (req : ι → Call (Crud P)) (c : Config ι) (p : Call (Crud P) → Bool) : Set ι :=
  {i | (c.thread i).HasCommitted (req i).request ∧ p (req i) = true}

/-- **The books balance**: every commit counts once, and nothing else counts. -/
structure Reconciled (req : ι → Call (Crud P)) (db : Db) (c : Config ι) : Prop where
  bookmarks : ∀ user, (StatsRepository.getStats P c.shared.now user).totalBookmarks
      + (c.committed req fun call => decide (call.user = user) && call.request.isDelete).ncard
    = (StatsRepository.getStats P db user).totalBookmarks
      + (c.committed req fun call => decide (call.user = user) && call.request.isCreate).ncard
  versions : ∀ k e, c.shared.now.view k = some e → e.version
    = (db.view k).elim 1 Entry.version
      + (c.committed req fun call => call.request.updates k).ncard

/-- What has been deleted is gone for good. -/
def Config.Gone (req : ι → Call (Crud P)) (c : Config ι) : Prop :=
  ∀ i k, (req i).request.deletes k = true → (c.thread i).HasCommitted (req i).request →
    k ∈ c.shared.versioned.used ∧ c.shared.now.view k = none

variable [DecidableEq ι]

/-- **A move keeps it so.** -/
theorem Config.Gone.step (g : c.Gone req) (t : Tracked req c)
    (hs : (freshMachine req).StepBy i c c') : c'.Gone req := by
  obtain ⟨hs, hfresh⟩ := Interleaving.restrict_stepBy.mp hs
  have a : c.shared.Advances c'.shared := t.1.advances hfresh hs
  have hbefore : ∀ {k}, k ∈ c.shared.versioned.used ∧ c.shared.now.view k = none →
      k ∈ c'.shared.versioned.used ∧ c'.shared.now.view k = none := by
    rintro k ⟨hused, hnone⟩
    refine ⟨a.evolves.used hused, Option.eq_none_iff_forall_ne_some.mpr fun e' he' => ?_⟩
    obtain ⟨e, he, -⟩ := a.evolves.step k hused e' he'
    exact Option.some_ne_none e (he.symm.trans hnone)
  intro j k hj hcommitted
  by_cases hji : j = i
  · subst hji
    obtain ⟨-, db', hnext, hpush⟩ := hs.move_self
    by_cases hidle : ∀ held newTags pending, c.thread j ≠ .committing held newTags pending
    · exact hbefore (g j k hj (((t.1.running j).idle (t.2 j) hnext hidle).1.mp hcommitted))
    push Not at hidle
    obtain ⟨held, newTags, pending, hphase⟩ := hidle
    have hcommit := t.1.committed hphase hs
    generalize c'.thread j = p' at hcommit hcommitted
    generalize hnow : c'.shared.now = db' at hcommit ⊢
    cases hcommit with
    | created hreq => simp [hreq, Crud.deletes] at hj
    | updated hreq => simp [hreq, Crud.deletes] at hj
    | lost => exact absurd hcommitted id
    | @deleted row tags _ _ hreq hv _ W =>
      obtain rfl : row.id = k := by simpa [hreq, Crud.deletes] using hj
      exact ⟨a.evolves.used ⟨_, c.shared.now_mem, by rw [hv]; rfl⟩, W.view_self⟩
  · rw [hs.thread_ne hji] at hcommitted
    exact hbefore (g j k hj hcommitted)

/-- **The books balance**, however the requests interleave. -/
theorem books_balance (I : db.Integrity) (hreg : ∀ i, db.Registered (req i).user)
    (hrun : (freshMachine req).Run (Config.initial db) c) : Reconciled req db c := by
  have hstart : SerialRun req db (Config.initial db) [] := .initial I
  obtain ⟨-, order, h⟩ := Tracked.run hrun (.initial I hreg) hstart
  rw [List.nil_append] at h
  have hgone : Tracked req c ∧ c.Gone req :=
    hrun.invariant (I := fun d => Tracked req d ∧ Config.Gone req d)
      (fun i _ _ hd hs => ⟨hd.1.step hs, hd.2.step hd.1 hs⟩)
      ⟨.initial I hreg, fun _ _ _ hcommitted => absurd hcommitted id⟩
  have hkeeps : ∀ (d : Db) (i : ι), d.Integrity → (Routers.respondTo req d i).2.Integrity :=
    fun d i I => (Routers.respond_keeps I (req i).crud).1
  refine ⟨fun user => ?_, fun k e he => ?_⟩
  · have hbalance := finalState_balance (fun d : Db => (Entries.idsOf d.view user).ncard)
      (fun i => decide ((req i).user = user) && (req i).request.isCreate)
      (fun i => decide ((req i).user = user) && (req i).request.isDelete)
      (fun i _ d I hok => ⟨hkeeps d i I, Routers.ncard_of_accepted I (req i) hok user⟩) I h.good
    rw [h.related.view, h.countP_eq, h.countP_eq] at hbalance
    rw [Routers.totalBookmarks_eq, Routers.totalBookmarks_eq]
    exact hbalance
  · have hnot : ∀ i ∈ order, (req i).request.deletes k = false := by
      intro i hi
      by_contra hdeletes
      obtain ⟨-, hnone⟩ := hgone.2 i k (by simpa using hdeletes) ((h.mem_iff i).mp hi)
      exact Option.some_ne_none e (he.symm.trans hnone)
    have hbalance := finalState_balance (fun d : Db => Entries.versionAt d.view k)
      (fun i => (req i).request.updates k) (fun _ => false)
      (fun i hi d I hok => ⟨hkeeps d i I, Routers.versionAt_of_accepted I (req i) hok (hnot i hi)⟩)
      I h.good
    rw [h.related.view, List.countP_false, h.countP_eq, Entries.versionAt, he] at hbalance
    exact hbalance

end

/-- Of two updates of one version, the one that commits counts. -/
theorem books_balance_race : ∃ c : Config (Fin 3), Reconciled raceRequests Db.twoAccounts c ∧
    c.thread 0 = .refreshing 1 ∧ c.thread 1 = .refreshing 1 ∧ c.thread 2 = .conflicted 1 := by
  obtain ⟨c, -, -, hrun, -, -, hc⟩ := Config.exists_run raceRequests
    (fun i c _ => Config.Fresh .autoincrement c i) (.initial Db.twoAccounts)
    [0, 0, 1, 1, 2, 2, 1, 2] 2 [] (fun c _ _ =>
      decide (c.thread 0 = .refreshing 1 ∧ c.thread 1 = .refreshing 1 ∧
        c.thread 2 = .conflicted 1)) (by decide +kernel)
  exact ⟨c, books_balance Db.integrity_twoAccounts (by decide +kernel) hrun, of_decide_eq_true hc⟩
