import BookmarksApi.Concurrent.Serialization
import BookmarksApi.Sequential.ETags

/-!
# Concurrent/SpentETags — an ETag lets one write through

Many clients may hold the ETag of one version and present it at the same time.  The serial order of
the commits says which of them come through: the first that commits leaves the version behind, and a
version that is over does not come back while ids are not handed out twice.  So at most one write of
a bookmark that asks for a given version ever commits (`etag_spent_once`).
-/

variable {P : Platform}

/-- **An update or delete that one version of one bookmark will do for.** -/
structure Crud.Wants (c : Crud P) (k : ℤ) (v : ℕ) : Prop where
  target : c.target = some k
  writes : ∃ ifMatch, c.Writes ifMatch
  version : ∀ w, c.Accepts w → w = v

/-- A delete that presents the version's own ETag is one. -/
theorem Crud.wants_delete (k : ℤ) (v : ℕ) :
    (delete k (some (VersionETagService.makeEtag v)) : Crud P).Wants k v :=
  ⟨rfl, ⟨_, .delete⟩, fun _ hacc => (BookmarkService.checkPrecondition_makeEtag.mp hacc).symm⟩

/-- And so is an update. -/
theorem Crud.wants_update (k : ℤ) (v : ℕ) (payload : BookmarkUpdate P) :
    (update k payload (some (VersionETagService.makeEtag v)) : Crud P).Wants k v :=
  ⟨rfl, ⟨_, .update⟩, fun _ hacc => (BookmarkService.checkPrecondition_makeEtag.mp hacc).symm⟩

/-- **An accepted write finds the version it wants**, and leaves none or a larger one. -/
theorem Entries.Outcome.spends {s : Entries} {fresh user now : ℤ} {c : Crud P}
    {result : Response Body × Entries} (h : s.Outcome fresh user now c result)
    (hok : result.1.Accepted) {k : ℤ} {v : ℕ} (hc : c.Wants k v) :
    ∃ e, s k = some e ∧ e.version = v ∧ ∀ e', result.2 k = some e' → v < e'.version := by
  obtain ⟨htarget, ⟨ifMatch, hwrites⟩, hversion⟩ := hc
  cases h with
  | unread => exact absurd hok (by simp [Response.Accepted, Response.isLeft_ofExc])
  | refused => exact absurd hok (by simp [Response.Accepted, Response.isLeft_ofExc])
  | created => cases hwrites
  | got => cases hwrites
  | @updated _ e payload _ he hx =>
    obtain rfl := Option.some.inj htarget
    obtain rfl : e.version = v := hversion _ hx
    refine ⟨e, (owned_eq_some.mp he).1, rfl, fun e' he' => ?_⟩
    simp only [Function.update_self, Option.some.injEq] at he'
    subst he'
    exact Nat.lt_succ_self e.version
  | @deleted _ e _ he hx =>
    obtain rfl := Option.some.inj htarget
    obtain rfl : e.version = v := hversion _ hx
    refine ⟨e, (owned_eq_some.mp he).1, rfl, fun e' he' => ?_⟩
    simp only [Function.update_self] at he'
    cases he'

namespace Routers

variable {db : Db} {k : ℤ} {v : ℕ}

/-- **An accepted write puts the version it wants behind it.** -/
theorem past_of_accepted (I : db.Integrity) (call : Call (Crud P)) (hc : call.request.Wants k v)
    (hok : (respondCrud db call).1.Accepted) :
    (∃ e, db.view k = some e ∧ e.version = v) ∧
      (respondCrud db call).2.versioned.Past Entry.version k v := by
  obtain ⟨hout, hview, -, K⟩ := respond_refines I call (registered_of_ok hok)
  rw [hout] at hok
  obtain ⟨e, he, hversion, hlarger⟩ := (Entries.respond_outcome db.view (db.nextId P) call.user
    call.now call.request).spends hok hc
  refine ⟨⟨e, he, hversion⟩, (Db.mem_used I he).trans K.bookmarkSeq, fun e' he' => ?_⟩
  exact hlarger e' (hview ▸ he')

/-- With a sequence, a create gets a new id. -/
theorem fresh_of_sequence (hP : P.ids = .sequence) (db : Db) (call : Call (Crud P)) :
    call.Fresh db := by
  intro _
  rw [Db.nextId, hP, IdRule.next]
  omega

/-- **A version that is over lets no write through.** -/
theorem not_wants_of_past (hP : P.ids = .sequence) {calls : List (Call (Crud P))}
    (I : db.Integrity) (hpast : db.versioned.Past Entry.version k v)
    (hok : ∀ r ∈ outputs respondCrud db calls, r.Accepted) :
    ∀ call ∈ calls, ¬ call.request.Wants k v := by
  induction calls generalizing db with
  | nil => exact fun call hcall => absurd hcall List.not_mem_nil
  | cons call calls ih =>
    obtain ⟨hhead, htail⟩ := List.forall_mem_cons.mp hok
    refine List.forall_mem_cons.mpr ⟨fun hc => ?_, ?_⟩
    · obtain ⟨⟨e, he, hversion⟩, -⟩ := past_of_accepted I call hc hhead
      exact absurd hversion (hpast.2 e he).ne'
    · have hevolves := respondCrud_evolves I call (fresh_of_sequence hP db call)
      exact ih (respond_keeps I call.crud).1 (hevolves.past hpast) htail

/-- Of the accepted calls, only one asks for a version. -/
theorem wants_unique (hP : P.ids = .sequence) {pre post : List (Call (Crud P))}
    {call : Call (Crud P)} (I : db.Integrity) (hc : call.request.Wants k v)
    (hok : ∀ r ∈ outputs respondCrud db (pre ++ call :: post), r.Accepted) :
    ∀ call' ∈ post, ¬ call'.request.Wants k v := by
  have I' : (finalState respondCrud db pre).Integrity :=
    finalState_invariant (fun c _ _ I => (respond_keeps I c.crud).1) I
  rw [outputs_append, List.forall_mem_append, outputs, List.forall_mem_cons] at hok
  obtain ⟨-, hcall, hpost⟩ := hok
  have hpast := (past_of_accepted I' call hc hcall).2
  exact not_wants_of_past hP (respond_keeps I' call.crud).1 hpast hpost

end Routers

section

variable {ι : Type*} {req : ι → Call (Crud P)} {c : Config ι} {db : Db}

/-- A serial order has no second write after the one that spends a version. -/
theorem SerialOrder.not_mem_later (hP : P.ids = .sequence) (I : db.Integrity)
    {pre post : List ι} {i j : ι} (h : SerialOrder req db c (pre ++ i :: post)) {k : ℤ} {v : ℕ}
    (hi : (req i).request.Wants k v) (hj : (req j).request.Wants k v) : j ∉ post := by
  have hok := h.accepted
  rw [List.map_append, List.map_cons] at hok
  exact fun hmem => Routers.wants_unique hP I hi hok _ (List.mem_map_of_mem hmem) hj

variable [DecidableEq ι]

/-- **An ETag is spent once.**  However the requests interleave, of the updates and deletes that one
version of a bookmark will do for, at most one commits. -/
theorem etag_spent_once (hP : P.ids = .sequence) (I : db.Integrity)
    (hreg : ∀ i, db.Registered (req i).user) (hrun : (machine req).Run (Config.initial db) c)
    {i j : ι} {k : ℤ} {v : ℕ} (hi : (req i).request.Wants k v) (hj : (req j).request.Wants k v)
    (hci : (c.thread i).HasCommitted (req i).request)
    (hcj : (c.thread j).HasCommitted (req j).request) : i = j := by
  obtain ⟨hrun, -, -⟩ :=
    (Sound.initial I hreg).run_of_sequence hP (History.numbered_single I) hrun
  have hstart : SerialRun req db (Config.initial db) [] := .initial I
  obtain ⟨-, order, h⟩ := Tracked.run hrun (.initial I hreg) hstart
  have hserial := h.serialOrder
  rw [List.nil_append] at hserial
  obtain ⟨pre, post, rfl⟩ := List.append_of_mem ((hserial.mem_iff i).mpr hci)
  rcases List.mem_append.mp ((hserial.mem_iff j).mpr hcj) with hmem | hmem
  · -- The other comes first in the order, so this one comes after it.
    obtain ⟨pre', mid, rfl⟩ := List.append_of_mem hmem
    rw [List.append_assoc, List.cons_append] at hserial
    exact absurd (List.mem_append_right mid List.mem_cons_self) (hserial.not_mem_later hP I hj hi)
  · rcases List.mem_cons.mp hmem with hij | hmem
    · exact hij.symm
    · exact absurd hmem (hserial.not_mem_later hP I hi hj)

end

/-- Two deletes and an update that all present version 1 of the bookmark a create gave. -/
def spendingRequests : Fin 4 → Call (Crud .autoincrement)
  | 0 => ⟨1, 0, .create (.titled 'a')⟩
  | 1 => ⟨1, 1, .update 1 (.titled 'b') (some (VersionETagService.makeEtag 1))⟩
  | 2 => ⟨1, 2, .delete 1 (some (VersionETagService.makeEtag 1))⟩
  | 3 => ⟨1, 3, .delete 1 (some (VersionETagService.makeEtag 1))⟩

/-- All three load version 1; the update commits, and so neither delete does. -/
theorem etag_spent_once_race : ∃ c : Config (Fin 4),
    (machine spendingRequests).Run (Config.initial Db.twoAccounts) c ∧
      (c.thread 1).HasCommitted (spendingRequests 1).request ∧
      ∀ j, j = 2 ∨ j = 3 → ¬ (c.thread j).HasCommitted (spendingRequests j).request := by
  obtain ⟨c, -, -, hrun, -, -, hc⟩ := Config.exists_run spendingRequests (fun _ _ _ => True)
    (.initial Db.twoAccounts) [0, 0, 1, 1, 2, 2, 3, 3, 1] 2 []
    (fun c _ _ => decide (c.thread 1 = .refreshing 1)) (by decide +kernel)
  have hrun := Interleaving.run_of_restrict hrun
  have hone : (c.thread 1).HasCommitted (spendingRequests 1).request := by
    rw [of_decide_eq_true hc]
    trivial
  have hwants : (spendingRequests 1).request.Wants 1 1 := Crud.wants_update 1 1 _
  refine ⟨c, hrun, hone, fun j hj hcommitted => ?_⟩
  have hsame : (spendingRequests j).request.Wants 1 1 := by
    rcases hj with rfl | rfl
    · exact Crud.wants_delete 1 1
    · exact Crud.wants_delete 1 1
  obtain rfl := etag_spent_once rfl Db.integrity_twoAccounts (by decide +kernel) hrun hwants hsame
    hone hcommitted
  simp at hj
