import BookmarksApi.Machinery.Runs
import BookmarksApi.Machinery.Versioned
import BookmarksApi.Store.Entries

/-!
# Sequential/ETags — what an ETag names

An ETag is a version, and a version is counted from 1 for every bookmark.  So an ETag that was
handed out for an id names one content of one bookmark as long as the id does: over a run in which
no id is handed out twice, entries only evolve, and a write that presents the ETag changes exactly
what the ETag was given for (`honours_of_fresh`).

SQLite hands out the largest id plus one.  Once the newest bookmark is deleted the next one gets its
id, at version 1 again, and an ETag for the old one passes for the new (`not_honours_reused`).
-/

variable {P : Platform}

namespace Db

variable {db : Db}

/-- The entries under their versions, with the ids handed out so far. -/
def versioned (db : Db) : Versioned ℤ Entry := ⟨db.view, {i | i ≤ db.bookmarkSeq}⟩

/-- An entry's id has been handed out. -/
theorem mem_used (I : db.Integrity) {i : ℤ} {e : Entry} (h : db.view i = some e) :
    i ∈ db.versioned.used := by
  rw [← id_of_view h]
  exact I.bookmarkSeq e.row (mem_of_view h)

end Db

/-- A request that creates gets an id that was never handed out. -/
def Call.Fresh (db : Db) (c : Call (Crud P)) : Prop :=
  c.request.target = none → db.bookmarkSeq < db.nextId P

instance (db : Db) (c : Call (Crud P)) : Decidable (c.Fresh db) :=
  inferInstanceAs (Decidable (_ → _))

namespace Routers

variable {db : Db}

/-- **A call evolves the entries** when the id it may hand out is new. -/
theorem respondCrud_evolves (I : db.Integrity) (c : Call (Crud P)) (hfresh : c.Fresh db) :
    Versioned.Evolves Entry.version db.versioned (respondCrud db c).2.versioned := by
  by_cases hu : db.Registered c.user
  swap
  · rw [respondCrud, respond_unregistered hu]
    exact Versioned.Evolves.refl _
  obtain ⟨-, hview, -, K⟩ := respond_refines I c hu
  have hused : db.versioned.used ⊆ (respondCrud db c).2.versioned.used :=
    fun i hi => le_trans hi K.bookmarkSeq
  obtain ⟨user, now, request⟩ := c
  have hout := Entries.respond_outcome db.view (db.nextId P) user now request
  generalize Entries.respond db.view (db.nextId P) ⟨user, now, request⟩ = result at hview hout
  cases hout with
  | created payload => exact .of_update hused hview (Or.inl (not_le.mpr (hfresh rfl)))
  | @updated _ e _ _ he hx =>
    have hv := (Entries.owned_eq_some.mp he).1
    exact .of_update hused hview (Or.inr (Or.inr ⟨e, _, hv, rfl, Nat.lt_succ_self e.version⟩))
  | deleted => exact .of_update hused hview (Or.inr (Or.inl rfl))
  | _ => exact .of_cell_eq hused fun i _ => congrFun hview i

end Routers

/-! ## Reports and writes -/

/-- The bookmark a response shows. -/
def Response.bookmark? (r : Response Body) : Option BookmarkOut :=
  match r.body with
  | .inl (.bookmark b) => some b
  | _ => none

section

variable (a : Answered Db (Call (Crud P)) (Response Body))

/-- The answer reports an ETag for an id: the one the request named, or the one a create shows. -/
def Reports (i : ℤ) (etag : Str) : Prop :=
  a.output.etag = some etag ∧
    (a.input.request.target = some i ∨ a.output.bookmark?.map BookmarkOut.id = some i)

/-- The answer is a success of a `PUT` or `DELETE` that presented the ETag. -/
def Accepted (i : ℤ) (etag : Str) : Prop :=
  a.output.body.isLeft = true ∧
    (a.input.request = .delete i (some etag) ∨
      ∃ payload, a.input.request = .update i payload (some etag))

end

/-- **A run honours its ETags**: between the answer that reports one and the write it is accepted
for, the id keeps one entry, the one that answer showed. -/
def Honours (run : List (Answered Db (Call (Crud P)) (Response Body))) : Prop :=
  ∀ pre mid post a b i etag, run = pre ++ a :: (mid ++ b :: post) → Reports a i etag →
    Accepted b i etag → ∃ e, a.after.view i = some e ∧ b.before.view i = some e ∧
      (∀ m ∈ mid, m.after.view i = some e) ∧
      ∀ o, a.output.bookmark? = some o → o = e.out P

namespace Entries

variable {s : Entries} {fresh user now : ℤ} {c : Crud P} {result : Response Body × Entries}

/-- The ETag of a refusal is the version it refused. -/
theorem etag_of_checkPrecondition {v : ℕ} {ifMatch : Option Str} {x : Exc} {etag : Str}
    (h : BookmarkService.checkPrecondition v ifMatch = .error x)
    (hetag : (Response.ofExc x : Response Body).etag = some etag) :
    etag = VersionETagService.makeEtag v := by
  rcases BookmarkService.checkPrecondition_eq_error h with rfl | rfl <;>
    exact (Option.some.inj hetag).symm

/-- A refusal shows no bookmark. -/
theorem bookmark?_ofExc (x : Exc) : (Response.ofExc x).bookmark? = none := by
  rcases x <;> rfl

/-- **A reported ETag is the version of the entry the call leaves.** -/
theorem Outcome.reported (h : s.Outcome fresh user now c result)
    (hid : ∀ i e, s i = some e → e.row.id = i)
    {i : ℤ} {etag : Str} (hetag : result.1.etag = some etag)
    (hi : c.target = some i ∨ result.1.bookmark?.map BookmarkOut.id = some i) :
    ∃ e, result.2 i = some e ∧ etag = VersionETagService.makeEtag e.version ∧
      ∀ o, result.1.bookmark? = some o → o = e.out P := by
  have hsame : ∀ {j e}, s j = some e → some j = some i ∨ some e.row.id = some i → j = i := by
    rintro j e hs (hi | hi)
    · exact Option.some.inj hi
    · exact (hid j e hs).symm.trans (Option.some.inj hi)
  cases h with
  | unread hc hx =>
    rcases hx with rfl | rfl
    · cases hetag
    · cases hetag
  | @refused _ j e ifMatch x hc he hx =>
    rw [bookmark?_ofExc] at hi ⊢
    obtain rfl : j = i := by
      rcases hi with hi | hi
      · exact Option.some.inj (hc.symm.trans hi)
      · cases hi
    exact ⟨e, (owned_eq_some.mp he).1, etag_of_checkPrecondition hx hetag, by simp⟩
  | created payload =>
    rcases hi with hi | hi
    · cases hi
    obtain rfl : fresh = i := Option.some.inj hi
    exact ⟨_, Function.update_self _ _ _, (Option.some.inj hetag).symm,
      fun o ho => (Option.some.inj ho).symm⟩
  | @got j e he =>
    have hs := (owned_eq_some.mp he).1
    obtain rfl : j = i := hsame hs hi
    exact ⟨e, hs, (Option.some.inj hetag).symm, fun o ho => (Option.some.inj ho).symm⟩
  | @updated j e payload ifMatch he hx =>
    have hs := (owned_eq_some.mp he).1
    obtain rfl : j = i := hsame hs hi
    exact ⟨_, Function.update_self _ _ _, (Option.some.inj hetag).symm,
      fun o ho => (Option.some.inj ho).symm⟩
  | deleted he hx => cases hetag

/-- **An accepted write finds the version it presents.** -/
theorem Outcome.presented (h : s.Outcome fresh user now c result) {i : ℤ} {v : ℕ}
    (hok : result.1.body.isLeft = true)
    (hc : c = .delete i (some (VersionETagService.makeEtag v)) ∨
      ∃ payload, c = .update i payload (some (VersionETagService.makeEtag v))) :
    ∃ e, s i = some e ∧ e.version = v := by
  cases h with
  | unread => exact absurd hok (by simp [Response.isLeft_ofExc])
  | refused => exact absurd hok (by simp [Response.isLeft_ofExc])
  | created =>
    obtain hc | ⟨_, hc⟩ := hc
    · cases hc
    · cases hc
  | got =>
    obtain hc | ⟨_, hc⟩ := hc
    · cases hc
    · cases hc
  | @updated _ e _ _ he hx =>
    obtain hc | ⟨_, hc⟩ := hc
    · cases hc
    · cases hc
      exact ⟨e, (owned_eq_some.mp he).1, (BookmarkService.checkPrecondition_makeEtag.mp hx).symm⟩
  | @deleted _ e _ he hx =>
    obtain hc | ⟨_, hc⟩ := hc
    · cases hc
      exact ⟨e, (owned_eq_some.mp he).1, (BookmarkService.checkPrecondition_makeEtag.mp hx).symm⟩
    · cases hc

end Entries

/-! ## Runs -/

namespace Routers

variable {db : Db} {c : Call (Crud P)} {i : ℤ}

/-- An unregistered user's call reports nothing, and is not accepted. -/
theorem registered_of_etag {etag : Str} (h : (respondCrud db c).1.etag = some etag) :
    db.Registered c.user := by
  by_contra hu
  rw [respondCrud, respond_unregistered hu] at h
  cases h

theorem registered_of_ok (h : (respondCrud db c).1.body.isLeft = true) :
    db.Registered c.user := by
  by_contra hu
  rw [respondCrud, respond_unregistered hu] at h
  cases h

/-- An answer that reports an ETag leaves the entry it is for. -/
theorem reported {a : Answered Db (Call (Crud P)) (Response Body)} (I : a.before.Integrity)
    (hout : a.output = (respondCrud a.before a.input).1)
    (hafter : a.after = (respondCrud a.before a.input).2) {etag : Str} (h : Reports a i etag) :
    ∃ e, a.after.view i = some e ∧ etag = VersionETagService.makeEtag e.version ∧
      ∀ o, a.output.bookmark? = some o → o = e.out P := by
  obtain ⟨hetag, hi⟩ := h
  obtain ⟨hres, hview, -, -⟩ := respond_refines I a.input (registered_of_etag (hout ▸ hetag))
  rw [hout, hres] at hetag hi ⊢
  rw [hafter, hview]
  exact (Entries.respond_outcome a.before.view (a.before.nextId P) a.input.user a.input.now
    a.input.request).reported (fun _ _ => Db.id_of_view) hetag hi

/-- An accepted write finds an entry of the version it presents. -/
theorem presented {b : Answered Db (Call (Crud P)) (Response Body)} (I : b.before.Integrity)
    (hout : b.output = (respondCrud b.before b.input).1) {v : ℕ}
    (h : Accepted b i (VersionETagService.makeEtag v)) :
    ∃ e, b.before.view i = some e ∧ e.version = v := by
  obtain ⟨hok, hc⟩ := h
  rw [hout] at hok
  obtain ⟨hres, -, -, -⟩ := respond_refines I b.input (registered_of_ok hok)
  exact (Entries.respond_outcome b.before.view (b.before.nextId P) b.input.user b.input.now
    b.input.request).presented (hres ▸ hok) hc

/-- **Where no id is handed out twice, a run honours its ETags.** -/
theorem honours_of_fresh (I : db.Integrity) (calls : List (Call (Crud P)))
    (hfresh : ∀ x ∈ answered respondCrud db calls, x.input.Fresh x.before) :
    Honours (answered respondCrud db calls) := by
  have hrun : ∀ x ∈ answered respondCrud db calls, x.before.Integrity ∧
      x.output = (respondCrud x.before x.input).1 ∧ x.after = (respondCrud x.before x.input).2 :=
    answered_invariant (I := Db.Integrity) (fun _ c I => (respond_keeps I (Call.crud c)).1) I
  have hsteps : ∀ x ∈ answered respondCrud db calls,
      Versioned.Evolves Entry.version x.before.versioned x.after.versioned := by
    intro x hx
    obtain ⟨hI, -, hafter⟩ := hrun x hx
    rw [hafter]
    exact respondCrud_evolves hI x.input (hfresh x hx)
  intro pre mid post a b i etag hsplit ha hb
  obtain ⟨hab, hmid⟩ := answered_between (G := fun d d' =>
    Versioned.Evolves Entry.version d.versioned d'.versioned) (fun _ => .refl _)
    (fun _ _ _ => .trans) hsplit hsteps
  obtain ⟨Ia, haout, hafter⟩ := hrun a (by simp [hsplit])
  obtain ⟨Ib, hbout, -⟩ := hrun b (by simp [hsplit])
  obtain ⟨e, he, rfl, hshown⟩ := reported Ia haout hafter ha
  obtain ⟨e', he', hv⟩ := presented Ib hbout hb
  have Ia' : a.after.Integrity := hafter ▸ (respond_keeps Ia a.input.crud).1
  have hused := Db.mem_used Ia' he
  obtain rfl : e = e' := hab.eq_of_version_eq hused he he' hv.symm
  refine ⟨e, he, he', fun m hm => ?_, hshown⟩
  exact (hmid m hm).1.between (hmid m hm).2 hused he he' rfl

/-- Bob's bookmark gets a new id, since Alice's is still there. -/
theorem honours_of_fresh_twoAccounts :
    Honours (answered (respondCrud (P := .sqlite)) Db.twoAccounts
      [⟨1, 0, .create (.titled 'a')⟩, ⟨2, 1, .create (.titled 'b')⟩,
        ⟨1, 2, .update 1 (.titled 'c') (some "\"1\"".toList)⟩]) :=
  honours_of_fresh Db.integrity_twoAccounts _ (by decide +kernel)

/-- A bookmark is created and deleted, another gets its id, and the ETag of the first changes the
second. -/
def reusedCalls : List (Call (Crud .sqlite)) :=
  [⟨1, 0, .create (.titled 'a')⟩, ⟨1, 1, .delete 1 (some "\"1\"".toList)⟩,
    ⟨1, 2, .create (.titled 'b')⟩, ⟨1, 3, .update 1 (.titled 'c') (some "\"1\"".toList)⟩]

/-- **On SQLite a run need not honour its ETags.** -/
theorem not_honours_reused : ¬ Honours (answered respondCrud Db.twoAccounts reusedCalls) := by
  obtain ⟨a, m₁, m₂, b, hrun, ha, hb, htitle⟩ : ∃ a m₁ m₂ b,
      answered respondCrud Db.twoAccounts reusedCalls = [a, m₁, m₂, b] ∧
      Reports a 1 "\"1\"".toList ∧ Accepted b 1 "\"1\"".toList ∧
      (a.after.view 1).map (fun e => e.row.title) ≠ (b.before.view 1).map fun e => e.row.title :=
    ⟨_, _, _, _, rfl, ⟨by decide +kernel, Or.inr (by decide +kernel)⟩,
      ⟨by decide +kernel, Or.inr ⟨_, rfl⟩⟩, by decide +kernel⟩
  intro h
  obtain ⟨e, he, he', -, -⟩ := h [] [m₁, m₂] [] a b 1 _ hrun ha hb
  rw [he, he'] at htitle
  exact htitle rfl

end Routers
