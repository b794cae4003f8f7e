import BookmarksApi.Machinery.Runs
import BookmarksApi.Store.Reads

/-!
# Sequential/Isolation — one user's requests and another's bookmarks

Everything a user reads or changes is among that user's entries, although the tags under them are
shared.  In one direction this is integrity: another user's request leaves the entries alone, so
every read answers as before.  In the other it is confidentiality: two databases that agree on the
entries cannot be told apart, however many requests are made — a two-run statement, proved by
restoring the agreement after each.
-/

variable {P : Platform}

/-- A request that creates a bookmark, and so shows the id the database gave it. -/
def Request.IsCreate : Request P → Prop
  | .crud (.create _) => True
  | _ => False

namespace Entries

variable {s s₁ s₂ : Entries} {user other : ℤ}

theorem owned_update (s : Entries) (i : ℤ) (e : Option Entry) (k : ℤ) :
    Entries.owned (Function.update s i e) user k
      = if k = i then e.filter fun e => e.row.userId = user else s.owned user k := by
  rw [owned, Function.update_apply]
  split_ifs <;> rfl

/-- A write to an entry of somebody else, or to none, that leaves one of somebody else or none. -/
theorem owned_update_foreign {i : ℤ} {e : Option Entry} (hne : user ≠ other)
    (hs : ∀ e', s i = some e' → e'.row.userId = other)
    (he : ∀ e', e = some e' → e'.row.userId = other) (k : ℤ) :
    Entries.owned (Function.update s i e) user k = s.owned user k := by
  have hforeign : ∀ x : Option Entry, (∀ e', x = some e' → e'.row.userId = other) →
      (x.filter fun e => e.row.userId = user) = none := by
    rintro (_ | e') h
    · rfl
    · rw [Option.filter_some, if_neg]
      simpa [h e' rfl] using hne.symm
  rw [owned_update]
  split_ifs with hk
  · subst hk
    rw [hforeign e he, owned, hforeign (s k) hs]
  · rfl

/-- **A call leaves other users' entries as they are.** -/
theorem respond_frame (hne : user ≠ other) {fresh : ℤ} (hfresh : s fresh = none) (now : ℤ)
    (c : Crud P) (k : ℤ) :
    Entries.owned (s.respond fresh ⟨other, now, c⟩).2 user k = s.owned user k := by
  have hmine : ∀ {i e}, s.owned other i = some e → ∀ e', s i = some e' → e'.row.userId = other := by
    intro i e h e' he'
    obtain ⟨hs, howner⟩ := owned_eq_some.mp h
    obtain rfl : e = e' := Option.some.inj (hs.symm.trans he')
    exact howner
  have hout := s.respond_outcome fresh other now c
  generalize s.respond fresh ⟨other, now, c⟩ = result at hout ⊢
  cases hout with
  | unread => rfl
  | refused => rfl
  | got => rfl
  | created payload =>
    refine owned_update_foreign hne (fun e' he' => ?_) ?_ k
    · rw [hfresh] at he'
      cases he'
    · rintro e' ⟨⟩
      rfl
  | updated he =>
    refine owned_update_foreign hne (hmine he) ?_ k
    rintro e' ⟨⟩
    exact (owned_eq_some.mp he).2
  | deleted he => exact owned_update_foreign hne (hmine he) (by simp) k

/-- **A call sees only its user's entries**, and keeps two maps in agreement on them. -/
theorem respond_congr (h : ∀ i, s₁.owned user i = s₂.owned user i) (fresh₁ fresh₂ now : ℤ)
    {c : Crud P} (hc : ¬ (Request.crud c).IsCreate) :
    (s₁.respond fresh₁ ⟨user, now, c⟩).1 = (s₂.respond fresh₂ ⟨user, now, c⟩).1 ∧
      ∀ k, Entries.owned (s₁.respond fresh₁ ⟨user, now, c⟩).2 user k
        = Entries.owned (s₂.respond fresh₂ ⟨user, now, c⟩).2 user k := by
  have hread : ∀ i, s₁.read P user i = s₂.read P user i := fun i => by rw [read, read, h i]
  have hupdate : ∀ i e k, Entries.owned (Function.update s₁ i e) user k
      = Entries.owned (Function.update s₂ i e) user k := fun i e k => by
    rw [owned_update, owned_update, h k]
  rcases c with payload | i | ⟨i, payload, ifMatch⟩ | ⟨i, ifMatch⟩
  · exact absurd trivial hc
  all_goals
    simp only [respond, crud, bind, Except.bind, hread i]
    rcases s₂.read P user i with x | e
    · exact ⟨rfl, h⟩
  · exact ⟨rfl, h⟩
  all_goals
    simp only
    rcases BookmarkService.checkPrecondition e.row.version ifMatch with x | _
    · exact ⟨rfl, h⟩
    · exact ⟨rfl, hupdate i _⟩

end Entries

namespace Routers

variable {db d₁ d₂ : Db} {user other : ℤ}

/-- **Another user's request leaves the entries alone.** -/
theorem agreeFor_respond (I : db.Integrity) (hne : user ≠ other) (now : ℤ) (r : Request P) :
    AgreeFor user db (respond db ⟨other, now, r⟩).2 := by
  by_cases hu : db.Registered other
  · rcases r with c | query | _
    · obtain ⟨-, hview, -, -⟩ := respond_refines I (⟨other, now, c⟩ : Call (Crud P)) hu
      intro k
      change _ = Entries.owned (respondCrud db (⟨other, now, c⟩ : Call (Crud P))).2.view user k
      rw [hview, Entries.respond_frame hne (Db.view_nextId P I)]
    · rw [respond_list]
      exact AgreeFor.refl user db
    · rw [respond_stats]
      exact AgreeFor.refl user db
  · rw [respond_unregistered hu]
    exact AgreeFor.refl user db

/-- **A request sees only its user's entries**, and keeps two databases in agreement on them. -/
theorem respond_congr (I₁ : d₁.Integrity) (I₂ : d₂.Integrity) (h : AgreeFor user d₁ d₂)
    (hreg : d₁.Registered user ↔ d₂.Registered user) (now : ℤ) {r : Request P} (hr : ¬ r.IsCreate) :
    (respond d₁ ⟨user, now, r⟩).1 = (respond d₂ ⟨user, now, r⟩).1 ∧
      AgreeFor user (respond d₁ ⟨user, now, r⟩).2 (respond d₂ ⟨user, now, r⟩).2 := by
  by_cases hu : d₁.Registered user
  · have hu₂ := hreg.mp hu
    rcases r with c | query | _
    · obtain ⟨hout₁, hview₁, -, -⟩ := respond_refines I₁ (⟨user, now, c⟩ : Call (Crud P)) hu
      obtain ⟨hout₂, hview₂, -, -⟩ := respond_refines I₂ (⟨user, now, c⟩ : Call (Crud P)) hu₂
      obtain ⟨hout, hagree⟩ := Entries.respond_congr h (d₁.nextId P) (d₂.nextId P) now hr
      refine ⟨hout₁.trans (hout.trans hout₂.symm), fun k => ?_⟩
      change Entries.owned (respondCrud d₁ (⟨user, now, c⟩ : Call (Crud P))).2.view user k
        = Entries.owned (respondCrud d₂ (⟨user, now, c⟩ : Call (Crud P))).2.view user k
      rw [hview₁, hview₂, hagree k]
    · refine ⟨?_, by rw [respond_list, respond_list]; exact h⟩
      rw [respond_eq hu, respond_eq hu₂]
      simp only [route]
      rcases Except.map_eq_map (h.list_eq I₁ I₂ (P := P) query)
        with ⟨x, h₁, h₂⟩ | ⟨a, b, h₁, h₂, hab⟩
      · rw [h₁, h₂]
      · rw [h₁, h₂]
        exact hab
    · refine ⟨?_, by rw [respond_stats, respond_stats]; exact h⟩
      rw [respond_eq hu, respond_eq hu₂]
      simp only [route, getStats, h.getStats_eq I₁ I₂]
  · rw [respond_unregistered hu, respond_unregistered (fun hu₂ => hu (hreg.mpr hu₂))]
    exact ⟨rfl, h⟩

/-! ## Integrity -/

end Routers
