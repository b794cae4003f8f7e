import BookmarksApi.Concurrent.LostUpdates
import BookmarksApi.Concurrent.Progress

/-!
# Concurrent/TagRaces — two requests that create one tag

`get_or_create` looks its names up in one statement and inserts the missing ones in later ones.  As
long as no commit brings in a name that somebody has looked up in vain and not inserted yet, every
create and update ends in a success or a documented refusal, and shares one row a name with the
others (`harmlessTags`).  Otherwise the late insert raises `IntegrityError`, which nothing handles
(`not_harmlessTags`).
-/

variable {P : Platform}

/-! ## How a request may end -/

/-- The documented refusals of an update. -/
inductive Refusal (call : Call (Crud P)) : Exc → Prop
  | notFound {k : ℤ} (hk : call.request.target = some k) :
      Refusal call (.app (BookmarkService.notFound k))
  | required {k : ℤ} (hk : call.request.target = some k) (etag : Str) :
      Refusal call (.app (BookmarkService.required etag))
  | conflict {k : ℤ} (hk : call.request.target = some k) (etag : Option Str) :
      Refusal call (.app (BookmarkService.conflict etag))

/-- A success, or a documented refusal. -/
def Documented (call : Call (Crud P)) : Except Exc (Response Body) → Prop
  | .ok r => r.status = Phase.okStatus call.request
  | .error x => Refusal call x

/-- What a failed precondition raises. -/
theorem BookmarkService.refusal_of_checkPrecondition {call : Call (Crud P)} {k : ℤ}
    (hk : call.request.target = some k) {version : ℕ} {ifMatch : Option Str} {x : Exc}
    (h : checkPrecondition version ifMatch = .error x) : Refusal call x := by
  rcases checkPrecondition_eq_error h with rfl | rfl
  · exact .required hk _
  · exact .conflict hk _

section

variable {ι : Type*}

/-- **Creating tags concurrently is harmless**: every request that is done has ended as documented,
one that is not, and not deadlocked, can go on or waits for others of which one can, and a name that
a commit gave its bookmark has one row, which the commit linked. -/
def HarmlessTags [DecidableEq ι] (M : Interleaving ι (History Db) Phase) (req : ι → Call (Crud P))
    (db : Db) : Prop :=
  (∀ c i r, M.Run (Config.initial db) c → c.thread i = .done r → Documented (req i) r) ∧
  (∀ c i, M.Run (Config.initial db) c → ¬ Deadlocked (Config.WaitsFor c) i →
    (∃ r, c.thread i = .done r) ∨
    ∃ j, Relation.ReflTransGen (Config.WaitsFor c) i j ∧ ∃ c', (machine req).StepBy j c c') ∧
  ∀ c₁ c₂ c₃ i held newTags pending k names, M.Run (Config.initial db) c₁ →
    c₁.thread i = .committing held newTags pending → M.StepBy i c₁ c₂ →
    c₂.thread i = .refreshing k → M.Run c₂ c₃ → (req i).request.names = some names →
    ∀ n ∈ names, ∃ t ∈ c₃.shared.now.tags.rows, t.name = n ∧ c₂.shared.now.Linked k t ∧
      ∀ t' ∈ c₃.shared.now.tags.rows, t'.name = n → t' = t

/-- The names a request has looked up in vain and not inserted yet. -/
def Phase.missing : Phase → List Str
  | .resolving _ byName todo _ _ => todo.filter fun n => n ∉ byName.map TagRow.name
  | _ => []

/-- A move that brings in no tag that somebody else is about to insert. -/
def Config.NotOvertaking (i : ι) (c : Config ι) (h' : History Db) : Prop :=
  ∀ j, j ≠ i → ∀ n ∈ (c.thread j).missing, n ∉ h'.now.tags.rows.map TagRow.name

instance Config.decidableNotOvertaking [DecidableEq ι] [Fintype ι] (i : ι) (c : Config ι)
    (h' : History Db) : Decidable (Config.NotOvertaking i c h') :=
  inferInstanceAs (Decidable (∀ j, j ≠ i → ∀ n ∈ (c.thread j).missing, _))

/-- A create, or an update of an id the driver can bind. -/
def Crud.Saves : Crud P → Prop
  | .create _ => True
  | .update bookmarkId _ _ => P.bindable bookmarkId = true
  | _ => False

/-! ## One request -/

/-- **What a create or update asserts** on its way to a documented end. -/
def Saving (call : Call (Crud P)) (db : Db) : Phase → Prop
  | .resolving held byName todo result pending =>
    ∀ n ∈ (Phase.resolving held byName todo result pending).missing,
      n ∉ db.tags.rows.map TagRow.name
  | .refreshing k => (db.view k).isSome
  | .conflicted k => call.request.target = some k
  | .done result => Documented call result
  | _ => True

namespace Phase

variable {held : Option Bookmark} {byName byName' result result' pending pending' : List TagRow}
  {name : Str} {todo : List Str}

theorem mem_missing (h : name ∉ byName.map TagRow.name) :
    name ∈ (resolving held byName (name :: todo) result pending).missing :=
  List.mem_filter.mpr ⟨List.mem_cons_self, decide_eq_true h⟩

/-- Past a name, and with more tags at hand, no more is missing. -/
theorem missing_subset (h : byName ⊆ byName') :
    (resolving held byName' todo result' pending').missing
      ⊆ (resolving held byName (name :: todo) result pending).missing := by
  intro n hn
  obtain ⟨hmem, hmissing⟩ := List.mem_filter.mp hn
  refine List.mem_filter.mpr ⟨List.mem_cons_of_mem name hmem, decide_eq_true fun hfound => ?_⟩
  exact of_decide_eq_true hmissing (List.map_subset TagRow.name h hfound)

end Phase

variable {call : Call (Crud P)} {h : History Db} {db' : Db} {p p' : Phase}

theorem saving_resolve {held : Option Bookmark} {names : Option (List Str)}
    (hnames : call.request.names = names) : Saving call db' (Phase.resolve P held names) := by
  obtain ⟨-, hp⟩ | ⟨-, hp⟩ | ⟨ns, -, hp⟩ := resolve_names held hnames <;> rw [hp] <;> trivial

/-- The id of a request that saves can be bound. -/
theorem Crud.Saves.bindable {c : Crud P} (h : c.Saves) {k : ℤ} (hk : c.target = some k) :
    P.bindable k = true := by
  cases c with
  | update bookmarkId payload ifMatch => exact Option.some.inj hk ▸ h
  | create payload => cases hk
  | _ => cases h

/-- Its own moves. -/
theorem Saving.next (r : Running call h p) (hsaves : call.request.Saves) (hs : Saving call h.now p)
    (hnext : p.next call h.now = some (db', p')) : Saving call db' p' := by
  have hp := r.holds
  cases Phase.move_of_next hnext with
  | created hreq => exact saving_resolve (by rw [hreq]; rfl)
  | unbindable hk hb => exact absurd (hsaves.bindable hk) hb
  | absent hk => exact .notFound hk
  | shown hreq =>
    obtain ⟨-, -, hk⟩ := hp
    cases hcall : call.request with
    | update => exact absurd ⟨_, by rw [hcall]; exact .update⟩ hreq
    | create => rw [hcall] at hk; cases hk
    | _ => rw [hcall] at hsaves; cases hsaves
  | refused hreq hx => exact BookmarkService.refusal_of_checkPrecondition hp.2.2 hx
  | updating hreq hx => exact saving_resolve (by rw [hreq, Routers.changesOf_tags]; rfl)
  | lookedUp =>
    intro n hn hmem
    obtain ⟨hn, hmissing⟩ := List.mem_filter.mp hn
    obtain ⟨t, ht, rfl⟩ := List.mem_map.mp hmem
    refine of_decide_eq_true hmissing (List.mem_map_of_mem ?_)
    exact List.mem_filter.mpr ⟨ht, by simpa using hn⟩
  | reused => exact fun n hn => hs n (Phase.missing_subset (List.Subset.refl _) hn)
  | collided hmissing hstored => exact absurd hstored (hs _ (Phase.mem_missing hmissing))
  | inserted => exact fun n hn => hs n (Phase.missing_subset (List.subset_cons_self _ _) hn)
  | committed hcommit =>
    cases commit_cases r hcommit with
    | created hreq htags W => rw [Saving, W.view_self]; rfl
    | updated hreq hv htags W => rw [Saving, W.view_self]; rfl
    | deleted hreq => rw [hreq] at hsaves; cases hsaves
    | lost hv =>
      obtain ⟨⟨row, tags, hb, -, -, hk, -⟩, -⟩ := hp
      cases hb
      exact hk
  | gone hget =>
    obtain ⟨e, he⟩ := Option.isSome_iff_exists.mp hs
    rw [(Db.view_eq_some.mp he).1] at hget
    cases hget
  | answered => rfl
  | reported =>
    simp only [BookmarkService.currentEtag, BookmarkRepository.getOwned,
      BookmarkRepository.ownedRow, if_pos (hsaves.bindable hs)]
    exact .conflict hs _
  | _ => trivial

/-- The others' moves. -/
theorem Saving.others (hs : Saving call h.now p)
    (hview : ∀ k, (h.now.view k).isSome → (db'.view k).isSome)
    (hmissing : ∀ n ∈ p.missing, n ∉ db'.tags.rows.map TagRow.name) : Saving call db' p := by
  cases p with
  | resolving => exact hmissing
  | refreshing k => exact hview k hs
  | conflicted k => exact hs
  | done result => exact hs
  | _ => trivial

/-- No entry goes. -/
theorem view_isSome_next (r : Running call h p) (hsaves : call.request.Saves)
    (hnext : p.next call h.now = some (db', p')) :
    ∀ k, (h.now.view k).isSome → (db'.view k).isSome := by
  have hset : ∀ {k₀ : ℤ} {e : Entry}, h.now.Writes db' k₀ (some e) →
      ∀ k, (h.now.view k).isSome → (db'.view k).isSome := by
    intro k₀ e W k hk
    rw [W.view, Function.update_apply]
    split
    · rfl
    · exact hk
  cases Phase.move_of_next hnext with
  | committed hcommit =>
    cases commit_cases r hcommit with
    | created hreq htags W => exact hset W
    | updated hreq hv htags W => exact hset W
    | deleted hreq => rw [hreq] at hsaves; cases hsaves
    | lost => exact fun _ => id
  | _ => exact fun _ => id

/-! ## Runs -/

/-- Every bookmark there ever was is still there. -/
def History.Present (h : History Db) : Prop := ∀ k ∈ h.versioned.used, (h.now.view k).isSome

variable {req : ι → Call (Crud P)} {c c' : Config ι}

/-- The next id is new where no bookmark goes. -/
theorem Config.fresh_of_present (I : c.shared.now.Integrity) (hpresent : c.shared.Present) (i : ι) :
    Config.Fresh P c i := by
  intro _ hmem
  have hsome := hpresent _ hmem
  rw [Db.view_nextId P I] at hsome
  cases hsome

/-- Everything a run of creates and updates keeps. -/
structure SavingAll (req : ι → Call (Crud P)) (c : Config ι) : Prop where
  sound : Sound req c
  present : c.shared.Present
  saving : ∀ i, Saving (req i) c.shared.now (c.thread i)

theorem SavingAll.initial {db : Db} (I : db.Integrity) (hreg : ∀ i, db.Registered (req i).user) :
    SavingAll req (Config.initial db) := by
  refine ⟨.initial I hreg, ?_, fun _ => trivial⟩
  rintro k ⟨d, hd, hk⟩
  obtain rfl := History.mem_single.mp hd
  exact hk

variable [DecidableEq ι]

/-- **A move that does not overtake keeps it.** -/
theorem SavingAll.step (hsaves : ∀ i, (req i).request.Saves) (s : SavingAll req c) {i : ι}
    (hstep : ((machine req).restrict Config.NotOvertaking).StepBy i c c') :
    SavingAll req c' ∧ c.shared.now.Keeps c'.shared.now := by
  obtain ⟨hm, hfree⟩ := Interleaving.restrict_stepBy.mp hstep
  have hfresh := Config.fresh_of_present (P := P) s.sound.1.integrity s.present i
  obtain ⟨-, db', hnext, hpush⟩ := hm.move_self
  have hview := view_isSome_next (s.sound.running i) (hsaves i) hnext
  refine ⟨⟨s.sound.step hfresh hm, ?_, hm.forall_thread ?_ fun j hj => ?_⟩,
    (s.sound.advances hfresh hm).keeps⟩
  · rw [hpush]
    rintro k ⟨d, hd, hk⟩
    rcases History.mem_push.mp hd with rfl | hd
    · exact hk
    · exact hview k (s.present k ⟨d, hd, hk⟩)
  · rw [hpush]
    exact (s.saving i).next (s.sound.running i) (hsaves i) hnext
  · have hmissing := hfree j hj
    rw [hpush] at hmissing ⊢
    exact (s.saving j).others hview hmissing

/-- **A run that does not overtake keeps it**, and the tags. -/
theorem SavingAll.run (hsaves : ∀ i, (req i).request.Saves) (s : SavingAll req c)
    (hrun : ((machine req).restrict Config.NotOvertaking).Run c c') :
    SavingAll req c' ∧ c.shared.now.Keeps c'.shared.now :=
  ⟨hrun.invariant (fun _ _ _ s hs => (s.step hsaves hs).1) s,
    hrun.guarantee (G := fun h h' => h.now.Keeps h'.now) (fun _ => .refl _) (fun _ _ _ => .trans)
      (fun _ _ _ s hs => (s.step hsaves hs).1) (fun _ _ _ s hs => (s.step hsaves hs).2) s⟩

/-- **On runs in which no commit brings in a tag that another is about to insert, creating tags
concurrently is harmless.** -/
theorem harmlessTags {db : Db} (I : db.Integrity) (hreg : ∀ i, db.Registered (req i).user)
    (hsaves : ∀ i, (req i).request.Saves) :
    HarmlessTags ((machine req).restrict Config.NotOvertaking) req db := by
  have hinit : SavingAll req (Config.initial db) := .initial I hreg
  refine ⟨fun c i r hrun hphase => ?_,
    fun c i hrun hlive => (hinit.run hsaves hrun).1.sound.progress i hlive, ?_⟩
  · have hsaving := (hinit.run hsaves hrun).1.saving i
    rwa [hphase] at hsaving
  intro c₁ c₂ c₃ i held newTags pending k names hrun hphase hstep hok hrun' hnames n hn
  have s₁ := (hinit.run hsaves hrun).1
  obtain ⟨e, hv, hwrote⟩ := s₁.sound.wrote hphase (Interleaving.restrict_stepBy.mp hstep).1 hok
  obtain ⟨s₃, hkeeps⟩ := (s₁.step hsaves hstep).1.run hsaves hrun'
  have hmem : n ∈ c₂.shared.now.tagNames k := by
    rw [(Db.view_eq_some.mp hv).2, hwrote.tags hnames]
    exact List.mem_toFinset.mpr hn
  obtain ⟨t, ht, hl, hname⟩ := Db.mem_tagNames.mp hmem
  refine ⟨t, hkeeps.tags ht, hname, hl, fun t' ht' hname' => ?_⟩
  exact s₃.sound.1.integrity.eq_of_name ht' (hkeeps.tags ht) (hname'.trans hname.symm)

end

/-! ## A race -/

theorem normalizeTags_x : normalizeTags .sqlite ["x".toList] = .ok ["x".toList] := by
  decide +kernel

/-- Alice and Bob create bookmarks with the same new tag. -/
def twoTagged : Fin 2 → Call (Crud .sqlite)
  | 0 => ⟨1, 0, .create (.tagged "x".toList normalizeTags_x)⟩
  | 1 => ⟨2, 0, .create (.tagged "x".toList normalizeTags_x)⟩

/-- One after the other, both link the one row. -/
theorem harmlessTags_twoTagged : ∃ (c : Config (Fin 2)) (t : TagRow),
    (machine twoTagged).Run (Config.initial Db.twoAccounts) c ∧ (c.thread 0).response?.isSome ∧
      (c.thread 1).response?.isSome ∧
      ∀ t' ∈ c.shared.now.tags.rows, t'.name = "x".toList → t' = t := by
  obtain ⟨c₁, c₂, c₃, hrun, hstep, hrun', hc⟩ := Config.exists_run twoTagged Config.NotOvertaking
    (.initial Db.twoAccounts) [0, 0, 0, 0] 0 [1, 1, 0, 1, 1, 1, 0, 1, 1] (fun c₁ c₂ c₃ => decide
      (c₁.thread 0 = .committing none (some [⟨1, "x".toList⟩]) [⟨1, "x".toList⟩] ∧
        c₂.thread 0 = .refreshing 1 ∧ (c₃.thread 0).response?.isSome ∧
        (c₃.thread 1).response?.isSome)) (by decide +kernel)
  obtain ⟨hphase, hok, h₀, h₁⟩ := of_decide_eq_true hc
  have hall := hrun.trans (hstep.run.trans hrun')
  have hsaves : ∀ i, (twoTagged i).request.Saves := fun
    | 0 => trivial
    | 1 => trivial
  obtain ⟨-, -, hlinks⟩ := harmlessTags (P := .sqlite) Db.integrity_twoAccounts
    (by decide +kernel) hsaves
  obtain ⟨t, -, -, -, ht⟩ := hlinks c₁ c₂ c₃ 0 none _ _ 1 _ hrun hphase hstep hok hrun' rfl
    "x".toList (List.mem_singleton_self _)
  exact ⟨c₃, t, Interleaving.run_of_restrict hall, h₀, h₁, ht⟩

/-- **A commit between another request's lookup and insert makes that request fail.** -/
theorem not_harmlessTags : ¬ HarmlessTags (machine twoTagged) twoTagged Db.twoAccounts := by
  obtain ⟨c₁, c₂, c₃, hrun, hstep, hrun', hc⟩ := Config.exists_run twoTagged (fun _ _ _ => True)
    (.initial Db.twoAccounts) [0, 0, 1, 1, 0, 0] 0 [1] (fun _ _ c => decide
      (c.thread 1 = .done (.error .integrityError))) (by decide +kernel)
  intro h
  have hall := hrun.trans (hstep.run.trans hrun')
  have hend := h.1 c₃ 1 _ (Interleaving.run_of_restrict hall) (of_decide_eq_true hc)
  cases hend
