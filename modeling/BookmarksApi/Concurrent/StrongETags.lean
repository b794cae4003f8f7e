import BookmarksApi.Concurrent.OwnWrites

/-!
# Concurrent/StrongETags — what an ETag shows

A `GET` reads a row and then its tags, in two statements.  As long as nobody changes the tags in
between, the response is one entry the bookmark had, and since an entry only gives way to one of a
larger version, two responses with one ETag show one entry (`strongValidator`).  An update that
commits between the two reads leaves a response with the old version and the new tags
(`not_strongValidator`).
-/

variable {P : Platform}

/-- The bookmark had this entry at some moment. -/
def History.Had (h : History Db) (k : ℤ) (e : Entry) : Prop := ∃ db ∈ h.states, db.view k = some e

section

variable {ι : Type*} [DecidableEq ι]

/-- **The ETag is a strong validator**: two successful `GET`s of a bookmark that carry one ETag show
one entry, and the bookmark had it. -/
def StrongValidator (M : Interleaving ι (History Db) Phase) (req : ι → Call (Crud P)) (db : Db) :
    Prop :=
  ∀ c i j k r r', M.Run (Config.initial db) c → (req i).request = .get k →
    (req j).request = .get k → (c.thread i).response? = some r →
    (c.thread j).response? = some r' → r.etag = r'.etag →
    ∃ e, History.Had c.shared k e ∧ r = e.answer P 200 ∧ r' = e.answer P 200

/-- The bookmark whose tags a request reads next, if it is a `GET`. -/
def Phase.getting (c : Crud P) : Phase → Option ℤ
  | .rowRead row => match c with
    | .get _ => some row.id
    | _ => none
  | _ => none

/-- A move that leaves alone the tags the others' `GET`s are about to read. -/
def Config.TagsSettled (req : ι → Call (Crud P)) (i : ι) (c : Config ι) (h' : History Db) : Prop :=
  ∀ j, j ≠ i → ∀ k ∈ (c.thread j).getting (req j).request,
    h'.now.tagNames k = c.shared.now.tagNames k

instance Config.decidableTagsSettled [Fintype ι] (req : ι → Call (Crud P)) (i : ι) (c : Config ι)
    (h' : History Db) : Decidable (Config.TagsSettled req i c h') :=
  inferInstanceAs (Decidable (∀ j, j ≠ i → ∀ k ∈ (c.thread j).getting (req j).request,
    h'.now.tagNames k = c.shared.now.tagNames k))

/-! ## What a `GET` has seen -/

/-- A `GET` in progress: the row of an entry the bookmark had, with the tags it still has; and then
that entry's answer. -/
def Getting (P : Platform) (k : ℤ) (h : History Db) : Phase → Prop
  | .start => True
  | .rowRead row => ∃ e, h.Had k e ∧ row = e.row ∧ h.now.tagNames k = e.tags
  | .done (.ok r) => ∃ e, h.Had k e ∧ r = e.answer P 200
  | .done (.error _) => True
  | _ => False

variable {call : Call (Crud P)} {h : History Db} {k : ℤ} {p p' : Phase} {db' : Db}

theorem History.Had.id_eq {e : Entry} (hs : h.Had k e) : e.row.id = k := by
  obtain ⟨db, -, hv⟩ := hs
  exact Db.id_of_view hv

theorem History.Had.push {e : Entry} (hs : h.Had k e) (db : Db) : (h.push db).Had k e :=
  hs.imp fun _ => And.imp_left fun hd => History.mem_push.mpr (Or.inr hd)

/-- Its own moves. -/
theorem Getting.next (I : h.now.Integrity) (hreq : call.request = .get k)
    (hg : Getting P k h p) (hnext : p.next call h.now = some (db', p')) :
    Getting P k (h.push db') p' := by
  cases Phase.move_of_next hnext with
  | created hcall => cases hreq.symm.trans hcall
  | unbindable => trivial
  | absent => trivial
  | @found k' row hk hget =>
    obtain rfl : k = k' := by rw [hreq] at hk; exact Option.some.inj hk
    have hv : h.now.view k = some ⟨row, h.now.tagNames k⟩ := Db.view_eq_some.mpr ⟨hget, rfl⟩
    exact ⟨_, ⟨h.now, History.now_mem _, hv⟩, rfl, rfl⟩
  | shown =>
    obtain ⟨e, hs, rfl, htags⟩ := hg
    refine ⟨e, hs.push _, ?_⟩
    rw [Db.bookmarkResponse_loaded I, hs.id_eq, htags]
  | refused => trivial
  | updating hcall => cases hreq.symm.trans hcall
  | deleting hcall => cases hreq.symm.trans hcall
  | _ => cases hg

/-- The others' moves. -/
theorem Getting.settled (hreq : call.request = .get k) (hg : Getting P k h p)
    (hsettled : ∀ i ∈ p.getting call.request, db'.tagNames i = h.now.tagNames i) :
    Getting P k (h.push db') p := by
  cases p with
  | start => trivial
  | rowRead row =>
    obtain ⟨e, hs, rfl, htags⟩ := hg
    refine ⟨e, hs.push db', rfl, (hsettled k ?_).trans htags⟩
    rw [hreq, ← hs.id_eq]
    rfl
  | done result =>
    rcases result with x | r
    · trivial
    · obtain ⟨e, hs, hr⟩ := hg
      exact ⟨e, hs.push db', hr⟩
  | _ => cases hg

/-! ## Runs -/

variable {req : ι → Call (Crud P)} {c c' : Config ι}

/-- **On runs that leave the tags alone between the two reads, every `GET` shows one entry**, each
version had one. -/
theorem getting_run (hP : P.ids = .sequence) {db : Db} (I : db.Integrity)
    (hreg : ∀ i, db.Registered (req i).user)
    (hrun : ((machine req).restrict (Config.TagsSettled req)).Run (Config.initial db) c) :
    (c.shared.states.map Db.view).Pairwise (Versioned.Supersedes Entry.version) ∧
      ∀ i k, (req i).request = .get k → Getting P k c.shared (c.thread i) := by
  have hinv : (Sound req c ∧ c.shared.Numbered) ∧
      (c.shared.states.map Db.view).Pairwise (Versioned.Supersedes Entry.version) ∧
      ∀ i k, (req i).request = .get k → Getting P k c.shared (c.thread i) := by
    refine Interleaving.Run.invariant (I := fun c => (Sound req c ∧ c.shared.Numbered) ∧
      (c.shared.states.map Db.view).Pairwise (Versioned.Supersedes Entry.version) ∧
      ∀ i k, (req i).request = .get k → Getting P k c.shared (c.thread i)) ?_ hrun ?_
    · rintro i d d' ⟨⟨hs, hn⟩, hp, hg⟩ hstep
      obtain ⟨hm, hsettled⟩ := Interleaving.restrict_stepBy.mp hstep
      have hfresh := Config.fresh_of_numbered hP hn i
      obtain ⟨-, hs', hn'⟩ := hs.run_of_sequence hP hn hm.run
      obtain ⟨-, db', hnext, hpush⟩ := hm.move_self
      have a := hs.advances hfresh hm
      refine ⟨⟨hs', hn'⟩, ?_, hm.forall_thread (L := fun j p =>
        ∀ k, (req j).request = .get k → Getting P k d'.shared p) (fun k hreq => ?_)
        fun j hj k hreq => ?_⟩
      · rw [hpush] at a ⊢
        refine a.evolves.pairwise_cons ?_ hp
        intro f (hf : f ∈ d.shared.states.map Db.view) k hk
        obtain ⟨d₀, hd₀, rfl⟩ := List.mem_map.mp hf
        exact ⟨d₀, hd₀, hk⟩
      · rw [hpush]
        exact (hg i k hreq).next hs.1.integrity hreq hnext
      · rw [hpush] at hsettled ⊢
        exact (hg j k hreq).settled hreq (hsettled j hj)
    · refine ⟨⟨.initial I hreg, History.numbered_single I⟩, List.pairwise_singleton _ _, ?_⟩
      exact fun _ _ _ => trivial
  exact hinv.2

/-- **On runs that leave the tags alone between the two reads of a `GET`, the ETag is a strong
validator.** -/
theorem strongValidator (hP : P.ids = .sequence) {db : Db} (I : db.Integrity)
    (hreg : ∀ i, db.Registered (req i).user) :
    StrongValidator ((machine req).restrict (Config.TagsSettled req)) req db := by
  intro c i j k r r' hrun hi hj hr hr' hetag
  obtain ⟨hp, hg⟩ := getting_run hP I hreg hrun
  have hshown : ∀ i r, (req i).request = .get k → (c.thread i).response? = some r →
      ∃ e, History.Had c.shared k e ∧ r = e.answer P 200 := by
    intro i r hi hr
    have hgi := hg i k hi
    rcases hphase : c.thread i with _ | _ | _ | _ | _ | _ | _ | _ | x | r₀
    case done.ok =>
      rw [hphase] at hgi hr
      exact Option.some.inj hr ▸ hgi
    all_goals
      rw [hphase] at hr
      cases hr
  obtain ⟨e, ⟨d, hd, hv⟩, rfl⟩ := hshown i r hi hr
  obtain ⟨e', ⟨d', hd', hv'⟩, rfl⟩ := hshown j r' hj hr'
  have hversion : e.version = e'.version :=
    VersionETagService.makeEtag_inj.mp (Option.some.inj hetag)
  obtain rfl : e = e' := Versioned.eq_of_version_eq hp (List.mem_map_of_mem hd)
    (List.mem_map_of_mem hd') hv hv' hversion
  exact ⟨e, ⟨d, hd, hv⟩, rfl, rfl⟩

end

/-! ## A race -/

/-- Alice creates a bookmark, two `GET`s read it, and an update tags it. -/
def readAndTag : Fin 4 → Call (Crud .autoincrement)
  | 0 => ⟨1, 0, .create (.titled 'a')⟩
  | 1 => ⟨1, 1, .get 1⟩
  | 2 => ⟨1, 2, .get 1⟩
  | 3 => ⟨1, 3, .update 1 (.tagged "x".toList (by decide +kernel)) (some "*".toList)⟩

/-- One after the other, the two `GET`s show one entry. -/
theorem strongValidator_readAndTag : ∃ (c : Config (Fin 4)) (e : Entry),
    (machine readAndTag).Run (Config.initial Db.twoAccounts) c ∧
      (c.thread 1).response? = some (e.answer .autoincrement 200) ∧
      (c.thread 2).response? = some (e.answer .autoincrement 200) := by
  obtain ⟨c₁, c₂, c₃, hrun, hstep, hrun', hc⟩ := Config.exists_run readAndTag
    (Config.TagsSettled readAndTag) (.initial Db.twoAccounts) [0, 0, 1, 3] 2 [3, 1, 2, 3, 3, 3, 3]
    (fun _ _ c => decide ((c.thread 1).response?.isSome ∧ (c.thread 2).response?.isSome ∧
      (c.thread 1).response?.bind Response.etag = (c.thread 2).response?.bind Response.etag))
    (by decide +kernel)
  obtain ⟨h₁, h₂, hetag⟩ := of_decide_eq_true hc
  obtain ⟨r₁, hr₁⟩ := Option.isSome_iff_exists.mp h₁
  obtain ⟨r₂, hr₂⟩ := Option.isSome_iff_exists.mp h₂
  have hall := hrun.trans (hstep.run.trans hrun')
  rw [hr₁, hr₂] at hetag
  obtain ⟨e, -, rfl, rfl⟩ :=
    strongValidator rfl Db.integrity_twoAccounts (by decide +kernel) c₃ 1 2 1
    r₁ r₂ hall rfl rfl hr₁ hr₂ hetag
  exact ⟨c₃, e, Interleaving.run_of_restrict hall, hr₁, hr₂⟩

/-- **An update between the two reads of a `GET` gives an ETag a second content.** -/
theorem not_strongValidator :
    ¬ StrongValidator (machine readAndTag) readAndTag Db.twoAccounts := by
  obtain ⟨c₁, c₂, c₃, hrun, hstep, hrun', hc⟩ := Config.exists_run readAndTag (fun _ _ _ => True)
    (.initial Db.twoAccounts) [0, 0, 1, 1] 2 [3, 3, 3, 3, 3, 3, 2]
    (fun _ _ c => decide ((c.thread 1).response?.isSome ∧ (c.thread 2).response?.isSome ∧
      (c.thread 1).response?.bind Response.etag = (c.thread 2).response?.bind Response.etag ∧
      (c.thread 1).response? ≠ (c.thread 2).response?)) (by decide +kernel)
  obtain ⟨h₁, h₂, hetag, hne⟩ := of_decide_eq_true hc
  obtain ⟨r₁, hr₁⟩ := Option.isSome_iff_exists.mp h₁
  obtain ⟨r₂, hr₂⟩ := Option.isSome_iff_exists.mp h₂
  have hall := hrun.trans (hstep.run.trans hrun')
  rw [hr₁, hr₂] at hetag hne
  intro h
  have hrun := Interleaving.run_of_restrict hall
  obtain ⟨e, -, rfl, rfl⟩ := h c₃ 1 2 1 r₁ r₂ hrun rfl rfl hr₁ hr₂ hetag
  exact hne rfl
