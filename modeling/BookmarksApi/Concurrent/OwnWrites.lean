import BookmarksApi.Concurrent.LostUpdates

/-!
# Concurrent/OwnWrites — what a create or update answers

A create or update answers with what it re-reads after its commit, in a new transaction.  While
nobody touches the bookmark in between, the answer is the entry the commit wrote
(`answersForItself`); another commit in that window shows in the answer, or makes it fail
(`not_answersForItself`).
-/

variable {P : Platform}

section

variable {ι : Type*} [DecidableEq ι]

/-- **A write answers for itself**: from its commit on, a create or update either has answered with
the entry its commit wrote, or is still re-reading and can go on. -/
def AnswersForItself (M : Interleaving ι (History Db) Phase) (req : ι → Call (Crud P)) (db : Db) :
    Prop :=
  ∀ c₁ c₂ c₃ i held newTags pending k, M.Run (Config.initial db) c₁ →
    c₁.thread i = .committing held newTags pending → M.StepBy i c₁ c₂ →
    c₂.thread i = .refreshing k → M.Run c₂ c₃ →
    ∃ e, c₂.shared.now.view k = some e ∧ Wrote (req i) k held e ∧
      (c₃.thread i = .done (.ok (e.answer P (Phase.okStatus (req i).request))) ∨
        (c₃.thread i = .refreshing k ∨ c₃.thread i = .rowRefreshed e.row) ∧
          ∃ c₄, M.StepBy i c₃ c₄)

/-- What a phase is re-reading stays as it is: the entry before the row is selected, its tags after
that. -/
def Phase.Untouched (db db' : Db) : Phase → Prop
  | .refreshing k => db'.view k = db.view k
  | .rowRefreshed row => db'.tagNames row.id = db.tagNames row.id
  | _ => True

instance Phase.decidableUntouched (db db' : Db) : (p : Phase) → Decidable (p.Untouched db db')
  | .refreshing k => inferInstanceAs (Decidable (db'.view k = db.view k))
  | .rowRefreshed row => inferInstanceAs (Decidable (db'.tagNames row.id = db.tagNames row.id))
  | .start | .rowRead _ | .lookup _ _ | .resolving _ _ _ _ _ | .committing _ _ _ | .conflicted _
  | .done _ => .isTrue trivial

/-- A move that hands out no used id, and leaves alone what the others are re-reading. -/
def Config.Undisturbed (P : Platform) (i : ι) (c : Config ι) (h' : History Db) : Prop :=
  Config.Fresh P c i ∧ ∀ j, j ≠ i → (c.thread j).Untouched c.shared.now h'.now

instance Config.decidableUndisturbed [Fintype ι] (i : ι) (c : Config ι) (h' : History Db) :
    Decidable (Config.Undisturbed P i c h') :=
  inferInstanceAs (Decidable (_ ∧ ∀ j, j ≠ i → (c.thread j).Untouched c.shared.now h'.now))

variable {req : ι → Call (Crud P)} {c c' : Config ι} {i : ι}

/-- The rest of a request after its commit wrote an entry. -/
def Answering (call : Call (Crud P)) (db : Db) (k : ℤ) (e : Entry) : Phase → Prop
  | .refreshing k' => k' = k ∧ db.view k = some e
  | .rowRefreshed row => row = e.row ∧ db.tagNames row.id = e.tags
  | .done result => result = .ok (e.answer P (Phase.okStatus call.request))
  | _ => False

/-- Its own moves only read. -/
theorem Answering.next {call : Call (Crud P)} {db db' : Db} {k : ℤ} {e : Entry} {p p' : Phase}
    (I : db.Integrity) (h : Answering call db k e p) (hnext : p.next call db = some (db', p')) :
    db' = db ∧ Answering call db k e p' := by
  cases Phase.move_of_next hnext with
  | gone hget =>
    obtain ⟨rfl, hv⟩ := h
    rw [(Db.view_eq_some.mp hv).1] at hget
    cases hget
  | reselected hget =>
    obtain ⟨rfl, hv⟩ := h
    obtain ⟨hget', htags⟩ := Db.view_eq_some.mp hv
    obtain rfl := Option.some.inj (hget'.symm.trans hget)
    exact ⟨rfl, rfl, by rw [Db.id_of_view hv, htags]⟩
  | answered =>
    obtain ⟨rfl, htags⟩ := h
    refine ⟨rfl, congrArg Except.ok ?_⟩
    rw [Db.bookmarkResponse_loaded I, htags]
  | _ => cases h

/-- The others' moves leave it alone. -/
theorem Answering.untouched {call : Call (Crud P)} {db db' : Db} {k : ℤ} {e : Entry} {p : Phase}
    (h : Answering call db k e p) (hu : p.Untouched db db') : Answering call db' k e p := by
  cases p with
  | refreshing k' =>
    obtain ⟨rfl, hv⟩ := h
    exact ⟨rfl, hu.trans hv⟩
  | rowRefreshed row => exact h.imp_right hu.trans
  | done result => exact h
  | _ => cases h

/-- **Where nobody touches what a request re-reads, its answer stays the entry it wrote.** -/
theorem Answering.run {k : ℤ} {e : Entry}
    (hrun : ((machine req).restrict (Config.Undisturbed P)).Run c c') (s : Sound req c)
    (h : Answering (req i) c.shared.now k e (c.thread i)) :
    Sound req c' ∧ Answering (req i) c'.shared.now k e (c'.thread i) := by
  refine Interleaving.Run.invariant (I := fun c => Sound req c ∧
    Answering (req i) c.shared.now k e (c.thread i)) ?_ hrun ⟨s, h⟩
  rintro j d d' ⟨hs, ha⟩ hstep
  obtain ⟨hm, hfresh, hothers⟩ := Interleaving.restrict_stepBy.mp hstep
  refine ⟨hs.step hfresh hm, ?_⟩
  by_cases hj : j = i
  · subst hj
    obtain ⟨-, db', hnext, rfl⟩ := hm
    obtain ⟨rfl, ha'⟩ := ha.next hs.1.integrity hnext
    simpa using ha'
  · rw [hm.thread_ne (Ne.symm hj)]
    exact ha.untouched (hothers i (Ne.symm hj))

/-- It can go on until it is done. -/
theorem Answering.progress {k : ℤ} {e : Entry}
    (h : Answering (req i) c.shared.now k e (c.thread i)) :
    c.thread i = .done (.ok (e.answer P (Phase.okStatus (req i).request))) ∨
      (c.thread i = .refreshing k ∨ c.thread i = .rowRefreshed e.row) ∧
        ∃ c', ((machine req).restrict (Config.Undisturbed P)).StepBy i c c' := by
  have hread : ∀ p', (c.thread i).next (req i) c.shared.now = some (c.shared.now, p') →
      (c.thread i).inserting = none → ¬ (c.thread i).creating →
      ∃ c', ((machine req).restrict (Config.Undisturbed P)).StepBy i c c' := by
    intro p' hnext hins hcreate
    refine ⟨⟨c.shared.push c.shared.now, Function.update c.thread i p'⟩, ⟨⟨?_, _, hnext, rfl⟩, ?_⟩⟩
    · rw [Config.Unblocked, hins]
      simp
    · refine ⟨fun hc => absurd hc hcreate, fun j _ => ?_⟩
      rw [History.push_now]
      cases c.thread j <;> simp [Phase.Untouched]
  rcases hphase : c.thread i with _ | row | _ | _ | _ | k' | row | _ | result
  case refreshing =>
    rw [hphase] at h hread
    obtain ⟨rfl, -⟩ := h
    exact Or.inr ⟨Or.inl rfl, hread _ rfl rfl id⟩
  case rowRefreshed =>
    rw [hphase] at h hread
    obtain ⟨rfl, -⟩ := h
    exact Or.inr ⟨Or.inr rfl, hread _ rfl rfl id⟩
  case done =>
    rw [hphase] at h
    exact Or.inl (congrArg Phase.done h)
  all_goals
    rw [hphase] at h
    cases h

/-- **On runs where nobody touches a bookmark between a commit and its re-reads, every create and
update answers for itself.** -/
theorem answersForItself {db : Db} (I : db.Integrity) (hreg : ∀ i, db.Registered (req i).user) :
    AnswersForItself ((machine req).restrict (Config.Undisturbed P)) req db := by
  intro c₁ c₂ c₃ i held newTags pending k hrun hphase hstep hok hrun'
  have s : Sound req c₁ := (Sound.initial I hreg).run (hrun.mono fun _ _ _ h => h.1)
  obtain ⟨hm, hfresh, -⟩ := Interleaving.restrict_stepBy.mp hstep
  obtain ⟨e, hv, hwrote⟩ := s.wrote hphase hm hok
  have s₂ : Sound req c₂ := s.step hfresh hm
  refine ⟨e, hv, hwrote, ?_⟩
  exact (Answering.run hrun' s₂ (by rw [hok]; exact ⟨rfl, hv⟩)).2.progress

end

/-! ## A race -/

/-- Alice creates a bookmark, and updates it as soon as it is there. -/
def createAndUpdate : Fin 2 → Call (Crud .sqlite)
  | 0 => ⟨1, 0, .create (.titled 'a')⟩
  | 1 => ⟨1, 1, .update 1 (.titled 'b') (some "*".toList)⟩

/-- Left to re-read, the create answers with version 1. -/
theorem answersForItself_createAndUpdate : ∃ (c : Config (Fin 2)) (e : Entry),
    (machine createAndUpdate).Run (Config.initial Db.twoAccounts) c ∧ e.version = 1 ∧
      c.thread 0 = .done (.ok (e.answer .sqlite 201)) := by
  obtain ⟨c₁, c₂, c₃, hrun, hstep, hrun', hc⟩ := Config.exists_run createAndUpdate
    (Config.Undisturbed .sqlite) (.initial Db.twoAccounts) [0] 0 [1, 0, 1, 0, 1] (fun c₁ c₂ c₃ =>
      decide (c₁.thread 0 = .committing none (some []) [] ∧ c₂.thread 0 = .refreshing 1) &&
        (c₃.thread 0).response?.isSome) (by decide +kernel)
  simp only [Bool.and_eq_true, decide_eq_true_eq] at hc
  obtain ⟨⟨hphase, hok⟩, hdone⟩ := hc
  obtain ⟨e, -, ⟨payload, -, rfl⟩, hanswer⟩ := answersForItself Db.integrity_twoAccounts
    (by decide +kernel) c₁ c₂ c₃ 0 none _ _ 1 hrun hphase hstep hok hrun'
  have hall := hrun.trans (hstep.run.trans hrun')
  rcases hanswer with hanswer | ⟨hanswer | hanswer, -⟩
  · exact ⟨c₃, _, Interleaving.run_of_restrict hall, rfl, hanswer⟩
  · rw [hanswer] at hdone
    cases hdone
  · rw [hanswer] at hdone
    cases hdone

/-- **An update between a create's commit and its re-read shows in the answer of the create.** -/
theorem not_answersForItself :
    ¬ AnswersForItself (machine createAndUpdate) createAndUpdate Db.twoAccounts := by
  obtain ⟨c₁, c₂, c₃, hrun, hstep, hrun', hc⟩ :=
    Config.exists_run createAndUpdate (fun _ _ _ => True)
    (.initial Db.twoAccounts) [0] 0 [1, 1, 1, 0, 0] (fun c₁ c₂ c₃ => decide
      (c₁.thread 0 = .committing none (some []) [] ∧ c₂.thread 0 = .refreshing 1 ∧
        (c₃.thread 0).response?.bind Response.etag = some "\"2\"".toList)) (by decide +kernel)
  obtain ⟨hphase, hok, hetag⟩ := of_decide_eq_true hc
  intro h
  obtain ⟨e, -, ⟨payload, -, rfl⟩, hanswer⟩ := h c₁ c₂ c₃ 0 none _ _ 1
    (Interleaving.run_of_restrict hrun) hphase (Interleaving.restrict_stepBy.mp hstep).1 hok
    (Interleaving.run_of_restrict hrun')
  rcases hanswer with hanswer | ⟨hanswer | hanswer, -⟩
  · rw [hanswer] at hetag
    have hone : VersionETagService.makeEtag 1 = "\"2\"".toList := Option.some.inj hetag
    exact absurd hone (by decide)
  · rw [hanswer] at hetag
    cases hetag
  · rw [hanswer] at hetag
    cases hetag
