import BookmarksApi.Concurrent.Moves

/-!
# Concurrent/Invariant — what every run keeps

Two invariants carry every result about interleaved requests.  **Consistent** is about the tables
and all transactions together: the constraints hold, and uncommitted tags have ids and names of
their own.  **Holds** is about each request by itself, and survives the others because all they do
is to advance the history (`Sound.run`).

Nothing here depends on the schedule; the one thing asked of a run is that no create is given an id
that had an entry before (`Fresh`), which a sequence guarantees (`run_of_sequence`).
-/

variable {P : Platform}

/-! ## All requests -/

variable {ι : Type*}

/-- **The constraints hold, and no two uncommitted tags share an id or a name.** -/
structure Consistent (req : ι → Call (Crud P)) (c : Config ι) : Prop where
  integrity : c.shared.now.Integrity
  registered : ∀ i, c.shared.now.Registered (req i).user
  addable : ∀ i, c.shared.now.Addable (c.thread i).pending
  apart : ∀ i j, i ≠ j → ∀ s ∈ (c.thread i).pending, ∀ t ∈ (c.thread j).pending,
    s.id ≠ t.id ∧ s.name ≠ t.name

namespace Consistent

variable {req : ι → Call (Crud P)} {c : Config ι}

theorem initial {db : Db} (I : db.Integrity) (hreg : ∀ i, db.Registered (req i).user) :
    Consistent req (Config.initial db) :=
  ⟨I, hreg, fun _ => db.addable_nil, by simp [Config.initial, Phase.pending]⟩

variable [DecidableEq ι]

/-- **What a move has to show**: about the mover's tags, and about the others' over new tables. -/
theorem move (s : Consistent req c) {i : ι} {db' : Db} {p' : Phase} (I : db'.Integrity)
    (hkeeps : c.shared.now.Keeps db') (hmover : db'.Addable p'.pending)
    (hrest : ∀ j, j ≠ i → db'.Addable (c.thread j).pending)
    (hapart : ∀ j, j ≠ i → ∀ u ∈ p'.pending, ∀ v ∈ (c.thread j).pending,
      u.id ≠ v.id ∧ u.name ≠ v.name) :
    Consistent req ⟨c.shared.push db', Function.update c.thread i p'⟩ := by
  have hself : (Function.update c.thread i p' i).pending = p'.pending := by
    rw [Function.update_self]
  have hother : ∀ j, j ≠ i → (Function.update c.thread i p' j).pending = (c.thread j).pending :=
    fun j hj => by rw [Function.update_of_ne hj]
  refine ⟨I, fun j => hkeeps.registered.mpr (s.registered j), fun j => ?_,
    fun j k hjk u hu v hv => ?_⟩
  · by_cases hj : j = i
    · subst hj
      exact hself ▸ hmover
    · exact (hother j hj).symm ▸ hrest j hj
  · by_cases hj : j = i
    · subst hj
      exact hapart k hjk.symm u (hself ▸ hu) v (hother k hjk.symm ▸ hv)
    · rw [hother j hj] at hu
      by_cases hk : k = i
      · subst hk
        exact (hapart j hj v (hself ▸ hv) u hu).imp Ne.symm Ne.symm
      · exact s.apart j k hjk u hu v (hother k hk ▸ hv)

/-- **An effect keeps it.** -/
theorem effect (s : Consistent req c) {i : ι} {db' : Db} {p' : Phase} (hfree : Config.Unblocked c i)
    (e : Effect c.shared (c.thread i) db' p') :
    Consistent req ⟨c.shared.push db', Function.update c.thread i p'⟩ := by
  obtain ⟨I', hmover⟩ := e.mover s.integrity (s.addable i)
  have hapart := fun j (hj : j ≠ i) => s.apart i j hj.symm
  refine s.move I' e.advances.keeps hmover ?_ ?_
  · intro j hj
    cases e with
    | quiet => exact s.addable j
    | insert => exact (s.addable j).advanceTagSeq
    | write _ _ htags W => exact (s.addable j).commit W.keeps htags (hapart j hj)
  · intro j hj u hu v hv
    cases e with
    | quiet hp =>
      rcases hp with hp | hp
      · exact hapart j hj u (hp ▸ hu) v hv
      · exact absurd (hp ▸ hu) List.not_mem_nil
    | insert hname _ _ hp =>
      rw [hp, List.mem_append, List.mem_singleton] at hu
      rcases hu with hu | rfl
      · exact hapart j hj u hu v hv
      · have hle : v.id ≤ c.shared.now.tagSeq := (s.addable j).reserved v hv
        refine ⟨by simp only; omega, ?_⟩
        rintro rfl
        exact hfree v.name (by rw [hname]; rfl) j hj (List.mem_map_of_mem hv)
    | write _ hp => exact absurd (hp ▸ hu) List.not_mem_nil

end Consistent

/-! ## Runs -/

/-- No create is given an id that ever had an entry. -/
def Config.Fresh (P : Platform) (c : Config ι) (i : ι) : Prop :=
  (c.thread i).creating → c.shared.now.nextId P ∉ c.shared.versioned.used

instance Phase.decidableCreating : (p : Phase) → Decidable p.creating
  | .committing none _ _ => .isTrue trivial
  | .committing (some _) _ _ => .isFalse id
  | .start | .rowRead _ | .lookup _ _ | .resolving _ _ _ _ _ | .refreshing _ | .rowRefreshed _
  | .conflicted _ | .done _ => .isFalse id

instance History.decidableUsed (h : History Db) (k : ℤ) : Decidable (k ∈ h.versioned.used) :=
  inferInstanceAs (Decidable (∃ db ∈ h.states, (db.view k).isSome = true))

instance Config.decidableFresh (c : Config ι) (i : ι) : Decidable (Config.Fresh P c i) :=
  inferInstanceAs (Decidable (_ → _))

section

variable {req : ι → Call (Crud P)} {c c' : Config ι}

/-- Everything the runs keep. -/
def Sound (req : ι → Call (Crud P)) (c : Config ι) : Prop :=
  Consistent req c ∧ ∀ i, Holds (req i) c.shared (c.thread i)

theorem Sound.initial {db : Db} (I : db.Integrity) (hreg : ∀ i, db.Registered (req i).user) :
    Sound req (Config.initial db) :=
  ⟨.initial I hreg, fun _ => trivial⟩

/-- Each request of a sound configuration is on its way. -/
theorem Sound.running (s : Sound req c) (i : ι) : Running (req i) c.shared (c.thread i) :=
  ⟨s.1.integrity, s.1.registered i, s.1.addable i, s.2 i⟩

/-- **A move from a sound configuration has one of the three effects.** -/
theorem Sound.effect (s : Sound req c) {i : ι} (hfresh : Config.Fresh P c i) {h' : History Db}
    {p' : Phase} (hm : (machine req).move i c h' p') :
    ∃ db', h' = c.shared.push db' ∧ Effect c.shared (c.thread i) db' p' := by
  obtain ⟨-, db', hnext, rfl⟩ := hm
  exact ⟨db', rfl, effect_next (s.running i) hfresh hnext⟩

/-- Every id that ever had an entry is one the sequence has given out. -/
def History.Numbered (h : History Db) : Prop := ∀ k ∈ h.versioned.used, k ≤ h.now.bookmarkSeq

theorem History.numbered_single {db : Db} (I : db.Integrity) : (History.single db).Numbered := by
  rintro k ⟨d, hd, hk⟩
  obtain rfl := mem_single.mp hd
  obtain ⟨e, he⟩ := Option.isSome_iff_exists.mp hk
  exact Db.id_of_view he ▸ I.bookmarkSeq e.row (Db.mem_of_view he)

theorem History.Numbered.push {h : History Db} {db : Db} (hn : h.Numbered) (I : db.Integrity)
    (hk : h.now.Keeps db) : (h.push db).Numbered := by
  rintro k ⟨d, hd, hv⟩
  rcases mem_push.mp hd with rfl | hd
  · obtain ⟨e, he⟩ := Option.isSome_iff_exists.mp hv
    exact Db.id_of_view he ▸ I.bookmarkSeq e.row (Db.mem_of_view he)
  · exact (hn k ⟨d, hd, hv⟩).trans hk.bookmarkSeq

theorem Config.fresh_of_numbered (hP : P.ids = .sequence) (hn : c.shared.Numbered) (i : ι) :
    Config.Fresh P c i := by
  intro _ hmem
  have hle := hn _ hmem
  rw [Db.nextId, hP, IdRule.next] at hle
  omega

variable [DecidableEq ι]

/-- **It advances the history.** -/
theorem Sound.advances (s : Sound req c) {i : ι} (hfresh : Config.Fresh P c i)
    (hs : (machine req).StepBy i c c') : c.shared.Advances c'.shared := by
  obtain ⟨hm⟩ := hs
  obtain ⟨db', rfl, e⟩ := s.effect hfresh hm
  exact e.advances

/-- The machine, on runs that hand out new ids. -/
abbrev freshMachine (req : ι → Call (Crud P)) : Interleaving ι (History Db) Phase :=
  (machine req).restrict fun i c _ => Config.Fresh P c i

/-- **Every run is sound**, from any tables that satisfy their constraints. -/
theorem Sound.run (hrun : (freshMachine req).Run c c') (s : Sound req c) : Sound req c' := by
  refine Interleaving.run_local (I := Consistent req) (L := fun i h p => Holds (req i) h p)
    (G := History.Advances) ?_ ?_ ?_ ?_ hrun s.1 s.2
  · intro i d d' hd hL hs
    obtain ⟨⟨⟨hfree, db', hnext, rfl⟩, hfresh⟩⟩ := hs
    obtain ⟨db₂, hpush, e⟩ := Sound.effect ⟨hd, hL⟩ hfresh ⟨hfree, db', hnext, rfl⟩
    obtain rfl : db' = db₂ := congrArg History.now hpush
    exact hd.effect hfree e
  · intro i d d' hd hL hs
    obtain ⟨hs, hfresh⟩ := Interleaving.restrict_stepBy.mp hs
    exact Sound.advances ⟨hd, hL⟩ hfresh hs
  · rintro i d h' p' hd hL ⟨⟨hfree, db', hnext, rfl⟩, hfresh⟩
    obtain ⟨db₂, hpush, e⟩ := Sound.effect ⟨hd, hL⟩ hfresh ⟨hfree, db', hnext, rfl⟩
    obtain rfl : db' = db₂ := congrArg History.now hpush
    exact holds_next (Sound.running ⟨hd, hL⟩ i) hnext e.advances
  · exact fun _ _ _ _ a hp => hp.advance a

theorem Sound.step (s : Sound req c) {i : ι} (hfresh : Config.Fresh P c i)
    (hs : (machine req).StepBy i c c') : Sound req c' :=
  s.run (Interleaving.restrict_stepBy.mpr ⟨hs, hfresh⟩).run

/-- **A sequence hands out new ids only**, so every run counts. -/
theorem Sound.run_of_sequence (hP : P.ids = .sequence) (s : Sound req c)
    (hn : c.shared.Numbered) (hrun : (machine req).Run c c') :
    (freshMachine req).Run c c' ∧ Sound req c' ∧ c'.shared.Numbered := by
  refine Interleaving.Run.restrict (I := fun d => Sound req d ∧ d.shared.Numbered)
    (fun i _ _ hd _ => Config.fresh_of_numbered hP hd.2 i) ?_ hrun ⟨s, hn⟩
  rintro i d d' ⟨hs, hn⟩ hstep
  obtain ⟨hm, hf⟩ := Interleaving.restrict_stepBy.mp hstep
  have hs' : Sound req d' := hs.step hf hm
  refine ⟨hs', ?_⟩
  obtain ⟨hm⟩ := hm
  obtain ⟨db', rfl, e⟩ := hs.effect hf hm
  exact hn.push hs'.1.integrity e.advances.keeps

/-- **What the commit of a run comes to.** -/
theorem Sound.committed (s : Sound req c) {i : ι} {held : Option Bookmark}
    {newTags : Option (List TagRow)} {pending : List TagRow}
    (hphase : c.thread i = .committing held newTags pending) (hs : (machine req).StepBy i c c') :
    Committed (req i) c.shared pending held c'.shared.now (c'.thread i) := by
  obtain ⟨-, db', hnext, hpush⟩ := hs.move_self
  have r := s.running i
  rw [hphase] at r hnext
  rw [hpush]
  exact commit_cases r hnext

end
