import BookmarksApi.Concurrent.Serialization

/-!
# Concurrent/Conflicts — who loses the race

An update or delete whose commit finds another version ends as a conflict.  There is always somebody
who did it: since the row was read, a write of the same bookmark has committed.  And whenever one
has, the commit is a conflict (`conflict_iff_rival`).  So writes of different bookmarks never get in
each other's way, and neither do requests that fail.

What carries the proof is what the others can do to the bookmark that was read: nothing, or a commit
that puts its version behind (`Running.competes`); and a version that is behind does not come back.
-/

variable {P : Platform}

section

variable {call : Call (Crud P)} {h : History Db} {db' : Db} {p p' : Phase}

/-- **What a move does to a bookmark**: it leaves it as it is, or it is the commit of a write of it,
which leaves none or a larger version. -/
theorem Running.competes (r : Running call h p) (u : p.Underway call)
    (hnext : p.next call h.now = some (db', p')) {k : ℤ} {e : Entry}
    (hv : h.now.view k = some e) :
    db'.view k = some e ∧ (call.request.target = some k →
        (p'.HasCommitted call.request ↔ p.HasCommitted call.request)) ∨
      call.request.target = some k ∧ ¬ p.HasCommitted call.request ∧
        p'.HasCommitted call.request ∧ ∀ e', db'.view k = some e' → e.version < e'.version := by
  by_cases hidle : ∀ held newTags pending, p ≠ .committing held newTags pending
  · obtain ⟨hcommitted, hview, -, -⟩ := r.idle u hnext hidle
    exact Or.inl ⟨hview ▸ hv, fun _ => hcommitted⟩
  push Not at hidle
  obtain ⟨held, newTags, pending, rfl⟩ := hidle
  cases commit_cases r hnext with
  | created hreq htags W =>
    -- The new bookmark has an id of its own.
    refine Or.inl ⟨?_, fun hk => ?_⟩
    · rw [W.view, Function.update_of_ne, hv]
      rintro rfl
      cases hv.symm.trans (Db.view_nextId P r.integrity)
    · rw [hreq] at hk
      cases hk
  | @updated row tags payload ifMatch _ hreq hrow htags W =>
    by_cases hk : k = row.id
    · subst hk
      obtain rfl := Option.some.inj (hrow.symm.trans hv)
      refine Or.inr ⟨by rw [hreq]; rfl, id, trivial, fun e' he' => ?_⟩
      obtain rfl := Option.some.inj (W.view_self.symm.trans he')
      exact Nat.lt_succ_self row.version
    · refine Or.inl ⟨by rw [W.view, Function.update_of_ne hk, hv], fun htarget => ?_⟩
      rw [hreq] at htarget
      exact absurd (Option.some.inj htarget).symm hk
  | @deleted row tags ifMatch _ hreq hrow htags W =>
    by_cases hk : k = row.id
    · subst hk
      refine Or.inr ⟨by rw [hreq]; rfl, id, fun i hget => ?_, fun e' he' => ?_⟩
      · cases hreq.symm.trans hget
      · cases W.view_self.symm.trans he'
    · refine Or.inl ⟨by rw [W.view, Function.update_of_ne hk, hv], fun htarget => ?_⟩
      rw [hreq] at htarget
      exact absurd (Option.some.inj htarget).symm hk
  | lost => exact Or.inl ⟨hv, fun _ => iff_of_false id id⟩

/-- **A commit is not taken back.** -/
theorem Phase.HasCommitted.next (r : Running call h p) (u : p.Underway call)
    (hnext : p.next call h.now = some (db', p')) (hp : p.HasCommitted call.request) :
    p'.HasCommitted call.request := by
  rcases r.seen u ⟨r.integrity, rfl, rfl, rfl⟩ hnext with ⟨hcommitted, -⟩ | ⟨-, hp', -⟩
  · exact hcommitted.mpr hp
  · exact hp'

end

/-! ## Runs -/

section

variable {ι : Type*} {req : ι → Call (Crud P)} {c c' c'' : Config ι} {i : ι} {k : ℤ}

/-- **Somebody has committed a write of the bookmark in between.** -/
def Overtaken (req : ι → Call (Crud P)) (k : ℤ) (c c' : Config ι) : Prop :=
  ∃ j, (req j).request.target = some k ∧ ¬ (c.thread j).HasCommitted (req j).request ∧
    (c'.thread j).HasCommitted (req j).request

/-- **What runs keep of a bookmark that was read**: it is as it was, and nobody has committed a
write of it; or somebody has, and its version is over. -/
def Contended (req : ι → Call (Crud P)) (k : ℤ) (e : Entry) (c c' : Config ι) : Prop :=
  c'.shared.now.view k = some e ∧ ¬ Overtaken req k c c' ∨
    Overtaken req k c c' ∧ c'.shared.versioned.Past Entry.version k e.version

variable [DecidableEq ι]

/-- What has committed stays so. -/
theorem Tracked.hasCommitted_step (t : Tracked req c) {j : ι}
    (hs : (freshMachine req).StepBy j c c') :
    ∀ m, (c.thread m).HasCommitted (req m).request →
      (c'.thread m).HasCommitted (req m).request := by
  intro m hm
  obtain ⟨hs, -⟩ := Interleaving.restrict_stepBy.mp hs
  obtain ⟨-, db', hnext, -⟩ := hs.move_self
  by_cases hj : m = j
  · subst hj
    exact hm.next (t.1.running m) (t.2 m) hnext
  · rw [hs.thread_ne hj]
    exact hm

/-- **One move.** -/
theorem Contended.step {e : Entry} (h : Contended req k e c c') (t : Tracked req c')
    (hkept : ∀ m, (c.thread m).HasCommitted (req m).request →
      (c'.thread m).HasCommitted (req m).request) {j : ι}
    (hs : (freshMachine req).StepBy j c' c'') : Contended req k e c c'' := by
  have hlater := t.hasCommitted_step hs
  obtain ⟨hs, hfresh⟩ := Interleaving.restrict_stepBy.mp hs
  obtain ⟨-, db', hnext, hpush⟩ := hs.move_self
  rcases h with ⟨hv, hnone⟩ | ⟨⟨m, htarget, hbefore, hafter⟩, hpast⟩
  · rcases (t.1.running j).competes (t.2 j) hnext hv with
      ⟨hv', hsame⟩ | ⟨htarget, hbefore, hafter, hlarger⟩
    · refine Or.inl ⟨by rw [hpush]; exact hv', ?_⟩
      rintro ⟨m, hm, hnot, hcommitted⟩
      refine hnone ⟨m, hm, hnot, ?_⟩
      by_cases hj : m = j
      · subst hj
        exact (hsame hm).mp hcommitted
      · rwa [hs.thread_ne hj] at hcommitted
    · have hover : Overtaken req k c c'' := ⟨j, htarget, fun h => hbefore (hkept j h), hafter⟩
      have hused : k ∈ c'.shared.versioned.used := ⟨_, c'.shared.now_mem, by rw [hv]; rfl⟩
      refine Or.inr ⟨hover, (t.1.advances hfresh hs).evolves.used hused, fun e' he' => ?_⟩
      rw [hpush] at he'
      exact hlarger e' he'
  · exact Or.inr ⟨⟨m, htarget, hbefore, hlater m hafter⟩,
      (t.1.advances hfresh hs).evolves.past hpast⟩

/-- **A run.** -/
theorem Contended.run {e : Entry} (hrun : (freshMachine req).Run c c') (t : Tracked req c)
    (hv : c.shared.now.view k = some e) : Tracked req c' ∧ Contended req k e c c' := by
  have hstep : ∀ j (d d' : Config ι), (Tracked req d ∧ Contended req k e c d ∧
      ∀ m, (c.thread m).HasCommitted (req m).request →
        (d.thread m).HasCommitted (req m).request) →
      (freshMachine req).StepBy j d d' → Tracked req d' ∧ Contended req k e c d' ∧
      ∀ m, (c.thread m).HasCommitted (req m).request →
        (d'.thread m).HasCommitted (req m).request := by
    rintro j d d' ⟨t, h, hkept⟩ hs
    exact ⟨t.step hs, h.step t hkept hs, fun m hm => t.hasCommitted_step hs m (hkept m hm)⟩
  have hinit : Contended req k e c c := by
    refine Or.inl ⟨hv, ?_⟩
    rintro ⟨m, -, hnot, hcommitted⟩
    exact hnot hcommitted
  obtain ⟨t', h, -⟩ := hrun.invariant hstep ⟨t, hinit, fun _ hm => hm⟩
  exact ⟨t', h⟩

/-- The row a request selects is the one the tables have. -/
theorem Config.view_of_selected {row : BookmarkRow} (hstart : c.thread i = .start)
    (hs : (freshMachine req).StepBy i c c') (hrow : c'.thread i = .rowRead row) :
    ∃ e, c'.shared.now.view row.id = some e ∧ e.row = row := by
  obtain ⟨hs, -⟩ := Interleaving.restrict_stepBy.mp hs
  obtain ⟨-, db', hnext, hpush⟩ := hs.move_self
  rw [hpush, History.push_now]
  rw [hstart, hrow] at hnext
  generalize hp : Phase.rowRead row = p' at hnext
  cases Phase.move_of_next hnext with
  | @found k row' hk hget =>
    obtain rfl := Phase.rowRead.inj hp
    obtain rfl := (Table.get?_eq_some.mp hget).2
    exact ⟨⟨row, _⟩, Db.view_eq_some.mpr ⟨hget, rfl⟩, rfl⟩
  | created =>
    obtain ⟨x, hres⟩ | ⟨newTags, hres⟩ | ⟨ns, -, hres⟩ :=
      Phase.resolve_cases P none (some _) <;> rw [hres] at hp <;> cases hp
  | unbindable => cases hp
  | absent => cases hp

/-- **A write loses its race exactly when it has a rival.**  However the requests interleave: once a
request has read its row, its commit is a conflict if and only if another request has committed a
write of the same bookmark since. -/
theorem conflict_iff_rival {db : Db} (I : db.Integrity) (hreg : ∀ i, db.Registered (req i).user)
    {c₀ c₁ c₂ c₃ : Config ι} (hrun : (freshMachine req).Run (Config.initial db) c₀)
    (hstart : c₀.thread i = .start) (hread : (freshMachine req).StepBy i c₀ c₁)
    {row : BookmarkRow} (hrow : c₁.thread i = .rowRead row)
    (hbetween : (freshMachine req).Run c₁ c₂) {tags : List TagRow}
    {newTags : Option (List TagRow)} {pending : List TagRow}
    (hheld : c₂.thread i = .committing (some (.loaded row tags)) newTags pending)
    (hcommit : (freshMachine req).StepBy i c₂ c₃) :
    c₃.thread i = .conflicted row.id ↔ Overtaken req row.id c₁ c₂ := by
  have hinit : SerialRun req db (Config.initial db) [] := .initial I
  have t₀ : Tracked req c₀ := (Tracked.run hrun (.initial I hreg) hinit).1
  obtain ⟨e, hv, hrow'⟩ := Config.view_of_selected hstart hread hrow
  obtain ⟨t₂, hcontended⟩ := Contended.run hbetween (t₀.step hread) hv
  have hversion : e.version = row.version := congrArg BookmarkRow.version hrow'
  have hholds := t₂.1.2 i
  rw [hheld] at hholds
  obtain ⟨⟨row₂, tags₂, hloaded, l, -⟩, -, -⟩ := hholds
  obtain ⟨rfl, rfl⟩ : row = row₂ ∧ tags = tags₂ := by
    have hstored := congrArg Bookmark.stored hloaded
    have htags := congrArg Bookmark.storedTags hloaded
    exact ⟨hstored, htags⟩
  have hcases := t₂.1.committed hheld (Interleaving.restrict_stepBy.mp hcommit).1
  generalize hb : some (Bookmark.loaded row tags) = held at hcases
  generalize c₃.thread i = p' at hcases ⊢
  generalize c₃.shared.now = db' at hcases
  -- A version that is over is not the one that was loaded.
  have hnever : c₂.shared.now.view row.id = some (Entry.ofRows row tags) →
      ¬ Overtaken req row.id c₁ c₂ := by
    intro hnow hover
    rcases hcontended with ⟨-, hnone⟩ | ⟨-, -, hlarger⟩
    · exact hnone hover
    · exact absurd hversion (hlarger _ hnow).ne
  cases hcases with
  | created => cases hb
  | updated hreq hnow =>
    cases hb
    exact iff_of_false nofun (hnever hnow)
  | deleted hreq hnow =>
    cases hb
    exact iff_of_false nofun (hnever hnow)
  | lost hnow =>
    cases hb
    refine iff_of_true rfl ?_
    rcases hcontended with ⟨hsame, -⟩ | ⟨hover, -⟩
    · rcases l.current e hsame with rfl | hlt
      · exact absurd hsame hnow
      · exact absurd hversion hlt.ne'
    · exact hover

end

/-- Both updates load version 1; the one for its ETag commits, and the other has its rival. -/
theorem conflict_iff_rival_race : ∃ c₁ c₂ c₃ : Config (Fin 3),
    c₁.thread 2 = .rowRead raceRow ∧ c₃.thread 2 = .conflicted 1 ∧
      Overtaken raceRequests 1 c₁ c₂ := by
  let C : Fin 3 → Config (Fin 3) → History Db → Prop :=
    fun i c _ => Config.Fresh .autoincrement c i
  obtain ⟨c₀, c₁, c₂, hrun, hread, hbetween, hc⟩ := Config.exists_run raceRequests C
    (.initial Db.twoAccounts) [0, 0] 2 [1, 1, 1, 2] (fun c₀ c₁ c₂ => decide
      (c₀.thread 2 = .start ∧ c₁.thread 2 = .rowRead raceRow ∧
        c₂.thread 2 = .committing (some (.loaded raceRow [])) none [] ∧
        ((Interleaving.perform (Config.next raceRequests) C 2 c₂).map fun c₃ => c₃.thread 2)
          = some (.conflicted 1))) (by decide +kernel)
  obtain ⟨hstart, hrow, hheld, hlost⟩ := of_decide_eq_true hc
  obtain ⟨c₃, hperform, hconflict⟩ := Option.map_eq_some_iff.mp hlost
  have hcommit := Interleaving.perform_stepBy (fun _ _ _ _ => Config.move_of_next) hperform
  refine ⟨c₁, c₂, c₃, hrow, hconflict, ?_⟩
  exact (conflict_iff_rival Db.integrity_twoAccounts (by decide +kernel) hrun hstart hread hrow
    hbetween hheld hcommit).mp hconflict
