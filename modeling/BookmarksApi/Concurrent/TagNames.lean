import BookmarksApi.Concurrent.Serialization
import BookmarksApi.Concurrent.TagRaces

/-!
# Concurrent/TagNames — which tags there are

Tags are shared by all users, inserted ahead of the commit, and never removed.  What a request has
inserted is of its own names (`Wanted`), and its commit finds a row for each of them, its own or one
that another commit brought in.  So the table holds the tags it had, as they were, and one more for
each new name of a request that has committed (`tags_exact`): none is left by a request that failed
or lost its race, and none is there twice.
-/

variable {P : Platform}

section

variable {call : Call (Crud P)} {h : History Db} {db' : Db} {p p' : Phase}

/-- A name that the request gives its bookmark. -/
def Crud.Names (c : Crud P) (name : Str) : Prop := ∃ names, c.names = some names ∧ name ∈ names

/-- **A transaction inserts tags of its own names.** -/
def Wanted (call : Call (Crud P)) (p : Phase) : Prop := ∀ t ∈ p.pending, call.request.Names t.name

/-- **Its moves keep to that.** -/
theorem Wanted.next (r : Running call h p) (w : Wanted call p)
    (hnext : p.next call h.now = some (db', p')) : Wanted call p' := by
  have hnone : p'.pending = [] → Wanted call p' := fun hp t ht => by
    rw [hp] at ht
    cases ht
  cases Phase.move_of_next hnext with
  | created => exact hnone (Phase.pending_resolve _ _)
  | updating => exact hnone (Phase.pending_resolve _ _)
  | resolved => exact w
  | reused => exact w
  | @inserted held byName result pending name todo =>
    obtain ⟨-, hnames, -, -⟩ := r.holds
    intro t ht
    rcases List.mem_append.mp ht with ht | ht
    · exact w t ht
    · obtain rfl := List.mem_singleton.mp ht
      exact ⟨_, hnames, List.mem_append_right _ List.mem_cons_self⟩
  | committed hcommit =>
    cases commit_cases r hcommit with
    | _ => exact hnone rfl
  | _ => exact hnone rfl

/-- **What a move does to the tags**: nothing, and commits nothing; or it commits, and the request's
names are then in the table, its own tags among them. -/
theorem Running.tags (r : Running call h p) (u : p.Underway call)
    (hnext : p.next call h.now = some (db', p')) :
    (p'.HasCommitted call.request ↔ p.HasCommitted call.request) ∧
        db'.tags.rows = h.now.tags.rows ∨
      p'.HasCommitted call.request ∧ db'.tags.rows = h.now.tags.rows ++ p.pending ∧
        ∀ name, call.request.Names name → name ∈ db'.tags.rows.map TagRow.name := by
  by_cases hidle : ∀ held newTags pending, p ≠ .committing held newTags pending
  · refine Or.inl ⟨(r.idle u hnext hidle).1, ?_⟩
    cases Phase.move_of_next hnext with
    | committed => exact absurd rfl (hidle _ _ _)
    | _ => rfl
  push Not at hidle
  obtain ⟨held, newTags, pending, rfl⟩ := hidle
  obtain ⟨-, hnames, hts⟩ := r.holds
  -- The names have been resolved, to rows that are committed or its own.
  have hresolved : db'.tags.rows = h.now.tags.rows ++ pending →
      ∀ name, call.request.Names name → name ∈ db'.tags.rows.map TagRow.name := by
    rintro htags name ⟨names, hrequest, hname⟩
    rw [← hnames] at hrequest
    obtain ⟨ts, rfl, rfl⟩ := Option.map_eq_some_iff.mp hrequest
    obtain ⟨t, ht, rfl⟩ := List.mem_map.mp hname
    rw [htags]
    exact List.mem_map_of_mem (List.mem_append.mpr (hts ts rfl t ht))
  cases commit_cases r hnext with
  | created hreq htags => exact Or.inr ⟨trivial, htags, hresolved htags⟩
  | updated hreq hv htags => exact Or.inr ⟨trivial, htags, hresolved htags⟩
  | deleted hreq hv htags =>
    refine Or.inr ⟨fun k hget => ?_, htags, hresolved htags⟩
    cases hreq.symm.trans hget
  | lost => exact Or.inl ⟨iff_of_false id id, rfl⟩

end

/-! ## Runs -/

section

variable {ι : Type*} {req : ι → Call (Crud P)} {c c' : Config ι} {i : ι} {db : Db}

/-- A request that has committed gives a bookmark this name. -/
def Config.Committed (req : ι → Call (Crud P)) (c : Config ι) (name : Str) : Prop :=
  ∃ i, (c.thread i).HasCommitted (req i).request ∧ (req i).request.Names name

/-- What every run keeps. -/
structure TagsOf (req : ι → Call (Crud P)) (db : Db) (c : Config ι) : Prop where
  tracked : Tracked req c
  wanted : ∀ i, Wanted (req i) (c.thread i)
  rows : db.tags.rows <+: c.shared.now.tags.rows
  mem_iff : ∀ name, name ∈ c.shared.now.tags.rows.map TagRow.name ↔
    name ∈ db.tags.rows.map TagRow.name ∨ c.Committed req name

variable [DecidableEq ι]

theorem TagsOf.step (g : TagsOf req db c) (hs : (freshMachine req).StepBy i c c') :
    TagsOf req db c' := by
  have t' := g.tracked.step hs
  obtain ⟨hs, -⟩ := Interleaving.restrict_stepBy.mp hs
  obtain ⟨-, db', hnext, hpush⟩ := hs.move_self
  have r := g.tracked.1.running i
  have hwanted : ∀ j, Wanted (req j) (c'.thread j) :=
    hs.forall_thread ((g.wanted i).next r hnext) fun j _ => g.wanted j
  have hother : ∀ {name j}, j ≠ i → ((c'.thread j).HasCommitted (req j).request ∧
      (req j).request.Names name ↔
      (c.thread j).HasCommitted (req j).request ∧ (req j).request.Names name) := fun hj => by
    rw [hs.thread_ne hj]
  rcases r.tags (g.tracked.2 i) hnext with ⟨hiff, htags⟩ | ⟨hafter, htags, hresolved⟩
  · refine ⟨t', hwanted, ?_, fun name => ?_⟩
    · rw [hpush]
      exact htags.symm ▸ g.rows
    · rw [hpush, History.push_now, htags, g.mem_iff]
      refine or_congr_right (exists_congr fun j => ?_)
      by_cases hj : j = i
      · subst hj
        rw [hiff]
      · exact (hother hj).symm
  · refine ⟨t', hwanted, ?_, fun name => ?_⟩
    · rw [hpush, History.push_now, htags]
      exact g.rows.trans (List.prefix_append _ _)
    rw [hpush, History.push_now]
    constructor
    · rw [htags, List.map_append, List.mem_append, g.mem_iff, or_assoc]
      refine Or.imp_right ?_
      rintro (⟨j, hj⟩ | hmem)
      · by_cases hji : j = i
        · subst hji
          exact ⟨j, hafter, hj.2⟩
        · exact ⟨j, (hother hji).mpr hj⟩
      · obtain ⟨t, ht, rfl⟩ := List.mem_map.mp hmem
        exact ⟨i, hafter, g.wanted i t ht⟩
    · have hbefore : name ∈ c.shared.now.tags.rows.map TagRow.name →
          name ∈ db'.tags.rows.map TagRow.name := fun hmem => by
        rw [htags, List.map_append]
        exact List.mem_append_left _ hmem
      rintro (hmem | ⟨j, hj⟩)
      · exact hbefore ((g.mem_iff name).mpr (Or.inl hmem))
      · by_cases hji : j = i
        · subst hji
          exact hresolved name hj.2
        · exact hbefore ((g.mem_iff name).mpr (Or.inr ⟨j, (hother hji).mp hj⟩))

/-- **The tags are exact.**  However the requests interleave, the tags that were there stay as they
were, and one is added for each new name of a request that has committed, and for no other name. -/
theorem tags_exact (I : db.Integrity) (hreg : ∀ i, db.Registered (req i).user)
    (hrun : (freshMachine req).Run (Config.initial db) c) :
    ∃ added : List TagRow, c.shared.now.tags.rows = db.tags.rows ++ added ∧
      (added.map TagRow.name).Nodup ∧
      ∀ name, name ∈ added.map TagRow.name ↔
        name ∉ db.tags.rows.map TagRow.name ∧ c.Committed req name := by
  have hinit : TagsOf req db (Config.initial db) :=
    ⟨.initial I hreg, fun _ _ ht => absurd ht List.not_mem_nil, List.prefix_rfl, fun name =>
      ⟨Or.inl, fun h => h.resolve_right (by rintro ⟨i, hcommitted, -⟩; exact hcommitted)⟩⟩
  have g : TagsOf req db c :=
    hrun.invariant (I := TagsOf req db) (fun _ _ _ g hs => g.step hs) hinit
  obtain ⟨added, hadded⟩ := g.rows
  have hnodup := g.tracked.1.1.integrity.tagName
  have hmem := g.mem_iff
  simp only [← hadded, List.map_append, List.nodup_append, List.mem_append] at hnodup hmem
  refine ⟨added, hadded.symm, hnodup.2.1, fun name => ⟨fun hname => ?_, fun hname => ?_⟩⟩
  · have hnew : name ∉ db.tags.rows.map TagRow.name := fun hold =>
      hnodup.2.2 name hold name hname rfl
    exact ⟨hnew, ((hmem name).mp (Or.inr hname)).resolve_left hnew⟩
  · exact ((hmem name).mpr (Or.inr hname.2)).resolve_left hname.1

end

/-- Of two creates with the same new tag one fails, and the tag is there once, for the other. -/
theorem tags_exact_twoTagged : ∃ (c : Config (Fin 2)) (added : List TagRow),
    c.thread 1 = .done (.error .integrityError) ∧ c.Committed twoTagged "x".toList ∧
      c.shared.now.tags.rows = added ∧ (added.map TagRow.name).Nodup ∧
      ∀ name, name ∈ added.map TagRow.name ↔ c.Committed twoTagged name := by
  obtain ⟨c, -, -, hrun, -, -, hc⟩ := Config.exists_run twoTagged
    (fun i c _ => Config.Fresh .sqlite c i) (.initial Db.twoAccounts) [0, 0, 1, 1, 0, 0, 0, 1] 0 []
    (fun c _ _ => decide (c.thread 0 = .refreshing 1 ∧
      c.thread 1 = .done (.error .integrityError))) (by decide +kernel)
  obtain ⟨hzero, hone⟩ := of_decide_eq_true hc
  have hcommitted : Config.Committed twoTagged c "x".toList := by
    refine ⟨0, ?_, _, rfl, List.mem_singleton_self _⟩
    rw [hzero]
    trivial
  obtain ⟨added, hrows, hnodup, hmem⟩ :=
    tags_exact Db.integrity_twoAccounts (by decide +kernel) hrun
  exact ⟨c, added, hone, hcommitted, hrows, hnodup, fun name =>
    (hmem name).trans (and_iff_right List.not_mem_nil)⟩
