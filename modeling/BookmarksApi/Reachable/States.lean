import BookmarksApi.Concurrent.Flush
import BookmarksApi.Concurrent.Invariant
import BookmarksApi.Sequential.TagStore
import BookmarksApi.Services.Auth

/-!
# Reachable/States — the states that the service can reach

From an empty database, by registrations, by requests one after another, and by requests
interleaved statement by statement in runs that hand out no bookmark id twice (`freshMachine`).  Two
things hold in all of them: the constraints, and that tags are stored under normal names
(`Reachable.stored`).
-/

/-- **The states that the service can reach.** -/
inductive Reachable (P : Platform) : Db → Prop
  | empty : Reachable P (.accounts Table.empty)
  | registered {db db' : Db} {now : ℤ} {username email passwordHash : Str} {user : UserRow}
      (hdb : Reachable P db)
      (h : AuthService.register P now db username email passwordHash = .ok (db', user)) :
      Reachable P db'
  | answered {db : Db} (hdb : Reachable P db) (call : Call (Request P)) :
      Reachable P (Routers.respond db call).2
  | interleaved {db : Db} {n : ℕ} {req : Fin n → Call (Crud P)} {c : Config (Fin n)}
      (hdb : Reachable P db) (hreg : ∀ i, db.Registered (req i).user)
      (hrun : (freshMachine req).Run (Config.initial db) c) : Reachable P c.shared.now

variable {P : Platform}

/-- Tags are stored under normal names. -/
def Db.NormalNames (P : Platform) (db : Db) : Prop := ∀ t ∈ db.tags.rows, NormalName P t.name

/-- New tags get the names that were given. -/
theorem Db.NormalNames.tagsFrom {db db' : Db} {names : List Str} (hdb : db.NormalNames P)
    (h : db.TagsFrom names db') (hnames : ∀ name ∈ names, NormalName P name) :
    db'.NormalNames P := by
  intro t ht
  obtain ht | hname := h t ht
  · exact hdb t ht
  · exact hnames _ hname

/-! ## Interleaved requests -/

/-- The names that a request is about to insert, and has inserted, are normal. -/
def Phase.NormalNames (P : Platform) : Phase → Prop
  | .lookup _ names => ∀ name ∈ names, NormalName P name
  | .resolving _ _ todo _ pending =>
    (∀ name ∈ todo, NormalName P name) ∧ ∀ t ∈ pending, NormalName P t.name
  | .committing _ _ pending => ∀ t ∈ pending, NormalName P t.name
  | _ => True

section

variable {call : Call (Crud P)} {db db' : Db} {p p' : Phase}

theorem Phase.normalNames_resolve (held : Option Bookmark) (names : Option (List Str)) :
    (resolve P held names).NormalNames P := by
  obtain ⟨x, hp⟩ | ⟨newTags, hp⟩ | ⟨ns, hnorm, hp⟩ := resolve_cases P held names <;> rw [hp]
  · trivial
  · exact fun t ht => absurd ht List.not_mem_nil
  · exact fun name hname => hnorm.normalName hname

/-- A commit brings in the tags of its transaction. -/
theorem Phase.mem_tags_of_commit {held : Option Bookmark} {newTags : Option (List TagRow)}
    {pending : List TagRow} (h : commit call db newTags pending held = some (db', p')) {t : TagRow}
    (ht : t ∈ db'.tags.rows) : t ∈ db.tags.rows ∨ t ∈ pending := by
  have hinserted : (db.addTags pending).SameTags db' → t ∈ db.tags.rows ∨ t ∈ pending :=
    fun hsame => Table.mem_insertAll (congrArg Table.rows hsame.tags ▸ ht)
  cases ended_of_commit h with
  | saved _ hsame => exact hinserted hsame
  | deleted _ hsame => exact hinserted hsame
  | _ => exact Or.inl ht

/-- **One move.** -/
theorem Phase.NormalNames.next (hdb : db.NormalNames P) (hp : p.NormalNames P)
    (hnext : p.next call db = some (db', p')) : db'.NormalNames P ∧ p'.NormalNames P := by
  cases Phase.move_of_next hnext with
  | created => exact ⟨hdb, normalNames_resolve _ _⟩
  | updating => exact ⟨hdb, normalNames_resolve _ _⟩
  | deleting => exact ⟨hdb, fun t ht => absurd ht List.not_mem_nil⟩
  | lookedUp => exact ⟨hdb, hp, fun t ht => absurd ht List.not_mem_nil⟩
  | resolved => exact ⟨hdb, hp.2⟩
  | reused => exact ⟨hdb, (List.forall_mem_cons.mp hp.1).2, hp.2⟩
  | inserted =>
    obtain ⟨hname, htodo⟩ := List.forall_mem_cons.mp hp.1
    refine ⟨hdb, htodo, fun t ht => ?_⟩
    obtain ht | ht := List.mem_append.mp ht
    · exact hp.2 t ht
    · rw [List.mem_singleton.mp ht]
      exact hname
  | committed hcommit =>
    refine ⟨fun t ht => (mem_tags_of_commit hcommit ht).elim (hdb t) (hp t), ?_⟩
    cases ended_of_commit hcommit with
    | _ => trivial
  | _ => exact ⟨hdb, trivial⟩

/-- **A run.** -/
theorem Db.NormalNames.run {ι : Type*} [DecidableEq ι] {req : ι → Call (Crud P)} {c : Config ι}
    (hdb : db.NormalNames P) (hrun : (machine req).Run (Config.initial db) c) :
    c.shared.now.NormalNames P := by
  have hstep : ∀ i (c c' : Config ι),
      (c.shared.now.NormalNames P ∧ ∀ j, (c.thread j).NormalNames P) →
        (machine req).StepBy i c c' →
          c'.shared.now.NormalNames P ∧ ∀ j, (c'.thread j).NormalNames P := by
    rintro i c c' ⟨hnow, hthreads⟩ hs
    obtain ⟨-, db', hnext, hpush⟩ := hs.move_self
    obtain ⟨hnow', hthread⟩ := (hthreads i).next hnow hnext
    exact ⟨hpush ▸ hnow', hs.forall_thread hthread fun j _ => hthreads j⟩
  exact (Interleaving.Run.invariant hstep hrun ⟨hdb, fun _ => trivial⟩).1

end

/-! ## All states -/

/-- A registration brings in no bookmark, link or tag. -/
theorem AuthService.register_keeps {now : ℤ} {db db' : Db} {username email passwordHash : Str}
    {user : UserRow} (I : db.Integrity)
    (h : register P now db username email passwordHash = .ok (db', user)) :
    db'.Integrity ∧ ∃ users, db' = { db with users } := by
  rw [register] at h
  split_ifs at h
  obtain ⟨⟨db₁, user₁⟩, hinsert, h⟩ := Except.exists_of_bind_eq_ok h
  obtain ⟨user₂, -, h⟩ := Except.exists_of_bind_eq_ok h
  cases h
  refine ⟨(Db.insertUser_spec I hinsert).1, ?_⟩
  rw [Db.insertUser] at hinsert
  split_ifs at hinsert
  split at hinsert
  · cases hinsert
  · cases hinsert
    exact ⟨_, rfl⟩

/-- **What every reachable state keeps.** -/
theorem Reachable.stored {db : Db} (h : Reachable P db) : db.Integrity ∧ db.NormalNames P := by
  induction h with
  | empty =>
    exact ⟨Db.integrity_accounts List.nodup_nil List.nodup_nil,
      fun t ht => absurd ht List.not_mem_nil⟩
  | registered hdb h ih =>
    obtain ⟨I, users, rfl⟩ := AuthService.register_keeps ih.1 h
    exact ⟨I, ih.2⟩
  | @answered db hdb call ih =>
    refine ⟨(Routers.respond_keeps ih.1 call).1, ?_⟩
    obtain ⟨user, now, c | query | _⟩ := call
    · refine ih.2.tagsFrom (Routers.tagsFrom_respondCrud db ⟨user, now, c⟩) fun name hname => ?_
      rcases hnames : c.names with _ | names
      · rw [hnames] at hname
        cases hname
      · rw [hnames] at hname
        exact (Crud.normalized_names hnames).normalName hname
    · rw [Routers.respond_list]
      exact ih.2
    · rw [Routers.respond_stats]
      exact ih.2
  | interleaved hdb hreg hrun ih =>
    exact ⟨(Sound.run hrun (.initial ih.1 hreg)).1.integrity,
      ih.2.run (Interleaving.run_of_restrict hrun)⟩
