import BookmarksApi.Concurrent.TagRaces

/-!
# Concurrent/LockOrder — waiting in a circle for each other's tags

`get_or_create` inserts the missing names one at a time, in the order in which the client listed
them, and keeps each name to itself until the commit.  So a request that waits for another's name
has to insert it before some name of the other's, and a circle of waits goes round a circle of
names.  Where the names to insert are listed in an order without circles, nobody waits in one
(`no_lock_cycle`); two lists the other way round do lock (`lock_cycle`).
-/

variable {P : Platform} {ι : Type*}

/-- **Nobody waits in a circle**, in any state that a run reaches. -/
def NoLockCycle [DecidableEq ι] (M : Interleaving ι (History Db) Phase) (db : Db) : Prop :=
  ∀ c i, M.Run (Config.initial db) c → ¬ Relation.TransGen (Config.WaitsFor c) i i

/-- **A lookup that finds its missing names listed in an order.** -/
def Config.ListsInOrder (precedes : Str → Str → Prop) (i : ι) (c : Config ι) (_ : History Db) :
    Prop :=
  ∀ held names, c.thread i = .lookup held names →
    (names.filter fun n => n ∉ c.shared.now.tags.rows.map TagRow.name).Pairwise precedes

variable {precedes : Str → Str → Prop} {call : Call (Crud P)} {db db' : Db} {p p' : Phase}

/-! ## One request -/

namespace Phase

/-- What is inserted and what is yet to be, in order. -/
def InOrder (precedes : Str → Str → Prop) (p : Phase) : Prop :=
  (p.pending.map TagRow.name ++ p.missing).Pairwise precedes

/-- Nothing inserted, nothing to insert. -/
theorem inOrder_of_eq_nil (hpending : p.pending = []) (hmissing : p.missing = []) :
    InOrder precedes p := by
  rw [InOrder, hpending, hmissing]
  exact .nil

theorem missing_resolve (held : Option Bookmark) (names : Option (List Str)) :
    (resolve P held names).missing = [] := by
  obtain ⟨x, hp⟩ | ⟨newTags, hp⟩ | ⟨ns, -, hp⟩ := resolve_cases P held names <;> rw [hp] <;> rfl

/-- A commit leaves nothing to insert. -/
theorem inOrder_commit {held : Option Bookmark} {newTags : Option (List TagRow)}
    {pending : List TagRow} (h : commit call db newTags pending held = some (db', p')) :
    InOrder precedes p' := by
  have hfew := rank_commit h
  cases p' with
  | resolving held byName todo result pending => simp [rank] at hfew
  | committing held newTags pending => simp [rank] at hfew
  | _ => exact inOrder_of_eq_nil rfl rfl

/-- What a lookup does not find is missing. -/
theorem missing_lookup (held : Option Bookmark) (names : List Str) :
    (resolving held (TagRepository.existing db names) names [] []).missing
      = names.filter fun n => n ∉ db.tags.rows.map TagRow.name := by
  refine List.filter_congr fun n hn => ?_
  have hfound : n ∈ (TagRepository.existing db names).map TagRow.name
      ↔ n ∈ db.tags.rows.map TagRow.name := by
    simp only [TagRepository.existing, List.mem_map, List.mem_filter, decide_eq_true_eq]
    exact ⟨fun ⟨t, ⟨ht, _⟩, hname⟩ => ⟨t, ht, hname⟩,
      fun ⟨t, ht, hname⟩ => ⟨t, ⟨ht, hname ▸ hn⟩, hname⟩⟩
  exact decide_eq_decide.mpr (not_congr hfound)

/-- **A statement keeps the order**, once the lookup has found one. -/
theorem InOrder.next (h : InOrder precedes p)
    (hlookup : ∀ held names, p = .lookup held names →
      (names.filter fun n => n ∉ db.tags.rows.map TagRow.name).Pairwise precedes)
    (hnext : p.next call db = some (db', p')) : InOrder precedes p' := by
  cases move_of_next hnext with
  | created => exact inOrder_of_eq_nil (pending_resolve _ _) (missing_resolve _ _)
  | updating => exact inOrder_of_eq_nil (pending_resolve _ _) (missing_resolve _ _)
  | lookedUp =>
    rw [InOrder, missing_lookup]
    exact hlookup _ _ rfl
  | resolved => exact h
  | @reused _ byName _ pending name todo tag htag hname =>
    have hfound : name ∈ byName.map TagRow.name := List.mem_map.mpr ⟨tag, htag, hname⟩
    rw [InOrder, missing, List.filter_cons_of_neg (by simpa using hfound)] at h
    exact h
  | @inserted _ byName _ pending name todo hmissing hnew =>
    rw [InOrder, missing, List.filter_cons_of_pos (by simpa using hmissing)] at h
    refine h.sublist ?_
    simp only [Phase.pending, missing, List.map_append, List.map_cons, List.map_nil,
      List.append_assoc, List.singleton_append]
    refine List.Sublist.append_left (List.Sublist.cons_cons name ?_) _
    -- The name itself, should it be listed again, is missing no more.
    refine List.monotone_filter_right todo fun n hn => ?_
    simp only [List.mem_cons, not_or, Bool.decide_and, Bool.and_eq_true] at hn
    exact hn.2
  | committed hcommit => exact inOrder_commit hcommit
  | _ => exact inOrder_of_eq_nil rfl rfl

/-- What is about to be inserted comes after what is inserted. -/
theorem InOrder.inserting (h : InOrder precedes p) {n m : Str}
    (hn : n ∈ p.pending.map TagRow.name) (hm : m ∈ p.inserting) : precedes n m := by
  cases p with
  | resolving held byName todo result pending =>
    cases todo with
    | nil => cases hm
    | cons name todo =>
      by_cases hfound : name ∈ byName.map TagRow.name
      · rw [Phase.inserting, if_pos hfound] at hm
        cases hm
      · rw [Phase.inserting, if_neg hfound] at hm
        obtain rfl := Option.some.inj hm
        exact (List.pairwise_append.mp h).2.2 n hn name (mem_missing hfound)
  | _ => cases hm

end Phase

/-! ## A circle of waits -/

section

variable {c : Config ι}

/-- **Down a chain of waits the names go up.** -/
theorem Config.names_of_waits (h : ∀ i, (c.thread i).InOrder precedes) {i j : ι}
    (hwaits : Relation.TransGen (Config.WaitsFor c) i j) :
    ∀ m ∈ (c.thread j).inserting, ∃ n ∈ (c.thread i).inserting,
      Relation.TransGen precedes n m := by
  have hstep : ∀ {i j}, Config.WaitsFor c i j → ∀ m ∈ (c.thread j).inserting,
      ∃ n ∈ (c.thread i).inserting, precedes n m := by
    rintro i j ⟨-, n, hn, hpending⟩ m hm
    exact ⟨n, hn, (h j).inserting hpending hm⟩
  induction hwaits with
  | single hw =>
    intro m hm
    obtain ⟨n, hn, hlt⟩ := hstep hw m hm
    exact ⟨n, hn, .single hlt⟩
  | tail _ hw ih =>
    intro m hm
    obtain ⟨k, hk, hlt⟩ := hstep hw m hm
    obtain ⟨n, hn, hlt'⟩ := ih k hk
    exact ⟨n, hn, hlt'.tail hlt⟩

/-- Who waits is about to insert a name. -/
theorem Config.inserting_of_waits {i j : ι} (h : Relation.TransGen (Config.WaitsFor c) i j) :
    ∃ n, n ∈ (c.thread i).inserting := by
  obtain ⟨k, ⟨-, n, hn, -⟩, -⟩ := Relation.TransGen.head'_iff.mp h
  exact ⟨n, hn⟩

variable [DecidableEq ι] {req : ι → Call (Crud P)}

/-- **Over every run whose lookups find their missing names in one order, however many requests,
nobody waits in a circle.** -/
theorem no_lock_cycle (hacyclic : ∀ n, ¬ Relation.TransGen precedes n n) (db : Db) :
    NoLockCycle ((machine req).restrict (Config.ListsInOrder precedes)) db := by
  intro c i hrun hcycle
  have hordered : ∀ j, (c.thread j).InOrder precedes := by
    refine Interleaving.Run.invariant
      (I := fun c : Config ι => ∀ j, (c.thread j).InOrder precedes) ?_ hrun
      fun j => Phase.inOrder_of_eq_nil rfl rfl
    intro i d d' hd hs
    obtain ⟨hs, hlists⟩ := Interleaving.restrict_stepBy.mp hs
    obtain ⟨-, db', hnext, -⟩ := hs.move_self
    exact hs.forall_thread ((hd i).next hlists hnext) fun j _ => hd j
  obtain ⟨m, hm⟩ := Config.inserting_of_waits hcycle
  obtain ⟨n, hn, hlt⟩ := Config.names_of_waits hordered hcycle m hm
  obtain rfl : n = m := Option.some.inj (hn.symm.trans hm)
  exact hacyclic n hlt

/-! ## Lists in one order -/

/-- The names a request looks up are those it asks for. -/
def Phase.Asks (call : Call (Crud P)) (p : Phase) : Prop :=
  ∀ held names, p = .lookup held names → call.request.names = some names

theorem Phase.asks_resolve {held : Option Bookmark} {names : Option (List Str)}
    (hnames : call.request.names = names) : (Phase.resolve P held names).Asks call := by
  intro held' names' heq
  obtain ⟨rfl, hp⟩ | ⟨rfl, hp⟩ | ⟨ns, rfl, hp⟩ := resolve_names held hnames <;> rw [hp] at heq
  · cases heq
  · cases heq
  · cases heq
    exact hnames

theorem Phase.Asks.next (hnext : p.next call db = some (db', p')) : p'.Asks call := by
  cases Phase.move_of_next hnext with
  | created hreq => exact asks_resolve (by rw [hreq]; rfl)
  | updating hreq => exact asks_resolve (by rw [hreq, Routers.changesOf_tags]; rfl)
  | committed hcommit =>
    rintro held names rfl
    have hfew := rank_commit hcommit
    simp [rank] at hfew
  | _ =>
    intro held names heq
    cases heq

/-- **Requests that list their names in one order look them up in that order**, in every run. -/
theorem run_listsInOrder
    (hlists : ∀ i names, (req i).request.names = some names → names.Pairwise precedes) {db : Db}
    (hrun : (machine req).Run (Config.initial db) c) :
    ((machine req).restrict (Config.ListsInOrder precedes)).Run (Config.initial db) c := by
  refine (Interleaving.Run.restrict (I := fun c : Config ι => ∀ i, (c.thread i).Asks (req i))
    (fun i d d' hd _ held names hphase => ?_) (fun i d d' hd hs => ?_) hrun
    fun _ _ _ heq => by cases heq).1
  · exact (hlists i names (hd i held names hphase)).sublist List.filter_sublist
  · obtain ⟨hs, -⟩ := Interleaving.restrict_stepBy.mp hs
    obtain ⟨-, db', hnext, -⟩ := hs.move_self
    exact hs.forall_thread (.next hnext) fun j _ => hd j

end

/-! ## Two lists -/

theorem normalizeTags_xy :
    normalizeTags .autoincrement ["x".toList, "y".toList] = .ok ["x".toList, "y".toList] := by
  decide +kernel

theorem normalizeTags_yx :
    normalizeTags .autoincrement ["y".toList, "x".toList] = .ok ["y".toList, "x".toList] := by
  decide +kernel

/-- Alice and Bob create bookmarks with the same two tags; Bob may list them the other way round. -/
def twoLists (turned : Bool) : Fin 2 → Call (Crud .autoincrement)
  | 0 => ⟨1, 0, .create (.listing ["x".toList, "y".toList] normalizeTags_xy)⟩
  | 1 => ⟨2, 0, .create (if turned
      then .listing ["y".toList, "x".toList] normalizeTags_yx
      else .listing ["x".toList, "y".toList] normalizeTags_xy)⟩

/-- Listed in the same order, they never lock. -/
theorem no_lock_cycle_twoLists : NoLockCycle (machine (twoLists false)) Db.twoAccounts := by
  have hlists : ∀ i names, (twoLists false i).request.names = some names →
      names.Pairwise fun n m => n = "x".toList ∧ m = "y".toList := by
    have hsame : ∀ i, (twoLists false i).request.names = some ["x".toList, "y".toList] := by
      decide
    intro i names hnames
    obtain rfl := Option.some.inj ((hsame i).symm.trans hnames)
    decide
  refine fun c i hrun => no_lock_cycle (fun n h => ?_) Db.twoAccounts c i
    (run_listsInOrder hlists hrun)
  obtain ⟨m, ⟨hx, -⟩, -⟩ := Relation.TransGen.head'_iff.mp h
  obtain ⟨m', -, -, hy⟩ := Relation.TransGen.tail'_iff.mp h
  exact absurd (hx.symm.trans hy) (by decide)

/-- **Two creates that list the same new tags the other way round wait for each other.** -/
theorem lock_cycle : ¬ NoLockCycle (machine (twoLists true)) Db.twoAccounts := by
  obtain ⟨c₁, c₂, c₃, hrun, hstep, hrun', hc⟩ := Config.exists_run (twoLists true)
    (fun _ _ _ => True) (.initial Db.twoAccounts) [0, 0, 1, 1, 0] 1 [] (fun _ _ c => decide
      ((c.thread 0).inserting = some "y".toList ∧ (c.thread 1).inserting = some "x".toList ∧
        "x".toList ∈ (c.thread 0).pending.map TagRow.name ∧
        "y".toList ∈ (c.thread 1).pending.map TagRow.name)) (by decide +kernel)
  obtain ⟨hy, hx, hx', hy'⟩ := of_decide_eq_true hc
  have hall := Interleaving.run_of_restrict (hrun.trans (hstep.run.trans hrun'))
  have h₀ : Config.WaitsFor c₃ 0 1 := ⟨by decide, _, hy, hy'⟩
  have h₁ : Config.WaitsFor c₃ 1 0 := ⟨by decide, _, hx, hx'⟩
  exact fun h => h c₃ 0 hall (.tail (.single h₀) h₁)
