import BookmarksApi.Concurrent.Flush
import BookmarksApi.Concurrent.Moves
import BookmarksApi.Concurrent.Registration

/-!
# Concurrent/Rollback — failed requests leave no trace

All the requests that write, registrations among them, interleaved over one database
(`service`).  Tags are inserted one flush at a time and published by the commit, so a request that
fails has to take back what it has inserted: the repository rolls back when a commit loses its race,
and elsewhere closing the session does (`Phase.fst_commit`).  Either way no tag it inserted is ever
committed, by it or by anybody else (`failed_writes_leave_no_trace`).

An uncommitted tag is known by its name, whatever number the database gives it: while it is
uncommitted, the unique index keeps every other transaction from inserting the same name (`Apart`).
-/

variable {P : Platform}

/-! ## The machine -/

/-- A request that may write. -/
inductive WriteRequest (P : Platform)
  | crud (call : Call (Crud P))
  | register (r : Registration)

/-- How far one has come. -/
inductive Writing
  | crud (p : Phase)
  | register (p : Registering)
  deriving DecidableEq

namespace Writing

/-- The tags inserted and not committed. -/
def pending : Writing → List TagRow
  | crud p => p.pending
  | register _ => []

/-- The name whose `INSERT` is the next statement. -/
def inserting : Writing → Option Str
  | crud p => p.inserting
  | register _ => none

/-- What it has raised. -/
def raised : Writing → Option Exc
  | crud (.done (.error x)) => some x
  | register (.done (.error x)) => some x
  | _ => none

/-- **Failed at or before the commit**: with any error but that of the `refresh` that follows it. -/
def Failed (p : Writing) : Prop := ∃ x, p.raised = some x ∧ x ≠ .invalidRequest

/-- Past the commit, if there is one. -/
inductive Past : Writing → Prop
  | refreshing {k : ℤ} : Past (crud (.refreshing k))
  | rowRefreshed {row : BookmarkRow} : Past (crud (.rowRefreshed row))
  | answered {r : Response Body} : Past (crud (.done (.ok r)))
  | added {k : ℤ} : Past (register (.refreshing k))
  | registered {u : UserRow} : Past (register (.done (.ok u)))
  | gone : Past (crud (.done (.error .invalidRequest)))
  | unregistered : Past (register (.done (.error .invalidRequest)))

theorem Past.not_failed {p : Writing} (h : p.Past) : ¬ p.Failed := by
  rintro ⟨x, hx, hne⟩
  cases h with
  | gone => exact hne (Option.some.inj hx).symm
  | unregistered => exact hne (Option.some.inj hx).symm
  | _ => cases hx

end Writing

namespace WriteRequest

/-- Where it starts. -/
def start : WriteRequest P → Writing
  | crud _ => .crud .start
  | register _ => .register .start

/-- Its next statement. -/
def next (db : Db) : WriteRequest P → Writing → Option (Db × Writing)
  | crud call, .crud p => (p.next call db).map (Prod.map id .crud)
  | register r, .register p => (p.next P r db).map (Prod.map id .register)
  | _, _ => none

/-- **All a statement can do.** -/
inductive Move (db : Db) : WriteRequest P → Writing → Db → Writing → Prop
  | crud {call : Call (Crud P)} {db' : Db} {p p' : Phase} (hm : p.Move call db db' p') :
      Move db (crud call) (.crud p) db' (.crud p')
  | register {r : Registration} {db' : Db} {p p' : Registering} (hm : p.Move P r db db' p') :
      Move db (register r) (.register p) db' (.register p')

/-- **A statement does one of these things.** -/
theorem move_of_next {db db' : Db} {w : WriteRequest P} {p p' : Writing}
    (h : w.next db p = some (db', p')) : w.Move db p db' p' := by
  rcases w with call | r <;> rcases p with p | p
  · obtain ⟨⟨d, q⟩, hnext, heq⟩ := Option.map_eq_some_iff.mp h
    obtain ⟨rfl, rfl⟩ := Prod.mk.inj heq
    exact .crud (Phase.move_of_next hnext)
  · cases h
  · cases h
  · obtain ⟨⟨d, q⟩, hnext, heq⟩ := Option.map_eq_some_iff.mp h
    obtain ⟨rfl, rfl⟩ := Prod.mk.inj heq
    exact .register (Registering.move_of_next hnext)

end WriteRequest

section

variable {ι : Type*}

/-- **The service**: requests that write, one SQL statement at a time. -/
def service (req : ι → WriteRequest P) : Interleaving ι (History Db) Writing where
  move i c h' p' := (∀ name ∈ (c.thread i).inserting, ∀ j, j ≠ i →
      name ∉ (c.thread j).pending.map TagRow.name) ∧
    ∃ db', (req i).next c.shared.now (c.thread i) = some (db', p') ∧ h' = c.shared.push db'

end

/-! ## One statement -/

/-- The rows are as they were. -/
structure Db.SameRows (db db' : Db) : Prop where
  users : db'.users = db.users
  bookmarks : db'.bookmarks = db.bookmarks
  tags : db'.tags = db.tags
  bookmarkTags : db'.bookmarkTags = db.bookmarkTags

theorem Db.SameRows.refl (db : Db) : db.SameRows db := ⟨rfl, rfl, rfl, rfl⟩

/-- **All a statement can do to the tables**: nothing, to insert a tag for its transaction, or to
commit what its transaction has inserted. -/
inductive Trace (db : Db) (p : Writing) : Db → Writing → Prop
  | quiet {p' : Writing} (hp : p'.pending = p.pending ∨ p'.pending = []) : Trace db p db p'
  | insert {p' : Writing} {tag : TagRow} (hname : p.inserting = some tag.name)
      (hnew : tag.name ∉ db.tags.rows.map TagRow.name) (hp : p'.pending = p.pending ++ [tag]) :
      Trace db p { db with tagSeq := db.tagSeq + 1 } p'
  | commit {p' : Writing} {db' : Db} (hpast : p'.Past) (hp : p'.pending = [])
      (htags : ∀ t ∈ db'.tags.rows, t ∈ db.tags.rows ∨ t ∈ p.pending) : Trace db p db' p'

section

variable {db db' : Db}

theorem Db.SameTags.mem_addTags {ts : List TagRow} (h : (db.addTags ts).SameTags db') :
    ∀ t ∈ db'.tags.rows, t ∈ db.tags.rows ∨ t ∈ ts :=
  fun t ht => Table.mem_insertAll (by rw [h.tags] at ht; exact ht)

theorem Db.tags_insertUser {now : ℤ} {username email passwordHash : Str} {u : UserRow}
    (h : db.insertUser P now username email passwordHash = .ok (db', u)) : db'.tags = db.tags := by
  rw [insertUser] at h
  split_ifs at h
  split at h
  · cases h
  · cases h
    rfl

theorem Db.error_insertUser {now : ℤ} {username email passwordHash : Str} {x : Exc}
    (h : db.insertUser P now username email passwordHash = .error x) : x = .integrityError := by
  rw [insertUser] at h
  split_ifs at h
  · exact (Except.error.inj h).symm
  · split at h
    · exact (Except.error.inj h).symm
    · cases h

/-- A commit that went through, or was rolled back. -/
theorem Phase.trace_commit {call : Call (Crud P)} {held : Option Bookmark}
    {newTags : Option (List TagRow)} {pending : List TagRow} {p' : Phase}
    (h : commit call db newTags pending held = some (db', p')) :
    Trace db (.crud (committing held newTags pending)) db' (.crud p') := by
  cases ended_of_commit h with
  | saved _ hsame => exact .commit .refreshing rfl hsame.mem_addTags
  | deleted _ hsame => exact .commit .answered rfl hsame.mem_addTags
  | raised => exact .quiet (Or.inr rfl)
  | lost => exact .quiet (Or.inr rfl)

/-- **A statement leaves one of these traces.** -/
theorem WriteRequest.trace_next {w : WriteRequest P} {p p' : Writing}
    (h : w.next db p = some (db', p')) : Trace db p db' p' := by
  cases move_of_next h with
  | crud hm =>
    cases hm with
    | created => exact .quiet (Or.inr (Phase.pending_resolve _ _))
    | updating => exact .quiet (Or.inr (Phase.pending_resolve _ _))
    | resolved => exact .quiet (Or.inl rfl)
    | reused => exact .quiet (Or.inl rfl)
    | @inserted _ _ _ _ name _ hmissing hnew =>
      exact @Trace.insert _ _ _ ⟨db.tagSeq + 1, name⟩ (if_neg hmissing) hnew rfl
    | committed hcommit => exact Phase.trace_commit hcommit
    | _ => exact .quiet (Or.inr rfl)
  | register hm =>
    cases hm with
    | inserted hins =>
      have htags := Db.tags_insertUser hins
      exact .commit .added rfl fun t ht => Or.inl (htags ▸ ht)
    | _ => exact .quiet (Or.inr rfl)

/-- A refresh is past the commit, whatever it finds. -/
theorem Writing.past_refresh (db : Db) (id : ℤ) :
    Past (register (.done (UserRepository.refresh db id))) := by
  rw [UserRepository.refresh]
  split
  · exact .unregistered
  · exact .registered

/-- Past the commit a request stays past it. -/
theorem WriteRequest.past_next {w : WriteRequest P} {p p' : Writing} (hpast : p.Past)
    (h : w.next db p = some (db', p')) : p'.Past := by
  cases move_of_next h with
  | crud hm =>
    cases hm with
    | gone => exact .gone
    | reselected => exact .rowRefreshed
    | answered => exact .answered
    | _ => cases hpast
  | register hm =>
    cases hm with
    | refreshed => exact Writing.past_refresh db _
    | _ => cases hpast

/-! ### What raises what -/

/-- Resolving the names of a request raises nothing. -/
theorem Phase.raised_resolve {call : Call (Crud P)} {names : Option (List Str)}
    (hnames : call.request.names = names) (held : Option Bookmark) :
    (Writing.crud (resolve P held names)).raised = none := by
  obtain ⟨-, hp⟩ | ⟨-, hp⟩ | ⟨ns, -, hp⟩ := resolve_names held hnames <;> rw [hp] <;> rfl

/-- To the re-read of a lost race, a row that is gone is no error. -/
theorem BookmarkService.currentEtag_ne_gone (userId k : ℤ) :
    currentEtag P db userId k ≠ .error .invalidRequest := by
  rw [currentEtag, BookmarkRepository.getOwned, BookmarkRepository.ownedRow]
  split_ifs <;> intro h <;> cases h

/-- **Only the refresh after the commit raises `InvalidRequestError`**, so every other failure is at
or before the commit. -/
theorem WriteRequest.past_of_invalidRequest {w : WriteRequest P} {p p' : Writing}
    (h : w.next db p = some (db', p')) (hx : p'.raised = some .invalidRequest) : p.Past := by
  cases move_of_next h with
  | @crud call _ _ _ hm =>
    cases hm with
    | gone => exact .refreshing
    | @created payload hreq =>
      have hnames : call.request.names = some payload.tags := by rw [hreq]; rfl
      rw [Phase.raised_resolve hnames] at hx
      cases hx
    | @updating row k payload ifMatch hreq =>
      have hnames : call.request.names = (Routers.changesOf payload).tags.join := by
        rw [hreq, Routers.changesOf_tags]
        rfl
      rw [Phase.raised_resolve hnames] at hx
      cases hx
    | refused hreq hrefused =>
      obtain rfl := Option.some.inj hx
      obtain h | h := BookmarkService.checkPrecondition_eq_error hrefused <;> cases h
    | committed hcommit =>
      cases Phase.ended_of_commit hcommit with
      | raised _ hrefusal =>
        obtain rfl := Option.some.inj hx
        rcases hrefusal with h | h <;> cases h
      | _ => cases hx
    | @reported k =>
      have hne := @BookmarkService.currentEtag_ne_gone P db call.user k
      rcases hetag : BookmarkService.currentEtag P db call.user k with x | etag
      · rw [hetag] at hx hne
        exact absurd (congrArg Except.error (Option.some.inj hx)) hne
      · rw [hetag] at hx
        cases hx
    | _ => cases hx
  | register hm =>
    cases hm with
    | refreshed => exact .added
    | refused hins =>
      obtain rfl := Db.error_insertUser hins
      cases hx
    | _ => cases hx

end

/-! ## Names -/

namespace Trace

variable {db db' : Db} {p p' : Writing}

/-- What is committed was, or the transaction has inserted it. -/
theorem mem_tags (tr : Trace db p db' p') {t : TagRow} (ht : t ∈ db'.tags.rows) :
    t ∈ db.tags.rows ∨ t ∈ p.pending := by
  cases tr with
  | quiet => exact Or.inl ht
  | insert => exact Or.inl ht
  | commit _ _ htags => exact htags t ht

/-- **An open transaction has committed nothing**, and its new tags have new names. -/
theorem of_pending (tr : Trace db p db' p') {t : TagRow} (ht : t ∈ p'.pending) :
    db'.tags = db.tags ∧ (t ∈ p.pending ∨
      p.inserting = some t.name ∧ t.name ∉ db.tags.rows.map TagRow.name) := by
  cases tr with
  | quiet hp =>
    refine ⟨rfl, Or.inl ?_⟩
    rcases hp with hp | hp
    · exact hp ▸ ht
    · exact absurd (hp ▸ ht) List.not_mem_nil
  | insert hname hnew hp =>
    refine ⟨rfl, ?_⟩
    rw [hp, List.mem_append, List.mem_singleton] at ht
    rcases ht with ht | rfl
    · exact Or.inl ht
    · exact Or.inr ⟨hname, hnew⟩
  | commit _ hp => exact absurd (hp ▸ ht) List.not_mem_nil

/-- **A statement before the commit changes no row.** -/
theorem sameRows (tr : Trace db p db' p') (hpast : ¬ p'.Past) : db.SameRows db' := by
  cases tr with
  | quiet => exact .refl db
  | insert => exact ⟨rfl, rfl, rfl, rfl⟩
  | commit h => exact absurd h hpast

end Trace

section

variable {ι : Type*} [DecidableEq ι] {req : ι → WriteRequest P} {c c' : Conf ι (History Db) Writing}

/-- Where a run starts. -/
def Writing.initial (req : ι → WriteRequest P) (db : Db) : Conf ι (History Db) Writing :=
  ⟨History.single db, fun i => (req i).start⟩

/-- What a move leaves in the history. -/
theorem WriteRequest.exists_trace {i : ι} (hs : (service req).StepBy i c c') :
    ∃ db', c'.shared = c.shared.push db' ∧ Trace c.shared.now (c.thread i) db' (c'.thread i) := by
  obtain ⟨-, db', hnext, hshared⟩ := hs.move_self
  exact ⟨db', hshared, trace_next hnext⟩

/-- **Names that are inserted and not committed**: no committed tag has one of them, and no two
transactions share one. -/
structure Apart (c : Conf ι (History Db) Writing) : Prop where
  uncommitted : ∀ i, ∀ t ∈ (c.thread i).pending, ∀ u ∈ c.shared.now.tags.rows, u.name ≠ t.name
  own : ∀ i j, j ≠ i → ∀ t ∈ (c.thread i).pending, ∀ u ∈ (c.thread j).pending, u.name ≠ t.name

namespace Apart

omit [DecidableEq ι] in
theorem initial (db : Db) : Apart (Writing.initial req db) := by
  have hnone : ∀ i, ((Writing.initial req db).thread i).pending = [] := by
    intro i
    change ((req i).start).pending = []
    rcases req i with call | r <;> rfl
  constructor
  · intro i t ht
    rw [hnone i] at ht
    cases ht
  · intro i j _ t ht
    rw [hnone i] at ht
    cases ht

/-- What a statement commits has none of the names that another has inserted. -/
theorem of_ne (s : Apart c) {i j : ι} (hs : (service req).StepBy j c c') (hj : j ≠ i)
    {t : TagRow} (ht : t ∈ (c.thread i).pending) :
    ∀ u ∈ c'.shared.now.tags.rows, u.name ≠ t.name := by
  intro u hu
  obtain ⟨db', hshared, tr⟩ := WriteRequest.exists_trace hs
  rw [hshared, History.push_now] at hu
  rcases tr.mem_tags hu with hu | hu
  · exact s.uncommitted i t ht u hu
  · exact s.own i j hj t ht u hu

/-- A tag that is inserted has a name that no other transaction has inserted: its statement would
have waited. -/
theorem of_inserted (s : Apart c) {i j : ι} (hs : (service req).StepBy j c c') (hj : j ≠ i)
    {t u : TagRow} (ht : t ∈ (c.thread i).pending) (hu : u ∈ (c'.thread j).pending) :
    u.name ≠ t.name := by
  obtain ⟨hfree, -⟩ := hs.move_self
  obtain ⟨db', -, tr⟩ := WriteRequest.exists_trace hs
  rcases (tr.of_pending hu).2 with hu | ⟨hname, -⟩
  · exact s.own i j hj t ht u hu
  · intro heq
    exact hfree u.name hname i hj.symm (List.mem_map.mpr ⟨t, ht, heq.symm⟩)

/-- **The names stay apart**: an insert waits for whoever has inserted the same name, and finds none
that is committed. -/
theorem step (s : Apart c) {j : ι} (hs : (service req).StepBy j c c') : Apart c' := by
  constructor
  · intro i t ht u hu
    by_cases hij : i = j
    · subst hij
      obtain ⟨db', hshared, tr⟩ := WriteRequest.exists_trace hs
      obtain ⟨hsame, ht⟩ := tr.of_pending ht
      rw [hshared, History.push_now, hsame] at hu
      rcases ht with ht | ⟨-, hnew⟩
      · exact s.uncommitted i t ht u hu
      · exact fun heq => hnew (List.mem_map.mpr ⟨u, hu, heq⟩)
    · rw [hs.thread_ne hij] at ht
      exact s.of_ne hs (Ne.symm hij) ht u hu
  · intro i k hk t ht u hu
    by_cases hij : i = j
    · subst hij
      rw [hs.thread_ne hk] at hu
      exact (s.of_inserted hs hk.symm hu ht).symm
    · rw [hs.thread_ne hij] at ht
      by_cases hkj : k = j
      · subst hkj
        exact s.of_inserted hs hk ht hu
      · rw [hs.thread_ne hkj] at hu
        exact s.own i k hk t ht u hu

end Apart

/-! ## Runs -/

/-- Whoever fails in the end was never past its commit. -/
theorem Writing.not_past_of_failed (hrun : (service req).Run c c') {i : ι}
    (hfailed : (c'.thread i).Failed) : ¬ (c.thread i).Past := by
  intro hpast
  refine Writing.Past.not_failed (hrun.invariant (I := fun c => (c.thread i).Past) ?_ hpast) hfailed
  intro j d d' hd hs
  by_cases hj : i = j
  · subst hj
    obtain ⟨-, db', hnext, -⟩ := hs.move_self
    exact WriteRequest.past_next hd hnext
  · rwa [hs.thread_ne hj]

/-- **Failed writes leave no trace.**  Of a request that has failed at or before its commit, no
statement has changed a row.  Whatever tag a statement commits, before the failure or after it,
another request has inserted for itself; and none that is committed has the name of a tag that the
failed request has inserted, up to the statement that fails. -/
theorem failed_writes_leave_no_trace {db : Db} {c₁ c₂ c₃ : Conf ι (History Db) Writing} {i j : ι}
    (hrun : (service req).Run (Writing.initial req db) c₁) (hs : (service req).StepBy j c₁ c₂)
    (hrun' : (service req).Run c₂ c₃) (hfailed : (c₃.thread i).Failed) :
    (j = i → c₁.shared.now.SameRows c₂.shared.now) ∧
      (∀ u ∈ c₂.shared.now.tags.rows, u ∈ c₁.shared.now.tags.rows ∨
        j ≠ i ∧ u ∈ (c₁.thread j).pending) ∧
      ∀ t ∈ (c₁.thread i).pending, ∀ u ∈ c₂.shared.now.tags.rows, u.name ≠ t.name := by
  have s : Apart c₁ := hrun.invariant (fun _ _ _ s hs => s.step hs) (.initial db)
  obtain ⟨db', hshared, tr⟩ := WriteRequest.exists_trace hs
  have hsame : j = i → c₁.shared.now.SameRows c₂.shared.now := by
    rintro rfl
    rw [hshared]
    exact tr.sameRows (Writing.not_past_of_failed hrun' hfailed)
  refine ⟨hsame, fun u hu => ?_, fun t ht => ?_⟩
  · by_cases hj : j = i
    · exact Or.inl ((hsame hj).tags ▸ hu)
    · rw [hshared, History.push_now] at hu
      exact (tr.mem_tags hu).imp_right fun hu => ⟨hj, hu⟩
  · by_cases hj : j = i
    · rw [(hsame hj).tags]
      exact s.uncommitted i t ht
    · exact s.of_ne hs hj ht

end

/-! ## A failure after two new tags -/

theorem normalizeTags_xzy : normalizeTags .autoincrement ["x".toList, "z".toList, "y".toList]
    = .ok ["x".toList, "z".toList, "y".toList] := by decide +kernel

theorem normalizeTags_y : normalizeTags .autoincrement ["y".toList] = .ok ["y".toList] := by
  decide +kernel

/-- Alice and Bob create bookmarks that share a new tag, while Carol registers. -/
def sharedTag : Fin 3 → WriteRequest .autoincrement
  | 0 => .crud ⟨1, 0, .create (.listing ["x".toList, "z".toList, "y".toList] normalizeTags_xzy)⟩
  | 1 => .crud ⟨2, 0, .create (.listing ["y".toList] normalizeTags_y)⟩
  | 2 => .register ⟨"carol".toList, "carol@example.com".toList, [], 0⟩

/-- The move of one of them, computed. -/
def WriteRequest.step (i : Fin 3) (c : Conf (Fin 3) (History Db) Writing) :
    Option (History Db × Writing) :=
  if ∀ name ∈ (c.thread i).inserting, ∀ j, j ≠ i → name ∉ (c.thread j).pending.map TagRow.name then
    ((sharedTag i).next c.shared.now (c.thread i)).map (Prod.map c.shared.push id)
  else none

theorem WriteRequest.move_of_step {i : Fin 3} {c : Conf (Fin 3) (History Db) Writing}
    {h' : History Db} {p' : Writing} (h : step i c = some (h', p')) :
    (service sharedTag).move i c h' p' := by
  rw [step] at h
  split_ifs at h with hfree
  obtain ⟨⟨db', q⟩, hnext, heq⟩ := Option.map_eq_some_iff.mp h
  obtain ⟨rfl, rfl⟩ := Prod.mk.inj heq
  exact ⟨hfree, db', hnext, rfl⟩

/-- Bob's commit comes between Alice's lookup and her insert of the shared tag, which fails: her
other two tags are gone with it. -/
theorem failed_writes_leave_no_trace_sharedTag : ∃ c₁ c₂,
    (service sharedTag).Run (Writing.initial sharedTag Db.twoAccounts) c₁ ∧
      (service sharedTag).StepBy 0 c₁ c₂ ∧
      (c₁.thread 0).pending.map TagRow.name = ["x".toList, "z".toList] ∧
      c₂.thread 0 = .crud (.done (.error .integrityError)) ∧
      c₁.shared.now.SameRows c₂.shared.now ∧
      ∀ u ∈ c₂.shared.now.tags.rows, u.name ≠ "x".toList ∧ u.name ≠ "z".toList := by
  obtain ⟨c₁, c₂, -, hrun, hstep, -, hc⟩ := Interleaving.exists_run_around
    (M := service sharedTag) WriteRequest.step (fun _ _ _ => True)
    (fun _ _ _ _ => WriteRequest.move_of_step)
    (Writing.initial sharedTag Db.twoAccounts) [0, 0, 1, 1, 1, 1, 1, 2, 2, 2, 0, 0] 0 []
    (fun c d _ => decide ((c.thread 0).pending = [⟨2, "x".toList⟩, ⟨3, "z".toList⟩] ∧
      d.thread 0 = .crud (.done (.error .integrityError)))) (by decide +kernel)
  obtain ⟨hpending, hdone⟩ := of_decide_eq_true hc
  have hrun := Interleaving.run_of_restrict hrun
  have hs := (Interleaving.restrict_stepBy.mp hstep).1
  have hfailed : (c₂.thread 0).Failed := ⟨.integrityError, by rw [hdone]; rfl, by decide⟩
  obtain ⟨hrows, -, hnever⟩ := failed_writes_leave_no_trace hrun hs (.refl c₂) hfailed
  rw [hpending] at hnever
  refine ⟨c₁, c₂, hrun, hs, by rw [hpending]; rfl, hdone, hrows rfl, fun u hu => ⟨?_, ?_⟩⟩
  · exact hnever ⟨2, "x".toList⟩ (by decide) u hu
  · exact hnever ⟨3, "z".toList⟩ (by decide) u hu
