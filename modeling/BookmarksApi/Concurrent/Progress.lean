import BookmarksApi.Concurrent.Flush
import BookmarksApi.Concurrent.Invariant

/-!
# Concurrent/Progress — requests come to an end

Every statement brings its request nearer to its end (`rank_next`), so requests run in any order
come to a halt.  What can hold one up in the machine is an insert that waits for another's
uncommitted tag of the same name; down a chain of such waits somebody can go on (`Sound.progress`),
unless requests that insert the same names in opposite orders wait for each other.  Where no run
goes on, then, every request is answered but those whose waits lead into such a circle
(`requests_answered`).  Waits for row locks between the statements of one flush are left out: a
flush and its commit are one move.
-/

variable {P : Platform}

namespace Phase

/-- At most so many statements are left. -/
def rank : Phase → ℕ
  | start => maxTagsPerBookmark + 7
  | rowRead _ => maxTagsPerBookmark + 6
  | lookup _ names => names.length + 5
  | resolving _ _ todo _ _ => todo.length + 4
  | committing .. => 3
  | refreshing _ => 2
  | rowRefreshed _ => 1
  | conflicted _ => 1
  | done _ => 0

theorem rank_resolve (held : Option Bookmark) (names : Option (List Str)) :
    (resolve P held names).rank ≤ maxTagsPerBookmark + 5 := by
  obtain ⟨x, hp⟩ | ⟨newTags, hp⟩ | ⟨ns, hnorm, hp⟩ := resolve_cases P held names <;> rw [hp]
  · exact Nat.zero_le _
  · exact Nat.add_le_add (Nat.zero_le _) (by decide : 3 ≤ 5)
  · exact Nat.add_le_add_right hnorm.few 5

variable {call : Call (Crud P)} {db db' : Db} {p p' : Phase}

theorem rank_commit {held : Option Bookmark} {newTags : Option (List TagRow)}
    {pending : List TagRow} (h : commit call db newTags pending held = some (db', p')) :
    p'.rank ≤ 2 := by
  cases ended_of_commit h with
  | saved => exact le_rfl
  | deleted => exact Nat.zero_le 2
  | raised => exact Nat.zero_le 2
  | lost => exact Nat.le_succ 1

/-- **Every statement brings its request nearer to its end.** -/
theorem rank_next (hnext : p.next call db = some (db', p')) : p'.rank < p.rank := by
  cases move_of_next hnext with
  | created => exact (rank_resolve _ _).trans_lt (by simp [rank])
  | updating => exact (rank_resolve _ _).trans_lt (by simp [rank])
  | committed hcommit => exact (rank_commit hcommit).trans_lt (by simp [rank])
  | _ => simp [rank]

/-! ### What a session needs -/

/-- Nothing yet for a create, else the bookmark that a write has loaded. -/
def Needs (call : Call (Crud P)) : Option Bookmark → Prop
  | none => ∃ payload, call.request = .create payload
  | some _ => ∃ ifMatch, call.request.Writes ifMatch

/-- A session that resolves tags or commits holds what it needs. -/
def Equipped (call : Call (Crud P)) : Phase → Prop
  | lookup held _ => Needs call held
  | resolving held _ _ _ _ => Needs call held
  | committing held _ _ => Needs call held
  | _ => True

theorem equipped_resolve {held : Option Bookmark} {names : Option (List Str)}
    (h : Needs call held) : (resolve P held names).Equipped call := by
  obtain ⟨x, hp⟩ | ⟨newTags, hp⟩ | ⟨ns, -, hp⟩ := resolve_cases P held names <;> rw [hp]
  · trivial
  · exact h
  · exact h

theorem Equipped.next (h : p.Equipped call) (hnext : p.next call db = some (db', p')) :
    p'.Equipped call := by
  cases move_of_next hnext with
  | created hreq => exact equipped_resolve ⟨_, hreq⟩
  | updating hreq => exact equipped_resolve ⟨_, by rw [hreq]; exact .update⟩
  | deleting hreq => exact ⟨_, by rw [hreq]; exact .delete⟩
  | lookedUp => exact h
  | resolved => exact h
  | reused => exact h
  | inserted => exact h
  | committed hcommit => cases ended_of_commit hcommit <;> trivial
  | _ => trivial

/-- **A request that is not done has a next statement**, whatever the tables. -/
theorem Equipped.next_isSome (h : p.Equipped call) (db : Db) :
    (∃ r, p = .done r) ∨ (p.next call db).isSome := by
  cases p with
  | done r => exact Or.inl ⟨r, rfl⟩
  | committing held newTags pending =>
    refine Or.inr ?_
    rcases held with _ | b
    · obtain ⟨payload, hreq⟩ := h
      simp only [Phase.next, commit, hreq]
      rfl
    · obtain ⟨ifMatch, hwrites⟩ := h
      cases hreq : call.request with
      | update => simp only [Phase.next, commit, hreq]; rfl
      | delete => simp only [Phase.next, commit, hreq]; rfl
      | _ => rw [hreq] at hwrites; cases hwrites
  | _ => exact Or.inr rfl

end Phase

/-! ## Waiting -/

section

variable {ι : Type*}

/-- Request `i` is about to insert a name that `j` has inserted and not committed. -/
def Config.WaitsFor (c : Config ι) (i j : ι) : Prop :=
  j ≠ i ∧ ∃ name ∈ (c.thread i).inserting, name ∈ (c.thread j).pending.map TagRow.name

variable {req : ι → Call (Crud P)} {c : Config ι}

/-- Whom a request waits for is not done. -/
theorem Config.WaitsFor.not_done {i j : ι} (h : Config.WaitsFor c i j)
    (r : Except Exc (Response Body)) : c.thread j ≠ .done r := by
  obtain ⟨-, name, -, hmem⟩ := h
  intro hdone
  rw [hdone] at hmem
  cases hmem

/-- So nobody down a chain of waits from one that is not done. -/
theorem Config.undone_of_chain {i j : ι} (h : ¬ ∃ r, c.thread i = .done r)
    (hchain : Relation.ReflTransGen (Config.WaitsFor c) i j) : ¬ ∃ r, c.thread j = .done r := by
  rcases Relation.ReflTransGen.cases_tail hchain with rfl | ⟨k, -, hwaits⟩
  · exact h
  · exact not_exists.mpr hwaits.not_done

/-- What holds a request up for good: it waits, through others or at once, for requests that wait
for one another in a circle. -/
def Config.Stuck (c : Config ι) (i : ι) : Prop :=
  ∃ j, Relation.ReflTransGen (Config.WaitsFor c) i j ∧ Relation.TransGen (Config.WaitsFor c) j j

/-- Who is stuck waits. -/
theorem Config.Stuck.waits {i : ι} (h : Config.Stuck c i) : ∃ j, Config.WaitsFor c i j := by
  obtain ⟨j, hchain, hcircle⟩ := h
  obtain ⟨k, hwaits, -⟩ := Relation.TransGen.head'_iff.mp (hcircle.trans_right hchain)
  exact ⟨k, hwaits⟩

/-- It can go on, or waits. -/
theorem Config.step_or_waits [DecidableEq ι] {i : ι} (h : (c.thread i).Equipped (req i)) :
    (∃ r, c.thread i = .done r) ∨ (∃ c', (machine req).StepBy i c c') ∨
      ∃ j, Config.WaitsFor c i j := by
  refine (h.next_isSome c.shared.now).imp_right fun hnext => ?_
  obtain ⟨⟨db', p'⟩, hnext⟩ := Option.isSome_iff_exists.mp hnext
  by_cases hfree : Config.Unblocked c i
  · exact Or.inl ⟨_, ⟨hfree, db', hnext, rfl⟩⟩
  · simp only [Config.Unblocked, not_forall, not_not] at hfree
    obtain ⟨name, hname, j, hj, hmem⟩ := hfree
    exact Or.inr ⟨j, hj, name, hname, hmem⟩

/-- What a phase asserts equips it. -/
theorem Sound.equipped (s : Sound req c) (i : ι) : (c.thread i).Equipped (req i) := by
  have hneeds : ∀ {held}, Held (req i) c.shared held → Phase.Needs (req i) held := by
    rintro (_ | b) hheld
    · cases hreq : (req i).request with
      | create payload => exact ⟨payload, hreq⟩
      | _ => rw [Held, hreq] at hheld; cases hheld
    · obtain ⟨row, tags, -, -, -, -, hacc⟩ := hheld
      cases hreq : (req i).request with
      | update => exact ⟨_, by rw [hreq]; exact .update⟩
      | delete => exact ⟨_, by rw [hreq]; exact .delete⟩
      | _ => rw [hreq] at hacc; cases hacc
  have hp := s.2 i
  cases hphase : c.thread i with
  | lookup held names => rw [hphase] at hp; exact hneeds hp.1
  | resolving held byName todo result pending => rw [hphase] at hp; exact hneeds hp.1
  | committing held newTags pending => rw [hphase] at hp; exact hneeds hp.1
  | _ => trivial

/-- A move brings its request nearer to its end. -/
theorem Phase.rank_move (i : ι) (d : Config ι) (h' : History Db) (p' : Phase)
    (hmove : (machine req).move i d h' p') : p'.rank < (d.thread i).rank := by
  obtain ⟨-, db', hnext, -⟩ := hmove
  exact rank_next hnext

variable [DecidableEq ι]

/-- **Down a chain of waits somebody can go on.** -/
theorem Sound.progress (s : Sound req c) (i : ι) (hlive : ¬ Deadlocked (Config.WaitsFor c) i) :
    (∃ r, c.thread i = .done r) ∨
      ∃ j, Relation.ReflTransGen (Config.WaitsFor c) i j ∧ ∃ c', (machine req).StepBy j c c' := by
  by_cases hdone : ∃ r, c.thread i = .done r
  · exact Or.inl hdone
  refine Or.inr (exists_moves_of_not_deadlocked (fun j hchain => ?_) hlive)
  exact (Config.step_or_waits (s.equipped j)).resolve_left (Config.undone_of_chain hdone hchain)

/-! ## To the end -/

/-- A request is equipped wherever a run has brought it. -/
theorem equipped_of_run {db : Db} (hrun : (machine req).Run (Config.initial db) c) (i : ι) :
    (c.thread i).Equipped (req i) := by
  refine hrun.invariant (I := fun c : Config ι => ∀ i, (c.thread i).Equipped (req i))
    (fun i d d' hd hs => ?_) (fun _ => trivial) i
  obtain ⟨-, db', hnext, -⟩ := hs.move_self
  exact hs.forall_thread ((hd i).next hnext) fun j _ => hd j

/-- **Where no request can go on**: all are answered, but for those that are stuck. -/
theorem halted_iff [Finite ι] (h : ∀ i, (c.thread i).Equipped (req i)) :
    (∀ c', ¬ (machine req).Step c c') ↔ ∀ i, (∃ r, c.thread i = .done r) ∨ Config.Stuck c i := by
  refine ⟨fun hhalted i => or_iff_not_imp_left.mpr fun hundone => ?_, fun hall c' => ?_⟩
  · refine exists_circle fun b hchain => ?_
    refine ((Config.step_or_waits (h b)).resolve_left
      (Config.undone_of_chain hundone hchain)).resolve_left ?_
    rintro ⟨c', hs⟩
    exact hhalted c' hs.step
  · rintro ⟨i, ⟨hfree, db', hnext, -⟩⟩
    obtain ⟨r, hdone⟩ | hstuck := hall i
    · rw [hdone] at hnext
      cases hnext
    · obtain ⟨j, hj, name, hname, hmem⟩ := hstuck.waits
      exact hfree name hname j hj hmem

/-- **Every request is answered, unless it is stuck.**  A run has at most so many statements a
request, whatever the order they are run in; and the states that no run goes on from are just those
in which every request is answered or waits, through others or at once, for requests that wait for
one another's tags in a circle. -/
theorem requests_answered [Fintype ι] (req : ι → Call (Crud P)) (db : Db) :
    (∀ cs, (Config.initial db :: cs).IsChain (machine req).Step →
      cs.length ≤ Fintype.card ι * (maxTagsPerBookmark + 7)) ∧
    ∀ c, (machine req).Run (Config.initial db) c →
      ((∀ c', ¬ (machine req).Step c c') ↔
        ∀ i, (∃ r, c.thread i = .done r) ∨ Config.Stuck c i) := by
  refine ⟨fun cs hcs => ?_, fun c hrun => halted_iff (equipped_of_run hrun)⟩
  exact (Interleaving.length_le_rank Phase.rank_move hcs).trans_eq
    (Finset.sum_const_nat fun _ _ => rfl)

/-- **Whatever has happened, the requests can be run to their end.** -/
theorem exists_run_ended [Finite ι] {db : Db} (hrun : (machine req).Run (Config.initial db) c) :
    ∃ c', (machine req).Run c c' ∧ ∀ i, (∃ r, c'.thread i = .done r) ∨ Config.Stuck c' i := by
  cases nonempty_fintype ι
  obtain ⟨c', hrun', hhalted⟩ :=
    Interleaving.exists_run_halted (M := machine req) Phase.rank_move c
  exact ⟨c', hrun', (halted_iff (equipped_of_run (hrun.trans hrun'))).mp hhalted⟩

end
