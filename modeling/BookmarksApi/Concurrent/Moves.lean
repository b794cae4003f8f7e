import BookmarksApi.Concurrent.Commit

/-!
# Concurrent/Moves — one request, whatever the others do

**Holds** is what the phase of a request asserts: what it has read, accepted and resolved.  A move
comes to one of three effects on the tables (`effect_next`) — none, one more uncommitted tag, or one
entry written with the transaction's tags — and leads to a phase that asserts what it should
(`holds_next`).  A commit in particular comes to one of four outcomes (`commit_cases`), and this is
the only place where the flushes are looked at.
-/

variable {P : Platform}

/-! ## One request -/

/-- The precondition of a write accepts a version. -/
def Crud.Accepts : Crud P → ℕ → Prop
  | .update _ _ ifMatch, version => BookmarkService.checkPrecondition version ifMatch = .ok ()
  | .delete _ ifMatch, version => BookmarkService.checkPrecondition version ifMatch = .ok ()
  | _, _ => False

/-- What a session holds while it resolves tags: nothing yet for a create, else the bookmark that
was loaded, in a version that was accepted. -/
def Held (call : Call (Crud P)) (h : History Db) : Option Bookmark → Prop
  | none => call.request.target = none
  | some b => ∃ row tags, b = .loaded row tags ∧ Loaded P h row tags ∧ row.userId = call.user ∧
      call.request.target = some row.id ∧ call.request.Accepts row.version

/-- **What a phase asserts.** -/
def Holds (call : Call (Crud P)) (h : History Db) : Phase → Prop
  | .rowRead row => ReadRow h row ∧ row.userId = call.user ∧ call.request.target = some row.id
  | .lookup held names => Held call h held ∧ call.request.names = some names
  | .resolving held byName todo result pending =>
    Held call h held ∧ call.request.names = some (result.map TagRow.name ++ todo) ∧
      (∀ t ∈ byName ++ result, t ∈ h.now.tags.rows ∨ t ∈ pending) ∧ pending ⊆ byName
  | .committing held newTags pending =>
    Held call h held ∧ newTags.map (List.map TagRow.name) = call.request.names ∧
      ∀ ts, newTags = some ts → ∀ t ∈ ts, t ∈ h.now.tags.rows ∨ t ∈ pending
  | _ => True

theorem Held.advance {call : Call (Crud P)} {h h' : History Db} (a : h.Advances h') :
    ∀ {held : Option Bookmark}, Held call h held → Held call h' held
  | none, hh => hh
  | some _, ⟨row, tags, hb, l, hh⟩ => ⟨row, tags, hb, l.advance a, hh⟩

/-- **An assertion survives what the others do.** -/
theorem Holds.advance {call : Call (Crud P)} {h h' : History Db} (a : h.Advances h') {p : Phase}
    (hp : Holds call h p) : Holds call h' p := by
  cases p with
  | rowRead row => exact hp.imp_left (ReadRow.advance a)
  | lookup held names => exact hp.imp_left (Held.advance a)
  | resolving held byName todo result pending =>
    obtain ⟨hheld, hnames, hts, hown⟩ := hp
    exact ⟨hheld.advance a, hnames, fun t ht => (hts t ht).imp_left fun ht => a.keeps.tags ht, hown⟩
  | committing held newTags pending =>
    obtain ⟨hheld, hnames, hts⟩ := hp
    exact ⟨hheld.advance a, hnames, fun ts h t ht =>
      (hts ts h t ht).imp_left fun ht => a.keeps.tags ht⟩
  | _ => trivial

/-- **A request on its way**: over tables that satisfy their constraints, its user has an account,
its uncommitted tags can join the table, and its phase asserts what it should. -/
structure Running (call : Call (Crud P)) (h : History Db) (p : Phase) : Prop where
  integrity : h.now.Integrity
  registered : h.now.Registered call.user
  addable : h.now.Addable p.pending
  holds : Holds call h p

/-! ## One move -/

/-- The next commit is a create's. -/
def Phase.creating : Phase → Prop
  | .committing none _ _ => True
  | _ => False

/-- **The effects of a move** on the tables and on the tags its transaction has inserted. -/
inductive Effect (h : History Db) (p : Phase) : Db → Phase → Prop
  | quiet {p' : Phase} (hp : p'.pending = p.pending ∨ p'.pending = []) : Effect h p h.now p'
  | insert {p' : Phase} {name : Str} (hname : p.inserting = some name)
      (hnew : name ∉ h.now.tags.rows.map TagRow.name) (hown : name ∉ p.pending.map TagRow.name)
      (hp : p'.pending = p.pending ++ [⟨h.now.tagSeq + 1, name⟩]) :
      Effect h p { h.now with tagSeq := h.now.tagSeq + 1 } p'
  | write {p' : Phase} {db' : Db} {k : ℤ} {entry : Option Entry}
      (hcommit : ∃ held newTags pending, p = .committing held newTags pending)
      (hp : p'.pending = []) (htags : db'.tags.rows = h.now.tags.rows ++ p.pending)
      (W : h.now.Writes db' k entry)
      (hevolves : Versioned.Evolves Entry.version h.versioned (h.push db').versioned) :
      Effect h p db' p'

section

variable {call : Call (Crud P)} {h : History Db} {db' : Db} {p p' : Phase}

/-- A write of one entry evolves the history when the entry is new, newer or gone. -/
theorem Db.Writes.evolves {k : ℤ} {entry : Option Entry} (W : h.now.Writes db' k entry)
    (hk : k ∉ h.versioned.used ∨ entry = none ∨
      ∃ e e', h.now.view k = some e ∧ entry = some e' ∧ e.version < e'.version) :
    Versioned.Evolves Entry.version h.versioned (h.push db').versioned :=
  .of_update (h.used_push db') W.view hk

theorem Phase.pending_resolve (held : Option Bookmark) (names : Option (List Str)) :
    (resolve P held names).pending = [] := by
  obtain ⟨x, hp⟩ | ⟨newTags, hp⟩ | ⟨ns, -, hp⟩ := resolve_cases P held names <;> rw [hp] <;> rfl

/-- **All a commit can come to**: the request's one entry is written, over the entry it loaded if it
loaded one; or that entry is gone, and nothing is written. -/
inductive Committed (call : Call (Crud P)) (h : History Db) (pending : List TagRow) :
    Option Bookmark → Db → Phase → Prop
  | created {payload : BookmarkCreate P} {db' : Db} (hreq : call.request = .create payload)
      (htags : db'.tags.rows = h.now.tags.rows ++ pending)
      (W : h.now.Writes db' (h.now.nextId P)
        (some (Entry.ofPayload call.now (h.now.nextId P) call.user payload))) :
      Committed call h pending none db' (.refreshing (h.now.nextId P))
  | updated {row : BookmarkRow} {tags : List TagRow} {payload : BookmarkUpdate P}
      {ifMatch : Option Str} {db' : Db} (hreq : call.request = .update row.id payload ifMatch)
      (hv : h.now.view row.id = some (Entry.ofRows row tags))
      (htags : db'.tags.rows = h.now.tags.rows ++ pending)
      (W : h.now.Writes db' row.id
        (some ((Entry.ofRows row tags).change call.now (Routers.changesOf payload)))) :
      Committed call h pending (some (.loaded row tags)) db' (.refreshing row.id)
  | deleted {row : BookmarkRow} {tags : List TagRow} {ifMatch : Option Str} {db' : Db}
      (hreq : call.request = .delete row.id ifMatch)
      (hv : h.now.view row.id = some (Entry.ofRows row tags))
      (htags : db'.tags.rows = h.now.tags.rows ++ pending) (W : h.now.Writes db' row.id none) :
      Committed call h pending (some (.loaded row tags)) db'
        (.done (.ok { status := 204, body := .inl .empty }))
  | lost {row : BookmarkRow} {tags : List TagRow}
      (hv : h.now.view row.id ≠ some (Entry.ofRows row tags)) :
      Committed call h pending (some (.loaded row tags)) h.now (.conflicted row.id)

/-- **A commit comes to one of its outcomes.** -/
theorem commit_cases {held : Option Bookmark} {newTags : Option (List TagRow)}
    {pending : List TagRow} (r : Running call h (.committing held newTags pending))
    (hnext : Phase.commit call h.now newTags pending held = some (db', p')) :
    Committed call h pending held db' p' := by
  obtain ⟨I, hreg, hadd, hheld, hnames, hts⟩ := r
  have hout : ∀ {d q}, Phase.commit call h.now newTags pending held = some (d, q) →
      db' = d ∧ p' = q := fun hc => Prod.mk.inj (Option.some.inj (hnext.symm.trans hc))
  cases hreq : call.request with
  | create payload =>
    rw [hreq] at hnames
    cases held with
    | some b =>
      obtain ⟨row, tags, -, -, -, htarget, -⟩ := hheld
      simp [hreq, Crud.target] at htarget
    | none =>
      obtain ⟨db₂, hc, htags, W⟩ := Phase.commit_create I hadd hreg hreq hnames hts
      obtain ⟨rfl, rfl⟩ := hout hc
      exact .created hreq htags W
  | get bookmarkId =>
    cases held with
    | none => simp [Held, hreq, Crud.target] at hheld
    | some b =>
      obtain ⟨row, tags, -, -, -, -, hacc⟩ := hheld
      simp [hreq, Crud.Accepts] at hacc
  | update bookmarkId payload ifMatch =>
    rw [hreq] at hnames
    cases held with
    | none => simp [Held, hreq, Crud.target] at hheld
    | some b =>
      obtain ⟨row, tags, rfl, l, -, htarget, -⟩ := hheld
      obtain rfl : bookmarkId = row.id := by simpa [hreq, Crud.target] using htarget
      rcases Phase.commit_update I hadd l hreq hnames hts with ⟨hv, db₂, hc, htags, W⟩ | ⟨hv, hc⟩
      · obtain ⟨rfl, rfl⟩ := hout hc
        exact .updated hreq hv htags W
      · obtain ⟨rfl, rfl⟩ := hout hc
        exact .lost hv
  | delete bookmarkId ifMatch =>
    cases held with
    | none => simp [Held, hreq, Crud.target] at hheld
    | some b =>
      obtain ⟨row, tags, rfl, l, -, htarget, -⟩ := hheld
      obtain rfl : bookmarkId = row.id := by simpa [hreq, Crud.target] using htarget
      rcases Phase.commit_delete I hadd newTags l hreq with ⟨hv, db₂, hc, htags, W⟩ | ⟨hv, hc⟩
      · obtain ⟨rfl, rfl⟩ := hout hc
        exact .deleted hreq hv htags W
      · obtain ⟨rfl, rfl⟩ := hout hc
        exact .lost hv

/-- **A move has one of the three effects.** -/
theorem effect_next (r : Running call h p)
    (hfresh : p.creating → h.now.nextId P ∉ h.versioned.used)
    (hnext : p.next call h.now = some (db', p')) : Effect h p db' p' := by
  cases Phase.move_of_next hnext with
  | created => exact .quiet (Or.inr (Phase.pending_resolve _ _))
  | updating => exact .quiet (Or.inr (Phase.pending_resolve _ _))
  | resolved => exact .quiet (Or.inl rfl)
  | reused => exact .quiet (Or.inl rfl)
  | inserted hmissing hnew =>
    obtain ⟨-, -, -, hown⟩ := r.holds
    exact .insert (if_neg hmissing) hnew (fun hmem => hmissing (List.map_subset _ hown hmem)) rfl
  | committed hcommit =>
    cases commit_cases r hcommit with
    | created hreq htags W =>
      have hevolves := W.evolves (Or.inl (hfresh trivial))
      exact .write ⟨_, _, _, rfl⟩ rfl htags W hevolves
    | @updated row tags _ _ _ hreq hv htags W =>
      have hlt := Nat.lt_succ_self (Entry.ofRows row tags).version
      have hevolves := W.evolves (Or.inr (Or.inr ⟨_, _, hv, rfl, hlt⟩))
      exact .write ⟨_, _, _, rfl⟩ rfl htags W hevolves
    | deleted hreq hv htags W =>
      have hevolves := W.evolves (Or.inr (Or.inl rfl))
      exact .write ⟨_, _, _, rfl⟩ rfl htags W hevolves
    | lost hv => exact .quiet (Or.inr rfl)
  | _ => exact .quiet (Or.inr rfl)

/-- **An effect advances the history.** -/
theorem Effect.advances (e : Effect h p db' p') : h.Advances (h.push db') := by
  cases e with
  | quiet => exact .of_view_eq rfl (Db.Keeps.refl _)
  | insert =>
    have hseq : h.now.tagSeq ≤ h.now.tagSeq + 1 := by omega
    exact .of_view_eq rfl ⟨rfl, List.Subset.refl _, le_rfl, hseq⟩
  | write hcommit hp htags W hevolves => exact .push hevolves W.keeps

/-- It keeps the constraints, and that the mover's tags can join. -/
theorem Effect.mover (e : Effect h p db' p') (I : h.now.Integrity)
    (hadd : h.now.Addable p.pending) : db'.Integrity ∧ db'.Addable p'.pending := by
  cases e with
  | quiet hp =>
    refine ⟨I, ?_⟩
    rcases hp with hp | hp
    · exact hp ▸ hadd
    · exact hp ▸ Db.addable_nil _
  | insert _ hnew hown hp => exact ⟨I.advanceTagSeq, hp ▸ hadd.concat I hnew hown⟩
  | write _ hp _ W => exact ⟨W.integrity, hp ▸ Db.addable_nil _⟩

/-! ### The phase it leads to -/

/-- A request's own names are normal: they are looked up, if there are any. -/
theorem resolve_names (held : Option Bookmark) {names : Option (List Str)}
    (hnames : call.request.names = names) :
    (names = none ∧ Phase.resolve P held names = .committing held none []) ∨
      (names = some [] ∧ Phase.resolve P held names = .committing held (some []) []) ∨
      ∃ ns, names = some ns ∧ Phase.resolve P held names = .lookup held ns := by
  rcases names with _ | ns
  · exact Or.inl ⟨rfl, rfl⟩
  · rw [Phase.resolve, normalizeTags_normalized (Crud.normalized_names hnames)]
    by_cases hnil : ns = []
    · exact Or.inr (Or.inl ⟨by rw [hnil], by simp only [hnil, if_true]⟩)
    · exact Or.inr (Or.inr ⟨ns, rfl, by simp only [hnil, if_false]⟩)

theorem holds_resolve {held : Option Bookmark} {names : Option (List Str)}
    (hheld : Held call h held) (hnames : call.request.names = names) :
    Holds call h (Phase.resolve P held names) := by
  obtain ⟨rfl, hp⟩ | ⟨rfl, hp⟩ | ⟨ns, rfl, hp⟩ := resolve_names held hnames <;> rw [hp]
  · exact ⟨hheld, hnames.symm, by simp⟩
  · exact ⟨hheld, hnames.symm, by simp⟩
  · exact ⟨hheld, hnames⟩

/-- The bookmark that a write holds whose precondition accepts the row it read. -/
theorem Holds.held {row : BookmarkRow} (hp : Holds call h (.rowRead row))
    (hacc : call.request.Accepts row.version) :
    Held call h (some (.loaded row (h.now.tagsOf P row.id))) :=
  ⟨_, _, rfl, .of_readRow P hp.1, hp.2.1, hp.2.2, hacc⟩

/-- **A phase leads to one that asserts what it should.** -/
theorem holds_next (r : Running call h p) (hnext : p.next call h.now = some (db', p'))
    (a : h.Advances (h.push db')) : Holds call (h.push db') p' := by
  have hp := r.holds
  cases Phase.move_of_next hnext with
  | created hreq => exact (holds_resolve (by rw [Held, hreq]; rfl) (by rw [hreq]; rfl)).advance a
  | found hk hget howner =>
    exact Holds.advance a ⟨.of_get? hget, howner, hk.trans (by rw [(Table.get?_eq_some.mp hget).2])⟩
  | updating hreq hx =>
    refine Holds.advance a (holds_resolve (hp.held (by rw [hreq]; exact hx)) ?_)
    rw [hreq, Routers.changesOf_tags]
    rfl
  | deleting hreq hx =>
    refine Holds.advance a ⟨hp.held (by rw [hreq]; exact hx), ?_, by simp⟩
    rw [hreq]
    rfl
  | lookedUp =>
    refine Holds.advance a ⟨hp.1, hp.2, fun t ht => Or.inl ?_, List.nil_subset _⟩
    rw [List.append_nil] at ht
    exact (List.mem_filter.mp ht).1
  | @resolved _ byName =>
    obtain ⟨hheld, hnames, hts, -⟩ := hp
    refine Holds.advance a ⟨hheld, ?_, ?_⟩
    · rw [hnames, List.append_nil]
      rfl
    · rintro ts ⟨⟩ t ht
      exact hts t (List.mem_append_right byName ht)
  | reused htag hname =>
    obtain ⟨hheld, hnames, hts, hown⟩ := hp
    refine Holds.advance a ⟨hheld, ?_, fun t ht => ?_, hown⟩
    · rw [hnames, List.map_append, List.append_assoc, List.map_singleton, hname]
      rfl
    · rw [← List.append_assoc, List.mem_append, List.mem_singleton] at ht
      rcases ht with ht | rfl
      · exact hts t ht
      · exact hts t (List.mem_append_left _ htag)
  | @inserted _ byName result _ name =>
    obtain ⟨hheld, hnames, hts, hown⟩ := hp
    refine ⟨hheld.advance a, ?_, fun t ht => ?_, ?_⟩
    · rw [hnames, List.map_append, List.append_assoc]
      rfl
    · have ht' : t = ⟨h.now.tagSeq + 1, name⟩ ∨ t ∈ byName ++ result := by
        simp only [List.mem_append, List.mem_cons, List.not_mem_nil, or_false] at ht ⊢
        tauto
      rcases ht' with rfl | ht'
      · exact Or.inr (List.mem_append_right _ List.mem_cons_self)
      · exact (hts t ht').imp_right fun ht => List.mem_append_left _ ht
    · refine List.append_subset.mpr ⟨fun t ht => List.mem_cons_of_mem _ (hown ht), ?_⟩
      exact List.cons_subset.mpr ⟨List.mem_cons_self, List.nil_subset _⟩
  | committed hcommit =>
    cases commit_cases r hcommit with
    | _ => trivial
  | _ => trivial

/-- **A request on its way stays so.** -/
theorem Running.next (r : Running call h p)
    (hfresh : p.creating → h.now.nextId P ∉ h.versioned.used)
    (hnext : p.next call h.now = some (db', p')) : Running call (h.push db') p' := by
  have e := effect_next r hfresh hnext
  obtain ⟨I, hadd⟩ := e.mover r.integrity r.addable
  exact ⟨I, e.advances.keeps.registered.mpr r.registered, hadd, holds_next r hnext e.advances⟩

end
