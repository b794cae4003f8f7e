import BookmarksApi.Concurrent.Invariant

/-!
# Concurrent/LostUpdates — no update is lost

An update or delete changes an entry only if the entry is the one it loaded, in a version its
`If-Match` accepts; otherwise it changes nothing and ends as a conflict.  What is asked of the
database is that ids are not handed out twice.
-/

variable {P : Platform}

/-- What an accepted update or delete makes of an entry. -/
def Crud.edit (now : ℤ) (c : Crud P) (e : Entry) : Option Entry :=
  match c with
  | .update _ payload _ => some (e.change now (Routers.changesOf payload))
  | _ => none

/-- What a commit was asked to write: the payload of a create, or the loaded entry with its
changes. -/
def Wrote (call : Call (Crud P)) (k : ℤ) : Option Bookmark → Entry → Prop
  | none, e =>
    ∃ payload, call.request = .create payload ∧ e = .ofPayload call.now k call.user payload
  | some b, e => call.request.edit call.now (Entry.ofRows b.stored b.storedTags) = some e

/-- The names given are the names the entry gets. -/
theorem Wrote.tags {call : Call (Crud P)} {k : ℤ} {held : Option Bookmark} {e : Entry}
    (h : Wrote call k held e) {names : List Str} (hnames : call.request.names = some names) :
    e.tags = names.toFinset := by
  rcases held with _ | b
  · obtain ⟨payload, hreq, rfl⟩ := h
    rw [hreq] at hnames
    obtain rfl := Option.some.inj hnames
    rfl
  · cases hreq : call.request with
    | update bookmarkId payload ifMatch =>
      rw [hreq] at hnames
      rw [Wrote, hreq] at h
      obtain rfl := Option.some.inj h
      simp only [Entry.change, Routers.changesOf_tags]
      rw [show payload.tags.join = some names from hnames]
      rfl
    | _ =>
      rw [Wrote, hreq] at h
      cases h

section

variable {ι : Type*} [DecidableEq ι] {req : ι → Call (Crud P)} {c c' : Config ι} {i : ι}

/-- **A commit that succeeds has written what it was asked to.** -/
theorem Sound.wrote (s : Sound req c) {held : Option Bookmark} {newTags : Option (List TagRow)}
    {pending : List TagRow} {k : ℤ} (hphase : c.thread i = .committing held newTags pending)
    (hs : (machine req).StepBy i c c') (hok : c'.thread i = .refreshing k) :
    ∃ e, c'.shared.now.view k = some e ∧ Wrote (req i) k held e := by
  have hcases := s.committed hphase hs
  generalize c'.thread i = p' at hcases hok
  generalize c'.shared.now = db' at hcases ⊢
  cases hcases with
  | created hreq htags W =>
    cases hok
    exact ⟨_, W.view_self, _, hreq, rfl⟩
  | updated hreq hv htags W =>
    cases hok
    exact ⟨_, W.view_self, by rw [Wrote, hreq]; rfl⟩
  | deleted => cases hok
  | lost => cases hok

/-- The commit of a loaded bookmark. -/
theorem Sound.commit_loaded (s : Sound req c) {row : BookmarkRow} {tags : List TagRow}
    {newTags : Option (List TagRow)} {pending : List TagRow}
    (hphase : c.thread i = .committing (some (.loaded row tags)) newTags pending)
    (hs : (machine req).StepBy i c c') :
    (c.shared.now.view row.id = some (Entry.ofRows row tags) ∧
      c'.shared.now.view = Function.update c.shared.now.view row.id
        ((req i).request.edit (req i).now (Entry.ofRows row tags))) ∨
    (c.shared.now.view row.id ≠ some (Entry.ofRows row tags) ∧ c'.shared.now = c.shared.now ∧
      c'.thread i = .conflicted row.id) := by
  have hcases := s.committed hphase hs
  generalize hb : some (Bookmark.loaded row tags) = held at hcases
  generalize c'.thread i = p' at hcases ⊢
  generalize c'.shared.now = db' at hcases ⊢
  cases hcases with
  | created => cases hb
  | updated hreq hv htags W =>
    cases hb
    rw [hreq]
    exact Or.inl ⟨hv, W.view⟩
  | deleted hreq hv htags W =>
    cases hb
    rw [hreq]
    exact Or.inl ⟨hv, W.view⟩
  | lost hv =>
    cases hb
    exact Or.inr ⟨hv, rfl, rfl⟩

/-- **A commit over the entry that its own request loaded and checked**: it is still what was
loaded, in a version that `If-Match` accepts, and that entry alone is changed. -/
structure OverLoaded (call : Call (Crud P)) (c c' : Config ι) (row : BookmarkRow)
    (tags : List TagRow) : Prop where
  loaded : Loaded P c.shared row tags
  owner : row.userId = call.user
  target : call.request.target = some row.id
  accepts : call.request.Accepts row.version
  found : c.shared.now.view row.id = some (Entry.ofRows row tags)
  written : c'.shared.now.view = Function.update c.shared.now.view row.id
    (call.request.edit call.now (Entry.ofRows row tags))

/-- A commit has succeeded: the re-read is next, or the 204 is given. -/
inductive Phase.Saved : Phase → Prop
  | refreshing {k : ℤ} : Saved (.refreshing k)
  | deleted {r : Response Body} : Saved (.done (.ok r))

/-- The commit of an update or delete that succeeds is over the entry it loaded. -/
theorem Sound.overLoaded (s : Sound req c) (hs : (machine req).StepBy i c c')
    (htarget : (req i).request.target ≠ none) {held : Option Bookmark}
    {newTags : Option (List TagRow)} {pending : List TagRow}
    (hphase : c.thread i = .committing held newTags pending) (hsaved : (c'.thread i).Saved) :
    ∃ row tags, held = some (.loaded row tags) ∧ OverLoaded (req i) c c' row tags := by
  have hp := s.2 i
  rw [hphase] at hp
  obtain ⟨hheld, -, -⟩ := hp
  rcases held with _ | b
  · exact absurd hheld htarget
  obtain ⟨row, tags, rfl, l, howner, htarget', hacc⟩ := hheld
  rcases s.commit_loaded hphase hs with ⟨hv, hview⟩ | ⟨-, -, hconflict⟩
  · exact ⟨row, tags, rfl, l, howner, htarget', hacc, hv, hview⟩
  · rw [hconflict] at hsaved
    cases hsaved

/-- A move that changes an entry is a commit that succeeds. -/
theorem Sound.saved_of_changes (s : Sound req c) (hfresh : Config.Fresh P c i)
    (hs : (machine req).StepBy i c c') (hne : c'.shared.now.view ≠ c.shared.now.view) :
    ∃ held newTags pending, c.thread i = .committing held newTags pending ∧
      (c'.thread i).Saved := by
  obtain ⟨db', hpush, e⟩ := s.effect hfresh hs.move_self
  have hview : db'.view ≠ c.shared.now.view := by rwa [hpush, History.push_now] at hne
  obtain ⟨held, newTags, pending, hphase⟩ :
      ∃ held newTags pending, c.thread i = .committing held newTags pending := by
    cases e with
    | quiet => exact absurd rfl hview
    | insert => exact absurd rfl hview
    | write hcommit => exact hcommit
  refine ⟨held, newTags, pending, hphase, ?_⟩
  have hcases := s.committed hphase hs
  generalize c'.thread i = p' at hcases ⊢
  generalize c'.shared.now = d at hcases hne
  cases hcases with
  | created => exact .refreshing
  | updated => exact .refreshing
  | deleted => exact .deleted
  | lost => exact absurd rfl hne

/-- **What an update makes of the entry it loaded**: one version up, with every column that it was
not asked to change as it was, `updated_at` aside, and the tags too unless it names some. -/
structure Entry.Updated (payload : BookmarkUpdate P) (e e' : Entry) : Prop where
  version : e'.version = e.version + 1
  id : e'.row.id = e.row.id
  userId : e'.row.userId = e.row.userId
  createdAt : e'.row.createdAt = e.row.createdAt
  url : payload.url.join = none → e'.row.url = e.row.url
  title : payload.title.join = none → e'.row.title = e.row.title
  description : payload.description = none → e'.row.description = e.row.description
  tags : payload.tags.join = none → e'.tags = e.tags

/-- The entry that the service writes is updated in this sense. -/
theorem Entry.updated_change (now : ℤ) (payload : BookmarkUpdate P) (e : Entry) :
    Entry.Updated payload e (e.change now (Routers.changesOf payload)) where
  version := rfl
  id := rfl
  userId := rfl
  createdAt := rfl
  url h := by simp only [Entry.change, Routers.changesOf, h, Option.getD_none]
  title h := by simp only [Entry.change, Routers.changesOf, h, Option.getD_none]
  description h := by simp only [Entry.change, Routers.changesOf, h, Option.getD_none]
  tags h := by
    simp only [Entry.change, Routers.changesOf_tags, h, Option.map_none, Option.getD_none]

/-- Only an update leaves an entry, and the one that it leaves is the loaded one, updated. -/
theorem Crud.updated_of_edit {now : ℤ} {r : Crud P} {e e' : Entry} (h : r.edit now e = some e') :
    ∃ bookmarkId payload ifMatch, r = .update bookmarkId payload ifMatch ∧
      e.Updated payload e' := by
  cases r with
  | update bookmarkId payload ifMatch =>
    obtain rfl := Option.some.inj h
    exact ⟨bookmarkId, payload, ifMatch, rfl, Entry.updated_change now payload e⟩
  | _ => cases h

/-- **No update is lost.**  However the requests interleave, every commit of an update or delete
that succeeds has found the entry that its own request loaded and checked, and changes that one: it
takes the version one up, leaving what it was not asked to change, or removes the entry.  No other
move of it changes an entry, and once the loaded version has been replaced or deleted, the commit
writes nothing and ends as a conflict. -/
theorem no_lost_update (hP : P.ids = .sequence) {db : Db} (I : db.Integrity)
    (hreg : ∀ i, db.Registered (req i).user)
    (hrun : (machine req).Run (Config.initial db) c) (hstep : (machine req).StepBy i c c')
    (htarget : (req i).request.target ≠ none) :
    (∀ held newTags pending, c.thread i = .committing held newTags pending →
      (c'.thread i).Saved → ∃ row tags, held = some (.loaded row tags) ∧
        OverLoaded (req i) c c' row tags ∧
        ∀ e, c'.shared.now.view row.id = some e → ∃ bookmarkId payload ifMatch,
          (req i).request = .update bookmarkId payload ifMatch ∧
            (Entry.ofRows row tags).Updated payload e) ∧
    (c'.shared.now.view ≠ c.shared.now.view → ∃ held newTags pending,
      c.thread i = .committing held newTags pending ∧ (c'.thread i).Saved) ∧
    ∀ row tags newTags pending,
      c.thread i = .committing (some (.loaded row tags)) newTags pending →
      (∀ e, c.shared.now.view row.id = some e → e.version ≠ row.version) →
      c'.shared.now = c.shared.now ∧ c'.thread i = .conflicted row.id := by
  obtain ⟨-, s, hn⟩ := (Sound.initial I hreg).run_of_sequence hP (History.numbered_single I) hrun
  refine ⟨fun held newTags pending hphase hsaved => ?_,
    s.saved_of_changes (Config.fresh_of_numbered hP hn i) hstep,
    fun row tags newTags pending hphase hgone => ?_⟩
  · obtain ⟨row, tags, hheld, h⟩ := s.overLoaded hstep htarget hphase hsaved
    refine ⟨row, tags, hheld, h, fun e he => ?_⟩
    rw [h.written, Function.update_self] at he
    exact Crud.updated_of_edit he
  · rcases s.commit_loaded hphase hstep with ⟨hv, -⟩ | ⟨-, hnow, hconflict⟩
    · exact absurd rfl (hgone _ hv)
    · exact ⟨hnow, hconflict⟩

end

/-! ## A race -/

/-- Alice creates a bookmark and updates it twice, first for its ETag and then for any. -/
def raceRequests : Fin 3 → Call (Crud .autoincrement)
  | 0 => ⟨1, 0, .create (.titled 'a')⟩
  | 1 => ⟨1, 1, .update 1 (.titled 'b') (some "\"1\"".toList)⟩
  | 2 => ⟨1, 2, .update 1 (.titled 'c') (some "*".toList)⟩

/-- The row both updates load. -/
def raceRow : BookmarkRow :=
  ⟨1, "https://example.com/".toList, ['a'], none, 1, .seconds 0, .seconds 0, 1⟩

/-- Both updates load version 1.  The first commit finds it and takes it to version 2; the second
finds it replaced. -/
theorem no_lost_update_race : (∃ c c' : Config (Fin 3),
      (machine raceRequests).Run (Config.initial Db.twoAccounts) c ∧
        (machine raceRequests).StepBy 1 c c' ∧ c'.thread 1 = .refreshing 1 ∧
        OverLoaded (raceRequests 1) c c' raceRow [] ∧
        ∀ e, c'.shared.now.view 1 = some e → e.version = 2) ∧
    ∃ c c' : Config (Fin 3),
      (machine raceRequests).Run (Config.initial Db.twoAccounts) c ∧
        (machine raceRequests).StepBy 2 c c' ∧ c'.shared.now = c.shared.now ∧
        c'.thread 2 = .conflicted 1 := by
  constructor
  · obtain ⟨c, c', -, hrun, hstep, -, hc⟩ := Config.exists_run raceRequests (fun _ _ _ => True)
      (.initial Db.twoAccounts) [0, 0, 1, 1, 2, 2] 1 [] (fun c c' _ =>
        decide (c.thread 1 = .committing (some (.loaded raceRow [])) none [] ∧
          c'.thread 1 = .refreshing 1)) (by decide +kernel)
    obtain ⟨hphase, hsaved⟩ := of_decide_eq_true hc
    have hrun := Interleaving.run_of_restrict hrun
    have hstep := (Interleaving.restrict_stepBy.mp hstep).1
    have hkept :=
      no_lost_update rfl Db.integrity_twoAccounts (by decide +kernel) hrun hstep (by decide)
    obtain ⟨row, tags, hheld, hover, hupdated⟩ := hkept.1 _ _ _ hphase (hsaved ▸ .refreshing)
    have heq := Option.some.inj hheld
    obtain ⟨rfl, rfl⟩ : raceRow = row ∧ [] = tags :=
      ⟨congrArg Bookmark.row heq, congrArg Bookmark.tags heq⟩
    refine ⟨c, c', hrun, hstep, hsaved, hover, fun e he => ?_⟩
    obtain ⟨_, _, _, -, h⟩ := hupdated e he
    exact h.version
  · obtain ⟨c, c', -, hrun, hstep, -, hc⟩ := Config.exists_run raceRequests (fun _ _ _ => True)
      (.initial Db.twoAccounts) [0, 0, 1, 1, 2, 2, 1] 2 [] (fun c _ _ =>
        decide (c.thread 2 = .committing (some (.loaded raceRow [])) none [] ∧
          ∀ e ∈ c.shared.now.view 1, e.version ≠ 1)) (by decide +kernel)
    obtain ⟨hphase, hgone⟩ := of_decide_eq_true hc
    have hrun := Interleaving.run_of_restrict hrun
    have hstep := (Interleaving.restrict_stepBy.mp hstep).1
    have hlost :=
      no_lost_update rfl Db.integrity_twoAccounts (by decide +kernel) hrun hstep (by decide)
    exact ⟨c, c', hrun, hstep, hlost.2.2 raceRow [] none [] hphase hgone⟩
