import BookmarksApi.Concurrent.Moves

/-!
# Concurrent/Alone — a request nobody interrupts

The routes take a request in one go, the machine takes it statement by statement.  They are one
service: a request that has the machine to itself ends with its route's response, and leaves tables
that show what the route's show (`Config.run_alone`).
-/

variable {P : Platform}

namespace Phase

/-- The statements of a request, one after the other. -/
def Alone (call : Call (Crud P)) : Db × Phase → Db × Phase → Prop :=
  Relation.ReflTransGen fun a b => a.2.next call a.1 = some b

/-- **How a request ends that runs alone**, as an outcome over the map. -/
inductive Ends (call : Call (Crud P)) (db : Db) (p : Phase) :
    Except Exc (Response Body × Entries) → Prop
  | error (x : Exc) {db' : Db} (h : Alone call (db, p) (db', done (.error x)))
      (hv : db'.view = db.view) : Ends call db p (.error x)
  | ok (r : Response Body) {db' : Db} {s' : Entries} (h : Alone call (db, p) (db', done (.ok r)))
      (hv : db'.view = s') : Ends call db p (.ok (r, s'))

variable {call : Call (Crud P)} {db db' : Db} {p p' : Phase}

/-- Statements that show in no entry, and the rest. -/
theorem Ends.of_alone {out : Except Exc (Response Body × Entries)}
    (h : Alone call (db, p) (db', p')) (hv : db'.view = db.view) (he : Ends call db' p' out) :
    Ends call db p out := by
  cases he with
  | error x h' hv' => exact .error x (h.trans h') (hv'.trans hv)
  | ok r h' hv' => exact .ok r (h.trans h') hv'

/-- A statement that reads. -/
theorem Ends.head {out : Except Exc (Response Body × Entries)}
    (h : p.next call db = some (db, p')) (he : Ends call db p' out) : Ends call db p out :=
  .of_alone (.single h) rfl he

/-! ## Tags -/

/-- **Ready to commit**: all that has changed is the number the tags have got to. -/
structure Ready (call : Call (Crud P)) (db : Db) (h : History Db) (held : Option Bookmark)
    (newTags : Option (List TagRow)) (pending : List TagRow) : Prop where
  counted : ∃ n, h.now = { db with tagSeq := n }
  running : Running call h (committing held newTags pending)

/-- Nothing that a request goes by has changed. -/
theorem Ready.unchanged {h : History Db} {held : Option Bookmark} {newTags : Option (List TagRow)}
    {pending : List TagRow} (r : Ready call db h held newTags pending) :
    h.now.view = db.view ∧ h.now.nextId P = db.nextId P := by
  obtain ⟨n, hnow⟩ := r.counted
  rw [hnow]
  exact ⟨rfl, rfl⟩

/-- **The loop of `get_or_create`** has what is stored, and inserts the rest. -/
theorem alone_resolving {held : Option Bookmark} : ∀ {todo : List Str} {h : History Db}
    {byName result pending : List TagRow},
    Running call h (resolving held byName todo result pending) →
    (∀ n ∈ todo, n ∈ h.now.tags.rows.map TagRow.name → n ∈ byName.map TagRow.name) →
    ∃ h' newTags pending', Alone call (h.now, resolving held byName todo result pending)
      (h'.now, committing held newTags pending') ∧ Ready call h.now h' held newTags pending' := by
  intro todo
  induction todo with
  | nil =>
    intro h byName result pending r _
    have hnext : (resolving held byName [] result pending).next call h.now
        = some (h.now, committing held (some result) pending) := rfl
    exact ⟨h.push h.now, _, _, .single hnext, ⟨_, rfl⟩, r.next False.elim hnext⟩
  | cons name todo ih =>
    intro h byName result pending r hstored
    have htodo := fun n hn => hstored n (List.mem_cons_of_mem name hn)
    rcases hfind : byName.find? fun t => t.name = name with _ | tag
    · have hmissing : name ∉ byName.map TagRow.name := by simpa using List.find?_eq_none.mp hfind
      have hnew : name ∉ h.now.tags.rows.map TagRow.name :=
        fun hmem => hmissing (hstored name List.mem_cons_self hmem)
      have hnext : (resolving held byName (name :: todo) result pending).next call h.now
          = some ({ h.now with tagSeq := h.now.tagSeq + 1 },
            resolving held (⟨h.now.tagSeq + 1, name⟩ :: byName) todo
              (result ++ [⟨h.now.tagSeq + 1, name⟩]) (pending ++ [⟨h.now.tagSeq + 1, name⟩])) := by
        simp only [next, turn, hfind, if_neg hnew]
      obtain ⟨h', newTags, pending', hrun, ⟨n, hn⟩, r'⟩ := ih (r.next False.elim hnext)
        fun n hn hmem => List.mem_cons_of_mem _ (htodo n hn hmem)
      exact ⟨h', newTags, pending', .head hnext hrun, ⟨n, hn⟩, r'⟩
    · have hnext : (resolving held byName (name :: todo) result pending).next call h.now
          = some (h.now, resolving held byName todo (result ++ [tag]) pending) := by
        simp only [next, turn, hfind]
      obtain ⟨h', newTags, pending', hrun, hready⟩ := ih (r.next False.elim hnext) htodo
      exact ⟨h', newTags, pending', .head hnext hrun, hready⟩

/-- **A request alone resolves its tags.** -/
theorem alone_resolve {h : History Db} (held : Option Bookmark) (names : Option (List Str))
    (I : h.now.Integrity) (hreg : h.now.Registered call.user) (hheld : Held call h held)
    (hnames : call.request.names = names) :
    ∃ h' newTags pending, Alone call (h.now, resolve P held names)
      (h'.now, committing held newTags pending) ∧ Ready call h.now h' held newTags pending := by
  have hp := holds_resolve hheld hnames
  obtain ⟨rfl, heq⟩ | ⟨rfl, heq⟩ | ⟨ns, rfl, heq⟩ := resolve_names held hnames <;> rw [heq] at hp ⊢
  · exact ⟨h, _, _, .refl, ⟨_, rfl⟩, I, hreg, h.now.addable_nil, hp⟩
  · exact ⟨h, _, _, .refl, ⟨_, rfl⟩, I, hreg, h.now.addable_nil, hp⟩
  · have hnext : (lookup held ns).next call h.now
        = some (h.now, resolving held (TagRepository.existing h.now ns) ns [] []) := rfl
    have r : Running call h (lookup held ns) := ⟨I, hreg, h.now.addable_nil, hp⟩
    obtain ⟨h', newTags, pending, hrun, hready⟩ :=
      alone_resolving (r.next False.elim hnext) fun n hn hmem => by
        obtain ⟨t, ht, rfl⟩ := List.mem_map.mp hmem
        exact List.mem_map_of_mem (List.mem_filter.mpr ⟨ht, by simpa using hn⟩)
    exact ⟨h', newTags, pending, .head hnext hrun, hready⟩

/-! ## Requests -/

/-- What `get_owned` selects, and what it does not. -/
theorem selected_eq (db : Db) (userId bookmarkId : ℤ) :
    selected P db userId bookmarkId = match Entries.read P db.view userId bookmarkId with
      | .error x => done (.error x)
      | .ok e => rowRead e.row := by
  rw [selected, BookmarkRepository.ownedRow, Entries.read, Entries.owned, Db.view,
    Option.filter_map]
  split_ifs
  · rw [show (fun e : Entry => decide (e.row.userId = userId)) ∘
      (fun row => (⟨row, db.tagNames bookmarkId⟩ : Entry)) = fun row => decide (row.userId = userId)
      from rfl]
    rcases (db.bookmarks.get? bookmarkId).filter _ with _ | row <;> rfl
  · rfl

/-- After the commit: the entry it wrote, re-read. -/
theorem alone_refreshing (call : Call (Crud P)) {k : ℤ} {e : Entry} (I : db.Integrity)
    (hv : db.view k = some e) :
    Alone call (db, refreshing k) (db, done (.ok (e.answer P (okStatus call.request)))) := by
  obtain rfl : e.row.id = k := Db.id_of_view hv
  obtain ⟨hget, htags⟩ := Db.view_eq_some.mp hv
  have hrow : (refreshing e.row.id).next call db = some (db, rowRefreshed e.row) := by
    rw [next, reselected, hget]
  have hdone : (rowRefreshed e.row).next call db
      = some (db, done (.ok (e.answer P (okStatus call.request)))) := by
    rw [next, Db.bookmarkResponse_loaded I, htags]
  exact .head hrow (.single hdone)

theorem create_alone (I : db.Integrity) (hreg : db.Registered call.user)
    {payload : BookmarkCreate P} (hreq : call.request = .create payload) :
    Ends call db start
      (Entries.crud call.now (db.nextId P) call.user db.view (.create payload)) := by
  have hstart : start.next call db = some (db, resolve P none (some payload.tags)) := by
    rw [next, hreq]
  obtain ⟨h, newTags, pending, hrun, hready⟩ := alone_resolve (h := .single db) none
    (some payload.tags) I hreg (by rw [Held, hreq]; rfl) (by rw [hreq]; rfl)
  obtain ⟨hview, hid⟩ := hready.unchanged
  obtain ⟨I', hreg', hadd, -, hnames, hts⟩ := hready.running
  obtain ⟨db', hcommit, -, W⟩ :=
    commit_create I' hadd hreg' hreq (by rw [hnames, hreq]; rfl) hts
  have hlast := alone_refreshing call W.integrity W.view_self
  rw [hid] at hcommit hlast W
  rw [hreq] at hlast
  refine .ok _ (.head hstart (hrun.trans (.head hcommit hlast))) ?_
  rw [W.view, hview]
  rfl

theorem get_alone (I : db.Integrity) {bookmarkId : ℤ} (hreq : call.request = .get bookmarkId) :
    Ends call db start
      (Entries.crud (P := P) call.now (db.nextId P) call.user db.view (.get bookmarkId)) := by
  have hstart : start.next call db = some (db, selected P db call.user bookmarkId) := by
    rw [next, hreq]
  refine .head hstart ?_
  rw [selected_eq, Entries.crud]
  rcases hread : Entries.read P db.view call.user bookmarkId with x | e
  · exact .error x .refl rfl
  have hv := (Entries.owned_eq_some.mp (Entries.read_eq_ok.mp hread).2).1
  have hdone : (rowRead e.row).next call db = some (db, done (.ok (e.answer P 200))) := by
    rw [next, hreq, ← Db.bookmarkResponse_load I hv]
    rfl
  exact .ok _ (.single hdone) rfl

/-- **A write reads and checks as over the map**; what is left is what it does with what it
loaded. -/
theorem Ends.guarded {bookmarkId : ℤ} {ifMatch : Option Str}
    (htarget : call.request.target = some bookmarkId) (hwrites : call.request.Writes ifMatch)
    {g : Entry → Except Exc (Response Body × Entries)}
    (hgo : ∀ row tags, Loaded P (History.single db) row tags → row.userId = call.user →
      row.id = bookmarkId → db.view bookmarkId = some (Entry.ofRows row tags) →
      BookmarkService.checkPrecondition row.version ifMatch = .ok () →
      Ends call db (loaded (.loaded row tags) call.request) (g (Entry.ofRows row tags))) :
    Ends call db start (do
      let e ← Entries.read P db.view call.user bookmarkId
      BookmarkService.checkPrecondition e.row.version ifMatch
      g e) := by
  have hstart : start.next call db = some (db, selected P db call.user bookmarkId) := by
    cases hreq : call.request with
    | create => rw [hreq] at htarget; cases htarget
    | _ => rw [hreq] at htarget; cases htarget; rw [next, hreq]
  refine .head hstart ?_
  rw [selected_eq]
  rcases hread : Entries.read P db.view call.user bookmarkId with x | e
  · exact .error x .refl rfl
  obtain ⟨hv, howner⟩ := Entries.owned_eq_some.mp (Entries.read_eq_ok.mp hread).2
  obtain rfl : e.row.id = bookmarkId := Db.id_of_view hv
  obtain ⟨hsnap, hshown⟩ := Db.snapshot_load (P := P) hv
  have hload : (rowRead e.row).next call db
      = some (db, loaded (.loaded e.row (db.tagsOf P e.row.id)) call.request) := rfl
  refine .head hload ?_
  simp only [bind, Except.bind]
  rcases hpre : BookmarkService.checkPrecondition e.row.version ifMatch with x | _
  · have hrefused : loaded (.loaded e.row (db.tagsOf P e.row.id)) call.request
        = done (.error x) := by
      generalize call.request = request at hwrites ⊢
      cases hwrites with
      | update => simp only [loaded, Bookmark.loaded, hpre]
      | delete => simp only [loaded, Bookmark.loaded, hpre]
    rw [hrefused]
    exact .error x .refl rfl
  · have l : Loaded P (History.single db) e.row (db.tagsOf P e.row.id) :=
      .of_readRow (h := .single db) P (.of_get? (h := .single db) hsnap.get?)
    have hgo := hgo e.row _ l howner rfl hsnap.view hpre
    rwa [show Entry.ofRows e.row (db.tagsOf P e.row.id) = e from hshown] at hgo

theorem update_alone (I : db.Integrity) (hreg : db.Registered call.user) {bookmarkId : ℤ}
    {payload : BookmarkUpdate P} {ifMatch : Option Str}
    (hreq : call.request = .update bookmarkId payload ifMatch) :
    Ends call db start (Entries.crud call.now (db.nextId P) call.user db.view
      (.update bookmarkId payload ifMatch)) := by
  have htarget : call.request.target = some bookmarkId := by rw [hreq]; rfl
  refine .guarded htarget (hreq ▸ .update) fun row tags l howner hid hv hpre => ?_
  rw [hreq]
  simp only [loaded, Bookmark.loaded, hpre]
  obtain ⟨h, newTags, pending, hrun, hready⟩ := alone_resolve (h := .single db)
    (some (.loaded row tags)) (Routers.changesOf payload).tags.join I hreg
    ⟨row, tags, rfl, l, howner, hid ▸ htarget, by rw [hreq]; exact hpre⟩
    (by rw [hreq, Routers.changesOf_tags]; rfl)
  obtain ⟨hview, -⟩ := hready.unchanged
  obtain ⟨I', -, hadd, ⟨_, _, hb, l', -⟩, hnames, hts⟩ := hready.running
  cases hb
  subst hid
  rcases commit_update I' hadd l' hreq (by rw [hnames, hreq]; rfl) hts with
    ⟨-, db', hcommit, -, W⟩ | ⟨hne, -⟩
  · have hlast := alone_refreshing call W.integrity W.view_self
    rw [hreq] at hlast
    refine .ok _ (hrun.trans (.head hcommit hlast)) ?_
    rw [W.view, hview]
    rfl
  · rw [hview] at hne
    exact absurd hv hne

theorem delete_alone (I : db.Integrity) {bookmarkId : ℤ} {ifMatch : Option Str}
    (hreq : call.request = .delete bookmarkId ifMatch) :
    Ends call db start (Entries.crud (P := P) call.now (db.nextId P) call.user db.view
      (.delete bookmarkId ifMatch)) := by
  refine .guarded (by rw [hreq]; rfl) (hreq ▸ .delete) fun row tags l howner hid hv hpre => ?_
  rw [hreq]
  simp only [loaded, Bookmark.loaded, hpre]
  subst hid
  rcases commit_delete (h := .single db) I db.addable_nil none l hreq with
    ⟨-, db', hcommit, -, W⟩ | ⟨hne, -⟩
  · exact .ok _ (.single hcommit) W.view
  · exact absurd hv hne

/-- **A request alone ends as over the map.** -/
theorem crud_alone (I : db.Integrity) (hreg : db.Registered call.user) :
    Ends call db start
      (Entries.crud call.now (db.nextId P) call.user db.view call.request) := by
  cases hreq : call.request with
  | create payload => exact create_alone I hreg hreq
  | get bookmarkId => exact get_alone I hreq
  | update bookmarkId payload ifMatch => exact update_alone I hreg hreq
  | delete bookmarkId ifMatch => exact delete_alone I hreq

end Phase

/-! ## The machine -/

section

variable {ι : Type*} [DecidableEq ι] {req : ι → Call (Crud P)} {c : Config ι} {i : ι}

/-- **A request that has the machine to itself ends as its route**: with its response, over tables
that show the same. -/
theorem Config.run_alone (I : c.shared.now.Integrity) (hreg : c.shared.now.Registered (req i).user)
    (hstart : c.thread i = .start) (hidle : ∀ j, j ≠ i → (c.thread j).pending = []) :
    ∃ c' result, ((machine req).restrict fun j _ _ => j = i).Run c c' ∧
      c'.thread i = .done result ∧ (∀ j, j ≠ i → c'.thread j = c.thread j) ∧
      Response.ofExcept result = (Routers.respondCrud c.shared.now (req i)).1 ∧
      c'.shared.now.view = (Routers.respondCrud c.shared.now (req i)).2.view := by
  have hlift : ∀ {b}, Phase.Alone (req i) (c.shared.now, c.thread i) b → ∃ c',
      ((machine req).restrict fun j _ _ => j = i).Run c c' ∧
        (c'.shared.now, c'.thread i) = b ∧ ∀ j, j ≠ i → c'.thread j = c.thread j := by
    refine Interleaving.exists_run_alone History.now fun d b hd hnext => ?_
    refine ⟨d.shared.push b.1, ⟨fun name _ j hj => ?_, b.1, hnext, rfl⟩, rfl⟩
    rw [hd j hj, hidle j hj]
    exact List.not_mem_nil
  obtain ⟨hresp, hview, -, -⟩ := Routers.respond_refines I (req i) hreg
  rw [hresp, hview, Entries.respond]
  have hends : Phase.Ends (req i) c.shared.now .start _ := Phase.crud_alone I hreg
  generalize Entries.crud _ _ _ _ _ = out at hends ⊢
  rw [← hstart] at hends
  cases hends with
  | error x h hv =>
    obtain ⟨c', hrun, hb, hothers⟩ := hlift h
    obtain ⟨rfl, hdone⟩ := Prod.mk.inj hb
    exact ⟨c', _, hrun, hdone, hothers, rfl, hv⟩
  | ok r h hv =>
    obtain ⟨c', hrun, hb, hothers⟩ := hlift h
    obtain ⟨rfl, hdone⟩ := Prod.mk.inj hb
    exact ⟨c', _, hrun, hdone, hothers, rfl, hv⟩

end
