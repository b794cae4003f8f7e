import BookmarksApi.Concurrent.Invariant
import BookmarksApi.Store.Pages

/-!
# Concurrent/Traversal — page after page, while others write

A page below a cursor is read from the tables as they are at the time, and its `next_cursor` is the
last id it shows.  Whatever is written between two pages, the next one begins below that id, and
what it passes over is not below it.  So no id is shown twice, and none is missed that matches all
the while (`Traversal.stable`), whether a new row gets a number that was used before or not.
-/

variable {P : Platform}

/-- A page that a list request shows. -/
def Routers.Shows (P : Platform) (db : Db) (user : ℤ) (query : ListQuery) (page : BookmarkPage) :
    Prop :=
  ∃ now, (Routers.respond (P := P) db ⟨user, now, .list query⟩).1
    = { status := 200, body := .inl (.page page) }

/-- A page fetched, and the tables it was read from. -/
structure Fetched where
  db : Db
  items : List BookmarkOut

/-- **A traversal**: a page below a cursor, then one below the cursor that it hands out, until one
hands out none.  From one page to the next, `between` happens to the tables. -/
inductive Traversal {σ : Type*} (P : Platform) (now : σ → Db) (between : σ → σ → Prop) (user : ℤ)
    (f : BookmarkFilters) : σ → ℤ → List Fetched → Prop
  | last {s : σ} {cursor : ℤ} {query : ListQuery} {page : BookmarkPage}
      (hshows : Routers.Shows P (now s) user query page) (hf : query.filters = f)
      (hcursor : query.cursor = some cursor) (hnext : page.pagination.nextCursor = none) :
      Traversal P now between user f s cursor [⟨now s, page.items⟩]
  | next {s s' : σ} {cursor n : ℤ} {query : ListQuery} {page : BookmarkPage}
      {fetched : List Fetched} (hshows : Routers.Shows P (now s) user query page)
      (hf : query.filters = f) (hcursor : query.cursor = some cursor)
      (hnext : page.pagination.nextCursor = some n) (hbetween : between s s')
      (h : Traversal P now between user f s' n fetched) :
      Traversal P now between user f s cursor (⟨now s, page.items⟩ :: fetched)

/-- The ids that a traversal returns. -/
def Fetched.ids (fetched : List Fetched) : List ℤ :=
  fetched.flatMap fun page => page.items.map BookmarkOut.id

/-! ## One page -/

/-- What a list request shows is what the service returns. -/
theorem Routers.Shows.list {db : Db} {user : ℤ} {query : ListQuery} {out : BookmarkPage}
    (h : Routers.Shows P db user query out) : ∃ page,
      BookmarkService.list P db user query = .ok page ∧
        out = ⟨page.items.map .ofBookmark, page.pagination⟩ := by
  have herror : ∀ x, Response.ofExc x
      ≠ ({ status := 200, body := .inl (.page out) } : Response Body) := by
    intro x h
    have hbody := congrArg Response.body h
    cases x <;> cases hbody
  obtain ⟨now, h⟩ := h
  by_cases hu : db.Registered user
  · rw [Routers.respond_eq hu, Routers.route, Routers.listBookmarks] at h
    rcases hlist : BookmarkService.list P db user query with x | page
    · rw [hlist] at h
      exact absurd h (herror x)
    · rw [hlist] at h
      cases h
      exact ⟨page, rfl, rfl⟩
  · rw [Routers.respond_unregistered hu] at h
    exact absurd h (herror (.app _))

/-- **What a page below a cursor covers**: in falling order, everything selected below the cursor,
down to the cursor that it hands out. -/
structure BookmarkPage.Covers (page : BookmarkPage) (cursor : ℤ) (selected : ℤ → Prop) : Prop where
  falling : (page.items.map BookmarkOut.id).Pairwise (· > ·)
  lt_cursor : ∀ k ∈ page.items.map BookmarkOut.id, k < cursor
  next_mem : ∀ n, page.pagination.nextCursor = some n → n ∈ page.items.map BookmarkOut.id
  next_le : ∀ n, page.pagination.nextCursor = some n →
    ∀ k ∈ page.items.map BookmarkOut.id, n ≤ k
  complete : ∀ k, selected k → k < cursor → k ∈ page.items.map BookmarkOut.id ∨
    ∃ n, page.pagination.nextCursor = some n ∧ k < n

/-- A bookmark of the user's matches. -/
def Db.Selects (P : Platform) (db : Db) (user : ℤ) (f : BookmarkFilters) (k : ℤ) : Prop :=
  ∃ e, Entries.owned db.view user k = some e ∧ e.matches P f = true

/-- **A list request covers what its filters select.** -/
theorem Routers.Shows.covers {db : Db} (I : db.Integrity) {user cursor : ℤ} {query : ListQuery}
    {out : BookmarkPage} (h : Routers.Shows P db user query out)
    (hcursor : query.cursor = some cursor) :
    out.Covers cursor (db.Selects P user query.filters) := by
  obtain ⟨page, hlist, rfl⟩ := h.list
  obtain ⟨rest, hids, hend, hlast⟩ := BookmarkService.exists_idsBelow_list I hcursor hlist
  have hpage : (page.items.map BookmarkOut.ofBookmark).map BookmarkOut.id
      = page.items.map fun b => b.row.id := List.map_map
  have hfalling : (BookmarkRepository.idsBelow P db user query.filters cursor).Pairwise (· > ·) :=
    BookmarkRepository.pairwise_idsBelow I cursor
  rw [hids, List.pairwise_append] at hfalling
  obtain ⟨hshown, -, hrest⟩ := hfalling
  constructor <;> rw [hpage]
  · exact hshown
  · intro k hk
    have hmem := List.mem_append_left rest hk
    rw [← hids] at hmem
    exact (BookmarkRepository.mem_idsBelow.mp hmem).2
  · intro n hn
    obtain ⟨init, hinit⟩ := hlast n hn
    rw [hinit]
    exact List.mem_append_right init List.mem_cons_self
  · intro n hn k hk
    obtain ⟨init, hinit⟩ := hlast n hn
    rw [hinit] at hk hshown
    rcases List.mem_append.mp hk with hk | hk
    · exact ((List.pairwise_append.mp hshown).2.2 k hk n List.mem_cons_self).le
    · exact (List.mem_singleton.mp hk).ge
  · intro k hselected hlt
    have hmem := BookmarkRepository.mem_idsBelow.mpr ⟨hselected, hlt⟩
    rw [hids] at hmem
    refine (List.mem_append.mp hmem).imp_right fun hk => ?_
    rcases hnext : page.pagination.nextCursor with _ | n
    · rw [hend hnext] at hk
      cases hk
    · obtain ⟨init, hinit⟩ := hlast n hnext
      have hn : n ∈ page.items.map fun b => b.row.id := by
        rw [hinit]
        exact List.mem_append_right init List.mem_cons_self
      exact ⟨n, rfl, hrest n hn k hk⟩

/-! ## All pages -/

namespace Traversal

variable {σ : Type*} {now : σ → Db} {between : σ → σ → Prop} {J : σ → Prop} {user : ℤ}
  {f : BookmarkFilters} {s : σ} {cursor : ℤ} {fetched : List Fetched}

/-- **The ids fall over the whole traversal**, below its cursor. -/
theorem pairwise_ids (hJ : ∀ s, J s → (now s).Integrity)
    (hkeeps : ∀ s s', J s → between s s' → J s') (hs : J s)
    (h : Traversal P now between user f s cursor fetched) :
    (Fetched.ids fetched).Pairwise (· > ·) ∧ ∀ k ∈ Fetched.ids fetched, k < cursor := by
  induction h with
  | last hshows hf hcursor hnext =>
    have hpage := hshows.covers (hJ _ hs) hcursor
    rw [Fetched.ids, List.flatMap_singleton]
    exact ⟨hpage.falling, hpage.lt_cursor⟩
  | next hshows hf hcursor hnext hbetween h ih =>
    have hpage := hshows.covers (hJ _ hs) hcursor
    obtain ⟨hfalling, hlt⟩ := ih (hkeeps _ _ hs hbetween)
    rw [Fetched.ids, List.flatMap_cons]
    refine ⟨List.pairwise_append.mpr ⟨hpage.falling, hfalling, fun a ha b hb => ?_⟩, ?_⟩
    · exact (hlt b hb).trans_le (hpage.next_le _ hnext a ha)
    · intro k hk
      rcases List.mem_append.mp hk with hk | hk
      · exact hpage.lt_cursor k hk
      · exact (hlt k hk).trans (hpage.lt_cursor _ (hpage.next_mem _ hnext))

/-- **What every page could select is on one of them.** -/
theorem mem_ids (hJ : ∀ s, J s → (now s).Integrity)
    (hkeeps : ∀ s s', J s → between s s' → J s') (hs : J s)
    (h : Traversal P now between user f s cursor fetched) {k : ℤ}
    (hk : k < cursor) (hselected : ∀ page ∈ fetched, page.db.Selects P user f k) :
    k ∈ Fetched.ids fetched := by
  induction h with
  | last hshows hf hcursor hnext =>
    subst hf
    have hpage := hshows.covers (hJ _ hs) hcursor
    rw [Fetched.ids, List.flatMap_singleton]
    refine (hpage.complete k (hselected _ List.mem_cons_self) hk).resolve_right ?_
    rintro ⟨n, hn, -⟩
    rw [hnext] at hn
    cases hn
  | next hshows hf hcursor hnext hbetween h ih =>
    subst hf
    have hpage := hshows.covers (hJ _ hs) hcursor
    obtain ⟨hhere, hlater⟩ := List.forall_mem_cons.mp hselected
    rw [Fetched.ids, List.flatMap_cons, List.mem_append]
    refine (hpage.complete k hhere hk).imp_right ?_
    rintro ⟨n, hn, hlt⟩
    obtain rfl := Option.some.inj (hnext.symm.trans hn)
    exact ih (hkeeps _ _ hs hbetween) hlt hlater

/-- The first page is read where the traversal starts. -/
theorem exists_first (h : Traversal P now between user f s cursor fetched) :
    ∃ page ∈ fetched, page.db = now s := by
  cases h with
  | last => exact ⟨_, List.mem_cons_self, rfl⟩
  | next => exact ⟨_, List.mem_cons_self, rfl⟩

/-- **A traversal is stable**, whatever happens between the pages that keeps the constraints: its
ids fall, and what every page could select is returned once. -/
theorem stable (hJ : ∀ s, J s → (now s).Integrity) (hkeeps : ∀ s s', J s → between s s' → J s')
    (hs : J s) (h : Traversal P now between user f s cursor fetched)
    (hcursor : ∀ row ∈ (now s).bookmarks.rows, row.id < cursor) :
    (Fetched.ids fetched).Pairwise (· > ·) ∧
      ∀ k, (∀ page ∈ fetched, page.db.Selects P user f k) → (Fetched.ids fetched).count k = 1 := by
  obtain ⟨hfalling, -⟩ := h.pairwise_ids hJ hkeeps hs
  refine ⟨hfalling, fun k hselected => ?_⟩
  obtain ⟨page, hpage, hdb⟩ := h.exists_first
  obtain ⟨e, howned, -⟩ := hselected page hpage
  obtain ⟨hrow, -, rfl, -⟩ := Db.eq_entry_of_owned howned
  have hmem := h.mem_ids hJ hkeeps hs (hcursor e.row (hdb ▸ hrow)) hselected
  exact List.count_eq_one_of_mem (hfalling.imp ne_of_gt) hmem

end Traversal

/-! ## What happens between two pages -/

/-- Requests of any kind, by anybody, answered one after another. -/
def Requests (P : Platform) (db db' : Db) : Prop :=
  ∃ calls : List (Call (Request P)), db' = finalState Routers.respond db calls

theorem Requests.integrity {db db' : Db} (I : db.Integrity) (h : Requests P db db') :
    db'.Integrity := by
  obtain ⟨calls, rfl⟩ := h
  induction calls generalizing db with
  | nil => exact I
  | cons call calls ih => exact ih (Routers.respond_keeps I call).1

/-- **A traversal by cursor is stable while others write**: with requests between its pages, under
either rule for new ids, no id is returned twice, and every bookmark that matches on every page is
returned once. -/
theorem traversal_stable {db : Db} (I : db.Integrity) {user cursor : ℤ} {f : BookmarkFilters}
    {fetched : List Fetched} (h : Traversal P id (Requests P) user f db cursor fetched)
    (hcursor : ∀ row ∈ db.bookmarks.rows, row.id < cursor) :
    (Fetched.ids fetched).Pairwise (· > ·) ∧
      ∀ k, (∀ page ∈ fetched, page.db.Selects P user f k) → (Fetched.ids fetched).count k = 1 :=
  h.stable (J := Db.Integrity) (fun _ I => I) (fun _ _ => Requests.integrity) I hcursor

/-- The tables with two bookmarks of Alice's. -/
def twoTitled : Db :=
  finalState (Routers.respond (P := .sqlite)) Db.twoAccounts
    [⟨1, 0, .crud (.create (.titled 'a'))⟩, ⟨1, 0, .crud (.create (.titled 'b'))⟩]

/-- Bookmark 2 is deleted, and its number used again. -/
def rewritten : Db :=
  finalState (Routers.respond (P := .sqlite)) twoTitled
    [⟨1, 0, .crud (.delete 2 (some ['*']))⟩, ⟨1, 0, .crud (.create (.titled 'c'))⟩]

/-- One of them as it is shown. -/
def titledOut (k : ℤ) (title : Char) : BookmarkOut :=
  ⟨k, "https://example.com/".toList, [title], none, [], .seconds 0, .seconds 0, 1⟩

/-- One bookmark a page, below a cursor. -/
def ListQuery.oneBelow (cursor : ℤ) (h : 1 ≤ cursor) : ListQuery :=
  ⟨none, none, none, none, 1, 1, "-created_at".toList, some cursor, by decide, by decide,
    by decide, by simpa using h⟩

/-- The number of a bookmark that was shown and deleted does not come up again. -/
theorem traversal_stable_rewritten :
    (Fetched.ids [⟨twoTitled, [titledOut 2 'b']⟩, ⟨rewritten, [titledOut 1 'a']⟩]).Pairwise
        (· > ·) ∧
      ∀ k, (∀ page ∈ [(⟨twoTitled, [titledOut 2 'b']⟩ : Fetched), ⟨rewritten, [titledOut 1 'a']⟩],
          page.db.Selects .sqlite 1 {} k) →
        (Fetched.ids [⟨twoTitled, [titledOut 2 'b']⟩, ⟨rewritten, [titledOut 1 'a']⟩]).count k
          = 1 := by
  have I : twoTitled.Integrity := Requests.integrity Db.integrity_twoAccounts ⟨_, rfl⟩
  have hfirst : Routers.Shows .sqlite twoTitled 1 (.oneBelow 100 (by decide))
      ⟨[titledOut 2 'b'], ⟨1, 1, 2, 2, true, false, some 2⟩⟩ := ⟨0, by decide +kernel⟩
  have hsecond : Routers.Shows .sqlite rewritten 1 (.oneBelow 2 (by decide))
      ⟨[titledOut 1 'a'], ⟨1, 1, 2, 2, false, false, none⟩⟩ := ⟨0, by decide +kernel⟩
  have hlast := @Traversal.last Db .sqlite id (Requests .sqlite) 1 {} rewritten 2 _ _ hsecond
    rfl rfl rfl
  have h := @Traversal.next Db .sqlite id (Requests .sqlite) 1 {} twoTitled rewritten 100 2 _ _ _
    hfirst rfl rfl rfl ⟨_, rfl⟩ hlast
  exact traversal_stable I h (by decide +kernel)

section

variable {ι : Type*} [DecidableEq ι] {req : ι → Call (Crud P)} {c : Config ι}

/-- **So it is while requests run interleaved**, before, between and across its pages, on tables
whose ids come from a sequence. -/
theorem traversal_stable_interleaved (hP : P.ids = .sequence) {db : Db} (I : db.Integrity)
    (hreg : ∀ i, db.Registered (req i).user) (hrun : (machine req).Run (Config.initial db) c)
    {user cursor : ℤ} {f : BookmarkFilters} {fetched : List Fetched}
    (h : Traversal P (fun c => c.shared.now) (machine req).Run user f c cursor fetched)
    (hcursor : ∀ row ∈ c.shared.now.bookmarks.rows, row.id < cursor) :
    (Fetched.ids fetched).Pairwise (· > ·) ∧
      ∀ k, (∀ page ∈ fetched, page.db.Selects P user f k) →
        (Fetched.ids fetched).count k = 1 := by
  have hinit := (Sound.initial I hreg).run_of_sequence hP (History.numbered_single I) hrun
  exact h.stable (J := fun c : Config ι => Sound req c ∧ c.shared.Numbered)
    (fun _ hd => hd.1.1.integrity) (fun _ _ hd hrun => (hd.1.run_of_sequence hP hd.2 hrun).2)
    hinit.2 hcursor

end
