import BookmarksApi.Machinery.Runs
import BookmarksApi.Store.Cursors
import BookmarksApi.Store.Dates

/-!
# Sequential/Chronology — ids and timestamps in the order of time

New ids go up, and so does the clock that `created_at` is read from, so the two orders are one: the
bookmarks sorted newest first, as a list is by default, are the bookmarks sorted by id
(`newest_first`).  A new id may be one that was deleted before; what it never is, is below an id in
the table.
-/

namespace Stamp

/-- Whole seconds sort as numbers. -/
theorem seconds_le_seconds {s t : ℤ} (hs : InYears (seconds s).day) (ht : InYears (seconds t).day)
    (h : s ≤ t) : (seconds s).text ≤ (seconds t).text := by
  rcases h.eq_or_lt with rfl | hlt
  · exact le_rfl
  · refine (secondText_lt hs ht ?_).le
    rw [(day_seconds s).1, (day_seconds s).2, (day_seconds t).1, (day_seconds t).2]
    omega

end Stamp

/-- A moment that the texts of timestamps can write. -/
def Dated (now : ℤ) : Prop := Stamp.InYears (now / Stamp.dayMicros)

instance (now : ℤ) : Decidable (Dated now) := inferInstanceAs (Decidable (Stamp.InYears _))

/-- **Timestamps are stored in the order of time**: the server default's among themselves, and
before the moment of an update that is not earlier. -/
structure Platform.KeepsTime (P : Platform) : Prop where
  created : ∀ {s t : ℤ}, Dated s → Dated t → s ≤ t →
    P.stampOrder.le (P.currentTimestamp s) (P.currentTimestamp t) = true
  updated : ∀ {s t : ℤ}, Dated s → Dated t → s ≤ t →
    P.stampOrder.le (P.currentTimestamp s) (.micros t) = true

theorem Platform.keepsTime_sqlite : sqlite.KeepsTime := by
  have hseconds : ∀ {t : ℤ}, Dated t → Stamp.InYears (Stamp.seconds (t / 1000000)).day := by
    intro t ht
    rw [(Stamp.day_seconds _).1, Int.ediv_ediv_of_nonneg (by decide)]
    exact ht
  constructor
  · intro s t hs ht h
    exact decide_eq_true (Stamp.seconds_le_seconds (hseconds hs) (hseconds ht) (by omega))
  · intro s t hs ht h
    exact decide_eq_true (Stamp.seconds_lt_micros (hseconds hs) ht (by omega)).le

variable {P : Platform} {db : Db} {now : ℤ}

/-- A new bookmark gets an id past all that are there. -/
theorem Db.lt_nextId (I : db.Integrity) {i : ℤ} {e : Entry} (he : db.view i = some e) :
    i < db.nextId P := by
  obtain rfl := id_of_view he
  have hrow := (Table.get?_eq_some.mp (view_eq_some.mp he).1).1
  have hmax := IdRule.le_maxId (List.mem_map_of_mem (f := BookmarkRow.id) hrow)
  have hlast := I.bookmarkSeq _ hrow
  rw [nextId]
  cases P.ids with
  | maxPlusOne => simp only [IdRule.next]; omega
  | sequence => simp only [IdRule.next]; omega

/-- **Ids and timestamps go together**, up to a moment. -/
structure Chronicle (P : Platform) (now : ℤ) (s : Entries) : Prop where
  past : ∀ {i e}, s i = some e → P.stampOrder.le e.row.createdAt (P.currentTimestamp now) = true
  order : ∀ {i j e f}, s i = some e → s j = some f → i ≤ j →
    P.stampOrder.le e.row.createdAt f.row.createdAt = true
  touched : ∀ {i e}, s i = some e → P.stampOrder.le e.row.createdAt e.row.updatedAt = true

namespace Chronicle

variable {s : Entries} {fresh user later : ℤ}

/-- Where there are no bookmarks, nothing is out of order. -/
theorem of_empty (now : ℤ) (h : ∀ i, s i = none) : Chronicle P now s where
  past he := by
    rw [h] at he
    cases he
  order he := by
    rw [h] at he
    cases he
  touched he := by
    rw [h] at he
    cases he

/-- Later, they still go together. -/
theorem onward (hP : P.KeepsTime) (h : Chronicle P now s) (hnow : Dated now) (hlater : Dated later)
    (hle : now ≤ later) : Chronicle P later s :=
  { h with past := fun he => P.stampOrder.trans _ _ _ (h.past he) (hP.created hnow hlater hle) }

/-- **A call, not before the moment**, keeps them together up to its own. -/
theorem respond (hP : P.KeepsTime) (h : Chronicle P now s) (hnow : Dated now)
    (hlater : Dated later) (hle : now ≤ later) (hfresh : ∀ {i e}, s i = some e → i < fresh)
    (c : Crud P) : Chronicle P later (s.respond fresh ⟨user, later, c⟩).2 := by
  have hpast : ∀ {i e}, s i = some e →
      P.stampOrder.le e.row.createdAt (P.currentTimestamp later) = true :=
    (h.onward hP hnow hlater hle).past
  -- What is found afterwards is new under the new id, or was created as what was there.
  have hfound : ∀ {i e}, (s.respond fresh ⟨user, later, c⟩).2 i = some e →
      i = fresh ∧ e.row.createdAt = P.currentTimestamp later ∧
          e.row.updatedAt = P.currentTimestamp later ∨
        ∃ old, s i = some old ∧ e.row.createdAt = old.row.createdAt ∧
          (e.row.updatedAt = old.row.updatedAt ∨ e.row.updatedAt = .micros later) := by
    intro i e he
    rcases (s.respond_outcome fresh user later c).entry he with
      he | ⟨payload, -, rfl, rfl⟩ | ⟨payload, -, old, -, hown, rfl⟩
    · exact Or.inr ⟨e, he, rfl, Or.inl rfl⟩
    · exact Or.inl ⟨rfl, rfl, rfl⟩
    · exact Or.inr ⟨old, (Entries.owned_eq_some.mp hown).1, rfl, Or.inr rfl⟩
  constructor
  · intro i e he
    rcases hfound he with ⟨-, hcreated, -⟩ | ⟨old, hold, hcreated, -⟩
    · rw [hcreated]
      exact hP.created hlater hlater le_rfl
    · rw [hcreated]
      exact hpast hold
  · intro i j e f he hf hij
    rcases hfound he with ⟨rfl, hcreated, -⟩ | ⟨old, hold, hcreated, -⟩
    · rcases hfound hf with ⟨-, hcreated', -⟩ | ⟨old', hold', -, -⟩
      · rw [hcreated, hcreated']
        exact hP.created hlater hlater le_rfl
      · exact absurd (hfresh hold') (not_lt.mpr hij)
    · rcases hfound hf with ⟨-, hcreated', -⟩ | ⟨old', hold', hcreated', -⟩
      · rw [hcreated, hcreated']
        exact hpast hold
      · rw [hcreated, hcreated']
        exact h.order hold hold' hij
  · intro i e he
    rcases hfound he with ⟨-, hcreated, hupdated⟩ | ⟨old, hold, hcreated, hupdated | hupdated⟩
    · rw [hcreated, hupdated]
      exact hP.created hlater hlater le_rfl
    · rw [hcreated, hupdated]
      exact h.touched hold
    · rw [hcreated, hupdated]
      exact P.stampOrder.trans _ _ _ (h.past hold) (hP.updated hnow hlater hle)

end Chronicle

/-- The same request, sorted by id. -/
def ListQuery.byId (query : ListQuery) : ListQuery := { query with sort := "-id".toList }

namespace Routers

/-- **A request keeps ids and timestamps together.** -/
theorem chronicle_respond (hP : P.KeepsTime) (I : db.Integrity) (h : Chronicle P now db.view)
    (hnow : Dated now) (call : Call (Request P)) (hcall : Dated call.now) (hle : now ≤ call.now) :
    Chronicle P call.now (respond db call).2.view := by
  by_cases hu : db.Registered call.user
  swap
  · rw [respond_unregistered hu]
    exact h.onward hP hnow hcall hle
  obtain ⟨user, later, c | query | _⟩ := call
  · rw [show (respond db (⟨user, later, .crud c⟩ : Call (Request P))).2.view = _ from
      (respond_refines I ⟨user, later, c⟩ hu).2.1]
    exact h.respond hP hnow hcall hle (fun he => Db.lt_nextId I he) c
  · rw [respond_list]
    exact h.onward hP hnow hcall hle
  · rw [respond_stats]
    exact h.onward hP hnow hcall hle

/-- **So does a run**, while the clock does not go back. -/
theorem chronicle_run (hP : P.KeepsTime) (I : db.Integrity) (h : Chronicle P now db.view)
    (hnow : Dated now) {calls : List (Call (Request P))} (hdated : ∀ c ∈ calls, Dated c.now)
    (hclock : (now :: calls.map Call.now).Pairwise (· ≤ ·)) :
    (finalState respond db calls).Integrity ∧
      ∃ last, Chronicle P last (finalState respond db calls).view := by
  induction calls generalizing db now with
  | nil => exact ⟨I, now, h⟩
  | cons call calls ih =>
    obtain ⟨hcall, hcalls⟩ := List.forall_mem_cons.mp hdated
    obtain ⟨hfirst, hrest⟩ := List.pairwise_cons.mp hclock
    have hle : now ≤ call.now := hfirst _ List.mem_cons_self
    exact ih (respond_keeps I call).1 (chronicle_respond hP I h hnow call hcall hle) hcall hcalls
      hrest

/-! ## Newest first -/

/-- The sort strings that stand for `created_at`, descending: the default, and every unknown field
after a dash. -/
def NewestFirst (sort : Str) : Prop :=
  ['-'].isPrefixOf sort = true ∧
    Str.lstrip '-' sort ∉ ["updated_at".toList, "title".toList, "id".toList]

instance (sort : Str) : Decidable (NewestFirst sort) := inferInstanceAs (Decidable (_ ∧ _))

/-- **Newest first is by id** for whatever the filters select. -/
theorem selection_newestFirst (h : Chronicle P now db.view) (userId : ℤ) (f : BookmarkFilters)
    {sort : Str} (hsort : NewestFirst sort) :
    BookmarkRepository.selection P db userId f sort
      = BookmarkRepository.selection P db userId f "-id".toList := by
  obtain ⟨hdash, hfield⟩ := hsort
  simp only [List.mem_cons, List.not_mem_nil, or_false, not_or] at hfield
  obtain ⟨hupdated, htitle, hid⟩ := hfield
  have horder : BookmarkRepository.sortOrder P sort
      = (P.stampOrder.comap BookmarkRow.createdAt).reverse.lex BookmarkRepository.idDesc := by
    rw [BookmarkRepository.sortOrder, if_pos hdash, BookmarkRepository.columnOrder,
      if_neg hupdated, if_neg htitle, if_neg hid]
  have hview : ∀ {row}, row ∈ BookmarkRepository.applyFilters P db userId f →
      ∃ e, db.view row.id = some e ∧ e.row = row := by
    intro row hrow
    obtain ⟨e, hown, he, -⟩ := BookmarkRepository.mem_applyFilters.mp hrow
    exact ⟨e, (Entries.owned_eq_some.mp hown).1, he⟩
  rw [BookmarkRepository.selection, BookmarkRepository.selection, horder,
    BookmarkRepository.sortOrder_newest]
  refine TotalPreorder.sort_eq_sort
    (BookmarkRepository.decides_idDesc BookmarkRepository.eq_of_id).lex fun a ha b hb hab => ?_
  obtain ⟨ea, hva, rfl⟩ := hview ha
  obtain ⟨eb, hvb, rfl⟩ := hview hb
  rw [TotalPreorder.lex, Bool.and_eq_true, Bool.or_eq_true]
  exact ⟨h.order hvb hva (of_decide_eq_true hab), Or.inr hab⟩

/-- **The default order is the order of ids**, after any run in which the clock does not go back;
and no bookmark was updated before it was created. -/
theorem newest_first (hP : P.KeepsTime) (I : db.Integrity) (h : Chronicle P now db.view)
    (hnow : Dated now) {calls : List (Call (Request P))} (hdated : ∀ c ∈ calls, Dated c.now)
    (hclock : (now :: calls.map Call.now).Pairwise (· ≤ ·)) :
    (∀ (user later : ℤ) (query : ListQuery), NewestFirst query.sort →
      (respond (P := P) (finalState respond db calls) ⟨user, later, .list query⟩).1
        = (respond (P := P) (finalState respond db calls) ⟨user, later, .list query.byId⟩).1) ∧
      ∀ row ∈ (finalState respond db calls).bookmarks.rows,
        P.stampOrder.le row.createdAt row.updatedAt = true := by
  obtain ⟨-, last, hlast⟩ := chronicle_run hP I h hnow hdated hclock
  generalize finalState respond db calls = db' at hlast ⊢
  refine ⟨fun user later query hsort => ?_, fun row hrow => hlast.touched (Db.mem_rows_iff.mp hrow)⟩
  have hoffset : ∀ f limit offset,
      BookmarkRepository.listOffset P db' user f query.sort limit offset
        = BookmarkRepository.listOffset P db' user f "-id".toList limit offset := by
    intro f limit offset
    have hselection := selection_newestFirst hlast user f hsort
    simp only [BookmarkRepository.selection] at hselection
    simp only [BookmarkRepository.listOffset, hselection]
  have hlist : BookmarkService.list P db' user query
      = BookmarkService.list P db' user query.byId := by
    rcases hcursor : query.cursor with _ | cursor <;>
      simp only [BookmarkService.list, ListQuery.byId, hcursor, hoffset]
  by_cases hu : db'.Registered user
  · rw [respond_eq hu, respond_eq hu]
    simp only [route, listBookmarks, hlist]
  · rw [respond_unregistered hu, respond_unregistered hu]

/-- Two bookmarks of one second: the later one is first. -/
theorem newest_first_oneSecond :
    (respond (P := .sqlite)
      (finalState respond .twoAccounts
        [(⟨1, 0, .crud (.create (.titled 'b'))⟩ : Call (Request .sqlite)),
          ⟨1, 300000, .crud (.create (.titled 'a'))⟩])
      ⟨1, 300000, .list { BookmarkService.byTitle with sort := "-created_at".toList }⟩).1
      = (respond (P := .sqlite)
        (finalState respond .twoAccounts
          [(⟨1, 0, .crud (.create (.titled 'b'))⟩ : Call (Request .sqlite)),
            ⟨1, 300000, .crud (.create (.titled 'a'))⟩])
        ⟨1, 300000, .list BookmarkService.byTitle.byId⟩).1 :=
  (newest_first Platform.keepsTime_sqlite Db.integrity_twoAccounts (.of_empty 0 fun _ => rfl)
    (by decide) (by decide) (by decide)).1 1 300000
    { BookmarkService.byTitle with sort := "-created_at".toList } (by decide)

end Routers
