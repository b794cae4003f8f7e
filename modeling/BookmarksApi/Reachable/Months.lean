import BookmarksApi.Reachable.Statistics
import BookmarksApi.Stamp.Months
import BookmarksApi.Store.Dates

/-!
# Reachable/Months — the monthly statistics and the date filter

The statistics cut the timeline into months by formatting `created_at`, the list endpoint by
comparing it with the first and the last instant of a month in UTC.  On SQLite both read a text, and
the two differ by what was created in the first second of the month (`keeps_sqlite_iff`).  On
PostgreSQL `to_char` formats in the session's time zone, and the two differ by what that zone moves
over a month's boundary (`keeps_postgresql_iff`).
-/

namespace Stamp.CalendarMonth

/-- The month an instant is in, UTC. -/
def Has (M : CalendarMonth) (instant : ℤ) : Prop :=
  M.firstDay * dayMicros ≤ instant ∧ instant < (M.lastDay + 1) * dayMicros

instance (M : CalendarMonth) (instant : ℤ) : Decidable (M.Has instant) :=
  inferInstanceAs (Decidable (_ ∧ _))

theorem monthText_micros_iff {M : CalendarMonth} {us : ℤ} :
    (micros us).monthText = M.text ↔ M.Has us := by
  have hday : (micros us).day = us / dayMicros := rfl
  rw [monthText_eq_iff, hday, Has, dayMicros]
  omega

/-- The month of a stamp depends on its instant alone. -/
theorem monthText_eq_has {M : CalendarMonth} {s : Stamp} : s.monthText = M.text ↔ M.Has s.instant :=
  @monthText_micros_iff M s.instant

end Stamp.CalendarMonth

namespace Dialect

open Stamp

/-- The server default `now()`: SQLite writes whole seconds. -/
def currentTimestamp : Dialect → ℤ → Stamp
  | sqlite, now => seconds (now / 1000000)
  | postgresql _, now => micros now

/-- The comparison of timestamps: of texts on SQLite, of instants on PostgreSQL. -/
def StampLe : Dialect → Stamp → Stamp → Prop
  | sqlite, a, b => a.text ≤ b.text
  | postgresql _, a, b => a.instant ≤ b.instant

instance : (dialect : Dialect) → (a b : Stamp) → Decidable (dialect.StampLe a b)
  | sqlite, a, b => inferInstanceAs (Decidable (a.text ≤ b.text))
  | postgresql _, a, b => inferInstanceAs (Decidable (a.instant ≤ b.instant))

/-- The date filter from the first to the last day of a month. -/
def Keeps (dialect : Dialect) (M : CalendarMonth) (s : Stamp) : Prop :=
  dialect.StampLe (micros (M.firstDay * dayMicros)) s ∧
    dialect.StampLe s (micros ((M.lastDay + 1) * dayMicros - 1))

instance (dialect : Dialect) (M : CalendarMonth) (s : Stamp) : Decidable (dialect.Keeps M s) :=
  inferInstanceAs (Decidable (_ ∧ _))

/-- The statistics report a timestamp in a month. -/
def Reports (dialect : Dialect) (M : CalendarMonth) (s : Stamp) : Prop :=
  StatsRepository.monthExpr dialect s = M.text

instance (dialect : Dialect) (M : CalendarMonth) (s : Stamp) : Decidable (dialect.Reports M s) :=
  inferInstanceAs (Decidable (_ = _))

variable {M : CalendarMonth}

/-- The bounds of the filter are of the month. -/
theorem monthText_bounds : (micros (M.firstDay * dayMicros)).monthText = M.text ∧
    (micros ((M.lastDay + 1) * dayMicros - 1)).monthText = M.text := by
  have hle := M.firstDay_le_lastDay
  rw [CalendarMonth.monthText_micros_iff, CalendarMonth.monthText_micros_iff,
    CalendarMonth.Has, CalendarMonth.Has, dayMicros]
  omega

/-- **On SQLite the filter loses the first second of the month.** -/
theorem keeps_sqlite_iff {n : ℤ} : sqlite.Keeps M (seconds n) ↔
    sqlite.Reports M (seconds n) ∧ (seconds n).instant ≠ M.firstDay * dayMicros := by
  have hreports : sqlite.Reports M (seconds n) ↔
      M.firstDay ≤ (seconds n).day ∧ (seconds n).day ≤ M.lastDay := CalendarMonth.monthText_eq_iff
  constructor
  · intro h
    have hmonth : sqlite.Reports M (seconds n) :=
      CalendarMonth.monthText_of_between monthText_bounds.1 monthText_bounds.2 h
    have hday := hreports.mp hmonth
    have hfirst := M.inYears ⟨le_rfl, M.firstDay_le_lastDay⟩
    have hafter := (BookmarkRepository.from_iff (M.inYears hday) hfirst).mp
      (BookmarkRepository.sqlite_le_iff.mpr h.1)
    refine ⟨hmonth, ?_⟩
    simp only [instant, dayMicros]
    omega
  · rintro ⟨hmonth, hne⟩
    have hday := hreports.mp hmonth
    have hyears := M.inYears hday
    have hfirst := M.inYears ⟨le_rfl, M.firstDay_le_lastDay⟩
    have hlast := M.inYears ⟨M.firstDay_le_lastDay, le_rfl⟩
    simp only [instant, dayMicros] at hne
    rw [(day_seconds n).1] at hday
    have hfrom := (BookmarkRepository.from_iff hyears hfirst).mpr (by omega)
    have hto := (BookmarkRepository.to_iff hyears hlast).mpr hday.2
    exact ⟨BookmarkRepository.sqlite_le_iff.mp hfrom, BookmarkRepository.sqlite_le_iff.mp hto⟩

/-- **On PostgreSQL the filter keeps the month of UTC.** -/
theorem keeps_postgresql_iff {timeZone : ℤ → ℤ} {s : Stamp} :
    (postgresql timeZone).Keeps M s ↔ M.Has s.instant := by
  simp only [Keeps, StampLe, CalendarMonth.Has, instant]
  omega

end Dialect

/-! ## Counting -/

/-- Two counts over one list are equal when each has as many elements of its own. -/
theorem List.countP_eq_countP_iff {α : Type*} {p q : α → Bool} {l : List α} :
    l.countP p = l.countP q ↔
      l.countP (fun a => p a && !q a) = l.countP fun a => q a && !p a := by
  have hsplit : ∀ p q : α → Bool,
      l.countP p = l.countP (fun a => p a && q a) + l.countP fun a => p a && !q a := by
    intro p q
    induction l with
    | nil => rfl
    | cons a l ih =>
      simp only [List.countP_cons, ih]
      cases p a <;> cases q a <;> simp <;> omega
  have hcomm : (fun a => q a && p a) = fun a => p a && q a := funext fun a => Bool.and_comm _ _
  rw [hsplit p q, hsplit q p, hcomm]
  exact Nat.add_left_cancel_iff

namespace StatsRepository

variable {P : Platform} {db : Db} {userId : ℤ}

/-- **The count reported for a month** is that of the bookmarks it is the month of. -/
theorem inMonth_getStats (month : Str) : (getStats P db userId).inMonth month
    = (owned db userId).countP fun b => decide (P.month b.createdAt = month) := by
  have hmem : ∀ c : MonthCount, c ∈ (getStats P db userId).bookmarksPerMonth ↔
      ∃ m ∈ bookmarkMonths P db userId, ⟨m, (bookmarkMonths P db userId).count m⟩ = c := by
    intro c
    rw [(months_perm P db userId).mem_iff, List.mem_map]
    exact exists_congr fun m => and_congr_left' List.mem_dedup
  have hcount : (bookmarkMonths P db userId).count month
      = (owned db userId).countP fun b => decide (P.month b.createdAt = month) := by
    rw [bookmarkMonths, List.count, List.countP_map]
    exact List.countP_congr fun b _ => by simp
  rw [Stats.inMonth, ← hcount]
  rcases hfind : (getStats P db userId).bookmarksPerMonth.find? fun c => c.month = month with _ | c
  · have hnot : month ∉ bookmarkMonths P db userId := fun hm =>
      List.find?_eq_none.mp hfind _ ((hmem _).mpr ⟨month, hm, rfl⟩) (decide_eq_true rfl)
    rw [hfind, List.count_eq_zero_of_not_mem hnot]
    rfl
  · obtain ⟨m, -, rfl⟩ := (hmem c).mp (List.mem_of_find?_eq_some hfind)
    have hmonth := List.find?_some hfind
    obtain rfl : m = month := of_decide_eq_true hmonth
    rw [hfind]
    rfl

end StatsRepository

/-! ## The server default, in every reachable state -/

section

variable {P : Platform} {call : Call (Crud P)} {h : History Db} {db db' : Db} {p p' : Phase}

/-- **One move.** -/
theorem Routers.CreatedAt.next (hdb : CreatedAt P Set.univ h.now) (r : Running call h p)
    (hnext : p.next call h.now = some (db', p')) : CreatedAt P Set.univ db' := by
  have hwrite : ∀ {d : Db} {k : ℤ} {entry : Option Entry}, h.now.Writes d k entry →
      (∀ e, entry = some e → ∃ now, e.row.createdAt = P.currentTimestamp now) →
        CreatedAt P Set.univ d := by
    intro d k entry W hentry i e he
    rw [W.view, Function.update_apply] at he
    split_ifs at he
    · obtain ⟨now, hnow⟩ := hentry e he
      exact ⟨now, Set.mem_univ _, hnow⟩
    · exact hdb i e he
  cases Phase.move_of_next hnext with
  | committed hcommit =>
    cases commit_cases r hcommit with
    | created hreq htags W =>
      refine hwrite W ?_
      rintro e ⟨⟩
      exact ⟨call.now, rfl⟩
    | updated hreq hv htags W =>
      refine hwrite W ?_
      rintro e ⟨⟩
      obtain ⟨now, -, hnow⟩ := hdb _ _ hv
      exact ⟨now, hnow⟩
    | deleted hreq hv htags W => exact hwrite W (fun _ he => by cases he)
    | lost hv => exact hdb
  | _ => exact hdb

/-- **A run.** -/
theorem Routers.CreatedAt.run {n : ℕ} {req : Fin n → Call (Crud P)} {c : Config (Fin n)}
    (hdb : CreatedAt P Set.univ db) (I : db.Integrity) (hreg : ∀ i, db.Registered (req i).user)
    (hrun : (freshMachine req).Run (Config.initial db) c) :
    CreatedAt P Set.univ c.shared.now := by
  have hstep : ∀ i (c c' : Config (Fin n)), (Sound req c ∧ CreatedAt P Set.univ c.shared.now) →
      (freshMachine req).StepBy i c c' → Sound req c' ∧ CreatedAt P Set.univ c'.shared.now := by
    rintro i c c' ⟨hsound, hnow⟩ hs
    obtain ⟨hm, hfresh⟩ := Interleaving.restrict_stepBy.mp hs
    refine ⟨hsound.step hfresh hm, ?_⟩
    obtain ⟨-, db', hnext, hpush⟩ := hm.move_self
    rw [hpush]
    exact hnow.next (hsound.running i) hnext
  exact (Interleaving.Run.invariant hstep hrun ⟨.initial I hreg, hdb⟩).2

/-- **In every reachable state a bookmark has the server default of some instant.** -/
theorem Reachable.createdAt (hdb : Reachable P db) : Routers.CreatedAt P Set.univ db := by
  induction hdb with
  | empty =>
    intro i e he
    rw [Db.view_eq_none.mpr rfl] at he
    cases he
  | registered hdb h ih =>
    obtain ⟨-, users, rfl⟩ := AuthService.register_keeps hdb.stored.1 h
    exact ih
  | answered hdb call ih => exact Routers.createdAt_respond hdb.stored.1 ih call (Set.mem_univ _)
  | interleaved hdb hreg hrun ih => exact ih.run hdb.stored.1 hreg hrun

end

/-! ## Agreement -/

/-- **A platform with the timestamps of a dialect.** -/
structure Platform.Speaks (P : Platform) (dialect : Dialect) : Prop where
  month : ∀ s, P.month s = StatsRepository.monthExpr dialect s
  currentTimestamp : ∀ now, P.currentTimestamp now = dialect.currentTimestamp now
  stampOrder : ∀ a b, P.stampOrder.le a b = true ↔ dialect.StampLe a b

theorem Platform.speaks_sqlite : sqlite.Speaks .sqlite :=
  ⟨fun _ => rfl, fun _ => rfl, fun _ _ => decide_eq_true_iff⟩

/-- PostgreSQL in a session with a time zone, under the C collation; `LIKE` tells letters apart and
takes every pattern, and letters fold over Latin-1. -/
def Platform.postgresql (timeZone : ℤ → ℤ) : Platform :=
  { sqlite with
    sqlLower := sqlite.lower
    sqlLower_lower := sqlite.lower_lower
    sameLetter := fun a b => a == b
    takesPattern := fun _ => true
    currentTimestamp := Stamp.micros
    stampOrder := (TotalPreorder.ofLinearOrder ℤ).comap Stamp.instant
    month := StatsRepository.monthExpr (.postgresql timeZone)
    ids := .sequence }

theorem Platform.speaks_postgresql (timeZone : ℤ → ℤ) :
    (postgresql timeZone).Speaks (.postgresql timeZone) :=
  ⟨fun _ => rfl, fun _ => rfl, fun _ _ => decide_eq_true_iff⟩

/-- A list request with a `from` and a `to` date, and nothing else. -/
def ListQuery.dated (dateFrom dateTo : ℤ) : ListQuery :=
  { ListQuery.tagged none with dateFrom := some dateFrom, dateTo := some dateTo }

/-- The total that the list endpoint reports between two dates. -/
def listTotalBetween (P : Platform) (db : Db) (userId dateFrom dateTo : ℤ) : Except Exc ℕ :=
  (BookmarkService.list P db userId (.dated dateFrom dateTo)).map fun page => page.pagination.total

open Stamp

/-- **When a user's bookmarks are counted alike in a month**: on SQLite, when none was created in
its first second; on PostgreSQL, when the session's time zone moves as many into the month as out of
it. -/
def Dialect.CountsAlike (dialect : Dialect) (M : CalendarMonth) (rows : List BookmarkRow) : Prop :=
  match dialect with
  | sqlite => ∀ row ∈ rows, row.createdAt.instant ≠ M.firstDay * dayMicros
  | postgresql timeZone =>
    rows.countP (fun row => decide
        (M.Has (row.createdAt.instant + timeZone row.createdAt.instant) ∧
          ¬ M.Has row.createdAt.instant))
      = rows.countP fun row => decide
        (M.Has row.createdAt.instant ∧
          ¬ M.Has (row.createdAt.instant + timeZone row.createdAt.instant))

namespace Dialect

variable {P : Platform} {db : Db} {userId : ℤ} {dialect : Dialect} {M : CalendarMonth}

theorem reports_postgresql_iff {timeZone : ℤ → ℤ} {s : Stamp} :
    (postgresql timeZone).Reports M s ↔ M.Has (s.instant + timeZone s.instant) :=
  CalendarMonth.monthText_micros_iff

/-- **The list's total counts what the filter keeps.** -/
theorem listTotalBetween_eq (hP : P.Speaks dialect) (hbind : P.BindsInt64) (I : db.Integrity) :
    listTotalBetween P db userId M.firstDay M.lastDay
      = .ok ((StatsRepository.owned db userId).countP fun row =>
          decide (dialect.Keeps M row.createdAt)) := by
  have hoffset : ((0 : ℕ) : ℤ) * (ListQuery.dated M.firstDay M.lastDay).perPage < 2 ^ 63 := by
    rw [Nat.cast_zero, zero_mul]
    decide
  change (BookmarkService.list P db userId
    ((ListQuery.dated M.firstDay M.lastDay).numbered 0)).map _ = _
  rw [BookmarkService.list_numbered hbind I (.of_none rfl) hoffset]
  refine congrArg Except.ok ?_
  change (BookmarkRepository.selection P db userId _ _).length = _
  rw [BookmarkRepository.selection, (TotalPreorder.sort_perm _ _).length_eq,
    BookmarkRepository.applyFilters, ← List.countP_eq_length_filter, StatsRepository.owned,
    List.countP_filter]
  refine List.countP_congr fun row _ => ?_
  rw [Bool.and_eq_true, decide_eq_true_iff, Keeps]
  simp [BookmarkRepository.columnsMatch, BookmarkRepository.truthy, ListQuery.filters,
    ListQuery.dated, ListQuery.tagged, hP.stampOrder, and_comm, and_assoc]

/-- **The report counts what has the month.** -/
theorem inMonth_eq (hP : P.Speaks dialect) :
    (StatsRepository.getStats P db userId).inMonth M.text
      = (StatsRepository.owned db userId).countP fun row =>
          decide (dialect.Reports M row.createdAt) := by
  rw [StatsRepository.inMonth_getStats]
  refine List.countP_congr fun row _ => ?_
  rw [decide_eq_true_iff, decide_eq_true_iff, Reports, hP.month]

/-- **On SQLite the filter keeps a created row when the report counts it**, but for the month's
first second. -/
theorem keeps_iff_reports_sqlite (hP : P.Speaks sqlite) (hdb : Reachable P db) {row : BookmarkRow}
    (hrow : row ∈ db.bookmarks.rows) :
    sqlite.Keeps M row.createdAt ↔
      sqlite.Reports M row.createdAt ∧ row.createdAt.instant ≠ M.firstDay * dayMicros := by
  obtain ⟨now, -, hnow⟩ := hdb.createdAt row.id _ (Db.mem_rows_iff.mp hrow)
  change row.createdAt = _ at hnow
  rw [hnow, hP.currentTimestamp]
  exact keeps_sqlite_iff

/-- The month's first second is in the month. -/
theorem reports_sqlite_of_firstDay {s : Stamp} (hs : s.instant = M.firstDay * dayMicros) :
    sqlite.Reports M s := by
  have hle := M.firstDay_le_lastDay
  refine CalendarMonth.monthText_eq_has.mpr ?_
  rw [CalendarMonth.Has, hs, dayMicros]
  omega

end Dialect

open Dialect in
/-- **When the monthly statistics agree with the date filter**, in every reachable state. -/
theorem months_agree_iff {P : Platform} {dialect : Dialect} (hP : P.Speaks dialect)
    (hbind : P.BindsInt64) {db : Db} (hdb : Reachable P db) (userId : ℤ) (M : CalendarMonth) :
    listTotalBetween P db userId M.firstDay M.lastDay
        = .ok ((StatsRepository.getStats P db userId).inMonth M.text) ↔
      dialect.CountsAlike M (StatsRepository.owned db userId) := by
  rw [listTotalBetween_eq hP hbind hdb.stored.1, inMonth_eq hP, Except.ok.injEq, eq_comm,
    List.countP_eq_countP_iff]
  cases dialect with
  | sqlite =>
    have hkeeps : ∀ row ∈ StatsRepository.owned db userId,
        (sqlite.Keeps M row.createdAt ↔ sqlite.Reports M row.createdAt ∧
          row.createdAt.instant ≠ M.firstDay * dayMicros) := fun row hrow =>
      keeps_iff_reports_sqlite hP hdb (StatsRepository.mem_owned.mp hrow).1
    have hnone : (StatsRepository.owned db userId).countP (fun row =>
        decide (sqlite.Keeps M row.createdAt) && !decide (sqlite.Reports M row.createdAt)) = 0 := by
      refine List.countP_eq_zero.mpr fun row hrow => ?_
      simp only [hkeeps row hrow, Bool.and_eq_true, decide_eq_true_eq, Bool.not_eq_true',
        decide_eq_false_iff_not]
      tauto
    rw [hnone, List.countP_eq_zero, CountsAlike]
    refine forall₂_congr fun row hrow => ?_
    simp only [hkeeps row hrow, Bool.and_eq_true, decide_eq_true_eq, Bool.not_eq_true',
      decide_eq_false_iff_not]
    have hfirst := @reports_sqlite_of_firstDay M row.createdAt
    tauto
  | postgresql timeZone =>
    simp only [CountsAlike, keeps_postgresql_iff, reports_postgresql_iff, Bool.decide_and,
      decide_not]

/-! ## Near a boundary -/

/-- Alice's account, registered at the start of the epoch. -/
def Platform.alice (P : Platform) : UserRow :=
  ⟨1, "alice".toList, "alice@example.com".toList, [], P.currentTimestamp 0⟩

/-- The tables after Alice registers, and adds a bookmark at an instant. -/
def Db.aliceAdds (P : Platform) (now : ℤ) : Db :=
  (Routers.respond (P := P) (Db.accounts ⟨[P.alice], List.nodup_singleton _⟩)
    ⟨1, now, .crud (.create (.titled 'a'))⟩).2

theorem reachable_aliceAdds {P : Platform} (now : ℤ)
    (h : AuthService.register P 0 (.accounts Table.empty) P.alice.username P.alice.email []
      = .ok (.accounts ⟨[P.alice], List.nodup_singleton _⟩, P.alice)) :
    Reachable P (Db.aliceAdds P now) :=
  .answered (.registered .empty h) _

theorem Stamp.CalendarMonth.january_bounds :
    (1 ≤ (1970 : ℤ) ∧ (1970 : ℤ) ≤ 9999) ∧ 1 ≤ (1 : ℤ) ∧ (1 : ℤ) ≤ 12 := by decide

/-- January 1970. -/
def Stamp.CalendarMonth.january : CalendarMonth := ⟨1970, 1, january_bounds.1, january_bounds.2⟩

open CalendarMonth

/-- A bookmark of the second second of the month. -/
theorem months_agree_iff_secondSecond :
    listTotalBetween .sqlite (.aliceAdds .sqlite 1000000) 1 january.firstDay january.lastDay
        = .ok ((StatsRepository.getStats .sqlite (.aliceAdds .sqlite 1000000) 1).inMonth
            january.text) ↔
      Dialect.sqlite.CountsAlike january
        (StatsRepository.owned (.aliceAdds .sqlite 1000000) 1) :=
  months_agree_iff Platform.speaks_sqlite Platform.bindsInt64_sqlite
    (reachable_aliceAdds 1000000 (by decide +kernel)) 1 january

/-- Seven hours ahead of UTC. -/
def sevenAhead : ℤ → ℤ := fun _ => 7 * 3600 * 1000000

/-- The last hour of January in UTC. -/
def lastHour : ℤ := (31 * 24 - 1) * 3600 * 1000000

/-- **The statistics and the filter disagree**: on SQLite about a bookmark of the first second of
the month, on PostgreSQL about one of its last hour, in a session ahead of UTC. -/
theorem months_disagree :
    (Reachable .sqlite (.aliceAdds .sqlite 0) ∧
      listTotalBetween .sqlite (.aliceAdds .sqlite 0) 1 january.firstDay january.lastDay = .ok 0 ∧
      (StatsRepository.getStats .sqlite (.aliceAdds .sqlite 0) 1).inMonth january.text = 1) ∧
    (Platform.postgresql sevenAhead).Speaks (.postgresql sevenAhead) ∧
    Reachable (.postgresql sevenAhead) (.aliceAdds (.postgresql sevenAhead) lastHour) ∧
    listTotalBetween (.postgresql sevenAhead) (.aliceAdds (.postgresql sevenAhead) lastHour) 1
      january.firstDay january.lastDay = .ok 1 ∧
    (StatsRepository.getStats (.postgresql sevenAhead)
      (.aliceAdds (.postgresql sevenAhead) lastHour) 1).inMonth january.text = 0 := by
  refine ⟨⟨reachable_aliceAdds 0 (by decide +kernel), ?_, ?_⟩,
    Platform.speaks_postgresql sevenAhead, reachable_aliceAdds lastHour (by decide +kernel), ?_, ?_⟩
  all_goals decide +kernel
