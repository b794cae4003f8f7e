import BookmarksApi.Machinery.Runs
import BookmarksApi.Stamp.Order
import BookmarksApi.Store.Reads

/-!
# Store/Dates — the date filters on SQLite

A bookmark's `created_at` is the server default, whole seconds; the bounds of a day are bound as
datetimes, with microseconds, and the texts are compared.  The last second of a day is before the
bound `23:59:59.999999` whose text it starts.  So is the first second, `00:00:00`, before the bound
`00:00:00.000000`: a `from` date leaves out what was created in that second (`date_filter_iff`).
-/

namespace Stamp

/-- Days and seconds of the day, out of whole seconds. -/
theorem day_seconds (s : ℤ) :
    (seconds s).day = s / 86400 ∧ (seconds s).secondOfDay = s % 86400 := by
  simp only [day, secondOfDay, instant, dayMicros]
  omega

theorem day_micros (us : ℤ) : (micros us).day = us / 1000000 / 86400 ∧
    (micros us).secondOfDay = us / 1000000 % 86400 := by
  simp only [day, secondOfDay, instant, dayMicros]
  omega

variable {s us : ℤ} (hs : InYears (seconds s).day) (hus : InYears (micros us).day)
include hs hus

/-- A bound later in the same second, or later, is the greater text. -/
theorem seconds_lt_micros (h : s ≤ us / 1000000) : (seconds s).text < (micros us).text := by
  rw [text, text]
  rcases h.lt_or_eq with hlt | heq
  · rw [← List.append_nil (seconds s).secondText]
    refine Str.append_lt_append (secondText_lt hs hus ?_) ?_ _ _
    · rw [(day_seconds s).1, (day_seconds s).2, (day_micros us).1, (day_micros us).2]
      omega
    · rw [length_secondText hs, length_secondText hus]
  · have hsame : (seconds s).secondText = (micros us).secondText := by
      rw [secondText_eq, secondText_eq, (day_seconds s).1, (day_seconds s).2, (day_micros us).1,
        (day_micros us).2, heq]
    rw [hsame]
    exact Str.lt_append _ (List.cons_ne_nil _ _)

/-- A bound in an earlier second is the smaller text. -/
theorem micros_lt_seconds (h : us / 1000000 < s) : (micros us).text < (seconds s).text := by
  rw [text, text, ← List.append_nil (seconds s).secondText]
  refine Str.append_lt_append (secondText_lt hus hs ?_) ?_ _ _
  · rw [(day_seconds s).1, (day_seconds s).2, (day_micros us).1, (day_micros us).2]
    omega
  · rw [length_secondText hs, length_secondText hus]

/-- **A whole second is at most a bound** when it is at most the bound's second… -/
theorem seconds_le_micros_iff : (seconds s).text ≤ (micros us).text ↔ s ≤ us / 1000000 := by
  constructor
  · intro hle
    by_contra hlt
    exact absurd hle (micros_lt_seconds hs hus (not_le.mp hlt)).not_ge
  · exact fun h => (seconds_lt_micros hs hus h).le

/-- …and **at least a bound only after the bound's second**. -/
theorem micros_le_seconds_iff : (micros us).text ≤ (seconds s).text ↔ us / 1000000 < s := by
  constructor
  · intro hle
    by_contra hle'
    exact absurd hle (seconds_lt_micros hs hus (not_lt.mp hle')).not_ge
  · exact fun h => (micros_lt_seconds hs hus h).le

end Stamp

/-! ## The server default -/

namespace Routers

variable {P : Platform} {db : Db}

/-- Every bookmark has the server default of one of some instants. -/
def CreatedAt (P : Platform) (instants : Set ℤ) (db : Db) : Prop :=
  ∀ i e, db.view i = some e → ∃ now ∈ instants, e.row.createdAt = P.currentTimestamp now

/-- **Only a create sets `created_at`.** -/
theorem createdAt_respond {instants : Set ℤ} (I : db.Integrity) (h : CreatedAt P instants db)
    (call : Call (Request P)) (hcall : call.now ∈ instants) :
    CreatedAt P instants (respond db call).2 := by
  by_cases hu : db.Registered call.user
  swap
  · rw [respond_unregistered hu]
    exact h
  obtain ⟨user, now, c | query | _⟩ := call
  · intro i e he
    have houtcome := Entries.respond_outcome db.view (db.nextId P) user now c
    rw [show (respond db (⟨user, now, .crud c⟩ : Call (Request P))).2.view = _ from
      (respond_refines I ⟨user, now, c⟩ hu).2.1] at he
    rcases houtcome.entry he with he | ⟨payload, -, -, rfl⟩ | ⟨payload, _, old, -, hown, rfl⟩
    · exact h i e he
    · exact ⟨now, hcall, rfl⟩
    · exact h i old (Entries.owned_eq_some.mp hown).1
  · rw [respond_list]
    exact h
  · rw [respond_stats]
    exact h

end Routers

namespace BookmarkRepository

open Stamp

/-! ## The bounds of a day -/

/-- SQLite compares timestamps as texts. -/
theorem sqlite_le_iff {a b : Stamp} : Platform.sqlite.stampOrder.le a b = true ↔ a.text ≤ b.text :=
  decide_eq_true_iff

variable {s d : ℤ} (hs : InYears (seconds s).day) (hd : InYears d)
include hs hd

/-- **`>= time.min` keeps what was created after the first second of the day.** -/
theorem from_iff : Platform.sqlite.stampOrder.le (micros (d * dayMicros)) (seconds s) = true ↔
    d * 86400 < s := by
  have hday : (micros (d * dayMicros)).day = d := by
    simp only [day, instant, dayMicros]
    omega
  have hsecond : d * dayMicros / 1000000 = d * 86400 := by
    simp only [dayMicros]
    omega
  rw [sqlite_le_iff, ← hsecond, micros_le_seconds_iff hs (hday.symm ▸ hd)]

/-- **`<= time.max` keeps what was created up to the end of the day.** -/
theorem to_iff :
    Platform.sqlite.stampOrder.le (seconds s) (micros ((d + 1) * dayMicros - 1)) = true ↔
      s / 86400 ≤ d := by
  have hday : (micros ((d + 1) * dayMicros - 1)).day = d := by
    simp only [day, instant, dayMicros]
    omega
  have hsecond : s / 86400 ≤ d ↔ s ≤ ((d + 1) * dayMicros - 1) / 1000000 := by
    simp only [dayMicros]
    omega
  rw [sqlite_le_iff, hsecond, seconds_le_micros_iff hs (hday.symm ▸ hd)]

omit hs hd

/-- **When the date filters are inclusive UTC days**: they keep a bookmark exactly when its creation
date is within the bounds, if and only if it was not created in the first second of the `from`
date, with the `to` date not before. -/
theorem date_filter_iff {row : BookmarkRow} {now : ℤ}
    (hrow : row.createdAt = Platform.sqlite.currentTimestamp now) (hnow : InYears row.createdAt.day)
    {dateFrom dateTo : Option ℤ} (hfrom : ∀ d ∈ dateFrom, InYears d)
    (hto : ∀ d ∈ dateTo, InYears d) :
    (columnsMatch .sqlite row.userId { dateFrom, dateTo } row = true ↔
        (∀ d ∈ dateFrom, d ≤ row.createdAt.day) ∧ ∀ d ∈ dateTo, row.createdAt.day ≤ d) ↔
      ¬ (dateFrom = some row.createdAt.day ∧ row.createdAt.secondOfDay = 0 ∧
        ∀ d ∈ dateTo, row.createdAt.day ≤ d) := by
  obtain ⟨s, hs⟩ : ∃ s, row.createdAt = seconds s := ⟨_, hrow⟩
  rw [hs] at hnow ⊢
  have hmatch : columnsMatch .sqlite row.userId { dateFrom, dateTo } row = true ↔
      (∀ d ∈ dateFrom, d * 86400 < s) ∧ ∀ d ∈ dateTo, s / 86400 ≤ d := by
    have hlower : ∀ d ∈ dateFrom, Platform.sqlite.stampOrder.le (micros (d * dayMicros))
        (seconds s) = true ↔ d * 86400 < s := fun d hd => from_iff hnow (hfrom d hd)
    have hupper : ∀ d ∈ dateTo, Platform.sqlite.stampOrder.le (seconds s)
        (micros ((d + 1) * dayMicros - 1)) = true ↔ s / 86400 ≤ d :=
      fun d hd => to_iff hnow (hto d hd)
    rw [← forall₂_congr hlower, ← forall₂_congr hupper]
    simp [columnsMatch, truthy, hs, Option.all_eq_true]
  rw [hmatch, (day_seconds s).1, (day_seconds s).2]
  generalize (∀ d ∈ dateTo, s / 86400 ≤ d) = upper
  rcases dateFrom with _ | d
  · simp
  · simp only [Option.mem_some_iff, forall_eq', Option.some.injEq]
    by_cases hupper : upper
    · simp only [hupper, and_true]
      omega
    · simp only [hupper, and_false, not_false_eq_true]

/-- The instant 2026-06-06T00:00:00Z, in microseconds. -/
def midnight : ℤ := 1780704000 * 1000000

/-- A bookmark created at that instant. -/
def midnightRow : BookmarkRow :=
  ⟨1, "https://example.com/".toList, ['a'], none, 1, .seconds 1780704000, .seconds 1780704000, 1⟩

/-- The bounds of that day, and the day before. -/
theorem date_filter_iff_midnight :
    (columnsMatch .sqlite 1 { dateFrom := some 20609, dateTo := some 20610 } midnightRow = true ↔
        (∀ d ∈ some (20609 : ℤ), d ≤ midnightRow.createdAt.day) ∧
          ∀ d ∈ some (20610 : ℤ), midnightRow.createdAt.day ≤ d) ↔
      ¬ (some 20609 = some midnightRow.createdAt.day ∧ midnightRow.createdAt.secondOfDay = 0 ∧
        ∀ d ∈ some (20610 : ℤ), midnightRow.createdAt.day ≤ d) :=
  @date_filter_iff midnightRow midnight rfl (by decide) _ _ (by decide) (by decide)

/-- **What was created at midnight is not found on its day.** -/
theorem midnight_not_kept :
    midnightRow ∈ (Routers.respond Db.twoAccounts
        ⟨1, midnight, .crud (.create (.titled (P := .sqlite) 'a'))⟩).2.bookmarks.rows ∧
      midnightRow.createdAt.day = 20610 ∧
      columnsMatch .sqlite 1 { dateFrom := some 20610, dateTo := some 20610 } midnightRow
        = false := by
  decide +kernel

end BookmarkRepository
