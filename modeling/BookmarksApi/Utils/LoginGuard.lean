import BookmarksApi.Core.Errors
import BookmarksApi.Machinery.Rounding
import BookmarksApi.Platform

/-!
# Utils/LoginGuard — failed logins, counted per account

`InMemoryLoginGuard`: a count of failures in a window that opens with the first of them, and a
lockout when the count reaches its threshold.  Accounts are told apart by the normalized e-mail
address; a guard call is atomic under the guard's lock.  Clock readings are floats, whose sums and
differences are rounded.
-/

/-- The guard's configuration, and the arithmetic of its clock's readings. -/
structure InMemoryLoginGuard where
  maxFailures : ℤ
  lockoutSeconds : ℤ
  floats : Rounding

namespace InMemoryLoginGuard

/-- `_Entry`. -/
structure Entry where
  count : ℕ := 0
  windowResetsAt : ℚ := 0
  lockedUntil : ℚ := 0
  deriving DecidableEq, Repr

/-- `_state`: the entries by account. -/
abbrev State := Str → Option Entry

variable (guard : InMemoryLoginGuard)

/-- `_max`: `max(1, max_failures)`. -/
def threshold : ℕ := (max 1 guard.maxFailures).toNat

/-- `_key`. -/
def key (P : Platform) (identifier : Str) : Str := P.norm identifier

/-- The 429 of a locked account. -/
def tooManyAttempts (retryAfter : ℤ) : AppError :=
  tooManyAttemptsError "Too many failed login attempts. Try again later."
    [("retry_after_seconds", .int retryAfter)]
    [("Retry-After", Str.ofNat retryAfter.toNat)]

theorem tooManyAttempts_injective : Function.Injective tooManyAttempts := by
  intro r r' h
  have hdetails := congrArg AppError.details h
  simpa [tooManyAttempts, tooManyAttemptsError] using hdetails

/-- `now + self._lockout`. -/
def deadline (now : ℚ) : ℚ := guard.floats.round (now + guard.floats.round guard.lockoutSeconds)

/-- The `Retry-After` of a lock: `max(1, math.ceil(entry.locked_until - now))`. -/
def Entry.retryAfter (now : ℚ) (entry : Entry) : ℤ :=
  max 1 ⌈guard.floats.round (entry.lockedUntil - now)⌉

/-- `assert_not_locked`. -/
def assertNotLocked (P : Platform) (now : ℚ) (state : State) (identifier : Str) :
    Except AppError Unit :=
  match state (key P identifier) with
  | none => .ok ()
  | some entry =>
    if now < entry.lockedUntil then
      .error (tooManyAttempts (entry.retryAfter guard now))
    else .ok ()

/-- The entry that a failure finds: a fresh window, when the last one elapsed. -/
def Entry.renew (now : ℚ) (entry : Entry) : Entry :=
  if entry.windowResetsAt < now then
    { entry with count := 0, windowResetsAt := guard.deadline now }
  else entry

/-- The entry after one more failure. -/
def Entry.fail (now : ℚ) (entry : Entry) : Entry :=
  let entry := entry.renew guard now
  let entry := { entry with count := entry.count + 1 }
  if guard.threshold ≤ entry.count then
    { entry with lockedUntil := guard.deadline now }
  else entry

/-- `record_failure`. -/
def recordFailure (P : Platform) (now : ℚ) (state : State) (identifier : Str) : State :=
  Function.update state (key P identifier)
    (some (((state (key P identifier)).getD {}).fail guard now))

/-- `record_success`. -/
def recordSuccess (P : Platform) (state : State) (identifier : Str) : State :=
  Function.update state (key P identifier) none

/-- `clear`. -/
def clear : State := fun _ => none

/-! ### Deadlines -/

variable {guard} in
/-- Later readings have later deadlines. -/
theorem deadline_mono : Monotone guard.deadline :=
  fun _ _ h => guard.floats.mono (add_le_add_left h _)

variable {guard} in
/-- A reading is not past its own deadline. -/
theorem le_deadline (hlockout : 0 < guard.lockoutSeconds) {now : ℚ}
    (hnow : guard.floats.round now = now) : now ≤ guard.deadline now :=
  guard.floats.le_round_add hnow (Int.cast_nonneg hlockout.le)

variable {guard} in
/-- Among exact numbers the deadline is the sum. -/
theorem deadline_eq_add (hexact : ∀ x, guard.floats.round x = x) (now : ℚ) :
    guard.deadline now = now + guard.lockoutSeconds := by
  rw [deadline, hexact, hexact]

/-! ### Entries -/

/-- **A failure after the window elapsed opens the next one.** -/
theorem Entry.fail_elapsed {now : ℚ} {entry : Entry} (h : entry.windowResetsAt < now) :
    (entry.fail guard now).count = 1 ∧
      (entry.fail guard now).windowResetsAt = guard.deadline now := by
  rw [fail, renew, if_pos h]
  split_ifs <;> exact ⟨rfl, rfl⟩

/-- **A failure in the window is counted in it.** -/
theorem Entry.fail_live {now : ℚ} {entry : Entry} (h : now ≤ entry.windowResetsAt) :
    (entry.fail guard now).count = entry.count + 1 ∧
      (entry.fail guard now).windowResetsAt = entry.windowResetsAt := by
  rw [fail, renew, if_neg (not_lt.mpr h)]
  split_ifs <;> exact ⟨rfl, rfl⟩

/-- **A failure locks that makes the count reach the threshold.** -/
theorem Entry.lockedUntil_fail (now : ℚ) (entry : Entry) :
    (entry.fail guard now).lockedUntil
      = if guard.threshold ≤ (entry.fail guard now).count then guard.deadline now
        else entry.lockedUntil := by
  rw [fail, renew]
  split_ifs <;> simp_all

/-- The first failure counts as one. -/
theorem Entry.count_fail_new (now : ℚ) : (({} : Entry).fail guard now).count = 1 := by
  rcases lt_or_ge ({} : Entry).windowResetsAt now with h | h
  · exact (fail_elapsed guard h).1
  · exact (fail_live guard h).1

/-- **An account is let in that is not locked.** -/
theorem assertNotLocked_eq_ok {P : Platform} {now : ℚ} {state : State} {identifier : Str}
    {u : Unit} : guard.assertNotLocked P now state identifier = .ok u ↔
      ∀ entry, state (key P identifier) = some entry → entry.lockedUntil ≤ now := by
  rw [assertNotLocked]
  rcases state (key P identifier) with _ | entry
  · simp
  · simp only [Option.some.injEq, forall_eq']
    split_ifs with hlocked
    · exact iff_of_false (by simp) (not_le.mpr hlocked)
    · exact iff_of_true rfl (not_lt.mp hlocked)

/-- **An account is refused that is locked**, with the seconds left, rounded up. -/
theorem assertNotLocked_eq_error {P : Platform} {now : ℚ} {state : State} {identifier : Str}
    {e : AppError} : guard.assertNotLocked P now state identifier = .error e ↔
      ∃ entry, state (key P identifier) = some entry ∧ now < entry.lockedUntil ∧
        e = tooManyAttempts (entry.retryAfter guard now) := by
  rw [assertNotLocked]
  rcases state (key P identifier) with _ | entry
  · simp
  · simp only [Option.some.injEq, exists_eq_left']
    split_ifs with hlocked
    · simp [hlocked, eq_comm]
    · exact iff_of_false (by simp) fun h => hlocked h.1

end InMemoryLoginGuard
