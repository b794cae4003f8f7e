import BookmarksApi.Machinery.Runs
import BookmarksApi.Services.Auth
import Mathlib.Tactic.Linarith

/-!
# Sequential/LoginRuns — lockouts in runs of logins

Logins come one after another, to any accounts in any spelling, while the clock goes forward.  A
lockout runs its course: until it ends every login to the account is refused, and leaves no trace;
from then on none is refused because of it (`lockout_runs_exactly`).  The failures that follow
count afresh, except at one instant: the lock ends at its deadline, where the window of the failures
that led to it is still open if they were all made at once (`fresh_budget_iff`).

A login with a password that the hasher does not take raises, and is not recorded.
-/

open InMemoryLoginGuard (State key tooManyAttempts)

namespace AuthService

/-- A login, against the store as it is at the time. -/
def respond (P : Platform) (config : Config) (state : State) (call : Db × LoginCall) :
    Except Exc (UserRow × Str) × State :=
  login P config call.1 state call.2

/-- Logins at times that are positive and do not go back. -/
def InTime (calls : List (Db × LoginCall)) : Prop :=
  (∀ c ∈ calls, 0 < c.2.checkedAt ∧ c.2.checkedAt ≤ c.2.recordedAt) ∧
    calls.Pairwise fun c d => c.2.recordedAt ≤ d.2.checkedAt

/-- An answered login. -/
abbrev Answer := Answered State (Db × LoginCall) (Except Exc (UserRow × Str))

/-- The logins of a run, answered one after another from an empty guard. -/
def run (P : Platform) (config : Config) (calls : List (Db × LoginCall)) : List Answer :=
  answered (respond P config) (fun _ => none) calls

namespace Answer

/-- The account it is for, as the guard knows it. -/
def account (P : Platform) (x : Answer) : Str := key P x.input.2.email

/-- It was refused: the account was locked. -/
def Refused (x : Answer) : Prop :=
  ∃ retryAfter, x.output = .error (.app (tooManyAttempts retryAfter))

/-- The guard was told how it went: it was not refused, and did not raise before. -/
def Recorded (x : Answer) : Prop := ¬ x.Refused ∧ x.output ≠ .error .passwordSize

/-- It failed: the address is unknown, or the password wrong. -/
def Failed (x : Answer) : Prop := x.output = .error (.app invalidCredentials)

instance (x : Answer) : Decidable x.Failed := inferInstanceAs (Decidable (_ = _))

/-- **It locked its account**: it failed, and the account is locked from then on. -/
def Locks (P : Platform) (config : Config) (x : Answer) : Prop :=
  x.Failed ∧
    ∃ e, config.guard.assertNotLocked P x.input.2.recordedAt x.after x.input.2.email = .error e

/-- How many failures of an account follow its lockout, from the first instant at which
`assert_not_locked` no longer raises. -/
def failuresAfter (P : Platform) (config : Config) (a : Answer) (xs : List Answer) : ℕ :=
  xs.countP fun x => x.account P = a.account P ∧ x.Failed ∧
    config.guard.assertNotLocked P x.input.2.recordedAt a.after a.input.2.email = .ok ()

/-- Two lockouts of an account, and the logins between them, none of which locks it. -/
structure Successive (P : Platform) (config : Config) (k : Str) (run : List Answer) (a : Answer)
    (mid : List Answer) (b : Answer) : Prop where
  split : ∃ pre post, run = pre ++ a :: (mid ++ b :: post)
  account : a.account P = k
  account' : b.account P = k
  locks : a.Locks P config
  locks' : b.Locks P config
  between : ∀ x ∈ mid, x.account P = k → ¬ x.Locks P config

/-- **A wrong password at the instant at which the lock has ended and the window of its failures
has not**: the window is still open, and has as many failures as lock the account.  The lock that
follows takes a time, if a small one: its end is another float than its beginning. -/
def AtReset (P : Platform) (config : Config) (x : Answer) : Prop :=
  config.guard.assertNotLocked P x.input.2.checkedAt x.before x.input.2.email = .ok () ∧
    authenticate P config x.input.1 x.input.2.email x.input.2.password = .ok none ∧
    x.input.2.recordedAt < config.guard.deadline x.input.2.recordedAt ∧
    ∃ entry, x.before (x.account P) = some entry ∧ config.guard.threshold ≤ entry.count ∧
      x.input.2.recordedAt ≤ entry.windowResetsAt

end Answer

/-! ## What one login does -/

section

variable {P : Platform} {config : Config} {x : Answer}

/-- **All a login can do.** -/
inductive Outcome (P : Platform) (config : Config) (x : Answer) : Prop
  | refused {entry : InMemoryLoginGuard.Entry} (hentry : x.before (x.account P) = some entry)
      (hlocked : x.input.2.checkedAt < entry.lockedUntil)
      (houtput : x.output
        = .error (.app (tooManyAttempts (entry.retryAfter config.guard x.input.2.checkedAt))))
      (hafter : x.after = x.before)
      (hverify : verifications P config x.input.1 x.before x.input.2 = [])
  | raised
      (hpassed : config.guard.assertNotLocked P x.input.2.checkedAt x.before x.input.2.email
        = .ok ())
      (houtput : x.output = .error .passwordSize) (hafter : x.after = x.before)
  | failed
      (hpassed : config.guard.assertNotLocked P x.input.2.checkedAt x.before x.input.2.email
        = .ok ())
      (hwrong : authenticate P config x.input.1 x.input.2.email x.input.2.password = .ok none)
      (houtput : x.output = .error (.app invalidCredentials))
      (hafter : x.after = Function.update x.before (x.account P)
        (some (((x.before (x.account P)).getD {}).fail config.guard x.input.2.recordedAt)))
  | succeeded {user : UserRow × Str}
      (hpassed : config.guard.assertNotLocked P x.input.2.checkedAt x.before x.input.2.email
        = .ok ())
      (houtput : x.output = .ok user)
      (hafter : x.after = Function.update x.before (x.account P) none)

/-- What a login answers is what `login` does. -/
theorem outcome (houtput : x.output = (respond P config x.before x.input).1)
    (hafter : x.after = (respond P config x.before x.input).2) : Outcome P config x := by
  rw [respond, login_eq] at houtput hafter
  rcases hcheck : config.guard.assertNotLocked P x.input.2.checkedAt x.before x.input.2.email
    with e | _
  · rw [hcheck] at houtput hafter
    obtain ⟨entry, hentry, hlocked, rfl⟩ :=
      (InMemoryLoginGuard.assertNotLocked_eq_error config.guard).mp hcheck
    exact .refused hentry hlocked houtput hafter (by rw [verifications, hcheck])
  · rw [hcheck] at houtput hafter
    rcases hauth : authenticate P config x.input.1 x.input.2.email x.input.2.password
      with e | _ | user
    · obtain rfl := authenticate_eq_error hauth
      rw [hauth] at houtput hafter
      exact .raised hcheck houtput hafter
    · rw [hauth] at houtput hafter
      exact .failed hcheck hauth houtput hafter
    · rw [hauth] at houtput hafter
      exact .succeeded hcheck houtput hafter

theorem outcome_respond (P : Platform) (config : Config) (s : State) (c : Db × LoginCall) :
    Outcome P config ⟨s, c, (respond P config s c).1, (respond P config s c).2⟩ :=
  outcome rfl rfl

/-- A login that fails is not refused. -/
theorem Answer.Failed.not_refused (hfailed : x.Failed) : ¬ x.Refused := by
  rintro ⟨retryAfter, hrefused⟩
  have hcode : "AUTHENTICATION_ERROR" = "TOO_MANY_ATTEMPTS" :=
    congrArg AppError.code (Exc.app.inj (Except.error.inj (hfailed.symm.trans hrefused)))
  exact absurd hcode (by decide)

theorem Answer.Failed.recorded (hfailed : x.Failed) : x.Recorded :=
  ⟨hfailed.not_refused, fun hraised => by cases hfailed.symm.trans hraised⟩

/-- A login that finds an account unlocked, and no password for it, fails. -/
theorem failed_of_wrong
    (hpassed : config.guard.assertNotLocked P x.input.2.checkedAt x.before x.input.2.email = .ok ())
    (hwrong : authenticate P config x.input.1 x.input.2.email x.input.2.password = .ok none)
    (houtput : x.output = (respond P config x.before x.input).1) : x.Failed := by
  rw [Answer.Failed, houtput, respond, login_eq, hpassed, hwrong]

namespace Outcome

variable (h : Outcome P config x)
include h

/-- **A refused login leaves no trace**, and the account is locked. -/
theorem of_refused (hrefused : x.Refused) :
    x.after = x.before ∧ verifications P config x.input.1 x.before x.input.2 = [] ∧
      ∃ entry, x.before (x.account P) = some entry ∧
        x.input.2.checkedAt < entry.lockedUntil ∧ x.output
          = .error (.app (tooManyAttempts
            (entry.retryAfter config.guard x.input.2.checkedAt))) := by
  obtain ⟨retryAfter, hretry⟩ := id hrefused
  cases h with
  | refused hentry hlocked houtput hafter hverify =>
    exact ⟨hafter, hverify, _, hentry, hlocked, houtput⟩
  | raised _ houtput _ => cases houtput.symm.trans hretry
  | failed _ _ houtput _ => exact absurd hrefused (Answer.Failed.not_refused houtput)
  | succeeded _ houtput _ => cases houtput.symm.trans hretry

/-- A login to a locked account is refused. -/
theorem refused_of_locked {entry : InMemoryLoginGuard.Entry}
    (hentry : x.before (x.account P) = some entry)
    (hlocked : x.input.2.checkedAt < entry.lockedUntil) : x.Refused := by
  have hcheck : config.guard.assertNotLocked P x.input.2.checkedAt x.before x.input.2.email
      ≠ .ok () := fun hu => not_le.mpr hlocked
    ((InMemoryLoginGuard.assertNotLocked_eq_ok config.guard).mp hu entry hentry)
  cases h with
  | refused _ _ houtput _ _ => exact ⟨_, houtput⟩
  | raised hpassed _ _ => exact absurd hpassed hcheck
  | failed hpassed _ _ _ => exact absurd hpassed hcheck
  | succeeded hpassed _ _ => exact absurd hpassed hcheck

/-- **A failed login passed the check, and is recorded.** -/
theorem of_failed (hfailed : x.Failed) :
    config.guard.assertNotLocked P x.input.2.checkedAt x.before x.input.2.email = .ok () ∧
      authenticate P config x.input.1 x.input.2.email x.input.2.password = .ok none ∧
      x.after (x.account P)
        = some (((x.before (x.account P)).getD {}).fail config.guard x.input.2.recordedAt) := by
  cases h with
  | refused _ _ houtput _ _ => exact absurd ⟨_, houtput⟩ hfailed.not_refused
  | raised _ houtput _ => cases hfailed.symm.trans houtput
  | failed hpassed hwrong _ hafter =>
    exact ⟨hpassed, hwrong, by rw [hafter, Function.update_self]⟩
  | succeeded _ houtput _ => cases hfailed.symm.trans houtput

/-- A login that is recorded is recorded as a failure, or the entry goes. -/
theorem failed_or_none (hrecorded : x.Recorded) : x.Failed ∨ x.after (x.account P) = none := by
  cases h with
  | refused _ _ houtput _ _ => exact absurd ⟨_, houtput⟩ hrecorded.1
  | raised _ houtput _ => exact absurd houtput hrecorded.2
  | failed _ _ houtput _ => exact Or.inl houtput
  | succeeded _ _ hafter => exact Or.inr (by rw [hafter, Function.update_self])

/-- **A login changes the entry of its account**, and none if it is not recorded. -/
theorem after_eq {k : Str} (hk : ¬ (x.account P = k ∧ x.Recorded)) : x.after k = x.before k := by
  cases h with
  | refused _ _ _ hafter _ => rw [hafter]
  | raised _ _ hafter => rw [hafter]
  | failed _ _ houtput hafter =>
    have hne : k ≠ x.account P := fun hk' => hk ⟨hk'.symm, Answer.Failed.recorded houtput⟩
    rw [hafter, Function.update_of_ne hne]
  | succeeded _ houtput hafter =>
    have hne : k ≠ x.account P := by
      refine fun hk' => hk ⟨hk'.symm, ?_, ?_⟩
      · rintro ⟨retryAfter, hrefused⟩
        cases houtput.symm.trans hrefused
      · exact fun hraised => by cases houtput.symm.trans hraised
    rw [hafter, Function.update_of_ne hne]

/-- **A login that locks its account** has made the count reach the threshold. -/
theorem of_locks (hpos : 0 < x.input.2.checkedAt)
    (htime : x.input.2.checkedAt ≤ x.input.2.recordedAt) (hlocks : x.Locks P config) :
    ∃ entry, x.after (x.account P) = some entry ∧ config.guard.threshold ≤ entry.count ∧
      entry.lockedUntil = config.guard.deadline x.input.2.recordedAt := by
  obtain ⟨hfailed, e, he⟩ := hlocks
  obtain ⟨hpassed, -, hself⟩ := h.of_failed hfailed
  obtain ⟨entry, hentry, hlt, -⟩ :=
    (InMemoryLoginGuard.assertNotLocked_eq_error config.guard).mp he
  obtain rfl := Option.some.inj (hself.symm.trans hentry)
  have hdeadline := InMemoryLoginGuard.Entry.lockedUntil_fail config.guard x.input.2.recordedAt
    ((x.before (x.account P)).getD {})
  have hold : ((x.before (x.account P)).getD {}).lockedUntil ≤ x.input.2.recordedAt := by
    rcases hbefore : x.before (x.account P) with _ | old
    · exact hpos.le.trans htime
    · exact ((InMemoryLoginGuard.assertNotLocked_eq_ok config.guard).mp hpassed old hbefore).trans
        htime
  split_ifs at hdeadline with hfull
  · exact ⟨_, hself, hfull, hdeadline⟩
  · exact absurd (hdeadline ▸ hlt) (not_lt.mpr hold)

/-- A failure that fills the count sets the lock. -/
theorem lockedUntil_of_full (hfailed : x.Failed) {entry : InMemoryLoginGuard.Entry}
    (hentry : x.after (x.account P) = some entry) (hfull : config.guard.threshold ≤ entry.count) :
    entry.lockedUntil = config.guard.deadline x.input.2.recordedAt := by
  obtain ⟨-, -, hself⟩ := h.of_failed hfailed
  obtain rfl := Option.some.inj (hself.symm.trans hentry)
  rw [InMemoryLoginGuard.Entry.lockedUntil_fail, if_pos hfull]

/-- **What locks an account is the count**, if the lock takes a time. -/
theorem locks_of_full (hlasts : x.input.2.recordedAt < config.guard.deadline x.input.2.recordedAt)
    (hfailed : x.Failed) {entry : InMemoryLoginGuard.Entry}
    (hentry : x.after (x.account P) = some entry) (hfull : config.guard.threshold ≤ entry.count) :
    x.Locks P config :=
  ⟨hfailed, _, (InMemoryLoginGuard.assertNotLocked_eq_error config.guard).mpr
    ⟨entry, hentry, (h.lockedUntil_of_full hfailed hentry hfull).symm ▸ hlasts, rfl⟩⟩

/-- A lock takes a time: a failure that sets one is not at the end of a window whose own deadline
has passed. -/
theorem not_void (hpos : 0 < x.input.2.checkedAt)
    (htime : x.input.2.checkedAt ≤ x.input.2.recordedAt) (hlocks : x.Locks P config)
    {entry : InMemoryLoginGuard.Entry} (hentry : x.after (x.account P) = some entry) :
    ¬ (entry.windowResetsAt ≤ x.input.2.recordedAt ∧
      config.guard.deadline entry.windowResetsAt ≤ entry.windowResetsAt) := by
  rintro ⟨hpast, hvoid⟩
  obtain ⟨hfailed, e, he⟩ := id hlocks
  obtain ⟨entry', hentry', hlasts, -⟩ :=
    (InMemoryLoginGuard.assertNotLocked_eq_error config.guard).mp he
  obtain rfl := Option.some.inj (hentry.symm.trans hentry')
  obtain ⟨entry'', hentry'', -, hlocked⟩ := h.of_locks hpos htime hlocks
  obtain rfl := Option.some.inj (hentry.symm.trans hentry'')
  obtain ⟨-, -, hself⟩ := h.of_failed hfailed
  obtain rfl := Option.some.inj (hself.symm.trans hentry)
  rw [hlocked] at hlasts
  rcases lt_or_ge ((x.before (x.account P)).getD {}).windowResetsAt x.input.2.recordedAt
    with helapsed | hlive
  · rw [(InMemoryLoginGuard.Entry.fail_elapsed config.guard helapsed).2] at hpast
    exact absurd hlasts (not_lt.mpr hpast)
  · rw [(InMemoryLoginGuard.Entry.fail_live config.guard hlive).2] at hpast hvoid
    rw [le_antisymm hpast hlive] at hvoid
    exact absurd hlasts (not_lt.mpr hvoid)

end Outcome

end

/-! ## Runs -/

section

variable {P : Platform} {config : Config} {s : State} {calls : List (Db × LoginCall)}
  {pre mid post : List Answer} {a b x : Answer}

theorem outcome_of_split (hsplit : answered (respond P config) s calls = pre ++ x :: post) :
    Outcome P config x :=
  outcome (answered_split hsplit).2.1 (answered_split hsplit).2.2.1

/-- **An entry dates from the last failure of its account**, or from before the run. -/
theorem entry_cases {k : Str} {entry : InMemoryLoginGuard.Entry}
    (hsplit : answered (respond P config) s calls = pre ++ b :: post)
    (hentry : b.before k = some entry) :
    s k = some entry ∨
      ∃ (pre' mid : List Answer) (a : Answer), pre = pre' ++ a :: mid ∧ a.account P = k ∧
        a.Failed ∧ (∀ x ∈ mid, x.account P = k → ¬ x.Failed) ∧ a.after k = some entry := by
  obtain ⟨hbefore, -, -, -, hpre, -⟩ := answered_split hsplit
  have hlast := answered_last (f := respond P config) (g := fun s => s k)
    (T := fun x : Answer => x.account P = k ∧ x.Recorded)
    (fun s c hT => (outcome_respond P config s c).after_eq hT) s (pre.map Answered.input)
  rw [hpre, ← hbefore, hentry] at hlast
  obtain ⟨-, hsame⟩ | ⟨pre', a, mid, rfl, ⟨hk, hrecorded⟩, hmid, hsame⟩ := hlast
  · exact Or.inl hsame.symm
  have hsplit' : answered (respond P config) s calls = pre' ++ a :: (mid ++ b :: post) := by
    rw [hsplit, List.append_assoc, List.cons_append]
  obtain hfailed | hnone := (outcome_of_split hsplit').failed_or_none hrecorded
  · exact Or.inr ⟨pre', mid, a, rfl, hk, hfailed,
      fun x hx hxk hx' => hmid x hx ⟨hxk, hx'.recorded⟩, hsame.symm⟩
  · rw [hk, ← hsame] at hnone
    cases hnone

namespace InTime

variable (htimes : InTime calls)
include htimes

/-- The readings of one login. -/
theorem of_split (hsplit : answered (respond P config) s calls = pre ++ x :: post) :
    0 < x.input.2.checkedAt ∧ x.input.2.checkedAt ≤ x.input.2.recordedAt := by
  refine htimes.1 x.input ?_
  rw [(answered_split hsplit).2.2.2.1]
  exact List.mem_append_right _ List.mem_cons_self

theorem of_locks (hsplit : answered (respond P config) s calls = pre ++ x :: post)
    (hx : x.Locks P config) :
    ∃ entry, x.after (x.account P) = some entry ∧ config.guard.threshold ≤ entry.count ∧
      entry.lockedUntil = config.guard.deadline x.input.2.recordedAt :=
  (outcome_of_split hsplit).of_locks (htimes.of_split hsplit).1 (htimes.of_split hsplit).2 hx

/-- What follows a login is in time as well, and later than it. -/
theorem after_split (hsplit : answered (respond P config) s calls = pre ++ x :: post) :
    InTime (post.map Answered.input) ∧
      ∀ y ∈ post, x.input.2.recordedAt ≤ y.input.2.checkedAt := by
  obtain ⟨hpos, hpairs⟩ := htimes
  rw [(answered_split hsplit).2.2.2.1] at hpos hpairs
  obtain ⟨hfirst, hrest⟩ := List.pairwise_cons.mp (List.pairwise_append.mp hpairs).2.1
  exact ⟨⟨fun c hc => hpos c (List.mem_append_right _ (List.mem_cons_of_mem _ hc)), hrest⟩,
    fun y hy => hfirst _ (List.mem_map_of_mem hy)⟩

/-- What precedes a login is earlier than it. -/
theorem before_split (hsplit : answered (respond P config) s calls = pre ++ x :: post) :
    ∀ y ∈ pre, y.input.2.recordedAt ≤ x.input.2.checkedAt := by
  obtain ⟨-, hpairs⟩ := htimes
  rw [(answered_split hsplit).2.2.2.1] at hpairs
  exact fun y hy => (List.pairwise_append.mp hpairs).2.2 _ (List.mem_map_of_mem hy) _
    List.mem_cons_self

/-- **While the lock holds, nothing touches the account's entry.** -/
theorem entry_while_locked
    (hsplit : answered (respond P config) s calls = pre ++ a :: (mid ++ b :: post))
    (ha : a.Locks P config)
    (hb : b.input.2.checkedAt < config.guard.deadline a.input.2.recordedAt) :
    b.before (a.account P) = a.after (a.account P) := by
  obtain ⟨entry, hentry, -, hlocked⟩ := htimes.of_locks hsplit ha
  obtain ⟨-, -, -, -, -, hafter⟩ := answered_split hsplit
  have hlater := (htimes.after_split hsplit).1
  obtain ⟨hbefore, -⟩ := answered_split hafter
  rw [hbefore]
  have hkeep : ∀ c ∈ mid.map Answered.input, ∀ s : State,
      s (a.account P) = a.after (a.account P) →
        (respond P config s c).2 (a.account P) = a.after (a.account P) := by
    intro c hc s hs
    obtain ⟨y, hy, rfl⟩ := List.mem_map.mp hc
    have hearly : y.input.2.checkedAt < entry.lockedUntil := calc
      y.input.2.checkedAt ≤ y.input.2.recordedAt :=
        (hlater.1 _ (List.mem_map_of_mem (List.mem_append_left _ hy))).2
      _ ≤ b.input.2.checkedAt := hlater.before_split hafter y hy
      _ < entry.lockedUntil := hlocked ▸ hb
    have hy' := outcome_respond P config s y.input
    refine (hy'.after_eq fun ⟨hk, hrecorded⟩ => hrecorded.1 ?_).trans hs
    exact hy'.refused_of_locked (hk ▸ hs.trans hentry) hearly
  exact finalState_invariant hkeep rfl

/-- **A login is refused for the last lockout of its account**, or for one from before the run. -/
theorem lock_of_refused
    (hsplit : answered (respond P config) s calls = pre ++ b :: post) (hb : b.Refused) :
    b.before (b.account P) = s (b.account P) ∨
      ∃ (pre' mid : List Answer) (a : Answer), pre = pre' ++ a :: mid ∧
        a.account P = b.account P ∧ a.Locks P config ∧
        (∀ x ∈ mid, x.account P = b.account P → ¬ x.Locks P config) ∧
        b.before (b.account P) = a.after (b.account P) := by
  obtain ⟨-, -, entry, hentry, hlocked, -⟩ := (outcome_of_split hsplit).of_refused hb
  obtain hstart | ⟨pre', mid, a, rfl, hk, hfailed, hmid, hafter⟩ :=
    entry_cases hsplit hentry
  · exact Or.inl (hentry.trans hstart.symm)
  refine Or.inr ⟨pre', mid, a, rfl, hk, ⟨hfailed, _,
    (InMemoryLoginGuard.assertNotLocked_eq_error config.guard).mpr ⟨entry, ?_, ?_, rfl⟩⟩,
    fun x hx hxk hlocks => hmid x hx hxk hlocks.1, hentry.trans hafter.symm⟩
  · exact (congrArg a.after hk).trans hafter
  · exact (htimes.before_split hsplit a (List.mem_append_right _ List.mem_cons_self)).trans_lt
      hlocked

/-- **From the deadline on, no login is refused for the lock.** -/
theorem not_refused_after
    (hsplit : answered (respond P config) s calls = pre ++ a :: (mid ++ b :: post))
    (ha : a.Locks P config) (hk : b.account P = a.account P)
    (hb : config.guard.deadline a.input.2.recordedAt ≤ b.input.2.checkedAt)
    (hmid : ∀ x ∈ mid, x.account P = a.account P → ¬ x.Locks P config) : ¬ b.Refused := by
  intro hrefused
  obtain ⟨entry, hentry, -, hlocked⟩ := htimes.of_locks hsplit ha
  obtain ⟨-, -, -, -, -, hafter⟩ := answered_split hsplit
  obtain hsame | ⟨pre', mid', a', rfl, hk', hlocks, -, -⟩ :=
    (htimes.after_split hsplit).1.lock_of_refused hafter hrefused
  · obtain ⟨-, -, entry', hentry', hlt, -⟩ := (outcome_of_split hafter).of_refused hrefused
    rw [hsame, hk, hentry] at hentry'
    obtain rfl := Option.some.inj hentry'
    exact absurd hlt (not_lt.mpr (hlocked ▸ hb))
  · exact hmid a' (List.mem_append_right _ List.mem_cons_self) (hk'.trans hk) hlocks

end InTime

end

/-! ## A lockout runs its course -/

section

variable {P : Platform} {config : Config} {calls : List (Db × LoginCall)}
  {pre post : List Answer} {b : Answer} {retryAfter : ℤ}

/-- **What `Retry-After` says** of the lock that the login is refused for. -/
theorem InTime.retryAfter_covers (htimes : InTime calls)
    (hlockout : 0 < config.guard.lockoutSeconds)
    (hexact : ∀ x, config.guard.floats.round x = x) (hsplit : run P config calls = pre ++ b :: post)
    (hb : b.output = .error (.app (tooManyAttempts retryAfter))) :
    ∃ pre' a mid, pre = pre' ++ a :: mid ∧ a.account P = b.account P ∧ a.Locks P config ∧
      (∀ x ∈ mid, x.account P = b.account P → ¬ x.Locks P config) ∧
      1 ≤ retryAfter ∧ retryAfter ≤ config.guard.lockoutSeconds ∧
      a.input.2.recordedAt + config.guard.lockoutSeconds - b.input.2.checkedAt ≤ retryAfter ∧
      (retryAfter < a.input.2.recordedAt + config.guard.lockoutSeconds - b.input.2.checkedAt + 1 ∨
        retryAfter = 1) := by
  have hrefused : b.Refused := ⟨retryAfter, hb⟩
  obtain ⟨-, -, entry, hentry, hlt, houtput⟩ := (outcome_of_split hsplit).of_refused hrefused
  obtain hnone | ⟨pre', mid, a, rfl, hk, hlocks, hmid, hsame⟩ :=
    htimes.lock_of_refused hsplit hrefused
  · cases hentry.symm.trans hnone
  refine ⟨pre', a, mid, rfl, hk, hlocks, hmid, ?_⟩
  have hsplit' : run P config calls = pre' ++ a :: (mid ++ b :: post) := by
    rw [hsplit, List.append_assoc, List.cons_append]
  obtain ⟨entry', hentry', -, hlocked⟩ := htimes.of_locks hsplit' hlocks
  rw [InMemoryLoginGuard.deadline_eq_add hexact] at hlocked
  rw [hk, ← hsame, hentry] at hentry'
  obtain rfl := Option.some.inj hentry'
  have hearlier : a.input.2.recordedAt ≤ b.input.2.checkedAt :=
    htimes.before_split hsplit a (List.mem_append_right _ List.mem_cons_self)
  rw [← hlocked]
  obtain rfl : retryAfter = max 1 ⌈entry.lockedUntil - b.input.2.checkedAt⌉ := by
    have hretry := InMemoryLoginGuard.tooManyAttempts_injective
      (Exc.app.inj (Except.error.inj (hb.symm.trans houtput)))
    rwa [InMemoryLoginGuard.Entry.retryAfter, hexact] at hretry
  have hceil : ⌈entry.lockedUntil - b.input.2.checkedAt⌉ ≤ config.guard.lockoutSeconds := by
    rw [Int.ceil_le, hlocked]
    linarith
  refine ⟨le_max_left _ _, max_le hlockout hceil, ?_, ?_⟩
  · exact (Int.le_ceil _).trans (by exact_mod_cast le_max_right _ _)
  · rcases max_choice 1 ⌈entry.lockedUntil - b.input.2.checkedAt⌉ with h | h <;> rw [h]
    · exact Or.inr rfl
    · exact Or.inl (Int.ceil_lt_add_one _)

end

/-- **A lockout runs its course**, exactly, in any run of logins, where times and durations are
exact numbers.  While it holds every login to the account, in any spelling, is refused: no password
is verified, and the guard is left as it is.  From its deadline on no login is refused unless the
account was locked again.  And a refusal is for the account's last lockout: its `Retry-After` covers
what is left of it and less than a second more, or is one second. -/
theorem lockout_runs_exactly (P : Platform) (config : Config)
    (hlockout : 0 < config.guard.lockoutSeconds) (hexact : ∀ x, config.guard.floats.round x = x)
    (calls : List (Db × LoginCall)) (htimes : InTime calls) :
    (∀ (pre mid post : List Answer) (a b : Answer),
      run P config calls = pre ++ a :: (mid ++ b :: post) → a.Locks P config →
      b.account P = a.account P →
        (b.input.2.checkedAt < a.input.2.recordedAt + config.guard.lockoutSeconds →
          b.Refused ∧ b.after = b.before ∧
            verifications P config b.input.1 b.before b.input.2 = []) ∧
        (a.input.2.recordedAt + config.guard.lockoutSeconds ≤ b.input.2.checkedAt →
          (∀ x ∈ mid, x.account P = a.account P → ¬ x.Locks P config) → ¬ b.Refused)) ∧
      ∀ (pre post : List Answer) (b : Answer) (retryAfter : ℤ),
        run P config calls = pre ++ b :: post →
        b.output = .error (.app (tooManyAttempts retryAfter)) →
          (∃ (pre' mid : List Answer) (a : Answer), pre = pre' ++ a :: mid ∧
            a.account P = b.account P ∧ a.Locks P config ∧
            (∀ x ∈ mid, x.account P = b.account P → ¬ x.Locks P config) ∧
            1 ≤ retryAfter ∧ retryAfter ≤ config.guard.lockoutSeconds ∧
            a.input.2.recordedAt + config.guard.lockoutSeconds - b.input.2.checkedAt
              ≤ retryAfter ∧
            (retryAfter < a.input.2.recordedAt + config.guard.lockoutSeconds
              - b.input.2.checkedAt + 1 ∨ retryAfter = 1)) ∧
          ∀ (mid post' : List Answer) (c : Answer), post = mid ++ c :: post' →
            c.account P = b.account P →
            b.input.2.checkedAt + retryAfter ≤ c.input.2.checkedAt →
            (∀ x ∈ mid, x.account P = b.account P → ¬ x.Locks P config) → ¬ c.Refused := by
  have hdeadline := InMemoryLoginGuard.deadline_eq_add hexact
  constructor
  · intro pre mid post a b hsplit ha hk
    rw [← hdeadline]
    refine ⟨fun hb => ?_, fun hb hmid => htimes.not_refused_after hsplit ha hk hb hmid⟩
    obtain ⟨entry, hentry, -, hlocked⟩ := htimes.of_locks hsplit ha
    obtain ⟨-, -, -, -, -, hafter⟩ := answered_split hsplit
    have hsame := htimes.entry_while_locked hsplit ha hb
    have hout : Outcome P config b := outcome_of_split hafter
    have hrefused : b.Refused :=
      hout.refused_of_locked (hk ▸ hsame.trans hentry) (hlocked ▸ hb)
    exact ⟨hrefused, (hout.of_refused hrefused).1, (hout.of_refused hrefused).2.1⟩
  · intro pre post b retryAfter hsplit hb
    obtain ⟨pre', a, mid, rfl, hk, hlocks, hmid, hcovers⟩ :=
      htimes.retryAfter_covers hlockout hexact hsplit hb
    refine ⟨⟨pre', mid, a, rfl, hk, hlocks, hmid, hcovers⟩, ?_⟩
    rintro mid' post' c rfl hkc hc hmid'
    have hsplit' : run P config calls = pre' ++ a :: ((mid ++ b :: mid') ++ c :: post') := by
      rw [hsplit]
      simp
    refine htimes.not_refused_after hsplit' hlocks (hkc.trans hk.symm) ?_ fun x hx hxk => ?_
    · rw [hdeadline]
      linarith [hcovers.2.2.1]
    · obtain hx | hx := List.mem_append.mp hx
      · exact hmid x hx (hxk.trans hk)
      · obtain rfl | hx := List.mem_cons.mp hx
        · exact fun hlocks' => hlocks'.1.not_refused ⟨retryAfter, hb⟩
        · exact hmid' x hx (hxk.trans hk)

/-- The lock of the first login is over when the third one comes. -/
theorem lockout_runs_exactly_minute :
    let config : Config := { Config.strict with guard := ⟨1, 60, .exact⟩ }
    let bob : Str := "bob@example.com".toList
    let calls : List (Db × LoginCall) := [(Db.twoAccounts, ⟨bob, ['x'], 1, 2, fun _ => []⟩),
      (Db.twoAccounts, ⟨' ' :: bob, [], 3, 3, fun _ => []⟩),
      (Db.twoAccounts, ⟨bob, [], 62, 63, fun _ => []⟩)]
    ∃ a b c, run .sqlite config calls = [a, b, c] ∧ a.Locks .sqlite config ∧ b.Refused ∧
      b.after = b.before ∧ verifications .sqlite config b.input.1 b.before b.input.2 = [] ∧
      ¬ c.Refused := by
  intro config bob calls
  have htimes : InTime calls := ⟨by decide +kernel, by decide +kernel⟩
  obtain ⟨a, b, c, hrun, ha, hb, hc, hearly, hlate⟩ :
      ∃ a b c, run .sqlite config calls = [a, b, c] ∧ a.Locks .sqlite config ∧
        b.account .sqlite = a.account .sqlite ∧ c.account .sqlite = a.account .sqlite ∧
        b.input.2.checkedAt < a.input.2.recordedAt + (60 : ℤ) ∧
        a.input.2.recordedAt + (60 : ℤ) ≤ c.input.2.checkedAt :=
    ⟨_, _, _, rfl, ⟨by decide +kernel, tooManyAttempts 60, by decide +kernel⟩,
      by decide +kernel, by decide +kernel, by decide +kernel, by decide +kernel⟩
  obtain ⟨hcourse, -⟩ :=
    lockout_runs_exactly .sqlite config (by decide) (fun _ => rfl) calls htimes
  obtain ⟨hrefused, hafter, hverify⟩ := (hcourse [] [] [c] a b hrun ha hb).1 hearly
  have hserved := (hcourse [] [b] [] a c hrun ha hc).2 hlate fun x hx _ hlocks => by
    obtain rfl := List.mem_singleton.mp hx
    exact hlocks.1.not_refused hrefused
  exact ⟨a, b, c, hrun, ha, hrefused, hafter, hverify, hserved⟩

/-! ## A fresh budget -/

/-- **After a lockout it takes as many failures as before to lock the account again.** -/
def FreshBudget (P : Platform) (config : Config) (k : Str) (run : List Answer) : Prop :=
  ∀ a mid b, Answer.Successive P config k run a mid b →
    config.guard.maxFailures ≤ Answer.failuresAfter P config a (mid ++ [b])

/-- **No failure counts towards two lockouts**: what the second has counted followed the first. -/
def CountedOnce (P : Platform) (config : Config) (k : Str) (run : List Answer) : Prop :=
  ∀ a mid b, Answer.Successive P config k run a mid b → ∀ entry, b.after k = some entry →
    entry.count ≤ Answer.failuresAfter P config a (mid ++ [b])

/-- The failures of an account. -/
def Answer.failures (P : Platform) (k : Str) (xs : List Answer) : ℕ :=
  xs.countP fun x => x.account P = k ∧ x.Failed

/-- What an account's entry is after `n` failures since a lockout, by the reading `u`: what the
lockout left, after none; else it counts these and no others, or a failure at its reset has set a
lock that was over as it began. -/
def CountsSince (config : Config) (locked : InMemoryLoginGuard.Entry) (n : ℕ) (u : ℚ)
    (entry : Option InMemoryLoginGuard.Entry) : Prop :=
  ∀ e, entry = some e → e = locked ∧ n = 0 ∨ e.count ≤ n ∨
    e.windowResetsAt ≤ u ∧ config.guard.deadline e.windowResetsAt ≤ e.windowResetsAt

section

variable {P : Platform} {config : Config} {s : State} {calls : List (Db × LoginCall)} {k : Str}
  {locked : InMemoryLoginGuard.Entry} {n : ℕ} {u : ℚ} {x : Answer}

theorem CountsSince.mono {u' : ℚ} {entry : Option InMemoryLoginGuard.Entry}
    (h : CountsSince config locked n u entry) (hu : u ≤ u') :
    CountsSince config locked n u' entry :=
  fun e he => (h e he).imp_right (Or.imp_right (And.imp_left fun hle => hle.trans hu))

/-- **One login** that is not recorded at a reset. -/
theorem Outcome.countsSince (h : Outcome P config x) (hfull : config.guard.threshold ≤ locked.count)
    (hcloses : locked.windowResetsAt ≤ locked.lockedUntil) (hu : u ≤ x.input.2.checkedAt)
    (htime : x.input.2.checkedAt ≤ x.input.2.recordedAt)
    (hreset : x.account P = k → ¬ x.AtReset P config)
    (hn : CountsSince config locked n u (x.before k)) :
    CountsSince config locked (n + if x.account P = k ∧ x.Failed then 1 else 0)
      x.input.2.recordedAt (x.after k) := by
  by_cases hrecorded : x.account P = k ∧ x.Recorded
  swap
  · have hfailed : ¬ (x.account P = k ∧ x.Failed) :=
      fun ⟨hk, hfailed⟩ => hrecorded ⟨hk, hfailed.recorded⟩
    rw [h.after_eq hrecorded, if_neg hfailed]
    exact hn.mono (hu.trans htime)
  obtain ⟨rfl, hrecorded⟩ := hrecorded
  obtain hfailed | hnone := h.failed_or_none hrecorded
  swap
  · intro e he
    cases hnone.symm.trans he
  intro e he
  rw [if_pos ⟨rfl, hfailed⟩]
  obtain ⟨hpassed, hwrong, hafter⟩ := h.of_failed hfailed
  obtain rfl := Option.some.inj (hafter.symm.trans he)
  right
  rcases hbefore : x.before (x.account P) with _ | entry
  · left
    rw [Option.getD_none, InMemoryLoginGuard.Entry.count_fail_new]
    omega
  rw [Option.getD_some]
  rcases lt_or_ge entry.windowResetsAt x.input.2.recordedAt with helapsed | hlive
  · left
    rw [(InMemoryLoginGuard.Entry.fail_elapsed config.guard helapsed).1]
    omega
  obtain ⟨hcount, hresets⟩ := InMemoryLoginGuard.Entry.fail_live config.guard hlive
  obtain ⟨rfl, rfl⟩ | hcounted | ⟨hpast, hvoid⟩ := hn entry hbefore
  · -- The window that locked the account is still open: this is its reset, and the lock is void.
    right
    have hnow : entry.windowResetsAt ≤ x.input.2.recordedAt :=
      (hcloses.trans ((InMemoryLoginGuard.assertNotLocked_eq_ok config.guard).mp hpassed entry
        hbefore)).trans htime
    have hvoid : config.guard.deadline x.input.2.recordedAt ≤ x.input.2.recordedAt :=
      not_lt.mp fun hlasts => hreset rfl ⟨hpassed, hwrong, hlasts, entry, hbefore, hfull, hlive⟩
    rw [hresets]
    exact ⟨hnow, (le_antisymm hnow hlive).symm ▸ hvoid⟩
  · left
    rw [hcount]
    omega
  · right
    rw [hresets]
    exact ⟨(hpast.trans hu).trans htime, hvoid⟩

/-- **What an account's count counts**, in a run from a lockout on. -/
theorem countsSince_run (htimes : InTime calls) (hu : ∀ c ∈ calls, u ≤ c.2.checkedAt)
    (hfull : config.guard.threshold ≤ locked.count)
    (hcloses : locked.windowResetsAt ≤ locked.lockedUntil)
    (hreset : ∀ x ∈ answered (respond P config) s calls,
      Answer.account P x = k → ¬ Answer.AtReset P config x)
    (hn : CountsSince config locked n u (s k)) {v : ℚ} (huv : u ≤ v)
    (hv : ∀ c ∈ calls, c.2.recordedAt ≤ v) :
    CountsSince config locked
      (n + Answer.failures P k (answered (respond P config) s calls)) v
      (finalState (respond P config) s calls k) := by
  induction calls generalizing s n u with
  | nil => exact hn.mono huv
  | cons c calls ih =>
    obtain ⟨hc, hcalls⟩ := List.forall_mem_cons.mp hreset
    obtain ⟨hc', hcalls'⟩ := List.forall_mem_cons.mp htimes.1
    obtain ⟨hlater, hpairs⟩ := List.pairwise_cons.mp htimes.2
    obtain ⟨hlast, hv⟩ := List.forall_mem_cons.mp hv
    have hstep := (outcome_respond P config s c).countsSince hfull hcloses
      (hu c List.mem_cons_self) hc'.2 hc hn
    have hrest := ih ⟨hcalls', hpairs⟩ hlater hcalls hstep hlast hv
    rw [answered, Answer.failures, List.countP_cons, add_left_comm, add_comm]
    simp only [decide_eq_true_eq]
    exact hrest

end

section

variable {P : Platform} {config : Config} {calls : List (Db × LoginCall)} {k : Str}
  {pre mid post : List Answer} {a b x : Answer}

/-- **A window resets no later than the deadline of the last failure in it.** -/
theorem InTime.windowResetsAt_le (htimes : InTime calls)
    (hsplit : run P config calls = pre ++ a :: post) (hfailed : a.Failed)
    {entry : InMemoryLoginGuard.Entry} (hentry : a.after (a.account P) = some entry) :
    entry.windowResetsAt ≤ config.guard.deadline a.input.2.recordedAt := by
  -- The entry that the failure finds is that of the failure before it.
  induction hlength : pre.length using Nat.strong_induction_on generalizing pre post a entry with
  | _ n ih =>
    obtain ⟨-, -, hself⟩ := (outcome_of_split hsplit).of_failed hfailed
    obtain rfl := Option.some.inj (hself.symm.trans hentry)
    have hpos : 0 < a.input.2.recordedAt :=
      (htimes.of_split hsplit).1.trans_le (htimes.of_split hsplit).2
    rcases lt_or_ge ((a.before (a.account P)).getD {}).windowResetsAt a.input.2.recordedAt
      with helapsed | hlive
    · exact (InMemoryLoginGuard.Entry.fail_elapsed config.guard helapsed).2.le
    rw [(InMemoryLoginGuard.Entry.fail_live config.guard hlive).2]
    rcases hbefore : a.before (a.account P) with _ | old
    · rw [hbefore] at hlive
      exact absurd hpos (not_lt.mpr hlive)
    obtain hnone | ⟨pre', mid, a', rfl, hk, hfailed', -, hafter⟩ := entry_cases hsplit hbefore
    · cases hnone
    have hsplit' : run P config calls = pre' ++ a' :: (mid ++ a :: post) := by
      rw [hsplit, List.append_assoc, List.cons_append]
    have hshort : pre'.length < n := by
      rw [← hlength, List.length_append, List.length_cons]
      omega
    refine (ih _ hshort hsplit' hfailed' (hk ▸ hafter) rfl).trans ?_
    have hearlier := htimes.before_split hsplit a' (List.mem_append_right _ List.mem_cons_self)
    exact InMemoryLoginGuard.deadline_mono (hearlier.trans (htimes.of_split hsplit).2)

/-- **All failures that follow a lockout follow its end**, since what comes before is refused. -/
theorem InTime.failuresAfter_eq (htimes : InTime calls)
    (hsplit : run P config calls = pre ++ a :: (mid ++ post)) (ha : a.Locks P config) :
    Answer.failuresAfter P config a mid = Answer.failures P (a.account P) mid := by
  refine List.countP_congr fun x hx => ?_
  simp only [decide_eq_true_eq]
  refine ⟨fun h => ⟨h.1, h.2.1⟩, fun ⟨hk, hfailed⟩ => ⟨hk, hfailed, ?_⟩⟩
  obtain ⟨mid₁, mid₂, rfl⟩ := List.append_of_mem hx
  have hsplit' : run P config calls = pre ++ a :: (mid₁ ++ x :: (mid₂ ++ post)) := by
    rw [hsplit, List.append_assoc, List.cons_append]
  obtain ⟨entry, hentry, -, hlocked⟩ := htimes.of_locks hsplit' ha
  obtain ⟨-, -, -, -, -, hafter⟩ := answered_split hsplit'
  have hlate : entry.lockedUntil ≤ x.input.2.checkedAt := by
    by_contra hearly
    have hsame := htimes.entry_while_locked hsplit' ha (hlocked ▸ not_le.mp hearly)
    exact hfailed.not_refused ((outcome_of_split hafter).refused_of_locked
      (hk ▸ hsame.trans hentry) (not_le.mp hearly))
  refine (InMemoryLoginGuard.assertNotLocked_eq_ok config.guard).mpr fun entry' hentry' => ?_
  obtain rfl := Option.some.inj (hentry.symm.trans hentry')
  exact hlate.trans ((htimes.after_split hsplit').1.of_split hafter).2

/-- The count with which an account is locked again is of failures since. -/
theorem InTime.count_le_failuresAfter (htimes : InTime calls)
    (hreset : ∀ x ∈ run P config calls, x.account P = k → ¬ x.AtReset P config)
    (h : Answer.Successive P config k (run P config calls) a mid b)
    {entry : InMemoryLoginGuard.Entry} (hentry : b.after k = some entry) :
    entry.count ≤ Answer.failuresAfter P config a (mid ++ [b]) := by
  obtain ⟨⟨pre, post, hsplit⟩, rfl, hkb, ha, hb, -⟩ := h
  obtain ⟨locked, hlocked, hfull, hdeadline⟩ := htimes.of_locks hsplit ha
  have hcloses : locked.windowResetsAt ≤ locked.lockedUntil :=
    hdeadline ▸ htimes.windowResetsAt_le hsplit ha.1 hlocked
  have hsplit' : run P config calls = pre ++ a :: ((mid ++ [b]) ++ post) := by
    rw [hsplit, List.append_assoc, List.singleton_append]
  have hafterwards := htimes.failuresAfter_eq hsplit' ha
  obtain ⟨-, -, -, -, -, hafter⟩ := answered_split hsplit
  obtain ⟨htimes', hlater⟩ := htimes.after_split hsplit
  obtain ⟨hbefore, -, -, hinputs, hmid, -⟩ := answered_split hafter
  rw [hinputs] at htimes'
  have hmidtimes : InTime (mid.map Answered.input) :=
    ⟨fun c hc => htimes'.1 c (List.mem_append_left _ hc), (List.pairwise_append.mp htimes'.2).1⟩
  have hsince : CountsSince config locked
      (0 + Answer.failures P (a.account P) (answered (respond P config) a.after
        (mid.map Answered.input))) b.input.2.checkedAt
      (finalState (respond P config) a.after (mid.map Answered.input) (a.account P)) := by
    refine countsSince_run (u := a.input.2.recordedAt) hmidtimes (fun c hc => ?_) hfull hcloses
      (fun x hx => hreset x ?_) (fun e he => ?_)
      (hlater b (List.mem_append_right _ List.mem_cons_self)) fun c hc => ?_
    · obtain ⟨y, hy, rfl⟩ := List.mem_map.mp hc
      exact hlater y (List.mem_append_left _ hy)
    · rw [hmid] at hx
      rw [hsplit]
      exact List.mem_append_right _ (List.mem_cons_of_mem _ (List.mem_append_left _ hx))
    · exact Or.inl ⟨Option.some.inj (he.symm.trans hlocked), rfl⟩
    · exact (List.pairwise_append.mp htimes'.2).2.2 c hc _ List.mem_cons_self
  rw [hmid, ← hbefore] at hsince
  have hbtimes := (htimes.after_split hsplit).1.of_split hafter
  have hb' := (outcome_of_split hafter).countsSince hfull hcloses le_rfl hbtimes.2
    (hreset b (by rw [hsplit]; simp)) hsince entry hentry
  have hone : (if b.account P = a.account P ∧ b.Failed then 1 else 0) = 1 := if_pos ⟨hkb, hb.1⟩
  have hsum : Answer.failures P (a.account P) (mid ++ [b])
      = Answer.failures P (a.account P) mid + 1 := by
    rw [Answer.failures, List.countP_append, List.countP_singleton,
      if_pos (by simpa using ⟨hkb, hb.1⟩)]
    rfl
  rw [hone] at hb'
  rw [hafterwards, hsum]
  obtain ⟨-, hnone⟩ | hcounted | ⟨hpast, hvoid⟩ := hb'
  · omega
  · omega
  · exact absurd ⟨hpast, hvoid⟩
      ((outcome_of_split hafter).not_void hbtimes.1 hbtimes.2 hb (hkb ▸ hentry))

/-- **A wrong password at a reset locks the account again**, whatever the threshold. -/
theorem InTime.successive_of_atReset (htimes : InTime calls) (hx : x ∈ run P config calls)
    (hk : x.account P = k) (hreset : x.AtReset P config) :
    ∃ a mid entry, Answer.Successive P config k (run P config calls) a mid x ∧
      Answer.failuresAfter P config a (mid ++ [x]) ≤ 1 ∧ x.after k = some entry ∧
        2 ≤ entry.count := by
  subst hk
  obtain ⟨hpassed, hwrong, hlasts, entry, hentry, hfull, hlive⟩ := hreset
  obtain ⟨pre, post, hsplit⟩ := List.append_of_mem hx
  obtain hnone | ⟨pre', mid, a, rfl, hk, hfailed, hmid, hafter⟩ := entry_cases hsplit hentry
  · cases hnone
  have hsplit' : run P config calls = pre' ++ a :: (mid ++ x :: post) := by
    rw [hsplit, List.append_assoc, List.cons_append]
  -- The failure before it is the lockout: its count is the entry's, and both deadlines are now.
  have ha : a.Locks P config := by
    have hout := outcome_of_split hsplit'
    have hlocked := hout.lockedUntil_of_full hfailed (hk ▸ hafter) hfull
    have hcloses := htimes.windowResetsAt_le hsplit' hfailed (hk ▸ hafter)
    have hopen : entry.lockedUntil ≤ x.input.2.checkedAt :=
      (InMemoryLoginGuard.assertNotLocked_eq_ok config.guard).mp hpassed entry hentry
    have hearlier : a.input.2.recordedAt ≤ x.input.2.checkedAt :=
      htimes.before_split hsplit a (List.mem_append_right _ List.mem_cons_self)
    have htime := (htimes.of_split hsplit).2
    refine hout.locks_of_full ?_ hfailed (hk ▸ hafter) hfull
    by_contra hvoid
    have hnow : a.input.2.recordedAt = x.input.2.recordedAt := by linarith
    rw [hnow] at hvoid
    exact hvoid hlasts
  have hxfailed : x.Failed := failed_of_wrong hpassed hwrong (answered_split hsplit).2.1
  obtain ⟨-, -, hxafter⟩ := (outcome_of_split hsplit).of_failed hxfailed
  rw [hentry, Option.getD_some] at hxafter
  obtain ⟨hcount, -⟩ := InMemoryLoginGuard.Entry.fail_live config.guard hlive
  have hthreshold : 1 ≤ config.guard.threshold := by
    rw [InMemoryLoginGuard.threshold]
    omega
  have hx : x.Locks P config :=
    (outcome_of_split hsplit).locks_of_full hlasts hxfailed hxafter (by omega)
  refine ⟨a, mid, _, ⟨⟨pre', post, hsplit'⟩, hk, rfl, ha, hx, fun y hy hyk hlocks =>
    hmid y hy hyk hlocks.1⟩, ?_, hxafter, by omega⟩
  have hnone : Answer.failuresAfter P config a mid = 0 := by
    rw [Answer.failuresAfter, List.countP_eq_zero]
    intro y hy hcounts
    rw [decide_eq_true_eq] at hcounts
    exact hmid y hy (hcounts.1.trans hk) hcounts.2.1
  calc Answer.failuresAfter P config a (mid ++ [x])
      = Answer.failuresAfter P config a mid + Answer.failuresAfter P config a [x] :=
        List.countP_append
    _ ≤ 0 + 1 := Nat.add_le_add hnone.le List.countP_le_length

end

/-- **A served lockout gives a fresh budget, unless a failure is recorded at its reset.** -/
theorem fresh_budget_iff (P : Platform) (config : Config) (hmax : 1 ≤ config.guard.maxFailures)
    (calls : List (Db × LoginCall)) (htimes : InTime calls) (k : Str) :
    (FreshBudget P config k (run P config calls) ↔ config.guard.maxFailures = 1 ∨
      ∀ x ∈ run P config calls, x.account P = k → ¬ x.AtReset P config) ∧
    (CountedOnce P config k (run P config calls) ↔
      ∀ x ∈ run P config calls, x.account P = k → ¬ x.AtReset P config) := by
  constructor
  · constructor
    · intro hbudget
      refine or_iff_not_imp_right.mpr fun hresets => ?_
      push Not at hresets
      obtain ⟨x, hx, hk, hreset⟩ := hresets
      obtain ⟨a, mid, -, hsuccessive, hfailures, -⟩ :=
        htimes.successive_of_atReset hx hk hreset
      have := hbudget a mid x hsuccessive
      omega
    · intro h a mid b hsuccessive
      obtain ⟨pre, post, hsplit⟩ := hsuccessive.split
      obtain hone | hresets := h
      · have hsplit' : run P config calls = pre ++ a :: ((mid ++ [b]) ++ post) := by
          rw [hsplit, List.append_assoc, List.singleton_append]
        have hpos : 0 < Answer.failures P (a.account P) (mid ++ [b]) :=
          List.countP_pos_iff.mpr ⟨b, List.mem_append_right _ (List.mem_singleton_self b),
            by simpa using ⟨hsuccessive.account'.trans hsuccessive.account.symm,
              hsuccessive.locks'.1⟩⟩
        rw [htimes.failuresAfter_eq hsplit' hsuccessive.locks]
        omega
      · obtain ⟨-, -, -, -, -, hafter⟩ := answered_split hsplit
        obtain ⟨entry, hentry, hfull, -⟩ :=
          (htimes.after_split hsplit).1.of_locks hafter hsuccessive.locks'
        rw [hsuccessive.account'] at hentry
        have hcount := htimes.count_le_failuresAfter hresets hsuccessive hentry
        rw [InMemoryLoginGuard.threshold] at hfull
        omega
  · constructor
    · intro honce x hx hk hreset
      obtain ⟨a, mid, entry, hsuccessive, hfailures, hentry, hcount⟩ :=
        htimes.successive_of_atReset hx hk hreset
      have := honce a mid x hsuccessive entry hentry
      omega
    · intro hresets a mid b hsuccessive entry hentry
      exact htimes.count_le_failuresAfter hresets hsuccessive hentry

/-- Two failures lock the account, and two more when the lock is over. -/
theorem fresh_budget_iff_two :
    let config : Config := { Config.strict with guard := ⟨2, 60, .binary64⟩ }
    let bob : Str := "bob@example.com".toList
    let calls : List (Db × LoginCall) := [(Db.twoAccounts, ⟨bob, ['x'], 1, 1, fun _ => []⟩),
      (Db.twoAccounts, ⟨bob, ['x'], 2, 2, fun _ => []⟩),
      (Db.twoAccounts, ⟨bob, ['x'], 62, 62, fun _ => []⟩),
      (Db.twoAccounts, ⟨bob, ['x'], 63, 63, fun _ => []⟩)]
    FreshBudget .sqlite config bob (run .sqlite config calls) ∧
      CountedOnce .sqlite config bob (run .sqlite config calls) := by
  intro config bob calls
  have htimes : InTime calls := ⟨by decide +kernel, by decide +kernel⟩
  have hresets : ∀ x ∈ run .sqlite config calls, x.account .sqlite = bob →
      ¬ x.AtReset .sqlite config := by
    have hall : (run .sqlite config calls).all (fun x => (x.before bob).all fun e =>
        decide (e.count < 2) || decide (e.windowResetsAt < x.input.2.recordedAt)) = true := by
      decide +kernel
    rintro x hx hk ⟨-, -, -, entry, hentry, hfull, hlive⟩
    have hopen := List.all_eq_true.mp hall x hx
    rw [← hk, hentry, Option.all_some, Bool.or_eq_true, decide_eq_true_eq, decide_eq_true_eq]
      at hopen
    obtain hcount | helapsed := hopen
    · exact absurd hfull (not_le.mpr hcount)
    · exact absurd hlive (not_le.mpr helapsed)
  obtain ⟨hbudget, honce⟩ :=
    fresh_budget_iff .sqlite config (by decide) calls htimes bob
  exact ⟨hbudget.mpr (Or.inr hresets), honce.mpr hresets⟩

/-- **A third failure alone locks the account again**: two failures at one instant lock it, and
their window is still open at the instant at which the lock ends. -/
theorem not_fresh_budget :
    let config : Config := { Config.strict with guard := ⟨2, 60, .binary64⟩ }
    let bob : Str := "bob@example.com".toList
    let calls : List (Db × LoginCall) := [(Db.twoAccounts, ⟨bob, ['x'], 1, 1, fun _ => []⟩),
      (Db.twoAccounts, ⟨bob, ['x'], 1, 1, fun _ => []⟩),
      (Db.twoAccounts, ⟨bob, ['x'], 61, 61, fun _ => []⟩)]
    InTime calls ∧ ¬ FreshBudget .sqlite config bob (run .sqlite config calls) := by
  intro config bob calls
  refine ⟨⟨by decide +kernel, by decide +kernel⟩, fun h => ?_⟩
  obtain ⟨x, a, b, hrun, hka, hkb, ha, hb, hfailures⟩ :
      ∃ x a b, run .sqlite config calls = [x, a, b] ∧ a.account .sqlite = bob ∧
        b.account .sqlite = bob ∧ a.Locks .sqlite config ∧ b.Locks .sqlite config ∧
        Answer.failuresAfter .sqlite config a [b] = 1 :=
    ⟨_, _, _, rfl, by decide +kernel, by decide +kernel,
      ⟨by decide +kernel, tooManyAttempts 60, by decide +kernel⟩,
      ⟨by decide +kernel, tooManyAttempts 60, by decide +kernel⟩, by decide +kernel⟩
  have hbudget := h a [] b ⟨⟨[x], [], hrun⟩, hka, hkb, ha, hb, by simp⟩
  rw [List.nil_append, hfailures] at hbudget
  exact absurd hbudget (by decide)

end AuthService
