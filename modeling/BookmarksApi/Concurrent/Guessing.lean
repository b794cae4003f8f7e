import BookmarksApi.Machinery.Runs
import BookmarksApi.Services.Auth
import Mathlib.Algebra.Order.BigOperators.Group.Finset
import Mathlib.Tactic.Linarith

/-!
# Concurrent/Guessing — how many passwords can be tried before the lockout

A login asks the guard, verifies the password, and tells the guard how it went.  Each guard call is
atomic; between them other logins move, and the verification is slow.  (A password that the hasher
does not take raises there: it is neither verified nor recorded.)  A request that passed the
check before any failure was counted is verified whatever the count has become since
(`guesses_exceed`).  The bound holds where a request passes only while the failures counted and the
wrong passwords under way leave room for one more (`bounded_guessing`).
-/

/-- A login request. -/
structure Credentials where
  email : Str
  password : Str

/-- The guard and its clock, with the wrong passwords verified and the failures recorded so far for
each account. -/
structure Attempts where
  guard : InMemoryLoginGuard.State
  now : ℚ
  guesses : Str → ℕ
  recorded : Str → ℕ

/-- How far a login has come. -/
inductive LoggingIn
  | start
  /-- `assert_not_locked` returned. -/
  | checked
  /-- The password is verified: the account it opens, if it opens one. -/
  | verified (user : Option UserRow)
  | done (result : Except Exc UserRow)
  deriving DecidableEq

namespace LoggingIn

variable (P : Platform) (config : AuthService.Config) (db : Db)

/-- **The next step of a login** at a reading of the clock, with the phase it leads to. -/
def next (r : Credentials) (t : ℚ) (s : Attempts) : LoggingIn → Option (Attempts × LoggingIn)
  | start => some ({ s with now := t },
      match config.guard.assertNotLocked P t s.guard r.email with
      | .error e => done (.error (.app e))
      | .ok _ => checked)
  | checked => some <|
    match AuthService.authenticate P config db r.email r.password with
    | .error x => ({ s with now := t }, done (.error x))
    | .ok none => ({ s with
        now := t
        guesses := Function.update s.guesses (P.norm r.email) (s.guesses (P.norm r.email) + 1) },
        verified none)
    | .ok (some user) => ({ s with now := t }, verified (some user))
  | verified none => some ({ s with
      now := t
      guard := config.guard.recordFailure P t s.guard r.email
      recorded := Function.update s.recorded (P.norm r.email) (s.recorded (P.norm r.email) + 1) },
      done (.error (.app AuthService.invalidCredentials)))
  | verified (some user) => some ({ s with
      now := t, guard := InMemoryLoginGuard.recordSuccess P s.guard r.email }, done (.ok user))
  | done _ => none

/-- **A login alone is `AuthService.login`**: the same result, and the same guard after it. -/
theorem login_eq_next (s : Attempts) (call : AuthService.LoginCall) (t : ℚ) :
    ∃ s' result, (AuthService.login P config db s.guard call).2 = s'.guard ∧
      (AuthService.login P config db s.guard call).1.map Prod.fst = result ∧
      (start.next P config db ⟨call.email, call.password⟩ call.checkedAt s
          = some (s', done result) ∨
        ∃ s₁, start.next P config db ⟨call.email, call.password⟩ call.checkedAt s
            = some (s₁, checked) ∧
          (checked.next P config db ⟨call.email, call.password⟩ t s₁ = some (s', done result) ∨
            ∃ s₂ user, checked.next P config db ⟨call.email, call.password⟩ t s₁
                = some (s₂, verified user) ∧
              (verified user).next P config db ⟨call.email, call.password⟩ call.recordedAt s₂
                = some (s', done result))) := by
  rw [AuthService.login_eq]
  rcases hcheck : config.guard.assertNotLocked P call.checkedAt s.guard call.email with e | _
  · exact ⟨{ s with now := call.checkedAt }, _, rfl, rfl, Or.inl (by rw [next, hcheck]; rfl)⟩
  have hstart : start.next P config db ⟨call.email, call.password⟩ call.checkedAt s
      = some ({ s with now := call.checkedAt }, checked) := by
    rw [next, hcheck]
  rcases hauth : AuthService.authenticate P config db call.email call.password with x | _ | user
  · have hraise : checked.next P config db ⟨call.email, call.password⟩ t
        { s with now := call.checkedAt } = some ({ s with now := t }, done (.error x)) := by
      rw [next, hauth]
    exact ⟨{ s with now := t }, .error x, rfl, rfl, Or.inr ⟨_, hstart, Or.inl hraise⟩⟩
  · let s₂ : Attempts := { s with
      now := t
      guesses := Function.update s.guesses (P.norm call.email) (s.guesses (P.norm call.email) + 1) }
    have hverify : checked.next P config db ⟨call.email, call.password⟩ t
        { s with now := call.checkedAt } = some (s₂, verified none) := by
      rw [next, hauth]
    exact ⟨_, _, rfl, rfl, Or.inr ⟨_, hstart, Or.inr ⟨s₂, none, hverify, rfl⟩⟩⟩
  · have hverify : checked.next P config db ⟨call.email, call.password⟩ t
        { s with now := call.checkedAt } = some ({ s with now := t }, verified (some user)) := by
      rw [next, hauth]
    exact ⟨_, _, rfl, rfl, Or.inr ⟨_, hstart, Or.inr ⟨_, some user, hverify, rfl⟩⟩⟩

/-- Wrong passwords under way: to be verified, or verified and not recorded. -/
def wrong (user : Except Exc (Option UserRow)) : LoggingIn → Bool
  | checked => user.toOption.any Option.isNone
  | verified result => result.isNone
  | _ => false

/-- Right ones. -/
def right (user : Except Exc (Option UserRow)) : LoggingIn → Bool
  | checked => user.toOption.any Option.isSome
  | verified result => result.isSome
  | _ => false

end LoggingIn

section

variable {ι : Type*}

/-- Logins interleaved, one step at a time, while the clock goes forward, from float to float. -/
def logins (P : Platform) (config : AuthService.Config) (db : Db) (req : ι → Credentials) :
    Interleaving ι Attempts LoggingIn where
  move i c s' p' := ∃ t, c.shared.now ≤ t ∧ config.guard.floats.round t = t ∧
    (c.thread i).next P config db (req i) t c.shared = some (s', p')

/-- Where a run starts: any guard, at any time. -/
def LoggingIn.initial (guard : InMemoryLoginGuard.State) (now : ℚ) : Conf ι Attempts LoggingIn :=
  ⟨⟨guard, now, fun _ => 0, fun _ => 0⟩, fun _ => .start⟩

variable (P : Platform) (config : AuthService.Config) (db : Db) (req : ι → Credentials)

/-- **A failure is recorded that opens a window**: there was none, or the last one elapsed. -/
def Opens (k : Str) (i : ι) (c c' : Conf ι Attempts LoggingIn) : Prop :=
  P.norm (req i).email = k ∧ c.thread i = .verified none ∧
    ∀ e, c.shared.guard k = some e → e.windowResetsAt < c'.shared.now

/-- The window that resets at `w` is open and has not locked the account yet; after the move it is
still there. -/
def InWindow (k : Str) (w : ℚ) (c : Conf ι Attempts LoggingIn) (s' : Attempts) : Prop :=
  (∀ e, c.shared.guard k = some e → e.count < config.guard.threshold) ∧
    ∃ e, s'.guard k = some e ∧ e.windowResetsAt = w ∧ s'.now ≤ w

/-- **Guessing is bounded** for an account: from the failure that opens a window, through the
window and the lockout it leads to, no more than `maxFailures` wrong passwords are verified, the
ones included that were not recorded when the window opened. -/
def BoundedGuessing [DecidableEq ι] (M : Interleaving ι Attempts LoggingIn) (k : Str)
    (c₀ : Conf ι Attempts LoggingIn) : Prop :=
  ∀ i c₁ c₂ c₃ opened, M.Run c₀ c₁ → M.StepBy i c₁ c₂ → Opens P req k i c₁ c₂ →
    c₂.shared.guard k = some opened →
    (M.restrict fun _ c s' => InWindow config k opened.windowResetsAt c s').Run c₂ c₃ →
    (c₃.shared.guesses k : ℤ) ≤ c₁.shared.recorded k + config.guard.maxFailures ∧
      ∀ locked c₄, c₃.shared.guard k = some locked → config.guard.threshold ≤ locked.count →
        (M.restrict fun _ _ s' => s'.now < locked.lockedUntil).Run c₃ c₄ →
        (c₄.shared.guesses k : ℤ) ≤ c₁.shared.recorded k + config.guard.maxFailures

/-- The failures that a live window has counted, while it has not locked the account. -/
def live (e : Option InMemoryLoginGuard.Entry) (now : ℚ) : ℕ :=
  match e with
  | none => 0
  | some e => if e.count < config.guard.threshold ∧ now ≤ e.windowResetsAt then e.count else 0

/-- The account that a request's password opens, if the hasher takes it. -/
def Credentials.user (r : Credentials) : Except Exc (Option UserRow) :=
  AuthService.authenticate P config db r.email r.password

/-- One wrong password for an account under way, or none. -/
def LoggingIn.weight (k : Str) (r : Credentials) (p : LoggingIn) : ℕ :=
  if P.norm r.email = k ∧ p.wrong (r.user P config db) = true then 1 else 0

/-- The wrong passwords for an account under way. -/
def underWay [Fintype ι] (k : Str) (c : Conf ι Attempts LoggingIn) : ℕ :=
  ∑ j, (c.thread j).weight P config db k (req j)

/-- **No move that reaches the race**: a request with a wrong password passes the check only while
the failures counted and the wrong passwords under way are fewer than the threshold; and no failure
locks the account while a right password is under way. -/
def Metered [Fintype ι] (k : Str) (i : ι) (c : Conf ι Attempts LoggingIn) (s' : Attempts) : Prop :=
  P.norm (req i).email = k →
    (c.thread i = .start → (req i).user P config db = .ok none →
      config.guard.assertNotLocked P s'.now c.shared.guard (req i).email = .ok () →
      live config (c.shared.guard k) s'.now + underWay P config db req k c
        < config.guard.threshold) ∧
    (c.thread i = .verified none →
      config.guard.threshold ≤ (((c.shared.guard k).getD {}).fail config.guard s'.now).count →
      ∀ j, P.norm (req j).email = k → (c.thread j).right ((req j).user P config db) = false)

instance [Fintype ι] (k : Str) (i : ι) (c : Conf ι Attempts LoggingIn) (s' : Attempts) :
    Decidable (Metered P config db req k i c s') :=
  inferInstanceAs (Decidable (_ → (_ → _ → _ → _ < _) ∧ (_ → _ → ∀ _, _)))

end

/-! ## What one step does -/

namespace LoggingIn

variable {P : Platform} {config : AuthService.Config} {db : Db} {r : Credentials} {t : ℚ}
  {s s' : Attempts} {p p' : LoggingIn}

/-- **All a step can do.** -/
inductive Move (P : Platform) (config : AuthService.Config) (db : Db) (r : Credentials) (t : ℚ)
    (s : Attempts) : LoggingIn → Attempts → LoggingIn → Prop
  | refused {e : AppError} (hcheck : config.guard.assertNotLocked P t s.guard r.email = .error e) :
      Move P config db r t s start { s with now := t } (done (.error (.app e)))
  | passed (hcheck : config.guard.assertNotLocked P t s.guard r.email = .ok ()) :
      Move P config db r t s start { s with now := t } checked
  | raised {x : Exc} (huser : r.user P config db = .error x) :
      Move P config db r t s checked { s with now := t } (done (.error x))
  | guessed (huser : r.user P config db = .ok none) :
      Move P config db r t s checked { s with
        now := t
        guesses := Function.update s.guesses (P.norm r.email) (s.guesses (P.norm r.email) + 1) }
        (verified none)
  | opened {user : UserRow} (huser : r.user P config db = .ok (some user)) :
      Move P config db r t s checked { s with now := t } (verified (some user))
  | failed : Move P config db r t s (verified none) { s with
      now := t
      guard := config.guard.recordFailure P t s.guard r.email
      recorded := Function.update s.recorded (P.norm r.email) (s.recorded (P.norm r.email) + 1) }
      (done (.error (.app AuthService.invalidCredentials)))
  | succeeded {user : UserRow} : Move P config db r t s (verified (some user)) { s with
      now := t, guard := InMemoryLoginGuard.recordSuccess P s.guard r.email } (done (.ok user))

/-- **A step does one of these things.** -/
theorem move_of_next (hnext : p.next P config db r t s = some (s', p')) :
    Move P config db r t s p s' p' := by
  cases p with
  | start =>
    rw [next] at hnext
    rcases hcheck : config.guard.assertNotLocked P t s.guard r.email with e | _
    · rw [hcheck] at hnext
      cases hnext
      exact .refused hcheck
    · rw [hcheck] at hnext
      cases hnext
      exact .passed hcheck
  | checked =>
    have huser : r.user P config db = AuthService.authenticate P config db r.email r.password := rfl
    rw [next, ← huser] at hnext
    rcases huser : r.user P config db with x | _ | user
    · rw [huser] at hnext
      cases hnext
      exact .raised huser
    · rw [huser] at hnext
      cases hnext
      exact .guessed huser
    · rw [huser] at hnext
      cases hnext
      exact .opened huser
  | verified user =>
    rcases user with _ | user
    · cases hnext
      exact .failed
    · cases hnext
      exact .succeeded
  | done result => cases hnext

/-- Every step reads the clock. -/
theorem Move.now_eq (h : Move P config db r t s p s' p') : s'.now = t := by
  cases h <;> rfl

/-- **A step for one account leaves the others' counts alone.** -/
theorem Move.of_ne (h : Move P config db r t s p s' p') {k : Str} (hk : P.norm r.email ≠ k) :
    s'.guard k = s.guard k ∧ s'.guesses k = s.guesses k ∧ s'.recorded k = s.recorded k := by
  have hupdate : ∀ {α : Type} (f : Str → α) (v : α), Function.update f (P.norm r.email) v k = f k :=
    fun f v => Function.update_of_ne hk.symm v f
  cases h with
  | refused _ => exact ⟨rfl, rfl, rfl⟩
  | passed _ => exact ⟨rfl, rfl, rfl⟩
  | raised _ => exact ⟨rfl, rfl, rfl⟩
  | guessed _ => exact ⟨rfl, hupdate _ _, rfl⟩
  | opened _ => exact ⟨rfl, rfl, rfl⟩
  | failed => exact ⟨hupdate _ _, rfl, hupdate _ _⟩
  | succeeded => exact ⟨hupdate _ _, rfl, rfl⟩

/-- A wrong password recorded. -/
theorem Move.of_failed (h : Move P config db r t s (verified none) s' p') {k : Str}
    (hk : P.norm r.email = k) :
    s'.guard k = some (((s.guard k).getD {}).fail config.guard t) ∧
      s'.recorded k = s.recorded k + 1 ∧ weight P config db k r (verified none) = 1 ∧
      weight P config db k r p' = 0 := by
  subst hk
  cases h with
  | failed =>
    exact ⟨Function.update_self _ _ _, Function.update_self _ _ _, by simp [weight, wrong],
      by simp [weight, wrong]⟩

/-- A request to a locked account is refused. -/
theorem Move.of_locked (h : Move P config db r t s start s' p') {e : InMemoryLoginGuard.Entry}
    (hentry : s.guard (P.norm r.email) = some e) (hlocked : t < e.lockedUntil) :
    (∃ result, p' = done result) ∧ s'.guard = s.guard ∧ s'.guesses = s.guesses := by
  cases h with
  | refused _ => exact ⟨⟨_, rfl⟩, rfl, rfl⟩
  | passed hcheck =>
    exact absurd ((InMemoryLoginGuard.assertNotLocked_eq_ok config.guard).mp hcheck e hentry)
      (not_le.mpr hlocked)

/-- A password that the hasher does not take is not verified. -/
theorem Move.of_raised (h : Move P config db r t s checked s' p') {x : Exc}
    (huser : r.user P config db = .error x) :
    (∃ result, p' = done result) ∧ s'.guard = s.guard ∧ s'.guesses = s.guesses := by
  cases h with
  | raised _ => exact ⟨⟨_, rfl⟩, rfl, rfl⟩
  | guessed huser' => cases huser.symm.trans huser'
  | opened huser' => cases huser.symm.trans huser'

theorem not_move_done {result : Except Exc UserRow} :
    ¬ Move P config db r t s (done result) s' p' := nofun

/-- **All a step can do to one account**: nothing that counts, one more wrong password under way,
one recorded, or a success that clears the count. -/
inductive Effect (P : Platform) (config : AuthService.Config) (db : Db) (k : Str) (r : Credentials)
    (t : ℚ) (s : Attempts) (p : LoggingIn) (s' : Attempts) (p' : LoggingIn) : Prop
  | neutral (hguard : s'.guard k = s.guard k) (hrecorded : s'.recorded k = s.recorded k)
      (hweight : p'.weight P config db k r = p.weight P config db k r)
  | admitted (hk : P.norm r.email = k) (hp : p = start) (huser : r.user P config db = .ok none)
      (hcheck : config.guard.assertNotLocked P t s.guard r.email = .ok ())
      (hguard : s'.guard k = s.guard k) (hrecorded : s'.recorded k = s.recorded k)
      (hbefore : p.weight P config db k r = 0) (hafter : p'.weight P config db k r = 1)
  | failed (hk : P.norm r.email = k) (hp : p = verified none)
      (hguard : s'.guard k = some (((s.guard k).getD {}).fail config.guard t))
      (hrecorded : s'.recorded k = s.recorded k + 1)
      (hbefore : p.weight P config db k r = 1) (hafter : p'.weight P config db k r = 0)
  | succeeded (hk : P.norm r.email = k) (hguard : s'.guard k = none)
      (hrecorded : s'.recorded k = s.recorded k)
      (hbefore : p.weight P config db k r = 0) (hafter : p'.weight P config db k r = 0)

theorem Move.effect (h : Move P config db r t s p s' p') (k : Str) :
    Effect P config db k r t s p s' p' := by
  by_cases hk : P.norm r.email = k
  · subst hk
    cases h with
    | refused _ => exact .neutral rfl rfl (by simp [weight, wrong])
    | passed hcheck =>
      rcases huser : r.user P config db with x | _ | user
      · exact .neutral rfl rfl (by simp [weight, wrong, huser, Except.toOption])
      · exact .admitted rfl rfl huser hcheck rfl rfl (by simp [weight, wrong])
          (by simp [weight, wrong, huser, Except.toOption])
      · exact .neutral rfl rfl (by simp [weight, wrong, huser, Except.toOption])
    | raised huser => exact .neutral rfl rfl (by simp [weight, wrong, huser, Except.toOption])
    | guessed huser => exact .neutral rfl rfl (by simp [weight, wrong, huser, Except.toOption])
    | opened huser => exact .neutral rfl rfl (by simp [weight, wrong, huser, Except.toOption])
    | failed =>
      obtain ⟨hguard, hrecorded, hbefore, hafter⟩ :=
        Move.of_failed (.failed : Move P config db r t s (verified none) _ _) rfl
      exact .failed rfl rfl hguard hrecorded hbefore hafter
    | succeeded =>
      exact .succeeded rfl (Function.update_self _ _ _) rfl (by simp [weight, wrong])
        (by simp [weight, wrong])
  · obtain ⟨hguard, -, hrecorded⟩ := h.of_ne hk
    exact .neutral hguard hrecorded (by simp [weight, hk])

end LoggingIn

/-! ## What a run keeps -/

section

variable {ι : Type*} [Fintype ι] [DecidableEq ι] {P : Platform} {config : AuthService.Config}
  {db : Db} {req : ι → Credentials} {k : Str} {i : ι} {c c' : Conf ι Attempts LoggingIn}

/-- One wrong password for an account, verified and not recorded. -/
def LoggingIn.unrecorded (P : Platform) (k : Str) (r : Credentials) : LoggingIn → ℕ
  | verified none => if P.norm r.email = k then 1 else 0
  | _ => 0

/-- All of them. -/
def awaiting (P : Platform) (req : ι → Credentials) (k : Str) (c : Conf ι Attempts LoggingIn) : ℕ :=
  ∑ j, (c.thread j).unrecorded P k (req j)

omit [DecidableEq ι] in
theorem awaiting_le_underWay (c : Conf ι Attempts LoggingIn) :
    awaiting P req k c ≤ underWay P config db req k c := by
  refine Finset.sum_le_sum fun j _ => ?_
  rcases c.thread j with _ | _ | (_ | user) | result
  all_goals simp [LoggingIn.unrecorded, LoggingIn.weight, LoggingIn.wrong]

theorem awaiting_step (hs : (logins P config db req).StepBy i c c') :
    awaiting P req k c' + (c.thread i).unrecorded P k (req i)
      = awaiting P req k c + (c'.thread i).unrecorded P k (req i) :=
  hs.sum_thread fun j p => p.unrecorded P k (req j)

theorem underWay_step (hs : (logins P config db req).StepBy i c c') :
    underWay P config db req k c' + (c.thread i).weight P config db k (req i)
      = underWay P config db req k c + (c'.thread i).weight P config db k (req i) :=
  hs.sum_thread fun j p => p.weight P config db k (req j)

/-- **Every wrong password verified is recorded, or about to be.** -/
def Accounted (P : Platform) (req : ι → Credentials) (k : Str) (c : Conf ι Attempts LoggingIn) :
    Prop :=
  c.shared.guesses k = c.shared.recorded k + awaiting P req k c

theorem Accounted.step (h : Accounted P req k c) (hs : (logins P config db req).StepBy i c c') :
    Accounted P req k c' := by
  obtain ⟨t, -, hfloat, hnext⟩ := hs.move_self
  have hmove := LoggingIn.move_of_next hnext
  have hsum := awaiting_step (k := k) hs
  rw [Accounted] at h ⊢
  by_cases hk : P.norm (req i).email = k
  · subst hk
    generalize c.thread i = p at hmove hsum
    generalize c'.thread i = p' at hmove hsum
    generalize c'.shared = s' at hmove ⊢
    cases hmove <;> simp [LoggingIn.unrecorded] at hsum ⊢ <;> omega
  · obtain ⟨-, hguesses, hrecorded⟩ := hmove.of_ne hk
    have hzero : ∀ p : LoggingIn, p.unrecorded P k (req i) = 0 := by
      rintro (_ | _ | (_ | user) | result) <;> simp [LoggingIn.unrecorded, hk]
    rw [hguesses, hrecorded, h]
    rw [hzero, hzero] at hsum
    omega

/-- **Up to the window**: no more wrong passwords are under way than the threshold. -/
theorem underWay_le (h : underWay P config db req k c ≤ config.guard.threshold)
    (hs : (logins P config db req).StepBy i c c')
    (hmetered : Metered P config db req k i c c'.shared) :
    underWay P config db req k c' ≤ config.guard.threshold := by
  obtain ⟨t, -, hfloat, hnext⟩ := hs.move_self
  have hmove := LoggingIn.move_of_next hnext
  have hsum := underWay_step (k := k) hs
  cases hmove.effect k with
  | neutral _ _ hweight => omega
  | admitted hk hp huser hcheck _ _ hbefore hafter =>
    have hroom := (hmetered hk).1 hp huser (hmove.now_eq ▸ hcheck)
    omega
  | failed _ _ _ _ hbefore hafter => omega
  | succeeded _ _ _ hbefore hafter => omega

/-- **In the window**: the failures it has counted and the wrong passwords under way come to the
threshold at most, and once it has locked the account no right password is under way. -/
structure Counting (P : Platform) (config : AuthService.Config) (db : Db) (req : ι → Credentials)
    (k : Str) (w : ℚ) (r : ℕ) (c : Conf ι Attempts LoggingIn)
    (e : InMemoryLoginGuard.Entry) : Prop where
  entry : c.shared.guard k = some e
  window : e.windowResetsAt = w
  room : e.count + underWay P config db req k c ≤ config.guard.threshold
  recorded : c.shared.recorded k = r + e.count
  right : config.guard.threshold ≤ e.count → ∀ j, P.norm (req j).email = k →
    (c.thread j).right ((req j).user P config db) = false

/-- After a failure that locks, nobody's right password is under way. -/
theorem right_of_failed (hs : (logins P config db req).StepBy i c c')
    (hmetered : Metered P config db req k i c c'.shared) (hk : P.norm (req i).email = k)
    (hp : c.thread i = .verified none)
    (hlocked : config.guard.threshold
      ≤ (((c.shared.guard k).getD {}).fail config.guard c'.shared.now).count) (j : ι)
    (hj : P.norm (req j).email = k) :
    (c'.thread j).right ((req j).user P config db) = false := by
  by_cases hij : j = i
  · subst hij
    obtain ⟨t, -, hfloat, hnext⟩ := hs.move_self
    rw [hp] at hnext
    obtain ⟨-, hp'⟩ := Prod.mk.inj (Option.some.inj hnext)
    rw [← hp']
    rfl
  · rw [hs.thread_ne hij]
    exact (hmetered hk).2 hp hlocked j hj

/-- **A window opens.** -/
theorem Counting.opens (h : underWay P config db req k c ≤ config.guard.threshold)
    (hs : (logins P config db req).StepBy i c c')
    (hmetered : Metered P config db req k i c c'.shared) (hopens : Opens P req k i c c') :
    ∃ e, Counting P config db req k e.windowResetsAt (c.shared.recorded k) c' e := by
  obtain ⟨hk, hp, helapsed⟩ := hopens
  obtain ⟨t, -, hfloat, hnext⟩ := hs.move_self
  have hmove := LoggingIn.move_of_next hnext
  have hsum := underWay_step (k := k) hs
  rw [hmove.now_eq] at helapsed
  rw [hp] at hmove hsum
  obtain ⟨hguard, hrecorded, hbefore, hafter⟩ := hmove.of_failed hk
  have hcount : (((c.shared.guard k).getD {}).fail config.guard t).count = 1 := by
    rcases hentry : c.shared.guard k with _ | e
    · exact InMemoryLoginGuard.Entry.count_fail_new config.guard t
    · exact (InMemoryLoginGuard.Entry.fail_elapsed config.guard (helapsed e hentry)).1
  exact ⟨_, hguard, rfl, by omega, by rw [hrecorded, hcount],
    fun hlocked => right_of_failed hs hmetered hk (hp ▸ rfl) (hmove.now_eq ▸ hlocked)⟩

/-- **In the window a step keeps the count.** -/
theorem Counting.step {w : ℚ} {r : ℕ} {e : InMemoryLoginGuard.Entry}
    (hL : 0 < config.guard.lockoutSeconds) (h : Counting P config db req k w r c e)
    (hs : (logins P config db req).StepBy i c c')
    (hmetered : Metered P config db req k i c c'.shared)
    (hwindow : InWindow config k w c c'.shared) :
    ∃ e', Counting P config db req k w r c' e' := by
  obtain ⟨t, -, hfloat, hnext⟩ := hs.move_self
  have hmove := LoggingIn.move_of_next hnext
  have hsum := underWay_step (k := k) hs
  obtain ⟨hunlocked, e', he', hw, hnow⟩ := hwindow
  have hlt : e.count < config.guard.threshold := hunlocked e h.entry
  have hroom := h.room
  cases hmove.effect k with
  | neutral hguard hrecorded hweight =>
    exact ⟨e, hguard.trans h.entry, h.window, by omega, hrecorded.trans h.recorded,
      fun hlocked => absurd hlocked (not_le.mpr hlt)⟩
  | admitted hk hp huser hcheck hguard hrecorded hbefore hafter =>
    have hpass := (hmetered hk).1 hp huser (hmove.now_eq ▸ hcheck)
    have hlive : live config (c.shared.guard k) c'.shared.now = e.count := by
      simp only [live, h.entry, hlt, h.window, hnow, and_self, if_true]
    exact ⟨e, hguard.trans h.entry, h.window, by omega, hrecorded.trans h.recorded,
      fun hlocked => absurd hlocked (not_le.mpr hlt)⟩
  | failed hk hp hguard hrecorded hbefore hafter =>
    rw [h.entry, Option.getD_some] at hguard
    rw [hguard, Option.some.injEq] at he'
    subst he'
    have hlive : t ≤ e.windowResetsAt := by
      -- A window opened now would reset later than this one.
      by_contra helapsed
      have hreset := (InMemoryLoginGuard.Entry.fail_elapsed config.guard (not_le.mp helapsed)).2
      rw [hw, ← h.window] at hreset
      have hlater := InMemoryLoginGuard.le_deadline hL hfloat
      linarith
    obtain ⟨hcount, hresets⟩ := InMemoryLoginGuard.Entry.fail_live config.guard hlive
    exact ⟨_, hguard, hw, by omega, by rw [hrecorded, h.recorded, hcount]; rfl,
      fun hlocked => right_of_failed hs hmetered hk hp (by rwa [h.entry, hmove.now_eq])⟩
  | succeeded _ hguard _ _ _ =>
    rw [hguard] at he'
    cases he'

/-- Nobody's login to the account is past the check and not recorded, but for passwords that the
hasher does not take. -/
def Idle (P : Platform) (config : AuthService.Config) (db : Db) (req : ι → Credentials) (k : Str)
    (c : Conf ι Attempts LoggingIn) : Prop :=
  ∀ j, P.norm (req j).email = k → c.thread j = .start ∨ (∃ result, c.thread j = .done result) ∨
    c.thread j = .checked ∧ ∃ x, (req j).user P config db = .error x

omit [DecidableEq ι] in
/-- **When the window locks the account, no login to it is under way.** -/
theorem Counting.idle {w : ℚ} {r : ℕ} {e : InMemoryLoginGuard.Entry}
    (h : Counting P config db req k w r c e) (hlocked : config.guard.threshold ≤ e.count) :
    Idle P config db req k c := by
  intro j hj
  have hzero : underWay P config db req k c = 0 := by
    have hroom := h.room
    omega
  have hweight : (c.thread j).weight P config db k (req j) = 0 :=
    Finset.sum_eq_zero_iff.mp hzero j (Finset.mem_univ j)
  have hright := h.right hlocked j hj
  simp only [LoggingIn.weight, hj, true_and] at hweight
  rcases hp : c.thread j with _ | _ | (_ | user) | result
  · exact Or.inl rfl
  · rw [hp] at hweight hright
    rcases huser : (req j).user P config db with x | _ | user
    · exact Or.inr (Or.inr ⟨rfl, x, rfl⟩)
    · simp [LoggingIn.wrong, huser, Except.toOption] at hweight
    · simp [LoggingIn.right, huser, Except.toOption] at hright
  · rw [hp] at hweight
    simp [LoggingIn.wrong] at hweight
  · rw [hp] at hright
    simp [LoggingIn.right] at hright
  · exact Or.inr (Or.inl ⟨result, rfl⟩)

omit [Fintype ι] in
/-- **Until the lockout has expired, nothing happens to the account.** -/
theorem Idle.step {e : InMemoryLoginGuard.Entry} (h : Idle P config db req k c)
    (hentry : c.shared.guard k = some e) (hs : (logins P config db req).StepBy i c c')
    (hnow : c'.shared.now < e.lockedUntil) :
    Idle P config db req k c' ∧ c'.shared.guard k = some e ∧
      c'.shared.guesses k = c.shared.guesses k := by
  obtain ⟨t, -, hfloat, hnext⟩ := hs.move_self
  have hmove := LoggingIn.move_of_next hnext
  by_cases hk : P.norm (req i).email = k
  · have hdone : (∃ result, c'.thread i = .done result) ∧
        c'.shared.guard k = c.shared.guard k ∧ c'.shared.guesses k = c.shared.guesses k := by
      rcases h i hk with hstart | ⟨result, hdone⟩ | ⟨hchecked, x, huser⟩
      · rw [hstart] at hmove
        obtain ⟨hdone, hguard, hguesses⟩ :=
          hmove.of_locked (hk ▸ hentry) (hmove.now_eq ▸ hnow)
        exact ⟨hdone, congrFun hguard k, congrFun hguesses k⟩
      · rw [hdone] at hmove
        exact absurd hmove LoggingIn.not_move_done
      · rw [hchecked] at hmove
        obtain ⟨hdone, hguard, hguesses⟩ := hmove.of_raised huser
        exact ⟨hdone, congrFun hguard k, congrFun hguesses k⟩
    obtain ⟨hdone, hguard, hguesses⟩ := hdone
    refine ⟨fun j hj => ?_, hguard.trans hentry, hguesses⟩
    by_cases hij : j = i
    · exact Or.inr (Or.inl (hij ▸ hdone))
    · exact hs.thread_ne hij ▸ h j hj
  · obtain ⟨hguard, hguesses, -⟩ := hmove.of_ne hk
    refine ⟨fun j hj => ?_, hguard.trans hentry, hguesses⟩
    have hij : j ≠ i := fun hij => hk (hij ▸ hj)
    exact hs.thread_ne hij ▸ h j hj

/-! ## The bound -/

omit [DecidableEq ι] in
/-- Before the first window nothing is under way. -/
theorem underWay_initial (guard : InMemoryLoginGuard.State) (now : ℚ) :
    underWay P config db req k (LoggingIn.initial guard now) = 0 :=
  Finset.sum_eq_zero fun j _ => by simp [LoggingIn.weight, LoggingIn.wrong, LoggingIn.initial]

omit [DecidableEq ι] in
theorem Accounted.initial (guard : InMemoryLoginGuard.State) (now : ℚ) :
    Accounted P req k (LoggingIn.initial guard now) := by
  have hzero : awaiting P req k (LoggingIn.initial guard now) = 0 :=
    Finset.sum_eq_zero fun j _ => rfl
  rw [Accounted, hzero]
  rfl

omit [DecidableEq ι] in
/-- **In the window**: no more than the threshold has been verified since it opened. -/
theorem Counting.guesses_le {w : ℚ} {r : ℕ} {e : InMemoryLoginGuard.Entry}
    (h : Counting P config db req k w r c e) (haccounted : Accounted P req k c) :
    c.shared.guesses k ≤ r + config.guard.threshold := by
  have hawaiting : awaiting P req k c ≤ underWay P config db req k c := awaiting_le_underWay c
  have hroom := h.room
  have hrecorded := h.recorded
  rw [Accounted] at haccounted
  omega

/-- Up to the window, the wrong passwords under way leave room for those that follow. -/
theorem underWay_run {guard : InMemoryLoginGuard.State} {now : ℚ}
    (hrun : ((logins P config db req).restrict (Metered P config db req k)).Run
      (LoggingIn.initial guard now) c) :
    Accounted P req k c ∧ underWay P config db req k c ≤ config.guard.threshold := by
  refine hrun.invariant (I := fun c => Accounted P req k c ∧
    underWay P config db req k c ≤ config.guard.threshold) (fun j d d' hd hs => ?_)
    ⟨.initial guard now, ?_⟩
  · obtain ⟨hs, hmetered⟩ := Interleaving.restrict_stepBy.mp hs
    exact ⟨hd.1.step hs, underWay_le hd.2 hs hmetered⟩
  · rw [underWay_initial]
    exact Nat.zero_le _

/-- In the window, every failure is counted. -/
theorem Counting.run {w : ℚ} {r : ℕ} (hL : 0 < config.guard.lockoutSeconds)
    {e : InMemoryLoginGuard.Entry} (h : Counting P config db req k w r c e)
    (haccounted : Accounted P req k c)
    (hrun : (((logins P config db req).restrict (Metered P config db req k)).restrict
      fun _ c s' => InWindow config k w c s').Run c c') :
    (∃ e', Counting P config db req k w r c' e') ∧ Accounted P req k c' := by
  refine hrun.invariant (I := fun c =>
    (∃ e', Counting P config db req k w r c e') ∧ Accounted P req k c) (fun j d d' hd hs => ?_)
    ⟨⟨e, h⟩, haccounted⟩
  obtain ⟨hs, hin⟩ := Interleaving.restrict_stepBy.mp hs
  obtain ⟨hs, hmetered⟩ := Interleaving.restrict_stepBy.mp hs
  obtain ⟨⟨e', hcounting⟩, haccounted⟩ := hd
  exact ⟨hcounting.step hL hs hmetered hin, haccounted.step hs⟩

omit [Fintype ι] in
/-- In the lockout, no password is verified. -/
theorem Idle.run {C : ι → Conf ι Attempts LoggingIn → Attempts → Prop}
    {e : InMemoryLoginGuard.Entry} (h : Idle P config db req k c)
    (hentry : c.shared.guard k = some e)
    (hrun : (((logins P config db req).restrict C).restrict
      fun _ _ s' => s'.now < e.lockedUntil).Run c c') :
    c'.shared.guesses k = c.shared.guesses k := by
  have hall := hrun.invariant (I := fun d => Idle P config db req k d ∧ d.shared.guard k = some e ∧
    d.shared.guesses k = c.shared.guesses k) (fun j d d' hd hs => ?_) ⟨h, hentry, rfl⟩
  · exact hall.2.2
  · obtain ⟨hs, hnow⟩ := Interleaving.restrict_stepBy.mp hs
    obtain ⟨hs, -⟩ := Interleaving.restrict_stepBy.mp hs
    obtain ⟨hidle, hguard, hguesses⟩ := hd
    obtain ⟨hidle', hguard', hguesses'⟩ := hidle.step hguard hs hnow
    exact ⟨hidle', hguard', hguesses'.trans hguesses⟩

/-- **Guessing is bounded, over every run that does not reach the race**, from any guard and at any
number of requests. -/
theorem bounded_guessing (hL : 0 < config.guard.lockoutSeconds)
    (hmax : 1 ≤ config.guard.maxFailures) (guard : InMemoryLoginGuard.State) (now : ℚ) (k : Str) :
    BoundedGuessing P config req
      ((logins P config db req).restrict (Metered P config db req k)) k
      (LoggingIn.initial guard now) := by
  intro i c₁ c₂ c₃ opened hrun hstep hopens hopened hwindow
  have hthreshold : (config.guard.threshold : ℤ) = config.guard.maxFailures := by
    rw [InMemoryLoginGuard.threshold, max_eq_right hmax]
    omega
  obtain ⟨haccounted₁, hroom₁⟩ := underWay_run hrun
  obtain ⟨hs, hmetered⟩ := Interleaving.restrict_stepBy.mp hstep
  obtain ⟨e, hcounting₂⟩ := Counting.opens hroom₁ hs hmetered hopens
  obtain rfl : e = opened := Option.some.inj (hcounting₂.entry.symm.trans hopened)
  obtain ⟨⟨e', hcounting₃⟩, haccounted₃⟩ := hcounting₂.run hL (haccounted₁.step hs) hwindow
  have hle := hcounting₃.guesses_le haccounted₃
  refine ⟨by omega, fun locked c₄ hentry hlocked hrun₄ => ?_⟩
  obtain rfl : e' = locked := Option.some.inj (hcounting₃.entry.symm.trans hentry)
  have hguesses := (hcounting₃.idle hlocked).run hentry hrun₄
  omega

omit [DecidableEq ι] in
/-- **A login that nobody else's is under way with does not reach the race.** -/
theorem metered_of_alone {s' : Attempts}
    (halone : ∀ j, j ≠ i → c.thread j = .start ∨ ∃ result, c.thread j = .done result) :
    Metered P config db req k i c s' := by
  refine fun hk => ⟨fun hstart _ hcheck => ?_, fun hp _ j _ => ?_⟩
  · have hzero : underWay P config db req k c = 0 := by
      refine Finset.sum_eq_zero fun j _ => ?_
      by_cases hj : j = i
      · rw [hj, hstart]
        simp [LoggingIn.weight, LoggingIn.wrong]
      · obtain hp | ⟨result, hp⟩ := halone j hj <;> rw [hp] <;>
          simp [LoggingIn.weight, LoggingIn.wrong]
    rw [hzero, add_zero]
    have hpos : 0 < config.guard.threshold := by
      rw [InMemoryLoginGuard.threshold]
      omega
    rcases c.shared.guard k with _ | e
    · exact hpos
    · rw [live]
      split_ifs with hlive
      · exact hlive.1
      · exact hpos
  · by_cases hj : j = i
    · rw [hj, hp]
      rfl
    · obtain hp | ⟨result, hp⟩ := halone j hj <;> rw [hp] <;> rfl

end

/-! ## A race -/

/-- Three wrong passwords for Alice's account. -/
def threeGuesses (_ : Fin 3) : Credentials := ⟨"alice@example.com".toList, ['?']⟩

/-- The next step of a guess at the reading of the clock that the guard has. -/
def nextGuess (config : AuthService.Config) (i : Fin 3) (c : Conf (Fin 3) Attempts LoggingIn) :
    Option (Attempts × LoggingIn) :=
  if config.guard.floats.round c.shared.now = c.shared.now then
    (c.thread i).next .sqlite config Db.twoAccounts (threeGuesses i) c.shared.now c.shared
  else none

theorem move_of_nextGuess {config : AuthService.Config} {i : Fin 3}
    {c : Conf (Fin 3) Attempts LoggingIn} {s' : Attempts} {p' : LoggingIn}
    (h : nextGuess config i c = some (s', p')) :
    (logins .sqlite config Db.twoAccounts threeGuesses).move i c s' p' := by
  rw [nextGuess] at h
  split_ifs at h with hfloat
  exact ⟨c.shared.now, le_refl _, hfloat, h⟩

/-- A guard that locks at the second failure. -/
def AuthService.Config.twoFailures : AuthService.Config :=
  { AuthService.Config.strict with guard := ⟨2, 60, .binary64⟩ }

/-- Two of the three requests come one after the other, and fill the window between them. -/
theorem bounded_guessing_threeGuesses :
    let alice : Str := "alice@example.com".toList
    let metered := (logins .sqlite .twoFailures Db.twoAccounts threeGuesses).restrict
      (Metered .sqlite .twoFailures Db.twoAccounts threeGuesses alice)
    ∃ c₁ c₂ c₃ opened, metered.Run (LoggingIn.initial (fun _ => none) 1) c₁ ∧
      metered.StepBy 0 c₁ c₂ ∧ Opens .sqlite threeGuesses alice 0 c₁ c₂ ∧
      c₂.shared.guard alice = some opened ∧
      (metered.restrict fun _ c s' => InWindow .twoFailures alice opened.windowResetsAt c s').Run
        c₂ c₃ ∧
      c₃.shared.recorded alice = 2 ∧
      (c₃.shared.guesses alice : ℤ) ≤ c₁.shared.recorded alice + 2 := by
  intro alice metered
  let next (i : Fin 3) (c : Conf (Fin 3) Attempts LoggingIn) : Option (Attempts × LoggingIn) :=
    (nextGuess .twoFailures i c).filter fun m =>
      decide (Metered .sqlite .twoFailures Db.twoAccounts threeGuesses alice i c m.1)
  have hnext : ∀ i c s' p', next i c = some (s', p') → metered.move i c s' p' := by
    intro i c s' p' h
    obtain ⟨h, hmetered⟩ := Option.filter_eq_some_iff.mp h
    exact ⟨move_of_nextGuess h, of_decide_eq_true hmetered⟩
  let always (_ : Fin 3) (_ : Conf (Fin 3) Attempts LoggingIn) (_ : Attempts) : Prop := True
  let counted (_ : Fin 3) (c : Conf (Fin 3) Attempts LoggingIn) (s' : Attempts) : Prop :=
    (∀ e ∈ c.shared.guard alice, e.count < 2) ∧
      (∃ e ∈ s'.guard alice, e.windowResetsAt = 61) ∧ s'.now ≤ 61
  have h : ((Interleaving.schedule next always [0, 0] (LoggingIn.initial (fun _ => none) 1)).bind
      fun c₁ => (Interleaving.perform next always 0 c₁).bind fun c₂ =>
        (Interleaving.schedule next counted [1, 1, 1] c₂).map fun c₃ =>
          decide (c₁.thread 0 = .verified none ∧ c₁.shared.guard alice = none ∧
            c₂.shared.guard alice = some ⟨1, 61, 0⟩ ∧ c₃.shared.recorded alice = 2))
      = some true := by decide +kernel
  obtain ⟨c₁, h₁, h⟩ := Option.bind_eq_some_iff.mp h
  obtain ⟨c₂, h₂, h⟩ := Option.bind_eq_some_iff.mp h
  obtain ⟨c₃, h₃, h⟩ := Option.map_eq_some_iff.mp h
  obtain ⟨hphase, hnone, hopened, hrecorded⟩ := of_decide_eq_true h
  have hrun := Interleaving.run_of_restrict (Interleaving.run_of_schedule hnext h₁)
  have hstep := (Interleaving.restrict_stepBy.mp (Interleaving.perform_stepBy hnext h₂)).1
  have hopens : Opens .sqlite threeGuesses alice 0 c₁ c₂ :=
    ⟨by decide +kernel, hphase, fun e he => by rw [hnone] at he; cases he⟩
  have hwindow : (metered.restrict fun _ c s' => InWindow .twoFailures alice 61 c s').Run c₂ c₃ :=
    (Interleaving.run_of_schedule hnext h₃).mono fun _ _ _ ⟨hfew, ⟨e, he, hresets⟩, hnow⟩ =>
      ⟨fun e he => hfew e he, e, he, hresets, hnow⟩
  have hbound := bounded_guessing (by decide) (by decide) (fun _ => none) 1 alice 0 c₁ c₂ c₃
    ⟨1, 61, 0⟩ hrun hstep hopens hopened hwindow
  exact ⟨c₁, c₂, c₃, ⟨1, 61, 0⟩, hrun, hstep, hopens, hopened, hwindow, hrecorded, hbound.1⟩

/-- **With one failure allowed, two more passwords are verified while the first has locked the
account.** -/
theorem guesses_exceed : ∃ (c₁ c₂ c₃ : Conf (Fin 3) Attempts LoggingIn)
    (locked : InMemoryLoginGuard.Entry),
    (logins .sqlite .strict Db.twoAccounts threeGuesses).Run
      (LoggingIn.initial (fun _ => none) 1) c₁ ∧
    (logins .sqlite .strict Db.twoAccounts threeGuesses).StepBy 0 c₁ c₂ ∧
    Opens .sqlite threeGuesses "alice@example.com".toList 0 c₁ c₂ ∧
    c₂.shared.guard "alice@example.com".toList = some locked ∧
    AuthService.Config.strict.guard.threshold ≤ locked.count ∧
    ((logins .sqlite .strict Db.twoAccounts threeGuesses).restrict
      fun _ _ s' => s'.now < locked.lockedUntil).Run c₂ c₃ ∧
    (c₂.shared.guesses "alice@example.com".toList : ℤ) + AuthService.Config.strict.guard.maxFailures
      < c₃.shared.guesses "alice@example.com".toList := by
  obtain ⟨c₁, c₂, c₃, hrun, hstep, hrun', hc⟩ := Interleaving.exists_run_around
    (nextGuess .strict) (fun _ _ s' => s'.now < 61) (fun _ _ _ _ => move_of_nextGuess)
    (LoggingIn.initial (fun _ => none) 1) [0, 1, 2, 0] 0 [1, 2]
    (fun c₁ c₂ c₃ => decide (c₁.thread 0 = .verified none ∧
      c₁.shared.guard "alice@example.com".toList = none ∧
      c₂.shared.guard "alice@example.com".toList = some ⟨1, 61, 61⟩ ∧
      (c₂.shared.guesses "alice@example.com".toList : ℤ) + 1
        < c₃.shared.guesses "alice@example.com".toList)) (by decide +kernel)
  obtain ⟨hphase, hnone, hlocked, hguesses⟩ := of_decide_eq_true hc
  refine ⟨c₁, c₂, c₃, ⟨1, 61, 61⟩, Interleaving.run_of_restrict hrun,
    (Interleaving.restrict_stepBy.mp hstep).1,
    ⟨by decide +kernel, hphase, fun e he => ?_⟩, hlocked, by decide, hrun', hguesses⟩
  rw [hnone] at he
  cases he
