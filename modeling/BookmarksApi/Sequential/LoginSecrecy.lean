import BookmarksApi.Machinery.Runs
import BookmarksApi.Routers.Auth

/-!
# Sequential/LoginSecrecy — a login does not tell whether an address has an account

An unknown address and a wrong password take different branches, and tell the guard the same: under
the same key, at the same reading of the clock.  A password that the hasher does not take raises in
both, before the guard is told anything.  So two stores that differ in one account, whose
password nobody tries, cannot be told apart by logging in, to any account, however often.
-/

variable {P : Platform} {config : AuthService.Config} {db₁ db₂ : Db}

/-- **The second store has one account more**, under an address that the first does not know. -/
structure OneMore (P : Platform) (user : UserRow) (db₁ db₂ : Db) : Prop where
  rows : ∃ before after, db₁.users.rows = before ++ after ∧
    db₂.users.rows = before ++ user :: after
  unknown : ∀ u ∈ db₁.users.rows, P.sqlLower u.email ≠ P.sqlLower user.email

namespace OneMore

variable {user : UserRow} (h : OneMore P user db₁ db₂)
include h

/-- Other addresses are looked up alike. -/
theorem getByEmail_of_ne {email : Str} (hne : P.sqlLower user.email ≠ P.norm email) :
    UserRepository.getByEmail P db₂ email = UserRepository.getByEmail P db₁ email := by
  obtain ⟨before, after, h₁, h₂⟩ := h.rows
  rw [UserRepository.getByEmail, UserRepository.getByEmail, h₁, h₂, List.find?_append,
    List.find?_append, List.find?_cons_of_neg (by simpa using hne)]

/-- The address in question is unknown to the first, and the account's to the second. -/
theorem getByEmail_of_eq {email : Str} (heq : P.sqlLower user.email = P.norm email) :
    UserRepository.getByEmail P db₁ email = none ∧
      UserRepository.getByEmail P db₂ email = some user := by
  obtain ⟨before, after, h₁, h₂⟩ := h.rows
  have hunknown : ∀ u ∈ before ++ after, P.sqlLower u.email ≠ P.norm email := fun u hu =>
    heq ▸ h.unknown u (h₁ ▸ hu)
  have hbefore : before.find? (fun u => decide (P.sqlLower u.email = P.norm email)) = none :=
    List.find?_eq_none.mpr fun u hu => by
      simpa using hunknown u (List.mem_append_left after hu)
  constructor
  · rw [UserRepository.getByEmail, h₁, List.find?_eq_none]
    intro u hu
    simpa using hunknown u hu
  · rw [UserRepository.getByEmail, h₂, List.find?_append, hbefore, Option.none_or,
      List.find?_cons_of_pos (by simpa using heq)]

/-- **A wrong password opens nothing in either**, or is not taken by the hasher. -/
theorem authenticate_eq {email password : Str}
    (hwrong : config.verify password user.passwordHash ≠ .ok true) :
    AuthService.authenticate P config db₂ email password
      = AuthService.authenticate P config db₁ email password := by
  rw [AuthService.authenticate, AuthService.authenticate]
  split_ifs with htakes
  · by_cases heq : P.sqlLower user.email = P.norm email
    · obtain ⟨h₁, h₂⟩ := h.getByEmail_of_eq heq
      have hreject : config.accepts password user.passwordHash = false := by
        rw [AuthService.Config.verify, if_pos htakes] at hwrong
        simpa using hwrong
      rw [h₁, h₂, Option.filter_some, hreject]
      rfl
    · rw [h.getByEmail_of_ne heq]
  · rfl

/-- **One login**: the same response, and the same guard after it. -/
theorem login_eq (state : InMemoryLoginGuard.State) {call : AuthService.LoginCall}
    (hwrong : config.verify call.password user.passwordHash ≠ .ok true) :
    Routers.login P config db₂ state call = Routers.login P config db₁ state call := by
  have hservice : AuthService.login P config db₂ state call
      = AuthService.login P config db₁ state call := by
    rw [AuthService.login_eq, AuthService.login_eq]
    rcases config.guard.assertNotLocked P call.checkedAt state call.email with e | _
    · rfl
    · simp only [h.authenticate_eq hwrong]
  rw [Routers.login, Routers.login, hservice]

/-- **Logging in does not reveal whether an address has an account**: over any logins, none with the
account's password, the responses and the guard's state are those of a store without it. -/
theorem logins_eq (state : InMemoryLoginGuard.State) (calls : List AuthService.LoginCall)
    (hwrong : ∀ call ∈ calls, config.verify call.password user.passwordHash ≠ .ok true) :
    outputs (Routers.login P config db₂) state calls
        = outputs (Routers.login P config db₁) state calls ∧
      finalState (Routers.login P config db₂) state calls
        = finalState (Routers.login P config db₁) state calls := by
  induction calls generalizing state with
  | nil => exact ⟨rfl, rfl⟩
  | cons call calls ih =>
    obtain ⟨hcall, hcalls⟩ := List.forall_mem_cons.mp hwrong
    have hlogin := h.login_eq state hcall
    obtain ⟨houtputs, hfinal⟩ := ih (Routers.login P config db₁ state call).2 hcalls
    constructor
    · rw [outputs, outputs, hlogin, houtputs]
    · change finalState _ (Routers.login P config db₂ state call).2 calls = _
      rw [hlogin, hfinal]
      rfl

end OneMore

/-- Bob's address is tried in two spellings; Alice logs in. -/
theorem OneMore.logins_eq_bob :
    let alice := Db.accounts (Db.twoAccounts.users.filter fun u => u.id = 1)
    let calls : List AuthService.LoginCall :=
      [⟨"bob@example.com".toList, ['x'], 1, 2, fun _ => []⟩,
        ⟨" BOB@example.com".toList, ['y'], 3, 4, fun _ => []⟩,
        ⟨"alice@example.com".toList, ['z'], 5, 6, fun _ => []⟩]
    outputs (Routers.login .sqlite .strict Db.twoAccounts) (fun _ => none) calls
        = outputs (Routers.login .sqlite .strict alice) (fun _ => none) calls ∧
      finalState (Routers.login .sqlite .strict Db.twoAccounts) (fun _ => none) calls
        = finalState (Routers.login .sqlite .strict alice) (fun _ => none) calls := by
  intro alice calls
  have hbob : OneMore .sqlite ⟨2, "bob".toList, "bob@example.com".toList, [], .seconds 0⟩ alice
      Db.twoAccounts :=
    ⟨⟨alice.users.rows, [], by decide +kernel, by decide +kernel⟩, by decide +kernel⟩
  exact OneMore.logins_eq hbob (fun _ => none) calls (by decide)
