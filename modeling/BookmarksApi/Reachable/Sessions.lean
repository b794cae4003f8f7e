import BookmarksApi.Api
import BookmarksApi.Concurrent.Registration
import BookmarksApi.Core.TokenLife
import BookmarksApi.Sequential.Isolation
import BookmarksApi.Store.Frame

/-!
# Reachable/Sessions — accounts, passwords and tokens over the whole service

**All an endpoint can do** (`Api.Effect`): nothing but tell the guard, add an account, show one that
its password opens, or serve an account that its token names.  So accounts are added and never
changed, and what a registration has given out stays good: in every later state its token opens the
account until it expires, and its password in every spelling of the address (`account_lives_on`).
-/

variable {P : Platform}

/-! ## Accounts -/

namespace UserRepository

/-- **An address finds the account that has it.** -/
theorem getByEmail_eq_some {db : Db} (a : Accounts P db) {email : Str} {user : UserRow} :
    getByEmail P db email = some user ↔ user ∈ db.users.rows ∧ user.email = P.norm email := by
  have hlower : ∀ u ∈ db.users.rows, P.sqlLower u.email = u.email := by
    intro u hu
    rw [← a.normalized u hu, Platform.norm, P.sqlLower_lower]
  constructor
  · intro h
    have hmem := List.mem_of_find?_eq_some h
    refine ⟨hmem, ?_⟩
    rw [← hlower user hmem]
    simpa using List.find?_some h
  · rintro ⟨hmem, hemail⟩
    rcases hfound : getByEmail P db email with _ | other
    · have hnone := (getByEmail_eq_none a.normalized).mp hfound
      exact absurd (hemail ▸ List.mem_map_of_mem hmem) hnone
    · have hother := List.mem_of_find?_eq_some hfound
      have hsame : P.sqlLower other.email = P.norm email := by simpa using List.find?_some hfound
      rw [hlower other hother, ← hemail] at hsame
      exact congrArg some (List.inj_on_of_nodup_map a.integrity.email hother hmem hsame)

end UserRepository

/-- One more account, under a new number and a new address. -/
structure Db.Adds (db : Db) (user : UserRow) (db' : Db) : Prop where
  rows : db'.users.rows = db.users.rows ++ [user]
  id : ∀ u ∈ db.users.rows, u.id ≠ user.id
  email : ∀ u ∈ db.users.rows, u.email ≠ user.email
  view : db'.view = db.view

namespace AuthService

/-- **A registration adds the account it was asked for.** -/
theorem register_adds {now : ℤ} {db db' : Db} {username email passwordHash : Str} {user : UserRow}
    (a : Accounts P db) (h : register P now db username email passwordHash = .ok (db', user)) :
    Accounts P db' ∧ db.Adds user db' ∧ user.username = username ∧ user.email = P.norm email ∧
      user.passwordHash = passwordHash := by
  rw [register] at h
  split_ifs at h with hemail hname
  obtain ⟨⟨db₁, user₁⟩, hinsert, h⟩ := Except.exists_of_bind_eq_ok h
  obtain ⟨I, huser₁, hrows⟩ := Db.insertUser_spec a.integrity hinsert
  obtain ⟨user₂, hrefresh, h⟩ := Except.exists_of_bind_eq_ok h
  cases h
  have hmem : user₁ ∈ db'.users.rows := hrows ▸ List.mem_append_right _ List.mem_cons_self
  obtain rfl : user₁ = user := by
    rw [UserRepository.refresh, Table.get?_key hmem] at hrefresh
    exact Except.ok.inj hrefresh
  have hfree : P.norm email ∉ db.users.rows.map UserRow.email := by
    rw [Option.not_isSome_iff_eq_none, UserRepository.getByEmail_eq_none a.normalized,
      P.norm_norm] at hemail
    exact hemail
  have hid : (db'.users.rows.map UserRow.id).Nodup := db'.users.nodup
  rw [hrows, List.map_append, List.nodup_append] at hid
  have hview : db'.view = db.view := by
    rw [Db.insertUser] at hinsert
    split_ifs at hinsert
    split at hinsert
    · cases hinsert
    · cases hinsert
      rfl
  refine ⟨⟨I, fun u hu => ?_⟩, ⟨hrows, fun u hu => ?_, fun u hu heq => ?_, hview⟩, ?_, ?_, ?_⟩
  · rw [hrows, List.mem_append, List.mem_singleton] at hu
    rcases hu with hu | rfl
    · exact a.normalized u hu
    · rw [huser₁]
      exact P.norm_norm email
  · exact hid.2.2 u.id (List.mem_map_of_mem hu) _ List.mem_cons_self
  · rw [huser₁] at heq
    exact hfree (List.mem_map.mpr ⟨u, hu, heq⟩)
  all_goals
    rw [huser₁]
    rfl

/-- **What authenticates**: the address of an account, in any spelling, and a password that its hash
verifies. -/
theorem authenticate_eq_some {config : Config} {db : Db} (a : Accounts P db) {email password : Str}
    {user : UserRow} : authenticate P config db email password = .ok (some user) ↔
      user ∈ db.users.rows ∧ user.email = P.norm email ∧
        config.verify password user.passwordHash = .ok true := by
  rw [authenticate, Config.verify]
  split_ifs with htakes
  · rw [Except.ok.injEq, Except.ok.injEq, Option.filter_eq_some_iff,
      UserRepository.getByEmail_eq_some a, and_assoc]
  · simp

end AuthService

namespace Api

variable (api : Api)

/-- The session that a request is answered with: the account, and a new token for it. -/
structure Issues (call : ApiCall P) (user : UserRow) (r : AuthResponse) : Prop where
  shown : r.user = .ofUser user
  signed : api.tokens.createAccessToken call.now call.uuid user.id none = .ok r.token

/-- An address and a password open an account. -/
structure Opens (P : Platform) (user : UserRow) (email password : Str) : Prop where
  email : user.email = P.norm email
  password : api.config.verify password user.passwordHash = .ok true

/-- **All an endpoint can do.** -/
inductive Effect (s : ApiState) (call : ApiCall P) : ApiAnswer → ApiState → Prop
  | refused {answer : ApiAnswer} {guard : InMemoryLoginGuard.State}
      (hanswer : answer.session = none) : Effect s call answer ⟨s.db, guard⟩
  | registered {payload : RegisterRequest P} {user : UserRow} {db' : Db} {answer : ApiAnswer}
      (hreq : call.request = .register payload) (hadds : s.db.Adds user db')
      (haccounts : Accounts P db') (hemail : user.email = P.norm payload.email)
      (hhash : user.passwordHash = api.hash call.salt payload.password)
      (hanswer : ∀ r, answer.session = some r → api.Issues call user r) :
      Effect s call answer ⟨db', s.guard⟩
  | loggedIn {payload : LoginRequest} {user : UserRow} {guard : InMemoryLoginGuard.State}
      {answer : ApiAnswer} (hreq : call.request = .login payload) (huser : user ∈ s.db.users.rows)
      (hopens : api.Opens P user payload.email payload.password)
      (hanswer : ∀ r, answer.session = some r → api.Issues call user r) :
      Effect s call answer ⟨s.db, guard⟩
  | served {authorization : Option Str} {request : Request P} {user : UserRow}
      (hreq : call.request = .bookmarks authorization request)
      (huser : Deps.getCurrentUser P api.tokens s.db call.now authorization = .ok user) :
      Effect s call (.bookmarks (Routers.respond s.db ⟨user.id, call.now, request⟩).1)
        ⟨(Routers.respond s.db ⟨user.id, call.now, request⟩).2, s.guard⟩

variable {api} {s : ApiState} {call : ApiCall P}

/-- An answer that shows an account has its token. -/
theorem session_issued {user : UserRow} {status : ℕ} {r : AuthResponse}
    (h : (ApiAnswer.auth (api.issued call status user)).session = some r) :
    api.Issues call user r := by
  rw [issued] at h
  rcases htoken : api.tokens.createAccessToken call.now call.uuid user.id none with x | token
  · rw [htoken] at h
    cases x <;> cases h
  · rw [htoken] at h
    obtain rfl := Option.some.inj h
    exact ⟨rfl, htoken⟩

/-- A refusal shows none. -/
theorem session_ofExc (x : Exc) : (ApiAnswer.auth (Response.ofExc x)).session = none := by
  cases x <;> rfl

variable (api) in
/-- **An endpoint does one of these things.** -/
theorem effect (a : Accounts P s.db) (call : ApiCall P) :
    api.Effect s call (api.respond s call).1 (api.respond s call).2 := by
  rw [respond]
  rcases hreq : call.request with payload | payload | ⟨authorization, request⟩
  · simp only [register]
    rcases hregister : AuthService.register P call.now s.db payload.username payload.email
        (api.hash call.salt payload.password) with x | ⟨db', user⟩
    · exact .refused (session_ofExc x)
    · obtain ⟨haccounts, hadds, -, hemail, hhash⟩ := AuthService.register_adds a hregister
      exact .registered hreq hadds haccounts hemail hhash fun r => session_issued
  · simp only [login, AuthService.login_eq, loginCall]
    rcases api.config.guard.assertNotLocked P call.checkedAt s.guard payload.email with x | _
    · exact .refused rfl
    rcases hauth : AuthService.authenticate P api.config s.db payload.email payload.password
      with x | _ | user
    · exact .refused (session_ofExc x)
    · exact .refused rfl
    · obtain ⟨huser, hemail, hpassword⟩ := (AuthService.authenticate_eq_some a).mp hauth
      exact .loggedIn hreq huser ⟨hemail, hpassword⟩ fun r => session_issued
  · simp only [bookmarks]
    rcases huser : Deps.getCurrentUser P api.tokens s.db call.now authorization with x | user
    · exact .refused rfl
    · exact .served hreq huser

/-! ## Runs -/

variable (api) in
/-- **An endpoint keeps the accounts**: none is changed or removed. -/
theorem respond_keeps (a : Accounts P s.db) (call : ApiCall P) :
    Accounts P (api.respond s call).2.db ∧
      s.db.users.rows ⊆ (api.respond s call).2.db.users.rows := by
  have h := api.effect a call
  generalize (api.respond s call).1 = answer at h
  generalize (api.respond s call).2 = s' at h ⊢
  cases h with
  | refused => exact ⟨a, List.Subset.refl _⟩
  | registered hreq hadds haccounts => exact ⟨haccounts, by simp [hadds.rows]⟩
  | loggedIn => exact ⟨a, List.Subset.refl _⟩
  | @served authorization request user =>
    obtain ⟨I, K⟩ := Routers.respond_keeps a.integrity ⟨user.id, call.now, request⟩
    refine ⟨⟨I, fun u hu => a.normalized u ?_⟩, ?_⟩
    · rwa [K.users] at hu
    · rw [K.users]
      exact List.Subset.refl _

variable (api) in
/-- **So does a run.** -/
theorem run_keeps (a : Accounts P s.db) (calls : List (ApiCall P)) :
    Accounts P (finalState api.respond s calls).db ∧
      s.db.users.rows ⊆ (finalState api.respond s calls).db.users.rows := by
  have hstep : ∀ c ∈ calls, ∀ t : ApiState,
      (Accounts P t.db ∧ s.db.users.rows ⊆ t.db.users.rows) →
        Accounts P (api.respond t c).2.db ∧
          s.db.users.rows ⊆ (api.respond t c).2.db.users.rows := by
    rintro c - t ⟨at', hsub⟩
    obtain ⟨a', hsub'⟩ := api.respond_keeps at' c
    exact ⟨a', List.Subset.trans hsub hsub'⟩
  exact finalState_invariant
    (I := fun t : ApiState => Accounts P t.db ∧ s.db.users.rows ⊆ t.db.users.rows) hstep
    ⟨a, List.Subset.refl _⟩

/-- **What a registration adds**: the account it shows, under the address and the password asked
for, with a token for it. -/
theorem register_session (a : Accounts P s.db) {payload : RegisterRequest P}
    (hreq : call.request = .register payload) {r : AuthResponse}
    (hr : (api.respond s call).1.session = some r) :
    ∃ user ∈ (api.respond s call).2.db.users.rows, api.Issues call user r ∧
      user.email = P.norm payload.email ∧
        user.passwordHash = api.hash call.salt payload.password := by
  have h := api.effect a call
  generalize (api.respond s call).1 = answer at h hr
  generalize (api.respond s call).2 = s' at h ⊢
  cases h with
  | refused hanswer =>
    rw [hanswer] at hr
    cases hr
  | @registered payload' user db' answer hreq' hadds haccounts hemail hhash hanswer =>
    cases hreq.symm.trans hreq'
    exact ⟨user, by simp [hadds.rows], hanswer r hr, hemail, hhash⟩
  | loggedIn hreq' =>
    cases hreq.symm.trans hreq'
  | served hreq' =>
    cases hreq.symm.trans hreq'

/-- **What a registration gives out stays good.**  Whatever is asked of the service afterwards, the
account is there as it was shown; its token opens it until the expiry that was written; its
password, with any spelling of its address, authenticates it; and nothing else does. -/
theorem account_lives_on (hP : P.TakesInt64) (hlower : P.lower "Bearer".toList = "bearer".toList)
    (a : Accounts P s.db) {payload : RegisterRequest P} (hreq : call.request = .register payload)
    {r : AuthResponse} (hr : (api.respond s call).1.session = some r) (hid : IsInt64 r.user.id)
    (calls : List (ApiCall P)) :
    ∃ user ∈ (finalState api.respond (api.respond s call).2 calls).db.users.rows,
      UserOut.ofUser user = r.user ∧
      (∀ now, Deps.getCurrentUser P api.tokens
          (finalState api.respond (api.respond s call).2 calls).db now
          (some ("Bearer ".toList ++ r.token)) =
        if UnixTime.truncate (api.tokens.clock.timestamp (api.tokens.expiry call.now none))
            * 1000000 ≤ now
        then .error (.app (authError "Access token has expired.")) else .ok user) ∧
      ∀ email password, AuthService.authenticate P api.config
          (finalState api.respond (api.respond s call).2 calls).db email password
            = .ok (some user) ↔
        P.norm email = P.norm payload.email ∧
          api.config.verify password (api.hash call.salt payload.password) = .ok true := by
  obtain ⟨user, huser, ⟨hshown, hsigned⟩, hemail, hhash⟩ := register_session a hreq hr
  obtain ⟨a', hsub⟩ := api.run_keeps (api.respond_keeps a call).1 calls
  have huser' := hsub huser
  have hid' : IsInt64 user.id := by
    rw [hshown] at hid
    exact hid
  refine ⟨user, huser', hshown.symm, fun now => ?_, fun email password => ?_⟩
  · exact JwtTokenProvider.getCurrentUser_createAccessToken hP hlower hid'
      (Table.get?_key huser') hsigned now
  · rw [AuthService.authenticate_eq_some a', and_iff_right huser', hemail, hhash]
    exact and_congr_left fun _ => eq_comm

/-! ## A registration -/

/-- A service whose hashes are the passwords, over the library that signs nothing. -/
def plain : Api where
  config := .strict
  hash _ password := password
  tokens := .plain
  takes_short _ h := decide_eq_true h
  accepts_hash _ password := beq_self_eq_true password

/-- Two accounts, and nothing noted of their logins. -/
def twoAccounts : ApiState := ⟨.twoAccounts, InMemoryLoginGuard.clear⟩

/-- Carol registers. -/
def carolRegisters : ApiCall .sqlite := ⟨0, 0, 0, [], [], .register .carol⟩

theorem session_carolRegisters :
    ∃ r, (plain.respond twoAccounts carolRegisters).1.session = some r ∧ r.user.id = 3 := by
  have hid : (AuthService.register .sqlite 0 .twoAccounts RegisterRequest.carol.username
      RegisterRequest.carol.email RegisterRequest.carol.password).toOption.map (·.2.id)
        = some 3 := by decide +kernel
  rcases hregister : AuthService.register .sqlite 0 .twoAccounts RegisterRequest.carol.username
      RegisterRequest.carol.email RegisterRequest.carol.password with x | ⟨db', user⟩
  · rw [hregister] at hid
    cases hid
  · rw [hregister] at hid
    have hyears : Stamp.InYears
        ((carolRegisters.now + plain.tokens.minutes none * 60000000) / Stamp.dayMicros) := by decide
    have hanswer : (plain.respond twoAccounts carolRegisters).1
        = .auth (plain.issued carolRegisters 201 user) := by
      simp only [respond, carolRegisters, register, plain, twoAccounts, hregister]
    rw [hanswer, issued, JwtTokenProvider.createAccessToken, if_pos hyears]
    exact ⟨_, rfl, Option.some.inj hid⟩

/-- Whatever Carol is refused later, her token names her account. -/
theorem account_lives_on_carol :
    ∃ r : AuthResponse, ∃ user ∈ (finalState plain.respond
        (plain.respond twoAccounts carolRegisters).2 [carolRegisters]).db.users.rows,
      UserOut.ofUser user = r.user ∧ r.user.id = 3 := by
  obtain ⟨r, hr, hid⟩ := session_carolRegisters
  have hreq : carolRegisters.request = .register .carol := rfl
  have hbounds : IsInt64 r.user.id := by
    rw [hid]
    decide
  obtain ⟨user, huser, hshown, -⟩ := account_lives_on Platform.takesInt64_sqlite
    (by decide +kernel) accounts_twoAccounts hreq hr hbounds [carolRegisters]
  exact ⟨r, user, huser, hshown, hid⟩

end Api
