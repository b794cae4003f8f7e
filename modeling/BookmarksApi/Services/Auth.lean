import BookmarksApi.Repositories.User
import BookmarksApi.Utils.LoginGuard

/-!
# Services/Auth — registration and login

`AuthService.register` looks the address and the name up, and then adds the account.  The password
hash is what the hasher returned; the token is made from the account's id alone.
`AuthService.login` asks the guard, verifies the password, and tells the guard how it went.
-/

namespace AuthService

/-! ## Registration -/

/-- The 409 for an address in use. -/
def emailTaken : AppError :=
  conflictError "A user with this email already exists."
    [("field", .str "email".toList), ("constraint", .str "unique".toList)]

/-- The 409 for a name in use. -/
def usernameTaken : AppError :=
  conflictError "This username is already taken."
    [("field", .str "username".toList), ("constraint", .str "unique".toList)]

/-- `register`. -/
def register (P : Platform) (now : ℤ) (db : Db) (username email passwordHash : Str) :
    Except Exc (Db × UserRow) :=
  let email := P.norm email
  if (UserRepository.getByEmail P db email).isSome then .error (.app emailTaken)
  else if (UserRepository.getByUsername db username).isSome then .error (.app usernameTaken)
  else UserRepository.add P now db username email passwordHash

/-! ## Login -/

/-- What `login` is built on: the guard, and the hasher. -/
structure Config where
  guard : InMemoryLoginGuard
  /-- The passwords that passlib takes: those of up to 4096 characters. -/
  takes : Str → Bool
  /-- What it finds of a password that it takes, and a hash. -/
  accepts : Str → Str → Bool
  /-- `_dummy_hash(…)`. -/
  dummyHash : Str

/-- `IPasswordHasher.verify`.  Passlib looks at the password's length before it looks at the
hash. -/
def Config.verify (config : Config) (password passwordHash : Str) : Except Exc Bool :=
  if config.takes password then .ok (config.accepts password passwordHash)
  else .error .passwordSize

/-- A guard that locks at the first failure, for a minute, over hashes that are the passwords. -/
def Config.strict : Config where
  guard := ⟨1, 60, .binary64⟩
  takes password := decide (password.length ≤ 4096)
  accepts password hash := password == hash
  dummyHash := "a-non-matching-dummy-password".toList

/-- A login request, with the clock readings of its two guard calls and the token provider as it is
at the time. -/
structure LoginCall where
  email : Str
  password : Str
  checkedAt : ℚ
  recordedAt : ℚ
  createAccessToken : ℤ → Str

/-- The 401 for an unknown address and for a wrong password alike. -/
def invalidCredentials : AppError := authError "Invalid email or password."

/-- `login`: the account and its token, or an error, and the guard's state after it.  Of what
`verify(password, _dummy_hash(…))` comes to, only an exception is looked at. -/
def login (P : Platform) (config : Config) (db : Db) (state : InMemoryLoginGuard.State)
    (call : LoginCall) : Except Exc (UserRow × Str) × InMemoryLoginGuard.State :=
  match config.guard.assertNotLocked P call.checkedAt state call.email with
  | .error e => (.error (.app e), state)
  | .ok () =>
    match UserRepository.getByEmail P db call.email with
    | none =>
      match config.verify call.password config.dummyHash with
      | .error x => (.error x, state)
      | .ok _ => (.error (.app invalidCredentials),
          config.guard.recordFailure P call.recordedAt state call.email)
    | some user =>
      match config.verify call.password user.passwordHash with
      | .error x => (.error x, state)
      | .ok true => (.ok (user, call.createAccessToken user.id),
          InMemoryLoginGuard.recordSuccess P state call.email)
      | .ok false => (.error (.app invalidCredentials),
          config.guard.recordFailure P call.recordedAt state call.email)

/-- The calls of `verify` that `login` makes: the password, and the hash of the account or the
dummy hash. -/
def verifications (P : Platform) (config : Config) (db : Db) (state : InMemoryLoginGuard.State)
    (call : LoginCall) : List (Str × Str) :=
  match config.guard.assertNotLocked P call.checkedAt state call.email with
  | .error _ => []
  | .ok () => [(call.password,
      ((UserRepository.getByEmail P db call.email).map UserRow.passwordHash).getD
        config.dummyHash)]

/-- **The account that an address and a password open**, if they open one and the hasher takes the
password. -/
def authenticate (P : Platform) (config : Config) (db : Db) (email password : Str) :
    Except Exc (Option UserRow) :=
  if config.takes password then
    .ok ((UserRepository.getByEmail P db email).filter fun user =>
      config.accepts password user.passwordHash)
  else .error .passwordSize

theorem authenticate_eq_error {P : Platform} {config : Config} {db : Db} {email password : Str}
    {x : Exc} (h : authenticate P config db email password = .error x) : x = .passwordSize := by
  rw [authenticate] at h
  split_ifs at h
  exact (Except.error.inj h).symm

/-- **A login in three steps**: the check, the verification, and the recording of what it gave.
What raises in between is not recorded. -/
theorem login_eq (P : Platform) (config : Config) (db : Db) (state : InMemoryLoginGuard.State)
    (call : LoginCall) : login P config db state call =
      match config.guard.assertNotLocked P call.checkedAt state call.email with
      | .error e => (.error (.app e), state)
      | .ok () =>
        match authenticate P config db call.email call.password with
        | .error x => (.error x, state)
        | .ok none => (.error (.app invalidCredentials),
            config.guard.recordFailure P call.recordedAt state call.email)
        | .ok (some user) => (.ok (user, call.createAccessToken user.id),
            InMemoryLoginGuard.recordSuccess P state call.email) := by
  rw [login, authenticate]
  rcases config.guard.assertNotLocked P call.checkedAt state call.email with e | _
  · rfl
  simp only [Config.verify]
  by_cases htakes : config.takes call.password = true
  · simp only [htakes, if_true]
    rcases UserRepository.getByEmail P db call.email with _ | user
    · rfl
    · rcases haccepts : config.accepts call.password user.passwordHash with _ | _ <;>
        simp [Option.filter, haccepts]
  · simp only [htakes, if_false, Bool.false_eq_true]
    rcases UserRepository.getByEmail P db call.email with _ | user <;> rfl

/-- **A login knows of passwords what those calls tell it.** -/
theorem login_congr {P : Platform} {config config' : Config} {db : Db}
    {state : InMemoryLoginGuard.State} {call : LoginCall} (hguard : config.guard = config'.guard)
    (hdummy : config.dummyHash = config'.dummyHash)
    (hverify : ∀ c ∈ verifications P config db state call,
      config.verify c.1 c.2 = config'.verify c.1 c.2) :
    login P config db state call = login P config' db state call := by
  rw [verifications] at hverify
  rw [login, login, ← hguard, ← hdummy]
  rcases hcheck : config.guard.assertNotLocked P call.checkedAt state call.email with e | _
  · rfl
  · rw [hcheck] at hverify
    have hcall := hverify _ (List.mem_singleton_self _)
    rcases huser : UserRepository.getByEmail P db call.email with _ | user
    · rw [huser, Option.map_none, Option.getD_none] at hcall
      simp only [hcall]
    · rw [huser, Option.map_some, Option.getD_some] at hcall
      simp only [hcall]

end AuthService
