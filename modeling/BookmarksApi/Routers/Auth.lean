import BookmarksApi.Services.Auth

/-!
# Routers/Auth — the login route
-/

/-- `UserOut`. -/
structure UserOut where
  id : ℤ
  username : Str
  email : Str
  createdAt : Stamp
  deriving DecidableEq, Repr

/-- `UserOut.model_validate`. -/
def UserOut.ofUser (user : UserRow) : UserOut :=
  ⟨user.id, user.username, user.email, user.createdAt⟩

/-- `AuthResponse`. -/
structure AuthResponse where
  user : UserOut
  token : Str
  tokenType : String := "bearer"
  deriving DecidableEq, Repr

namespace Routers

/-- `login`: the response, and the guard's state after it.  The tables are not written to. -/
def login (P : Platform) (config : AuthService.Config) (db : Db)
    (state : InMemoryLoginGuard.State) (call : AuthService.LoginCall) :
    Response AuthResponse × InMemoryLoginGuard.State :=
  match AuthService.login P config db state call with
  | (.error x, state) => (Response.ofExc x, state)
  | (.ok (user, token), state) =>
    ({ status := 200, body := .inl ⟨.ofUser user, token, "bearer"⟩ }, state)

end Routers
