import BookmarksApi.Core.Deps
import BookmarksApi.Routers.Auth
import BookmarksApi.Routers.Bookmarks
import BookmarksApi.Schemas.Auth

/-!
# Api — every endpoint, one request at a time

The three groups of routes over one state: the tables, and the guard's entries.  Registering and
logging in answer with a token; the bookmark routes take one in the `Authorization` header and serve
the account it names.  A request carries what the outside gives it: the readings of both clocks, the
salt of a hash and the id of a token.
-/

variable {P : Platform}

/-- What the application is built on: the guard and the hasher, and the token provider. -/
structure Api where
  config : AuthService.Config
  /-- `IPasswordHasher.hash`, with the salt it draws.  Passwords that are registered are short. -/
  hash : Str → Str → Str
  tokens : JwtTokenProvider
  takes_short : ∀ password, password.length ≤ 4096 → config.takes password = true
  accepts_hash : ∀ salt password, config.accepts password (hash salt password) = true

/-- **The hasher recognizes what it has hashed.** -/
theorem Api.verify_hash (api : Api) (salt : Str) {password : Str} (h : password.length ≤ 4096) :
    api.config.verify password (api.hash salt password) = .ok true := by
  rw [AuthService.Config.verify, if_pos (api.takes_short password h), api.accepts_hash]

/-- The tables, and the entries of the login guard. -/
structure ApiState where
  db : Db
  guard : InMemoryLoginGuard.State

/-- A request to one of the endpoints. -/
inductive ApiRequest (P : Platform)
  | register (payload : RegisterRequest P)
  | login (payload : LoginRequest)
  | bookmarks (authorization : Option Str) (request : Request P)

/-- A request, with what the outside gives it. -/
structure ApiCall (P : Platform) where
  now : ℤ
  checkedAt : ℚ
  recordedAt : ℚ
  salt : Str
  uuid : Str
  request : ApiRequest P

/-- A response of one of the endpoints. -/
inductive ApiAnswer
  | auth (r : Response AuthResponse)
  | bookmarks (r : Response Body)

/-- The account that an answer shows, with a token for it. -/
def ApiAnswer.session : ApiAnswer → Option AuthResponse
  | auth r => r.body.getLeft?
  | bookmarks _ => none

namespace Api

variable (api : Api)

/-- `AuthResponse` for an account, with a new token; the provider raises where the expiry is no
date. -/
def issued (call : ApiCall P) (status : ℕ) (user : UserRow) : Response AuthResponse :=
  match api.tokens.createAccessToken call.now call.uuid user.id none with
  | .error e => Response.ofExc e
  | .ok token => { status := status, body := .inl ⟨.ofUser user, token, "bearer"⟩ }

/-- `register`: the account is committed before its token is made. -/
def register (db : Db) (call : ApiCall P) (payload : RegisterRequest P) :
    Response AuthResponse × Db :=
  match AuthService.register P call.now db payload.username payload.email
      (api.hash call.salt payload.password) with
  | .error e => (Response.ofExc e, db)
  | .ok (db, user) => (api.issued call 201 user, db)

/-- The service's part of a login request. -/
def loginCall (call : ApiCall P) (payload : LoginRequest) : AuthService.LoginCall where
  email := payload.email
  password := payload.password
  checkedAt := call.checkedAt
  recordedAt := call.recordedAt
  createAccessToken id :=
    (api.tokens.createAccessToken call.now call.uuid id none).toOption.getD []

/-- `login`: the guard has been told by the time the token is made. -/
def login (s : ApiState) (call : ApiCall P) (payload : LoginRequest) :
    Response AuthResponse × InMemoryLoginGuard.State :=
  match AuthService.login P api.config s.db s.guard (api.loginCall call payload) with
  | (.error x, guard) => (Response.ofExc x, guard)
  | (.ok (user, _), guard) => (api.issued call 200 user, guard)

/-- A request to the bookmark routes: `get_current_user`, then the route. -/
def bookmarks (db : Db) (now : ℤ) (authorization : Option Str) (request : Request P) :
    Response Body × Db :=
  match Deps.getCurrentUser P api.tokens db now authorization with
  | .error e => (Response.ofExc e, db)
  | .ok user => Routers.respond db ⟨user.id, now, request⟩

/-- The response to a request, and the state after it. -/
def respond (s : ApiState) (call : ApiCall P) : ApiAnswer × ApiState :=
  match call.request with
  | .register payload =>
    let (r, db) := api.register s.db call payload
    (.auth r, { s with db := db })
  | .login payload =>
    let (r, guard) := api.login s call payload
    (.auth r, { s with guard := guard })
  | .bookmarks authorization request =>
    let (r, db) := api.bookmarks s.db call.now authorization request
    (.bookmarks r, { s with db := db })

end Api
