import BookmarksApi.Services.Bookmark

/-!
# Routers/Bookmarks — the routes, one request at a time

`respond` is a request from the authenticated user to its response, with the tables it leaves.  A
request that raises leaves them as they were: its session is closed, and the transaction with it.
-/

variable (P : Platform)

/-- A create, read, update or delete of one bookmark. -/
inductive Crud
  | create (payload : BookmarkCreate P)
  | get (bookmarkId : ℤ)
  | update (bookmarkId : ℤ) (payload : BookmarkUpdate P) (ifMatch : Option Str)
  | delete (bookmarkId : ℤ) (ifMatch : Option Str)

variable {P} in
/-- The id a request names. -/
def Crud.target : Crud P → Option ℤ
  | .create _ => none
  | .get bookmarkId => some bookmarkId
  | .update bookmarkId _ _ => some bookmarkId
  | .delete bookmarkId _ => some bookmarkId

/-- A request to the bookmark routes. -/
inductive Request
  | crud (c : Crud P)
  | list (query : ListQuery)
  | stats

/-- A request with the id its token names and the clock reading it runs at. -/
structure Call (ρ : Type) where
  user : ℤ
  now : ℤ
  request : ρ

namespace Routers

variable {P}

/-- A success that carries a bookmark and its ETag. -/
def bookmarkResponse (status : ℕ) (b : Bookmark) : Response Body :=
  { status := status, headers := [("ETag", VersionETagService.makeEtag b.row.version)]
    body := .inl (.bookmark (.ofBookmark b)) }

/-- `create_bookmark`. -/
def createBookmark (now : ℤ) (db : Db) (userId : ℤ) (payload : BookmarkCreate P) :
    Except Exc (Response Body × Db) := do
  let (db, b) ← BookmarkService.create P now db userId payload.url payload.title
    payload.description payload.tags
  .ok (bookmarkResponse 201 b, db)

/-- `get_bookmark`. -/
def getBookmark (P : Platform) (db : Db) (userId bookmarkId : ℤ) :
    Except Exc (Response Body × Db) := do
  let b ← BookmarkService.get P db userId bookmarkId
  .ok (bookmarkResponse 200 b, db)

/-- The `changes` that `update_bookmark` builds: `url`, `title` and `tags` when given and not null,
`description` when given. -/
def changesOf (payload : BookmarkUpdate P) : Changes :=
  { url := payload.url.join
    title := payload.title.join
    description := payload.description
    tags := payload.tags.join.map some }

/-- The service sees the list of names that was given, if one was. -/
theorem changesOf_tags (payload : BookmarkUpdate P) :
    (changesOf payload).tags.join = payload.tags.join := by
  rw [changesOf]
  rcases payload.tags.join with _ | names <;> rfl

/-- `update_bookmark`. -/
def updateBookmark (now : ℤ) (db : Db) (userId bookmarkId : ℤ) (payload : BookmarkUpdate P)
    (ifMatch : Option Str) : Except Exc (Response Body × Db) := do
  let (db, b) ← BookmarkService.update P now db userId bookmarkId (changesOf payload) ifMatch
  .ok (bookmarkResponse 200 b, db)

/-- `delete_bookmark`. -/
def deleteBookmark (P : Platform) (db : Db) (userId bookmarkId : ℤ) (ifMatch : Option Str) :
    Except Exc (Response Body × Db) := do
  let db ← BookmarkService.delete P db userId bookmarkId ifMatch
  .ok ({ status := 204, body := .inl .empty }, db)

/-- `list_bookmarks`. -/
def listBookmarks (P : Platform) (db : Db) (userId : ℤ) (query : ListQuery) :
    Except Exc (Response Body × Db) := do
  let page ← BookmarkService.list P db userId query
  .ok ({ status := 200, body := .inl (.page ⟨page.items.map .ofBookmark, page.pagination⟩) }, db)

/-- `get_stats`. -/
def getStats (P : Platform) (db : Db) (userId : ℤ) : Except Exc (Response Body × Db) :=
  .ok ({ status := 200, body := .inl (.stats (StatsRepository.getStats P db userId)) }, db)

/-- The last step of `get_current_user`: the account must still exist. -/
def getCurrentUser (db : Db) (userId : ℤ) : Except Exc UserRow :=
  match db.users.get? userId with
  | none => .error (.app (authError "User account no longer exists."))
  | some user => .ok user

/-- The route of a request on one bookmark. -/
def crud (now : ℤ) (db : Db) (userId : ℤ) : Crud P → Except Exc (Response Body × Db)
  | .create payload => createBookmark now db userId payload
  | .get bookmarkId => getBookmark P db userId bookmarkId
  | .update bookmarkId payload ifMatch => updateBookmark now db userId bookmarkId payload ifMatch
  | .delete bookmarkId ifMatch => deleteBookmark P db userId bookmarkId ifMatch

/-- The route of a request. -/
def route (now : ℤ) (db : Db) (userId : ℤ) : Request P → Except Exc (Response Body × Db)
  | .crud c => crud now db userId c
  | .list query => listBookmarks P db userId query
  | .stats => getStats P db userId

/-- The response to a request, and the tables after it. -/
def respond (db : Db) (call : Call (Request P)) : Response Body × Db :=
  match (do
    let user ← getCurrentUser db call.user
    route call.now db user.id call.request) with
  | .error e => (Response.ofExc e, db)
  | .ok result => result

end Routers
