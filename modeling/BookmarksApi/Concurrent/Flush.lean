import BookmarksApi.Machinery.Transactions
import BookmarksApi.Store.Frame
import BookmarksApi.Concurrent.Machine

/-!
# Concurrent/Flush — a commit, statement by statement

A flush is a list of statements, and any of them can raise after others have gone through.  What
those did is in the session's transaction, not in the tables: the repository rolls a lost race back,
and for every other error closing the session does.  So the flush and commit that the machine makes
one move is the transaction, run to its end (`Phase.fst_commit`).
-/

variable {P : Platform}

/-- `INSERT INTO bookmark_tags` for each tag. -/
def Db.linkStatements (bookmarkId : ℤ) (ts : List TagRow) : List (Db → Except Exc Db) :=
  ts.map fun t db => db.insertLink bookmarkId t.id

theorem Db.inOrder_linkStatements (bookmarkId : ℤ) (ts : List TagRow) (db : Db) :
    inOrder (linkStatements bookmarkId ts) db = db.insertLinks bookmarkId ts := by
  induction ts generalizing db with
  | nil => rfl
  | cons t ts ih =>
    rw [linkStatements, List.map_cons, inOrder, insertLinks]
    rcases db.insertLink bookmarkId t.id with x | db'
    · rfl
    · exact ih db'

/-- The statements of a flush of a new instance, whose row takes the next id. -/
def NewBookmark.statements (P : Platform) (now : ℤ) (db : Db) (b : NewBookmark) :
    List (Db → Except Exc Db) :=
  (fun db => (db.insertBookmark P now b.url b.title b.description b.userId).map Prod.fst) ::
    Db.linkStatements (db.newRow P now b.url b.title b.description b.userId).id b.tags

/-- The statements of a flush of a persistent instance. -/
def Bookmark.statements (b : Bookmark) : List (Db → Except Exc Db) :=
  (if b.dirty then [fun db => db.updateBookmark b.stored b.row] else []) ++
    (fun db => db.deleteLinks b.stored.id b.removedTags) ::
      Db.linkStatements b.stored.id b.addedTags

/-- The statements of a flush of a deleted instance. -/
def Bookmark.deleteStatements (b : Bookmark) : List (Db → Except Exc Db) :=
  [fun db => db.deleteLinks b.stored.id b.storedTags, fun db => db.deleteBookmark b.stored]

theorem Db.row_insertBookmark {now : ℤ} {url title : Str} {description : Option Str} {userId : ℤ}
    {db db' : Db} {row : BookmarkRow}
    (h : db.insertBookmark P now url title description userId = .ok (db', row)) :
    db.newRow P now url title description userId = row := by
  rw [insertBookmark] at h
  split_ifs at h
  split at h
  · cases h
  · cases h
    rfl

theorem NewBookmark.inOrder_statements (now : ℤ) (db : Db) (b : NewBookmark) :
    inOrder (b.statements P now db) db = (b.flush P now db).map Prod.fst := by
  rcases hrow : db.insertBookmark P now b.url b.title b.description b.userId with x | ⟨db₁, row⟩
  · simp only [statements, inOrder, flush, hrow]
    rfl
  · obtain rfl := Db.row_insertBookmark hrow
    simp only [statements, inOrder, flush, hrow, Except.map, Except.bind, bind]
    rw [Db.inOrder_linkStatements]
    rcases db₁.insertLinks _ b.tags with x | db₂ <;> rfl

theorem Bookmark.inOrder_statements (db : Db) (b : Bookmark) :
    inOrder b.statements db = (b.flush db).map Prod.fst := by
  rw [statements, inOrder_append, flush]
  have hlinks : ∀ {f : Db → Except Exc (Db × Bookmark)} (_ : ∀ d, (f d).map Prod.fst = .ok d) d,
      inOrder ((fun db => db.deleteLinks b.stored.id b.removedTags) ::
        Db.linkStatements b.stored.id b.addedTags) d =
        ((d.deleteLinks b.stored.id b.removedTags).bind fun d =>
          (d.insertLinks b.stored.id b.addedTags).bind f).map Prod.fst := by
    intro f hf d
    rw [inOrder]
    rcases d.deleteLinks b.stored.id b.removedTags with x | d₁
    · rfl
    · change inOrder (Db.linkStatements b.stored.id b.addedTags) d₁ = _
      rw [Db.inOrder_linkStatements]
      rcases hinsert : d₁.insertLinks b.stored.id b.addedTags with x | d₂
      · simp only [Except.bind, hinsert, Except.map]
      · simp only [Except.bind, hinsert, hf]
  split_ifs
  · rw [inOrder]
    rcases db.updateBookmark b.stored b.row with x | db₁
    · rfl
    · exact hlinks (fun _ => rfl) db₁
  · exact hlinks (fun _ => rfl) db

theorem Bookmark.inOrder_deleteStatements (db : Db) (b : Bookmark) :
    inOrder b.deleteStatements db = b.flushDelete db := by
  rw [deleteStatements, inOrder, flushDelete]
  rcases db.deleteLinks b.stored.id b.storedTags with x | db₁
  · rfl
  · change (db₁.deleteBookmark b.stored).bind (inOrder []) = db₁.deleteBookmark b.stored
    rcases db₁.deleteBookmark b.stored with x | db₂ <;> rfl

/-- The statements of the flush that a commit begins with. -/
def Phase.statements (call : Call (Crud P)) (db : Db) (newTags : Option (List TagRow)) :
    Option Bookmark → List (Db → Except Exc Db)
  | none =>
    match call.request with
    | .create payload => NewBookmark.statements P call.now db
        ⟨payload.url, payload.title, payload.description, call.user, newTags.getD []⟩
    | _ => []
  | some b =>
    match call.request with
    | .update _ payload _ => (BookmarkRepository.touch call.now
        ((Routers.changesOf payload).apply newTags b)).statements
    | .delete _ _ => b.deleteStatements
    | _ => []

/-- **How a commit ends**: the flush went through, or raised, which is a lost race for an update or
delete. -/
inductive Phase.Ended (db : Db) (pending : List TagRow) (ss : List (Db → Except Exc Db)) :
    Db → Phase → Prop
  | saved {db' : Db} {k : ℤ} (hflush : inOrder ss (db.addTags pending) = .ok db')
      (hsame : (db.addTags pending).SameTags db') : Ended db pending ss db' (refreshing k)
  | deleted {db' : Db} {r : Response Body} (hflush : inOrder ss (db.addTags pending) = .ok db')
      (hsame : (db.addTags pending).SameTags db') : Ended db pending ss db' (done (.ok r))
  | raised {x : Exc} (hflush : inOrder ss (db.addTags pending) = .error x) (hx : x.IsRefusal) :
      Ended db pending ss db (done (.error x))
  | lost {x : Exc} {k : ℤ} (hflush : inOrder ss (db.addTags pending) = .error x) :
      Ended db pending ss db (conflicted k)

section

variable {call : Call (Crud P)} {db db' : Db} {held : Option Bookmark}
  {newTags : Option (List TagRow)} {pending : List TagRow} {p' : Phase}

/-- What was raised is reported as a lost race. -/
theorem Phase.failed_of_isRefusal {k : ℤ} {x : Exc} (hx : x.IsRefusal) :
    failed k (BookmarkRepository.translate x) = conflicted k := by
  rcases hx with rfl | rfl <;> rfl

/-- **What a commit comes to**, by what its flush comes to and what the session holds. -/
theorem Phase.commit_cases_flush (h : commit call db newTags pending held = some (db', p')) :
    (inOrder (statements call (db.addTags pending) newTags held) (db.addTags pending) = .ok db' ∧
      (db.addTags pending).SameTags db' ∧
      ((∃ k, p' = refreshing k) ∨ p' = done (.ok { status := 204, body := .inl .empty }))) ∨
    ∃ x, inOrder (statements call (db.addTags pending) newTags held) (db.addTags pending)
        = .error x ∧ x.IsRefusal ∧ db' = db ∧
      (held = none ∧ p' = done (.error x) ∨ ∃ b, held = some b ∧ p' = conflicted b.stored.id) := by
  rcases held with _ | b
  · cases hreq : call.request with
    | create payload =>
      simp only [statements, hreq, NewBookmark.inOrder_statements]
      simp only [commit, hreq, Option.some.injEq] at h
      rcases hflush : NewBookmark.flush P call.now (db.addTags pending)
          ⟨payload.url, payload.title, payload.description, call.user, newTags.getD []⟩
        with x | ⟨d, row⟩
      · rw [hflush] at h
        cases h
        exact Or.inr ⟨x, rfl, NewBookmark.isRefusal_flush hflush, rfl, Or.inl ⟨trivial, rfl⟩⟩
      · rw [hflush] at h
        cases h
        exact Or.inl ⟨rfl, NewBookmark.sameTags_flush hflush, Or.inl ⟨_, rfl⟩⟩
    | _ => simp [commit, hreq] at h
  · cases hreq : call.request with
    | update k payload ifMatch =>
      simp only [statements, hreq, Bookmark.inOrder_statements]
      simp only [commit, hreq, Option.some.injEq] at h
      rcases hflush : (BookmarkRepository.touch call.now
          ((Routers.changesOf payload).apply newTags b)).flush (db.addTags pending) with x | ⟨d, b'⟩
      · have hx := Bookmark.isRefusal_flush hflush
        simp only [hflush, failed_of_isRefusal hx] at h
        cases h
        exact Or.inr ⟨x, rfl, hx, rfl, Or.inr ⟨b, rfl, rfl⟩⟩
      · rw [hflush] at h
        cases h
        exact Or.inl ⟨rfl, Bookmark.sameTags_flush hflush, Or.inl ⟨_, rfl⟩⟩
    | delete k ifMatch =>
      simp only [statements, hreq, Bookmark.inOrder_deleteStatements]
      simp only [commit, hreq, Option.some.injEq] at h
      rcases hflush : b.flushDelete (db.addTags pending) with x | d
      · have hx := Bookmark.isRefusal_flushDelete hflush
        simp only [hflush, failed_of_isRefusal hx] at h
        cases h
        exact Or.inr ⟨x, rfl, hx, rfl, Or.inr ⟨b, rfl, rfl⟩⟩
      · rw [hflush] at h
        cases h
        exact Or.inl ⟨rfl, Bookmark.sameTags_flushDelete hflush, Or.inr rfl⟩
    | _ => simp [commit, hreq] at h

/-- **A commit ends in one of these ways.** -/
theorem Phase.ended_of_commit (h : commit call db newTags pending held = some (db', p')) :
    Ended db pending (statements call (db.addTags pending) newTags held) db' p' := by
  obtain ⟨hflush, hsame, ⟨k, rfl⟩ | rfl⟩ | ⟨x, hflush, hx, rfl, ⟨-, rfl⟩ | ⟨b, -, rfl⟩⟩ :=
    commit_cases_flush h
  · exact .saved hflush hsame
  · exact .deleted hflush hsame
  · exact .raised hflush hx
  · exact .lost hflush

/-- **A commit is its statements in a transaction, with a rollback when one of them raises.** -/
theorem Phase.fst_commit (h : commit call db newTags pending held = some (db', p')) :
    (Transaction.finish ⟨db, db.addTags pending⟩
      (statements call (db.addTags pending) newTags held)).committed = db' := by
  rw [Transaction.committed_finish]
  cases ended_of_commit h with
  | saved hflush => rw [hflush]; rfl
  | deleted hflush => rw [hflush]; rfl
  | raised hflush => rw [hflush]; rfl
  | lost hflush => rw [hflush]; rfl

end
