import BookmarksApi.Models

/-!
# Repositories/User — looking accounts up, and adding one
-/

/-- The row of a new account.  Accounts are never removed, so the next id is past the largest. -/
def Db.newUser (P : Platform) (now : ℤ) (db : Db) (username email passwordHash : Str) : UserRow :=
  { id := IdRule.maxId (db.users.rows.map UserRow.id) + 1
    username := username, email := email, passwordHash := passwordHash
    createdAt := P.currentTimestamp now }

/-- `INSERT INTO users`, under the unique indexes on `username` and `email`. -/
def Db.insertUser (P : Platform) (now : ℤ) (db : Db) (username email passwordHash : Str) :
    Except Exc (Db × UserRow) :=
  let user := newUser P now db username email passwordHash
  if username ∈ db.users.rows.map UserRow.username ∨ email ∈ db.users.rows.map UserRow.email then
    .error .integrityError
  else match db.users.insert? user with
    | none => .error .integrityError
    | some users => .ok ({ db with users := users }, user)

namespace UserRepository

/-- `get_by_id`. -/
def getById (P : Platform) (db : Db) (userId : ℤ) : Except Exc (Option UserRow) :=
  if P.bindable userId then .ok (db.users.get? userId) else .error .overflow

/-- `get_by_email`: `lower(users.email) = email.strip().lower()`. -/
def getByEmail (P : Platform) (db : Db) (email : Str) : Option UserRow :=
  db.users.rows.find? fun u => P.sqlLower u.email = P.norm email

/-- `get_by_username`. -/
def getByUsername (db : Db) (username : Str) : Option UserRow :=
  db.users.rows.find? fun u => u.username = username

/-- `refresh(user)`. -/
def refresh (db : Db) (id : ℤ) : Except Exc UserRow :=
  match db.users.get? id with
  | none => .error .invalidRequest
  | some user => .ok user

/-- `add`: commit, then refresh. -/
def add (P : Platform) (now : ℤ) (db : Db) (username email passwordHash : Str) :
    Except Exc (Db × UserRow) := do
  let (db, user) ← db.insertUser P now username email passwordHash
  let user ← refresh db user.id
  .ok (db, user)

/-- **A lookup by e-mail address finds the address**, where the stored ones are normalized. -/
theorem getByEmail_eq_none {P : Platform} {db : Db}
    (hnorm : ∀ u ∈ db.users.rows, P.norm u.email = u.email) {email : Str} :
    getByEmail P db email = none ↔ P.norm email ∉ db.users.rows.map UserRow.email := by
  have hlower : ∀ u ∈ db.users.rows, P.sqlLower u.email = u.email := by
    intro u hu
    rw [← hnorm u hu, Platform.norm, P.sqlLower_lower]
  simp only [getByEmail, List.find?_eq_none, decide_eq_true_eq, List.mem_map, not_exists, not_and]
  exact forall₂_congr fun u hu => by rw [hlower u hu]

theorem getByUsername_eq_none {db : Db} {username : Str} :
    getByUsername db username = none ↔ username ∉ db.users.rows.map UserRow.username := by
  simp [getByUsername]

end UserRepository

namespace Db

variable {db : Db} {username email : Str}

/-- **A new name and a new address can be inserted**, as one more row. -/
theorem insertUser_ok (P : Platform) (now : ℤ) (passwordHash : Str)
    (hname : username ∉ db.users.rows.map UserRow.username)
    (hemail : email ∉ db.users.rows.map UserRow.email) :
    ∃ db', db.insertUser P now username email passwordHash
      = .ok (db', newUser P now db username email passwordHash) := by
  have hfresh : ∀ u ∈ db.users.rows, u.id ≠ (newUser P now db username email passwordHash).id := by
    intro u hu
    have hle := IdRule.le_maxId (List.mem_map_of_mem (f := UserRow.id) hu)
    simp only [newUser]
    omega
  obtain ⟨users, hins⟩ := Table.insert?_of_fresh hfresh
  exact ⟨{ db with users := users }, by rw [insertUser, if_neg (by tauto), hins]⟩

/-- **An account insert adds one row to `users`**, and keeps the constraints. -/
theorem insertUser_spec {P : Platform} {now : ℤ} {passwordHash : Str} (I : db.Integrity) {db' : Db}
    {user : UserRow} (h : db.insertUser P now username email passwordHash = .ok (db', user)) :
    db'.Integrity ∧ user = newUser P now db username email passwordHash ∧
      db'.users.rows = db.users.rows ++ [user] := by
  rw [insertUser] at h
  split_ifs at h with htaken
  rcases hins : db.users.insert? (newUser P now db username email passwordHash) with _ | users
  · rw [hins] at h
    cases h
  rw [hins] at h
  cases h
  obtain ⟨hname, hemail⟩ := not_or.mp htaken
  have hrows := Table.rows_of_insert? hins
  refine ⟨{ I with username := ?_, email := ?_, owner := ?_ }, rfl, hrows⟩
  · simp only [hrows, List.map_append, List.map_singleton]
    exact I.username.append (List.nodup_singleton _) (by simpa [newUser] using hname)
  · simp only [hrows, List.map_append, List.map_singleton]
    exact I.email.append (List.nodup_singleton _) (by simpa [newUser] using hemail)
  · intro b hb
    obtain ⟨u, hu, hid⟩ := I.owner b hb
    exact ⟨u, by simp [hrows, hu], hid⟩

end Db

/-- **A free name and a free address are added**, as the row of a new account. -/
theorem UserRepository.add_eq (P : Platform) {db : Db} {username email : Str} (now : ℤ)
    (passwordHash : Str) (hname : username ∉ db.users.rows.map UserRow.username)
    (hemail : email ∉ db.users.rows.map UserRow.email) :
    ∃ users, db.users.insert? (db.newUser P now username email passwordHash) = some users ∧
      add P now db username email passwordHash
        = .ok ({ db with users := users }, db.newUser P now username email passwordHash) := by
  obtain ⟨db', hinsert⟩ := Db.insertUser_ok P now passwordHash hname hemail
  have hadd : add P now db username email passwordHash
      = (refresh db' (db.newUser P now username email passwordHash).id).map (db', ·) := by
    rw [add, hinsert]
    rfl
  rw [Db.insertUser, if_neg (by tauto)] at hinsert
  rcases husers : db.users.insert? (db.newUser P now username email passwordHash) with _ | users
  · rw [husers] at hinsert
    cases hinsert
  · rw [husers] at hinsert
    cases hinsert
    refine ⟨users, rfl, ?_⟩
    rw [hadd, refresh, Table.get?_insert? husers, if_pos rfl]
    rfl
