import BookmarksApi.Orm

/-!
# Repositories/Tag — looking names up, and creating the missing ones
-/

namespace TagRepository

/-- The loop of `get_or_create`: `by_name` starts from the `SELECT` and gains every tag created. -/
def resolve (P : Platform) (s : Session) (byName : List TagRow) :
    List Str → Except Exc (Session × List TagRow)
  | [] => .ok (s, [])
  | name :: names =>
    match byName.find? fun t => t.name = name with
    | some tag => do
      let (s, result) ← resolve P s byName names
      .ok (s, tag :: result)
    | none => do
      let (s, tag) ← s.addTag P name
      let (s, result) ← resolve P s (tag :: byName) names
      .ok (s, tag :: result)

/-- `select(Tag).where(Tag.name.in_(names))`. -/
def «existing» (db : Db) (names : List Str) : List TagRow :=
  db.tags.rows.filter fun t => t.name ∈ names

/-- `get_or_create`. -/
def getOrCreate (P : Platform) (s : Session) (names : List Str) :
    Except Exc (Session × List TagRow) :=
  if names = [] then .ok (s, []) else resolve P s («existing» s.db names) names

end TagRepository
