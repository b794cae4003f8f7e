import BookmarksApi.Alembic.Versions

/-!
# Alembic/Downgrades — up and down the revisions

`alembic upgrade +1` and `alembic downgrade -1`, one after another, between `0001_initial` and head.
Three things are lost on the way, and nothing else (`migrateAll_eq_some`): going below `0002` drops
the versions, which come back as 1; every step but the first upgrade recreates `bookmarks` on
SQLite, and the links go with it; and elsewhere the step below `0003` is refused while a longer url
is stored.
-/

/-- The row without the column of `0002`. -/
def BookmarkRow.withoutVersion (r : BookmarkRow) : InitialBookmarkRow :=
  { id := r.id, url := r.url, title := r.title, description := r.description, userId := r.userId
    createdAt := r.createdAt, updatedAt := r.updatedAt }

theorem BookmarkRow.id_withoutVersion (r : BookmarkRow) : r.withoutVersion.id = r.id := rfl

theorem BookmarkRow.userId_withoutVersion (r : BookmarkRow) :
    r.withoutVersion.userId = r.userId := rfl

namespace Alembic

/-! ## Downgrades -/

/-- `downgrade` of `0003_url_len_and_index`: SQLite recreates the table, and checks no length; other
back ends alter the column, which is refused where a value does not fit. -/
def downgrade0003 (isSqlite : Bool) (c : Catalog BookmarkRow.id) :
    Option (Catalog BookmarkRow.id) :=
  if isSqlite then recreate (enableSqliteForeignKeys isSqlite) "bookmarks" c
  else (c.named "bookmarks").bind fun t =>
    if ∀ b ∈ t.rows, b.url.length ≤ 2048 then some c else none

/-- `downgrade` of `0002_bookmark_version`: SQLite recreates the table to drop the column. -/
def downgrade0002 (isSqlite : Bool) (c : Catalog BookmarkRow.id) :
    Option (Catalog InitialBookmarkRow.id) :=
  (if isSqlite then recreate (enableSqliteForeignKeys isSqlite) "bookmarks" c else some c).map
    fun c =>
      { users := c.users, tags := c.tags, bookmarkTags := c.bookmarkTags
        named := fun n => (c.named n).map fun t =>
          t.mapRows BookmarkRow.withoutVersion BookmarkRow.id_withoutVersion }

/-- The revisions that have tables. -/
inductive Revision
  /-- `0001_initial`. -/
  | initial
  /-- `0002_bookmark_version`. -/
  | bookmarkVersion
  /-- `0003_url_len_and_index`. -/
  | urlLen
  deriving DecidableEq, Repr

/-- `alembic upgrade +1` and `alembic downgrade -1`. -/
inductive Step
  | upgrade
  | downgrade
  deriving DecidableEq, Repr

/-- The tables at a revision. -/
inductive Migrated
  | initial (c : Catalog InitialBookmarkRow.id)
  | bookmarkVersion (c : Catalog BookmarkRow.id)
  | urlLen (c : Catalog BookmarkRow.id)

/-- One step: `none` where it fails, where head is the last revision, and where the `downgrade` of
`0001_initial` drops the tables. -/
def migrate (isSqlite : Bool) : Migrated → Step → Option Migrated
  | .initial c, .upgrade => some (.bookmarkVersion (upgrade0002 c))
  | .bookmarkVersion c, .upgrade => (upgrade0003 isSqlite c).map .urlLen
  | .urlLen c, .downgrade => (downgrade0003 isSqlite c).map .bookmarkVersion
  | .bookmarkVersion c, .downgrade => (downgrade0002 isSqlite c).map .initial
  | .urlLen _, .upgrade => none
  | .initial _, .downgrade => none

/-- Steps, one after another. -/
def migrateAll (isSqlite : Bool) (m : Migrated) (steps : List Step) : Option Migrated :=
  steps.foldlM (migrate isSqlite) m

/-! ## What a step does to the data -/

namespace Stored

section

variable {β γ : Type} {key owner : β → ℤ} {key' owner' : γ → ℤ}

/-- Contents are their four tables. -/
theorem ext {s t : Stored key owner} (husers : s.users = t.users) (htags : s.tags = t.tags)
    (hbookmarks : s.bookmarks = t.bookmarks) (hlinks : s.bookmarkTags = t.bookmarkTags) :
    s = t := by
  cases s
  cases t
  cases husers
  cases htags
  cases hbookmarks
  cases hlinks
  rfl

/-- The contents with other columns in `bookmarks`. -/
def mapBookmarks (s : Stored key owner) (f : β → γ) (hkey : ∀ b, key' (f b) = key b)
    (howner : ∀ b, owner' (f b) = owner b) : Stored key' owner' :=
  { s with
    bookmarks := s.bookmarks.mapRows f hkey
    ownerExists := by
      simpa [howner] using s.ownerExists
    bookmarkExists := by
      simpa [hkey] using s.bookmarkExists }

/-- The contents with no links. -/
def unlinked (s : Stored key owner) : Stored key owner :=
  { s with
    bookmarkTags := .empty
    bookmarkExists := fun _ hl => absurd hl List.not_mem_nil
    tagExists := fun _ hl => absurd hl List.not_mem_nil }

end

/-- The rows with their versions at the server default. -/
def atOne (s : Stored BookmarkRow.id BookmarkRow.userId) :
    Stored BookmarkRow.id BookmarkRow.userId :=
  s.mapBookmarks (fun b => { b with version := 1 }) (fun _ => rfl) fun _ => rfl

/-- The contents without the column of `0002`. -/
def withoutVersion (s : Stored BookmarkRow.id BookmarkRow.userId) :
    Stored InitialBookmarkRow.id InitialBookmarkRow.userId :=
  s.mapBookmarks BookmarkRow.withoutVersion BookmarkRow.id_withoutVersion
    BookmarkRow.userId_withoutVersion

end Stored

/-- A step from a revision. -/
abbrev Leg := Revision × Step

/-- The steps that recreate `bookmarks` on SQLite: all but the first upgrade. -/
def Leg.Recreates (leg : Leg) : Prop := leg ≠ (.initial, .upgrade)

/-- The steps from or to `0001_initial`, which has no versions. -/
def Leg.DropsVersion (leg : Leg) : Prop :=
  leg = (.initial, .upgrade) ∨ leg = (.bookmarkVersion, .downgrade)

instance (leg : Leg) : Decidable leg.Recreates := inferInstanceAs (Decidable (_ ≠ _))

instance (leg : Leg) : Decidable leg.DropsVersion := inferInstanceAs (Decidable (_ ∨ _))

/-- The step that narrows the urls. -/
def Leg.narrow : Leg := (.urlLen, .downgrade)

/-- **What is left after some steps.** -/
def Stored.after (isSqlite : Bool) (legs : List Leg)
    (s : Stored BookmarkRow.id BookmarkRow.userId) : Stored BookmarkRow.id BookmarkRow.userId :=
  let s := if isSqlite = true ∧ ∃ leg ∈ legs, leg.Recreates then s.unlinked else s
  if ∃ leg ∈ legs, leg.DropsVersion then s.atOne else s

/-- A database at a revision; at `0001_initial` its versions are not stored. -/
structure Database where
  revision : Revision
  data : Stored BookmarkRow.id BookmarkRow.userId

/-- Its tables. -/
def Database.tables (d : Database) : Migrated :=
  match d.revision with
  | .initial => .initial d.data.withoutVersion.catalog
  | .bookmarkVersion => .bookmarkVersion d.data.catalog
  | .urlLen => .urlLen d.data.catalog

/-- The revision a step leads to, of those with tables. -/
def Revision.next : Revision → Step → Option Revision
  | .initial, .upgrade => some .bookmarkVersion
  | .bookmarkVersion, .upgrade => some .urlLen
  | .urlLen, .downgrade => some .bookmarkVersion
  | .bookmarkVersion, .downgrade => some .initial
  | _, _ => none

/-- The steps with the revisions they start from, and where they end. -/
def Revision.walk : Revision → List Step → Option (List Leg × Revision)
  | r, [] => some ([], r)
  | r, step :: steps =>
    (r.next step).bind fun next => (next.walk steps).map fun w => ((r, step) :: w.1, w.2)

example : Revision.walk .urlLen [.downgrade, .downgrade, .upgrade]
    = some ([(.urlLen, .downgrade), (.bookmarkVersion, .downgrade), (.initial, .upgrade)],
      .bookmarkVersion) := by decide

/-- Every url is short enough for `0002`. -/
def Stored.FitsUrls (s : Stored BookmarkRow.id BookmarkRow.userId) : Prop :=
  ∀ b ∈ s.bookmarks.rows, b.url.length ≤ 2048

instance (s : Stored BookmarkRow.id BookmarkRow.userId) : Decidable s.FitsUrls :=
  inferInstanceAs (Decidable (∀ b ∈ s.bookmarks.rows, b.url.length ≤ 2048))

namespace Stored

variable {isSqlite : Bool} (s : Stored BookmarkRow.id BookmarkRow.userId)

/-- Dropping the column does not ask what was in it. -/
theorem withoutVersion_atOne : s.atOne.withoutVersion = s.withoutVersion :=
  ext rfl rfl (Table.ext List.map_map) rfl

theorem atOne_atOne : s.atOne.atOne = s.atOne := ext rfl rfl (Table.ext List.map_map) rfl

/-- **Steps after steps.** -/
theorem after_after (legs legs' : List Leg) :
    (s.after isSqlite legs).after isSqlite legs' = s.after isSqlite (legs ++ legs') := by
  have happend : ∀ p : Leg → Prop,
      (∃ leg ∈ legs ++ legs', p leg) ↔ (∃ leg ∈ legs, p leg) ∨ ∃ leg ∈ legs', p leg := by
    intro p
    simp only [List.mem_append, or_and_right, exists_or]
  have hatOne : s.unlinked.atOne.atOne = s.unlinked.atOne := s.unlinked.atOne_atOne
  have hcomm : ∀ t : Stored BookmarkRow.id BookmarkRow.userId,
      t.atOne.unlinked = t.unlinked.atOne := fun _ => rfl
  have htwice : s.unlinked.unlinked = s.unlinked := rfl
  simp only [after, happend]
  by_cases h₁ : ∃ leg ∈ legs, leg.Recreates <;> by_cases h₂ : ∃ leg ∈ legs', leg.Recreates <;>
    by_cases h₃ : ∃ leg ∈ legs, leg.DropsVersion <;>
      by_cases h₄ : ∃ leg ∈ legs', leg.DropsVersion <;>
        cases isSqlite <;> simp [h₁, h₂, h₃, h₄, hatOne, hcomm, htwice, s.atOne_atOne]

/-- The first upgrade recreates nothing. -/
theorem after_first (isSqlite : Bool) :
    s.after isSqlite [(.initial, .upgrade)] = s.atOne := by
  simp [after, Leg.Recreates, Leg.DropsVersion]

/-- **No step touches a url.** -/
theorem fitsUrls_after (legs : List Leg) : (s.after isSqlite legs).FitsUrls ↔ s.FitsUrls := by
  have hatOne : ∀ t : Stored BookmarkRow.id BookmarkRow.userId, t.atOne.FitsUrls ↔ t.FitsUrls :=
    fun t => List.forall_mem_map
  have hunlinked : s.unlinked.FitsUrls ↔ s.FitsUrls := Iff.rfl
  simp only [after]
  split_ifs <;> simp only [hatOne, hunlinked]

end Stored

section

variable {isSqlite : Bool}

/-- Reading the rows of a catalog in another shape. -/
theorem Stored.catalog_mapBookmarks {β γ : Type} {key owner : β → ℤ} {key' owner' : γ → ℤ}
    (s : Stored key owner) (f : β → γ) (hkey : ∀ b, key' (f b) = key b)
    (howner : ∀ b, owner' (f b) = owner b) :
    (s.mapBookmarks f hkey howner : Stored key' owner').catalog =
      { users := s.users, tags := s.tags, bookmarkTags := s.bookmarkTags
        named := fun n => (s.catalog.named n).map fun t => t.mapRows f hkey } := by
  rw [Stored.catalog]
  refine congrArg (Catalog.mk _ _ _) (funext fun n => ?_)
  simp only [Stored.catalog, mapBookmarks]
  split_ifs <;> rfl

/-- **Recreating `bookmarks` under foreign keys takes the links.** -/
theorem recreate_unlinked {β : Type} {key owner : β → ℤ} (s : Stored key owner) :
    recreate (enableSqliteForeignKeys true) "bookmarks" s.catalog = some s.unlinked.catalog := by
  rw [recreate_catalog]
  refine congrArg some ?_
  have hlinks : Catalog.cascade s.bookmarkTags s.bookmarks = Table.empty :=
    Table.ext (cascade_rows s)
  simp only [enableSqliteForeignKeys, if_true, hlinks]
  rfl

variable (s : Stored BookmarkRow.id BookmarkRow.userId)

/-- **The column comes back at its default.** -/
theorem upgrade0002_withoutVersion : upgrade0002 s.withoutVersion.catalog = s.atOne.catalog := by
  have hsame : (Content.initial s.withoutVersion).atVersion = s.atOne :=
    Stored.ext rfl rfl (Table.ext List.map_map) rfl
  rw [upgrade0002_catalog, hsame]

theorem upgrade0003_catalog :
    upgrade0003 isSqlite s.catalog
      = some (s.after isSqlite [(.bookmarkVersion, .upgrade)]).catalog := by
  rcases isSqlite with _ | _
  · rfl
  · rw [upgrade0003, if_pos rfl, recreate_unlinked]
    rfl

theorem downgrade0003_catalog :
    downgrade0003 isSqlite s.catalog =
      if isSqlite = false ∧ ¬ s.FitsUrls then none
      else some (s.after isSqlite [Leg.narrow]).catalog := by
  rcases isSqlite with _ | _
  · have hbookmarks : s.catalog.named "bookmarks" = some s.bookmarks := rfl
    by_cases hurls : ∀ b ∈ s.bookmarks.rows, b.url.length ≤ 2048
    · rw [downgrade0003, if_neg Bool.false_ne_true, hbookmarks, Option.bind_some, if_pos hurls,
        if_neg fun h => h.2 hurls]
      rfl
    · rw [downgrade0003, if_neg Bool.false_ne_true, hbookmarks, Option.bind_some, if_neg hurls,
        if_pos ⟨rfl, hurls⟩]
  · rw [downgrade0003, if_pos rfl, recreate_unlinked, if_neg fun h => Bool.noConfusion h.1]
    rfl

theorem downgrade0002_catalog :
    downgrade0002 isSqlite s.catalog
      = some (s.after isSqlite [(.bookmarkVersion, .downgrade)]).withoutVersion.catalog := by
  have hnamed : ∀ t : Stored BookmarkRow.id BookmarkRow.userId,
      downgrade0002 false t.catalog = some t.withoutVersion.catalog := by
    intro t
    rw [Stored.withoutVersion, Stored.catalog_mapBookmarks]
    rfl
  rcases isSqlite with _ | _
  · rw [hnamed, ← s.withoutVersion_atOne]
    rfl
  · have hstep : downgrade0002 true s.catalog = downgrade0002 false s.unlinked.catalog := by
      rw [downgrade0002, if_pos rfl, recreate_unlinked]
      rfl
    rw [hstep, hnamed, ← s.unlinked.withoutVersion_atOne]
    rfl

end

/-- A step that fails for a url. -/
def Database.Refuses (isSqlite : Bool) (d : Database) (step : Step) : Prop :=
  isSqlite = false ∧ (d.revision, step) = Leg.narrow ∧ ¬ d.data.FitsUrls

instance (isSqlite : Bool) (d : Database) (step : Step) : Decidable (d.Refuses isSqlite step) :=
  inferInstanceAs (Decidable (_ ∧ _ ∧ _))

/-- **One step**: where it leads, and what it leaves. -/
theorem migrate_tables (isSqlite : Bool) (d : Database) (step : Step) :
    migrate isSqlite d.tables step =
      if d.Refuses isSqlite step then none
      else (d.revision.next step).map fun r =>
        Database.tables ⟨r, d.data.after isSqlite [(d.revision, step)]⟩ := by
  obtain ⟨revision, s⟩ := d
  have hruns : ∀ {r : Revision} {step : Step}, (r, step) ≠ Leg.narrow →
      ¬ Database.Refuses isSqlite ⟨r, s⟩ step := fun hne h => hne h.2.1
  rcases revision with _ | _ | _ <;> rcases step with _ | _
  · rw [if_neg (hruns (by decide)), Database.tables, migrate, upgrade0002_withoutVersion,
      ← s.after_first isSqlite]
    rfl
  · rw [if_neg (hruns (by decide))]
    rfl
  · rw [if_neg (hruns (by decide)), Database.tables, migrate, upgrade0003_catalog]
    rfl
  · rw [if_neg (hruns (by decide)), Database.tables, migrate, downgrade0002_catalog]
    rfl
  · rw [if_neg (hruns (by decide))]
    rfl
  · rw [Database.tables, migrate, downgrade0003_catalog]
    by_cases hurls : isSqlite = false ∧ ¬ s.FitsUrls
    · rw [if_pos hurls, if_pos ⟨hurls.1, rfl, hurls.2⟩]
      rfl
    · rw [if_neg hurls, if_neg fun h => hurls ⟨h.1, h.2.2⟩]
      rfl

/-- **Any steps**: they run exactly when they stay among the revisions and no url is too long to be
narrowed, and this is what they leave. -/
theorem migrateAll_eq_some {isSqlite : Bool} {d : Database} {steps : List Step} {m : Migrated} :
    migrateAll isSqlite d.tables steps = some m ↔
      ∃ legs last, d.revision.walk steps = some (legs, last) ∧
        (isSqlite = false → Leg.narrow ∈ legs → d.data.FitsUrls) ∧
        m = Database.tables ⟨last, d.data.after isSqlite legs⟩ := by
  induction steps generalizing d with
  | nil =>
    have hsame : d.data.after isSqlite [] = d.data := by simp [Stored.after]
    constructor
    · intro h
      refine ⟨[], d.revision, rfl, fun _ hmem => absurd hmem List.not_mem_nil, ?_⟩
      rw [hsame]
      exact (Option.some.inj h).symm
    · rintro ⟨legs, last, hwalk, -, rfl⟩
      obtain ⟨rfl, rfl⟩ := Prod.ext_iff.mp (Option.some.inj hwalk)
      rw [hsame]
      rfl
  | cons step steps ih =>
    rw [migrateAll, List.foldlM_cons, migrate_tables]
    rcases hnext : d.revision.next step with _ | r
    · refine iff_of_false (fun h => ?_) ?_
      · split_ifs at h <;> cases h
      · rintro ⟨legs, last, hwalk, -⟩
        rw [Revision.walk, hnext] at hwalk
        cases hwalk
    have hwalk : d.revision.walk (step :: steps)
        = (r.walk steps).map fun w => ((d.revision, step) :: w.1, w.2) := by
      rw [Revision.walk, hnext]
      rfl
    by_cases hrefuses : d.Refuses isSqlite step
    · rw [if_pos hrefuses]
      refine iff_of_false (fun h => by cases h) ?_
      rintro ⟨legs, last, hlegs, hurls, -⟩
      rw [hwalk, Option.map_eq_some_iff] at hlegs
      obtain ⟨w, -, hw⟩ := hlegs
      obtain ⟨rfl, -⟩ := Prod.mk.inj hw
      obtain ⟨hsqlite, hnarrow, htoo⟩ := hrefuses
      exact htoo (hurls hsqlite (hnarrow ▸ List.mem_cons_self))
    · rw [if_neg hrefuses]
      change migrateAll isSqlite (Database.tables ⟨r, _⟩) steps = some m ↔ _
      rw [ih, hwalk]
      simp only [Option.map_eq_some_iff, Prod.mk.injEq]
      constructor
      · rintro ⟨legs, last, hlegs, hurls, rfl⟩
        refine ⟨_, last, ⟨(legs, last), hlegs, rfl, rfl⟩, fun hsqlite hmem => ?_, ?_⟩
        · rcases List.mem_cons.mp hmem with hfirst | hmem
          · by_contra htoo
            exact hrefuses ⟨hsqlite, hfirst.symm, htoo⟩
          · exact (d.data.fitsUrls_after _).mp (hurls hsqlite hmem)
        · rw [Stored.after_after]
          rfl
      · rintro ⟨_, last, ⟨⟨legs, _⟩, hlegs, rfl, rfl⟩, hurls, rfl⟩
        refine ⟨legs, _, hlegs, fun hsqlite hmem => ?_, ?_⟩
        · exact (d.data.fitsUrls_after _).mpr (hurls hsqlite (List.mem_cons_of_mem _ hmem))
        · rw [Stored.after_after]
          rfl

end Alembic
