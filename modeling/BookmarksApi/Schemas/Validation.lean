import BookmarksApi.Routers.Bookmarks
import BookmarksApi.Schemas.HttpUrl

/-!
# Schemas/Validation — from a request body to a payload

What `BookmarkCreate` and `BookmarkUpdate` check of a body whose fields have the right types, and
what they make of it: the URL is parsed, the tags are normalized, the rest stays as it is.
-/

/-- The body of a create. -/
structure RawCreate where
  url : Str
  title : Str
  description : Option Str
  tags : List Str
  deriving DecidableEq, Repr

/-- The body of an update: a field's outer `Option` is its presence, the inner one is `null`. -/
structure RawUpdate where
  url : Option (Option Str)
  title : Option (Option Str)
  description : Option (Option Str)
  tags : Option (Option (List Str))
  deriving DecidableEq, Repr

/-- `min_length=1, max_length=200`. -/
def titleOk (title : Str) : Bool := 1 ≤ title.length && title.length ≤ 200

/-- `max_length=500`. -/
def descriptionOk (description : Str) : Bool := description.length ≤ 500

theorem titleOk_iff {title : Str} :
    titleOk title = true ↔ 1 ≤ title.length ∧ title.length ≤ 200 := by
  simp [titleOk]

theorem descriptionOk_iff {description : Str} :
    descriptionOk description = true ↔ description.length ≤ 500 := decide_eq_true_iff

/-- What is checked of a field holds of its value, if it has one. -/
theorem of_all {α : Type*} {p : α → Bool} {o : Option α} (h : o.all p = true) {a : α}
    (ha : o = some a) : p a = true := by
  rwa [ha, Option.all_some] at h

variable {P : Platform}

/-- `normalize_tags`, when it does not raise. -/
def normalizedTags (P : Platform) (raw : List Str) : Option (List Str) :=
  match normalizeTags P raw with
  | .ok tags => some tags
  | .error _ => none

theorem normalizeTags_eq_ok {raw tags : List Str} :
    normalizedTags P raw = some tags ↔ normalizeTags P raw = .ok tags := by
  rw [normalizedTags]
  rcases normalizeTags P raw with x | tags' <;> simp

/-- `BookmarkCreate.model_validate`. -/
def RawCreate.validate (P : Platform) (U : HttpUrl) (raw : RawCreate) :
    Option (BookmarkCreate P) :=
  match U.validate raw.url, h : normalizedTags P raw.tags with
  | some url, some tags =>
    if htitle : titleOk raw.title = true then
      if hdescription : raw.description.all descriptionOk = true then
        some
          { url := url, title := raw.title, description := raw.description, tags := tags
            titleLength := titleOk_iff.mp htitle
            descriptionLength := fun _ hd => descriptionOk_iff.mp (of_all hdescription hd)
            tagsNormalized := ⟨raw.tags, normalizeTags_eq_ok.mp h⟩ }
      else none
    else none
  | _, _ => none

/-- A field that is checked when it is there and not null. -/
def validateField {α β : Type*} (check : α → Option β) :
    Option (Option α) → Option (Option (Option β))
  | none => some none
  | some none => some (some none)
  | some (some a) => (check a).map fun b => some (some b)

theorem exists_of_validateField {α β : Type*} {check : α → Option β} {x : Option (Option α)}
    {y : Option (Option β)} (h : validateField check x = some y) {b : β} (hy : y = some (some b)) :
    ∃ a, x = some (some a) ∧ check a = some b := by
  subst hy
  rcases x with _ | _ | a
  · cases h
  · cases h
  · obtain ⟨b', hb, h⟩ := Option.map_eq_some_iff.mp h
    cases h
    exact ⟨a, rfl, hb⟩

theorem exists_normalizeTags {x : Option (Option (List Str))} {y : Option (Option (List Str))}
    (h : validateField (normalizedTags P) x = some y) {tags : List Str}
    (hy : y = some (some tags)) : ∃ raw, normalizeTags P raw = .ok tags := by
  obtain ⟨raw, -, hraw⟩ := exists_of_validateField h hy
  exact ⟨raw, normalizeTags_eq_ok.mp hraw⟩

/-- `BookmarkUpdate.model_validate`. -/
def RawUpdate.validate (P : Platform) (U : HttpUrl) (raw : RawUpdate) :
    Option (BookmarkUpdate P) :=
  match validateField U.validate raw.url,
    h : validateField (normalizedTags P) raw.tags with
  | some url, some tags =>
    if htitle : raw.title.join.all titleOk = true then
      if hdescription : raw.description.join.all descriptionOk = true then
        some
          { url := url, title := raw.title, description := raw.description, tags := tags
            titleLength := fun _ ht => titleOk_iff.mp (of_all htitle (congrArg Option.join ht))
            descriptionLength := fun _ hd =>
              descriptionOk_iff.mp (of_all hdescription (congrArg Option.join hd))
            tagsNormalized := fun _ hts => exists_normalizeTags h hts }
      else none
    else none
  | _, _ => none

/-- What a create's payload is made of. -/
theorem RawCreate.url_of_validate {U : HttpUrl} {raw : RawCreate} {payload : BookmarkCreate P}
    (h : raw.validate P U = some payload) : U.validate raw.url = some payload.url := by
  rw [validate] at h
  split at h
  · next url tags hurl htags =>
    split_ifs at h
    cases h
    exact hurl
  · cases h

/-- What an update's payload is made of. -/
theorem RawUpdate.url_of_validate {U : HttpUrl} {raw : RawUpdate} {payload : BookmarkUpdate P}
    (h : raw.validate P U = some payload) :
    validateField U.validate raw.url = some payload.url := by
  rw [validate] at h
  split at h
  · next url tags hurl htags =>
    split_ifs at h
    cases h
    exact hurl
  · cases h

/-- A create or an update as it is received. -/
inductive RawCrud
  | create (raw : RawCreate)
  | update (bookmarkId : ℤ) (raw : RawUpdate) (ifMatch : Option Str)

/-- The request that validation lets through. -/
def RawCrud.validate (P : Platform) (U : HttpUrl) : RawCrud → Option (Crud P)
  | create raw => (raw.validate P U).map .create
  | update bookmarkId raw ifMatch =>
    (raw.validate P U).map fun payload => .update bookmarkId payload ifMatch

/-- The text of the URL, when one is given. -/
def RawCrud.url : RawCrud → Option Str
  | create raw => some raw.url
  | update _ raw _ => raw.url.join

/-- The URL a request stores, when it stores one. -/
def Crud.url : Crud P → Option Str
  | .create payload => some payload.url
  | .update _ payload _ => payload.url.join
  | _ => none

/-- **A URL is stored exactly when a text was given, and is what that text validates to.** -/
theorem RawCrud.url_of_validate {U : HttpUrl} {raw : RawCrud} {c : Crud P}
    (h : raw.validate P U = some c) : raw.url.map U.validate = c.url.map some := by
  cases raw with
  | create raw =>
    obtain ⟨payload, hpayload, rfl⟩ := Option.map_eq_some_iff.mp h
    exact congrArg some (RawCreate.url_of_validate hpayload)
  | update bookmarkId raw ifMatch =>
    obtain ⟨payload, hpayload, rfl⟩ := Option.map_eq_some_iff.mp h
    have hurl := RawUpdate.url_of_validate hpayload
    simp only [Crud.url, RawCrud.url]
    generalize raw.url = given at hurl
    rcases given with _ | _ | text
    · obtain hnone : none = payload.url := Option.some.inj hurl
      rw [← hnone]
      rfl
    · obtain hnull : some none = payload.url := Option.some.inj hurl
      rw [← hnull]
      rfl
    · obtain ⟨s, hs, hstored⟩ := Option.map_eq_some_iff.mp hurl
      rw [← hstored]
      exact congrArg some hs
