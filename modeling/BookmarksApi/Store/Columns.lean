import BookmarksApi.Schemas.Validation
import BookmarksApi.Store.Frame

/-!
# Store/Columns — which accepted payloads fit their columns

PostgreSQL refuses a text that is longer than its column, and SQLite stores it.  A title and a
description are stored as they were checked, and a tag is checked in the form that is stored; a URL
is checked as it was received, and stored as it is serialized.
-/

variable {P : Platform}

/-- The lengths of the columns of `bookmarks`. -/
structure BookmarkRow.FitsColumns (row : BookmarkRow) : Prop where
  url : row.url.length ≤ 2083
  title : row.title.length ≤ 200
  description : ∀ d, row.description = some d → d.length ≤ 500

/-- Every text that is stored fits its column. -/
structure Db.FitsColumns (db : Db) : Prop where
  bookmarks : ∀ row ∈ db.bookmarks.rows, row.FitsColumns
  tags : ∀ t ∈ db.tags.rows, t.name.length ≤ 50

/-- Every entry's row fits. -/
def Entries.FitColumns (s : Entries) : Prop := ∀ i e, s i = some e → e.row.FitsColumns

theorem Db.fitColumns_view_iff {db : Db} :
    Entries.FitColumns db.view ↔ ∀ row ∈ db.bookmarks.rows, row.FitsColumns :=
  ⟨fun h row hrow => h row.id _ (mem_rows_iff.mp hrow), fun h _ e he => h e.row (mem_of_view he)⟩

/-- One entry more: it has to fit as well. -/
theorem Entries.fitColumns_update_iff {s : Entries} (h : s.FitColumns) {i : ℤ} {e : Entry} :
    Entries.FitColumns (Function.update s i (some e)) ↔ e.row.FitsColumns := by
  constructor
  · exact fun hfits => hfits i e (Function.update_self i _ s)
  · intro he j e' he'
    rw [Function.update_apply] at he'
    split_ifs at he'
    · exact Option.some.inj he' ▸ he
    · exact h j e' he'

/-- **A URL fits its column when its parts do, with what serializing adds.** -/
def HttpUrl.Fits (U : HttpUrl) (text : Str) : Prop :=
  ∀ u, U.parse text = some u → u.text.length + U.growth u ≤ 2083

theorem HttpUrl.fits_iff {U : HttpUrl} {text url : Str} (h : U.validate text = some url) :
    U.Fits text ↔ url.length ≤ 2083 := by
  rw [validate] at h
  split_ifs at h
  obtain ⟨u, hu, rfl⟩ := Option.map_eq_some_iff.mp h
  rw [Fits, U.length_serialize]
  simp [hu]

namespace Entry

variable {user now : ℤ}

/-- **A payload's entry fits when its URL does.** -/
theorem fitsColumns_ofPayload {fresh : ℤ} {payload : BookmarkCreate P} :
    (Entry.ofPayload now fresh user payload).row.FitsColumns ↔ payload.url.length ≤ 2083 :=
  ⟨fun h => h.url, fun h => ⟨h, payload.titleLength.2, payload.descriptionLength⟩⟩

/-- **So does a changed entry**, over one that did. -/
theorem fitsColumns_change {e : Entry} (he : e.row.FitsColumns) {payload : BookmarkUpdate P} :
    (e.change now (Routers.changesOf payload)).row.FitsColumns ↔
      ∀ url, payload.url.join = some url → url.length ≤ 2083 := by
  have hurl : (e.change now (Routers.changesOf payload)).row.url
      = payload.url.join.getD e.row.url := rfl
  constructor
  · intro h url hgiven
    have hfits := h.url
    rwa [hurl, hgiven] at hfits
  · intro h
    refine ⟨?_, ?_, ?_⟩
    · rw [hurl]
      rcases hgiven : payload.url.join with _ | url
      · exact he.url
      · exact h url hgiven
    · change (payload.title.join.getD e.row.title).length ≤ 200
      rcases hgiven : payload.title.join with _ | title
      · exact he.title
      · exact (payload.titleLength title (Option.join_eq_some_iff.mp hgiven)).2
    · intro d hd
      change payload.description.getD e.row.description = some d at hd
      rcases hgiven : payload.description with _ | description
      · rw [hgiven] at hd
        exact he.description d hd
      · rw [hgiven] at hd
        exact payload.descriptionLength d (hgiven.trans (congrArg some hd))

end Entry

/-- **What a success stores fits when the URL it stores does.** -/
theorem Entries.Outcome.fitColumns_iff {s : Entries} (hs : s.FitColumns) {fresh user now : ℤ}
    {c : Crud P} {outcome : Response Body × Entries} (h : s.Outcome fresh user now c outcome)
    (hok : outcome.1.body.isLeft = true) :
    outcome.2.FitColumns ↔ ∀ url, c.url = some url → url.length ≤ 2083 := by
  cases h with
  | unread hc hx =>
    rw [Response.isLeft_ofExc] at hok
    cases hok
  | refused hc he hx =>
    rw [Response.isLeft_ofExc] at hok
    cases hok
  | created payload =>
    rw [Entries.fitColumns_update_iff hs, Entry.fitsColumns_ofPayload]
    simp [Crud.url]
  | got he => exact iff_of_true hs (by simp [Crud.url])
  | @updated i e payload ifMatch he hx =>
    rw [Entries.fitColumns_update_iff hs,
      Entry.fitsColumns_change (hs i e (Entries.owned_eq_some.mp he).1)]
    rfl
  | @deleted i e ifMatch he hx =>
    refine iff_of_true (fun j e' he' => ?_) (by simp [Crud.url])
    simp only [Function.update_apply] at he'
    split_ifs at he'
    exact hs j e' he'

namespace Routers

variable {db : Db} {U : HttpUrl}

/-- **Tag names fit**: a new one is as `normalize_tags` left it. -/
theorem tags_fit_respond {call : Call (Crud P)} (htags : ∀ t ∈ db.tags.rows, t.name.length ≤ 50) :
    ∀ t ∈ (respondCrud db call).2.tags.rows, t.name.length ≤ 50 := by
  intro t ht
  rcases tagsFrom_respondCrud db call t ht with ht | hname
  · exact htags t ht
  · rcases hnames : call.request.names with _ | names
    · rw [hnames] at hname
      cases hname
    · rw [hnames] at hname
      exact (Crud.normalized_names hnames).short t.name hname

/-- **When an accepted payload fits its columns**: when the parts of its URL do, with what
serializing adds to them. -/
theorem accepted_payload_fits_iff (I : db.Integrity) (hfits : db.FitsColumns) {raw : RawCrud}
    {c : Crud P} (haccept : raw.validate P U = some c) {user now : ℤ}
    (hok : (respondCrud db ⟨user, now, c⟩).1.body.isLeft = true) :
    (respondCrud db ⟨user, now, c⟩).2.FitsColumns ↔ ∀ text, raw.url = some text → U.Fits text := by
  have hu : db.Registered user := by
    by_contra hu
    rw [respondCrud, respond_unregistered hu, Response.isLeft_ofExc] at hok
    cases hok
  obtain ⟨hresponse, hview, -, -⟩ := respond_refines I ⟨user, now, c⟩ hu
  have houtcome := Entries.respond_outcome db.view (db.nextId P) user now c
  rw [hresponse] at hok
  have hentries := houtcome.fitColumns_iff (Db.fitColumns_view_iff.mpr hfits.bookmarks) hok
  rw [← hview, Db.fitColumns_view_iff] at hentries
  have hurls : (∀ url, c.url = some url → url.length ≤ 2083) ↔
      ∀ text, raw.url = some text → U.Fits text := by
    have hstored := RawCrud.url_of_validate haccept
    rcases hraw : raw.url with _ | text <;> rcases hurl : c.url with _ | url <;>
      rw [hraw, hurl] at hstored
    · simp
    · cases hstored
    · cases hstored
    · simp [HttpUrl.fits_iff (Option.some.inj hstored)]
  rw [← hurls, ← hentries]
  exact ⟨fun h => h.bookmarks, fun h => ⟨h, tags_fit_respond hfits.tags⟩⟩

end Routers

/-! ## Plain texts -/

namespace HttpUrl

/-- The parts of a text over https, with a host of lower-case letters, digits, dots and hyphens. -/
def parsePlain (text : Str) : Option UrlParts :=
  let isHost := fun c : Char => c.isLower || c.isDigit || c == '.' || c == '-'
  let host := (text.drop 8).takeWhile isHost
  let rest := (text.drop 8).dropWhile isHost
  let path := rest.takeWhile fun c => c != '?' && c != '#'
  let rest := rest.drop path.length
  let query := rest.takeWhile (· != '#')
  if "https://".toList.isPrefixOf text && !host.isEmpty && (path.isEmpty || path.head? == some '/')
  then some ⟨"https://".toList ++ host, path, query, rest.drop query.length⟩
  else none

/-- The characters that a part may not hold. -/
def encodesPlain (part : UrlPart) (c : Char) : Bool :=
  c.toNat ≤ 32 || 127 ≤ c.toNat || c ∈ ['"', '<', '>'] ||
    match part with
    | .path => c ∈ ['#', '?', Char.ofNat 96, '\x7b', '\x7d']
    | .query => c ∈ ['#', Char.ofNat 39]
    | .fragment => c == Char.ofNat 96

theorem encodesPlain_nonAscii (part : UrlPart) (c : Char) (h : 128 ≤ c.toNat) :
    encodesPlain part c = true := by
  have h127 : 127 ≤ c.toNat := by omega
  simp [encodesPlain, h127]

theorem encodesPlain_space : ∀ part, encodesPlain part ' ' = true := by
  rintro (_ | _ | _) <;> decide

/-- `HttpUrl` on plain texts. -/
def plain : HttpUrl where
  parse := parsePlain
  encodes := encodesPlain
  encodes_space := encodesPlain_space
  encodes_nonAscii := encodesPlain_nonAscii

end HttpUrl

namespace Routers

/-- A body with a URL of a path of one letter, some number of times. -/
def rawPath (c : Char) (n : ℕ) : RawCrud :=
  .create ⟨"https://example.com/".toList ++ List.replicate n c, ['a'], none, []⟩

theorem fitsColumns_twoAccounts : Db.twoAccounts.FitsColumns := by
  constructor <;> simp [Db.twoAccounts, Db.accounts, Table.empty]

/-- A path of plain letters. -/
theorem accepted_payload_fits_iff_plain :
    ∃ c, (rawPath 'e' 344).validate .sqlite .plain = some c ∧
      ((respondCrud Db.twoAccounts ⟨1, 0, c⟩).2.FitsColumns ↔
        ∀ text, (rawPath 'e' 344).url = some text → HttpUrl.plain.Fits text) := by
  have h : ((rawPath 'e' 344).validate .sqlite .plain).any fun c =>
      (respondCrud Db.twoAccounts ⟨1, 0, c⟩).1.body.isLeft := by decide +kernel
  obtain ⟨c, hc, hok⟩ := (Option.any_eq_true _ _).mp h
  exact ⟨c, hc, accepted_payload_fits_iff Db.integrity_twoAccounts fitsColumns_twoAccounts hc hok⟩

/-- **A path of accented letters**: 364 characters are received, and 2084 are stored. -/
theorem accepted_payload_not_fits :
    ∃ c, (rawPath 'é' 344).validate .sqlite .plain = some c ∧
      (respondCrud Db.twoAccounts ⟨1, 0, c⟩).1.body.isLeft = true ∧
      ¬ (respondCrud Db.twoAccounts ⟨1, 0, c⟩).2.FitsColumns := by
  have h : ((rawPath 'é' 344).validate .sqlite .plain).any fun c =>
      (respondCrud Db.twoAccounts ⟨1, 0, c⟩).1.body.isLeft &&
        (respondCrud Db.twoAccounts ⟨1, 0, c⟩).2.bookmarks.rows.any fun row =>
          decide (2083 < row.url.length) := by decide +kernel
  obtain ⟨c, hc, h⟩ := (Option.any_eq_true _ _).mp h
  obtain ⟨hok, hlong⟩ := Bool.and_eq_true_iff.mp h
  obtain ⟨row, hrow, hlong⟩ := List.any_eq_true.mp hlong
  exact ⟨c, hc, hok, fun hfits => absurd (hfits.bookmarks row hrow).url
    (not_le.mpr (of_decide_eq_true hlong))⟩

end Routers
