import BookmarksApi.Utils.IfMatch

/-!
# Utils/ETagLists — lists put together from minted tags

A client builds its `If-Match` from the tags it was given: minted tags, their weak forms, versions
it forgot to quote, gaps.  The scan reads each token of such a list alone
(`ListedToken.accepted_iff`), so only the strong tags decide (`matches_list_iff`).
-/

namespace IfMatch

/-- A decimal numeral that stands without quotes. -/
structure BareDecimal where
  text : Str
  numeric : ∀ c ∈ text, c.isDigit = true ∨ c = '-' ∨ c = '+' ∨ c = '.'

/-- A token of the list. -/
inductive ListedToken
  | minted (version : ℕ)
  | weak (version : ℕ)
  | bare (decimal : BareDecimal)
  | empty

/-- The token as the client writes it. -/
def ListedToken.text : ListedToken → Str
  | minted version => VersionETagService.makeEtag version
  | weak version => 'W' :: '/' :: VersionETagService.makeEtag version
  | bare decimal => decimal.text
  | empty => []

/-- A token with the blanks around it. -/
structure Listed where
  before : Str
  token : ListedToken
  after : Str
  ows_before : Ows before
  ows_after : Ows after

def Listed.text (l : Listed) : Str := l.before ++ l.token.text ++ l.after

/-- The header: the tokens, joined by commas. -/
def listText (list : List Listed) : Str := [','].intercalate (list.map Listed.text)

theorem etagc_of_mem_ofNat {version : ℕ} : ∀ c ∈ Str.ofNat version, etagc c = true := by
  intro c hc
  obtain ⟨hge, hle⟩ := Str.isDigit_bounds (Str.isDigit_of_mem_ofNat hc)
  simp only [etagc, Bool.or_eq_true, Bool.and_eq_true, decide_eq_true_eq]
  omega

/-- A version's tag, strong or weak. -/
def versionTag (weak : Bool) (version : ℕ) : EntityTag :=
  ⟨weak, Str.ofNat version, etagc_of_mem_ofNat⟩

theorem BareDecimal.notMem (decimal : BareDecimal) {c : Char} (hdigit : c.isDigit = false)
    (hsign : c ≠ '-' ∧ c ≠ '+' ∧ c ≠ '.') : c ∉ decimal.text := by
  intro hc
  rcases decimal.numeric c hc with h | h | h | h
  · rw [hdigit] at h
    cases h
  · exact hsign.1 h
  · exact hsign.2.1 h
  · exact hsign.2.2 h

namespace Listed

variable {version : ℕ}

/-- A version's tag, with blanks around it, is accepted for that version when it is strong. -/
theorem accepted_versionTag {u v : Str} (hu : Ows u) (hv : Ows v) (weak : Bool) (w : ℕ) :
    Accepted version (u ++ (versionTag weak w).text ++ v) ↔ weak = false ∧ w = version := by
  rw [Accepted, EntityTag.strip_text _ hu hv, or_iff_right (EntityTag.text_ne_star _),
    EntityTag.text_eq_makeEtag]
  exact and_congr_right fun _ => Str.ofNat_inj

/-- **The scan reads a token alone**: it accepts the strong tag of the version it looks for. -/
theorem accepted_iff (l : Listed) : Accepted version l.text ↔ l.token = .minted version := by
  obtain ⟨u, token, v, hu, hv⟩ := l
  cases token with
  | minted w =>
    rw [show Listed.text ⟨u, .minted w, v, hu, hv⟩ = u ++ (versionTag false w).text ++ v from rfl,
      accepted_versionTag hu hv]
    simp
  | weak w =>
    rw [show Listed.text ⟨u, .weak w, v, hu, hv⟩ = u ++ (versionTag true w).text ++ v from rfl,
      accepted_versionTag hu hv]
    simp
  | bare decimal =>
    refine iff_of_false (not_accepted ?_ ?_) nofun
    · simp [text, ListedToken.text, hu.notMem (c := '"') rfl, hv.notMem (c := '"') rfl,
        decimal.notMem (c := '"') rfl (by decide)]
    · simp [text, ListedToken.text, hu.notMem (c := '*') rfl, hv.notMem (c := '*') rfl,
        decimal.notMem (c := '*') rfl (by decide)]
  | empty =>
    refine iff_of_false (not_accepted ?_ ?_) nofun
    · simp [text, ListedToken.text, hu.notMem (c := '"') rfl, hv.notMem (c := '"') rfl]
    · simp [text, ListedToken.text, hu.notMem (c := '*') rfl, hv.notMem (c := '*') rfl]

/-- No token has a comma. -/
theorem comma_notMem (l : Listed) : ',' ∉ l.text := by
  obtain ⟨u, token, v, hu, hv⟩ := l
  have htoken : ',' ∉ token.text := by
    cases token with
    | minted w => simp [ListedToken.text, VersionETagService.makeEtag,
        VersionETagService.comma_notMem_ofNat]
    | weak w => simp [ListedToken.text, VersionETagService.makeEtag,
        VersionETagService.comma_notMem_ofNat]
    | bare decimal => exact decimal.notMem rfl (by decide)
    | empty => simp [ListedToken.text]
  simp [text, htoken, hu.notMem (c := ',') rfl, hv.notMem (c := ',') rfl]

end Listed

/-- **Only the strong tags decide.** -/
theorem matches_list_iff (list : List Listed) (version : ℕ) :
    VersionETagService.matches (listText list) version = true ↔
      ∃ l ∈ list, l.token = .minted version := by
  rw [VersionETagService.matches_iff, listText]
  rcases List.eq_nil_or_concat list with rfl | hlist
  · refine iff_of_false ?_ (by simp)
    rintro ⟨p, hp, h⟩
    obtain rfl : p = [] := by simpa [Str.split] using hp
    exact not_accepted (by simp) (by simp) h
  · have hne : list.map Listed.text ≠ [] := by
      obtain ⟨init, last, rfl⟩ := hlist
      simp
    constructor
    · rintro ⟨p, hp, h⟩
      obtain ⟨s, hs, hps⟩ := (Str.mem_split_intercalate hne).mp hp
      obtain ⟨l, hl, rfl⟩ := List.mem_map.mp hs
      rw [Str.split_eq_singleton l.comma_notMem, List.mem_singleton] at hps
      subst hps
      exact ⟨l, hl, l.accepted_iff.mp h⟩
    · rintro ⟨l, hl, htoken⟩
      refine ⟨l.text, (Str.mem_split_intercalate hne).mpr ⟨_, List.mem_map_of_mem hl, ?_⟩,
        l.accepted_iff.mpr htoken⟩
      rw [Str.split_eq_singleton l.comma_notMem]
      exact List.mem_singleton_self _

/-- **Minted tags round-trip through any list**: the scan accepts the list exactly when the
version's own strong tag is in it, a tag alone exactly when it is the version's, and neither the
order nor weak, bare or empty tokens change the answer. -/
theorem minted_tags_round_trip (version : ℕ) :
    (∀ list, VersionETagService.matches (listText list) version = true ↔
      ∃ l ∈ list, l.token = .minted version) ∧
    (∀ v, VersionETagService.matches (VersionETagService.makeEtag v) version = true ↔
      v = version) ∧
    ∀ list added list' : List Listed, (∀ l ∈ added, ∀ v, l.token ≠ .minted v) →
      list'.Perm (list ++ added) →
      VersionETagService.matches (listText list') version =
        VersionETagService.matches (listText list) version := by
  refine ⟨fun list => matches_list_iff list version,
    fun v => VersionETagService.matches_makeEtag v version, ?_⟩
  intro list added list' hadded hperm
  have hmem : (∃ l ∈ list', l.token = .minted version) ↔ ∃ l ∈ list, l.token = .minted version := by
    simp only [hperm.mem_iff, List.mem_append]
    constructor
    · rintro ⟨l, hl | hl, htoken⟩
      · exact ⟨l, hl, htoken⟩
      · exact absurd htoken (hadded l hl version)
    · rintro ⟨l, hl, htoken⟩
      exact ⟨l, Or.inl hl, htoken⟩
  rw [Bool.eq_iff_iff, matches_list_iff, matches_list_iff, hmem]

theorem ows_nil : Ows [] := nofun

theorem ows_tab : Ows ['\t'] := by simp [Ows]

/-- The weak form of a tag, put before the tag. -/
theorem minted_tags_round_trip_weak :
    VersionETagService.matches "\tW/\"3\",\"3\"\t".toList 3 =
      VersionETagService.matches "\"3\"\t".toList 3 :=
  (minted_tags_round_trip 3).2.2 [⟨[], .minted 3, ['\t'], ows_nil, ows_tab⟩]
    [⟨['\t'], .weak 3, [], ows_tab, ows_nil⟩]
    [⟨['\t'], .weak 3, [], ows_tab, ows_nil⟩, ⟨[], .minted 3, ['\t'], ows_nil, ows_tab⟩]
    (by simp) (List.Perm.swap _ _ _)

end IfMatch
