import BookmarksApi.Text.Split
import BookmarksApi.Utils.ETag

/-!
# Utils/IfMatch — the header's grammar, and what the scan reads

RFC 7232 lets an entity tag's text hold commas and asterisks, and the scan splits at every comma,
quoted or not.  The pieces of a conforming header are whole entity tags, which are compared as the
grammar says (`EntityTag.strip_text`), or the shards of a tag with commas.  A shard with one quote
is never accepted; a shard with none is accepted when it is an asterisk (`matches_text_iff`).
-/

namespace Str

variable {c : Char}

/-- **Stripping removes whitespace only.** -/
theorem count_strip (hc : isSpace c = false) (s : Str) : (strip s).count c = s.count c := by
  have hzero : ∀ l : Str, (∀ d ∈ l, isSpace d = true) → l.count c = 0 := fun l hl =>
    List.count_eq_zero.mpr fun hmem => by simp [hl c hmem] at hc
  have hleft : ∀ l : Str, (l.dropWhile isSpace).count c = l.count c := fun l => by
    conv_rhs => rw [← List.takeWhile_append_dropWhile (p := isSpace) (l := l), List.count_append]
    rw [hzero _ fun d hd => List.mem_takeWhile_imp hd, Nat.zero_add]
  rw [strip, List.rdropWhile, List.count_reverse, hleft, List.count_reverse, hleft]

/-- Whitespace around a text that begins and ends otherwise is stripped. -/
theorem strip_padded {d : Char} (hc : isSpace c = false) (hd : isSpace d = false) {u v : Str}
    (hu : ∀ x ∈ u, isSpace x = true) (hv : ∀ x ∈ v, isSpace x = true) (s : Str) :
    strip (u ++ (c :: s ++ [d]) ++ v) = c :: s ++ [d] := by
  have hright : (c :: s ++ [d] ++ v).rdropWhile isSpace = c :: s ++ [d] := by
    rw [List.rdropWhile, List.reverse_append, List.dropWhile_append_of_pos (by simpa using hv),
      ← List.rdropWhile, List.rdropWhile_concat_neg isSpace _ _ (by simp [hd])]
  rw [strip, List.append_assoc, List.dropWhile_append_of_pos hu, List.cons_append,
    List.cons_append, List.dropWhile_cons_of_neg (by simp [hc]), ← List.cons_append,
    ← List.cons_append, hright]

end Str

namespace IfMatch

/-! ## The grammar -/

/-- `etagc`: a character of an entity tag's text. -/
def etagc (c : Char) : Bool :=
  let n := c.toNat
  n == 0x21 || (0x23 ≤ n && n ≤ 0x7E) || (0x80 ≤ n && n ≤ 0xFF)

/-- `OWS`: optional spaces and tabs. -/
def Ows (s : Str) : Prop := ∀ c ∈ s, c = ' ' ∨ c = '\t'

/-- `entity-tag`. -/
structure EntityTag where
  weak : Bool
  value : Str
  etagcs : ∀ c ∈ value, etagc c = true

/-- What stands before the tag's text. -/
def EntityTag.lead (tag : EntityTag) : Str := if tag.weak then ['W', '/', '"'] else ['"']

/-- `[W/]"value"`. -/
def EntityTag.text (tag : EntityTag) : Str := tag.lead ++ tag.value ++ ['"']

/-- An element of the list: an entity tag or nothing, with the blanks around it. -/
structure Element where
  before : Str
  tag : Option EntityTag
  after : Str
  ows_before : Ows before
  ows_after : Ows after

/-- An element's text. -/
def Element.text (e : Element) : Str := e.before ++ (e.tag.map EntityTag.text).getD [] ++ e.after

/-- A header value that conforms to the grammar. -/
inductive Header
  | star
  | list (elements : List Element) (named : ∃ e ∈ elements, e.tag ≠ none)

/-- The header value's text. -/
def Header.text : Header → Str
  | star => ['*']
  | list elements _ => [','].intercalate (elements.map Element.text)

/-- The element is the version's strong entity tag. -/
def Element.Names (e : Element) (version : ℕ) : Prop :=
  ∃ tag, e.tag = some tag ∧ tag.weak = false ∧ tag.value = Str.ofNat version

/-- **What the RFC accepts**: `*`, or a strong entity tag with the version's text. -/
def Header.Names : Header → ℕ → Prop
  | star, _ => True
  | list elements _, version => ∃ e ∈ elements, e.Names version

/-- Between two of its commas the element's entity tag has an asterisk, and blanks at most. -/
def Element.HidesStar (e : Element) : Prop :=
  ∃ tag a m b, e.tag = some tag ∧ tag.value = a ++ ',' :: m ++ ',' :: b ∧ Str.strip m = ['*']

/-- One of the entity tags does. -/
def Header.HidesStar : Header → Prop
  | star => False
  | list elements _ => ∃ e ∈ elements, e.HidesStar

/-! ## The scan -/

theorem isSpace_of_ows {s : Str} (h : Ows s) : ∀ c ∈ s, Str.isSpace c = true := by
  intro c hc
  rcases h c hc with rfl | rfl <;> rfl

theorem Ows.count_eq_zero {s : Str} (h : Ows s) {c : Char} (hc : Str.isSpace c = false) :
    s.count c = 0 :=
  List.count_eq_zero.mpr fun hmem => by simp [isSpace_of_ows h c hmem] at hc

/-- A piece the scan accepts is an asterisk without quotes, or a version's tag with two. -/
def Accepted (version : ℕ) (p : Str) : Prop :=
  Str.strip p = ['*'] ∨ Str.strip p = VersionETagService.makeEtag version

theorem quote_notMem_ofNat (version : ℕ) : '"' ∉ Str.ofNat version := fun h =>
  absurd (Str.isDigit_of_mem_ofNat h) (by decide)

theorem count_quote_of_accepted {version : ℕ} {p : Str} (h : Accepted version p) :
    p.count '"' = 0 ∧ Str.strip p = ['*'] ∨
      p.count '"' = 2 ∧ Str.strip p = VersionETagService.makeEtag version := by
  rw [← Str.count_strip (c := '"') rfl p]
  rcases h with h | h
  · exact Or.inl ⟨by rw [h]; rfl, h⟩
  · refine Or.inr ⟨?_, h⟩
    rw [h, VersionETagService.makeEtag]
    simp [List.count_eq_zero.mpr (quote_notMem_ofNat version)]

/-- A piece with neither a quote nor an asterisk is never accepted. -/
theorem not_accepted {version : ℕ} {p : Str} (hquote : '"' ∉ p) (hstar : '*' ∉ p) :
    ¬ Accepted version p := by
  intro h
  rcases count_quote_of_accepted h with ⟨-, hstrip⟩ | ⟨htwo, -⟩
  · refine hstar (List.count_pos_iff.mp ?_)
    rw [← Str.count_strip (c := '*') rfl, hstrip]
    decide
  · rw [List.count_eq_zero.mpr hquote] at htwo
    cases htwo

namespace EntityTag

variable (tag : EntityTag)

theorem count_quote_value {s : Str} (hs : s ⊆ tag.value) : s.count '"' = 0 :=
  List.count_eq_zero.mpr fun hmem => absurd (tag.etagcs _ (hs hmem)) (by decide)

theorem count_quote_lead : tag.lead.count '"' = 1 := by
  rw [lead]
  cases tag.weak <;> rfl

theorem comma_notMem_lead : ',' ∉ tag.lead := by
  rw [lead]
  cases tag.weak <;> decide

/-- A whole tag has nothing to strip but the blanks around it. -/
theorem strip_text {u v : Str} (hu : Ows u) (hv : Ows v) :
    Str.strip (u ++ tag.text ++ v) = tag.text := by
  rw [text, lead]
  cases tag.weak with
  | true =>
    exact Str.strip_padded (c := 'W') (d := '"') rfl rfl (isSpace_of_ows hu) (isSpace_of_ows hv)
      ('/' :: '"' :: tag.value)
  | false =>
    exact Str.strip_padded (c := '"') (d := '"') rfl rfl (isSpace_of_ows hu) (isSpace_of_ows hv)
      tag.value

theorem text_ne_star : tag.text ≠ ['*'] := by
  rw [text, lead]
  cases tag.weak <;> simp

/-- **A tag reads as a version's tag when it is strong and has the version's text.** -/
theorem text_eq_makeEtag {version : ℕ} : tag.text = VersionETagService.makeEtag version ↔
    tag.weak = false ∧ tag.value = Str.ofNat version := by
  rw [text, lead, VersionETagService.makeEtag]
  cases tag.weak <;> simp

end EntityTag

theorem Ows.notMem {s : Str} (h : Ows s) {c : Char} (hc : Str.isSpace c = false) : c ∉ s :=
  List.count_eq_zero.mp (h.count_eq_zero hc)

namespace Element

/-- Blanks alone are never accepted. -/
theorem not_accepted_blank {version : ℕ} {s p : Str} (hs : Ows s) (hp : p ∈ Str.split ',' s) :
    ¬ Accepted version p := by
  rw [Str.split_eq_singleton (hs.notMem rfl), List.mem_singleton] at hp
  subst hp
  exact not_accepted (hs.notMem rfl) (hs.notMem rfl)

/-- **What the scan accepts of an entity tag** is the whole tag, when it is the version's, or a
stretch between two of its commas, when it strips to an asterisk. -/
theorem accepted_of_tag {tag : EntityTag} {u v p : Str} {version : ℕ} (hu : Ows u) (hv : Ows v)
    (hp : p ∈ Str.split ',' (u ++ tag.text ++ v)) (h : Accepted version p) :
    (tag.weak = false ∧ tag.value = Str.ofNat version) ∨
      ∃ a b, tag.value = a ++ ',' :: p ++ ',' :: b ∧ Str.strip p = ['*'] := by
  have htext : u ++ tag.text ++ v = (u ++ tag.lead) ++ tag.value ++ '"' :: v := by
    simp [EntityTag.text]
  have hlead : (u ++ tag.lead).count '"' = 1 := by
    rw [List.count_append, hu.count_eq_zero rfl, tag.count_quote_lead]
  have hclose : ('"' :: v).count '"' = 1 := by
    rw [List.count_cons_self, hv.count_eq_zero rfl]
  have hcut : Str.Cut ',' (u ++ tag.lead) tag.value ('"' :: v) p := by
    rw [htext] at hp
    refine Str.cut_of_mem_split ?_ ?_ hp
    · simp [hu.notMem (c := ',') rfl, tag.comma_notMem_lead]
    · simp [hv.notMem (c := ',') rfl]
  cases hcut with
  | whole _ =>
    rw [← htext] at h
    rcases h with hstar | hversion
    · rw [tag.strip_text hu hv] at hstar
      exact absurd hstar tag.text_ne_star
    · rw [tag.strip_text hu hv] at hversion
      exact Or.inl (tag.text_eq_makeEtag.mp hversion)
  | @start t r hvalue _ =>
    -- One quote: neither an asterisk nor a version's tag.
    have hcount : (u ++ tag.lead ++ t).count '"' = 1 := by
      rw [List.count_append, hlead, tag.count_quote_value (by simp [hvalue])]
    rcases count_quote_of_accepted h with ⟨hzero, -⟩ | ⟨htwo, -⟩ <;> omega
  | @stop r t hvalue _ =>
    have hcount : (t ++ '"' :: v).count '"' = 1 := by
      rw [List.count_append, hclose, tag.count_quote_value (by simp [hvalue])]
    rcases count_quote_of_accepted h with ⟨hzero, -⟩ | ⟨htwo, -⟩ <;> omega
  | @between a _ b hvalue _ =>
    have hcount : p.count '"' = 0 := tag.count_quote_value fun c hc => by simp [hvalue, hc]
    rcases count_quote_of_accepted h with ⟨-, hstar⟩ | ⟨htwo, -⟩
    · exact Or.inr ⟨a, b, hvalue, hstar⟩
    · omega

/-- **One element of the list**: the scan accepts one of its pieces when it is the version's tag, or
hides an asterisk. -/
theorem accepted_iff (e : Element) (version : ℕ) :
    (∃ p ∈ Str.split ',' e.text, Accepted version p) ↔ e.Names version ∨ e.HidesStar := by
  obtain ⟨u, tag?, v, hu, hv⟩ := e
  constructor
  · rintro ⟨p, hp, h⟩
    cases tag? with
    | none =>
      have hblank : Ows (u ++ [] ++ v) := by
        intro c hc
        rw [List.append_nil, List.mem_append] at hc
        exact hc.elim (hu c) (hv c)
      exact absurd h (not_accepted_blank hblank hp)
    | some tag =>
      rcases accepted_of_tag hu hv hp h with ⟨hweak, hvalue⟩ | ⟨a, b, hvalue, hstar⟩
      · exact Or.inl ⟨tag, rfl, hweak, hvalue⟩
      · exact Or.inr ⟨tag, a, p, b, rfl, hvalue, hstar⟩
  · rintro (⟨tag, rfl, hweak, hvalue⟩ | ⟨tag, a, m, b, rfl, hvalue, hstar⟩)
    · have hcomma : ',' ∉ u ++ tag.text ++ v := by
        simp [EntityTag.text, hu.notMem (c := ',') rfl, hv.notMem (c := ',') rfl,
          tag.comma_notMem_lead, hvalue, VersionETagService.comma_notMem_ofNat]
      refine ⟨u ++ tag.text ++ v, ?_, Or.inr ?_⟩
      · rw [text, Option.map_some, Option.getD_some, Str.split_eq_singleton hcomma]
        exact List.mem_singleton_self _
      · exact (tag.strip_text hu hv).trans (tag.text_eq_makeEtag.mpr ⟨hweak, hvalue⟩)
    · have hcomma : ',' ∉ m := by
        rw [← List.count_eq_zero, ← Str.count_strip rfl, hstar]
        rfl
      have htext : u ++ tag.text ++ v
          = (u ++ tag.lead ++ a) ++ ',' :: m ++ ',' :: (b ++ '"' :: v) := by
        simp [EntityTag.text, hvalue]
      refine ⟨m, ?_, Or.inl hstar⟩
      rw [text, Option.map_some, Option.getD_some, htext]
      exact Str.mem_split_of_between hcomma _ _

end Element

/-! ## The header -/

/-- **What the scan accepts of a conforming header.** -/
theorem matches_text_iff (header : Header) (version : ℕ) :
    VersionETagService.matches header.text version = true ↔
      header.Names version ∨ header.HidesStar := by
  cases header with
  | star =>
    exact iff_of_true (VersionETagService.matches_iff.mpr ⟨['*'], by decide, Or.inl rfl⟩)
      (Or.inl trivial)
  | list elements named =>
    obtain ⟨e, he, -⟩ := named
    have hne : elements.map Element.text ≠ [] := by
      rw [ne_eq, List.map_eq_nil_iff]
      rintro rfl
      cases he
    rw [VersionETagService.matches_iff, Header.text]
    simp only [Str.mem_split_intercalate hne, Header.Names, Header.HidesStar]
    constructor
    · rintro ⟨p, ⟨s, hs, hp⟩, h⟩
      obtain ⟨e, he, rfl⟩ := List.mem_map.mp hs
      rcases (e.accepted_iff version).mp ⟨p, hp, h⟩ with hnames | hhides
      · exact Or.inl ⟨e, he, hnames⟩
      · exact Or.inr ⟨e, he, hhides⟩
    · intro h
      obtain ⟨e, he, h⟩ : ∃ e ∈ elements, e.Names version ∨ e.HidesStar := by
        rcases h with ⟨e, he, h⟩ | ⟨e, he, h⟩
        · exact ⟨e, he, Or.inl h⟩
        · exact ⟨e, he, Or.inr h⟩
      obtain ⟨p, hp, h⟩ := (e.accepted_iff version).mpr h
      exact ⟨p, ⟨_, List.mem_map_of_mem he, hp⟩, h⟩

/-- **When `If-Match` follows RFC 7232**: the scan accepts a conforming header exactly when the RFC
does, if and only if no entity tag hides an asterisk between two of its commas, or the RFC accepts
the header anyway. -/
theorem if_match_iff (header : Header) (version : ℕ) :
    (VersionETagService.matches header.text version = true ↔ header.Names version) ↔
      (header.HidesStar → header.Names version) := by
  rw [matches_text_iff, or_iff_left_iff_imp]

/-- The header `"a,*,b"`: one strong entity tag. -/
def hiddenStar : Header :=
  .list [⟨[], some ⟨false, "a,*,b".toList, List.all_eq_true.mp (by decide)⟩, [], by simp [Ows],
      by simp [Ows]⟩]
    ⟨_, List.mem_singleton_self _, Option.some_ne_none _⟩

/-- **An entity tag no version has is accepted for every version.** -/
theorem matches_hiddenStar :
    hiddenStar.text = "\"a,*,b\"".toList ∧
      ∀ version, VersionETagService.matches hiddenStar.text version = true ∧
        ¬ hiddenStar.Names version := by
  refine ⟨rfl, fun version => ⟨(matches_text_iff _ _).mpr (Or.inr ?_), ?_⟩⟩
  · exact ⟨_, List.mem_singleton_self _, _, ['a'], ['*'], ['b'], rfl, rfl, rfl⟩
  · rintro ⟨e, he, tag, htag, -, hvalue⟩
    obtain rfl := List.mem_singleton.mp he
    obtain rfl := Option.some.inj htag
    have hcomma : ',' ∉ Str.ofNat version := VersionETagService.comma_notMem_ofNat version
    rw [← hvalue] at hcomma
    exact hcomma (by decide)

end IfMatch
