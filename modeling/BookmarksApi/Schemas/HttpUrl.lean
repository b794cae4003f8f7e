import BookmarksApi.Text

/-!
# Schemas/HttpUrl — the text of a URL, and what is stored for it

`HttpUrl` bounds the text it is given; what the router stores is `str(url)`, the serialization of
what was parsed.  A missing path becomes `/`, and each byte of a character that a part may not hold
is written as `%` and two digits.  So what is stored is longer than the text by what that adds
(`length_serialize`).
-/

/-! ## Percent-encoding -/

/-- An upper-case hexadecimal digit. -/
def hexDigit (n : ℕ) : Char := if n < 10 then Char.ofNat (48 + n) else Char.ofNat (55 + n)

/-- A byte as `%` and two digits. -/
def percentByte (b : UInt8) : Str := ['%', hexDigit (b.toNat / 16), hexDigit (b.toNat % 16)]

/-- A text with the characters of a set percent-encoded, byte by byte. -/
def percentEncode (encodes : Char → Bool) (x : Str) : Str :=
  x.flatMap fun c => if encodes c then (String.utf8EncodeChar c).flatMap percentByte else [c]

/-- What percent-encoding adds: three characters for every byte, less the one there was. -/
def percentGrowth (encodes : Char → Bool) : Str → ℕ
  | [] => 0
  | c :: x => (if encodes c then 3 * c.utf8Size - 1 else 0) + percentGrowth encodes x

theorem length_percentEncode (encodes : Char → Bool) (x : Str) :
    (percentEncode encodes x).length = x.length + percentGrowth encodes x := by
  induction x with
  | nil => rfl
  | cons c x ih =>
    have hbytes : ((String.utf8EncodeChar c).flatMap percentByte).length = 3 * c.utf8Size := by
      simp [List.length_flatMap, percentByte, Nat.mul_comm]
    have hsize : 1 ≤ c.utf8Size := c.utf8Size_pos
    rw [percentEncode, percentGrowth, List.flatMap_cons, List.length_append, List.length_cons,
      ← percentEncode, ih]
    split_ifs
    · rw [hbytes]
      omega
    · rw [List.length_singleton]
      omega

/-! ## The parts of a URL -/

/-- The parts that are percent-encoded by themselves. -/
inductive UrlPart
  | path
  | query
  | fragment
  deriving DecidableEq, Repr

/-- A parsed URL: scheme and authority as they are serialized, and the rest as it is in the text,
with the delimiter it begins with. -/
structure UrlParts where
  origin : Str
  path : Str
  query : Str
  fragment : Str
  deriving DecidableEq, Repr

/-- The parts in one text. -/
def UrlParts.text (u : UrlParts) : Str := u.origin ++ u.path ++ u.query ++ u.fragment

/-- **What `HttpUrl` does**: it parses a text, and percent-encodes in each part the characters that
the part may not hold, spaces and whatever is not ASCII among them. -/
structure HttpUrl where
  parse : Str → Option UrlParts
  encodes : UrlPart → Char → Bool
  encodes_space : ∀ part, encodes part ' ' = true
  encodes_nonAscii : ∀ part c, 128 ≤ c.toNat → encodes part c = true

namespace HttpUrl

/-- The bound `HttpUrl` puts on the text. -/
def maxLength : ℕ := 2083

variable (U : HttpUrl)

/-- The serialization of a parsed URL. -/
def serialize (u : UrlParts) : Str :=
  u.origin ++ (if u.path = [] then ['/'] else percentEncode (U.encodes .path) u.path)
    ++ percentEncode (U.encodes .query) u.query ++ percentEncode (U.encodes .fragment) u.fragment

/-- `str(url)` of a text that validates. -/
def validate (text : Str) : Option Str :=
  if text.length ≤ maxLength then (U.parse text).map U.serialize else none

/-- What serializing adds to the parts: the missing path, and the percent-encoding. -/
def growth (u : UrlParts) : ℕ :=
  (if u.path = [] then 1 else percentGrowth (U.encodes .path) u.path)
    + percentGrowth (U.encodes .query) u.query + percentGrowth (U.encodes .fragment) u.fragment

/-- **What is stored is the parts and what serializing adds.** -/
theorem length_serialize (u : UrlParts) :
    (U.serialize u).length = u.text.length + U.growth u := by
  simp only [serialize, growth, UrlParts.text, List.length_append, length_percentEncode]
  split_ifs with hpath
  · simp only [hpath, List.length_singleton, List.length_nil]
    omega
  · rw [length_percentEncode]
    omega

end HttpUrl
