import BookmarksApi.Core.Errors
import BookmarksApi.Stamp.UnixTime
import BookmarksApi.Text.Integers
import Mathlib.Logic.Equiv.List

/-!
# Utils/Security — access tokens

`JwtTokenProvider` writes claims into a signed token and reads them back.  Signing and checking are
the library's: a token that was signed is read back until it expires, with the same secret and
algorithm.
-/

/-- The claims of a token. -/
structure Claims where
  sub : Str
  iat : ℤ
  exp : ℤ
  type : Option Str
  jti : Option Str
  deriving DecidableEq, Repr

/-- What reading a token raises: `ExpiredSignatureError`, or another `InvalidTokenError`. -/
inductive InvalidToken
  | expiredSignature
  | invalid
  deriving DecidableEq, Repr

/-- `jwt`: moments in microseconds, `exp` in seconds. -/
structure Jwt where
  encode : Claims → Str → Str → Str
  decode : Str → Str → Str → ℤ → Except InvalidToken Claims
  /-- A token has its parts. -/
  encode_ne_nil : ∀ payload secret algorithm, encode payload secret algorithm ≠ []
  decode_encode : ∀ payload secret algorithm now,
    decode (encode payload secret algorithm) secret algorithm now
      = if payload.exp * 1000000 ≤ now then .error .expiredSignature else .ok payload

/-- `JwtTokenProvider`. -/
structure JwtTokenProvider where
  jwt : Jwt
  clock : UnixTime
  secret : Str
  algorithm : Str
  expiresMinutes : ℤ

namespace JwtTokenProvider

open Stamp UnixTime

/-- `TOKEN_TYPE`. -/
def tokenType : Str := "access".toList

variable (tokens : JwtTokenProvider)

/-- `expires_minutes or self._expires_minutes`: zero is false, like `None`. -/
def minutes (expiresMinutes : Option ℤ) : ℤ :=
  match expiresMinutes with
  | some m => if m = 0 then tokens.expiresMinutes else m
  | none => tokens.expiresMinutes

/-- `create_access_token`, at a moment and with the id that `uuid4` gives. -/
def createAccessToken (now : ℤ) (uuid : Str) (subject : ℤ) (expiresMinutes : Option ℤ) :
    Except Exc Str :=
  let expire := now + tokens.minutes expiresMinutes * 60000000
  if InYears (expire / dayMicros) then
    .ok (tokens.jwt.encode
      { sub := Str.ofInt subject
        iat := truncate (tokens.clock.timestamp now)
        exp := truncate (tokens.clock.timestamp expire)
        type := some tokenType
        jti := some uuid } tokens.secret tokens.algorithm)
  else .error .overflow

/-- `decode`, at a moment. -/
def decode (now : ℤ) (token : Str) : Except InvalidToken Claims := do
  let payload ← tokens.jwt.decode token tokens.secret tokens.algorithm now
  if payload.type ≠ some tokenType then .error .invalid else .ok payload

/-- **An access token that was signed is read back until it expires.** -/
theorem decode_encode {payload : Claims} (htype : payload.type = some tokenType) (now : ℤ) :
    tokens.decode now (tokens.jwt.encode payload tokens.secret tokens.algorithm)
      = if payload.exp * 1000000 ≤ now then .error .expiredSignature else .ok payload := by
  rw [decode, tokens.jwt.decode_encode]
  split_ifs
  · rfl
  · simp only [bind, Except.bind, htype, ne_eq, not_true_eq_false, if_false]

/-- **A token is issued for its subject.** -/
theorem sub_of_createAccessToken {issued subject : ℤ} {uuid token : Str}
    {expiresMinutes : Option ℤ}
    (h : tokens.createAccessToken issued uuid subject expiresMinutes = .ok token) {now : ℤ}
    {payload : Claims} (hdecode : tokens.decode now token = .ok payload) :
    payload.sub = Str.ofInt subject := by
  rw [createAccessToken] at h
  split_ifs at h
  obtain rfl := Except.ok.inj h
  rw [tokens.decode_encode rfl] at hdecode
  split_ifs at hdecode
  cases hdecode
  rfl

end JwtTokenProvider

/-! ## A library that signs nothing -/

instance encodableChar : Encodable Char :=
  Encodable.ofLeftInverse Char.toNat Char.ofNat Char.ofNat_toNat

instance encodableClaims : Encodable Claims :=
  Encodable.ofLeftInverse (fun p => (p.sub, p.iat, p.exp, p.type, p.jti))
    (fun p => ⟨p.1, p.2.1, p.2.2.1, p.2.2.2.1, p.2.2.2.2⟩) fun _ => rfl

namespace Jwt

/-- A token that is the number of its claims, the secret and the algorithm. -/
def plainEncode (payload : Claims) (secret algorithm : Str) : Str :=
  Str.ofNat (Encodable.encode (payload, secret, algorithm))

def plainDecode (token secret algorithm : Str) (now : ℤ) : Except InvalidToken Claims :=
  match Encodable.decode (α := Claims × Str × Str) (Nat.ofDigitChars 10 token 0) with
  | none => .error .invalid
  | some (payload, secret', algorithm') =>
    if secret' ≠ secret ∨ algorithm' ≠ algorithm then .error .invalid
    else if payload.exp * 1000000 ≤ now then .error .expiredSignature
    else .ok payload

theorem plainDecode_plainEncode (payload : Claims) (secret algorithm : Str) (now : ℤ) :
    plainDecode (plainEncode payload secret algorithm) secret algorithm now
      = if payload.exp * 1000000 ≤ now then .error .expiredSignature else .ok payload := by
  have hread : Nat.ofDigitChars 10 (plainEncode payload secret algorithm) 0
      = Encodable.encode (payload, secret, algorithm) :=
    Nat.ofDigitChars_toDigits (by decide) (by decide)
  simp only [plainDecode, hread, Encodable.encodek, ne_eq, not_true_eq_false, or_self, if_false]

def plain : Jwt where
  encode := plainEncode
  decode := plainDecode
  encode_ne_nil _ _ _ := Str.ofNat_ne_nil _
  decode_encode := plainDecode_plainEncode

end Jwt

/-- A day's lifetime, over that library. -/
def JwtTokenProvider.plain : JwtTokenProvider :=
  ⟨.plain, .double, "secret".toList, "HS256".toList, 1440⟩
