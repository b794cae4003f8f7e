import BookmarksApi.Platform
import Mathlib.Data.List.Infix

/-!
# Schemas/Auth — what is asked of a name and a password

`RegisterRequest` checks the lengths, the letters of the name, and then the password as a whole: it
is not a common one, and neither the name nor what stands before the `@` is in it.  What the library
accepts as an address, the code does not say, and nothing is assumed of it.
-/

/-- `_COMMON_PASSWORDS`. -/
def commonPasswords : List Str :=
  ["password", "password1", "password123", "12345678", "123456789", "qwertyuiop", "qwerty123",
    "letmein1", "iloveyou", "admin123", "welcome1", "changeme"].map String.toList

/-- The letters of `^[A-Za-z0-9_.-]+$`. -/
def isUsernameChar (c : Char) : Bool := c.isAlphanum || c == '_' || c == '.' || c == '-'

/-- What `_password_strength` raises a `ValueError` for. -/
inductive WeakPassword
  /-- "This password is too common; choose a less guessable one." -/
  | common
  /-- "Password must not contain your username or email." -/
  | containsIdentity
  deriving DecidableEq, Repr

/-- What stands before the first `@`. -/
def localPart (email : Str) : Str := email.takeWhile (· ≠ '@')

/-- `_password_strength`. -/
def passwordStrength (P : Platform) (username email password : Str) : Except WeakPassword Unit :=
  let low := P.lower password
  if low ∈ commonPasswords then .error .common
  else if [P.lower username, P.lower (localPart email)].any
      fun token => 3 ≤ token.length && decide (token <:+: low) then .error .containsIdentity
  else .ok ()

/-- `RegisterRequest`. -/
structure RegisterRequest (P : Platform) where
  username : Str
  email : Str
  password : Str
  usernameLength : 3 ≤ username.length ∧ username.length ≤ 80
  usernamePattern : username.all isUsernameChar = true
  passwordLength : 10 ≤ password.length ∧ password.length ≤ 128
  strong : passwordStrength P username email password = .ok ()

/-- `LoginRequest`. -/
structure LoginRequest where
  email : Str
  password : Str
  passwordLength : 1 ≤ password.length

theorem isUsernameChar_carol : "carol".toList.all isUsernameChar = true := by decide +kernel

theorem passwordStrength_carol : passwordStrength .sqlite "carol".toList
    "Carol@example.com".toList "s3cret-passw0rd!".toList = .ok () := by decide +kernel

/-- The request of the documentation's example. -/
def RegisterRequest.carol : RegisterRequest .sqlite where
  username := "carol".toList
  email := "Carol@example.com".toList
  password := "s3cret-passw0rd!".toList
  usernameLength := ⟨Nat.le_of_ble_eq_true rfl, Nat.le_of_ble_eq_true rfl⟩
  usernamePattern := isUsernameChar_carol
  passwordLength := ⟨Nat.le_of_ble_eq_true rfl, Nat.le_of_ble_eq_true rfl⟩
  strong := passwordStrength_carol

example : passwordStrength .sqlite "bob".toList "b@example.com".toList "my-BOB-is-great".toList
    = .error .containsIdentity := by decide +kernel
