import BookmarksApi.Core.Deps

/-!
# Core/TokenLife — how long a token opens its account

A token is written with the truncated timestamp of its expiry, and the lifetime behind that expiry
is `expires_minutes or` the configured one, so a lifetime of zero asked for is the configured one.
`lives_as_asked_iff` says which tokens live as long as asked.
-/

namespace JwtTokenProvider

open Stamp UnixTime

variable (P : Platform) (tokens : JwtTokenProvider) (db : Db)

/-- The lifetime asked for: the one passed, or the configured one. -/
def asked (expiresMinutes : Option ℤ) : ℤ := expiresMinutes.getD tokens.expiresMinutes

/-- The moment a token expires at. -/
def expiry (issued : ℤ) (expiresMinutes : Option ℤ) : ℤ :=
  issued + tokens.minutes expiresMinutes * 60000000

/-- A token is issued that opens the user's account until the lifetime asked for is over, counted
from the second it was issued in, and is refused from then on. -/
def LivesAsAsked (issued : ℤ) (uuid : Str) (user : UserRow) (expiresMinutes : Option ℤ) : Prop :=
  ∃ token, tokens.createAccessToken issued uuid user.id expiresMinutes = .ok token ∧
    ∀ now, issued ≤ now →
      (now < (second issued + 60 * tokens.asked expiresMinutes) * 1000000 →
        Deps.getCurrentUser P tokens db now (some ("Bearer ".toList ++ token)) = .ok user) ∧
      ((second issued + 60 * tokens.asked expiresMinutes) * 1000000 ≤ now →
        ∃ message, Deps.getCurrentUser P tokens db now (some ("Bearer ".toList ++ token))
          = .error (.app (authError message)))

/-- **The expiry is a date, and comes as asked**: the lifetime is negative, so that the token is
never valid, or it is no zero that the configured one replaces, and the expiry keeps its second. -/
def ExpiresAsAsked (issued : ℤ) (expiresMinutes : Option ℤ) : Prop :=
  InYears (tokens.expiry issued expiresMinutes / dayMicros) ∧
    (tokens.minutes expiresMinutes < 0 ∨
      (expiresMinutes = some 0 → tokens.expiresMinutes = 0) ∧
        KeepsSecond (tokens.expiry issued expiresMinutes))

variable {P tokens db} {issued : ℤ} {expiresMinutes : Option ℤ}

/-- Two last seconds let the same moments through when they are equal, or both are over. -/
theorem same_moments_iff {exp last issued : ℤ} :
    (∀ now, issued ≤ now → (now < last * 1000000 ↔ now < exp * 1000000)) ↔
      exp = last ∨ exp * 1000000 ≤ issued ∧ last * 1000000 ≤ issued := by
  constructor
  · intro h
    have hissued := h issued le_rfl
    have hexp := h (exp * 1000000)
    have hlast := h (last * 1000000)
    omega
  · rintro (rfl | ⟨hexp, hlast⟩) now hnow
    · exact Iff.rfl
    · omega

theorem second_expiry :
    second (tokens.expiry issued expiresMinutes)
      = second issued + 60 * tokens.minutes expiresMinutes := by
  rw [second, second, expiry]
  omega

/-- **The lifetime is the one asked for**, unless that is a zero. -/
theorem minutes_eq_asked_iff : tokens.minutes expiresMinutes = tokens.asked expiresMinutes ↔
    (expiresMinutes = some 0 → tokens.expiresMinutes = 0) := by
  rcases expiresMinutes with _ | m
  · simp [minutes, asked]
  · by_cases hm : m = 0 <;> simp [minutes, asked, hm]

/-- **The expiry written is as good as the one asked for** when the token is never valid, or the
lifetime and the second are kept. -/
theorem same_expiry_iff (hyears : InYears (tokens.expiry issued expiresMinutes / dayMicros)) :
    (∀ now, issued ≤ now →
      (now < (second issued + 60 * tokens.asked expiresMinutes) * 1000000 ↔
        now < truncate (tokens.clock.timestamp (tokens.expiry issued expiresMinutes)) * 1000000)) ↔
      tokens.minutes expiresMinutes < 0 ∨
        (expiresMinutes = some 0 → tokens.expiresMinutes = 0) ∧
          KeepsSecond (tokens.expiry issued expiresMinutes) := by
  obtain ⟨hlow, hhigh⟩ := tokens.clock.truncate_bounds hyears
  rw [same_moments_iff, ← tokens.clock.truncate_eq_iff hyears, ← minutes_eq_asked_iff]
  have hasked : tokens.minutes expiresMinutes ≠ tokens.asked expiresMinutes →
      tokens.asked expiresMinutes = 0 := by
    rcases expiresMinutes with _ | m
    · exact fun h => absurd rfl h
    · by_cases hm : m = 0 <;> simp [minutes, asked, hm]
  rw [second_expiry] at hlow hhigh ⊢
  have hfloor : second issued * 1000000 ≤ issued ∧ issued < (second issued + 1) * 1000000 := by
    rw [second]
    omega
  generalize truncate (tokens.clock.timestamp (tokens.expiry issued expiresMinutes)) = exp at *
  omega

/-- **A token presented**: it opens its account until the expiry that was written. -/
theorem getCurrentUser_createAccessToken {uuid token : Str} {user : UserRow}
    (hP : P.TakesInt64) (hlower : P.lower "Bearer".toList = "bearer".toList)
    (hid : IsInt64 user.id) (huser : db.users.get? user.id = some user)
    (htoken : tokens.createAccessToken issued uuid user.id expiresMinutes = .ok token) (now : ℤ) :
    Deps.getCurrentUser P tokens db now (some ("Bearer ".toList ++ token)) =
      if truncate (tokens.clock.timestamp (tokens.expiry issued expiresMinutes)) * 1000000 ≤ now
      then .error (.app (authError "Access token has expired."))
      else .ok user := by
  rw [createAccessToken] at htoken
  split_ifs at htoken with hyears
  have hsub : Str.toInt? (Str.ofInt user.id) = some user.id := by
    refine Str.toInt?_ofInt (Str.length_ofNat_le ?_)
    simp only [IsInt64] at hid
    omega
  obtain rfl := Except.ok.inj htoken
  exact Deps.getCurrentUser_encode (by decide) hlower (by decide) rfl hsub ((hP _).mpr hid) huser

/-- A token that opens its account until one moment lives until another exactly when the two let
the same moments through. -/
theorem opens_until_iff (issued last : ℤ) {outcome : ℤ → Except Exc UserRow} {exp : ℤ}
    {text : String} {user : UserRow} (houtcome : ∀ now, outcome now =
      if exp * 1000000 ≤ now then .error (.app (authError text)) else .ok user) :
    (∀ now, issued ≤ now →
      (now < last * 1000000 → outcome now = .ok user) ∧
      (last * 1000000 ≤ now → ∃ message, outcome now = .error (.app (authError message)))) ↔
      ∀ now, issued ≤ now → (now < last * 1000000 ↔ now < exp * 1000000) := by
  have hvalid (now : ℤ) : outcome now = .ok user ↔ now < exp * 1000000 := by
    rw [houtcome]
    split_ifs with hexp
    · exact iff_of_false (fun h => by cases h) (not_lt.mpr hexp)
    · exact iff_of_true rfl (not_le.mp hexp)
  have hover (now : ℤ) :
      (∃ message, outcome now = .error (.app (authError message))) ↔ exp * 1000000 ≤ now := by
    rw [houtcome]
    split_ifs with hexp
    · exact iff_of_true ⟨_, rfl⟩ hexp
    · refine iff_of_false ?_ hexp
      rintro ⟨message, h⟩
      cases h
  simp only [hvalid, hover]
  refine forall₂_congr fun now _ => ?_
  omega

/-- **When a token lives exactly as long as asked.** -/
theorem lives_as_asked_iff (hP : P.TakesInt64) (hlower : P.lower "Bearer".toList = "bearer".toList)
    {user : UserRow} (hid : IsInt64 user.id) (huser : db.users.get? user.id = some user)
    (tokens : JwtTokenProvider) (issued : ℤ) (uuid : Str) (expiresMinutes : Option ℤ) :
    LivesAsAsked P tokens db issued uuid user expiresMinutes ↔
      tokens.ExpiresAsAsked issued expiresMinutes := by
  rw [LivesAsAsked, ExpiresAsAsked]
  by_cases hyears : InYears (tokens.expiry issued expiresMinutes / dayMicros)
  · rw [and_iff_right hyears, ← same_expiry_iff hyears]
    have hopens := fun token htoken => opens_until_iff issued
      (second issued + 60 * tokens.asked expiresMinutes)
      (@getCurrentUser_createAccessToken P tokens db issued expiresMinutes uuid token user hP hlower
        hid huser htoken)
    constructor
    · rintro ⟨token, htoken, hlives⟩
      exact (hopens token htoken).mp hlives
    · intro hsame
      exact ⟨_, if_pos hyears, (hopens _ (if_pos hyears)).mpr hsame⟩
  · refine iff_of_false ?_ fun h => hyears h.1
    rintro ⟨token, htoken, -⟩
    cases htoken.symm.trans (if_neg hyears)

/-- Alice's token for an hour, issued at half past a second. -/
theorem lives_as_asked_hour :
    LivesAsAsked .sqlite .plain .twoAccounts 500000 [] Deps.alice (some 60) :=
  (lives_as_asked_iff Platform.takesInt64_sqlite (by decide +kernel) (by decide) rfl .plain 500000
    [] (some 60)).mpr ⟨by decide, Or.inr ⟨nofun, keepsSecond_of_lt (by decide) (by decide)⟩⟩

/-- **A lifetime of zero is a day**: asked for a token that is over at once, the default takes its
place. -/
theorem zero_minutes_live_on :
    ¬ LivesAsAsked .sqlite .plain .twoAccounts 0 [] Deps.alice (some 0) := by
  rintro ⟨token, htoken, hlives⟩
  obtain ⟨message, hmessage⟩ := (hlives 0 le_rfl).2 (by decide)
  have hyears : InYears (plain.expiry 0 (some 0) / dayMicros) := by decide
  have hlow : 86400 ≤ truncate (plain.clock.timestamp (plain.expiry 0 (some 0))) :=
    (plain.clock.truncate_bounds hyears).1
  rw [getCurrentUser_createAccessToken Platform.takesInt64_sqlite (by decide +kernel) (by decide)
    rfl htoken, if_neg (by omega)] at hmessage
  cases hmessage

end JwtTokenProvider
