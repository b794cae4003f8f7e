import BookmarksApi.Core.Http
import BookmarksApi.Repositories.User
import BookmarksApi.Utils.Security

/-!
# Core/Deps — the authenticated user

`get_current_user` takes the credentials of the `Authorization` header, reads them as a token, and
looks up the account of its subject.
-/

/-- `HTTPBearer(auto_error=False)`: what follows the first space, when what stands before it is
`bearer` in any case. -/
def httpBearer (P : Platform) (authorization : Option Str) : Option Str :=
  authorization.bind fun header =>
    let scheme := header.takeWhile (· ≠ ' ')
    let credentials := (header.dropWhile (· ≠ ' ')).tail
    if scheme = [] ∨ credentials = [] then none
    else if P.lower scheme = "bearer".toList then some credentials
    else none

/-- A header that is a scheme, a space and the credentials. -/
theorem httpBearer_append {P : Platform} {scheme credentials : Str} (hspace : ' ' ∉ scheme)
    (hlower : P.lower scheme = "bearer".toList) (hscheme : scheme ≠ [])
    (hcredentials : credentials ≠ []) :
    httpBearer P (some (scheme ++ ' ' :: credentials)) = some credentials := by
  have hall : ∀ c ∈ scheme, decide (c ≠ ' ') = true := fun c hc => by
    rw [decide_eq_true_eq]
    rintro rfl
    exact hspace hc
  rw [httpBearer, Option.bind_some, List.takeWhile_append_of_pos hall,
    List.dropWhile_append_of_pos hall]
  simp [hlower, hscheme, hcredentials]

/-- **What the credentials are cut from.** -/
theorem httpBearer_eq_some {P : Platform} {authorization : Option Str} {credentials : Str}
    (h : httpBearer P authorization = some credentials) :
    ∃ scheme, authorization = some (scheme ++ ' ' :: credentials) ∧ ' ' ∉ scheme ∧
      P.lower scheme = "bearer".toList ∧ credentials ≠ [] := by
  obtain ⟨header, rfl, hcut⟩ := Option.bind_eq_some_iff.mp h
  simp only at hcut
  split_ifs at hcut with hempty hlower
  obtain rfl := Option.some.inj hcut
  obtain ⟨-, hcredentials⟩ := not_or.mp hempty
  refine ⟨header.takeWhile (· ≠ ' '), ?_, ?_, hlower, hcredentials⟩
  · rcases hdrop : header.dropWhile (· ≠ ' ') with _ | ⟨c, rest⟩
    · rw [hdrop] at hcredentials
      exact absurd rfl hcredentials
    · have hne : header.dropWhile (· ≠ ' ') ≠ [] := hdrop ▸ List.cons_ne_nil c rest
      have hhead := List.head_dropWhile_not (fun c => decide (c ≠ ' ')) hne
      simp only [hdrop, List.head_cons, decide_eq_false_iff_not, not_not] at hhead
      subst hhead
      rw [List.tail_cons, ← hdrop, List.takeWhile_append_dropWhile]
  · intro hmem
    simpa using List.mem_takeWhile_imp hmem

namespace Deps

/-- `get_current_user`, at a moment. -/
def getCurrentUser (P : Platform) (tokens : JwtTokenProvider) (db : Db) (now : ℤ)
    (authorization : Option Str) : Except Exc UserRow :=
  match httpBearer P authorization with
  | none => .error (.app (authError "Authentication credentials were not provided."))
  | some credentials =>
    match tokens.decode now credentials with
    | .error .expiredSignature => .error (.app (authError "Access token has expired."))
    | .error .invalid => .error (.app (authError "Invalid authentication token."))
    | .ok payload =>
      match Str.toInt? payload.sub with
      | none => .error (.app (authError "Invalid authentication token."))
      | some userId => do
        match ← UserRepository.getById P db userId with
        | none => .error (.app (authError "User account no longer exists."))
        | some user => .ok user

variable {P : Platform} {tokens : JwtTokenProvider} {db : Db} {now : ℤ}

/-- **Who is authenticated**: the account of a token's subject. -/
theorem getCurrentUser_eq_ok {authorization : Option Str} {user : UserRow} :
    getCurrentUser P tokens db now authorization = .ok user ↔
      ∃ credentials payload, httpBearer P authorization = some credentials ∧
        tokens.decode now credentials = .ok payload ∧ Str.toInt? payload.sub = some user.id ∧
        P.bindable user.id = true ∧ db.users.get? user.id = some user := by
  rw [getCurrentUser]
  rcases httpBearer P authorization with _ | credentials
  · simp
  rcases hdecode : tokens.decode now credentials with (_ | _) | payload
  · simp [hdecode]
  · simp [hdecode]
  rcases hsub : Str.toInt? payload.sub with _ | userId
  · simp [hdecode, hsub]
  constructor
  · simp only [hdecode, hsub, UserRepository.getById]
    split_ifs with hb
    · rcases huser : db.users.get? userId with _ | user'
      · simp [bind, Except.bind]
      · intro h
        obtain rfl : user' = user := Except.ok.inj h
        obtain rfl : user'.id = userId := (Table.get?_eq_some.mp huser).2
        exact ⟨credentials, payload, rfl, hdecode, hsub, hb, huser⟩
    · intro h
      cases h
  · rintro ⟨_, _, hcredentials, hdecode', hsub', hb, huser⟩
    obtain rfl := Option.some.inj hcredentials
    obtain rfl := Except.ok.inj (hdecode.symm.trans hdecode')
    obtain rfl := Option.some.inj (hsub.symm.trans hsub')
    simp only [hdecode, hsub, UserRepository.getById, if_pos hb, huser]
    rfl

/-- **A signed token, presented**: it opens its subject's account until it expires. -/
theorem getCurrentUser_encode {scheme : Str} (hspace : ' ' ∉ scheme)
    (hlower : P.lower scheme = "bearer".toList) (hscheme : scheme ≠ []) {payload : Claims}
    (htype : payload.type = some JwtTokenProvider.tokenType) {user : UserRow}
    (hsub : Str.toInt? payload.sub = some user.id) (hb : P.bindable user.id = true)
    (huser : db.users.get? user.id = some user) :
    getCurrentUser P tokens db now
        (some (scheme ++ ' ' :: tokens.jwt.encode payload tokens.secret tokens.algorithm))
      = if payload.exp * 1000000 ≤ now then .error (.app (authError "Access token has expired."))
        else .ok user := by
  rw [getCurrentUser, httpBearer_append hspace hlower hscheme (tokens.jwt.encode_ne_nil _ _ _)]
  simp only [tokens.decode_encode htype]
  split_ifs with hexp
  · rfl
  · simp only [hsub, UserRepository.getById, if_pos hb, huser]
    rfl

/-- The first account. -/
def alice : UserRow := ⟨1, "alice".toList, "alice@example.com".toList, [], .seconds 0⟩

end Deps
