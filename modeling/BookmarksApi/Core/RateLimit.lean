import BookmarksApi.Core.Deps
import BookmarksApi.Text.Split

/-!
# Core/RateLimit — the bucket that a request is counted in

`client_key` reads the `Authorization` header by itself: it wants the scheme spelled `Bearer`, and
takes the subject as it stands.  `get_current_user` takes the scheme in any case, and reads the
subject as an integer.
-/

namespace RateLimit

/-- `_client_ip`. -/
def clientIp (trustProxyHeaders : Bool) (request : HttpRequest) : Str :=
  match request.header "x-forwarded-for" with
  | none => request.remoteAddress
  | some forwarded =>
    if trustProxyHeaders ∧ forwarded ≠ [] then Str.strip ((Str.split ',' forwarded).headD [])
    else request.remoteAddress

/-- `client_key`, at a moment. -/
def clientKey (trustProxyHeaders : Bool) (tokens : JwtTokenProvider) (now : ℤ)
    (request : HttpRequest) : Str :=
  let auth := (request.header "authorization").getD []
  let ip := "ip:".toList ++ clientIp trustProxyHeaders request
  if "Bearer ".toList.isPrefixOf auth then
    match tokens.decode now (auth.drop 7) with
    | .error _ => ip
    | .ok payload => if payload.sub = [] then ip else "user:".toList ++ payload.sub
  else ip

/-- `rate_limit_exceeded_handler`. -/
def exceededHandler {β : Type*} (limit : Str) : Response β :=
  { status := 429
    body := .inr ⟨"RATE_LIMITED",
      "Rate limit exceeded. Please slow down and try again shortly.",
      some [("limit", .str limit)]⟩ }

/-- The key of a user. -/
def userKey (userId : ℤ) : Str := "user:".toList ++ Str.ofInt userId

theorem userKey_inj {i j : ℤ} : userKey i = userKey j ↔ i = j := by
  rw [userKey, userKey, List.append_cancel_left_eq, Str.ofInt_inj]

/-- The header spells the scheme `Bearer`. -/
def SpelledBearer (request : HttpRequest) : Prop :=
  ∃ token, request.header "authorization" = some ("Bearer ".toList ++ token)

/-- The subject of the token presented is the user's id as `str` writes it. -/
def PlainSubject (P : Platform) (tokens : JwtTokenProvider) (now : ℤ) (request : HttpRequest)
    (userId : ℤ) : Prop :=
  ∃ token payload, httpBearer P (request.header "authorization") = some token ∧
    tokens.decode now token = .ok payload ∧ payload.sub = Str.ofInt userId

variable {P : Platform} {tokens : JwtTokenProvider} {db : Db} {trust : Bool} {now : ℤ}
  {request : HttpRequest}

/-- A header that spells another scheme is counted by address. -/
theorem clientKey_of_not_spelled (h : ¬ SpelledBearer request) :
    clientKey trust tokens now request = "ip:".toList ++ clientIp trust request := by
  rw [clientKey, if_neg]
  rintro hprefix
  obtain ⟨token, htoken⟩ := List.isPrefixOf_iff_prefix.mp hprefix
  rcases hheader : request.header "authorization" with _ | header
  · rw [hheader] at htoken
    cases htoken
  · rw [hheader, Option.getD_some] at htoken
    exact h ⟨token, by rw [hheader, htoken]⟩

/-- **A token after `Bearer` is counted under its subject.** -/
theorem clientKey_of_spelled {token : Str} {payload : Claims}
    (hheader : request.header "authorization" = some ("Bearer ".toList ++ token))
    (hdecode : tokens.decode now token = .ok payload) (hsub : payload.sub ≠ []) :
    clientKey trust tokens now request = "user:".toList ++ payload.sub := by
  have hprefix : "Bearer ".toList.isPrefixOf ("Bearer ".toList ++ token) = true :=
    List.isPrefixOf_iff_prefix.mpr (List.prefix_append _ _)
  have hdrop : ("Bearer ".toList ++ token).drop 7 = token := rfl
  rw [clientKey, hheader, Option.getD_some, if_pos hprefix, hdrop, hdecode]
  simp only [if_neg hsub]

/-- **Both parsers cut the same token** from a header that spells the scheme `Bearer`. -/
theorem httpBearer_of_spelled {token : Str}
    (hheader : request.header "authorization" = some ("Bearer ".toList ++ token)) {token' : Str}
    (h : httpBearer P (request.header "authorization") = some token') : token' = token := by
  obtain ⟨scheme, hscheme, hspace, -, -⟩ := httpBearer_eq_some h
  have hcut : "Bearer".toList ++ ' ' :: token = scheme ++ ' ' :: token' :=
    Option.some.inj (hheader.symm.trans hscheme)
  have hpieces := congrArg (Str.split ' ') hcut
  rw [Str.split_append_cons_of_notMem (by decide),
    Str.split_append_cons_of_notMem hspace] at hpieces
  rw [← (List.cons.inj hpieces).1] at hcut
  exact (List.cons.inj (List.append_cancel_left hcut)).2.symm

/-- **What the limiter makes of an authenticated request.** -/
theorem clientKey_eq_userKey_iff {user : UserRow}
    (h : Deps.getCurrentUser P tokens db now (request.header "authorization") = .ok user) :
    clientKey trust tokens now request = userKey user.id ↔
      SpelledBearer request ∧ PlainSubject P tokens now request user.id := by
  obtain ⟨token, payload, hbearer, hdecode, hsub, -, -⟩ := Deps.getCurrentUser_eq_ok.mp h
  have hnonempty : payload.sub ≠ [] := fun hempty => by
    rw [hempty, Str.toInt?_nil] at hsub
    cases hsub
  have hplain : PlainSubject P tokens now request user.id ↔ payload.sub = Str.ofInt user.id := by
    constructor
    · rintro ⟨token', payload', hbearer', hdecode', hsub'⟩
      obtain rfl := Option.some.inj (hbearer.symm.trans hbearer')
      obtain rfl := Except.ok.inj (hdecode.symm.trans hdecode')
      exact hsub'
    · exact fun hsub => ⟨token, payload, hbearer, hdecode, hsub⟩
  by_cases hspelled : SpelledBearer request
  · obtain ⟨token', hheader⟩ := hspelled
    obtain rfl := httpBearer_of_spelled hheader hbearer
    rw [clientKey_of_spelled hheader hdecode hnonempty, userKey, List.append_cancel_left_eq, hplain]
    exact (and_iff_right ⟨token, hheader⟩).symm
  · rw [clientKey_of_not_spelled hspelled]
    exact iff_of_false (fun hkey => by cases hkey) fun hboth => hspelled hboth.1

/-- **A token that the application issued has a plain subject**, so only the spelling decides. -/
theorem clientKey_issued_iff {user : UserRow}
    (h : Deps.getCurrentUser P tokens db now (request.header "authorization") = .ok user)
    {issued : ℤ} {uuid token : Str} {expiresMinutes : Option ℤ}
    (hissued : tokens.createAccessToken issued uuid user.id expiresMinutes = .ok token)
    (hpresented : httpBearer P (request.header "authorization") = some token) :
    clientKey trust tokens now request = userKey user.id ↔ SpelledBearer request := by
  obtain ⟨token', payload, hbearer, hdecode, -, -, -⟩ := Deps.getCurrentUser_eq_ok.mp h
  obtain rfl := Option.some.inj (hbearer.symm.trans hpresented)
  rw [clientKey_eq_userKey_iff h]
  exact and_iff_left ⟨token', payload, hbearer, hdecode,
    tokens.sub_of_createAccessToken hissued hdecode⟩

/-- **When the limiter and the authenticator see the same user**: an authenticated request is
counted under its user exactly when it spells the scheme `Bearer` and its token has a plain subject.
Requests that do share a bucket exactly when they are one user's. -/
theorem limiter_agrees_iff (P : Platform) (tokens : JwtTokenProvider) (db : Db) (trust : Bool) :
    (∀ now request user,
      Deps.getCurrentUser P tokens db now (request.header "authorization") = .ok user →
      (clientKey trust tokens now request = userKey user.id ↔
        SpelledBearer request ∧ PlainSubject P tokens now request user.id)) ∧
    ∀ now request user now' request' user',
      Deps.getCurrentUser P tokens db now (request.header "authorization") = .ok user →
      Deps.getCurrentUser P tokens db now' (request'.header "authorization") = .ok user' →
      SpelledBearer request ∧ PlainSubject P tokens now request user.id →
      SpelledBearer request' ∧ PlainSubject P tokens now' request' user'.id →
      (clientKey trust tokens now request = clientKey trust tokens now' request' ↔
        user.id = user'.id) := by
  refine ⟨fun now request user h => clientKey_eq_userKey_iff h, ?_⟩
  intro now request user now' request' user' h h' hplain hplain'
  rw [(clientKey_eq_userKey_iff h).mpr hplain, (clientKey_eq_userKey_iff h').mpr hplain',
    userKey_inj]

/-! ## Alice's token, under two spellings -/

/-- The claims of a token for the first account. -/
def aliceClaims : Claims := ⟨['1'], 0, 60, some JwtTokenProvider.tokenType, none⟩

/-- Alice's token after a scheme. -/
noncomputable def presenting (scheme : Str) : HttpRequest where
  method := "GET"
  path := "/api/bookmarks"
  headers := [("authorization", scheme ++ ' ' :: JwtTokenProvider.plain.jwt.encode aliceClaims
    JwtTokenProvider.plain.secret JwtTokenProvider.plain.algorithm)]
  remoteAddress := "10.0.0.1".toList
  body := []

theorem authenticated_presenting {scheme : Str} (hspace : ' ' ∉ scheme)
    (hlower : Platform.sqlite.lower scheme = "bearer".toList) (hscheme : scheme ≠ []) :
    Deps.getCurrentUser .sqlite .plain Db.twoAccounts 0
      ((presenting scheme).header "authorization") = .ok Deps.alice :=
  Deps.getCurrentUser_encode hspace hlower hscheme rfl (by decide +kernel) (by decide +kernel) rfl

theorem limiter_agrees_iff_bearer :
    clientKey false .plain 0 (presenting "Bearer".toList) = userKey 1 ↔
      SpelledBearer (presenting "Bearer".toList) ∧
        PlainSubject .sqlite .plain 0 (presenting "Bearer".toList) 1 :=
  (limiter_agrees_iff .sqlite .plain Db.twoAccounts false).1 0 _ Deps.alice
    (authenticated_presenting (by decide) (by decide +kernel) (by decide))

/-- **Spelled `bearer`, a token gives its user a second bucket.** -/
theorem limiter_disagrees :
    Deps.getCurrentUser .sqlite .plain Db.twoAccounts 0
        ((presenting "bearer".toList).header "authorization") = .ok Deps.alice ∧
      clientKey false .plain 0 (presenting "bearer".toList) = "ip:10.0.0.1".toList ∧
      clientKey false .plain 0 (presenting "bearer".toList) ≠ userKey Deps.alice.id := by
  have hspelled : ¬ SpelledBearer (presenting "bearer".toList) := by
    rintro ⟨token, htoken⟩
    cases (List.cons.inj (Option.some.inj htoken)).1
  have hkey : clientKey false .plain 0 (presenting "bearer".toList) = "ip:10.0.0.1".toList :=
    clientKey_of_not_spelled hspelled
  refine ⟨authenticated_presenting (by decide) (by decide +kernel) (by decide), hkey, ?_⟩
  rw [hkey]
  intro h
  cases h

end RateLimit
