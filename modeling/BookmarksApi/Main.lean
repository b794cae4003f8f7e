import BookmarksApi.Config
import BookmarksApi.Core.Middleware
import BookmarksApi.Core.RateLimit
import BookmarksApi.Store.Entries

/-!
# Main — the application: middleware around handlers around routes

`create_app` registers its middleware from the inside out, so the last registered sees a request
first, and one that answers without `call_next` leaves out everything inside it.  The handler for
`Exception` is outside all of them.
-/

/-- What a response carries that is no error envelope. -/
inductive Content (β : Type*)
  | route (content : β)
  | text (s : String)
  | json (fields : List (String × String))

/-- What a route raises. -/
inductive Raised
  | appError (e : AppError)
  | requestValidationError (message : String) (details : List (String × Json))
  | httpException (statusCode : ℕ) (detail : Option String) (headers : List (String × Str))
  | rateLimitExceeded (limit : Str)
  /-- An exception without a handler of its own. -/
  | unexpected

/-- What the services raise: an `AppError`, or an exception without a handler. -/
def Raised.ofExc : Exc → Raised
  | .app e => .appError e
  | _ => .unexpected

/-- A CORS preflight request. -/
def HttpRequest.IsPreflight (request : HttpRequest) : Prop :=
  request.method = "OPTIONS" ∧ request.header "origin" ≠ none ∧
    request.header "access-control-request-method" ≠ none

instance (request : HttpRequest) : Decidable request.IsPreflight :=
  inferInstanceAs (Decidable (_ ∧ _))

/-- The readiness probe. -/
def HttpRequest.IsReadiness (request : HttpRequest) : Prop :=
  request.method = "GET" ∧ request.path = "/health/ready"

instance (request : HttpRequest) : Decidable request.IsReadiness :=
  inferInstanceAs (Decidable (_ ∧ _))

/-- The headers that the CORS middleware writes. -/
def isCorsHeader (name : String) : Bool :=
  "access-control-".toList.isPrefixOf name.toLower.toList || name.toLower == "vary"

/-- What the application is put together from: Starlette's CORS and host checks, slowapi's check,
and the routes. -/
structure Parts (β : Type*) where
  /-- `uuid4().hex`, at the request. -/
  uuid : HttpRequest → Str
  /-- `CORSMiddleware.preflight_response`. -/
  preflightResponse : List Str → Bool → HttpRequest → Response (Content β)
  /-- What `CORSMiddleware` makes of the response to any other request. -/
  simpleResponse : List Str → Bool → HttpRequest → Response (Content β) → Response (Content β)
  /-- `TrustedHostMiddleware`: whether the `Host` header is allowed, and its answer if not. -/
  allowedHost : List Str → HttpRequest → Bool
  hostResponse : List Str → HttpRequest → Response (Content β)
  /-- `SlowAPIMiddleware`: the limit that is exceeded, and the headers it adds. -/
  exceeded : HttpRequest → Except Raised (Option Str)
  injectHeaders : HttpRequest → Response (Content β) → Response (Content β)
  /-- Whether `SELECT 1` succeeds. -/
  databaseUp : HttpRequest → Bool
  /-- The routes other than the readiness probe. -/
  route : HttpRequest → Except Raised (Response (Content β))
  preflight_has : ∀ origins credentials request,
    (preflightResponse origins credentials request).has RequestIDMiddleware.requestIdHeader = false
  simple_status : ∀ origins credentials request r,
    (simpleResponse origins credentials request r).status = r.status
  simple_body : ∀ origins credentials request r,
    (simpleResponse origins credentials request r).body = r.body
  simple_has : ∀ origins credentials request r name, isCorsHeader name = false →
    (simpleResponse origins credentials request r).has name = r.has name
  host_has : ∀ hosts request,
    (hostResponse hosts request).has RequestIDMiddleware.requestIdHeader = false
  inject_status : ∀ request r, (injectHeaders request r).status = r.status
  inject_body : ∀ request r, (injectHeaders request r).body = r.body
  /-- A route returns its successes, and raises the rest. -/
  route_status : ∀ request r, route request = .ok r → r.status < 400

variable {β : Type*}

/-! ## The layers -/

/-- The handlers that `register_exception_handlers` and `create_app` attach. -/
def Raised.handler : Raised → Option (Response β)
  | appError e => some (Response.ofAppError e)
  | requestValidationError message details => some (Response.ofValidationError message details)
  | httpException statusCode detail headers =>
    some (Response.ofHttpException statusCode detail headers)
  | rateLimitExceeded limit => some (RateLimit.exceededHandler limit)
  | unexpected => none

/-- A layer of the application: a response, or an exception that it lets through. -/
abbrev Layer (β : Type*) := HttpRequest → Except Raised (Response (Content β))

/-- The handlers around the routes. -/
def exceptionMiddleware (app : Layer β) : Layer β := fun request =>
  match app request with
  | .ok r => .ok r
  | .error e =>
    match e.handler with
    | some r => .ok r
    | none => .error e

/-- `ready`. -/
def ready (databaseUp : Bool) : Response (Content β) :=
  if databaseUp then { status := 200, body := .inl (.json [("status", "ready")]) }
  else { status := 503, body := .inl (.json [("status", "unavailable")]) }

namespace Parts

variable (parts : Parts β)

/-- The routes. -/
def endpoint : Layer β := fun request =>
  if request.IsReadiness then .ok (ready (parts.databaseUp request)) else parts.route request

/-- `SlowAPIMiddleware`. -/
def slowApi (app : Layer β) : Layer β := fun request =>
  match parts.exceeded request with
  | .error e => .error e
  | .ok (some limit) => .ok (RateLimit.exceededHandler limit)
  | .ok none => (app request).map (parts.injectHeaders request)

/-- `TrustedHostMiddleware`. -/
def trustedHost (hosts : List Str) (app : Layer β) : Layer β := fun request =>
  if parts.allowedHost hosts request then app request else .ok (parts.hostResponse hosts request)

/-- `CORSMiddleware`. -/
def cors (origins : List Str) (credentials : Bool) (app : Layer β) : Layer β := fun request =>
  if request.IsPreflight then .ok (parts.preflightResponse origins credentials request)
  else (app request).map (parts.simpleResponse origins credentials request)

/-- The application, without the handler for `Exception`. -/
def layers (settings : Settings) : Layer β :=
  let app := parts.slowApi (exceptionMiddleware parts.endpoint)
  let app := if settings.securityHeadersEnabled
    then SecurityHeadersMiddleware.dispatch settings.hstsEnabled app else app
  let app := MaxBodySizeMiddleware.dispatch settings.maxRequestBytes
    (.ok (MaxBodySizeMiddleware.tooLarge settings.maxRequestBytes)) app
  let app := fun request => RequestIDMiddleware.dispatch (parts.uuid request) app request
  let app := if settings.trustedHostList ≠ [['*']]
    then parts.trustedHost settings.trustedHostList app else app
  parts.cors settings.corsOriginList settings.corsAllowCredentials app

/-- `create_app`: the response to a request. -/
def createApp (settings : Settings) (request : HttpRequest) : Response (Content β) :=
  match parts.layers settings request with
  | .ok r => r
  | .error _ => Response.internalError

end Parts

/-! ## The contract -/

/-- **What every response should be**: it has the security headers and the request's id, and an
error is an envelope. -/
structure Response.Honours (hsts : Bool) (r : Response (Content β)) : Prop where
  secured : ∀ h ∈ SecurityHeadersMiddleware.securityHeaders hsts, r.has h.1 = true
  identified : r.has RequestIDMiddleware.requestIdHeader = true
  enveloped : 400 ≤ r.status → r.body.isRight = true

namespace Parts

variable {parts : Parts β} {settings : Settings} {request : HttpRequest}

/-- A request that passes the layers without an answer of their own, down to the limiter. -/
structure Passes (parts : Parts β) (settings : Settings) (request : HttpRequest) : Prop where
  simple : ¬ request.IsPreflight
  host : settings.trustedHostList ≠ [['*']] →
    parts.allowedHost settings.trustedHostList request = true
  length : ∀ n ∈ MaxBodySizeMiddleware.declared request, n ≤ settings.maxRequestBytes

/-- **What goes well inside**: a limit is exceeded, or the route returns or raises what there is a
handler for, and the readiness probe finds the database up. -/
def GoesWell (parts : Parts β) (request : HttpRequest) : Prop :=
  match parts.exceeded request with
  | .error _ => False
  | .ok (some _) => True
  | .ok none =>
    if request.IsReadiness then parts.databaseUp request = true
    else parts.route request ≠ .error .unexpected

/-- A route that returns goes well. -/
theorem goesWell_of_returned (hlimit : parts.exceeded request = .ok none)
    (hready : ¬ request.IsReadiness) {r : Response (Content β)}
    (hroute : parts.route request = .ok r) : parts.GoesWell request := by
  simp only [GoesWell, hlimit, if_neg hready, hroute]
  exact nofun

/-- Every handler answers with an envelope. -/
theorem isRight_handler {e : Raised} {r : Response (Content β)} (h : e.handler = some r) :
    r.body.isRight = true := by
  cases e <;> cases h <;> rfl

theorem handler_eq_none {e : Raised} : (e.handler : Option (Response (Content β))) = none ↔
    e = .unexpected := by
  cases e <;> simp [Raised.handler]

/-- The layers under the security headers. -/
abbrev inner (parts : Parts β) : Layer β := parts.slowApi (exceptionMiddleware parts.endpoint)

/-- Below the limiter, what goes well is a success or an envelope. -/
theorem exceptionMiddleware_ok (parts : Parts β)
    (h : if request.IsReadiness then parts.databaseUp request = true
      else parts.route request ≠ .error .unexpected) :
    ∃ r, exceptionMiddleware parts.endpoint request = .ok r ∧
      (400 ≤ r.status → r.body.isRight = true) := by
  rw [exceptionMiddleware, endpoint]
  split_ifs at h ⊢ with hready
  · rw [h]
    have hstatus : (ready true : Response (Content β)).status = 200 := rfl
    exact ⟨_, rfl, fun hge => by omega⟩
  · rcases hroute : parts.route request with e | r
    · rcases hhandler : (e.handler : Option (Response (Content β))) with _ | r
      · obtain rfl := handler_eq_none.mp hhandler
        exact absurd hroute h
      · exact ⟨r, by simp only [hhandler], fun _ => isRight_handler hhandler⟩
    · have hstatus := parts.route_status request r hroute
      exact ⟨r, rfl, fun hge => by omega⟩

/-- The rest is an exception, or the bare 503 of the readiness probe. -/
theorem exceptionMiddleware_fails (parts : Parts β)
    (h : ¬ if request.IsReadiness then parts.databaseUp request = true
      else parts.route request ≠ .error .unexpected) :
    (∃ e, exceptionMiddleware parts.endpoint request = .error e) ∨
      ∃ r, exceptionMiddleware parts.endpoint request = .ok r ∧
        400 ≤ r.status ∧ r.body.isRight = false := by
  rw [exceptionMiddleware, endpoint]
  split_ifs at h ⊢ with hready
  · rw [Bool.not_eq_true] at h
    rw [h]
    have hstatus : (ready false : Response (Content β)).status = 503 := rfl
    exact Or.inr ⟨_, rfl, by omega, rfl⟩
  · rw [not_not.mp h]
    exact Or.inl ⟨_, rfl⟩

/-- **Under the security headers**: what goes well is a success or an envelope, and the rest an
exception or the bare 503. -/
theorem inner_cases (parts : Parts β) (request : HttpRequest) :
    (parts.GoesWell request →
      ∃ r, parts.inner request = .ok r ∧ (400 ≤ r.status → r.body.isRight = true)) ∧
    (¬ parts.GoesWell request → (∃ e, parts.inner request = .error e) ∨
      ∃ r, parts.inner request = .ok r ∧ 400 ≤ r.status ∧ r.body.isRight = false) := by
  rw [inner, slowApi, GoesWell]
  rcases parts.exceeded request with e | _ | limit
  · exact ⟨False.elim, fun _ => Or.inl ⟨e, rfl⟩⟩
  · refine ⟨fun h => ?_, fun h => ?_⟩
    · obtain ⟨r, hr, henvelope⟩ := parts.exceptionMiddleware_ok h
      refine ⟨parts.injectHeaders request r, by simp only [hr, Except.map], ?_⟩
      rwa [parts.inject_status, parts.inject_body]
    · rcases parts.exceptionMiddleware_fails h with ⟨e, he⟩ | ⟨r, hr, hstatus, hbody⟩
      · exact Or.inl ⟨e, by simp only [he, Except.map]⟩
      · refine Or.inr ⟨parts.injectHeaders request r, by simp only [hr, Except.map], ?_⟩
        rw [parts.inject_status, parts.inject_body]
        exact ⟨hstatus, hbody⟩
  · exact ⟨fun _ => ⟨_, rfl, fun _ => rfl⟩, fun h => absurd trivial h⟩

/-! ## From the outside in -/

/-- The response after the middleware around the limiter, when the security headers are enabled. -/
def decorate (parts : Parts β) (settings : Settings) (request : HttpRequest)
    (r : Response (Content β)) : Response (Content β) :=
  parts.simpleResponse settings.corsOriginList settings.corsAllowCredentials request
    (Response.set RequestIDMiddleware.requestIdHeader
      (RequestIDMiddleware.requestId (parts.uuid request) request)
      (SecurityHeadersMiddleware.secure
        (SecurityHeadersMiddleware.securityHeaders settings.hstsEnabled) r))

theorem status_decorate (r : Response (Content β)) :
    (parts.decorate settings request r).status = r.status := by
  rw [decorate, parts.simple_status, Response.status_set, SecurityHeadersMiddleware.status_secure]

theorem body_decorate (r : Response (Content β)) :
    (parts.decorate settings request r).body = r.body := by
  rw [decorate, parts.simple_body, Response.body_set, SecurityHeadersMiddleware.body_secure]

/-- The host check, where it is installed. -/
def hostChecked (parts : Parts β) (settings : Settings) (app : Layer β) : Layer β :=
  if settings.trustedHostList ≠ [['*']] then parts.trustedHost settings.trustedHostList app else app

/-- The layers from the request's id inwards. -/
def identified (parts : Parts β) (settings : Settings) : Layer β := fun request =>
  RequestIDMiddleware.dispatch (parts.uuid request)
    (MaxBodySizeMiddleware.dispatch settings.maxRequestBytes
      (.ok (MaxBodySizeMiddleware.tooLarge settings.maxRequestBytes))
      (SecurityHeadersMiddleware.dispatch settings.hstsEnabled parts.inner)) request

theorem layers_eq (hsecure : settings.securityHeadersEnabled = true) :
    parts.layers settings = parts.cors settings.corsOriginList settings.corsAllowCredentials
      (parts.hostChecked settings (parts.identified settings)) := by
  rw [layers, hsecure]
  rfl

theorem hostChecked_of_allowed {app : Layer β} (h : settings.trustedHostList ≠ [['*']] →
    parts.allowedHost settings.trustedHostList request = true) :
    parts.hostChecked settings app request = app request := by
  rw [hostChecked]
  split_ifs with htrusted
  · rw [trustedHost, if_pos (h htrusted)]
  · rfl

/-- **A request that passes** gets what the limiter and the routes make of it, decorated. -/
theorem layers_of_passes (hsecure : settings.securityHeadersEnabled = true)
    (h : parts.Passes settings request) :
    parts.layers settings request =
      (parts.inner request).map (parts.decorate settings request) := by
  have hlength : ¬ ∃ n ∈ MaxBodySizeMiddleware.declared request, settings.maxRequestBytes < n := by
    rintro ⟨n, hn, hlt⟩
    exact absurd (h.length n hn) (Int.not_le.mpr hlt)
  rw [layers_eq hsecure, cors, if_neg h.simple, hostChecked_of_allowed h.host, identified,
    RequestIDMiddleware.dispatch, MaxBodySizeMiddleware.dispatch_eq, if_neg hlength,
    SecurityHeadersMiddleware.dispatch]
  rcases parts.inner request with e | r <;> rfl

/-- **A request that does not pass** gets a response without the request's id, or without the
security headers. -/
theorem layers_of_not_passes (hsecure : settings.securityHeadersEnabled = true)
    (h : ¬ parts.Passes settings request) :
    ∃ r, parts.layers settings request = .ok r ∧
      (r.has RequestIDMiddleware.requestIdHeader = false ∨
        r.has "X-Content-Type-Options" = false) := by
  have hid : isCorsHeader RequestIDMiddleware.requestIdHeader = false := by decide +kernel
  have hoptions : isCorsHeader "X-Content-Type-Options" = false := by decide +kernel
  have hother : sameName RequestIDMiddleware.requestIdHeader "X-Content-Type-Options" = false := by
    decide +kernel
  rw [layers_eq hsecure, cors]
  split_ifs with hpreflight
  · exact ⟨_, rfl, Or.inl (parts.preflight_has _ _ _)⟩
  by_cases hhost : settings.trustedHostList ≠ [['*']] →
      parts.allowedHost settings.trustedHostList request = true
  · have hlength : ∃ n ∈ MaxBodySizeMiddleware.declared request, settings.maxRequestBytes < n := by
      by_contra hlength
      exact h ⟨hpreflight, hhost, fun n hn => Int.not_lt.mp fun hlt => hlength ⟨n, hn, hlt⟩⟩
    rw [hostChecked_of_allowed hhost, identified, RequestIDMiddleware.dispatch,
      MaxBodySizeMiddleware.dispatch_eq, if_pos hlength]
    refine ⟨_, rfl, Or.inr ?_⟩
    rw [parts.simple_has _ _ _ _ _ hoptions, Response.has_set, hother]
    rfl
  · obtain ⟨htrusted, hallowed⟩ := Classical.not_imp.mp hhost
    rw [hostChecked, if_pos htrusted, trustedHost, if_neg hallowed]
    refine ⟨_, rfl, Or.inl ?_⟩
    rw [parts.simple_has _ _ _ _ _ hid]
    exact parts.host_has _ _

/-- The names of the security headers. -/
theorem not_isCorsHeader {hsts : Bool} {h : String × Str}
    (hh : h ∈ SecurityHeadersMiddleware.securityHeaders hsts) : isCorsHeader h.1 = false := by
  have hall : (SecurityHeadersMiddleware.securityHeaders hsts).all
      (fun h => !isCorsHeader h.1) = true := by
    cases hsts <;> decide +kernel
  simpa using List.all_eq_true.mp hall h hh

/-- **Decorated, a response honours the contract when its errors are envelopes.** -/
theorem honours_decorate {r : Response (Content β)} :
    (parts.decorate settings request r).Honours settings.hstsEnabled ↔
      (400 ≤ r.status → r.body.isRight = true) := by
  constructor
  · intro h
    simpa only [status_decorate, body_decorate] using h.enveloped
  · intro h
    refine ⟨fun header hheader => ?_, ?_, by rwa [status_decorate, body_decorate]⟩
    · rw [decorate, parts.simple_has _ _ _ _ _ (not_isCorsHeader hheader), Response.has_set,
        SecurityHeadersMiddleware.has_secure]
      have hmem : ((SecurityHeadersMiddleware.securityHeaders settings.hstsEnabled).any fun h =>
          sameName h.1 header.1) = true :=
        List.any_eq_true.mpr ⟨header, hheader, sameName_self _⟩
      rw [hmem, Bool.or_true, Bool.true_or]
    · have hid : isCorsHeader RequestIDMiddleware.requestIdHeader = false := by decide +kernel
      rw [decorate, parts.simple_has _ _ _ _ _ hid, Response.has_set, sameName_self, Bool.or_true]

/-- A response that lacks a header of the contract. -/
theorem not_honours_of_lacks {hsts : Bool} {r : Response (Content β)}
    (h : r.has RequestIDMiddleware.requestIdHeader = false ∨
      r.has "X-Content-Type-Options" = false) : ¬ r.Honours hsts := by
  intro honours
  rcases h with h | h
  · rw [honours.identified] at h
    cases h
  · have hoptions := honours.secured ("X-Content-Type-Options", "nosniff".toList)
      (List.mem_append_left _ List.mem_cons_self)
    rw [hoptions] at h
    cases h

/-- **When a response honours the contract**: with the security headers enabled, exactly when the
request is no preflight, its host is allowed, the length it declares is within the limit, and what
goes on inside neither raises an exception without a handler nor is the readiness probe with the
database down. -/
theorem contract_iff (parts : Parts β) (settings : Settings) (request : HttpRequest)
    (hsecure : settings.securityHeadersEnabled = true) :
    (parts.createApp settings request).Honours settings.hstsEnabled ↔
      parts.Passes settings request ∧ parts.GoesWell request := by
  rw [createApp]
  by_cases hpasses : parts.Passes settings request
  · rw [and_iff_right hpasses, layers_of_passes hsecure hpasses]
    obtain ⟨hwell, hbad⟩ := parts.inner_cases request
    by_cases hgoes : parts.GoesWell request
    · obtain ⟨r, hr, henvelope⟩ := hwell hgoes
      rw [hr]
      exact iff_of_true (honours_decorate.mpr henvelope) hgoes
    · refine iff_of_false ?_ hgoes
      rcases hbad hgoes with ⟨e, he⟩ | ⟨r, hr, hstatus, hbody⟩
      · rw [he]
        exact not_honours_of_lacks (Or.inl rfl)
      · rw [hr]
        intro honours
        rw [honours_decorate.mp honours hstatus] at hbody
        cases hbody
  · obtain ⟨r, hr, hlacks⟩ := layers_of_not_passes hsecure hpasses
    rw [hr]
    exact iff_of_false (not_honours_of_lacks hlacks) fun h => hpasses h.1

/-- **What a service's outcome becomes**: a request that passes, below the limit, is answered with
the status and the body that `Response.ofExcept` gives. -/
theorem createApp_route (hsecure : settings.securityHeadersEnabled = true)
    (hpasses : parts.Passes settings request) (hlimit : parts.exceeded request = .ok none)
    (hready : ¬ request.IsReadiness) {result : Except Exc (Response (Content β))}
    (hroute : parts.route request = result.mapError Raised.ofExc) :
    (parts.createApp settings request).status = (Response.ofExcept result).status ∧
      (parts.createApp settings request).body = (Response.ofExcept result).body := by
  have hinner : parts.inner request =
      (exceptionMiddleware parts.endpoint request).map (parts.injectHeaders request) := by
    rw [inner, slowApi, hlimit]
  rw [createApp, layers_of_passes hsecure hpasses, hinner, exceptionMiddleware, endpoint,
    if_neg hready, hroute]
  have hdecorated : ∀ r : Response (Content β),
      (parts.decorate settings request (parts.injectHeaders request r)).status = r.status ∧
        (parts.decorate settings request (parts.injectHeaders request r)).body = r.body := fun r =>
    ⟨(status_decorate _).trans (parts.inject_status request r),
      (body_decorate _).trans (parts.inject_body request r)⟩
  rcases result with e | r
  · cases e with
    | app e => exact hdecorated (Response.ofAppError e)
    | _ => exact ⟨rfl, rfl⟩
  · exact hdecorated r

end Parts

/-- A route's response among the application's. -/
def Response.content (r : Response β) : Response (Content β) :=
  { status := r.status, headers := r.headers, body := r.body.map .route id }

/-- **Who is authenticated has an account.** -/
theorem Deps.registered_of_authenticated {P : Platform} {tokens : JwtTokenProvider} {db : Db}
    {now : ℤ} {authorization : Option Str} {user : UserRow}
    (h : Deps.getCurrentUser P tokens db now authorization = .ok user) : db.Registered user.id := by
  obtain ⟨-, -, -, -, -, -, huser⟩ := Deps.getCurrentUser_eq_ok.mp h
  exact ⟨user, huser⟩

namespace Parts

/-- **An authenticated request that passes is answered as one call**: by the status and the body of
`Routers.respond` for its user. -/
theorem createApp_respond {parts : Parts Body} {settings : Settings} {request : HttpRequest}
    (hsecure : settings.securityHeadersEnabled = true) (hpasses : parts.Passes settings request)
    (hlimit : parts.exceeded request = .ok none) (hready : ¬ request.IsReadiness) {P : Platform}
    {tokens : JwtTokenProvider} {db : Db} {now : ℤ} {user : UserRow}
    (hauth : Deps.getCurrentUser P tokens db now (request.header "authorization") = .ok user)
    {call : Request P} (hroute : parts.route request =
      ((Routers.route now db user.id call).map fun result => result.1.content).mapError
        Raised.ofExc) :
    (parts.createApp settings request).status = (Routers.respond db ⟨user.id, now, call⟩).1.status ∧
      (parts.createApp settings request).body
        = (Routers.respond db ⟨user.id, now, call⟩).1.content.body := by
  have hanswer := createApp_route hsecure hpasses hlimit hready hroute
  rw [Routers.respond_eq (Deps.registered_of_authenticated hauth)]
  rcases hresult : Routers.route now db user.id call with e | result
  · rw [hresult] at hanswer
    cases e <;> exact hanswer
  · rw [hresult] at hanswer
    exact hanswer

/-! ## A response from each layer -/

/-- A route that answers, and one that fails. -/
def sampleRoute (request : HttpRequest) : Except Raised (Response (Content Unit)) :=
  if request.path = "/" then .ok { status := 200, body := .inl (.route ()) }
  else .error .unexpected

theorem sampleRoute_status (request : HttpRequest) (r : Response (Content Unit))
    (h : sampleRoute request = .ok r) : r.status < 400 := by
  rw [sampleRoute] at h
  split_ifs at h
  cases h
  decide

/-- Routes of which one fails, no rate limit, and a database that is down; requests without an
`Origin`, which the CORS middleware leaves alone. -/
def sample : Parts Unit where
  uuid _ := "0".toList
  preflightResponse _ _ _ := { status := 200, body := .inl (.text "OK") }
  simpleResponse _ _ _ r := r
  allowedHost hosts request := decide ((request.header "host").getD [] ∈ hosts)
  hostResponse _ _ := { status := 400, body := .inl (.text "Invalid host header") }
  exceeded _ := .ok none
  injectHeaders _ r := r
  databaseUp _ := false
  route := sampleRoute
  preflight_has _ _ _ := rfl
  simple_status _ _ _ _ := rfl
  simple_body _ _ _ _ := rfl
  simple_has _ _ _ _ _ _ := rfl
  host_has _ _ := rfl
  inject_status _ _ := rfl
  inject_body _ _ := rfl
  route_status := sampleRoute_status

/-- A request for a path. -/
def getting (path : String) (headers : List (String × Str)) : HttpRequest :=
  ⟨"GET", path, headers, "10.0.0.1".toList, []⟩

theorem contract_root : (sample.createApp {} (getting "/" [])).Honours false :=
  (contract_iff sample {} (getting "/" []) rfl).mpr
    ⟨⟨by decide, fun h => absurd rfl h, by decide⟩, goesWell_of_returned rfl (by decide) rfl⟩

/-- A request for a host that is not trusted. -/
def wrongHost : Response (Content Unit) :=
  sample.createApp { trustedHosts := "example.com".toList }
    (getting "/" [("host", "evil.example".toList)])

/-- A request that declares one byte too many. -/
def tooLong : Response (Content Unit) :=
  sample.createApp {} (getting "/" [("content-length", "1048577".toList)])

/-- A route that raises an exception without a handler. -/
def failing : Response (Content Unit) := sample.createApp {} (getting "/api/bookmarks" [])

/-- The readiness probe, without a database. -/
def notReady : Response (Content Unit) := sample.createApp {} (getting "/health/ready" [])

/-- **The layers that break the contract**: the host check answers in plain text and without any of
the headers, the body limit without the security headers, the handler for `Exception` without any of
the headers, and the readiness probe without an envelope. -/
theorem contract_broken :
    (wrongHost.status = 400 ∧ wrongHost.body.isRight = false ∧ wrongHost.headers = [] ∧
      ¬ wrongHost.Honours false) ∧
    (tooLong.status = 413 ∧ tooLong.has "X-Content-Type-Options" = false ∧
      ¬ tooLong.Honours false) ∧
    (failing.status = 500 ∧ failing.headers = [] ∧ ¬ failing.Honours false) ∧
    notReady.status = 503 ∧ notReady.body.isRight = false ∧ ¬ notReady.Honours false := by
  refine ⟨⟨by decide +kernel, by decide +kernel, by decide +kernel, ?_⟩,
    ⟨by decide +kernel, by decide +kernel, ?_⟩, ⟨by decide +kernel, by decide +kernel, ?_⟩,
    by decide +kernel, by decide +kernel, ?_⟩
  · exact not_honours_of_lacks (Or.inl (by decide +kernel))
  · exact not_honours_of_lacks (Or.inr (by decide +kernel))
  · exact not_honours_of_lacks (Or.inl (by decide +kernel))
  · intro honours
    have henvelope := honours.enveloped (by decide +kernel)
    revert henvelope
    decide +kernel

end Parts
