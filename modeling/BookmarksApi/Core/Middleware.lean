import BookmarksApi.Core.Http
import BookmarksApi.Text.Integers

/-!
# Core/Middleware — security headers, request ids, the body limit

A `dispatch` takes a request and `call_next`, the application behind it.  The body limit looks at
the declared length only: a body that declares none, or declares it in a way `int` does not read, is
passed on whatever its size (`body_limit_iff`).
-/

variable {β ε : Type*}

namespace SecurityHeadersMiddleware

/-- The headers and their defaults. -/
def securityHeaders (hsts : Bool) : List (String × Str) :=
  [("X-Content-Type-Options", "nosniff".toList),
    ("X-Frame-Options", "DENY".toList),
    ("Referrer-Policy", "no-referrer".toList),
    ("Cross-Origin-Opener-Policy", "same-origin".toList),
    ("Content-Security-Policy", "default-src 'none'; frame-ancestors 'none'".toList)] ++
  if hsts then [("Strict-Transport-Security", "max-age=31536000; includeSubDomains".toList)] else []

/-- The defaults, set one after the other. -/
def secure (headers : List (String × Str)) (r : Response β) : Response β :=
  headers.foldl (fun r h => r.setDefault h.1 h.2) r

/-- `dispatch`. -/
def dispatch (hsts : Bool) (callNext : HttpRequest → Except ε (Response β))
    (request : HttpRequest) : Except ε (Response β) :=
  (callNext request).map (secure (securityHeaders hsts))

theorem status_secure (headers : List (String × Str)) (r : Response β) :
    (secure headers r).status = r.status := by
  induction headers generalizing r with
  | nil => rfl
  | cons h headers ih => exact (ih _).trans Response.status_setDefault

theorem body_secure (headers : List (String × Str)) (r : Response β) :
    (secure headers r).body = r.body := by
  induction headers generalizing r with
  | nil => rfl
  | cons h headers ih => exact (ih _).trans Response.body_setDefault

/-- **Every default is there afterwards.** -/
theorem has_secure (headers : List (String × Str)) (r : Response β) (name : String) :
    (secure headers r).has name = (r.has name || headers.any fun h => sameName h.1 name) := by
  induction headers generalizing r with
  | nil => rw [secure, List.foldl_nil, List.any_nil, Bool.or_false]
  | cons h headers ih =>
    rw [List.any_cons, ← Bool.or_assoc, ← Response.has_setDefault]
    exact ih _

end SecurityHeadersMiddleware

namespace RequestIDMiddleware

/-- `REQUEST_ID_HEADER`. -/
def requestIdHeader : String := "X-Request-ID"

/-- The request's id: the inbound one, or a fresh one when that is absent or empty. -/
def requestId (uuid : Str) (request : HttpRequest) : Str :=
  match request.header "x-request-id" with
  | none => uuid
  | some inbound => if inbound = [] then uuid else inbound

/-- `dispatch`. -/
def dispatch (uuid : Str) (callNext : HttpRequest → Except ε (Response β)) (request : HttpRequest) :
    Except ε (Response β) :=
  (callNext request).map (Response.set requestIdHeader (requestId uuid request))

end RequestIDMiddleware

namespace MaxBodySizeMiddleware

/-- `_too_large`. -/
def tooLarge (maxBytes : ℤ) : Response β :=
  { status := 413
    body := .inr ⟨"PAYLOAD_TOO_LARGE",
      "Request body exceeds the " ++ toString maxBytes ++ "-byte limit.",
      some [("limit", .int maxBytes)]⟩ }

/-- The length a request declares, if `int` reads it. -/
def declared (request : HttpRequest) : Option ℤ :=
  (request.header "content-length").bind Str.toInt?

/-- `dispatch`, with what it returns for a body that is too large. -/
def dispatch {α : Type*} (maxBytes : ℤ) (reject : α) (callNext : HttpRequest → α)
    (request : HttpRequest) : α :=
  match request.header "content-length" with
  | none => callNext request
  | some contentLength =>
    match Str.toInt? contentLength with
    -- A malformed header: there is no enforcement below.
    | none => callNext request
    | some n => if maxBytes < n then reject else callNext request

/-- **A request is rejected for the length it declares, and for nothing else.** -/
theorem dispatch_eq {α : Type*} (maxBytes : ℤ) (reject : α) (callNext : HttpRequest → α)
    (request : HttpRequest) : dispatch maxBytes reject callNext request =
      if ∃ n ∈ declared request, maxBytes < n then reject else callNext request := by
  rw [dispatch, declared]
  rcases request.header "content-length" with _ | contentLength
  · simp
  · rcases hread : Str.toInt? contentLength with _ | n <;> simp [hread]

/-! ## The limit -/

/-- What a request came to: the response, and the chunks that the application was handed. -/
structure Handled (β : Type*) where
  response : Response β
  handed : List (List UInt8)

/-- An application: the chunks it takes of a body, and its answer. -/
structure Application (β : Type*) where
  takes : HttpRequest → ℕ
  answer : HttpRequest → Response β

/-- The application serves a request. -/
def Application.serve (app : Application β) (request : HttpRequest) : Handled β :=
  ⟨app.answer request, request.body.take (app.takes request)⟩

/-- A request, served behind the middleware. -/
def serve (maxBytes : ℤ) (app : Application β) (request : HttpRequest) : Handled β :=
  dispatch maxBytes ⟨tooLarge maxBytes, []⟩ app.serve request

/-- The bytes of a body. -/
def bytes (chunks : List (List UInt8)) : ℕ := chunks.flatten.length

/-- **The limit holds of a request**: the application is not handed more, and a larger body is
answered 413. -/
def LimitHolds (maxBytes : ℤ) (app : Application β) (request : HttpRequest) : Prop :=
  bytes (serve maxBytes app request).handed ≤ maxBytes ∧
    (maxBytes < bytes request.body → (serve maxBytes app request).response.status = 413)

/-- The application that takes the whole body. -/
def Application.greedy : Application β where
  takes request := request.body.length
  answer _ := { status := 200, body := .inr ⟨"", "", none⟩ }

theorem bytes_take_le (n : ℕ) (chunks : List (List UInt8)) :
    bytes (chunks.take n) ≤ bytes chunks := by
  have hcut : bytes chunks = bytes (chunks.take n) + bytes (chunks.drop n) := by
    rw [bytes, bytes, bytes, ← List.length_append, ← List.flatten_append, List.take_append_drop]
  omega

/-- **When the limit holds**, whatever application is behind: the body is within it, or it declares
a length that is not. -/
theorem body_limit_iff (β : Type*) (maxBytes : ℤ) (request : HttpRequest) :
    (∀ app : Application β, LimitHolds maxBytes app request) ↔
      bytes request.body ≤ maxBytes ∨ 0 ≤ maxBytes ∧ ∃ n ∈ declared request, maxBytes < n := by
  constructor
  · intro h
    obtain ⟨hhanded, -⟩ := h .greedy
    by_cases hdeclared : ∃ n ∈ declared request, maxBytes < n
    · rw [serve, dispatch_eq, if_pos hdeclared] at hhanded
      exact Or.inr ⟨hhanded, hdeclared⟩
    · rw [serve, dispatch_eq, if_neg hdeclared, Application.serve, Application.greedy] at hhanded
      simp only [List.take_length] at hhanded
      exact Or.inl hhanded
  · intro h app
    by_cases hdeclared : ∃ n ∈ declared request, maxBytes < n
    · have hserve : serve maxBytes app request = ⟨tooLarge maxBytes, []⟩ := by
        rw [serve, dispatch_eq, if_pos hdeclared]
      rw [LimitHolds, hserve]
      refine ⟨?_, fun _ => rfl⟩
      rcases h with hbody | ⟨hmax, -⟩
      · exact Int.le_trans (Int.natCast_nonneg _) hbody
      · exact hmax
    · have hbody : bytes request.body ≤ maxBytes := h.resolve_right fun h => hdeclared h.2
      have hserve : serve maxBytes app request = app.serve request := by
        rw [serve, dispatch_eq, if_neg hdeclared]
      rw [LimitHolds, hserve]
      refine ⟨?_, fun hlt => absurd hbody (Int.not_le.mpr hlt)⟩
      have htaken := bytes_take_le (app.takes request) request.body
      exact Int.le_trans (Int.ofNat_le.mpr htaken) hbody

/-- Two chunks of two bytes, and no `Content-Length`. -/
def chunked : HttpRequest where
  method := "POST"
  path := "/api/bookmarks"
  headers := [("transfer-encoding", "chunked".toList)]
  remoteAddress := []
  body := [[0, 1], [2, 3]]

/-- **A streamed body passes the limit.** -/
theorem not_limitHolds_chunked :
    ¬ LimitHolds 3 (.greedy : Application Empty) chunked ∧
      bytes (serve 3 (.greedy : Application Empty) chunked).handed = 4 ∧
      (serve 3 (.greedy : Application Empty) chunked).response.status = 200 := by
  refine ⟨fun h => ?_, by decide, by decide⟩
  exact absurd h.1 (by decide)

end MaxBodySizeMiddleware
