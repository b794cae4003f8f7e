import BookmarksApi.Text

/-!
# Core/Errors — exceptions and the responses they become

An expected failure is an `AppError`, with its status, code, message, details and headers.  The
other exceptions a request can raise have no handler of their own and end as a 500.
-/

/-- A value in an error's details. -/
inductive Json
  | str (s : Str)
  | int (n : ℤ)
  deriving DecidableEq, Repr

/-- An expected application error. -/
structure AppError where
  statusCode : ℕ
  code : String
  message : String
  details : Option (List (String × Json)) := none
  headers : List (String × Str) := []
  deriving DecidableEq, Repr

/-- What a request can raise. -/
inductive Exc
  /-- An `AppError`. -/
  | app (e : AppError)
  /-- `ValueError`, from `normalize_tags`. -/
  | valueError
  /-- `IntegrityError`: a uniqueness or foreign-key constraint refused a statement. -/
  | integrityError
  /-- `StaleDataError`: a flush matched fewer rows than it expected. -/
  | staleData
  /-- `StaleVersionError`, what the repository makes of a lost race. -/
  | staleVersion
  /-- `InvalidRequestError`: `refresh` of a row that is gone. -/
  | invalidRequest
  /-- `OverflowError`: an integer the driver cannot bind, or a date that is out of range. -/
  | overflow
  /-- `OperationalError`: a pattern that the database's `LIKE` does not take. -/
  | operational
  /-- passlib's `PasswordSizeError`. -/
  | passwordSize
  deriving DecidableEq, Repr

def authError (message : String) : AppError :=
  { statusCode := 401, code := "AUTHENTICATION_ERROR", message := message }

def notFoundError (message : String) (details : List (String × Json)) : AppError :=
  { statusCode := 404, code := "NOT_FOUND", message := message, details := some details }

def conflictError (message : String) (details : List (String × Json)) : AppError :=
  { statusCode := 409, code := "CONFLICT", message := message, details := some details }

def preconditionRequiredError (message : String) (details : List (String × Json))
    (headers : List (String × Str)) : AppError :=
  { statusCode := 428, code := "PRECONDITION_REQUIRED", message := message
    details := some details, headers := headers }

def preconditionFailedError (message : String) (details : Option (List (String × Json)))
    (headers : List (String × Str)) : AppError :=
  { statusCode := 412, code := "PRECONDITION_FAILED", message := message
    details := details, headers := headers }

def tooManyAttemptsError (message : String) (details : List (String × Json))
    (headers : List (String × Str)) : AppError :=
  { statusCode := 429, code := "TOO_MANY_ATTEMPTS", message := message
    details := some details, headers := headers }

/-- `_STATUS_TO_CODE`. -/
def statusToCode : List (ℕ × String) :=
  [(400, "BAD_REQUEST"), (401, "AUTHENTICATION_ERROR"), (403, "PERMISSION_DENIED"),
    (404, "NOT_FOUND"), (405, "METHOD_NOT_ALLOWED"), (409, "CONFLICT"),
    (412, "PRECONDITION_FAILED"), (422, "VALIDATION_ERROR"), (428, "PRECONDITION_REQUIRED"),
    (429, "RATE_LIMITED")]

/-- The body of an error response, inside the `error` envelope. -/
structure ErrorBody where
  code : String
  message : String
  details : Option (List (String × Json))
  deriving DecidableEq, Repr

/-- An answer over a type of bodies. -/
structure Response (β : Type*) where
  status : ℕ
  headers : List (String × Str) := []
  body : β ⊕ ErrorBody
  deriving DecidableEq

namespace Response

variable {β : Type*}

/-- `_handle_app_error`. -/
def ofAppError (e : AppError) : Response β :=
  { status := e.statusCode, headers := e.headers, body := .inr ⟨e.code, e.message, e.details⟩ }

/-- `_handle_unexpected`. -/
def internalError : Response β :=
  { status := 500, body := .inr ⟨"INTERNAL_ERROR", "An unexpected error occurred.", none⟩ }

/-- `_handle_validation`, over what `_humanize_validation` makes of the errors. -/
def ofValidationError (message : String) (details : List (String × Json)) : Response β :=
  { status := 422, body := .inr ⟨"VALIDATION_ERROR", message, some details⟩ }

/-- `_handle_http`: `detail` is there when it is a text. -/
def ofHttpException (statusCode : ℕ) (detail : Option String) (headers : List (String × Str)) :
    Response β :=
  { status := statusCode, headers := headers
    body := .inr ⟨(statusToCode.lookup statusCode).getD "HTTP_ERROR",
      detail.getD "Request could not be completed.", none⟩ }

/-- The handler an exception reaches. -/
def ofExc : Exc → Response β
  | .app e => ofAppError e
  | _ => internalError

theorem isLeft_ofExc (x : Exc) : (ofExc x : Response β).body.isLeft = false := by
  cases x <;> rfl

/-- What a request ends in. -/
def ofExcept : Except Exc (Response β) → Response β
  | .ok r => r
  | .error e => ofExc e

/-- The `ETag` header. -/
def etag (r : Response β) : Option Str := r.headers.lookup "ETag"

end Response
