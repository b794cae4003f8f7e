import BookmarksApi.Core.Errors

/-!
# Core/Http — requests and responses as the middleware sees them
-/

/-- A request: its headers under their names in lower case, and the chunks of its body. -/
structure HttpRequest where
  method : String
  path : String
  headers : List (String × Str)
  /-- `get_remote_address`. -/
  remoteAddress : Str
  body : List (List UInt8)
  deriving DecidableEq

/-- `request.headers.get(name)`: the first header of that name. -/
def HttpRequest.header (request : HttpRequest) (name : String) : Option Str :=
  request.headers.lookup name

/-- Header names are compared without case. -/
def sameName (a b : String) : Bool := a.toLower == b.toLower

theorem sameName_self (name : String) : sameName name name = true := beq_self_eq_true _

namespace Response

variable {β : Type*}

/-- `name in response.headers`. -/
def has (r : Response β) (name : String) : Bool := r.headers.any fun h => sameName h.1 name

/-- `response.headers.setdefault(name, value)`. -/
def setDefault (name : String) (value : Str) (r : Response β) : Response β :=
  if r.has name then r else { r with headers := r.headers ++ [(name, value)] }

/-- `headers[name] = value`: the first header of that name is replaced, the others go. -/
def replaceHeader (name : String) (value : Str) : List (String × Str) → List (String × Str)
  | [] => [(name, value)]
  | h :: hs =>
    if sameName h.1 name then (name, value) :: hs.filter fun h => !sameName h.1 name
    else h :: replaceHeader name value hs

/-- `response.headers[name] = value`. -/
def set (name : String) (value : Str) (r : Response β) : Response β :=
  { r with headers := replaceHeader name value r.headers }

variable {name : String} {value : Str} {r : Response β}

/-- A default header leaves the status. -/
@[simp] theorem status_setDefault : (r.setDefault name value).status = r.status := by
  rw [setDefault]
  split_ifs <;> rfl

/-- It leaves the body. -/
@[simp] theorem body_setDefault : (r.setDefault name value).body = r.body := by
  rw [setDefault]
  split_ifs <;> rfl

@[simp] theorem status_set : (r.set name value).status = r.status := rfl

@[simp] theorem body_set : (r.set name value).body = r.body := rfl

/-- **A default is set, and nothing is taken away.** -/
theorem has_setDefault {other : String} :
    (r.setDefault name value).has other = (r.has other || sameName name other) := by
  rw [setDefault]
  split_ifs with h
  · by_cases hsame : sameName name other = true
    · have hother : r.has other = true := by
        rw [has, List.any_eq_true] at h ⊢
        obtain ⟨header, hheader, heq⟩ := h
        simp only [sameName, beq_iff_eq] at heq hsame ⊢
        exact ⟨header, hheader, heq.trans hsame⟩
      rw [hother, Bool.true_or]
    · rw [Bool.not_eq_true] at hsame
      rw [hsame, Bool.or_false]
  · simp [has, List.any_append]

/-- **A header is set, and no other is taken away.** -/
theorem has_set {other : String} :
    (r.set name value).has other = (r.has other || sameName name other) := by
  have hsame : ∀ a, sameName a name = true → sameName a other = sameName name other := by
    intro a ha
    simp only [sameName, beq_iff_eq] at ha ⊢
    rw [ha]
  simp only [has, set]
  induction r.headers with
  | nil => simp [replaceHeader]
  | cons h hs ih =>
    rw [replaceHeader]
    split_ifs with heq
    · rw [List.any_cons, List.any_cons, hsame h.1 heq]
      rcases hname : sameName name other with _ | _
      · -- The headers taken away are of another name.
        rw [Bool.false_or, Bool.false_or, Bool.or_false, List.any_filter]
        refine List.any_congr rfl fun a => ?_
        rcases ha : sameName a.1 name with _ | _
        · rfl
        · rw [hsame a.1 ha, hname, Bool.and_false]
      · simp
    · rw [List.any_cons, ih, List.any_cons, Bool.or_assoc]

end Response
