import Mathlib.Tactic.TypeStar

/-!
# Machinery/Transactions — statement by statement, to a commit or a rollback

A transaction works on a state of its own.  A statement that raises leaves in it what the statements
before it did; only the rollback takes that back.  `finish` runs the statements and ends the
transaction one way or the other, and comes to what the statements would as one that does all or
nothing (`committed_finish`).
-/

variable {σ ε : Type*}

/-- Statements as one. -/
def inOrder : List (σ → Except ε σ) → σ → Except ε σ
  | [], s => .ok s
  | f :: fs, s => (f s).bind (inOrder fs)

theorem inOrder_append (fs gs : List (σ → Except ε σ)) (s : σ) :
    inOrder (fs ++ gs) s = (inOrder fs s).bind (inOrder gs) := by
  induction fs generalizing s with
  | nil => rfl
  | cons f fs ih =>
    rw [List.cons_append, inOrder, inOrder]
    rcases f s with e | s'
    · rfl
    · exact ih s'

/-- What others see, and what the transaction has made of it. -/
structure Transaction (σ : Type*) where
  committed : σ
  working : σ

namespace Transaction

/-- Statement after statement, until one raises. -/
def execute (t : Transaction σ) : List (σ → Except ε σ) → Transaction σ × Option ε
  | [] => (t, none)
  | f :: fs =>
    match f t.working with
    | .error e => (t, some e)
    | .ok s => execute { t with working := s } fs

/-- What the transaction has done is there for all. -/
def commit (t : Transaction σ) : Transaction σ := { t with committed := t.working }

/-- What the transaction has done is gone. -/
def rollback (t : Transaction σ) : Transaction σ := { t with working := t.committed }

/-- **The end of a transaction**: the commit, when all statements went through. -/
def finish (t : Transaction σ) (fs : List (σ → Except ε σ)) : Transaction σ :=
  match t.execute fs with
  | (t, none) => t.commit
  | (t, some _) => t.rollback

/-- **All or nothing.** -/
theorem committed_finish (t : Transaction σ) (fs : List (σ → Except ε σ)) :
    (t.finish fs).committed = (inOrder fs t.working).toOption.getD t.committed := by
  induction fs generalizing t with
  | nil => rfl
  | cons f fs ih =>
    rcases hf : f t.working with e | s
    · have hexecute : t.execute (f :: fs) = (t, some e) := by rw [execute, hf]
      rw [finish, hexecute, inOrder, hf]
      rfl
    · have hexecute : t.execute (f :: fs) = execute { t with working := s } fs := by
        rw [execute, hf]
      have hfinish : t.finish (f :: fs) = finish { t with working := s } fs := by
        rw [finish, finish, hexecute]
      rw [hfinish, ih, inOrder, hf]
      rfl

end Transaction
