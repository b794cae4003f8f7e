import BookmarksApi.Machinery.Runs

/-!
# Machinery/Beside — two groups of threads over one state

The threads of two machines move over one shared state, in any order.  Suppose that a move of the
first group which comes right after a move of the second could have come right before it, with both
doing as they did (`Overtakes`).  Then the first group could have gone first: wherever a run of the
two leads, a run of the first machine leads, and a run of the second from where that ends
(`Beside.run_first`).  Each thread ends as it did.
-/

variable {ι κ σ θ φ : Type*}

/-- A shared state, and the threads of two groups. -/
structure Beside (ι κ σ θ φ : Type*) where
  shared : σ
  left : ι → θ
  right : κ → φ

namespace Beside

/-- What the first group sees. -/
def first (c : Beside ι κ σ θ φ) : Conf ι σ θ := ⟨c.shared, c.left⟩

/-- What the second group sees. -/
def second (c : Beside ι κ σ θ φ) : Conf κ σ φ := ⟨c.shared, c.right⟩

variable [DecidableEq ι] [DecidableEq κ]

/-- A move of one of the threads. -/
inductive Step (M : Interleaving ι σ θ) (N : Interleaving κ σ φ) (c : Beside ι κ σ θ φ) :
    Beside ι κ σ θ φ → Prop
  | left {d : Conf ι σ θ} (h : M.Step c.first d) : Step M N c ⟨d.shared, d.thread, c.right⟩
  | right {d : Conf κ σ φ} (h : N.Step c.second d) : Step M N c ⟨d.shared, c.left, d.thread⟩

/-- Any number of moves, in any order of the threads of both groups. -/
def Run (M : Interleaving ι σ θ) (N : Interleaving κ σ φ) :
    Beside ι κ σ θ φ → Beside ι κ σ θ φ → Prop := Relation.ReflTransGen (Step M N)

/-- **A move of the first group can be taken ahead of one of the second**, from the configurations
that an invariant leaves. -/
structure Overtakes (M : Interleaving ι σ θ) (N : Interleaving κ σ φ)
    (I : Beside ι κ σ θ φ → Prop) : Prop where
  step : ∀ {c c'}, I c → Step M N c c' → I c'
  swap : ∀ {c i k s r s' l}, I c → N.move k c.second s r → M.move i ⟨s, c.left⟩ s' l →
    ∃ t, M.move i c.first t l ∧ N.move k ⟨t, c.right⟩ s' r

variable {M : Interleaving ι σ θ} {N : Interleaving κ σ φ} {I : Beside ι κ σ θ φ → Prop}
  {c c' : Beside ι κ σ θ φ}

/-- The second group may stand still. -/
theorem run_left {d : Conf ι σ θ} (h : M.Run c.first d) :
    Run M N c ⟨d.shared, d.thread, c.right⟩ := by
  induction h with
  | refl => exact .refl
  | tail _ hs ih => exact ih.tail (.left hs)

/-- So may the first. -/
theorem run_right {d : Conf κ σ φ} (h : N.Run c.second d) :
    Run M N c ⟨d.shared, c.left, d.thread⟩ := by
  induction h with
  | refl => exact .refl
  | tail _ hs ih => exact ih.tail (.right hs)

namespace Overtakes

variable (h : Overtakes M N I)
include h

theorem run (hrun : Run M N c c') (hc : I c) : I c' := by
  induction hrun with
  | refl => exact hc
  | tail _ hs ih => exact h.step ih hs

/-- **A move of the first group, ahead of a run of the second.** -/
theorem ahead (hc : I c) {d : Conf κ σ φ} (hrun : N.Run c.second d) {i : ι} {s' : σ} {l : θ}
    (hmove : M.move i ⟨d.shared, c.left⟩ s' l) :
    ∃ t, M.move i c.first t l ∧ N.Run ⟨t, c.right⟩ ⟨s', d.thread⟩ := by
  induction hrun generalizing s' with
  | refl => exact ⟨s', hmove, Interleaving.Run.refl _⟩
  | @tail d e hd hs ih =>
    obtain ⟨k, ⟨hk⟩⟩ := hs
    have hI : I ⟨d.shared, c.left, d.thread⟩ := h.run (run_right hd) hc
    obtain ⟨t, hi, hk'⟩ := h.swap hI hk hmove
    obtain ⟨t', hi', hrun'⟩ := ih hi
    exact ⟨t', hi', hrun'.tail ⟨k, ⟨hk'⟩⟩⟩

/-- **The first group could have gone first.** -/
theorem run_first (hrun : Run M N c c') (hc : I c) :
    ∃ t, M.Run c.first ⟨t, c'.left⟩ ∧ N.Run ⟨t, c.right⟩ c'.second := by
  induction hrun with
  | refl => exact ⟨c.shared, Interleaving.Run.refl _, Interleaving.Run.refl _⟩
  | @tail d e _ hs ih =>
    obtain ⟨t, hM, hN⟩ := ih
    cases hs with
    | right hs => exact ⟨t, hM, hN.tail hs⟩
    | left hs =>
      obtain ⟨i, ⟨hi⟩⟩ := hs
      have hI : I ⟨t, d.left, c.right⟩ := h.run (run_left hM) hc
      obtain ⟨t', hi', hN'⟩ := h.ahead hI hN hi
      exact ⟨t', hM.tail ⟨i, ⟨hi'⟩⟩, hN'⟩

end Overtakes

/-! ## Runs that can be computed -/

section Schedule

variable (next : ι → Conf ι σ θ → Option (σ × θ)) (next' : κ → Conf κ σ φ → Option (σ × φ))

/-- One computed move after another. -/
def schedule : List (ι ⊕ κ) → Beside ι κ σ θ φ → Option (Beside ι κ σ θ φ)
  | [], c => some c
  | .inl i :: is, c => (next i c.first).bind fun x =>
    schedule is ⟨x.1, Function.update c.left i x.2, c.right⟩
  | .inr k :: is, c => (next' k c.second).bind fun x =>
    schedule is ⟨x.1, c.left, Function.update c.right k x.2⟩

variable {next next'}

/-- **A schedule is a run.** -/
theorem run_of_schedule (hnext : ∀ i c s l, next i c = some (s, l) → M.move i c s l)
    (hnext' : ∀ k c s r, next' k c = some (s, r) → N.move k c s r) :
    ∀ {is : List (ι ⊕ κ)} {c c' : Beside ι κ σ θ φ},
      schedule next next' is c = some c' → Run M N c c' := by
  intro is
  induction is with
  | nil =>
    intro c c' h
    obtain rfl := Option.some.inj h
    exact .refl
  | cons i is ih =>
    intro c c' h
    rcases i with i | k
    · obtain ⟨x, hx, h⟩ := Option.bind_eq_some_iff.mp h
      exact (Relation.ReflTransGen.single (.left ⟨i, ⟨hnext i _ _ _ hx⟩⟩)).trans (ih h)
    · obtain ⟨x, hx, h⟩ := Option.bind_eq_some_iff.mp h
      exact (Relation.ReflTransGen.single (.right ⟨k, ⟨hnext' k _ _ _ hx⟩⟩)).trans (ih h)

end Schedule

end Beside
