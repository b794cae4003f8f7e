import BookmarksApi.Machinery.Runs
import Mathlib.Data.Set.Card

/-!
# Machinery/Serialization — interleaved threads as one machine

Each thread takes effect in one of its moves, or not at all.  When that move does to the shared
state what a sequential machine does on the thread's input, and every other move does nothing the
machine can see (`Seen`), a run comes to what the machine makes of the threads that took effect, one
at a time in the order of those moves (`Serial.run`).  A longer run only adds to the order, so a
thread that has taken effect comes before every thread that has not.
-/

namespace Interleaving

variable {ι σ θ τ β : Type*}

/-- **A serial order**: the threads that have taken effect, in an order in which the machine comes
to the shared state and answers each as it should. -/
structure Serial (R : σ → τ → Prop) (took : ι → θ → Prop) (good : β → Prop) (f : τ → ι → β × τ)
    (start : τ) (c : Conf ι σ θ) (order : List ι) : Prop where
  nodup : order.Nodup
  mem_iff : ∀ i, i ∈ order ↔ took i (c.thread i)
  related : R c.shared (finalState f start order)
  good : ∀ b ∈ outputs f start order, good b

/-- What the machine sees of a move: nothing, or the mover's input. -/
inductive Seen (R : σ → τ → Prop) (took : ι → θ → Prop) (good : β → Prop) (f : τ → ι → β × τ)
    (t : τ) (i : ι) (c c' : Conf ι σ θ) : Prop
  | nothing (htook : took i (c'.thread i) ↔ took i (c.thread i)) (hR : R c'.shared t)
  | input (hbefore : ¬ took i (c.thread i)) (hafter : took i (c'.thread i))
      (hR : R c'.shared (f t i).2) (hgood : good (f t i).1)

variable {R : σ → τ → Prop} {took : ι → θ → Prop} {good : β → Prop} {f : τ → ι → β × τ}
  {start : τ} {c c' : Conf ι σ θ} {order : List ι} {M : Interleaving ι σ θ} {i : ι}

/-- Nobody has taken effect yet. -/
theorem Serial.initial (hR : R c.shared start) (htook : ∀ i, ¬ took i (c.thread i)) :
    Serial R took good f start c [] :=
  ⟨List.nodup_nil, fun i => iff_of_false List.not_mem_nil (htook i), hR,
    fun _ hb => absurd hb List.not_mem_nil⟩

/-- **The order counts the threads that have taken effect.** -/
theorem Serial.countP_eq (h : Serial R took good f start c order) (p : ι → Bool) :
    order.countP p = {i | took i (c.thread i) ∧ p i = true}.ncard := by
  classical
  have hset : {i | took i (c.thread i) ∧ p i = true} = ((order.filter p).toFinset : Set ι) := by
    ext i
    rw [List.coe_toFinset]
    exact (and_congr_left fun _ => (h.mem_iff i).symm).trans List.mem_filter.symm
  rw [hset, Set.ncard_coe_finset, List.toFinset_card_of_nodup (h.nodup.filter p),
    List.countP_eq_length_filter]

variable [DecidableEq ι]

/-- One move adds its thread to the order, or nothing. -/
theorem Serial.step (h : Serial R took good f start c order) (hs : M.StepBy i c c')
    (hseen : Seen R took good f (finalState f start order) i c c') :
    Serial R took good f start c' order ∨ ¬ took i (c.thread i) ∧ took i (c'.thread i) ∧
      Serial R took good f start c' (order ++ [i]) := by
  cases hseen with
  | nothing htook hR =>
    refine Or.inl ⟨h.nodup, fun j => (h.mem_iff j).trans ?_, hR, h.good⟩
    by_cases hj : j = i
    · subst hj
      exact htook.symm
    · rw [hs.thread_ne hj]
  | input hbefore hafter hR hgood =>
    have hnew : i ∉ order := fun hi => hbefore ((h.mem_iff i).mp hi)
    refine Or.inr ⟨hbefore, hafter, ?_, fun j => ?_, ?_, fun b hb => ?_⟩
    · exact h.nodup.append (List.nodup_singleton i) (by simpa using hnew)
    · rw [List.mem_append, List.mem_singleton]
      by_cases hj : j = i
      · subst hj
        exact iff_of_true (Or.inr rfl) hafter
      · rw [hs.thread_ne hj, or_iff_left hj]
        exact h.mem_iff j
    · rw [finalState_append]
      exact hR
    · rw [outputs_append, List.mem_append] at hb
      rcases hb with hb | hb
      · exact h.good b hb
      · obtain rfl := List.mem_singleton.mp hb
        exact hgood

/-- **The serialization rule**, with what a thread owes after it has taken effect: the answer that
the machine gives it at its turn. -/
theorem Serial.run_owed {I : Conf ι σ θ → Prop} (owed : ι → β → Conf ι σ θ → Prop)
    (hstep : ∀ i c c' t, I c → R c.shared t → M.StepBy i c c' →
      I c' ∧ Seen R took good f t i c c' ∧
        (¬ took i (c.thread i) → took i (c'.thread i) → owed i (f t i).1 c'))
    (hkeep : ∀ i c c' j b, I c → M.StepBy i c c' → owed j b c → owed j b c')
    (hrun : M.Run c c') (hc : I c) (h : Serial R took good f start c order)
    (howed : ∀ x ∈ answered f start order, owed x.input x.output c) :
    I c' ∧ ∃ later, Serial R took good f start c' (order ++ later) ∧
      ∀ x ∈ answered f start (order ++ later), owed x.input x.output c' := by
  induction hrun with
  | refl => exact ⟨hc, [], (List.append_nil order).symm ▸ ⟨h, howed⟩⟩
  | tail _ hs ih =>
    obtain ⟨hI, later, hlater, howed⟩ := ih
    obtain ⟨i, hs⟩ := hs
    obtain ⟨hI', hseen, hnew⟩ := hstep i _ _ _ hI hlater.related hs
    refine ⟨hI', ?_⟩
    rcases hlater.step hs hseen with hsame | ⟨hbefore, hafter, hmore⟩
    · exact ⟨later, hsame, fun x hx => hkeep i _ _ _ _ hI hs (howed x hx)⟩
    · rw [List.append_assoc] at hmore
      refine ⟨later ++ [i], hmore, fun x hx => ?_⟩
      rw [← List.append_assoc, answered_append, List.mem_append] at hx
      rcases hx with hx | hx
      · exact hkeep i _ _ _ _ hI hs (howed x hx)
      · obtain rfl := List.mem_singleton.mp hx
        exact hnew hbefore hafter

/-- **The serialization rule.** -/
theorem Serial.run {I : Conf ι σ θ → Prop}
    (hstep : ∀ i c c' t, I c → R c.shared t → M.StepBy i c c' →
      I c' ∧ Seen R took good f t i c c')
    (hrun : M.Run c c') (hc : I c) (h : Serial R took good f start c order) :
    I c' ∧ ∃ later, Serial R took good f start c' (order ++ later) := by
  obtain ⟨hI, later, hlater, -⟩ := Serial.run_owed (fun _ _ _ => True)
    (fun i c c' t hI hR hs => ⟨(hstep i c c' t hI hR hs).1, (hstep i c c' t hI hR hs).2,
      fun _ _ => trivial⟩)
    (fun _ _ _ _ _ _ _ _ => trivial) hrun hc h fun _ _ => trivial
  exact ⟨hI, later, hlater⟩

end Interleaving
