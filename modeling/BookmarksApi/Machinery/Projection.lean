import BookmarksApi.Machinery.Runs

/-!
# Machinery/Projection — one party's part of a run

A machine serves several parties, and what a party puts in is an input of a smaller machine: the
party's own.  Where one input of the party does to both what the relation between them allows, and
an input of anybody else leaves the smaller machine where it is, a whole run does to the party what
the smaller machine does with the party's inputs alone (`Projection.run`).  The others' inputs could
be left out; nobody has to say what they were.
-/

variable {σ τ α β γ : Type*}

/-- **A party's part of a machine**: the inputs that are its own, and the smaller machine that keeps
up with them. -/
structure Projection (f : σ → α → β × σ) (g : τ → γ → β × τ) (R : σ → τ → Prop)
    (own : σ → α → Option γ) : Prop where
  mine : ∀ {s t a c}, R s t → own s a = some c → (f s a).1 = (g t c).1 ∧ R (f s a).2 (g t c).2
  theirs : ∀ {s t a}, R s t → own s a = none → R (f s a).2 t

/-- The inputs of a run that are a party's own. -/
def ownInputs (f : σ → α → β × σ) (own : σ → α → Option γ) (s : σ) (as : List α) : List γ :=
  (answered f s as).filterMap fun x => own x.before x.input

/-- The answers to them. -/
def ownOutputs (f : σ → α → β × σ) (own : σ → α → Option γ) (s : σ) (as : List α) : List β :=
  (answered f s as).filterMap fun x => (own x.before x.input).map fun _ => x.output

section

variable {f : σ → α → β × σ} {g : τ → γ → β × τ} {R : σ → τ → Prop} {own : σ → α → Option γ}

theorem ownInputs_cons (s : σ) (a : α) (as : List α) :
    ownInputs f own s (a :: as) = (own s a).toList ++ ownInputs f own (f s a).2 as := by
  rw [ownInputs, answered, List.filterMap_cons]
  cases own s a <;> rfl

theorem ownOutputs_cons (s : σ) (a : α) (as : List α) :
    ownOutputs f own s (a :: as)
      = ((own s a).map fun _ => (f s a).1).toList ++ ownOutputs f own (f s a).2 as := by
  rw [ownOutputs, answered, List.filterMap_cons]
  cases own s a <;> rfl

/-- What one is answered is among all that is answered. -/
theorem mem_outputs_of_mem_ownOutputs {s : σ} {as : List α} {b : β}
    (h : b ∈ ownOutputs f own s as) : b ∈ outputs f s as := by
  induction as generalizing s with
  | nil => cases h
  | cons a as ih =>
    rw [ownOutputs_cons, List.mem_append] at h
    rcases h with h | h
    · obtain ⟨c, -, rfl⟩ := Option.map_eq_some_iff.mp (Option.mem_toList.mp h)
      exact List.mem_cons_self
    · exact List.mem_cons_of_mem _ (ih h)

/-- **A run is to the party what its own machine makes of its own inputs.** -/
theorem Projection.run (h : Projection f g R own) {s : σ} {t : τ} (hR : R s t) (as : List α) :
    ownOutputs f own s as = outputs g t (ownInputs f own s as) ∧
      R (finalState f s as) (finalState g t (ownInputs f own s as)) := by
  induction as generalizing s t with
  | nil => exact ⟨rfl, hR⟩
  | cons a as ih =>
    rw [ownInputs_cons, ownOutputs_cons]
    rcases ha : own s a with _ | c
    · exact ih (h.theirs hR ha)
    · obtain ⟨hout, hR'⟩ := h.mine hR ha
      obtain ⟨houts, hend⟩ := ih hR'
      refine ⟨?_, hend⟩
      rw [Option.map_some, Option.toList_some, Option.toList_some, List.singleton_append,
        List.singleton_append, outputs, hout, houts]

end
