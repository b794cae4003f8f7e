import Mathlib.Data.List.Pairwise
import Mathlib.Data.Set.Basic
import Mathlib.Logic.Function.Basic
import Mathlib.Order.Basic

/-!
# Machinery/Versioned — cells that carry a version

A versioned store keeps, under each key, an entry that carries a version, and remembers which keys
it has handed out.  It **evolves** when a key in use never gains an entry it did not have, and an
entry only gives way to one of a larger version.  Evolution composes (`Evolves.trans`), and its
whole content is `Evolves.eq_of_version_eq`: between two moments at which a key shows one version,
nothing happened to it.  This is what a compare-and-write on the version relies on, and over the
moments of a whole run it says that a version names one entry for good (`eq_of_version_eq`).
-/

/-- Entries under keys, and the keys handed out so far. -/
structure Versioned (κ ε : Type*) where
  cell : κ → Option ε
  used : Set κ

namespace Versioned

variable {κ ε : Type*} {ver : ε → ℕ}

/-- **What may happen to a store**: a used key keeps its entry, loses it, or gets one of a larger
version. -/
structure Evolves (ver : ε → ℕ) (s t : Versioned κ ε) : Prop where
  used : s.used ⊆ t.used
  step : ∀ k ∈ s.used, ∀ e', t.cell k = some e' → ∃ e, s.cell k = some e ∧ (e = e' ∨ ver e < ver e')

theorem Evolves.refl (s : Versioned κ ε) : Evolves ver s s :=
  ⟨subset_rfl, fun _ _ e' h => ⟨e', h, Or.inl rfl⟩⟩

theorem Evolves.trans {s t u : Versioned κ ε} (h : Evolves ver s t) (h' : Evolves ver t u) :
    Evolves ver s u where
  used := h.used.trans h'.used
  step k hk e'' hu := by
    obtain ⟨e', ht, he'⟩ := h'.step k (h.used hk) e'' hu
    obtain ⟨e, hs, he⟩ := h.step k hk e' ht
    refine ⟨e, hs, ?_⟩
    rcases he with rfl | he
    · exact he'
    · rcases he' with rfl | he'
      · exact Or.inr he
      · exact Or.inr (he.trans he')

/-- A store with no entry changed evolves, whatever keys it hands out. -/
theorem Evolves.of_cell_eq {s t : Versioned κ ε} (hu : s.used ⊆ t.used)
    (hc : ∀ k ∈ s.used, t.cell k = s.cell k) : Evolves ver s t :=
  ⟨hu, fun k hk e' h => ⟨e', (hc k hk).symm.trans h, Or.inl rfl⟩⟩

theorem Evolves.version_le {s t : Versioned κ ε} (h : Evolves ver s t) {k : κ} (hk : k ∈ s.used)
    {e e' : ε} (hs : s.cell k = some e) (ht : t.cell k = some e') : ver e ≤ ver e' := by
  obtain ⟨e₀, he₀, h₀⟩ := h.step k hk e' ht
  obtain rfl : e = e₀ := Option.some.inj (hs.symm.trans he₀)
  rcases h₀ with rfl | h₀
  · exact le_rfl
  · exact h₀.le

/-- **One version, one entry**: a key that shows the same version at two moments shows the same
entry. -/
theorem Evolves.eq_of_version_eq {s t : Versioned κ ε} (h : Evolves ver s t) {k : κ}
    (hk : k ∈ s.used) {e e' : ε} (hs : s.cell k = some e) (ht : t.cell k = some e')
    (hv : ver e = ver e') : e = e' := by
  obtain ⟨e₀, he₀, h₀⟩ := h.step k hk e' ht
  obtain rfl : e = e₀ := Option.some.inj (hs.symm.trans he₀)
  rcases h₀ with h₀ | h₀
  · exact h₀
  · exact absurd hv h₀.ne

/-- …and so does every moment in between. -/
theorem Evolves.between {s m t : Versioned κ ε} (h : Evolves ver s m) (h' : Evolves ver m t) {k : κ}
    (hk : k ∈ s.used) {e e' : ε} (hs : s.cell k = some e) (ht : t.cell k = some e')
    (hv : ver e = ver e') : m.cell k = some e := by
  obtain ⟨e₁, hm, h₁⟩ := h'.step k (h.used hk) e' ht
  have hle : ver e₁ ≤ ver e' := h'.version_le (h.used hk) hm ht
  have hge : ver e ≤ ver e₁ := h.version_le hk hs hm
  rw [hm, h.eq_of_version_eq hk hs hm (by omega)]

/-- **A write of one cell** fills a new key, empties a key, or overwrites an entry by one of a
larger version. -/
theorem Evolves.of_update [DecidableEq κ] {s t : Versioned κ ε} {k₀ : κ} {entry : Option ε}
    (hu : s.used ⊆ t.used) (hc : t.cell = Function.update s.cell k₀ entry)
    (h : k₀ ∉ s.used ∨ entry = none ∨
      ∃ e₀ e₁, s.cell k₀ = some e₀ ∧ entry = some e₁ ∧ ver e₀ < ver e₁) : Evolves ver s t where
  used := hu
  step k hk e' he' := by
    rw [hc] at he'
    by_cases hkk : k = k₀
    · subst hkk
      rw [Function.update_self] at he'
      subst he'
      rcases h with hnew | hnone | ⟨e₀, e₁, hs, hsome, hv⟩
      · exact absurd hk hnew
      · cases hnone
      · obtain rfl := Option.some.inj hsome
        exact ⟨e₀, hs, Or.inr hv⟩
    · rw [Function.update_of_ne hkk] at he'
      exact ⟨e', he', Or.inl rfl⟩

/-- **A version that is over**: the key is used, and shows only larger ones. -/
def Past (ver : ε → ℕ) (s : Versioned κ ε) (k : κ) (v : ℕ) : Prop :=
  k ∈ s.used ∧ ∀ e, s.cell k = some e → v < ver e

/-- It does not come back. -/
theorem Evolves.past {s t : Versioned κ ε} (h : Evolves ver s t) {k : κ} {v : ℕ}
    (hp : s.Past ver k v) : t.Past ver k v := by
  refine ⟨h.used hp.1, fun e' ht => ?_⟩
  obtain ⟨e, hs, he⟩ := h.step k hp.1 e' ht
  have hlt := hp.2 e hs
  rcases he with rfl | he
  · exact hlt
  · exact hlt.trans he

/-! ## All moments together -/

/-- The cells at a later moment against those at an earlier one. -/
def Supersedes (ver : ε → ℕ) (later earlier : κ → Option ε) : Prop :=
  ∀ k e e', earlier k = some e → later k = some e' → e = e' ∨ ver e < ver e'

/-- **One more moment**: what evolves from the latest supersedes all before it. -/
theorem Evolves.pairwise_cons {f g : κ → Option ε} {fs : List (κ → Option ε)} {used used' : Set κ}
    (h : Evolves ver ⟨f, used⟩ ⟨g, used'⟩) (hused : ∀ f' ∈ f :: fs, ∀ k, (f' k).isSome → k ∈ used)
    (hp : (f :: fs).Pairwise (Supersedes ver)) : (g :: f :: fs).Pairwise (Supersedes ver) := by
  refine List.pairwise_cons.mpr ⟨fun f' hf' k e e'' he he'' => ?_, hp⟩
  obtain ⟨e', he', h'⟩ := h.step k (hused f' hf' k (by simp [he])) e'' he''
  have hle : e = e' ∨ ver e < ver e' := by
    rcases List.mem_cons.mp hf' with rfl | hf'
    · exact Or.inl (Option.some.inj (he.symm.trans he'))
    · exact (List.pairwise_cons.mp hp).1 f' hf' k e e' he he'
  rcases hle with rfl | hlt
  · exact h'
  · rcases h' with rfl | hlt'
    · exact Or.inr hlt
    · exact Or.inr (hlt.trans hlt')

/-- **One version, one entry**, at any two of the moments. -/
theorem eq_of_version_eq {fs : List (κ → Option ε)} (hp : fs.Pairwise (Supersedes ver))
    {f g : κ → Option ε} (hf : f ∈ fs) (hg : g ∈ fs) {k : κ} {e e' : ε} (he : f k = some e)
    (he' : g k = some e') (hv : ver e = ver e') : e = e' := by
  let R : (κ → Option ε) → (κ → Option ε) → Prop := fun f g =>
    ∀ e e', f k = some e → g k = some e' → ver e = ver e' → e = e'
  have hsymm : Std.Symm R := ⟨fun f g hR e e' he he' hv => (hR e' e he' he hv.symm).symm⟩
  have hR : fs.Pairwise R := hp.imp fun hs e e' he he' hv => by
    rcases hs k e' e he' he with heq | hlt
    · exact heq.symm
    · exact absurd hv.symm hlt.ne
  by_cases hfg : f = g
  · subst hfg
    exact Option.some.inj (he.symm.trans he')
  · exact hR.forall hf hg hfg e e' he he' hv

end Versioned
