import Mathlib.Data.List.Sort
import Mathlib.Data.Finset.Basic
import Mathlib.Data.Finset.Dedup

/-!
# Machinery/Ordering — sorting by a total preorder

A preorder here is a decidable test, as an `ORDER BY` clause is: `lex` reads several columns in
turn, `reverse` is `DESC`.  Sorted output depends on the rows alone once ties are broken
(`sort_eq_of_perm`), which is what lets a result be compared across two stores that keep their rows
in different orders.
-/

/-- A total preorder given by a test. -/
structure TotalPreorder (α : Type*) where
  le : α → α → Bool
  total : ∀ a b, le a b = true ∨ le b a = true
  trans : ∀ a b c, le a b = true → le b c = true → le a c = true

namespace TotalPreorder

variable {α β : Type*}

/-- An order is its test. -/
theorem eq_of_le {o p : TotalPreorder α} (h : ∀ a b, o.le a b = p.le a b) : o = p := by
  cases o
  cases p
  congr
  funext a b
  exact h a b

/-- The order of a linearly ordered type. -/
def ofLinearOrder (α : Type*) [LinearOrder α] : TotalPreorder α where
  le a b := decide (a ≤ b)
  total a b := by simpa using le_total a b
  trans a b c hab hbc := by
    simp only [decide_eq_true_eq] at *
    exact hab.trans hbc

/-- Comparing by a key. -/
def comap (f : β → α) (o : TotalPreorder α) : TotalPreorder β where
  le a b := o.le (f a) (f b)
  total a b := o.total (f a) (f b)
  trans a b c := o.trans (f a) (f b) (f c)

/-- The opposite order. -/
def reverse (o : TotalPreorder α) : TotalPreorder α where
  le a b := o.le b a
  total a b := o.total b a
  trans a b c hab hbc := o.trans c b a hbc hab

/-- First one order, then another among ties. -/
def lex (o p : TotalPreorder α) : TotalPreorder α where
  le a b := o.le a b && (!o.le b a || p.le a b)
  total a b := by
    have h := o.total a b
    have h' := p.total a b
    cases hab : o.le a b <;> cases hba : o.le b a <;> simp_all
  trans a b c hab hbc := by
    simp only [Bool.and_eq_true, Bool.or_eq_true, Bool.not_eq_true'] at *
    refine ⟨o.trans a b c hab.1 hbc.1, ?_⟩
    by_cases hca : o.le c a = true
    · have hba : o.le b a = true := o.trans b c a hbc.1 hca
      have hcb : o.le c b = true := o.trans c a b hca hab.1
      right
      exact p.trans a b c (by simpa [hba] using hab.2) (by simpa [hcb] using hbc.2)
    · exact Or.inl (by simpa using hca)

/-- **Ties of a lexicographic order are ties of its parts.** -/
theorem lex_antisymm {o p : TotalPreorder α} {a b : α} (hab : (o.lex p).le a b = true)
    (hba : (o.lex p).le b a = true) : p.le a b = true ∧ p.le b a = true := by
  simp only [lex, Bool.and_eq_true, Bool.or_eq_true, Bool.not_eq_true'] at hab hba
  exact ⟨by simpa [hba.1] using hab.2, by simpa [hab.1] using hba.2⟩

/-! ## Sorting -/

instance (o : TotalPreorder α) : Std.Total (fun a b => o.le a b = true) := ⟨o.total⟩

instance (o : TotalPreorder α) : IsTrans α (fun a b => o.le a b = true) := ⟨o.trans⟩

/-- Insertion sort by the test. -/
def sort (o : TotalPreorder α) (l : List α) : List α := l.insertionSort fun a b => o.le a b = true

theorem sort_perm (o : TotalPreorder α) (l : List α) : (o.sort l).Perm l :=
  List.perm_insertionSort _ l

theorem pairwise_sort (o : TotalPreorder α) (l : List α) :
    (o.sort l).Pairwise fun a b => o.le a b = true :=
  List.pairwise_insertionSort _ l

@[simp] theorem mem_sort {o : TotalPreorder α} {l : List α} {a : α} : a ∈ o.sort l ↔ a ∈ l :=
  (o.sort_perm l).mem_iff

theorem nodup_sort {o : TotalPreorder α} {l : List α} : (o.sort l).Nodup ↔ l.Nodup :=
  (o.sort_perm l).nodup_iff

/-- The test leaves no tie between different members of a list. -/
def Decides (o : TotalPreorder α) (l : List α) : Prop :=
  ∀ a ∈ l, ∀ b ∈ l, o.le a b = true → o.le b a = true → a = b

/-- **Where ties are broken, the sorted list depends on the members alone.** -/
theorem sort_eq_of_perm {o : TotalPreorder α} {l l' : List α} (h : l.Perm l')
    (hl : o.Decides l) : o.sort l = o.sort l' := by
  have hperm : (o.sort l).Perm (o.sort l') := ((o.sort_perm l).trans h).trans (o.sort_perm l').symm
  refine hperm.eq_of_pairwise ?_ (o.pairwise_sort l) (o.pairwise_sort l')
  intro a b ha hb
  exact hl a (mem_sort.mp ha) b (h.mem_iff.mpr (mem_sort.mp hb))

/-- **Two orders sort a list alike** where the one follows the other and leaves no tie. -/
theorem sort_eq_sort {o p : TotalPreorder α} {l : List α} (hl : o.Decides l)
    (h : ∀ a ∈ l, ∀ b ∈ l, p.le a b = true → o.le a b = true) : o.sort l = p.sort l := by
  have hperm : (o.sort l).Perm (p.sort l) := (o.sort_perm l).trans (p.sort_perm l).symm
  refine hperm.eq_of_pairwise ?_ (o.pairwise_sort l) ((p.pairwise_sort l).imp_of_mem ?_)
  · intro a b ha hb
    exact hl a (mem_sort.mp ha) b (mem_sort.mp hb)
  · intro a b ha hb
    exact h a (mem_sort.mp ha) b (mem_sort.mp hb)

/-- A key decides every list on which it is injective. -/
theorem decides_key {κ : Type*} {p : TotalPreorder κ} {key : α → κ} {l : List α}
    (hp : ∀ a b, p.le a b = true → p.le b a = true → a = b)
    (hl : ∀ a ∈ l, ∀ b ∈ l, key a = key b → a = b) : (p.comap key).Decides l :=
  fun a ha b hb hab hba => hl a ha b hb (hp _ _ hab hba)

/-- **A tie-breaker decides what it decides alone**, whatever is compared first. -/
theorem Decides.lex {o p : TotalPreorder α} {l : List α} (hp : p.Decides l) :
    (o.lex p).Decides l := by
  intro a ha b hb hab hba
  obtain ⟨h, h'⟩ := lex_antisymm hab hba
  exact hp a ha b hb h h'

/-- Sorting by a key sorts the keys. -/
theorem map_sort_comap (o : TotalPreorder α) (f : β → α) (l : List β) :
    ((o.comap f).sort l).map f = o.sort (l.map f) :=
  List.map_insertionSort _ _ f l fun _ _ _ _ => Iff.rfl

/-! ## Sorting a finite set -/

/-- The members of a finite set in order. -/
noncomputable def sortSet (o : TotalPreorder α) (s : Finset α) : List α := o.sort s.toList

/-- **Any listing of a set sorts to the sorted set.** -/
theorem sort_eq_sortSet [DecidableEq α] {o : TotalPreorder α} {l : List α} {s : Finset α}
    (ho : ∀ a b, o.le a b = true → o.le b a = true → a = b) (hl : l.Nodup) (hs : l.toFinset = s) :
    o.sort l = o.sortSet s := by
  refine sort_eq_of_perm ?_ fun a _ b _ => ho a b
  refine (List.perm_ext_iff_of_nodup hl s.nodup_toList).mpr fun a => ?_
  rw [Finset.mem_toList, ← hs, List.mem_toFinset]

end TotalPreorder
