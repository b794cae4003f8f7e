import Mathlib.Data.Finset.Card
import Mathlib.Data.List.Dedup
import Mathlib.Data.List.Perm.Basic

/-!
# Machinery/Occurrences — the distinct elements of a list, in order

What a loop with a set of seen elements collects: each element once, in the order in which the
elements occur first.  That determines the result (`FirstOccurrences.unique`), and an element more
at the end of the list either changes nothing or goes to the end of the result.
-/

/-- **The distinct elements of a list, in the order of their first occurrence.** -/
structure FirstOccurrences {α : Type*} [DecidableEq α] (l out : List α) : Prop where
  nodup : out.Nodup
  mem : ∀ x, x ∈ out ↔ x ∈ l
  order : out.Pairwise fun a b => l.idxOf a < l.idxOf b

namespace FirstOccurrences

variable {α : Type*} [DecidableEq α] {l out : List α} {x : α}

theorem nil : FirstOccurrences ([] : List α) [] :=
  ⟨List.nodup_nil, fun _ => Iff.rfl, List.Pairwise.nil⟩

/-- What has occurred keeps its place. -/
theorem order_append (h : FirstOccurrences l out) (m : List α) :
    out.Pairwise fun a b => (l ++ m).idxOf a < (l ++ m).idxOf b := by
  refine h.order.imp_of_mem fun {a b} ha hb hlt => ?_
  rwa [List.idxOf_append_of_mem ((h.mem a).mp ha), List.idxOf_append_of_mem ((h.mem b).mp hb)]

/-- **An element that has occurred changes nothing.** -/
theorem again (h : FirstOccurrences l out) (hx : x ∈ l) : FirstOccurrences (l ++ [x]) out := by
  refine ⟨h.nodup, fun y => ?_, h.order_append [x]⟩
  rw [h.mem, List.mem_append, List.mem_singleton]
  exact ⟨Or.inl, fun hy => hy.elim id fun hy => hy ▸ hx⟩

/-- **A new element comes last.** -/
theorem new (h : FirstOccurrences l out) (hx : x ∉ l) :
    FirstOccurrences (l ++ [x]) (out ++ [x]) := by
  have hout : x ∉ out := fun hmem => hx ((h.mem x).mp hmem)
  refine ⟨h.nodup.append (List.nodup_singleton x) (by simpa using hout), fun y => ?_, ?_⟩
  · rw [List.mem_append, List.mem_append, h.mem]
  · refine List.pairwise_append.mpr ⟨h.order_append [x], List.pairwise_singleton _ _, ?_⟩
    intro a ha b hb
    obtain rfl := List.mem_singleton.mp hb
    have ha' : a ∈ l := (h.mem a).mp ha
    rw [List.idxOf_append_of_mem ha', List.idxOf_append_of_notMem hx]
    exact (List.idxOf_lt_length_iff.mpr ha').trans_le (Nat.le_add_right _ _)

/-- **There is one such list.** -/
theorem unique {out' : List α} (h : FirstOccurrences l out) (h' : FirstOccurrences l out') :
    out = out' := by
  have hperm : out.Perm out' :=
    (List.perm_ext_iff_of_nodup h.nodup h'.nodup).mpr fun x => (h.mem x).trans (h'.mem x).symm
  refine hperm.eq_of_pairwise (fun a b _ _ hab hba => ?_) h.order h'.order
  exact absurd hab hba.asymm

/-- **Its length is the number of different elements.** -/
theorem length_eq (h : FirstOccurrences l out) : out.length = l.toFinset.card := by
  have hset : l.toFinset = out.toFinset := by
    ext x
    rw [List.mem_toFinset, List.mem_toFinset, h.mem]
  rw [hset, List.toFinset_card_of_nodup h.nodup]

end FirstOccurrences
