import DapProxy.Concurrent.Threads
import Mathlib.Algebra.BigOperators.Group.Finset.Piecewise
import Mathlib.Algebra.Order.BigOperators.Group.Finset
import Mathlib.Data.Fintype.BigOperators

namespace Concurrent.Config
variable {ι G L : Type} [DecidableEq ι] [Fintype ι]

def total (w : L → ℕ) (c : Config ι G L) : ℕ := ∑ i, w (c.locals i)

theorem total_move (w : L → ℕ) (c : Config ι G L) (i : ι) (g : G) (l : L) :
    (c.move i g l).total w + w (c.locals i) = c.total w + w l := by
  have hmoved (j : ι) : w ((c.move i g l).locals j) =
      Function.update (fun j => w (c.locals j)) i (w l) j := by
    by_cases hj : j = i
    · rw [hj, move_self, Function.update_self]
    · rw [move_other c i g l hj, Function.update_of_ne hj]
  have hrest := Finset.sum_erase_add Finset.univ (fun j => w (c.locals j)) (Finset.mem_univ i)
  rw [total, total, Finset.sum_congr rfl fun j _ => hmoved j,
    Finset.sum_update_of_mem (Finset.mem_univ i), Finset.sdiff_singleton_eq_erase]
  omega

omit [DecidableEq ι] in
theorem total_le {w v : L → ℕ} (h : ∀ l, w l ≤ v l) (c : Config ι G L) : c.total w ≤ c.total v :=
  Finset.sum_le_sum fun i _ => h (c.locals i)

omit [DecidableEq ι] in
theorem total_eq_zero {w : L → ℕ} {c : Config ι G L} (h : ∀ i, w (c.locals i) = 0) :
    c.total w = 0 := Finset.sum_eq_zero fun i _ => h i

end Concurrent.Config
