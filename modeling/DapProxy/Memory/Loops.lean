import Mathlib.Algebra.Group.Nat.Defs
import Mathlib.Tactic.Common

namespace Loops
variable {S : Type}

def iterate (step : S → Option (S × Bool)) : ℕ → S → Option S
  | 0, s => some s
  | n + 1, s => do
      let r ← step s
      if r.2 then iterate step n r.1 else some r.1

inductive Visits (step : S → Option (S × Bool)) (start : S) : ℕ → S → Prop
  | start : Visits step start 0 start
  | next {k : ℕ} {s s' : S} : Visits step start k s → step s = some (s', true) →
      Visits step start (k + 1) s'

section
variable {step : S → Option (S × Bool)} {start s : S} {k : ℕ}

theorem iterate_visits (h : Visits step start k s) (n : ℕ) :
    iterate step (k + n) start = iterate step n s := by
  induction h generalizing n with
  | start => rw [Nat.zero_add]
  | next _ hs ih =>
    rw [Nat.add_right_comm, Nat.add_assoc, ih, iterate, hs]
    rfl

end

section
variable {A : Type} {f : S → A → S} {w : S → ℕ} {keeps : S → Prop} {p q : ℕ}

end

end Loops
