import Mathlib.Logic.Function.Basic
import Mathlib.Logic.Relation
import Mathlib.Tactic.Common

namespace Concurrent

structure Config (ι G L : Type) where
  shared : G
  locals : ι → L

variable {ι G L : Type} [DecidableEq ι]

def Config.move (c : Config ι G L) (i : ι) (g : G) (l : L) : Config ι G L :=
  ⟨g, Function.update c.locals i l⟩

inductive Next (act : G → L → G → L → Prop) (guard : Config ι G L → ι → Prop) :
    Config ι G L → Config ι G L → Prop
  | step {c : Config ι G L} {i : ι} {g : G} {l : L} (h : act c.shared (c.locals i) g l)
      (ok : guard c i) : Next act guard c (c.move i g l)

abbrev Run (act : G → L → G → L → Prop) (guard : Config ι G L → ι → Prop) :
    Config ι G L → Config ι G L → Prop := Relation.ReflTransGen (Next act guard)

def anytime (_ : Config ι G L) (_ : ι) : Prop := True

namespace Config
variable (c : Config ι G L) (i : ι) (g : G) (l : L)

@[simp] theorem move_shared : (c.move i g l).shared = g := rfl

@[simp] theorem move_self : (c.move i g l).locals i = l := by
  simp only [move, Function.update_self]

theorem move_other {j : ι} (h : j ≠ i) : (c.move i g l).locals j = c.locals j := by
  simp only [move, Function.update_of_ne h]

theorem move_move (g' : G) (l' : L) : (c.move i g l).move i g' l' = c.move i g' l' := by
  rw [move, move, Function.update_idem, move]

variable {c i g l} {P : L → Prop}

theorem move_eq_self (h : c.locals i = l) : c.move i g l = { c with shared := g } := by
  rw [move, ← h, Function.update_eq_self]

theorem moved_cases {j : ι} (h : P ((c.move i g l).locals j)) :
    (j = i ∧ P l) ∨ (j ≠ i ∧ P (c.locals j)) := by
  by_cases hj : j = i
  · subst hj
    rw [move_self] at h
    exact Or.inl ⟨rfl, h⟩
  · rw [move_other c i g l hj] at h
    exact Or.inr ⟨hj, h⟩

theorem some_moved (hc : ∃ j, P (c.locals j)) (hl : P (c.locals i) → P l) :
    ∃ j, P ((c.move i g l).locals j) := by
  obtain ⟨j, hj⟩ := hc
  by_cases hji : j = i
  · subst hji
    exact ⟨j, by rw [move_self]; exact hl hj⟩
  · exact ⟨j, by rw [move_other c i g l hji]; exact hj⟩

theorem some_left (hc : ∃ j, P (c.locals j)) :
    P (c.locals i) ∨ ∃ j, P ((c.move i g l).locals j) := by
  by_cases hi : P (c.locals i)
  · exact Or.inl hi
  · exact Or.inr (some_moved hc fun h => absurd h hi)

end Config

variable {act : G → L → G → L → Prop} {guard : Config ι G L → ι → Prop} {c c' : Config ι G L}

theorem Run.moves {i : ι} {g : G} {l₀ l : L} (h : Run act guard c c') (hl : c'.locals i = l₀)
    (hact : act c'.shared l₀ g l) (ok : guard c' i) : Run act guard c (c'.move i g l) :=
  h.tail (.step (hl.symm ▸ hact) ok)

theorem Run.extend {i : ι} {g g' : G} {l l' : L} (h : Run act guard c (c'.move i g l))
    (hact : act g l g' l') (ok : guard (c'.move i g l) i) :
    Run act guard c (c'.move i g' l') := by
  have hnext := h.moves (Config.move_self c' i g l) hact ok
  rwa [Config.move_move] at hnext

theorem Run.invariant {P : Config ι G L → Prop} (h : Run act guard c c') (hc : P c)
    (hstep : ∀ {d : Config ι G L} {i g l}, Run act guard c d → P d →
      act d.shared (d.locals i) g l → guard d i → P (d.move i g l)) : P c' := by
  induction h with
  | refl => exact hc
  | tail hrun hnext ih =>
    cases hnext with
    | step hact hguard => exact hstep hrun ih hact hguard

section
variable {O : Type} {label : L → L → Option O} {os : List O}

inductive Traced (act : G → L → G → L → Prop) (guard : Config ι G L → ι → Prop)
    (label : L → L → Option O) (c : Config ι G L) : List O → Config ι G L → Prop
  | refl : Traced act guard label c [] c
  | step {os : List O} {c' : Config ι G L} {i : ι} {g : G} {k l : L}
      (h : Traced act guard label c os c') (hl : c'.locals i = k) (hact : act c'.shared k g l)
      (ok : guard c' i) : Traced act guard label c (os ++ (label k l).toList) (c'.move i g l)

theorem run_iff_traced (label : L → L → Option O) :
    Run act guard c c' ↔ ∃ os, Traced act guard label c os c' := by
  constructor
  · intro h
    induction h with
    | refl => exact ⟨[], .refl⟩
    | tail _ hnext ih =>
      obtain ⟨os, hos⟩ := ih
      cases hnext with
      | step hact ok => exact ⟨_, hos.step rfl hact ok⟩
  · rintro ⟨os, h⟩
    induction h with
    | refl => exact .refl
    | step _ hl hact ok ih => exact ih.moves hl hact ok

theorem Traced.mono {guard' : Config ι G L → ι → Prop} (h : Traced act guard label c os c')
    (hg : ∀ d i, guard d i → guard' d i) : Traced act guard' label c os c' := by
  induction h with
  | refl => exact .refl
  | step _ hl hact ok ih => exact ih.step hl hact (hg _ _ ok)

theorem Traced.extend {i : ι} {g g' : G} {l l' : L}
    (h : Traced act guard label c os (c'.move i g l)) (hact : act g l g' l')
    (ok : guard (c'.move i g l) i) :
    Traced act guard label c (os ++ (label l l').toList) (c'.move i g' l') := by
  have hnext := h.step (Config.move_self c' i g l) hact ok
  rwa [Config.move_move] at hnext

end

-- a proof outline: each thread's assertion survives the steps of every other thread
theorem Run.outline {I : G → Prop} {A : G → L → Prop} (h : Run act guard c c')
    (hI : I c.shared) (hA : ∀ i, A c.shared (c.locals i))
    (own : ∀ {g l g' l'}, I g → A g l → act g l g' l' → I g' ∧ A g' l')
    (frame : ∀ {g l g' l' m}, I g → A g l → act g l g' l' → A g m → A g' m) :
    I c'.shared ∧ ∀ i, A c'.shared (c'.locals i) := by
  refine h.invariant (P := fun c => I c.shared ∧ ∀ i, A c.shared (c.locals i)) ⟨hI, hA⟩ ?_
  rintro c i g l - ⟨hI, hA⟩ hact -
  obtain ⟨hI', hA'⟩ := own hI (hA i) hact
  refine ⟨hI', fun j => ?_⟩
  by_cases hj : j = i
  · subst hj
    rw [Config.move_self]
    exact hA'
  · rw [Config.move_other c i g l hj]
    exact frame hI (hA i) hact (hA j)

end Concurrent
