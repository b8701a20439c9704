import Mathlib.Data.List.Basic

structure Transducer (S A B : Type) where
  step : S → A → S × Option B

namespace Transducer
variable {S T A B C : Type}

def run (M : Transducer S A B) : S → List A → S
  | s, [] => s
  | s, x :: xs => M.run (M.step s x).1 xs

def outs (M : Transducer S A B) : S → List A → List B
  | _, [] => []
  | s, x :: xs => (M.step s x).2.toList ++ M.outs (M.step s x).1 xs

def scan (M : Transducer S A B) : S → List A → S × Option (B × List A)
  | s, [] => (s, none)
  | s, x :: xs =>
      match M.step s x with
      | (s', some y) => (s', some (y, xs))
      | (s', none) => M.scan s' xs

theorem run_append (M : Transducer S A B) (s : S) (xs ys : List A) :
    M.run s (xs ++ ys) = M.run (M.run s xs) ys := by
  induction xs generalizing s with
  | nil => rfl
  | cons x xs ih => exact ih _

theorem outs_append (M : Transducer S A B) (s : S) (xs ys : List A) :
    M.outs s (xs ++ ys) = M.outs s xs ++ M.outs (M.run s xs) ys := by
  induction xs generalizing s with
  | nil => rfl
  | cons x xs ih => simp [outs, run, ih]

theorem scan_none {M : Transducer S A B} {s s' : S} {xs : List A}
    (h : M.scan s xs = (s', none)) : M.outs s xs = [] ∧ M.run s xs = s' := by
  induction xs generalizing s with
  | nil => simp only [scan, Prod.mk.injEq, and_true] at h; exact ⟨rfl, h⟩
  | cons x xs ih =>
    rcases hs : M.step s x with ⟨t, _ | y⟩
    · simp only [scan, hs] at h
      simpa [outs, run, hs] using ih h
    · simp [scan, hs] at h

theorem scan_some {M : Transducer S A B} {s s' : S} {xs rest : List A} {y : B}
    (h : M.scan s xs = (s', some (y, rest))) :
    ∃ pre x, xs = pre ++ x :: rest ∧ M.outs s pre = [] ∧
      M.step (M.run s pre) x = (s', some y) := by
  induction xs generalizing s with
  | nil => simp [scan] at h
  | cons x xs ih =>
    rcases hs : M.step s x with ⟨t, _ | z⟩
    · simp only [scan, hs] at h
      obtain ⟨pre, w, rfl, ho, hw⟩ := ih h
      exact ⟨x :: pre, w, rfl, by simpa [outs, hs] using ho, by simpa [run, hs] using hw⟩
    · simp only [scan, hs, Prod.mk.injEq, Option.some.injEq] at h
      obtain ⟨rfl, rfl, rfl⟩ := h
      exact ⟨[], x, rfl, rfl, hs⟩

theorem scan_of_silent {M : Transducer S A B} {s : S} {xs : List A} (h : M.outs s xs = []) :
    M.scan s xs = (M.run s xs, none) := by
  rcases hs : M.scan s xs with ⟨t, _ | ⟨y, rest⟩⟩
  · rw [(scan_none hs).2]
  · obtain ⟨pre, x, rfl, -, hx⟩ := scan_some hs
    simp [outs_append, outs, hx] at h

theorem scan_of_last {M : Transducer S A B} {s s' : S} {pre rest : List A} {x : A} {y : B}
    (h : M.outs s pre = []) (hx : M.step (M.run s pre) x = (s', some y)) :
    M.scan s (pre ++ x :: rest) = (s', some (y, rest)) := by
  induction pre generalizing s with
  | nil => simp only [run] at hx; simp [scan, hx]
  | cons z pre ih =>
    rcases hs : M.step s z with ⟨t, _ | w⟩
    · simp only [outs, hs, Option.toList_none, List.nil_append] at h
      simp only [run, hs] at hx
      simp only [List.cons_append, scan, hs]
      exact ih h hx
    · simp [outs, hs] at h

structure Simulates (M : Transducer S A B) (N : Transducer T A C) (R : S → T → Prop)
    (f : C → B) : Prop where
  step : ∀ {s t}, R s t → ∀ x,
    R (M.step s x).1 (N.step t x).1 ∧ (M.step s x).2 = (N.step t x).2.map f

namespace Simulates
variable {M : Transducer S A B} {N : Transducer T A C} {R : S → T → Prop} {f : C → B}

theorem run (h : Simulates M N R f) {s : S} {t : T} (hr : R s t) (xs : List A) :
    R (M.run s xs) (N.run t xs) := by
  induction xs generalizing s t with
  | nil => exact hr
  | cons x xs ih => exact ih (h.step hr x).1

theorem outs (h : Simulates M N R f) {s : S} {t : T} (hr : R s t) (xs : List A) :
    M.outs s xs = (N.outs t xs).map f := by
  induction xs generalizing s t with
  | nil => rfl
  | cons x xs ih =>
    obtain ⟨hr', ho⟩ := h.step hr x
    simp [Transducer.outs, ho, ih hr', Option.toList_map]

theorem scan (h : Simulates M N R f) {s : S} {t : T} (hr : R s t) (xs : List A) :
    R (M.scan s xs).1 (N.scan t xs).1 ∧
      (M.scan s xs).2 = (N.scan t xs).2.map (fun p => (f p.1, p.2)) := by
  induction xs generalizing s t with
  | nil => exact ⟨hr, rfl⟩
  | cons x xs ih =>
    obtain ⟨hr', ho⟩ := h.step hr x
    rcases hm : M.step s x with ⟨s', o⟩
    rcases hn : N.step t x with ⟨t', o'⟩
    rw [hm, hn] at hr' ho
    simp only at hr' ho
    subst ho
    cases o' with
    | none => simpa [Transducer.scan, hm, hn] using ih hr'
    | some z => simpa [Transducer.scan, hm, hn] using hr'

end Simulates

end Transducer
