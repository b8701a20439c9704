import DapProxy.Framing.Decoder
import Mathlib.Data.List.Basic

namespace Framing
variable {A B : Type}

def Decoder.map (f : B → A) (s : Decoder B) : Decoder A := ⟨s.raw.map f, s.noise⟩

namespace Format

def rejected (F : Format A) : Decoder A → List A → ℕ
  | _, [] => 0
  | s, x :: xs =>
      (if s.raw.isEmpty && !F.isMagic x then 1 else 0) + F.rejected (F.step s x).1 xs

structure Segment (F : Format A) where
  gap : List A
  frame : F.Frame
  quiet : ∀ x ∈ gap, F.isMagic x = false

namespace Segment
variable {F : Format A}

def bytes (g : F.Segment) : List A := g.gap ++ g.frame.wire

def stream (gs : List F.Segment) : List A := gs.flatMap bytes

def wires (gs : List F.Segment) : List (List A) :=
  (gs.filter (fun g => !g.frame.payload.isEmpty)).map (·.frame.wire)

def noise (gs : List F.Segment) : ℕ := (gs.flatMap (·.gap)).length

end Segment

variable {F : Format A}

theorem rejected_append (s : Decoder A) (xs ys : List A) :
    F.rejected s (xs ++ ys) = F.rejected s xs + F.rejected (F.decoder.run s xs) ys := by
  induction xs generalizing s with
  | nil => simp [rejected, Transducer.run]
  | cons x xs ih =>
    simp only [List.cons_append, rejected, Transducer.run, ih, decoder]
    omega

def Below (s t : Decoder A) : Prop := s.raw = t.raw ∧ s.noise ≤ t.noise

theorem below_simulates : Transducer.Simulates F.decoder F.decoder Below id where
  step := by
    rintro ⟨raw, k⟩ ⟨_, j⟩ ⟨rfl, hk⟩ x
    simp only at hk
    simp only [decoder, step, Below]
    split
    · split <;> simp [hk]
    · split
      · split <;> simp [hk]
      · simp [hk]

theorem step_noise (s : Decoder A) (x : A) :
    (F.step s x).1.noise ≤ s.noise + if s.raw.isEmpty && !F.isMagic x then 1 else 0 := by
  rw [step]
  split
  · next hr => rw [hr]; split <;> simp_all
  · split
    · split <;> simp
    · simp

theorem step_silent_noise {s t : Decoder A} {x : A} (h : F.step s x = (t, none)) :
    s.noise ≤ t.noise := by
  rw [step] at h
  split at h
  · split at h <;> simp only [Prod.mk.injEq, and_true] at h <;> simp [← h]
  · split at h
    · split at h <;> simp only [Prod.mk.injEq, reduceCtorEq, and_true, and_false] at h
      simp [← h]
    · simp only [Prod.mk.injEq, and_true] at h
      simp [← h]

theorem noise_le_rejected (s : Decoder A) (xs : List A) :
    (F.decoder.run s xs).noise ≤ s.noise + F.rejected s xs := by
  induction xs generalizing s with
  | nil => simp [rejected, Transducer.run]
  | cons x xs ih =>
    have hx := step_noise (F := F) s x
    have hxs := ih (F.step s x).1
    simp only [Transducer.run, rejected, decoder] at hxs ⊢
    omega

theorem rejected_quiet (k : ℕ) {xs : List A} (h : ∀ x ∈ xs, F.isMagic x = false) :
    F.rejected ⟨[], k⟩ xs = xs.length := by
  induction xs generalizing k with
  | nil => rfl
  | cons x xs ih =>
    have hx := h x (by simp)
    have hxs := ih (k + 1) (fun y hy => h y (by simp [hy]))
    simp [rejected, step, hx, hxs, Nat.add_comm]

theorem rejected_within {f : F.Frame} (k : ℕ) {t u : List A} (h : f.wire = t ++ u) :
    F.rejected ⟨[], k⟩ t = 0 := by
  induction t using List.reverseRecOn generalizing u with
  | nil => rfl
  | append_singleton t x ih =>
    rw [List.append_assoc, List.singleton_append] at h
    rw [rejected_append, ih h, (Frame.run_within k h (by simp)).1]
    cases t with
    | nil =>
      simp only [Frame.wire, List.nil_append, List.cons.injEq] at h
      simp [rejected, ← h.1, f.isMagic]
    | cons m t =>
      simp [rejected]

theorem rejected_wire (f : F.Frame) (k : ℕ) : F.rejected ⟨[], k⟩ f.wire = 0 :=
  rejected_within k (List.append_nil _).symm

namespace Segment

theorem run_bytes (g : F.Segment) (k : ℕ) :
    F.decoder.run ⟨[], k⟩ g.bytes =
      ⟨[], if g.frame.payload = [] then k + g.gap.length else 0⟩ := by
  rw [bytes, Transducer.run_append, run_quiet k g.quiet, Frame.run_wire]

theorem outs_bytes (g : F.Segment) (k : ℕ) :
    F.decoder.outs ⟨[], k⟩ g.bytes = if g.frame.payload = [] then [] else [g.frame.wire] := by
  rw [bytes, Transducer.outs_append, run_quiet k g.quiet, outs_quiet k g.quiet, Frame.outs_wire,
    List.nil_append]

theorem run_stream (gs : List F.Segment) (k : ℕ) :
    (F.decoder.run ⟨[], k⟩ (stream gs)).raw = [] := by
  induction gs generalizing k with
  | nil => rfl
  | cons g gs ih =>
    rw [stream, List.flatMap_cons, Transducer.run_append, run_bytes]
    exact ih _

theorem outs_stream (gs : List F.Segment) (k : ℕ) :
    F.decoder.outs ⟨[], k⟩ (stream gs) = wires gs := by
  induction gs generalizing k with
  | nil => rfl
  | cons g gs ih =>
    have hgs := ih (if g.frame.payload = [] then k + g.gap.length else 0)
    rw [stream] at hgs
    rw [stream, List.flatMap_cons, Transducer.outs_append, run_bytes, outs_bytes, hgs]
    by_cases hp : g.frame.payload = [] <;> simp [wires, hp]

theorem rejected_stream (gs : List F.Segment) (k : ℕ) :
    F.rejected ⟨[], k⟩ (stream gs) = noise gs := by
  induction gs generalizing k with
  | nil => rfl
  | cons g gs ih =>
    have hgs := ih (if g.frame.payload = [] then k + g.gap.length else 0)
    rw [stream] at hgs
    rw [stream, List.flatMap_cons, rejected_append, run_bytes, hgs, bytes, rejected_append,
      rejected_quiet k g.quiet, run_quiet k g.quiet, rejected_wire]
    simp [noise]

end Segment

theorem complete_comap (f : B → A) (xs : List B) :
    (F.comap f).complete xs = F.complete (xs.map f) := by
  rcases xs with _ | ⟨m, _ | ⟨l, _ | ⟨h, p⟩⟩⟩ <;> simp [complete, comap]

theorem step_comap (f : B → A) (s : Decoder B) (x : B) :
    F.step (s.map f) (f x) =
      (((F.comap f).step s x).1.map f, ((F.comap f).step s x).2.map (List.map f)) := by
  rcases s with ⟨_ | ⟨m, t⟩, k⟩
  · by_cases h : F.isMagic (f x) = true <;> simp [step, Decoder.map, comap, h]
  · simp only [step, Decoder.map, List.map_cons, complete_comap, List.map_append, List.map_nil,
      List.length_map]
    split
    · split <;> simp
    · simp

theorem scan_comap (f : B → A) (s : Decoder B) (xs : List B) :
    F.decoder.scan (s.map f) (xs.map f) =
      (((F.comap f).decoder.scan s xs).1.map f,
        ((F.comap f).decoder.scan s xs).2.map (fun r => (r.1.map f, r.2.map f))) := by
  induction xs generalizing s with
  | nil => rfl
  | cons x xs ih =>
    simp only [List.map_cons, Transducer.scan, decoder, step_comap] at ih ⊢
    rcases (F.comap f).step s x with ⟨t, _ | raw⟩
    · exact ih t
    · rfl

end Format

end Framing
