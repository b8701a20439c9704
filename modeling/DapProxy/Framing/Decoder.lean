import DapProxy.Framing.Transducer
import Mathlib.Data.List.Induction
import Mathlib.Tactic.Common

namespace Framing
variable {A B : Type}

structure Format (A : Type) where
  isMagic : A → Bool
  size : A → A → Nat

structure Decoder (A : Type) where
  raw : List A
  noise : Nat

namespace Format

def complete (F : Format A) : List A → Bool
  | _ :: l :: h :: p => p.length == F.size l h
  | _ => false

def step (F : Format A) (s : Decoder A) (x : A) : Decoder A × Option (List A) :=
  match s.raw with
  | [] => if F.isMagic x then (⟨[x], s.noise⟩, none) else (⟨[], s.noise + 1⟩, none)
  | m :: t =>
      if F.complete (m :: t ++ [x]) then
        if t.length = 1 then (⟨[], s.noise⟩, none) else (⟨[], 0⟩, some (m :: t ++ [x]))
      else (⟨m :: t ++ [x], s.noise⟩, none)

def decoder (F : Format A) : Transducer (Decoder A) A (List A) := ⟨F.step⟩

def comap (f : B → A) (F : Format A) : Format B where
  isMagic := fun b => F.isMagic (f b)
  size := fun l h => F.size (f l) (f h)

def Open (F : Format A) : List A → Prop
  | [] => True
  | m :: t => F.isMagic m ∧
      match t with
      | l :: h :: p => p.length < F.size l h
      | _ => True

structure Frame (F : Format A) where
  magic : A
  lo : A
  hi : A
  payload : List A
  isMagic : F.isMagic magic
  size : payload.length = F.size lo hi

namespace Frame
variable {F : Format A}

def wire (f : F.Frame) : List A := f.magic :: f.lo :: f.hi :: f.payload

@[simp] theorem length_wire (f : F.Frame) : f.wire.length = f.payload.length + 3 := rfl

end Frame

variable {F : Format A}

theorem step_out {s s' : Decoder A} {x : A} {r : List A} (h : F.step s x = (s', some r)) :
    r = s.raw ++ [x] ∧ s' = ⟨[], 0⟩ := by
  rw [step] at h
  split at h
  · split at h <;> simp at h
  · next m t ht =>
    split at h
    · split at h
      · simp at h
      · simp only [Prod.mk.injEq, Option.some.injEq] at h
        exact ⟨by rw [ht]; exact h.2.symm, h.1.symm⟩
    · simp at h

theorem open_snoc {m x : A} {t : List A} (h : F.Open (m :: t))
    (hc : ¬F.complete (m :: t ++ [x]) = true) : F.Open (m :: t ++ [x]) := by
  obtain ⟨hm, ht⟩ := h
  rcases t with _ | ⟨l, _ | ⟨hi, p⟩⟩
  · exact ⟨hm, trivial⟩
  · refine ⟨hm, ?_⟩
    simp only [List.cons_append, List.nil_append, complete, List.length_nil, beq_iff_eq] at hc
    exact Nat.pos_of_ne_zero (Ne.symm hc)
  · refine ⟨hm, ?_⟩
    change p.length < F.size l hi at ht
    simp only [List.cons_append, complete, List.length_append, List.length_singleton,
      beq_iff_eq] at hc
    change (p ++ [x]).length < F.size l hi
    rw [List.length_append, List.length_singleton]
    omega

theorem step_open {s : Decoder A} (hs : F.Open s.raw) (x : A) : F.Open (F.step s x).1.raw := by
  rw [step]
  split
  · split
    · next hm => exact ⟨hm, trivial⟩
    · trivial
  · next m t ht =>
    rw [ht] at hs
    split
    · split <;> trivial
    · next hc => exact open_snoc hs hc

theorem run_open {s : Decoder A} (hs : F.Open s.raw) (xs : List A) :
    F.Open (F.decoder.run s xs).raw := by
  induction xs generalizing s with
  | nil => exact hs
  | cons x xs ih => exact ih (step_open hs x)

theorem exists_frame {m x : A} {t : List A} (h : F.Open (m :: t))
    (hc : F.complete (m :: t ++ [x]) = true) :
    ∃ f : F.Frame, f.wire = m :: t ++ [x] ∧ (f.payload = [] ↔ t.length = 1) := by
  match t, hc with
  | [], hc => simp [complete] at hc
  | [l], hc =>
    simp only [complete, List.cons_append, List.nil_append, beq_iff_eq] at hc
    exact ⟨⟨m, l, x, [], h.1, hc⟩, rfl, iff_of_true rfl rfl⟩
  | l :: hi :: p, hc =>
    simp only [complete, List.cons_append, beq_iff_eq] at hc
    exact ⟨⟨m, l, hi, p ++ [x], h.1, hc⟩, rfl, iff_of_false (by simp) (by simp)⟩

theorem step_frame {s s' : Decoder A} {x : A} {r : List A} (hs : F.Open s.raw)
    (h : F.step s x = (s', some r)) : ∃ f : F.Frame, f.wire = r ∧ f.payload ≠ [] := by
  rw [step] at h
  split at h
  · split at h <;> simp at h
  · next m t ht =>
    rw [ht] at hs
    split at h
    · next hc =>
      obtain ⟨f, hf, hp⟩ := exists_frame hs hc
      split at h
      · simp at h
      · next hl =>
        simp only [Prod.mk.injEq, Option.some.injEq] at h
        exact ⟨f, hf.trans h.2, fun he => hl (hp.mp he)⟩
    · simp at h

theorem outs_frame {s : Decoder A} (hs : F.Open s.raw) (xs : List A) :
    ∀ r ∈ F.decoder.outs s xs, ∃ f : F.Frame, f.wire = r ∧ f.payload ≠ [] := by
  induction xs generalizing s with
  | nil => simp [Transducer.outs]
  | cons x xs ih =>
    intro r hr
    simp only [Transducer.outs, List.mem_append] at hr
    rcases hr with hr | hr
    · rw [Option.mem_toList] at hr
      exact step_frame hs (Prod.ext rfl hr)
    · exact ih (step_open hs x) r hr

theorem step_sublist (s : Decoder A) (x : A) :
    ((F.step s x).2.toList.flatten ++ (F.step s x).1.raw).Sublist (s.raw ++ [x]) := by
  rw [step]
  split
  · next hr => rw [hr]; split <;> simp
  · next m t hr =>
    rw [hr]
    split
    · split <;> simp
    · simp

theorem outs_sublist (s : Decoder A) (xs : List A) :
    ((F.decoder.outs s xs).flatten ++ (F.decoder.run s xs).raw).Sublist (s.raw ++ xs) := by
  induction xs generalizing s with
  | nil => simp [Transducer.outs, Transducer.run]
  | cons x xs ih =>
    have hx := (step_sublist (F := F) s x).append (List.Sublist.refl xs)
    have hr := (List.Sublist.refl (F.step s x).2.toList.flatten).append (ih (F.step s x).1)
    simp only [Transducer.outs, Transducer.run, List.flatten_append, List.append_assoc,
      List.singleton_append] at hx hr ⊢
    exact hr.trans hx

theorem sameRaw_simulates :
    Transducer.Simulates F.decoder F.decoder (fun s t => s.raw = t.raw) id where
  step := by
    rintro ⟨raw, k⟩ ⟨_, j⟩ rfl x
    simp only [decoder, step]
    split
    · split <;> simp
    · split
      · split <;> simp
      · simp

theorem outs_sameRaw {s t : Decoder A} (h : s.raw = t.raw) (xs : List A) :
    F.decoder.outs s xs = F.decoder.outs t xs := by
  simpa using sameRaw_simulates.outs h xs

theorem run_sameRaw {s t : Decoder A} (h : s.raw = t.raw) (xs : List A) :
    (F.decoder.run s xs).raw = (F.decoder.run t xs).raw :=
  sameRaw_simulates.run h xs

theorem run_quiet (k : ℕ) {xs : List A} (h : ∀ x ∈ xs, F.isMagic x = false) :
    F.decoder.run ⟨[], k⟩ xs = ⟨[], k + xs.length⟩ := by
  induction xs generalizing k with
  | nil => rfl
  | cons x xs ih =>
    have hx := h x (by simp)
    have hxs := ih (k + 1) (fun y hy => h y (by simp [hy]))
    simp only [Transducer.run, decoder, step, hx] at hxs ⊢
    simpa [Nat.add_assoc, Nat.add_comm 1] using hxs

theorem outs_quiet (k : ℕ) {xs : List A} (h : ∀ x ∈ xs, F.isMagic x = false) :
    F.decoder.outs ⟨[], k⟩ xs = [] := by
  induction xs generalizing k with
  | nil => rfl
  | cons x xs ih =>
    have hx := h x (by simp)
    have hxs := ih (k + 1) (fun y hy => h y (by simp [hy]))
    simp only [Transducer.outs, decoder, step, hx] at hxs ⊢
    simpa using hxs

theorem not_complete_of_open {raw : List A} (h : F.Open raw) : ¬F.complete raw = true := by
  rcases raw with _ | ⟨m, _ | ⟨l, _ | ⟨hi, p⟩⟩⟩
  · exact Bool.noConfusion
  · exact Bool.noConfusion
  · exact Bool.noConfusion
  · have hlt : p.length < F.size l hi := h.2
    simp only [complete, beq_iff_eq]
    omega

theorem open_init {t : List A} {x : A} (h : F.Open (t ++ [x])) : F.Open t := by
  rcases t with _ | ⟨m, _ | ⟨l, _ | ⟨hi, p⟩⟩⟩
  · trivial
  · exact ⟨h.1, trivial⟩
  · exact ⟨h.1, trivial⟩
  · have hlt : (p ++ [x]).length < F.size l hi := h.2
    rw [List.length_append] at hlt
    exact ⟨h.1, Nat.lt_of_le_of_lt (Nat.le_add_right _ _) hlt⟩

theorem step_unfinished {t : List A} {x : A} (k : ℕ) (h : F.Open (t ++ [x])) :
    F.step ⟨t, k⟩ x = (⟨t ++ [x], k⟩, none) := by
  cases t with
  | nil => exact if_pos h.1
  | cons m t => exact if_neg (not_complete_of_open h)

theorem run_unfinished (k : ℕ) {raw : List A} (h : F.Open raw) :
    F.decoder.run ⟨[], k⟩ raw = ⟨raw, k⟩ ∧ F.decoder.outs ⟨[], k⟩ raw = [] := by
  induction raw using List.reverseRecOn with
  | nil => exact ⟨rfl, rfl⟩
  | append_singleton t x ih =>
    obtain ⟨hr, ho⟩ := ih (open_init h)
    have hs := step_unfinished k h
    rw [Transducer.run_append, Transducer.outs_append, hr, ho]
    simp only [Transducer.run, Transducer.outs, decoder, hs, Option.toList_none,
      List.append_nil, and_self]

namespace Frame

theorem open_within {f : F.Frame} {t u : List A} (h : f.wire = t ++ u) (hu : u ≠ []) :
    F.Open t := by
  have hlen := congrArg List.length h
  have hpos := List.length_pos_of_ne_nil hu
  rw [length_wire, List.length_append] at hlen
  rcases t with _ | ⟨m, _ | ⟨l, _ | ⟨hi, p⟩⟩⟩
  · trivial
  · obtain ⟨rfl, -⟩ := List.cons.inj h
    exact ⟨f.isMagic, trivial⟩
  · obtain ⟨rfl, -⟩ := List.cons.inj h
    exact ⟨f.isMagic, trivial⟩
  · simp only [wire, List.cons_append, List.cons.injEq] at h
    obtain ⟨rfl, rfl, rfl, -⟩ := h
    refine ⟨f.isMagic, ?_⟩
    change p.length < F.size f.lo f.hi
    simp only [List.length_cons] at hlen
    rw [← f.size]
    omega

theorem step_within {f : F.Frame} {t u : List A} {x : A} (k : ℕ) (h : f.wire = t ++ x :: u)
    (hu : u ≠ []) : F.step ⟨t, k⟩ x = (⟨t ++ [x], k⟩, none) :=
  step_unfinished k (open_within (h.trans (List.append_cons t x u)) hu)

theorem step_last {f : F.Frame} {t : List A} {x : A} (k : ℕ) (h : f.wire = t ++ [x]) :
    F.step ⟨t, k⟩ x = if f.payload = [] then (⟨[], k⟩, none) else (⟨[], 0⟩, some f.wire) := by
  rcases t with _ | ⟨m, _ | ⟨l, _ | ⟨hi, p⟩⟩⟩
  · simp [wire] at h
  · simp [wire] at h
  · simp only [wire, List.cons_append, List.nil_append, List.cons.injEq] at h
    obtain ⟨hm, hl, hh, hp⟩ := h
    have hs := f.size
    rw [hp, hl, hh] at hs
    simp [step, complete, hp, ← hs]
  · have hw := h
    simp only [wire, List.cons_append, List.cons.injEq] at h
    obtain ⟨hm, hl, hh, hp⟩ := h
    have hs := f.size
    rw [hp, hl, hh] at hs
    simp [step, complete, hp, hw, hs]

theorem run_within {f : F.Frame} (k : ℕ) {t u : List A} (h : f.wire = t ++ u) (hu : u ≠ []) :
    F.decoder.run ⟨[], k⟩ t = ⟨t, k⟩ ∧ F.decoder.outs ⟨[], k⟩ t = [] :=
  run_unfinished k (open_within h hu)

theorem exists_last (f : F.Frame) : ∃ t x, f.wire = t ++ [x] :=
  ⟨_, _, (List.dropLast_append_getLast (l := f.wire) (by simp [wire])).symm⟩

theorem run_wire (f : F.Frame) (k : ℕ) :
    F.decoder.run ⟨[], k⟩ f.wire = ⟨[], if f.payload = [] then k else 0⟩ := by
  obtain ⟨t, x, h⟩ := f.exists_last
  have hs := step_last k h
  rw [h, Transducer.run_append, (run_within k h (by simp)).1]
  simp only [Transducer.run, decoder, hs]
  split <;> rfl

theorem outs_wire (f : F.Frame) (k : ℕ) :
    F.decoder.outs ⟨[], k⟩ f.wire = if f.payload = [] then [] else [f.wire] := by
  obtain ⟨t, x, h⟩ := f.exists_last
  have hs := step_last k h
  have hw := run_within k h (by simp)
  conv_lhs => rw [h, Transducer.outs_append, hw.1, hw.2]
  simp only [Transducer.outs, decoder, hs]
  split <;> simp

end Frame

end Format

end Framing
