import DapProxy.Framing.Ends
import Mathlib.Data.List.DropRight

namespace Framing.Format
variable {A : Type}

structure Parsed (F : Format A) (bytes : List A) (gs : List F.Segment) (gap rest : List A) :
    Prop where
  split : bytes = Segment.stream gs ++ (gap ++ rest)
  quiet : ∀ x ∈ gap, F.isMagic x = false
  unfinished : F.Open rest

variable {F : Format A} {bytes gap rest : List A} {gs : List F.Segment}

namespace Parsed

theorem noise (h : F.Parsed bytes gs gap []) {x : A} (hx : F.isMagic x = false) :
    F.Parsed (bytes ++ [x]) gs (gap ++ [x]) [] := by
  refine ⟨by simp [h.split], fun y hy => ?_, trivial⟩
  rcases List.mem_append.mp hy with hy | hy
  · exact h.quiet y hy
  · exact List.mem_singleton.mp hy ▸ hx

theorem extend (h : F.Parsed bytes gs gap rest) {x : A} (hx : F.Open (rest ++ [x])) :
    F.Parsed (bytes ++ [x]) gs gap (rest ++ [x]) :=
  ⟨by simp [h.split], h.quiet, hx⟩

theorem close (h : F.Parsed bytes gs gap rest) {x : A} {f : F.Frame} (hf : f.wire = rest ++ [x]) :
    F.Parsed (bytes ++ [x]) (gs ++ [⟨gap, f, h.quiet⟩]) [] [] := by
  refine ⟨?_, fun _ hy => absurd hy List.not_mem_nil, trivial⟩
  simp [h.split, Segment.stream, Segment.bytes, hf]

theorem silent (h : F.Parsed bytes gs gap rest) (k : ℕ) :
    F.decoder.outs ⟨[], k⟩ (gap ++ rest) = [] := by
  rw [Transducer.outs_append, outs_quiet k h.quiet, run_quiet k h.quiet,
    (run_unfinished _ h.unfinished).2, List.append_nil]

theorem raw_eq (h : F.Parsed bytes gs gap rest) (k : ℕ) :
    (F.decoder.run ⟨[], k⟩ bytes).raw = rest := by
  have hstream := Segment.run_stream gs k
  rw [h.split, Transducer.run_append]
  rcases hs : F.decoder.run ⟨[], k⟩ (Segment.stream gs) with ⟨raw, j⟩
  rw [hs] at hstream
  obtain rfl : raw = [] := hstream
  rw [Transducer.run_append, run_quiet j h.quiet, (run_unfinished _ h.unfinished).1]

theorem emits_iff (h : F.Parsed bytes gs gap rest) {p post raw : List A} {x : A} {k : ℕ}
    (hb : bytes = p ++ x :: post) :
    (F.decoder.step (F.decoder.run ⟨[], k⟩ p) x).2 = some raw ↔
      ∃ before g after, gs = before ++ g :: after ∧ g.frame.payload ≠ [] ∧
        Segment.stream (before ++ [g]) = p ++ [x] ∧ g.frame.wire = raw :=
  Segment.emits_iff h.silent (h.split.symm.trans hb)

end Parsed

theorem parsed_before (before : List F.Segment) (g : F.Segment) {t u : List A}
    (h : g.frame.wire = t ++ u) (hu : u ≠ []) :
    F.Parsed (Segment.stream before ++ g.gap ++ t) before g.gap t :=
  ⟨List.append_assoc _ _ _, g.quiet, Frame.open_within h hu⟩

theorem parsed_stream (gs : List F.Segment) : F.Parsed (Segment.stream gs) gs [] [] :=
  ⟨(List.append_nil _).symm, fun _ hy => absurd hy List.not_mem_nil, trivial⟩

theorem exists_parsed (F : Format A) (bytes : List A) :
    ∃ gs gap rest, F.Parsed bytes gs gap rest := by
  induction bytes using List.reverseRecOn with
  | nil => exact ⟨[], [], [], rfl, fun _ hy => absurd hy List.not_mem_nil, trivial⟩
  | append_singleton bytes x ih =>
    obtain ⟨gs, gap, rest, h⟩ := ih
    cases rest with
    | nil =>
      cases hx : F.isMagic x with
      | true => exact ⟨gs, gap, [x], h.extend ⟨hx, trivial⟩⟩
      | false => exact ⟨gs, gap ++ [x], [], h.noise hx⟩
    | cons m t =>
      by_cases hc : F.complete (m :: t ++ [x]) = true
      · obtain ⟨f, hf, -⟩ := exists_frame h.unfinished hc
        exact ⟨_, [], [], h.close hf⟩
      · exact ⟨gs, gap, m :: t ++ [x], h.extend (open_snoc h.unfinished hc)⟩

namespace Segment

def stray (gs : List F.Segment) : ℕ := noise (gs.rtakeWhile fun g => g.frame.payload.isEmpty)

theorem run_stray (gs : List F.Segment) :
    F.decoder.run ⟨[], 0⟩ (stream gs) = ⟨[], stray gs⟩ := by
  induction gs using List.reverseRecOn with
  | nil => rfl
  | append_singleton gs g ih =>
    have hsnoc : stream (gs ++ [g]) = stream gs ++ g.bytes := by simp [stream]
    rw [hsnoc, Transducer.run_append, ih, run_bytes, stray, stray, List.rtakeWhile_concat]
    by_cases hp : g.frame.payload = []
    · simp [hp, noise]
    · simp [hp, noise]

end Segment

theorem Parsed.run_eq (h : F.Parsed bytes gs gap rest) :
    F.decoder.run ⟨[], 0⟩ bytes = ⟨rest, Segment.stray gs + gap.length⟩ := by
  rw [h.split, Transducer.run_append, Segment.run_stray, Transducer.run_append,
    run_quiet _ h.quiet, (run_unfinished _ h.unfinished).1]

def Settled (F : Format A) (bytes : List A) : Prop :=
  ∃ gs : List F.Segment, bytes = Segment.stream gs ∧ Segment.stray gs = 0

def Flooded (F : Format A) (limit : ℕ) (bytes : List A) : Prop :=
  ∃ gs gap rest, F.Parsed bytes gs gap rest ∧ limit < Segment.stray gs + gap.length

def EndsFrame (F : Format A) (bytes : List A) : Prop :=
  ∃ (gs : List F.Segment) (g : F.Segment),
    bytes = Segment.stream (gs ++ [g]) ∧ g.frame.payload ≠ []

theorem settled_iff : F.Settled bytes ↔ F.decoder.run ⟨[], 0⟩ bytes = ⟨[], 0⟩ := by
  constructor
  · rintro ⟨gs, rfl, hz⟩
    rw [Segment.run_stray, hz]
  · intro h
    obtain ⟨gs, gap, rest, hp⟩ := exists_parsed F bytes
    rw [hp.run_eq, Decoder.mk.injEq, Nat.add_eq_zero_iff, List.length_eq_zero_iff] at h
    obtain ⟨rfl, hz, rfl⟩ := h
    exact ⟨gs, by rw [hp.split]; simp, hz⟩

theorem flooded_iff {limit : ℕ} :
    F.Flooded limit bytes ↔ limit < (F.decoder.run ⟨[], 0⟩ bytes).noise := by
  constructor
  · rintro ⟨gs, gap, rest, hp, hl⟩
    rwa [hp.run_eq]
  · intro h
    obtain ⟨gs, gap, rest, hp⟩ := exists_parsed F bytes
    exact ⟨gs, gap, rest, hp, by rwa [hp.run_eq] at h⟩

theorem endsFrame_snoc {p : List A} {x : A} :
    F.EndsFrame (p ++ [x]) ↔ F.decoder.EmitsAt ⟨[], 0⟩ p x := by
  constructor
  · rintro ⟨gs, g, hb, hp⟩
    obtain ⟨raw, hraw⟩ : ∃ raw, (F.decoder.step (F.decoder.run ⟨[], 0⟩ p) x).2 = some raw :=
      ⟨_, ((parsed_stream (gs ++ [g])).emits_iff hb.symm).mpr
        ⟨gs, g, [], rfl, hp, hb.symm, rfl⟩⟩
    exact Option.isSome_iff_exists.mpr ⟨raw, hraw⟩
  · intro hx
    obtain ⟨raw, hraw⟩ := Option.isSome_iff_exists.mp hx
    obtain ⟨gs, gap, rest, hparsed⟩ := exists_parsed F (p ++ [x])
    obtain ⟨before, g, -, -, hp, hs, -⟩ := (hparsed.emits_iff rfl).mp hraw
    exact ⟨before, g, hs.symm, hp⟩

instance (bytes : List A) : Decidable (F.Settled bytes) :=
  decidable_of_iff ((F.decoder.run ⟨[], 0⟩ bytes).raw = [] ∧
      (F.decoder.run ⟨[], 0⟩ bytes).noise = 0) <| by
    rw [settled_iff, ← Decoder.mk.injEq]

instance (limit : ℕ) (bytes : List A) : Decidable (F.Flooded limit bytes) :=
  decidable_of_iff _ flooded_iff.symm

instance (p : List A) (x : A) : Decidable (F.EndsFrame (p ++ [x])) :=
  decidable_of_iff ((F.step (F.decoder.run ⟨[], 0⟩ p) x).2.isSome = true) endsFrame_snoc.symm

def throughFrame (F : Format A) (fed : List A) : List A → Option (List A)
  | [] => none
  | x :: xs =>
      if F.EndsFrame (fed ++ [x]) then some [x]
      else (F.throughFrame (fed ++ [x]) xs).map (x :: ·)

theorem step_endsFrame {p : List A} {x : A} (h : F.EndsFrame (p ++ [x])) :
    ∃ raw, F.decoder.step (F.decoder.run ⟨[], 0⟩ p) x =
      (F.decoder.run ⟨[], 0⟩ (p ++ [x]), some raw) := by
  obtain ⟨raw, hraw⟩ := Option.isSome_iff_exists.mp (endsFrame_snoc.mp h)
  exact ⟨raw, Prod.ext (by rw [Transducer.run_append]; rfl) hraw⟩

theorem step_not_endsFrame {p : List A} {x : A} (h : ¬F.EndsFrame (p ++ [x])) :
    F.decoder.step (F.decoder.run ⟨[], 0⟩ p) x = (F.decoder.run ⟨[], 0⟩ (p ++ [x]), none) := by
  rw [endsFrame_snoc, Transducer.EmitsAt, Bool.not_eq_true, Option.isSome_eq_false_iff,
    Option.isNone_iff_eq_none] at h
  exact Prod.ext (by rw [Transducer.run_append]; rfl) h

theorem scan_throughFrame_none {fed xs : List A} (h : F.throughFrame fed xs = none) :
    F.decoder.scan (F.decoder.run ⟨[], 0⟩ fed) xs =
      (F.decoder.run ⟨[], 0⟩ (fed ++ xs), none) := by
  induction xs generalizing fed with
  | nil => rw [List.append_nil]; rfl
  | cons x xs ih =>
    by_cases hx : F.EndsFrame (fed ++ [x])
    · simp [throughFrame, hx] at h
    · rw [throughFrame, if_neg hx, Option.map_eq_none_iff] at h
      simp only [Transducer.scan, step_not_endsFrame hx]
      rw [ih h, List.append_assoc, List.singleton_append]

theorem scan_throughFrame_some {fed xs ys : List A} (h : F.throughFrame fed xs = some ys) :
    ∃ raw rest, F.decoder.scan (F.decoder.run ⟨[], 0⟩ fed) xs =
      (F.decoder.run ⟨[], 0⟩ (fed ++ ys), some (raw, rest)) := by
  induction xs generalizing fed ys with
  | nil => cases h
  | cons x xs ih =>
    by_cases hx : F.EndsFrame (fed ++ [x])
    · rw [throughFrame, if_pos hx, Option.some.injEq] at h
      obtain ⟨raw, hraw⟩ := step_endsFrame hx
      refine ⟨raw, xs, ?_⟩
      simp only [Transducer.scan, hraw, ← h]
    · rw [throughFrame, if_neg hx, Option.map_eq_some_iff] at h
      obtain ⟨zs, hzs, rfl⟩ := h
      obtain ⟨raw, rest, hs⟩ := ih hzs
      refine ⟨raw, rest, ?_⟩
      simp only [Transducer.scan, step_not_endsFrame hx]
      rw [hs, List.append_assoc, List.singleton_append]

end Framing.Format
