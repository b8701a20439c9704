import DapProxy.Framing.Blocks
import DapProxy.Framing.Stream

namespace Transducer
variable {S A B : Type} {M : Transducer S A B} {P : List A → Prop}

def EmitsAt (M : Transducer S A B) (s : S) (xs : List A) (x : A) : Prop :=
  (M.step (M.run s xs) x).2.isSome

theorem outs_of_emitsAt {s : S} {xs : List A} {x : A} (h : M.EmitsAt s xs x) (ys : List A) :
    M.outs s (xs ++ x :: ys) ≠ [] := by
  obtain ⟨y, hy⟩ := Option.isSome_iff_exists.mp h
  simp [outs_append, outs, hy]

theorem rest_of_emitsAt {s : S} {xs pre rest rest' : List A} {x z : A}
    (h : xs ++ x :: rest = pre ++ z :: rest') (hpre : M.outs s pre = [])
    (hrest : M.outs (M.run s (pre ++ [z])) rest' = []) (hx : M.EmitsAt s xs x) :
    rest = rest' := by
  rcases List.append_eq_append_iff.mp h with ⟨mid, hmid, hm⟩ | ⟨mid, hmid, hm⟩
  · cases mid with
    | nil => exact (List.cons.inj hm).2
    | cons w mid =>
      obtain ⟨rfl, -⟩ := List.cons.inj hm
      rw [hmid] at hpre
      exact absurd hpre (outs_of_emitsAt hx mid)
  · cases mid with
    | nil => exact (List.cons.inj hm).2.symm
    | cons w mid =>
      obtain ⟨rfl, rfl⟩ := List.cons.inj hm
      rw [hmid, List.append_cons, EmitsAt, run_append] at hx
      exact absurd hrest (outs_of_emitsAt hx rest)

section
variable (hP : ∀ s xs x rest, M.EmitsAt s xs x → P rest → M.outs (M.run s (xs ++ [x])) rest = [])
include hP

theorem scan_rest_iff (s : S) (b : List A) :
    (∀ y rest, (M.scan s b).2 = some (y, rest) → P rest) ↔
      ∀ xs x rest, b = xs ++ x :: rest → M.EmitsAt s xs x → P rest := by
  constructor
  · rintro hb xs x rest rfl hx
    rcases hs : M.scan s (xs ++ x :: rest) with ⟨s', _ | ⟨y, rest'⟩⟩
    · exact absurd (scan_none hs).1 (outs_of_emitsAt hx rest)
    · obtain ⟨pre, z, hsplit, hpre, hz⟩ := scan_some hs
      have hrest := hb y rest' (by rw [hs])
      have hemit : M.EmitsAt s pre z := by rw [EmitsAt, hz]; rfl
      rw [rest_of_emitsAt hsplit hpre (hP s pre z rest' hemit hrest) hx]
      exact hrest
  · intro h y rest hy
    obtain ⟨pre, z, rfl, -, hz⟩ := scan_some (Prod.ext rfl hy)
    apply h pre z rest rfl
    rw [EmitsAt, hz]
    rfl

theorem tails_iff (s : S) (bs : List (List A)) :
    M.Tails P s bs ↔ ∀ before xs x rest after, bs = before ++ (xs ++ x :: rest) :: after →
      M.EmitsAt s (before.flatten ++ xs) x → P rest := by
  induction bs generalizing s with
  | nil => exact ⟨fun _ _ _ _ _ _ h => by simp at h, fun _ => trivial⟩
  | cons b bs ih =>
    constructor
    · rintro ⟨hb, hbs⟩ before xs x rest after heq hx
      cases before with
      | nil =>
        obtain ⟨rfl, -⟩ := List.cons.inj heq
        exact (scan_rest_iff hP s _).mp hb xs x rest rfl hx
      | cons b' before =>
        obtain ⟨rfl, htail⟩ := List.cons.inj heq
        apply (ih (M.run s b)).mp hbs before xs x rest after htail
        rw [List.flatten_cons, List.append_assoc, EmitsAt, run_append] at hx
        exact hx
    · intro h
      refine ⟨(scan_rest_iff hP s b).mpr fun xs x rest hb hx => ?_,
        (ih _).mpr fun before xs x rest after heq hx => ?_⟩
      · exact h [] xs x rest bs (by rw [hb]; rfl) hx
      · apply h (b :: before) xs x rest after (by rw [heq]; rfl)
        rw [List.flatten_cons, List.append_assoc, EmitsAt, run_append]
        exact hx

end

end Transducer

namespace Framing.Format
variable {A : Type} {F : Format A}

theorem emitsAt_state {s : Decoder A} {xs : List A} {x : A} (h : F.decoder.EmitsAt s xs x) :
    F.decoder.run s (xs ++ [x]) = ⟨[], 0⟩ := by
  obtain ⟨raw, hraw⟩ := Option.isSome_iff_exists.mp h
  rw [Transducer.run_append]
  exact (step_out (Prod.ext rfl hraw)).2

namespace Segment
variable {g : F.Segment} {k : ℕ} {t u : List A} {x : A}

theorem outs_within (h : g.bytes = t ++ u) (hu : u ≠ []) : F.decoder.outs ⟨[], k⟩ t = [] := by
  rcases List.append_eq_append_iff.mp h with ⟨mid, rfl, hm⟩ | ⟨mid, hm, -⟩
  · rw [Transducer.outs_append, outs_quiet k g.quiet, run_quiet k g.quiet,
      (Frame.run_within _ hm hu).2, List.append_nil]
  · exact outs_quiet k fun y hy => g.quiet y (by rw [hm]; simp [hy])

theorem emitsAt_within (h : g.bytes = t ++ x :: u) (hu : u ≠ []) :
    ¬F.decoder.EmitsAt ⟨[], k⟩ t x := by
  intro hx
  have hquiet := outs_within (k := k) (t := t ++ [x]) (by simpa using h) hu
  exact Transducer.outs_of_emitsAt hx [] hquiet

theorem emitsAt_last (h : g.bytes = t ++ [x]) :
    F.decoder.EmitsAt ⟨[], k⟩ t x ↔ g.frame.payload ≠ [] := by
  have houts := outs_bytes g k
  have ht := outs_within (k := k) h (by simp)
  rw [h, Transducer.outs_append, ht] at houts
  rw [Transducer.EmitsAt]
  rcases hs : (F.decoder.step (F.decoder.run ⟨[], k⟩ t) x).2 with _ | raw <;>
    simp only [Transducer.outs, hs] at houts <;>
    split at houts <;> simp_all

theorem bytes_ne_nil (g : F.Segment) : g.bytes ≠ [] := by
  simp [bytes, Frame.wire]

theorem stream_cons (g : F.Segment) (gs : List F.Segment) :
    stream (g :: gs) = g.bytes ++ stream gs := rfl

theorem stream_snoc_ne_nil (before : List F.Segment) (g : F.Segment) :
    stream (before ++ [g]) ≠ [] := by
  rw [stream, List.flatMap_append]
  exact List.append_ne_nil_of_right_ne_nil _ (by simpa using bytes_ne_nil g)

def EndsAt (gs : List F.Segment) (xs : List A) : Prop :=
  ∃ before g after, gs = before ++ g :: after ∧ g.frame.payload ≠ [] ∧ stream (before ++ [g]) = xs

theorem endsAt_cons (g : F.Segment) (gs : List F.Segment) (xs : List A) :
    EndsAt (g :: gs) xs ↔ (g.frame.payload ≠ [] ∧ g.bytes = xs) ∨
      ∃ ys, xs = g.bytes ++ ys ∧ EndsAt gs ys := by
  constructor
  · rintro ⟨before, g', after, heq, hp, rfl⟩
    cases before with
    | nil =>
      obtain ⟨rfl, -⟩ := List.cons.inj heq
      exact Or.inl ⟨hp, by simp [stream]⟩
    | cons b before =>
      obtain ⟨rfl, rfl⟩ := List.cons.inj heq
      exact Or.inr ⟨_, stream_cons g _, before, g', after, rfl, hp, rfl⟩
  · rintro (⟨hp, rfl⟩ | ⟨ys, rfl, before, g', after, rfl, hp, rfl⟩)
    · exact ⟨[], g, gs, rfl, hp, by simp [stream]⟩
    · exact ⟨g :: before, g', after, rfl, hp, stream_cons g _⟩

theorem endsAt_ne_nil {gs : List F.Segment} {xs : List A} (h : EndsAt gs xs) : xs ≠ [] := by
  obtain ⟨before, g, after, -, -, rfl⟩ := h
  exact stream_snoc_ne_nil before g

theorem endsAt_behind {gs : List F.Segment} {mid : List A} :
    EndsAt (g :: gs) (g.bytes ++ mid ++ [x]) ↔ EndsAt gs (mid ++ [x]) := by
  rw [endsAt_cons, List.append_assoc]
  constructor
  · rintro (⟨-, he⟩ | ⟨ys, hys, he⟩)
    · have hl := congrArg List.length he
      simp at hl
    · rw [List.append_cancel_left_eq] at hys
      exact hys ▸ he
  · exact fun he => Or.inr ⟨mid ++ [x], rfl, he⟩

theorem endsAt_inside {gs : List F.Segment} (h : g.bytes = t ++ x :: u) :
    EndsAt (g :: gs) (t ++ [x]) ↔ g.frame.payload ≠ [] ∧ u = [] := by
  have hu (ys : List A) (hys : t ++ [x] = g.bytes ++ ys) : u = [] ∧ ys = [] := by
    have hl := congrArg List.length hys
    simp only [h, List.length_append, List.length_cons, List.length_nil] at hl
    exact ⟨List.length_eq_zero_iff.mp (by omega), List.length_eq_zero_iff.mp (by omega)⟩
  rw [endsAt_cons]
  constructor
  · rintro (⟨hp, he⟩ | ⟨ys, hys, he⟩)
    · exact ⟨hp, (hu [] (by rw [he, List.append_nil])).1⟩
    · exact absurd (hu ys hys).2 (endsAt_ne_nil he)
  · rintro ⟨hp, rfl⟩
    exact Or.inl ⟨hp, h⟩

theorem emitsAt_inside (h : g.bytes = t ++ x :: u) :
    F.decoder.EmitsAt ⟨[], k⟩ t x ↔ g.frame.payload ≠ [] ∧ u = [] := by
  cases u with
  | nil => rw [emitsAt_last h, and_iff_left rfl]
  | cons y u =>
    have hne : y :: u ≠ [] := List.cons_ne_nil y u
    exact ⟨fun hx => absurd hx (emitsAt_within h hne), fun hp => absurd hp.2 hne⟩

theorem emitsAt_iff {gs : List F.Segment} {tail p post : List A} {x : A}
    (htail : ∀ j, F.decoder.outs ⟨[], j⟩ tail = []) (h : stream gs ++ tail = p ++ x :: post) :
    F.decoder.EmitsAt ⟨[], k⟩ p x ↔ EndsAt gs (p ++ [x]) := by
  induction gs generalizing p k with
  | nil =>
    have hquiet : F.decoder.outs ⟨[], k⟩ (p ++ x :: post) = [] := h ▸ htail k
    constructor
    · exact fun hx => absurd hquiet (Transducer.outs_of_emitsAt hx post)
    · rintro ⟨before, g, after, heq, -⟩
      simp at heq
  | cons g gs ih =>
    rw [stream_cons, List.append_assoc] at h
    have hbehind (mid : List A) (hm : stream gs ++ tail = mid ++ x :: post) :
        F.decoder.EmitsAt ⟨[], k⟩ (g.bytes ++ mid) x ↔
          EndsAt (g :: gs) (g.bytes ++ mid ++ [x]) := by
      rw [endsAt_behind, Transducer.EmitsAt, Transducer.run_append, run_bytes]
      exact ih hm
    rcases List.append_eq_append_iff.mp h with ⟨mid, rfl, hm⟩ | ⟨mid, hm, hrest⟩
    · exact hbehind mid hm
    · cases mid with
      | nil =>
        have hp := hbehind [] hrest.symm
        rwa [hm, List.append_nil, List.append_nil] at hp
      | cons y mid =>
        obtain ⟨rfl, -⟩ := List.cons.inj hrest
        rw [emitsAt_inside hm, endsAt_inside hm]

theorem emits_iff {gs : List F.Segment} {tail p post raw : List A} {x : A}
    (htail : ∀ j, F.decoder.outs ⟨[], j⟩ tail = []) (h : stream gs ++ tail = p ++ x :: post) :
    (F.decoder.step (F.decoder.run ⟨[], k⟩ p) x).2 = some raw ↔
      ∃ before g after, gs = before ++ g :: after ∧ g.frame.payload ≠ [] ∧
        stream (before ++ [g]) = p ++ [x] ∧ g.frame.wire = raw := by
  have hends := emitsAt_iff (k := k) htail h
  have hwire (before : List F.Segment) (g : F.Segment) (hp : g.frame.payload ≠ [])
      (hs : stream (before ++ [g]) = p ++ [x]) {r : List A}
      (hr : (F.decoder.step (F.decoder.run ⟨[], k⟩ p) x).2 = some r) : g.frame.wire = r := by
    have houts := outs_stream (before ++ [g]) k
    have hlast : wires (before ++ [g]) = wires before ++ [g.frame.wire] := by simp [wires, hp]
    rw [hs, hlast, Transducer.outs_append] at houts
    simp only [Transducer.outs, hr, Option.toList_some, List.append_nil] at houts
    exact (List.append_singleton_inj.mp houts).2.symm
  constructor
  · intro hr
    obtain ⟨before, g, after, hgs, hp, hs⟩ := hends.mp (Option.isSome_iff_exists.mpr ⟨raw, hr⟩)
    exact ⟨before, g, after, hgs, hp, hs, hwire before g hp hs hr⟩
  · rintro ⟨before, g, after, hgs, hp, hs, rfl⟩
    obtain ⟨r, hr⟩ := Option.isSome_iff_exists.mp (hends.mpr ⟨before, g, after, hgs, hp, hs⟩)
    rw [hr, hwire before g hp hs hr]

theorem run_whole {gs : List F.Segment} (h : ∀ g ∈ gs, g.frame.payload ≠ []) :
    F.decoder.run ⟨[], 0⟩ (stream gs) = ⟨[], 0⟩ := by
  induction gs with
  | nil => rfl
  | cons g gs ih =>
    rw [stream_cons, Transducer.run_append, run_bytes, if_neg (h g List.mem_cons_self)]
    exact ih fun g' hg => h g' (List.mem_cons_of_mem g hg)

end Segment

end Framing.Format
