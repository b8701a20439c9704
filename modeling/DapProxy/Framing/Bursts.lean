import DapProxy.Framing.Blocks

namespace Framing
variable {A : Type}

theorem exists_burst {R : A → A → Prop} {q : A → Bool}
    (hq : ∀ x y z, R x y → R x z → R y z → q x = true → q z = true → q y = true) {xs : List A}
    (h : xs.Pairwise R) :
    ∃ before mid after, xs = before ++ mid ++ after ∧ (∀ x ∈ before, q x = false) ∧
      (∀ x ∈ mid, q x = true) ∧ ∀ x ∈ after, q x = false := by
  induction xs with
  | nil => exact ⟨[], [], [], rfl, by simp, by simp, by simp⟩
  | cons x xs ih =>
    obtain ⟨hx, hxs⟩ := List.pairwise_cons.mp h
    obtain ⟨before, mid, after, rfl, hb, hm, ha⟩ := ih hxs
    cases hqx : q x with
    | false =>
      refine ⟨x :: before, mid, after, rfl, ?_, hm, ha⟩
      rintro y (_ | ⟨_, hy⟩)
      · exact hqx
      · exact hb y hy
    | true =>
      cases mid with
      | nil =>
        refine ⟨[], [x], before ++ after, by simp, by simp, by simpa using hqx, ?_⟩
        intro y hy
        rcases List.mem_append.mp hy with hy | hy
        · exact hb y hy
        · exact ha y hy
      | cons z mid =>
        cases before with
        | nil =>
          refine ⟨[], x :: z :: mid, after, rfl, by simp, ?_, ha⟩
          rintro y (_ | ⟨_, hy⟩)
          · exact hqx
          · exact hm y hy
        | cons y before =>
          have hyz : R y z := (List.pairwise_cons.mp hxs).1 z (by simp)
          have hqy := hq x y z (hx y (by simp)) (hx z (by simp)) hyz hqx (hm z (by simp))
          rw [hb y (by simp)] at hqy
          cases hqy

def endsIn (q : A → Bool) (raw : List A) : Bool := raw.getLast?.any q

namespace Format
variable {F : Format A} {q : A → Bool}

theorem step_endsIn {s s' : Decoder A} {x : A} {raw : List A}
    (h : F.step s x = (s', some raw)) : endsIn q raw = q x := by
  rw [(step_out h).1, endsIn, List.getLast?_concat]
  rfl

theorem outs_endsIn {xs : List A} (h : ∀ x ∈ xs, q x = false) (s : Decoder A) :
    ∀ raw ∈ F.decoder.outs s xs, endsIn q raw = false := by
  induction xs generalizing s with
  | nil => simp [Transducer.outs]
  | cons x xs ih =>
    intro raw hraw
    rcases List.mem_append.mp hraw with hraw | hraw
    · rw [Option.mem_toList] at hraw
      rw [step_endsIn (Prod.ext rfl hraw)]
      exact h x (by simp)
    · exact ih (fun y hy => h y (by simp [hy])) _ raw hraw

theorem outs_after_first {s : Decoder A} {xs : List A} {raw : List A} {raws : List (List A)}
    (h : F.decoder.outs s xs = raw :: raws) : raws.flatten.length < xs.length := by
  rcases hs : F.decoder.scan s xs with ⟨s', _ | ⟨y, rest⟩⟩
  · rw [(Transducer.scan_none hs).1] at h
    cases h
  · obtain ⟨pre, x, rfl, hpre, hx⟩ := Transducer.scan_some hs
    obtain ⟨-, rfl⟩ := step_out hx
    have hstep : F.decoder.step (F.decoder.run s pre) x = (⟨[], 0⟩, some y) := hx
    rw [Transducer.outs_append, hpre, List.nil_append, Transducer.outs, hstep] at h
    simp only [Option.toList_some, List.singleton_append, List.cons.injEq] at h
    have hsub := (outs_sublist (F := F) ⟨[], 0⟩ rest).length_le
    rw [h.2] at hsub
    simp only [List.length_append, List.nil_append, List.length_cons] at hsub ⊢
    omega

theorem countP_long_le {p : List A → Bool} {s : Decoder A} {xs : List A}
    (hp : ∀ raw ∈ F.decoder.outs s xs, p raw = true → xs.length ≤ raw.length) :
    (F.decoder.outs s xs).countP p ≤ 1 := by
  cases ho : F.decoder.outs s xs with
  | nil =>
    simp
  | cons raw raws =>
    have hlt := outs_after_first ho
    have hzero : raws.countP p = 0 := by
      rw [List.countP_eq_zero]
      intro r hr hpr
      have hle := hp r (by rw [ho]; simp [hr]) hpr
      have hfl := (List.sublist_flatten_of_mem hr).length_le
      omega
    rw [List.countP_cons, hzero]
    split <;> omega

theorem countP_burst_le {R : A → A → Prop} {p : List A → Bool} {s : Decoder A} {xs : List A}
    (hq : ∀ x y z, R x y → R x z → R y z → q x = true → q z = true → q y = true) (h : xs.Pairwise R)
    (hp : ∀ raw ∈ F.decoder.outs s xs, p raw = true → xs.countP q ≤ raw.length) :
    (F.decoder.outs s xs).countP (fun raw => p raw && endsIn q raw) ≤ 1 := by
  obtain ⟨before, mid, after, rfl, hb, hm, ha⟩ := exists_burst hq h
  have hcount : (before ++ mid ++ after).countP q = mid.length := by
    have hbefore : before.countP q = 0 := List.countP_eq_zero.mpr (by simpa using hb)
    have hafter : after.countP q = 0 := List.countP_eq_zero.mpr (by simpa using ha)
    rw [List.countP_append, List.countP_append, hbefore, hafter, List.countP_eq_length.mpr hm]
    omega
  have hquiet {raws : List (List A)} (hr : ∀ raw ∈ raws, endsIn q raw = false) :
      raws.countP (fun raw => p raw && endsIn q raw) = 0 := by
    rw [List.countP_eq_zero]
    intro raw hraw
    simp [hr raw hraw]
  rw [hcount] at hp
  rw [Transducer.outs_append, Transducer.outs_append] at hp ⊢
  rw [List.countP_append, List.countP_append, hquiet (outs_endsIn hb _),
    hquiet (outs_endsIn ha _)]
  have hmid : (F.decoder.outs (F.decoder.run s before) mid).countP
      (fun raw => p raw && endsIn q raw) ≤ 1 := by
    refine countP_long_le fun raw hraw hpr => hp raw (by simp [hraw]) ?_
    exact (Bool.and_eq_true _ _ ▸ hpr).1
  omega

end Format

end Framing
