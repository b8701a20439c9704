import DapProxy.Host.Link
import DapProxy.Target.Frame

namespace DapProxy.Host.DapLink
open DapProxy.Target
variable {ν : Type} [Network ν]

theorem wire_eq (p : List UInt8) :
    wire p = frameMagic :: lenLo p.length :: lenHi p.length :: p := rfl

theorem length_wire (p : List UInt8) : (wire p).length = p.length + 3 := rfl

structure Source (R : List UInt8 → DapLink ν → Prop) (E : DapLink ν → Prop) : Prop where
  read : ∀ {n : ℕ} {bytes : List UInt8} {l : DapLink ν}, R bytes l → n ≤ bytes.length →
    (∃ v l', l.readExact n = (.ok v, l') ∧ v.toList = bytes.take n ∧ R (bytes.drop n) l') ∨
      ∃ e l', l.readExact n = (.error e, l') ∧ E l'

theorem get_of_toList {n : ℕ} {v : Vector UInt8 n} {xs : List UInt8} (h : v.toList = xs) (i : ℕ)
    (hi : i < n) (hx : i < xs.length) : v[i] = xs[i] := by
  subst h
  simp [Vector.toList]

structure Delivers (R : List UInt8 → DapLink ν → Prop) : Prop where
  enough : ∀ {n : ℕ} {bytes : List UInt8} {l : DapLink ν}, R bytes l → n ≤ bytes.length →
    ∃ v l', l.readExact n = (.ok v, l') ∧ v.toList = bytes.take n ∧ R (bytes.drop n) l'
  dry : ∀ {n : ℕ} {bytes : List UInt8} {l : DapLink ν}, R bytes l → bytes.length < n →
    ∃ e l', l.readExact n = (.error e, l')

theorem Delivers.source {R : List UInt8 → DapLink ν → Prop} (h : Delivers R) :
    Source R (fun _ => False) := ⟨fun hr hn => Or.inl (h.enough hr hn)⟩

def framesRead : ℕ → DapLink ν → List (List UInt8)
  | 0, _ => []
  | n + 1, l =>
      match l.readFrame with
      | (.error _, _) => []
      | (.ok p, l) => p :: framesRead n l

namespace Source
variable {R : List UInt8 → DapLink ν → Prop} {E : DapLink ν → Prop} {l : DapLink ν}
  {rest : List UInt8}

theorem skipToMagic (h : Source R E) {gap : List UInt8} (hq : frameMagic ∉ gap) {room : ℕ}
    (hroom : gap.length ≤ room) (hr : R (gap ++ frameMagic :: rest) l) :
    (∃ l', l.skipToMagic room = (.ok (), l') ∧ R rest l') ∨
      ∃ e l', l.skipToMagic room = (.error e, l') ∧ E l' := by
  induction gap generalizing room l with
  | nil =>
    rcases h.read (n := 1) hr (by simp) with ⟨v, l', hv, hl, hr'⟩ | ⟨e, l', hv, he⟩
    · have hbyte : v[0] = frameMagic := get_of_toList hl 0 (by decide) (by simp)
      refine Or.inl ⟨l', ?_, hr'⟩
      rw [DapLink.skipToMagic]
      simp only [hv, hbyte, if_true]
    · refine Or.inr ⟨e, l', ?_, he⟩
      rw [DapLink.skipToMagic]
      simp only [hv]
  | cons x gap ih =>
    obtain ⟨room, rfl⟩ := Nat.exists_eq_add_of_le' (Nat.le_trans (Nat.succ_pos _) hroom)
    rw [List.mem_cons, not_or] at hq
    obtain ⟨hx, hq⟩ := hq
    rcases h.read (n := 1) hr (by simp) with ⟨v, l', hv, hl, hr'⟩ | ⟨e, l', hv, he⟩
    · have hbyte : v[0] = x := get_of_toList hl 0 (by decide) (by simp)
      have hskip : l.skipToMagic (room + 1) = l'.skipToMagic room := by
        rw [DapLink.skipToMagic]
        simp only [hv, hbyte, if_neg (Ne.symm hx)]
      rw [hskip]
      exact ih hq (Nat.le_of_succ_le_succ hroom) hr'
    · refine Or.inr ⟨e, l', ?_, he⟩
      rw [DapLink.skipToMagic]
      simp only [hv]

theorem readNoisy (h : Source R E) {gap p : List UInt8} (hq : frameMagic ∉ gap)
    (hgap : gap.length ≤ maxFrame) (hp : p.length ≤ maxFrame)
    (hr : R (gap ++ (wire p ++ rest)) l) :
    (∃ l', l.readFrame = (.ok p, l') ∧ R rest l') ∨
      ∃ e l', l.readFrame = (.error e, l') ∧ E l' := by
  have hsize : (lenLo p.length).toNat ||| (lenHi p.length).toNat <<< 8 = p.length :=
    size_len (Nat.lt_of_le_of_lt hp (by decide))
  rw [DapLink.readFrame]
  rcases h.skipToMagic hq hgap hr with ⟨l₁, hm, hr₁⟩ | ⟨e, l₁, hm, he⟩
  · rcases h.read (n := 2) hr₁ (by simp) with ⟨v, l₂, hv, hl, hr₂⟩ | ⟨e, l₂, hv, he⟩
    · have hlo : v[0] = lenLo p.length := get_of_toList hl 0 (by decide) (by simp)
      have hhi : v[1] = lenHi p.length := get_of_toList hl 1 (by decide) (by simp)
      have hn : v[0].toNat ||| v[1].toNat <<< 8 = p.length := by rw [hlo, hhi, hsize]
      simp only [hm, hv]
      generalize v[0].toNat ||| v[1].toNat <<< 8 = n at hn ⊢
      subst hn
      rw [if_neg (Nat.not_lt.mpr hp)]
      rcases h.read (n := p.length) hr₂ (by simp) with ⟨w, l₃, hw, hp', hr₃⟩ | ⟨e, l₃, hw, he⟩
      · have hpayload : w.toList = p := by simpa using hp'
        exact Or.inl ⟨l₃, by simp only [hw, hpayload], by simpa using hr₃⟩
      · exact Or.inr ⟨e, l₃, by simp only [hw], he⟩
    · exact Or.inr ⟨e, l₂, by simp only [hm, hv], he⟩
  · exact Or.inr ⟨e, l₁, by simp only [hm], he⟩

theorem readFrame (h : Source R E) {p : List UInt8} (hp : p.length ≤ maxFrame)
    (hr : R (wire p ++ rest) l) :
    (∃ l', l.readFrame = (.ok p, l') ∧ R rest l') ∨
      ∃ e l', l.readFrame = (.error e, l') ∧ E l' := by
  have hr' : R ([] ++ (wire p ++ rest)) l := hr
  exact h.readNoisy List.not_mem_nil (Nat.zero_le _) hp hr'

end Source

end DapProxy.Host.DapLink
