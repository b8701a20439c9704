import DapProxy.Host.Link
import Mathlib.Tactic.Common

namespace DapProxy.Host.DapLink
variable {ν : Type} [Network ν] {l : DapLink ν}

structure Closed (P : DapLink ν → Prop) : Prop where
  connect : ∀ {l}, P l → P l.connect.2
  disconnect : ∀ {l}, P l → P l.disconnect
  readExact : ∀ {l} n, P l → P (l.readExact n).2

structure Listens (P : ν → Prop) : Prop where
  connect : ∀ {n : ν}, P n → P (Network.connect n).2
  readExact : ∀ {n : ν} c k, P n → P (Network.readExact c k n).2
  close : ∀ {n : ν} c, P n → P (Network.close c n)

structure Upholds (P : ν → Prop) : Prop extends Listens P where
  writeAll : ∀ {n : ν} c data, P n → P (Network.writeAll c data n).2

theorem Listens.closed {P : ν → Prop} (h : Listens P) :
    Closed (fun l : DapLink ν => P l.net) where
  connect := by
    intro l hp
    have hc := h.connect hp
    rw [DapLink.connect]
    split <;> next hn => simpa [hn] using hc
  disconnect := by
    intro l hp
    rw [DapLink.disconnect]
    split
    · exact hp
    · exact h.close _ hp
  readExact := by
    intro l n hp
    rw [DapLink.readExact]
    split
    · exact hp
    · next c _ =>
      have hr := h.readExact c n hp
      split <;> next hn => simpa [hn] using hr

theorem closed_metrics (m : Metrics) : Closed (fun l : DapLink ν => l.metrics = m) where
  connect := by
    intro l hp
    rw [DapLink.connect]
    split <;> exact hp
  disconnect := by
    intro l hp
    rw [DapLink.disconnect]
    split <;> exact hp
  readExact := by
    intro l n hp
    rw [DapLink.readExact]
    split
    · exact hp
    · split <;> exact hp

theorem metrics_writeAll (l : DapLink ν) (data : List UInt8) :
    (l.writeAll data).2.metrics = l.metrics := by
  rw [DapLink.writeAll]
  split
  · rfl
  · split <;> rfl

theorem writeAll_closed {P : ν → Prop} {data : List UInt8}
    (h : ∀ {n : ν} c, P n → P (Network.writeAll c data n).2) (hp : P l.net) :
    P (l.writeAll data).2.net := by
  rw [DapLink.writeAll]
  split
  · exact hp
  · next c _ =>
    have hw := h c hp
    split <;> next hn => simpa [hn] using hw

namespace Closed
variable {P Q : DapLink ν → Prop}

theorem and (hP : Closed P) (hQ : Closed Q) : Closed (fun l => P l ∧ Q l) where
  connect h := ⟨hP.connect h.1, hQ.connect h.2⟩
  disconnect h := ⟨hP.disconnect h.1, hQ.disconnect h.2⟩
  readExact n h := ⟨hP.readExact n h.1, hQ.readExact n h.2⟩

theorem ensure (h : Closed P) (hp : P l) : P l.ensure.2 := by
  rw [DapLink.ensure]
  split
  · exact h.connect hp
  · exact hp

theorem skipToMagic (h : Closed P) (room : ℕ) (hp : P l) : P (l.skipToMagic room).2 := by
  induction room generalizing l with
  | zero =>
    have hr := h.readExact 1 hp
    rw [DapLink.skipToMagic]
    split
    · next hn => simpa [hn] using hr
    · next hn =>
      rw [hn] at hr
      split <;> exact hr
  | succ room ih =>
    have hr := h.readExact 1 hp
    rw [DapLink.skipToMagic]
    split
    · next hn => simpa [hn] using hr
    · next hn =>
      rw [hn] at hr
      split
      · exact hr
      · exact ih hr

theorem readFrame (h : Closed P) (hp : P l) : P l.readFrame.2 := by
  have h₁ := h.skipToMagic maxFrame hp
  rw [DapLink.readFrame]
  split
  · next hn => simpa [hn] using h₁
  · next l₁ hn =>
    rw [hn] at h₁
    have h₂ := h.readExact 2 h₁
    split
    · next hn => simpa [hn] using h₂
    · next len l₂ hn =>
      rw [hn] at h₂
      dsimp only
      split
      · exact h₂
      · have h₃ := h.readExact (len[0].toNat ||| len[1].toNat <<< 8) h₂
        split <;> next hn => simpa [hn] using h₃

theorem tryRequest (hP : Closed P) (hQ : Closed Q) {p : List UInt8}
    (hw : ∀ {l : DapLink ν} {c : ℕ}, l.stream = some c → P l → Q (l.writeAll (wire p)).2)
    (hp : P l) : P (l.tryRequest p).2 ∨ Q (l.tryRequest p).2 := by
  have h₁ := hP.ensure hp
  rw [DapLink.tryRequest]
  rcases he : l.ensure with ⟨e | _, l₁⟩
  · rw [he] at h₁
    exact Or.inl h₁
  · rw [he] at h₁
    simp only
    cases hs : l₁.stream with
    | none =>
      have hnone : l₁.writeAll (wire p) = (.error .disconnected, l₁) := by
        simp only [DapLink.writeAll, hs]
      rw [hnone]
      exact Or.inl (hP.disconnect h₁)
    | some c =>
      have h₂ := hw hs h₁
      apply Or.inr
      rcases hwr : l₁.writeAll (wire p) with ⟨e | _, l₂⟩
      · rw [hwr] at h₂
        exact hQ.disconnect h₂
      · rw [hwr] at h₂
        have h₃ := hQ.readFrame h₂
        simp only
        rcases hr : l₂.readFrame with ⟨e | resp, l₃⟩
        · rw [hr] at h₃
          exact hQ.disconnect h₃
        · rw [hr] at h₃
          exact h₃

end Closed

namespace Upholds
variable {P : ν → Prop}

theorem tryRequest (h : Upholds P) (p : List UInt8) (hp : P l.net) :
    P (l.tryRequest p).2.net :=
  (h.closed.tryRequest h.closed (fun _ => writeAll_closed fun c => h.writeAll c _) hp).elim id id

theorem again (h : Upholds P) (p : List UInt8) (hp : P l.net) : P (l.again p).2.net := by
  have h₁ := h.closed.connect (h.closed.disconnect (l := l.retried) hp)
  rw [DapLink.again]
  split
  · next hn => simpa [hn] using h₁
  · next l₁ hn =>
    rw [hn] at h₁
    have h₂ := h.tryRequest p h₁
    split <;> next hn => simpa [hn] using h₂

theorem request (h : Upholds P) (p : List UInt8) (hp : P l.net) : P (l.request p).2.net := by
  by_cases hlen : p.length ≤ maxFrame
  · have h₁ := h.tryRequest (l := l.counted) p hp
    rcases htry : l.counted.tryRequest p with ⟨e | resp, l₁⟩
    · rw [request_again hlen htry]
      rw [htry] at h₁
      exact h.again p h₁
    · rw [request_first hlen htry]
      simpa [htry] using h₁
  · rw [request_refused (Nat.lt_of_not_le hlen)]
    exact hp

theorem requests (h : Upholds P) (ps : List (List UInt8)) (hp : P l.net) :
    P (l.requests ps).2.net := by
  induction ps generalizing l with
  | nil => exact hp
  | cons p ps ih => exact ih (h.request p hp)

end Upholds

section
variable {sent : ν → List (List UInt8)}

structure Records (sent : ν → List (List UInt8)) : Prop where
  listens : ∀ xs, Listens (fun n => sent n = xs)
  writeAll : ∀ (n : ν) c data, sent (Network.writeAll c data n).2 = sent n ++ [data]

def Copied (sent : ν → List (List UInt8)) (p : List UInt8) (limit : ℕ) (l l' : DapLink ν) :
    Prop :=
  ∃ k ≤ limit, sent l'.net = sent l.net ++ List.replicate k (wire p)

namespace Records

theorem tryRequest (h : Records sent) (p : List UInt8) (l : DapLink ν) :
    Copied sent p 1 l (l.tryRequest p).2 ∧ (l.tryRequest p).2.metrics = l.metrics := by
  have hP (xs) := (h.listens xs).closed.and (closed_metrics l.metrics)
  have hwrite {l₁ : DapLink ν} {c : ℕ} (hc : l₁.stream = some c)
      (h₁ : sent l₁.net = sent l.net ∧ l₁.metrics = l.metrics) :
      sent (l₁.writeAll (wire p)).2.net = sent l.net ++ [wire p] ∧
        (l₁.writeAll (wire p)).2.metrics = l.metrics := by
    refine ⟨?_, (metrics_writeAll _ _).trans h₁.2⟩
    have hw := h.writeAll l₁.net c (wire p)
    rw [h₁.1] at hw
    rw [DapLink.writeAll]
    simp only [hc]
    split <;> next hn => simpa [hn] using hw
  rcases (hP (sent l.net)).tryRequest (hP (sent l.net ++ [wire p])) hwrite ⟨rfl, rfl⟩ with
    ⟨hs, hm⟩ | ⟨hs, hm⟩
  · exact ⟨⟨0, Nat.zero_le _, by simpa using hs⟩, hm⟩
  · exact ⟨⟨1, Nat.le_refl _, by simpa using hs⟩, hm⟩

theorem again (h : Records sent) (p : List UInt8) (l : DapLink ν) :
    Copied sent p 1 l (l.again p).2 ∧
      (l.again p).2.metrics.linkRetries = l.metrics.linkRetries + 1 := by
  have hP := (h.listens (sent l.net)).closed.and (closed_metrics l.retried.metrics)
  obtain ⟨hs, hm⟩ := hP.connect (hP.disconnect (l := l.retried) ⟨rfl, rfl⟩)
  rw [DapLink.again]
  rcases hc : l.retried.disconnect.connect with ⟨e | _, l₁⟩
  · rw [hc] at hs hm
    exact ⟨⟨0, Nat.zero_le _, by simpa using hs⟩, by rw [hm]; rfl⟩
  · rw [hc] at hs hm
    obtain ⟨⟨k, hk, hsent⟩, hmetrics⟩ := h.tryRequest p l₁
    rw [hs] at hsent
    rw [hm] at hmetrics
    have hretries := congrArg Metrics.linkRetries hmetrics
    simp only
    rcases ht : l₁.tryRequest p with ⟨e | resp, l₂⟩ <;>
      · rw [ht] at hsent hretries
        exact ⟨⟨k, hk, hsent⟩, hretries⟩

theorem request (h : Records sent) (p : List UInt8) (l : DapLink ν) :
    ∃ retries ≤ 1,
      (retries = 0 ↔ maxFrame < p.length ∨ (l.counted.tryRequest p).1.toBool = true) ∧
      (l.request p).2.metrics.linkRetries = l.metrics.linkRetries + retries ∧
      Copied sent p (1 + retries) l (l.request p).2 := by
  by_cases hlen : p.length ≤ maxFrame
  · obtain ⟨⟨k, hk, hsent⟩, hm⟩ := h.tryRequest p l.counted
    rcases htry : l.counted.tryRequest p with ⟨e | resp, l₁⟩
    · rw [htry] at hsent hm
      obtain ⟨⟨k', hk', hsent'⟩, hm'⟩ := h.again p l₁
      have hfailed : ¬(maxFrame < p.length ∨ false = true) := by simp [hlen]
      rw [request_again hlen htry]
      refine ⟨1, Nat.le_refl _, iff_of_false Nat.one_ne_zero hfailed, by rw [hm', hm]; rfl,
        k + k', by omega, ?_⟩
      rw [hsent', hsent, List.append_assoc, List.replicate_append_replicate]
      rfl
    · rw [htry] at hsent hm
      rw [request_first hlen htry]
      have hretries := congrArg Metrics.linkRetries hm
      exact ⟨0, Nat.zero_le _, iff_of_true rfl (Or.inr rfl), hretries, k, hk, hsent⟩
  · rw [request_refused (Nat.lt_of_not_le hlen)]
    have hlarge := Nat.lt_of_not_le hlen
    exact ⟨0, Nat.zero_le _, iff_of_true rfl (Or.inl hlarge), rfl, 0, Nat.zero_le _, by simp⟩

theorem requests (h : Records sent) (ps : List (List UInt8)) (l : DapLink ν) :
    sent l.net <+: sent (l.requests ps).2.net := by
  induction ps generalizing l with
  | nil => exact List.prefix_rfl
  | cons p ps ih =>
    obtain ⟨_, -, -, -, k, -, hs⟩ := h.request p l
    exact (hs ▸ List.prefix_append _ _).trans (ih (l.request p).2)

end Records

end

end DapProxy.Host.DapLink
