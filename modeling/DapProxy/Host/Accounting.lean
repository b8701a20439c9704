import DapProxy.Host.Closure
import DapProxy.Host.Peer

namespace DapProxy.Host.DapLink
variable {ν : Type} [Network ν]

def lost (p : List UInt8) (l : DapLink ν) : Bool :=
  match l.counted.tryRequest p with
  | (.ok _, _) => false
  | (.error _, l) =>
      match l.retried.disconnect.connect with
      | (.ok _, _) => false
      | (.error _, _) => true

def Accounted (p : List UInt8) (l : DapLink ν) : Prop :=
  match l.request p with
  | (.ok _, l') =>
      l'.metrics.linkErrors = l.metrics.linkErrors ∧
        l'.metrics.lastLinkError = l.metrics.lastLinkError
  | (.error e, l') =>
      l'.metrics.linkErrors = l.metrics.linkErrors + 1 ∧
        l'.metrics.lastLinkError = some e.toString

def calls : List (List UInt8) → DapLink ν → List (List UInt8 × DapLink ν)
  | [], _ => []
  | p :: ps, l => (p, l) :: calls ps (l.request p).2

def Balanced (l : DapLink ν) (results : List (Except LinkError (List UInt8)))
    (l' : DapLink ν) : Prop :=
  l'.metrics.linkRequests + l.metrics.linkErrors =
    l.metrics.linkRequests + results.countP (·.toBool) + l'.metrics.linkErrors

variable {l : DapLink ν} {p : List UInt8}

theorem metrics_tryRequest (p : List UInt8) (l : DapLink ν) :
    (l.tryRequest p).2.metrics = l.metrics := by
  have hclosed := closed_metrics (ν := ν) l.metrics
  exact (hclosed.tryRequest hclosed (fun _ h => (metrics_writeAll _ _).trans h) rfl).elim id id

theorem metrics_reconnect (l : DapLink ν) :
    l.retried.disconnect.connect.2.metrics = l.retried.metrics := by
  have hclosed := closed_metrics (ν := ν) l.retried.metrics
  exact hclosed.connect (hclosed.disconnect rfl)

theorem first_metrics {r : Except LinkError (List UInt8)} {l₁ : DapLink ν}
    (h : l.counted.tryRequest p = (r, l₁)) : l₁.metrics = l.counted.metrics := by
  rw [← metrics_tryRequest p l.counted, h]

section
variable {e : LinkError} {l₁ l₂ : DapLink ν}

theorem again_unconnected (hc : l.retried.disconnect.connect = (.error e, l₁)) :
    l.again p = (.error e, l₁) := by
  rw [again, hc]

theorem again_failed (hc : l.retried.disconnect.connect = (.ok (), l₁))
    (ht : l₁.tryRequest p = (.error e, l₂)) :
    l.again p = (.error e, { l₂ with metrics := l₂.metrics.noteLinkError e.toString }) := by
  rw [again, hc]
  dsimp only
  rw [ht]

theorem again_answered {resp : List UInt8} (hc : l.retried.disconnect.connect = (.ok (), l₁))
    (ht : l₁.tryRequest p = (.ok resp, l₂)) : l.again p = (.ok resp, l₂) := by
  rw [again, hc]
  dsimp only
  rw [ht]

theorem lost_eq (htry : l.counted.tryRequest p = (.error e, l₁)) :
    lost p l = !l₁.retried.disconnect.connect.1.toBool := by
  rw [lost, htry]
  dsimp only
  rcases l₁.retried.disconnect.connect with ⟨e | _, l₂⟩ <;> rfl

theorem metrics_second (hc : l.retried.disconnect.connect = (.ok (), l₁)) (p : List UInt8) :
    (l₁.tryRequest p).2.metrics = l.retried.metrics := by
  rw [metrics_tryRequest, ← metrics_reconnect l, hc]

end

theorem linkRequests_again (p : List UInt8) (l : DapLink ν) :
    (l.again p).2.metrics.linkRequests = l.metrics.linkRequests := by
  rcases hc : l.retried.disconnect.connect with ⟨e | ⟨⟩, l₁⟩
  · have hre := congrArg Metrics.linkRequests (metrics_reconnect l)
    rw [hc] at hre
    rw [again_unconnected hc]
    exact hre
  · have hsecond := congrArg Metrics.linkRequests (metrics_second hc p)
    rcases ht : l₁.tryRequest p with ⟨e | resp, l₂⟩ <;> rw [ht] at hsecond
    · rw [again_failed hc ht]
      exact hsecond
    · rw [again_answered hc ht]
      exact hsecond

theorem linkRequests_request (h : p.length ≤ maxFrame) :
    (l.request p).2.metrics.linkRequests = l.metrics.linkRequests + 1 := by
  rcases htry : l.counted.tryRequest p with ⟨e | resp, l₁⟩
  · rw [request_again h htry, linkRequests_again, first_metrics htry]
    rfl
  · rw [request_first h htry]
    change l₁.metrics.linkRequests = _
    rw [first_metrics htry]
    rfl

theorem accounted_again {l₁ : DapLink ν} {e : LinkError} (h : p.length ≤ maxFrame)
    (htry : l.counted.tryRequest p = (.error e, l₁)) :
    Accounted p l ↔ l₁.retried.disconnect.connect.1.toBool = true := by
  have hm := first_metrics htry
  rw [Accounted, request_again h htry]
  rcases hc : l₁.retried.disconnect.connect with ⟨e₂ | ⟨⟩, l₂⟩
  · have hre := metrics_reconnect l₁
    rw [hc] at hre
    have herrors : l₂.metrics.linkErrors = l.metrics.linkErrors := by
      rw [show l₂.metrics = l₁.retried.metrics from hre, retried, hm]
      rfl
    rw [again_unconnected hc]
    refine iff_of_false (fun hacc => ?_) Bool.noConfusion
    have hone : l₂.metrics.linkErrors = l.metrics.linkErrors + 1 := hacc.1
    omega
  · have hsecond := metrics_second hc p
    rw [retried, hm] at hsecond
    refine iff_of_true ?_ rfl
    have herrors := congrArg Metrics.linkErrors hsecond
    have hlast := congrArg Metrics.lastLinkError hsecond
    rcases ht : l₂.tryRequest p with ⟨e₃ | resp, l₃⟩ <;> rw [ht] at herrors hlast
    · rw [again_failed hc ht]
      exact ⟨congrArg (· + 1) herrors, rfl⟩
    · rw [again_answered hc ht]
      exact ⟨herrors, hlast⟩

theorem accounted_iff (h : p.length ≤ maxFrame) : Accounted p l ↔ lost p l = false := by
  rcases htry : l.counted.tryRequest p with ⟨e | resp, l₁⟩
  · rw [accounted_again h htry, lost_eq htry, Bool.not_eq_false']
  · have herrors := congrArg Metrics.linkErrors (first_metrics htry)
    have hlast := congrArg Metrics.lastLinkError (first_metrics htry)
    rw [Accounted, lost, htry, request_first h htry]
    exact iff_of_true ⟨herrors, hlast⟩ rfl

theorem balanced_of_accounted {ps : List (List UInt8)} (h : ∀ p ∈ ps, p.length ≤ maxFrame)
    (hacc : ∀ c ∈ calls ps l, Accounted c.1 c.2) :
    Balanced l (l.requests ps).1 (l.requests ps).2 := by
  induction ps generalizing l with
  | nil => rw [Balanced, requests, List.countP_nil, Nat.add_zero]
  | cons p ps ih =>
    have hcount := linkRequests_request (l := l) (h p List.mem_cons_self)
    have hfirst := hacc (p, l) List.mem_cons_self
    have hrest := ih (l := (l.request p).2) (fun q hq => h q (List.mem_cons_of_mem p hq))
      (fun c hc => hacc c (List.mem_cons_of_mem _ hc))
    rw [Balanced] at hrest ⊢
    rw [requests, List.countP_cons]
    rw [Accounted] at hfirst
    revert hcount hfirst hrest
    rcases l.request p with ⟨e | resp, l'⟩ <;> intro hcount hfirst hrest
    · have herrors : l'.metrics.linkErrors = l.metrics.linkErrors + 1 := hfirst.1
      simp only [Except.toBool, Bool.false_eq_true, if_false] at hrest hcount ⊢
      omega
    · have herrors : l'.metrics.linkErrors = l.metrics.linkErrors := hfirst.1
      simp only [Except.toBool, if_true] at hrest hcount ⊢
      omega

theorem payload_mem {ps : List (List UInt8)} {c : List UInt8 × DapLink ν}
    (hc : c ∈ calls ps l) : c.1 ∈ ps := by
  induction ps generalizing l with
  | nil => exact absurd hc List.not_mem_nil
  | cons p ps ih =>
    rcases List.mem_cons.mp hc with rfl | hc
    · exact List.mem_cons_self
    · exact List.mem_cons_of_mem p (ih hc)

theorem errors_accounted_iff (ps : List (List UInt8)) (l : DapLink ν)
    (h : ∀ p ∈ ps, p.length ≤ maxFrame) :
    ((∀ c ∈ calls ps l, Accounted c.1 c.2) ∧ Balanced l (l.requests ps).1 (l.requests ps).2) ↔
      ∀ c ∈ calls ps l, lost c.1 c.2 = false := by
  have heach (c) (hc : c ∈ calls ps l) : Accounted c.1 c.2 ↔ lost c.1 c.2 = false :=
    accounted_iff (h c.1 (payload_mem hc))
  constructor
  · exact fun hacc c hc => (heach c hc).mp (hacc.1 c hc)
  · intro hkept
    have hacc (c) (hc : c ∈ calls ps l) : Accounted c.1 c.2 := (heach c hc).mpr (hkept c hc)
    exact ⟨hacc, balanced_of_accounted h hacc⟩

def peerOf (fate : ℕ → Fate) : DapLink Peer :=
  .new (.new (fun _ _ => ⟨[], Nat.zero_le _⟩) fate fun _ => 0)

def brokenWrites (tick : ℕ) : Fate :=
  if tick % 2 = 0 then .succeed else .fail ⟨false, "broken pipe"⟩ 0

theorem errors_accounted_two_failures :
    let l := peerOf brokenWrites
    let r := l.requests [[0x00], [0x01]]
    r.1 = [.error (.io ⟨false, "broken pipe"⟩), .error (.io ⟨false, "broken pipe"⟩)] ∧
      (∀ c ∈ calls [[0x00], [0x01]] l, Accounted c.1 c.2) ∧ Balanced l r.1 r.2 ∧
      r.2.metrics.linkErrors = 2 := by
  intro l r
  obtain ⟨haccounted, hbalanced⟩ :=
    (errors_accounted_iff [[0x00], [0x01]] l (by decide)).mpr (by decide)
  exact ⟨by decide +kernel, haccounted, hbalanced, by decide +kernel⟩

theorem failed_reconnect_uncounted :
    let l := peerOf fun _ => .elapse 0
    let after := (l.request [0x00]).2.metrics
    (l.request [0x00]).1 = .error .timeout ∧ after.linkRequests = 1 ∧ after.linkErrors = 0 ∧
      after.lastLinkError = none ∧ ¬Accounted [0x00] l ∧
      ¬Balanced l (l.requests [[0x00]]).1 (l.requests [[0x00]]).2 := by
  intro l after
  refine ⟨rfl, rfl, rfl, rfl, fun h => ?_, fun h => ?_⟩
  · have hone : (0 : ℕ) = 0 + 1 := h.1
    omega
  · have hone : (1 : ℕ) + 0 = 0 + 0 + 0 := h
    omega

end DapProxy.Host.DapLink
