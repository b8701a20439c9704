import DapProxy.Host.Reader
import DapProxy.System.Trace
import DapProxy.Target.PostedRead

namespace DapProxy.System
open Framing Target Host DapLink
variable {T : Type} [Transport T]

def SameCopy (a b : Octet) : Prop := a.copy = b.copy → a.conn = b.conn

namespace World

omit [Transport T] in
theorem fed_copies {w : World T} (h : Ordered w) :
    w.fed.Pairwise (fun a b => a.le b ∧ SameCopy a b) := by
  refine (fed_sorted h).imp_of_mem fun ha hb hle => ⟨hle, fun hcopy => ?_⟩
  obtain ⟨data, hd⟩ := h.written _ (Or.inl ha)
  obtain ⟨data', hd'⟩ := h.written _ (Or.inl hb)
  rw [hcopy, hd'] at hd
  exact (congrArg Copy.conn (Option.some.inj hd)).symm

theorem copy_convex (t : ℕ) (x y z : Octet) (hxy : x.le y ∧ SameCopy x y)
    (hxz : x.le z ∧ SameCopy x z) (hyz : y.le z ∧ SameCopy y z) (hx : (x.copy == t) = true)
    (hz : (z.copy == t) = true) : (y.copy == t) = true := by
  rw [beq_iff_eq] at hx hz ⊢
  have hconn := hxz.2 (hx.trans hz.symm)
  rcases hxy.1 with h₁ | ⟨h₁, h₂⟩ <;> rcases hyz.1 with h₃ | ⟨h₃, h₄⟩ <;> omega

theorem length_of_slice {raw fed : List Octet} {p : List UInt8}
    (hraw : raw ∈ octets.decoder.outs ⟨[], 0⟩ fed) (h : slice 1024 (raw.map (·.byte)) = p) :
    p.length + 3 ≤ raw.length := by
  obtain ⟨f, rfl, -⟩ := Format.outs_frame (s := ⟨[], 0⟩) trivial _ raw hraw
  rw [← h, slice, List.length_take, List.length_drop, List.length_map, Format.Frame.length_wire]
  omega

def executed (w : World T) (p : List UInt8) (copy : ℕ) : ℕ :=
  w.log.countP (fun e => e.exchange.req == p && e.cause.copy == copy)

omit [Transport T] in
theorem executed_le_one {w : World T} (hd : Decoded w) (ho : Ordered w) {p : List UInt8} {t : ℕ}
    (ht : (w.copies.map (·.data))[t]? = some (wire p)) : w.executed p t ≤ 1 := by
  rw [List.getElem?_map, Option.map_eq_some_iff] at ht
  obtain ⟨cp, hcp, hdata⟩ := ht
  have hfed : w.fed.countP (·.copy == t) ≤ p.length + 3 := by
    have hb := ho.bounded t cp hcp
    rw [List.countP_append, hdata, length_wire] at hb
    omega
  have hcount : w.executed p t = (octets.decoder.outs ⟨[], 0⟩ w.fed).countP
      (fun raw => (slice 1024 (raw.map (·.byte)) == p) && endsIn (·.copy == t) raw) := by
    have hlog := congrArg (List.countP fun r => r.1 == p && r.2.any (·.copy == t)) hd.logged
    rw [List.countP_map, List.countP_map] at hlog
    exact hlog
  rw [hcount]
  refine Format.countP_burst_le (copy_convex t) (fed_copies ho) fun raw hraw hp => ?_
  exact Nat.le_trans hfed (length_of_slice hraw (by simpa using hp))

theorem copies_move (w : World T) (m : Move) : (w.move m).copies = w.copies := by
  obtain ⟨s, c, k, cut, -, -, hm⟩ | ⟨fw, conn, -, -, hm⟩ := move_cases w m
  · rw [hm]
    rw [World.take]
    dsimp only
    split <;> rfl
  · rw [hm]

theorem copies_settle (w : World T) (ms : List Move) : (w.settle ms).copies = w.copies := by
  induction ms generalizing w with
  | nil => rfl
  | cons m ms ih => exact (ih (w.move m)).trans (copies_move w m)

theorem copies_stir (w : World T) : w.stir.copies = w.copies := copies_settle w _

def sent (w : World T) : List (List UInt8) := w.copies.map (·.data)

theorem records_sent : Records (sent (T := T)) where
  listens xs := {
    connect := by
      intro w h
      have hs : w.stir.sent = xs := (congrArg _ (copies_stir w)).trans h
      rcases hf : w.fate with _ | _ | _ <;> simp only [Network.connect, hf] <;> exact hs
    readExact := by
      intro w c k h
      have hs : w.stir.sent = xs := (congrArg _ (copies_stir w)).trans h
      rcases hf : w.fate with _ | _ | _ <;> simp only [Network.readExact, hf]
      · split <;> exact hs
      · exact hs
      · exact hs
    close := fun _ h => h }
  writeAll := by
    intro w c data
    have hs (moved : ℕ) : (w.stir.push c data moved).sent = w.sent ++ [data] := by
      simp only [sent, push, copies_stir, List.map_append, List.map_cons, List.map_nil]
    rcases hf : w.fate with _ | _ | _ <;> simp only [Network.writeAll, hf, hs]

def executedIn (w : World T) (p : List UInt8) (copy n : ℕ) : ℕ :=
  w.log.countP (fun e => e.exchange.req == p && (copy ≤ e.cause.copy && e.cause.copy < copy + n))

omit [Transport T] in
theorem executedIn_succ (w : World T) (p : List UInt8) (copy n : ℕ) :
    w.executedIn p copy (n + 1) = w.executedIn p copy n + w.executed p (copy + n) := by
  unfold executedIn executed
  induction w.log with
  | nil => rfl
  | cons e es ih =>
    rw [List.countP_cons, List.countP_cons, List.countP_cons, ih]
    have hsplit : (copy ≤ e.cause.copy && e.cause.copy < copy + (n + 1)) =
        ((copy ≤ e.cause.copy && e.cause.copy < copy + n) || e.cause.copy == copy + n) := by
      rw [Bool.eq_iff_iff]
      simp only [Bool.and_eq_true, Bool.or_eq_true, decide_eq_true_eq, beq_iff_eq]
      omega
    rw [hsplit]
    cases e.exchange.req == p with
    | false => simp
    | true =>
      simp only [Bool.true_and, Bool.and_eq_true, Bool.or_eq_true, decide_eq_true_eq, beq_iff_eq]
      split <;> split <;> split <;> omega

omit [Transport T] in
theorem executedIn_le {w : World T} {p : List UInt8} {copy n : ℕ}
    (h : ∀ t, copy ≤ t → t < copy + n → w.executed p t ≤ 1) : w.executedIn p copy n ≤ n := by
  induction n with
  | zero =>
    have hzero : w.executedIn p copy 0 = 0 := by
      rw [executedIn, List.countP_eq_zero]
      intro e _
      simp only [Bool.and_eq_true, decide_eq_true_eq]
      omega
    exact Nat.le_of_eq hzero
  | succ n ih =>
    rw [executedIn_succ]
    have hn := h (copy + n) (by omega) (by omega)
    have hle := ih fun t h₁ h₂ => h t h₁ (by omega)
    omega

end World

theorem request_executed_per_copy (schedule : ℕ → List Move × Fate) (clock : ℕ → ℕ) (t : T)
    (before : List (List UInt8)) (p : List UInt8) (after : List (List UInt8)) (moves : List Move) :
    let l := ((DapLink.new (World.new schedule clock t)).requests before).2
    let l' := (l.request p).2
    let w := (l'.requests after).2.net.settle moves
    ∃ copies retries, retries ≤ 1 ∧ copies ≤ 1 + retries ∧
      (retries = 0 ↔ maxFrame < p.length ∨ (l.counted.tryRequest p).1.toBool = true) ∧
      l'.metrics.linkRetries = l.metrics.linkRetries + retries ∧
      l'.net.copies.length = l.net.copies.length + copies ∧
      (∀ i < copies, w.executed p (l.net.copies.length + i) ≤ 1) ∧
      w.executedIn p l.net.copies.length copies ≤ copies := by
  intro l l' w
  have hd : World.Decoded w := World.decoded_settle
    (World.upholds_decoded.requests after (World.upholds_decoded.request p
      (World.upholds_decoded.requests before (World.decoded_new schedule clock t)))) moves
  have ho : World.Ordered w := World.ordered_settle
    (World.upholds_ordered.requests after (World.upholds_ordered.request p
      (World.upholds_ordered.requests before (World.ordered_new schedule clock t)))) moves
  obtain ⟨retries, hr, hfirst, hm, copies, hc, hs⟩ := World.records_sent.request p l
  have hlen : l'.net.copies.length = l.net.copies.length + copies := by
    simpa [World.sent] using congrArg List.length hs
  have hsent : l'.net.sent <+: w.sent := by
    rw [show w.sent = (l'.requests after).2.net.sent from
      congrArg (List.map _) (World.copies_settle _ moves)]
    exact World.records_sent.requests after l'
  have honce : ∀ i < copies, w.executed p (l.net.copies.length + i) ≤ 1 := by
    intro i hi
    apply World.executed_le_one hd ho
    obtain ⟨more, hmore⟩ := hsent
    change w.sent[_]? = _
    have hl : l.net.sent.length = l.net.copies.length := List.length_map _
    rw [← hmore, show l'.net.sent = _ from hs, List.append_assoc, ← hl,
      List.getElem?_append_right (by omega), Nat.add_sub_cancel_left,
      List.getElem?_append_left (by simpa using hi), List.getElem?_replicate, if_pos hi]
  refine ⟨copies, retries, hr, hc, hfirst, hm, hlen, honce, World.executedIn_le fun t h₁ h₂ => ?_⟩
  have hi := honce (t - l.net.copies.length) (by omega)
  rwa [Nat.add_sub_cancel' h₁] at hi

def slowAnswer : ℕ → List Move × Fate
  | 1 => ([.accept 0], .succeed)
  | 2 => ([.read 128 none], .elapse 0)
  | 3 => ([.hangUp true], .succeed)
  | 4 => ([.accept 1], .succeed)
  | 5 => ([.read 128 none], .succeed)
  | _ => ([], .succeed)

theorem retried_read_skips_word :
    let read := Pattern.transferReads 0x00 1 0x0F
    let port := Port.idle (Pattern.patient fun _ => false)
    let l : DapLink (World Port) := .new (.new slowAnswer id port)
    let r := l.request read
    r.1 = .ok ([0x05, 1, stOk] ++ leBytes (port.pattern.words 1)) ∧
      r.2.metrics.linkRetries = 1 ∧ r.2.net.log.map (·.exchange.req) = [read, read] ∧
      r.2.net.executedIn read l.net.copies.length r.2.net.copies.length = 2 := by
  decide +kernel

end DapProxy.System
