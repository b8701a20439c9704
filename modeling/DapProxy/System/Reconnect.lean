import DapProxy.System.Lockstep
import DapProxy.Target.Agreement

namespace DapProxy.System
open Framing Target Host DapLink
variable {T : Type} [Transport T]

abbrev Script := List (Option Loss × List UInt8)

def cut (loss : Option Loss) (l : DapLink (Line T)) : DapLink (Line T) :=
  match loss with
  | none => l
  | some loss => { l with net := l.net.lose loss }

def drive : Script → DapLink (Line T) → List (Except LinkError (List UInt8)) × DapLink (Line T)
  | [], l => ([], l)
  | (loss, p) :: rest, l =>
      let r := (cut loss l).request p
      let rs := drive rest r.2
      (r.1 :: rs.1, rs.2)

def retry64 : List UInt8 := [0x04, 0x00, 64, 0x00, 0x00, 0x00]

def resets : Script → List (Bool × List UInt8)
  | [] => []
  | (none, p) :: rest => (true, p) :: resets rest
  | (some _, p) :: rest => (false, retry64) :: (true, p) :: resets rest

def kept {A : Type} (cmds : List (Bool × List UInt8)) (results : List A) : List A :=
  ((cmds.zip results).filter (·.1.1)).map (·.2)

structure Severed (loss : Loss) (t : T) (c : ℕ) (l : DapLink (Line T)) : Prop where
  stream : l.stream = some c
  lost : l.net.lost = some loss
  accepting : ∃ ch, l.net.fw = .accepting ch t ∧ ch.deframer.Refines ⟨[], 0⟩

section
variable {l : DapLink (Line T)} {t : T} {c : ℕ} {loss : Loss} {p : List UInt8}

theorem severed_of_ready {d : Dap T} (h : Ready d c l) (loss : Loss) :
    Severed loss d.transport c (cut (some loss) l) := by
  obtain ⟨s, hfw, rfl, hs⟩ := h.session
  refine ⟨h.stream, ?_, s.ch, ?_, hs⟩
  · simp only [cut, Line.lose, hfw]
  · rcases hl : loss.eof <;>
      simp [cut, Line.lose, Line.hangUp, hfw, hl, Firmware.step, Firmware.serveRead,
        TcpChannel.recvRead, Firmware.leave, TcpChannel.finish]

theorem tryRequest_severed (h : Severed loss t c l) (p : List UInt8) :
    ∃ e l', l.tryRequest p = (.error e, l') ∧ Down t l' ∧
      l'.metrics.linkRetries = l.metrics.linkRetries ∧ l'.net.log = l.net.log := by
  have hclose : l.disconnect = { l with stream := none } := by
    rw [disconnect_some h.stream]
    simp only [Network.close, h.lost]
  have hdown : Down t l.disconnect := by
    rw [hclose]
    exact ⟨rfl, h.accepting⟩
  have hmetrics : l.disconnect.metrics.linkRetries = l.metrics.linkRetries ∧
      l.disconnect.net.log = l.net.log := by
    rw [hclose]
    exact ⟨rfl, rfl⟩
  rcases hw : loss.onWrite with _ | ⟨e⟩ | _
  · have hwrite : l.writeAll (wire p) = (.ok (), l) := by
      apply writeAll_done l.net h.stream
      simp only [Network.writeAll, h.lost, hw]
    have hread : ∃ e, l.readExact 1 = (.error e, l) := by
      cases hr : loss.onRead with
      | failed e =>
        refine ⟨_, readExact_failed l.net (e := e) h.stream ?_⟩
        simp only [Network.readExact, h.lost, hr, Fault.outcome]
      | elapsed =>
        refine ⟨_, readExact_elapsed l.net h.stream ?_⟩
        simp only [Network.readExact, h.lost, hr, Fault.outcome]
    obtain ⟨e, he⟩ := hread
    refine ⟨e, l.disconnect, ?_, hdown, hmetrics⟩
    rw [tryRequest_written (ensure_connected h.stream) hwrite, readFrame_failed he]
  · have hwrite : l.writeAll (wire p) = (.error (.io e), l) := by
      apply writeAll_failed l.net h.stream
      simp only [Network.writeAll, h.lost, hw, Fault.outcome]
    exact ⟨_, _, tryRequest_unwritten (ensure_connected h.stream) hwrite, hdown, hmetrics⟩
  · have hwrite : l.writeAll (wire p) = (.error .timeout, l) := by
      apply writeAll_elapsed l.net h.stream
      simp only [Network.writeAll, h.lost, hw, Fault.outcome]
    exact ⟨_, _, tryRequest_unwritten (ensure_connected h.stream) hwrite, hdown, hmetrics⟩

theorem request_severed (h : Severed loss t c l) (hne : p ≠ []) (hp : p.length ≤ 1024) :
    ∃ c' l', l.request p = (.ok ((Dap.new t).answer p).1, l') ∧
      Ready ((Dap.new t).answer p).2 c' l' ∧
      l'.metrics.linkRetries = l.metrics.linkRetries + 1 ∧
      l'.net.log = l.net.log ++ [⟨p, ((Dap.new t).answer p).1⟩] := by
  obtain ⟨e, l₁, htry, h₁, hm₁, hlog₁⟩ :=
    tryRequest_severed (l := l.counted) ⟨h.stream, h.lost, h.accepting⟩ p
  obtain ⟨l₂, hconnect, h₂, hlog₂, -, hm₂⟩ :=
    connect_down (l := l₁.retried) ⟨h₁.stream, h₁.accepting⟩
  obtain ⟨l', htry', h', hc', hm'⟩ := tryRequest_ready h₂ hne hp
  refine ⟨_, l', ?_, h', ?_, ?_⟩
  · rw [request_again (Nat.le_trans hp (by decide)) htry, again,
      disconnect_none (l := l₁.retried) h₁.stream, hconnect]
    simp only [htry']
  · rw [hm', hm₂]
    exact congrArg (· + 1) hm₁
  · rw [hc'.log, hlog₂]
    exact congrArg (· ++ _) hlog₁

end

def renewed (d : Dap T) : Option Loss → Dap T
  | none => d
  | some _ => Dap.new d.transport

def replies : Dap T → Script → List (List UInt8)
  | _, [] => []
  | d, (loss, p) :: rest =>
      ((renewed d loss).answer p).1 :: replies ((renewed d loss).answer p).2 rest

def Sized (script : Script) : Prop := ∀ x ∈ script, 1 ≤ x.2.length ∧ x.2.length ≤ 1024

theorem drive_ready {l : DapLink (Line T)} {d : Dap T} {c : ℕ} {script : Script}
    (h : Ready d c l) (hs : Sized script) :
    (drive script l).1 = (replies d script).map .ok := by
  induction script generalizing l d c with
  | nil => rfl
  | cons x rest ih =>
    obtain ⟨loss, p⟩ := x
    obtain ⟨hp1, hp2⟩ := hs (loss, p) (by simp)
    have hne : p ≠ [] := List.length_pos_iff.mp hp1
    have hrest : Sized rest := fun y hy => hs y (List.mem_cons_of_mem _ hy)
    cases loss with
    | none =>
      obtain ⟨l', hr, h', -⟩ := request_ready h hne hp2
      have htail := ih h' hrest
      simp only [drive, cut, hr, htail]
      rfl
    | some loss =>
      obtain ⟨c', l', hr, h', -⟩ := request_severed (severed_of_ready h loss) hne hp2
      have htail := ih h' hrest
      simp only [drive, hr, htail]
      rfl

theorem drive_new (tcp : Tcp) (t : T) {script : Script} (hs : Sized script) :
    (drive script (DapLink.new (Line.new tcp t))).1 = (replies (Dap.new t) script).map .ok := by
  cases script with
  | nil => rfl
  | cons x rest =>
    obtain ⟨loss, p⟩ := x
    obtain ⟨hp1, hp2⟩ := hs (loss, p) (by simp)
    have hcut : cut loss (DapLink.new (Line.new tcp t)) = DapLink.new (Line.new tcp t) := by
      cases loss <;> rfl
    have hrenewed : renewed (Dap.new t) loss = Dap.new t := by
      cases loss <;> rfl
    obtain ⟨l', hr, h', -⟩ := request_down (down_new tcp t) (List.length_pos_iff.mp hp1) hp2
    have htail := drive_ready h' (fun y hy => hs y (List.mem_cons_of_mem _ hy))
    simp only [drive, hcut, hr, htail, replies, hrenewed, List.map_cons]

theorem sized_resets {script : Script} (h : Sized script) :
    ∀ p ∈ (resets script).map (·.2), 1 ≤ p.length ∧ p.length ≤ 1024 := by
  induction script with
  | nil => simp [resets]
  | cons x rest ih =>
    obtain ⟨loss, p⟩ := x
    have hp := h (loss, p) (by simp)
    have hrest := ih fun y hy => h y (List.mem_cons_of_mem _ hy)
    have hretry : 1 ≤ retry64.length ∧ retry64.length ≤ 1024 := by decide
    cases loss with
    | none => simpa only [resets, List.map_cons, List.forall_mem_cons] using ⟨hp, hrest⟩
    | some loss =>
      simpa only [resets, List.map_cons, List.forall_mem_cons] using ⟨hretry, hp, hrest⟩

theorem replies_resets {d e : Dap T} (h : d.Agree e) (script : Script) :
    replies d script =
      kept (resets script) ((e.exchanges ((resets script).map (·.2))).map (·.out)) := by
  induction script generalizing d e with
  | nil => rfl
  | cons x rest ih =>
    obtain ⟨loss, p⟩ := x
    cases loss with
    | none =>
      obtain ⟨h1, h2⟩ := Dap.answer_agree h p
      have htail := ih h2
      simp only [replies, renewed, h1, htail]
      rfl
    | some loss =>
      have hnew : (Dap.new d.transport).Agree (e.answer retry64).2 := ⟨h.transport, rfl⟩
      obtain ⟨h1, h2⟩ := Dap.answer_agree hnew p
      have htail := ih h2
      simp only [replies, renewed, h1, htail]
      rfl

def RetryKept (d : Dap T) (script : Script) : Prop :=
  ∀ before loss p rest, script = before ++ (some loss, p) :: rest →
    (d.after (before.map (·.2))).waitRetry = 64

theorem replies_kept {d e : Dap T} (h : d.Agree e) {script : Script} (hk : RetryKept e script) :
    replies d script = (e.exchanges (script.map (·.2))).map (·.out) := by
  induction script generalizing d e with
  | nil => rfl
  | cons x rest ih =>
    obtain ⟨loss, p⟩ := x
    have hrenewed : (renewed d loss).Agree e := by
      cases loss with
      | none => exact h
      | some loss => exact ⟨h.transport, (hk [] loss p rest rfl).symm⟩
    obtain ⟨h1, h2⟩ := Dap.answer_agree hrenewed p
    have htail := ih h2 fun before loss' q rest' heq =>
      hk ((loss, p) :: before) loss' q rest' (by rw [heq]; rfl)
    simp only [replies, h1, htail]
    rfl

theorem reconnect_resets_retry (tcp tcp' : Tcp) (t : T) (script : Script)
    (h : ∀ x ∈ script, 1 ≤ x.2.length ∧ x.2.length ≤ 1024) :
    (drive script (DapLink.new (Line.new tcp t))).1 =
        kept (resets script)
          ((DapLink.new (Line.new tcp' t)).requests ((resets script).map (·.2))).1 ∧
      ((∀ before loss p rest, script = before ++ (some loss, p) :: rest →
          ((Dap.new t).after (before.map (·.2))).waitRetry = 64) →
        (drive script (DapLink.new (Line.new tcp t))).1 =
          ((DapLink.new (Line.new tcp' t)).requests (script.map (·.2))).1) := by
  have hresets := sized_resets h
  have hplain : ∀ p ∈ script.map (·.2), 1 ≤ p.length ∧ p.length ≤ 1024 := by
    intro p hp
    obtain ⟨x, hx, rfl⟩ := List.mem_map.mp hp
    exact h x hx
  obtain ⟨l₁, hr₁, -⟩ := requests_new tcp' t _ hresets
  obtain ⟨l₂, hr₂, -⟩ := requests_new tcp' t _ hplain
  rw [drive_new tcp t h, hr₁, hr₂]
  constructor
  · rw [replies_resets (Dap.agree_refl _)]
    simp [kept, List.zip_map_right, List.filter_map, Function.comp_def]
  · intro hk
    rw [replies_kept (Dap.agree_refl _) hk, List.map_map]
    rfl

structure Drowsy where
  waits : ℕ

instance : Transport Drowsy where
  init t := (.ok (), t)
  swjSequence _ _ t := (.ok (), t)
  swjPins _ _ _ t := (.ok 0x80, t)
  readDp _ t :=
    match t.waits with
    | 0 => (.ok 0x2BA01477, t)
    | n + 1 => (.error .wait, ⟨n⟩)
  writeDp _ _ t := (.ok (), t)
  readAp _ _ t := (.ok 0, t)
  writeAp _ _ _ t := (.ok (), t)

def readDpidr : List UInt8 := [0x05, 0x00, 1, 0x02]

theorem drowsy_retried :
    (Dap.new (⟨1⟩ : Drowsy)).execTransfer (apndp 0x02) (rnw 0x02) (regAddr 0x02) none =
      (.ok (some 0x2BA01477), Dap.new ⟨0⟩) := by
  rw [Dap.execTransfer, Dap.execLoop_again (e := .wait) (t := ⟨0⟩) rfl ⟨rfl, rfl⟩,
    Dap.execLoop_ok (v := some 0x2BA01477) (t := ⟨0⟩) rfl]
  rfl

theorem drowsy_given_up :
    (⟨⟨1⟩, 0, 0⟩ : Dap Drowsy).execTransfer (apndp 0x02) (rnw 0x02) (regAddr 0x02) none =
      (.error stWait, ⟨⟨0⟩, 0, 0⟩) := by
  rw [Dap.execTransfer, Dap.execLoop_stop (e := .wait) (t := ⟨0⟩) rfl (by decide)]
  rfl

theorem transferRun_readDpidr (d : Dap Drowsy) :
    transferRun 1 [0x02] ⟨d, 0, stOk, []⟩ =
      ((⟨d, 0, stOk, []⟩ : Progress Drowsy).perform 0x02 none).1 := by
  change (if _ then transferRun 0 [] _ else _) = _
  split <;> rfl

theorem answer_readDpidr (d : Dap Drowsy) : (d.answer readDpidr).1 =
    0x05 :: UInt8.ofNat (transferRun 1 [0x02] ⟨d, 0, stOk, []⟩).done ::
      (transferRun 1 [0x02] ⟨d, 0, stOk, []⟩).status ::
      (transferRun 1 [0x02] ⟨d, 0, stOk, []⟩).data := rfl

theorem drowsy_woken : ((Dap.new (⟨1⟩ : Drowsy)).answer readDpidr).1 =
    [0x05, 1, 0x01, 0x77, 0x14, 0xA0, 0x2B] := by
  rw [answer_readDpidr, transferRun_readDpidr, perform_read drowsy_retried]
  rfl

theorem drowsy_asleep : ((⟨⟨1⟩, 0, 0⟩ : Dap Drowsy).answer readDpidr).1 = [0x05, 0, 0x02] := by
  rw [answer_readDpidr, transferRun_readDpidr, perform_error drowsy_given_up]
  rfl

theorem reconnect_drops_retry_count :
    let noRetry : List UInt8 := [0x04, 0x00, 0, 0, 0, 0]
    let loss : Loss := ⟨true, none, .failed ⟨true, "early eof"⟩⟩
    (drive [(none, noRetry), (some loss, readDpidr)]
        (DapLink.new (Line.new byteAtATime (⟨1⟩ : Drowsy)))).1 =
        [.ok [0x04, 0x00], .ok [0x05, 1, 0x01, 0x77, 0x14, 0xA0, 0x2B]] ∧
      ((DapLink.new (Line.new byteAtATime (⟨1⟩ : Drowsy))).requests [noRetry, readDpidr]).1 =
        [.ok [0x04, 0x00], .ok [0x05, 0, 0x02]] := by
  intro noRetry loss
  have hsized : Sized [(none, noRetry), (some loss, readDpidr)] := by
    simp [Sized, noRetry, readDpidr]
  obtain ⟨l', hr, -⟩ := requests_new byteAtATime (⟨1⟩ : Drowsy) [noRetry, readDpidr]
    (by decide)
  rw [drive_new byteAtATime (⟨1⟩ : Drowsy) hsized, hr]
  constructor
  · change [Except.ok [0x04, 0x00], .ok ((Dap.new (⟨1⟩ : Drowsy)).answer readDpidr).1] = _
    rw [drowsy_woken]
  · change [Except.ok [0x04, 0x00], .ok ((⟨⟨1⟩, 0, 0⟩ : Dap Drowsy).answer readDpidr).1] = _
    rw [drowsy_asleep]

theorem reconnect_resets_retry_woken :
    let noRetry : List UInt8 := [0x04, 0x00, 0, 0, 0, 0]
    let loss : Loss := ⟨true, none, .failed ⟨true, "early eof"⟩⟩
    let script : Script := [(none, noRetry), (some loss, readDpidr)]
    let l := DapLink.new (Line.new byteAtATime (⟨1⟩ : Drowsy))
    (drive script l).1 = kept (resets script) (l.requests ((resets script).map (·.2))).1 ∧
      (drive script l).1 =
        [.ok [0x04, 0x00], .ok [0x05, 1, 0x01, 0x77, 0x14, 0xA0, 0x2B]] := by
  intro noRetry loss script l
  have hreset := (reconnect_resets_retry byteAtATime byteAtATime (⟨1⟩ : Drowsy) script
    (by simp [script, noRetry, readDpidr])).1
  refine ⟨hreset, ?_⟩
  obtain ⟨l', hr, -⟩ := requests_new byteAtATime (⟨1⟩ : Drowsy)
    [noRetry, retry64, readDpidr] (by decide)
  rw [hreset]
  change kept (resets script) (l.requests [noRetry, retry64, readDpidr]).1 = _
  rw [hr]
  change [Except.ok [0x04, 0x00], .ok ((Dap.new (⟨1⟩ : Drowsy)).answer readDpidr).1] = _
  rw [drowsy_woken]

end DapProxy.System
