import DapProxy.Framing.Parse
import DapProxy.Target.Segmentation
import DapProxy.Target.Serve

namespace DapProxy.Target
open Framing Framing.Format

structure Fed where
  bytes : List UInt8
  serving : Bool

namespace Fed

def read (s : Fed) (sent : Bool) : Read → Fed
  | .eof => { s with serving := false }
  | .failed => { s with serving := false }
  | .chunk c =>
      match dapFormat.throughFrame s.bytes c.bytes with
      | some xs => ⟨s.bytes ++ xs, sent⟩
      | none =>
          ⟨s.bytes ++ c.bytes, !decide (dapFormat.Flooded maxRejects (s.bytes ++ c.bytes))⟩

def event (s : Fed) : Event → Fed
  | .accepted => { s with serving := true }
  | .acceptFailed => s
  | .read r sent => if s.serving then s.read sent r else s

end Fed

def fed (history : List Event) : List UInt8 := (history.foldl Fed.event ⟨[], false⟩).bytes

def oneByte (x : UInt8) : Read := .chunk (.single x)

def isOk : Received → Bool
  | .ok _ => true
  | .error _ => false

theorem specAll_oneByte (s : Decoder UInt8) (x : UInt8) (rs : List Read) :
    specAll s (oneByte x :: rs) =
      match dapFormat.step s x with
      | (t, some raw) => .ok (slice 1024 raw) :: specAll t rs
      | (t, none) => if maxRejects < t.noise then [.error .garbage] else specAll t rs := by
  simp only [specAll, specRead, oneByte, Chunk.single, Transducer.scan, decoder]
  rcases dapFormat.step s x with ⟨t, _ | raw⟩
  · by_cases hg : maxRejects < t.noise <;> simp [hg]
  · rfl

theorem specAll_quiet {xs : List UInt8} (h : frameMagic ∉ xs) (k : ℕ) :
    ∀ e ∈ specAll ⟨[], k⟩ (xs.map oneByte), isOk e = false := by
  induction xs generalizing k with
  | nil => simp [specAll]
  | cons x xs ih =>
    have hx : dapFormat.isMagic x = false :=
      (isMagic_false_iff x).mpr fun hm => h (hm ▸ List.mem_cons_self)
    have hs : dapFormat.step ⟨[], k⟩ x = (⟨[], k + 1⟩, none) := by simp [step, hx]
    rw [List.map_cons, specAll_oneByte, hs]
    dsimp only
    split
    · simp [isOk]
    · exact ih (fun hm => h (List.mem_cons_of_mem _ hm)) (k + 1)

theorem specAll_completes (f : dapFormat.Frame) (hp : f.payload ≠ []) {k : ℕ}
    (hk : k ≤ maxRejects) {t u : List UInt8} (h : f.wire = t ++ u) (hu : u ≠ []) :
    specAll ⟨t, k⟩ (u.map oneByte) = [.ok (slice 1024 f.wire)] := by
  induction u generalizing t with
  | nil => exact absurd rfl hu
  | cons x u ih =>
    rw [List.map_cons, specAll_oneByte]
    cases u with
    | nil =>
      rw [Frame.step_last k h, if_neg hp]
      rfl
    | cons y u =>
      rw [Frame.step_within k h (by simp)]
      dsimp only
      rw [if_neg (by omega)]
      exact ih (by simpa using h) (by simp)

theorem quiet_completion {raw : List UInt8} (ho : dapFormat.Open raw) (hne : raw ≠ []) :
    ∃ f : dapFormat.Frame, ∃ u, f.payload ≠ [] ∧ f.wire = raw ++ u ∧ u ≠ [] ∧
      frameMagic ∉ u := by
  have hzero (n : ℕ) : frameMagic ∉ List.replicate n (0 : UInt8) := by
    intro h
    exact absurd (List.eq_of_mem_replicate h) (by decide)
  match raw, ho, hne with
  | [m], ho, _ =>
    exact ⟨⟨m, 1, 0, [0], ho.1, rfl⟩, [1, 0, 0], by simp, rfl, by simp, by decide⟩
  | [m, lo], ho, _ =>
    have hpos : dapFormat.size lo 1 ≠ 0 := by
      rw [size_eq]
      have : (1 : UInt8).toNat = 1 := rfl
      omega
    refine ⟨⟨m, lo, 1, List.replicate (dapFormat.size lo 1) 0, ho.1, by simp⟩,
      1 :: List.replicate (dapFormat.size lo 1) 0, by simpa using hpos, rfl, by simp, ?_⟩
    rw [List.mem_cons, not_or]
    exact ⟨by decide, hzero _⟩
  | m :: lo :: hi :: p, ho, _ =>
    have hlt : p.length < dapFormat.size lo hi := ho.2
    refine ⟨⟨m, lo, hi, p ++ List.replicate (dapFormat.size lo hi - p.length) 0, ho.1, ?_⟩,
      List.replicate (dapFormat.size lo hi - p.length) 0, ?_, rfl, ?_, hzero _⟩
    · simp only [List.length_append, List.length_replicate]
      omega
    · intro h
      have := congrArg List.length h
      simp only [List.length_append, List.length_replicate, List.length_nil] at this
      omega
    · intro h
      have := congrArg List.length h
      simp only [List.length_replicate, List.length_nil] at this
      omega

theorem specAll_noise (k n : ℕ) (hk : k ≤ maxRejects) :
    specAll ⟨[], k⟩ ((List.replicate n 0).map oneByte) =
      if maxRejects < k + n then [.error .garbage] else [] := by
  induction n generalizing k with
  | zero => simp [specAll, Nat.not_lt.mpr hk]
  | succ n ih =>
    have hs : dapFormat.step ⟨[], k⟩ 0 = (⟨[], k + 1⟩, none) := rfl
    rw [List.replicate_succ, List.map_cons, specAll_oneByte, hs]
    dsimp only
    split
    · rw [if_pos (by omega)]
    · rw [ih (k + 1) (by omega), Nat.add_assoc, Nat.add_comm 1]

theorem eq_fresh_of_specAll {s : Decoder UInt8} (ho : dapFormat.Open s.raw)
    (h : ∀ reads, specAll s reads = specAll ⟨[], 0⟩ reads) : s = ⟨[], 0⟩ := by
  rcases s with ⟨raw, k⟩
  have hk : k ≤ maxRejects := by
    by_contra hg
    have h0 := h [oneByte 0]
    have hfresh : specAll ⟨[], 0⟩ [oneByte 0] = [] := rfl
    rw [hfresh, specAll_oneByte] at h0
    rcases hx : dapFormat.step ⟨raw, k⟩ 0 with ⟨t, _ | r⟩
    · have hn : k ≤ t.noise := step_silent_noise hx
      simp only [hx] at h0
      rw [if_pos (by omega)] at h0
      cases h0
    · simp [hx] at h0
  have hraw : raw = [] := by
    by_contra hne
    obtain ⟨f, u, hp, hw, hu, hq⟩ := quiet_completion ho hne
    have hok := specAll_quiet hq 0
    rw [← h, specAll_completes f hp hk hw hu] at hok
    simp [isOk] at hok
  subst hraw
  by_contra hne
  have hpos : k ≠ 0 := fun h0 => hne (by rw [h0])
  have hz := h ((List.replicate 128 0).map oneByte)
  have hover : maxRejects < k + 128 := by
    simp only [maxRejects]
    omega
  rw [specAll_noise k 128 hk, specAll_noise 0 128 (by decide), if_pos hover,
    if_neg (by decide)] at hz
  cases hz

def continues (sent : Bool) : Option Received → Bool
  | none => true
  | some (.error _) => false
  | some (.ok _) => sent

theorem Fed.specRead_read (f : Fed) (sent : Bool) (r : Read) :
    ∃ o, specRead (dapFormat.decoder.run ⟨[], 0⟩ f.bytes) r =
        (dapFormat.decoder.run ⟨[], 0⟩ (f.read sent r).bytes, o) ∧
      (f.read sent r).serving = continues sent o := by
  cases r with
  | eof => exact ⟨_, rfl, rfl⟩
  | failed => exact ⟨_, rfl, rfl⟩
  | chunk c =>
    simp only [specRead, Fed.read]
    cases ht : dapFormat.throughFrame f.bytes c.bytes with
    | none =>
      refine ⟨_, by rw [scan_throughFrame_none ht], ?_⟩
      simp only [flooded_iff]
      split <;> simp_all [continues]
    | some xs =>
      obtain ⟨raw, rest, hs⟩ := scan_throughFrame_some ht
      exact ⟨_, by rw [hs], rfl⟩

namespace Firmware
variable {T : Type} [Transport T]

structure Tracks (fw : Firmware T) (s : Fed) : Prop where
  refines : fw.channel.deframer.Refines (dapFormat.decoder.run ⟨[], 0⟩ s.bytes)
  serving : s.serving = true ↔ ∃ session, fw = .serving session

theorem tracks_read {s : Session T} {f : Fed} (h : Tracks (.serving s) f) (r : Read)
    (sent : Bool) : Tracks (serveRead s r sent).1 (f.read sent r) := by
  obtain ⟨ch, d', href, hcases⟩ := serveRead_cases h.refines r sent
  obtain ⟨o, hread, hserving⟩ := f.specRead_read sent r
  rw [hread] at hcases
  obtain ⟨hs, hr⟩ | ⟨e, hs, hr⟩ | ⟨frame, resp, hs, hr⟩ := hcases <;>
    obtain ⟨rfl, rfl⟩ := Prod.mk.inj hs <;> rw [hr]
  · exact ⟨href, by simp [hserving, continues]⟩
  · exact ⟨href, by simp [hserving, continues, leave]⟩
  · cases sent
    · exact ⟨href, by simp [hserving, continues, leave]⟩
    · exact ⟨href, by simp [hserving, continues]⟩

theorem tracks_step {fw : Firmware T} {f : Fed} (h : Tracks fw f) (e : Event) :
    Tracks (step fw e).1 (f.event e) := by
  cases fw with
  | accepting ch t =>
    have hidle : f.serving = false := by simpa using h.serving
    cases e with
    | accepted => exact ⟨h.refines, by simp [Fed.event, step, serve]⟩
    | acceptFailed => exact ⟨h.refines, by simp [Fed.event, step, leave, hidle]⟩
    | read r sent => simpa [Fed.event, step, hidle] using h
  | serving s =>
    have hserving : f.serving = true := h.serving.mpr ⟨s, rfl⟩
    cases e with
    | accepted => exact ⟨h.refines, by simp [Fed.event, step]⟩
    | acceptFailed => exact h
    | read r sent => simpa [Fed.event, step, hserving] using tracks_read h r sent

theorem tracks_run {fw : Firmware T} {f : Fed} (h : Tracks fw f) (history : List Event) :
    Tracks ((runner T).run fw history) (history.foldl Fed.event f) := by
  induction history generalizing fw f with
  | nil => exact h
  | cons e es ih => exact ih (tracks_step h e)

theorem refines_fed (t : T) (history : List Event) :
    ((runner T).run (new t) (history ++ [.accepted])).channel.deframer.Refines
      (dapFormat.decoder.run ⟨[], 0⟩ (fed history)) := by
  have h : Tracks (new t) ⟨[], false⟩ := ⟨TcpChannel.refines_new, by simp [new]⟩
  have hrun := (tracks_run h (history ++ [.accepted])).refines
  rwa [List.foldl_append] at hrun

theorem session_isolated_iff (t : T) (history : List Event) :
    (∀ reads, TcpChannel.recvAll 1024
        ((runner T).run (new t) (history ++ [.accepted])).channel reads =
          TcpChannel.recvAll 1024 .new reads) ↔
      dapFormat.Settled (fed history) := by
  have hs := refines_fed t history
  rw [settled_iff]
  constructor
  · intro h
    refine eq_fresh_of_specAll hs.isOpen fun reads => ?_
    rw [← TcpChannel.recvAll_spec hs, h, TcpChannel.recvAll_spec TcpChannel.refines_new]
  · intro h reads
    rw [TcpChannel.recvAll_spec hs, h, TcpChannel.recvAll_spec TcpChannel.refines_new]

example : fed [.accepted, .read (.chunk ⟨[0xDA, 1, 0, 3, 0xDA, 1, 0], by decide, by decide⟩) true,
    .read .eof true] = [0xDA, 1, 0, 3] := by decide

theorem session_inherits_partial_frame :
    let history : List Event :=
      [.accepted, .read (.chunk ⟨[0xDA, 1, 0], by decide, by decide⟩) true, .read .eof true]
    let reads : List Read := [.chunk ⟨[0xDA, 1, 0, 0], by decide, by decide⟩]
    TcpChannel.recvAll 1024
        ((runner Unplugged).run (new ⟨0x80⟩) (history ++ [.accepted])).channel reads =
          [.ok [0xDA]] ∧
      TcpChannel.recvAll 1024 .new reads = [.ok [0]] := by
  have hs := (Deframer.feed_simulates (N := 1024)).run Deframer.refines_new [0xDA, 1, 0]
  refine ⟨?_, ?_⟩
  · exact (@TcpChannel.recvAll_spec ⟨_⟩ _ hs _).trans rfl
  · exact (TcpChannel.recvAll_spec TcpChannel.refines_new _).trans rfl

end Firmware

end DapProxy.Target
