import DapProxy.Target.Segmentation
import DapProxy.Target.Serve

namespace DapProxy.Target
open Framing Framing.Format

theorem chunkBytes_cons (c : Chunk) (cs : List Chunk) :
    chunkBytes (c :: cs) = c.bytes ++ chunkBytes cs := by
  simp [chunkBytes]

theorem chunkBytes_ne_nil {cs : List Chunk} (h : cs ≠ []) : chunkBytes cs ≠ [] := by
  cases cs with
  | nil => exact absurd rfl h
  | cons c cs =>
    rw [chunkBytes_cons]
    exact List.append_ne_nil_of_left_ne_nil (List.length_pos_iff.mp c.nonempty) _

section
variable {f : dapFormat.Frame} {t : List UInt8} {k : ℕ}

theorem run_between {u v : List UInt8} (h : f.wire = t ++ u ++ v) (hv : v ≠ []) :
    dapFormat.decoder.run ⟨t, k⟩ u = ⟨t ++ u, k⟩ ∧ dapFormat.decoder.outs ⟨t, k⟩ u = [] := by
  have hall := Frame.run_within k h hv
  rw [List.append_assoc] at h
  have ht := Frame.run_within k h (by simp [hv])
  rw [Transducer.run_append, Transducer.outs_append, ht.1, ht.2] at hall
  exact hall

theorem specRead_within {c : Chunk} {u : List UInt8} (hk : k ≤ maxRejects)
    (h : f.wire = t ++ c.bytes ++ u) (hu : u ≠ []) :
    specRead ⟨t, k⟩ (.chunk c) = (⟨t ++ c.bytes, k⟩, none) := by
  obtain ⟨hr, ho⟩ := run_between (k := k) h hu
  simp only [specRead, Transducer.scan_of_silent ho, hr]
  rw [if_neg (Nat.not_lt.mpr hk)]

theorem specRead_last {c : Chunk} (hk : k ≤ maxRejects) (h : f.wire = t ++ c.bytes) :
    specRead ⟨t, k⟩ (.chunk c) =
      if f.payload = [] then (⟨[], k⟩, none)
      else (⟨[], 0⟩, some (.ok (f.payload.take 1024))) := by
  obtain ⟨b, x, hc⟩ : ∃ b x, c.bytes = b ++ [x] :=
    ⟨_, _, (List.dropLast_append_getLast (List.length_pos_iff.mp c.nonempty)).symm⟩
  rw [hc, ← List.append_assoc] at h
  obtain ⟨hr, ho⟩ := run_between (k := k) h (by simp)
  have hlast := Frame.step_last k h
  by_cases hp : f.payload = []
  · rw [if_pos hp] at hlast ⊢
    have hsilent : dapFormat.decoder.outs ⟨t, k⟩ c.bytes = [] := by
      rw [hc, Transducer.outs_append, ho, hr]
      simp [Transducer.outs, decoder, hlast]
    have hrun : dapFormat.decoder.run ⟨t, k⟩ c.bytes = ⟨[], k⟩ := by
      rw [hc, Transducer.run_append, hr]
      simp [Transducer.run, decoder, hlast]
    simp only [specRead, Transducer.scan_of_silent hsilent, hrun]
    rw [if_neg (Nat.not_lt.mpr hk)]
  · rw [if_neg hp] at hlast ⊢
    have hscan : dapFormat.decoder.scan ⟨t, k⟩ c.bytes = (⟨[], 0⟩, some (f.wire, [])) := by
      rw [hc]
      apply Transducer.scan_of_last ho
      rw [hr]
      exact hlast
    simp only [specRead, hscan, slice_wire]

theorem specReceiver_wire {cs : List Chunk} (hk : k ≤ maxRejects) (hcs : cs ≠ [])
    (h : f.wire = t ++ chunkBytes cs) :
    specReceiver.scan ⟨t, k⟩ (cs.map .chunk) =
      if f.payload = [] then (⟨[], k⟩, none)
      else (⟨[], 0⟩, some (.ok (f.payload.take 1024), [])) := by
  induction cs generalizing t with
  | nil => exact absurd rfl hcs
  | cons c cs ih =>
    rw [chunkBytes_cons, ← List.append_assoc] at h
    simp only [List.map_cons, Transducer.scan, specReceiver]
    by_cases hn : cs = []
    · subst hn
      rw [specRead_last hk (by simpa [chunkBytes] using h)]
      by_cases hp : f.payload = []
      · simp [hp, Transducer.scan]
      · simp [hp]
    · rw [specRead_within hk h (chunkBytes_ne_nil hn)]
      exact ih hn h

end

theorem specRead_nonempty {d d' : Decoder UInt8} {r : Read} {frame : List UInt8}
    (ho : dapFormat.Open d.raw) (h : specRead d r = (d', some (.ok frame))) : frame ≠ [] := by
  cases r with
  | eof => simp [specRead] at h
  | failed => simp [specRead] at h
  | chunk c =>
    rcases hs : dapFormat.decoder.scan d c.bytes with ⟨t, _ | ⟨raw, rest⟩⟩
    · by_cases hg : maxRejects < t.noise <;> simp [specRead, hs, hg] at h
    · obtain ⟨-, fed, -, houts, -⟩ := scan_some_state hs
      obtain ⟨f, rfl, hp⟩ := outs_frame ho fed raw (by rw [houts]; simp)
      simp only [specRead, hs, Prod.mk.injEq, Option.some.injEq, Except.ok.injEq] at h
      rw [← h.2, slice_wire]
      simpa using hp

namespace Firmware
variable {T : Type} [Transport T]

def deliver (cs : List Chunk) : List Event := cs.map (fun c => .read (.chunk c) true)

structure Served (s : Session T) (f : dapFormat.Frame) (k : ℕ) (events : List Event) :
    Prop where
  silent : f.payload = [] → (runner T).outs (.serving s) events = [] ∧
    ∃ ch : TcpChannel, ch.deframer.Refines ⟨[], k⟩ ∧
      (runner T).run (.serving s) events = .serving { s with ch }
  answered : f.payload ≠ [] →
    (runner T).outs (.serving s) events =
        [⟨f.payload.take 1024, (s.dap.answer (f.payload.take 1024)).1⟩] ∧
      ∃ ch : TcpChannel, ∃ resp, ch.deframer.Refines ⟨[], 0⟩ ∧
        (runner T).run (.serving s) events =
          .serving ⟨ch, (s.dap.answer (f.payload.take 1024)).2, resp⟩

section
variable {s : Session T} {f : dapFormat.Frame} {t : List UInt8} {k : ℕ} {c : Chunk}

theorem served_last (hs : s.ch.deframer.Refines ⟨t, k⟩) (hk : k ≤ maxRejects)
    (h : f.wire = t ++ c.bytes) : Served s f k (deliver [c]) := by
  obtain ⟨ch, d', hr, hcase⟩ := serveRead_cases hs (.chunk c) true
  rw [specRead_last hk h] at hcase
  constructor
  · intro hp
    rw [if_pos hp] at hcase
    rcases hcase with ⟨hd, hstep⟩ | ⟨e, hd, -⟩ | ⟨frame, resp, hd, -⟩
    · simp only [Prod.mk.injEq, and_true] at hd
      subst hd
      simp only [deliver, List.map_cons, List.map_nil, Transducer.outs, Transducer.run, runner,
        step, hstep]
      exact ⟨rfl, ch, hr, rfl⟩
    · simp at hd
    · simp at hd
  · intro hp
    rw [if_neg hp] at hcase
    rcases hcase with ⟨hd, -⟩ | ⟨e, hd, -⟩ | ⟨frame, resp, hd, hstep⟩
    · simp at hd
    · simp at hd
    · simp only [Prod.mk.injEq, Option.some.injEq, Except.ok.injEq] at hd
      obtain ⟨rfl, rfl⟩ := hd
      simp only [deliver, List.map_cons, List.map_nil, Transducer.outs, Transducer.run, runner,
        step, hstep]
      exact ⟨rfl, ch, resp, hr, rfl⟩

theorem deliver_within {cs : List Chunk} (hs : s.ch.deframer.Refines ⟨t, k⟩)
    (hk : k ≤ maxRejects) (h : f.wire = t ++ c.bytes ++ chunkBytes cs) (hn : cs ≠ []) :
    ∃ ch : TcpChannel, ch.deframer.Refines ⟨t ++ c.bytes, k⟩ ∧
      (runner T).run (.serving s) (deliver (c :: cs)) =
        (runner T).run (.serving { s with ch }) (deliver cs) ∧
      (runner T).outs (.serving s) (deliver (c :: cs)) =
        (runner T).outs (.serving { s with ch }) (deliver cs) := by
  obtain ⟨ch, d', hr, hcase⟩ := serveRead_cases hs (.chunk c) true
  rw [specRead_within hk h (chunkBytes_ne_nil hn)] at hcase
  rcases hcase with ⟨hd, hstep⟩ | ⟨e, hd, -⟩ | ⟨frame, resp, hd, -⟩
  · simp only [Prod.mk.injEq, and_true] at hd
    subst hd
    refine ⟨ch, hr, ?_, ?_⟩
    · simp only [deliver, List.map_cons, Transducer.run, runner, step, hstep]
    · simp only [deliver, List.map_cons, Transducer.outs, runner, step, hstep]
      rfl
  · simp at hd
  · simp at hd

end

theorem served_wire {s : Session T} {f : dapFormat.Frame} {t : List UInt8} {k : ℕ}
    {cs : List Chunk} (hs : s.ch.deframer.Refines ⟨t, k⟩) (hk : k ≤ maxRejects) (hcs : cs ≠ [])
    (h : f.wire = t ++ chunkBytes cs) : Served s f k (deliver cs) := by
  induction cs generalizing s t with
  | nil => exact absurd rfl hcs
  | cons c cs ih =>
    cases cs with
    | nil =>
      apply served_last hs hk
      simpa [chunkBytes] using h
    | cons c' cs =>
      rw [chunkBytes_cons, ← List.append_assoc] at h
      obtain ⟨ch, hr, hrun, houts⟩ := deliver_within hs hk h (List.cons_ne_nil c' cs)
      have hrest := ih (s := { s with ch }) hr (List.cons_ne_nil c' cs) h
      constructor
      · rw [hrun, houts]
        exact hrest.silent
      · rw [hrun, houts]
        exact hrest.answered

theorem step_nonempty {fw : Firmware T} (h : ∃ d, fw.channel.deframer.Refines d) (e : Event) :
    ∀ x ∈ (step fw e).2, x.req ≠ [] := by
  cases fw with
  | accepting ch t => cases e <;> simp [step]
  | serving s =>
    cases e with
    | accepted => simp [step]
    | acceptFailed => simp [step]
    | read r sent =>
      obtain ⟨d, hd⟩ := h
      obtain ⟨ch, d', -, ⟨-, hs⟩ | ⟨e, -, hs⟩ | ⟨frame, resp, hspec, hs⟩⟩ :=
        serveRead_cases hd r sent
      · simp [step, hs]
      · simp [step, hs]
      · have hne := specRead_nonempty hd.isOpen hspec
        simp [step, hs, hne]

theorem outs_nonempty {fw : Firmware T} (h : ∃ d, fw.channel.deframer.Refines d)
    (events : List Event) : ∀ x ∈ (runner T).outs fw events, x.req ≠ [] := by
  induction events generalizing fw with
  | nil => simp [Transducer.outs]
  | cons e es ih =>
    intro x hx
    simp only [Transducer.outs, List.mem_append, Option.mem_toList] at hx
    rcases hx with hx | hx
    · exact step_nonempty h e x hx
    · exact ih (step_refines h e) x hx

end Firmware

end DapProxy.Target
