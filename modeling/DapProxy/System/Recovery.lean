import DapProxy.Host.Reader
import DapProxy.Target.Boundaries
import DapProxy.Target.Segmentation

namespace DapProxy.System
open DapProxy.Host DapProxy.Host.DapLink DapProxy.Target Framing Framing.Format

structure Noisy where
  gap : List UInt8
  payload : List UInt8
  quiet : Target.frameMagic ∉ gap
  asked : 1 ≤ payload.length
  sized : payload.length ≤ 1024

namespace Noisy

def bytes (g : Noisy) : List UInt8 := g.gap ++ wire g.payload

def stream (gs : List Noisy) : List UInt8 := gs.flatMap bytes

def segment (g : Noisy) : dapFormat.Segment where
  gap := g.gap
  frame := frameOf g.payload (Nat.lt_of_le_of_lt g.sized (by decide))
  quiet := by
    intro x hx
    have hne : x ≠ Target.frameMagic := fun h => g.quiet (h ▸ hx)
    simp [dapFormat, hne]

theorem segment_payload (g : Noisy) : g.segment.frame.payload ≠ [] :=
  List.ne_nil_of_length_pos g.asked

theorem slice_segment (g : Noisy) : slice 1024 g.segment.frame.wire = g.payload :=
  List.take_of_length_le g.sized

theorem stream_segments (gs : List Noisy) : Segment.stream (gs.map segment) = stream gs := by
  rw [Segment.stream, List.flatMap_map]
  rfl

theorem wires_segments (gs : List Noisy) :
    (Segment.wires (gs.map segment)).map (slice 1024) = gs.map (·.payload) := by
  induction gs with
  | nil => rfl
  | cons g gs ih =>
    have hkept : (!g.segment.frame.payload.isEmpty) = true := by
      simp [g.segment_payload]
    rw [List.map_cons, Segment.wires, List.filter_cons, if_pos hkept, List.map_cons, List.map_cons,
      slice_segment, List.map_cons]
    exact congrArg _ ih

theorem frames_stream (gs : List Noisy) :
    Deframer.frames .new (stream gs) = gs.map (·.payload) := by
  rw [frames_new, ← stream_segments, Segment.outs_stream, wires_segments]

theorem refines_stream (gs : List Noisy) :
    ((Deframer.feeder 1024).run .new (stream gs)).Refines ⟨[], 0⟩ := by
  have h := (Deframer.feed_simulates (N := 1024)).run Deframer.refines_new (stream gs)
  rwa [← stream_segments, Segment.run_whole, stream_segments] at h
  intro s hs
  obtain ⟨g, -, rfl⟩ := List.mem_map.mp hs
  exact g.segment_payload

theorem feed_stream_iff {gs : List Noisy} {pre post : List UInt8} {x : UInt8}
    (h : stream gs = pre ++ x :: post) (frame : List UInt8) :
    (((Deframer.feeder 1024).run .new pre).feed x).2 = some frame ↔
      ∃ before g after, gs = before ++ g :: after ∧ stream (before ++ [g]) = pre ++ [x] ∧
        g.payload = frame := by
  have hparsed := parsed_stream (gs.map segment)
  rw [stream_segments] at hparsed
  rw [Deframer.returned_iff hparsed h]
  constructor
  · rintro ⟨before, s, after, hgs, -, hs, rfl⟩
    obtain ⟨before, rest, rfl, rfl, hrest⟩ := List.map_eq_append_iff.mp hgs
    obtain ⟨g, after, rfl, rfl, rfl⟩ := List.map_eq_cons_iff.mp hrest
    refine ⟨before, g, after, rfl, ?_, g.slice_segment.symm⟩
    rw [← stream_segments, List.map_append]
    exact hs
  · rintro ⟨before, g, after, rfl, hs, rfl⟩
    refine ⟨before.map segment, g.segment, after.map segment, ?_, g.segment_payload, ?_,
      g.slice_segment⟩
    · rw [List.map_append, List.map_cons]
    · rw [← hs, ← stream_segments, List.map_append]
      rfl

end Noisy

section
variable {ν : Type} [Network ν] {R : List UInt8 → DapLink ν → Prop}

theorem framesRead_dry (h : Delivers R) {l : DapLink ν} (hr : R [] l) (n : ℕ) :
    l.framesRead n = [] := by
  cases n with
  | zero => rfl
  | succ n =>
    obtain ⟨e, l', hread⟩ := h.dry (n := 1) hr Nat.one_pos
    simp only [DapLink.framesRead, DapLink.readFrame_failed hread]

theorem framesRead_stream (h : Delivers R) {gs : List Noisy}
    (hgap : ∀ g ∈ gs, g.gap.length ≤ maxFrame) {l : DapLink ν} (hr : R (Noisy.stream gs) l)
    (n : ℕ) : l.framesRead n = (gs.map (·.payload)).take n := by
  induction n generalizing gs l with
  | zero => rfl
  | succ n ih =>
    cases gs with
    | nil => exact framesRead_dry h hr _
    | cons g gs =>
      have hsized : g.payload.length ≤ maxFrame := Nat.le_trans g.sized (by decide)
      have hbytes : Noisy.stream (g :: gs) = g.gap ++ (wire g.payload ++ Noisy.stream gs) := by
        rw [Noisy.stream, List.flatMap_cons, Noisy.bytes, List.append_assoc]
        rfl
      rw [hbytes] at hr
      rcases h.source.readNoisy g.quiet (hgap g List.mem_cons_self) hsized hr with
        ⟨l', hread, hr'⟩ | ⟨_, _, _, hfalse⟩
      · simp only [DapLink.framesRead, hread, List.map_cons, List.take_succ_cons]
        rw [ih (fun g' hg => hgap g' (List.mem_cons_of_mem g hg)) hr']
      · exact hfalse.elim

end

theorem frames_recovered (gs : List Noisy) :
    Deframer.frames .new (Noisy.stream gs) = gs.map (·.payload) ∧
      (∀ pre x post, Noisy.stream gs = pre ++ x :: post → ∀ frame,
        (((Deframer.feeder 1024).run .new pre).feed x).2 = some frame ↔
          ∃ before g after, gs = before ++ g :: after ∧
            Noisy.stream (before ++ [g]) = pre ++ [x] ∧ g.payload = frame) ∧
      ((Deframer.feeder 1024).run .new (Noisy.stream gs)).state = .magic ∧
      ((Deframer.feeder 1024).run .new (Noisy.stream gs)).rejects = 0 ∧
      ((∀ g ∈ gs, g.gap.length ≤ maxFrame) →
        ∀ (ν : Type) [Network ν] (R : List UInt8 → DapLink ν → Prop) (l : DapLink ν),
          Delivers R → R (Noisy.stream gs) l →
            ∀ n, l.framesRead n = (gs.map (·.payload)).take n) :=
  ⟨Noisy.frames_stream gs, fun _ _ _ h frame => Noisy.feed_stream_iff h frame,
    (Noisy.refines_stream gs).holds, (Noisy.refines_stream gs).rejects,
    fun hgap _ _ _ _ h hr n => framesRead_stream h hgap hr n⟩

structure Tape where
  unread : List UInt8

instance : Network Tape where
  connect t := (.done 0, t)
  writeAll _ _ t := (.done (), t)
  readExact _ n t :=
    if h : n ≤ t.unread.length then (.done (bufferOf n t.unread h), ⟨t.unread.drop n⟩)
    else (.failed ⟨true, "early eof"⟩, ⟨[]⟩)
  close _ t := t
  micros _ := 0

theorem tape_delivers : Delivers fun bytes (l : DapLink Tape) =>
    l.stream = some 0 ∧ l.net.unread = bytes where
  enough := by
    rintro n bytes l ⟨hs, rfl⟩ hn
    refine ⟨_, _, readExact_done (v := bufferOf n l.net.unread hn) ⟨l.net.unread.drop n⟩ hs ?_,
      bufferOf_toList hn, hs, rfl⟩
    exact dif_pos hn
  dry := by
    rintro n bytes l ⟨hs, rfl⟩ hn
    refine ⟨_, _, readExact_failed ⟨[]⟩ hs (e := ⟨true, "early eof"⟩) ?_⟩
    exact dif_neg (Nat.not_le.mpr hn)

theorem frames_recovered_tape :
    let gs : List Noisy := [⟨[0x00, 0x07], [0xDA, 0x01], by decide, by decide, by decide⟩,
      ⟨[], [0x42], by decide, by decide, by decide⟩]
    let l : DapLink Tape := ⟨some 0, ⟨Noisy.stream gs⟩, .new⟩
    l.framesRead 3 = [[0xDA, 0x01], [0x42]] := by
  intro gs l
  exact (frames_recovered gs).2.2.2.2 (by decide) Tape _ l tape_delivers ⟨rfl, rfl⟩ 3

end DapProxy.System
