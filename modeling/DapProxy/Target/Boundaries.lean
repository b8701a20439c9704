import DapProxy.Framing.Parse
import DapProxy.Memory.Checked
import DapProxy.Target.Frame

namespace DapProxy.Target
open Framing Framing.Format

def declared : List UInt8 → Option ℕ
  | _ :: lo :: hi :: _ => some (dapFormat.size lo hi)
  | _ => none

theorem size_le (lo hi : UInt8) : dapFormat.size lo hi ≤ 65535 := by
  have hlo := lo.toNat_lt
  have hhi := hi.toNat_lt
  rw [size_eq]
  omega

namespace Deframer
variable {N : ℕ} {d : Deframer N} {s : Decoder UInt8}

def storeChecked (d : Deframer N) (byte : UInt8) : Option (Vector UInt8 N) :=
  if d.fill < N then Checked.setAt d.buf d.fill byte else some d.buf

def feedChecked (d : Deframer N) (byte : UInt8) : Option (Deframer N × Option (List UInt8)) :=
  match d.state with
  | .payload left => do
      let buf ← d.storeChecked byte
      let fill := d.fill + 1
      if left = 1 then
        let frame ← Checked.front buf (min fill N)
        some (⟨buf, fill, .magic, 0⟩, some frame)
      else
        let left ← Checked.sub left 1
        some ({ d with buf, fill, state := .payload left }, none)
  | _ => some (d.feed byte)

structure Bounded (d : Deframer N) (left : ℕ) (unfinished : List UInt8) : Prop where
  positive : 1 ≤ left
  declared : declared unfinished = some (d.fill + left)
  halfword : d.fill + left ≤ 65535

structure Consumes (N : ℕ) (pre : List UInt8) (f : dapFormat.Frame) (post : List UInt8) :
    Prop where
  counting : ∀ seen unseen, f.payload = seen ++ unseen → unseen ≠ [] →
    ((feeder N).run .new (pre ++ f.magic :: f.lo :: f.hi :: seen)).state =
      .payload unseen.length
  ended : ((feeder N).run .new (pre ++ f.wire)).state = .magic
  next : (feeder N).outs .new (pre ++ f.wire ++ post) =
    (feeder N).outs .new (pre ++ f.wire) ++ (feeder N).outs .new post

theorem bounded_of_refines (h : Refines d s) {left : ℕ} (hl : d.state = .payload left) :
    Bounded d left s.raw := by
  obtain ⟨hopen, hholds, -⟩ := h
  rcases hraw : s.raw with _ | ⟨m, _ | ⟨lo, _ | ⟨hi, p⟩⟩⟩ <;> rw [hraw] at hopen hholds
  · exact absurd (hl.symm.trans hholds) RxState.noConfusion
  · exact absurd (hl.symm.trans hholds) RxState.noConfusion
  · exact absurd (hl.symm.trans hholds) RxState.noConfusion
  · obtain ⟨hstate, hfill, -⟩ := hholds
    have hlt : p.length < dapFormat.size lo hi := hopen.2
    have hleft : left = dapFormat.size lo hi - p.length :=
      RxState.payload.inj (hl.symm.trans hstate)
    have hsum : d.fill + left = dapFormat.size lo hi := by omega
    exact ⟨by omega, congrArg some hsum.symm, hsum ▸ size_le lo hi⟩

theorem storeChecked_eq (d : Deframer N) (x : UInt8) : d.storeChecked x = some (d.store x) := by
  rw [storeChecked, store, Checked.setAt]
  split <;> rfl

theorem feedChecked_eq (h : ∀ left, d.state = .payload left → 1 ≤ left) (x : UInt8) :
    d.feedChecked x = some (d.feed x) := by
  rcases hs : d.state with _ | _ | lo | left
  · rw [feedChecked, hs]
  · rw [feedChecked, hs]
  · rw [feedChecked, hs]
  · have hleft : Checked.sub left 1 = some (left - 1) := if_pos (h left hs)
    have hfront : Checked.front (d.store x) (min (d.fill + 1) N) =
        some ((d.store x).toList.take (min (d.fill + 1) N)) := if_pos (Nat.min_le_right _ _)
    simp only [feedChecked, feed, hs, storeChecked_eq, hfront, hleft, Option.bind_eq_bind,
      Option.bind_some]
    split <;> rfl

theorem outs_of_refines (h : Refines d s) (hs : s.raw = []) (bytes : List UInt8) :
    (feeder N).outs d bytes = (feeder N).outs .new bytes := by
  rw [feed_simulates.outs h, feed_simulates.outs refines_new]
  exact congrArg _ (outs_sameRaw hs bytes)

section
variable {bytes gap rest : List UInt8} {gs : List dapFormat.Segment}

theorem refines_of_parsed (h : dapFormat.Parsed bytes gs gap rest) :
    ∃ s, Refines ((feeder N).run .new bytes) s ∧ s.raw = rest :=
  ⟨_, feed_simulates.run refines_new bytes, h.raw_eq 0⟩

theorem returned_iff (h : dapFormat.Parsed bytes gs gap rest) {pre post : List UInt8}
    {x : UInt8} (hb : bytes = pre ++ x :: post) (frame : List UInt8) :
    (((feeder N).run .new pre).feed x).2 = some frame ↔
      ∃ before g after, gs = before ++ g :: after ∧ g.frame.payload ≠ [] ∧
        Segment.stream (before ++ [g]) = pre ++ [x] ∧ g.frame.payload.take N = frame := by
  have hrun := (feed_simulates (N := N)).run refines_new pre
  have hfeed : (((feeder N).run .new pre).feed x).2 = _ := (feed_simulates.step hrun x).2
  rw [hfeed, Option.map_eq_some_iff]
  constructor
  · rintro ⟨raw, hraw, rfl⟩
    obtain ⟨before, g, after, hgs, hp, hs, rfl⟩ := (h.emits_iff hb).mp hraw
    exact ⟨before, g, after, hgs, hp, hs, rfl⟩
  · rintro ⟨before, g, after, hgs, hp, hs, rfl⟩
    exact ⟨g.frame.wire, (h.emits_iff hb).mpr ⟨before, g, after, hgs, hp, hs, rfl⟩, rfl⟩

end

theorem consumes_frame (N : ℕ) (before : List dapFormat.Segment) (g : dapFormat.Segment)
    (post : List UInt8) : Consumes N (Segment.stream before ++ g.gap) g.frame post := by
  have hstream : Segment.stream before ++ g.gap ++ g.frame.wire =
      Segment.stream (before ++ [g]) := by
    simp [Segment.stream, Segment.bytes]
  obtain ⟨s, hended, hraw⟩ := refines_of_parsed (N := N) (parsed_stream (before ++ [g]))
  refine ⟨fun seen unseen hp hne => ?_, ?_, ?_⟩
  · have hwire : g.frame.wire =
        (g.frame.magic :: g.frame.lo :: g.frame.hi :: seen) ++ unseen := by
      rw [Frame.wire, hp]
      rfl
    obtain ⟨t, ⟨-, hholds, -⟩, hunfinished⟩ :=
      refines_of_parsed (N := N) (parsed_before before g hwire hne)
    rw [hunfinished] at hholds
    rw [hholds.1, ← g.frame.size, hp, List.length_append, Nat.add_sub_cancel_left]
  · have hholds := hended.holds
    rw [hraw] at hholds
    rw [hstream]
    exact hholds
  · rw [hstream, Transducer.outs_append, outs_of_refines hended hraw]

example : (feeder 2).outs .new [0x00, 0xDA, 3, 0, 1, 2, 3, 0xDA, 1, 0, 9] = [[1, 2], [9]] := by
  decide

theorem boundaries_kept (N : ℕ) (bytes : List UInt8) :
    let d := (feeder N).run .new bytes
    (∃ gs gap rest, dapFormat.Parsed bytes gs gap rest) ∧
      (∀ x, d.feedChecked x = some (d.feed x)) ∧
      ∀ gs gap rest, dapFormat.Parsed bytes gs gap rest →
        (∀ left, d.state = .payload left → Bounded d left rest) ∧
        (∀ pre x post, bytes = pre ++ x :: post → ∀ frame,
          (((feeder N).run .new pre).feed x).2 = some frame ↔
            ∃ before g after, gs = before ++ g :: after ∧ g.frame.payload ≠ [] ∧
              Segment.stream (before ++ [g]) = pre ++ [x] ∧ g.frame.payload.take N = frame) ∧
        ∀ before g after, gs = before ++ g :: after →
          (g.frame.payload.take N).length = min (dapFormat.size g.frame.lo g.frame.hi) N ∧
          Consumes N (Segment.stream before ++ g.gap) g.frame
            (Segment.stream after ++ (gap ++ rest)) := by
  intro d
  have hd := (feed_simulates (N := N)).run refines_new bytes
  refine ⟨exists_parsed dapFormat bytes,
    feedChecked_eq fun left hl => (bounded_of_refines hd hl).positive, ?_⟩
  intro gs gap rest h
  refine ⟨fun left hl => ?_, fun pre x post hb frame => returned_iff h hb frame, ?_⟩
  · have hbounded := bounded_of_refines hd hl
    rwa [h.raw_eq 0] at hbounded
  · rintro before g after -
    refine ⟨?_, consumes_frame N before g _⟩
    rw [List.length_take, g.frame.size, Nat.min_comm]

end Deframer

end DapProxy.Target
