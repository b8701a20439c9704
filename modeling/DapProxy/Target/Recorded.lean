import DapProxy.Target.Serve
import DapProxy.Target.Simulation

namespace DapProxy.Target
open Checked

inductive Op where
  | init
  | swjSequence (count : UInt8) (data : List UInt8)
  | swjPins (out sel : UInt8) (wait : UInt32)
  | readDp (a : UInt8)
  | writeDp (a : UInt8) (v : UInt32)
  | readAp (sel a : UInt8)
  | writeAp (sel a : UInt8) (v : UInt32)
  deriving DecidableEq, Repr

structure Recorded (T : Type) where
  inner : T
  ops : List Op

variable {T : Type}

namespace Recorded

def note {A : Type} (ops : List Op) (op : Op) (r : A × T) : A × Recorded T :=
  (r.1, ⟨r.2, ops ++ [op]⟩)

def Plays (r : Recorded T) (t : T) : Prop := r.inner = t

variable [Transport T]

instance : Transport (Recorded T) where
  init r := note r.ops .init (Transport.init r.inner)
  swjSequence count data r :=
    note r.ops (.swjSequence count data) (Transport.swjSequence count data r.inner)
  swjPins out sel wait r :=
    note r.ops (.swjPins out sel wait) (Transport.swjPins out sel wait r.inner)
  readDp a r := note r.ops (.readDp a) (Transport.readDp a r.inner)
  writeDp a v r := note r.ops (.writeDp a v) (Transport.writeDp a v r.inner)
  readAp sel a r := note r.ops (.readAp sel a) (Transport.readAp sel a r.inner)
  writeAp sel a v r := note r.ops (.writeAp sel a v) (Transport.writeAp sel a v r.inner)

omit [Transport T] in
theorem note_matches {A : Type} (ops : List Op) (op : Op) (r : A × T) :
    Matches Plays (note ops op r) r := ⟨rfl, rfl⟩

theorem simulates_inner : Simulates (Plays : Recorded T → T → Prop) where
  init := by
    rintro r _ rfl
    exact note_matches ..
  swjSequence := by
    rintro r _ count data rfl
    exact note_matches ..
  swjPins := by
    rintro r _ out sel wait rfl
    exact note_matches ..
  readDp := by
    rintro r _ a rfl
    exact note_matches ..
  writeDp := by
    rintro r _ a v rfl
    exact note_matches ..
  readAp := by
    rintro r _ sel a rfl
    exact note_matches ..
  writeAp := by
    rintro r _ sel a v rfl
    exact note_matches ..

end Recorded

namespace Dap

def recorded (d : Dap T) (ops : List Op) : Dap (Recorded T) :=
  ⟨⟨d.transport, ops⟩, d.waitRetry, d.errLogs⟩

theorem recorded_of_related {d : Dap (Recorded T)} {e : Dap T}
    (h : d.Related Recorded.Plays Eq e) : d = e.recorded d.transport.ops := by
  obtain ⟨⟨inner, ops⟩, waitRetry, errLogs⟩ := d
  obtain ⟨rfl, rfl, rfl⟩ := h
  rfl

variable [Transport T]

theorem answer_recorded (d : Dap T) (ops : List Op) (req : List UInt8) :
    ∃ ops', (d.recorded ops).answer req = ((d.answer req).1, (d.answer req).2.recorded ops') := by
  have hstart : (d.recorded ops).Related Recorded.Plays Eq d := ⟨rfl, rfl, rfl⟩
  obtain ⟨hbytes, hdap⟩ :=
    answer_related Recorded.simulates_inner (fun _ _ h => congrArg logged h) hstart req
  exact ⟨_, Prod.ext hbytes (recorded_of_related hdap)⟩

theorem handle_independent_of_buffer (d : Dap T) (req : List UInt8) (resp resp' : RespBuffer) :
    ∃ n out out' d' ops, d.handle req resp.1 = some (n, out, d') ∧
      d.handle req resp'.1 = some (n, out', d') ∧ out.take n = out'.take n ∧
      (d.recorded []).handle req resp.1 = some (n, out, d'.recorded ops) ∧
      (d.recorded []).handle req resp'.1 = some (n, out', d'.recorded ops) := by
  obtain ⟨ops, hops⟩ := d.answer_recorded [] req
  have hrecorded := (d.recorded []).handle_writes req
  rw [hops] at hrecorded
  refine ⟨_, _, _, _, ops, d.handle_writes req resp.1 resp.2, d.handle_writes req resp'.1 resp'.2,
    ?_, hrecorded resp.1 resp.2, hrecorded resp'.1 resp'.2⟩
  rw [take_overwrite, take_overwrite]

end Dap

end DapProxy.Target
