import DapProxy.Target.Recorded
import DapProxy.Target.Swd

namespace DapProxy.Target

inductive Control where
  | swjPins (out sel : UInt8) (wait : UInt32)
  | writeAbort (index : UInt8) (word : UInt32)
  | transferConfigure (idle : UInt8) (waitRetry matchRetry : UInt16)

namespace Control

def request : Control → List UInt8
  | .swjPins out sel wait => idSwjPins :: out :: sel :: leBytes wait
  | .writeAbort index word => idWriteAbort :: index :: leBytes word
  | .transferConfigure idle waitRetry matchRetry =>
      idTransferConfig :: idle :: (leHalfBytes waitRetry ++ leHalfBytes matchRetry)

def ops : Control → List Op
  | .swjPins out sel wait => [.swjPins out sel wait]
  | .writeAbort _ word => [.writeDp dpAbort word]
  | .transferConfigure _ _ _ => []

def pinByte : Except TErr UInt8 → UInt8
  | .ok pins => pins
  | .error _ => 0x00

variable {T : Type} [Transport T]

def effect (d : Dap T) : Control → List UInt8 × Dap T
  | .swjPins out sel wait =>
      ([idSwjPins, pinByte (Transport.swjPins out sel wait d.transport).1],
        { d with transport := (Transport.swjPins out sel wait d.transport).2 })
  | .writeAbort _ word =>
      ([idWriteAbort, 0x00],
        { d with transport := (Transport.writeDp dpAbort word d.transport).2 })
  | .transferConfigure _ waitRetry _ => ([idTransferConfig, 0x00], { d with waitRetry })

end Control

namespace Dap
variable {T : Type} [Transport T]

def Performs (d : Dap T) (req : List UInt8) (effect : List UInt8 × Dap T) (ops : List Op) : Prop :=
  ∀ resp : RespBuffer, ((d.recorded []).handleFrame req resp).1 = effect.1 ∧
    ((d.recorded []).handleFrame req resp).2.2 = effect.2.recorded ops

theorem performs_iff (d : Dap T) (req : List UInt8) (effect : List UInt8 × Dap T)
    (ops : List Op) :
    d.Performs req effect ops ↔
      (d.recorded []).answer req = (effect.1, effect.2.recorded ops) := by
  constructor
  · intro h
    obtain ⟨hout, hdap⟩ := h .new
    obtain ⟨hbytes, hafter⟩ := (d.recorded []).handleFrame_eq req .new
    exact Prod.ext (hbytes.symm.trans hout) (hafter.symm.trans hdap)
  · intro h resp
    obtain ⟨hbytes, hafter⟩ := (d.recorded []).handleFrame_eq req resp
    rw [hbytes, hafter, h]
    exact ⟨rfl, rfl⟩

theorem swjPins_refused (d : Dap T) (out sel : UInt8) (wait : UInt32) :
    d.Performs (Control.swjPins out sel wait).request ([idSwjPins, 0xFF], d) [] :=
  (d.performs_iff _ _ _).mpr rfl

theorem writeAbort_decoded (d : Dap T) (index : UInt8) (word : UInt32) :
    d.Performs (Control.writeAbort index word).request
      ((Control.writeAbort index word).effect d) (Control.writeAbort index word).ops := by
  rw [performs_iff]
  change ([idWriteAbort, 0x00], (d.recorded []).aborted (idWriteAbort :: index :: leBytes word)) = _
  rw [leBytes, aborted, leWord_bytes]
  rfl

theorem transferConfigure_decoded (d : Dap T) (idle : UInt8) (waitRetry matchRetry : UInt16) :
    d.Performs (Control.transferConfigure idle waitRetry matchRetry).request
      ((Control.transferConfigure idle waitRetry matchRetry).effect d)
      (Control.transferConfigure idle waitRetry matchRetry).ops := by
  rw [performs_iff]
  change ([idTransferConfig, 0x00], (d.recorded []).configured
    (idTransferConfig :: idle :: (leHalfBytes waitRetry ++ leHalfBytes matchRetry))) = _
  rw [leHalfBytes, leHalfBytes, List.cons_append, List.singleton_append, configured, leHalf_bytes]
  rfl

theorem swjPins_not_decoded (d : Dap T) (out sel : UInt8) (wait : UInt32) :
    ¬d.Performs (Control.swjPins out sel wait).request ((Control.swjPins out sel wait).effect d)
      (Control.swjPins out sel wait).ops := by
  intro h
  have hdap := (h .new).2.symm.trans (d.swjPins_refused out sel wait .new).2
  exact absurd (congrArg (fun e => e.transport.ops) hdap) (List.cons_ne_nil _ _)

theorem swjPins_leaves (d : Dap T) (out sel : UInt8) (wait : UInt32) (resp : RespBuffer) :
    (d.handleFrame (Control.swjPins out sel wait).request resp).1 = [idSwjPins, 0xFF] ∧
      (d.handleFrame (Control.swjPins out sel wait).request resp).2.2 = d :=
  d.handleFrame_eq (Control.swjPins out sel wait).request resp

theorem control_decoded_iff {I : Type} [Io I] (d : Dap T) (c : Control) (s : Dap (Swd I)) :
    (d.Performs c.request (c.effect d) c.ops ↔ ∀ out sel wait, c ≠ .swjPins out sel wait) ∧
      ∀ out sel wait resp, (s.handleFrame (Control.swjPins out sel wait).request resp).2.2 = s := by
  refine ⟨?_, fun out sel wait resp => (s.swjPins_leaves out sel wait resp).2⟩
  cases c with
  | swjPins out sel wait =>
    exact iff_of_false (d.swjPins_not_decoded out sel wait) (fun h => h out sel wait rfl)
  | writeAbort index word =>
    exact iff_of_true (d.writeAbort_decoded index word) (fun _ _ _ h => by cases h)
  | transferConfigure idle waitRetry matchRetry =>
    exact iff_of_true (d.transferConfigure_decoded idle waitRetry matchRetry)
      (fun _ _ _ h => by cases h)

theorem padded_swjPins_decoded (d : Dap T) (out sel x y z : UInt8) (wait : UInt32) :
    d.Performs (idSwjPins :: out :: sel :: x :: y :: z :: leBytes wait)
      ((Control.swjPins out sel wait).effect d) (Control.swjPins out sel wait).ops := by
  rw [performs_iff]
  change (idSwjPins :: ((d.recorded []).pinsAnswer _).1, ((d.recorded []).pinsAnswer _).2) = _
  rw [leBytes, pinsAnswer, leWord_bytes]
  rfl

end Dap

namespace Swd
variable {I : Type} [Io I]

theorem swjPins_drives_reset {out sel : UInt8} (wait : UInt32) (s : Swd I)
    (h : sel &&& 0x80 ≠ 0) :
    (s.swjPins out sel wait).2.io = Io.setReset (out &&& 0x80 != 0) s.io := by
  rw [swjPins, if_pos h]

end Swd

structure ResetLine where
  high : Bool

instance : Io ResetLine where
  setClkHigh r := r
  setClkLow r := r
  setDataHigh r := r
  setDataLow r := r
  isDataHigh _ := true
  setDataOutput r := r
  setDataInput r := r
  clockCycle r := r
  setReset high _ := ⟨high⟩

theorem reset_request_ignored :
    let d := Dap.new (Swd.new (⟨true⟩ : ResetLine))
    let c := Control.swjPins 0x00 0x80 0
    c.request.length = 7 ∧ ¬d.Performs c.request (c.effect d) c.ops ∧
      (d.handleFrame c.request .new).1 = [idSwjPins, 0xFF] ∧
      (d.handleFrame c.request .new).2.2.transport.io.high = true ∧
      (c.effect d).2.transport.io.high = false := by
  intro d c
  obtain ⟨hout, hdap⟩ := d.swjPins_leaves 0x00 0x80 0 .new
  refine ⟨rfl, d.swjPins_not_decoded 0x00 0x80 0, hout, ?_, ?_⟩
  · rw [hdap]
    rfl
  · change (Swd.swjPins 0x00 0x80 0 d.transport).2.io.high = false
    rw [Swd.swjPins_drives_reset 0 _ (by decide)]
    rfl

end DapProxy.Target
