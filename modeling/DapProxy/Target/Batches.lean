import DapProxy.Target.Recorded

namespace DapProxy.Target
open Checked
variable {T : Type}

structure Entry where
  rb : UInt8
  word : Option UInt32
  valid : rb &&& 0xF0 = 0
  sized : word.isNone = rnw rb

namespace Entry

def wordBytes : Option UInt32 → List UInt8
  | none => []
  | some w => leBytes w

def bytes (e : Entry) : List UInt8 := e.rb :: wordBytes e.word

end Entry

theorem parseData_some {read : Bool} {bytes rest : List UInt8} {w : Option UInt32}
    (h : parseData read bytes = some (w, rest)) :
    w.isNone = read ∧ bytes = Entry.wordBytes w ++ rest := by
  cases read with
  | true =>
    simp only [parseData, if_true, Option.some.injEq, Prod.mk.injEq] at h
    obtain ⟨rfl, rfl⟩ := h
    exact ⟨rfl, rfl⟩
  | false =>
    simp only [parseData, Bool.false_eq_true, if_false] at h
    split at h
    · next b0 b1 b2 b3 tail =>
      simp only [Option.some.injEq, Prod.mk.injEq] at h
      obtain ⟨rfl, rfl⟩ := h
      exact ⟨rfl, by rw [Entry.wordBytes, leBytes_word]; rfl⟩
    · cases h

theorem parseData_bytes (w : Option UInt32) (rest : List UInt8) :
    parseData w.isNone (Entry.wordBytes w ++ rest) = some (w, rest) := by
  cases w with
  | none => rfl
  | some w =>
    change some (some (leWord _ _ _ _), rest) = _
    rw [leWord_bytes]

theorem parseEntry_bytes (e : Entry) (rest : List UInt8) :
    parseEntry (e.bytes ++ rest) = some (e.rb, e.word, rest) := by
  rw [Entry.bytes, List.cons_append, parseEntry, if_neg (not_not.mpr e.valid), ← e.sized,
    parseData_bytes]
  rfl

abbrev Outcome := Except UInt8 (Option UInt32)

def readBytes : Outcome → List UInt8
  | .ok (some v) => leBytes v
  | _ => []

variable [Transport T]

theorem perform_ok {p : Progress T} {rb : UInt8} {w v : Option UInt32} {d : Dap T}
    (h : p.dap.execTransfer (apndp rb) (rnw rb) (regAddr rb) w = (.ok v, d)) :
    p.perform rb w = ({ p with
      dap := d, done := p.done + 1, data := p.data ++ readBytes (.ok v) }, true) := by
  cases v with
  | none => simp only [Progress.perform, h, readBytes, List.append_nil]
  | some v => simp only [Progress.perform, h, readBytes]

omit [Transport T] in
theorem failure_not_ok (d : Dap T) (err : TErr) : (Dap.failure d err).1 ≠ stOk := by
  cases err with
  | wait => exact (by decide : stWait ≠ stOk)
  | fault => exact (by decide : stFault ≠ stOk)
  | parity => exact (by decide : stProto ≠ stOk)
  | unknown ack => exact (by decide : stProto ≠ stOk)
  | io => exact (by decide : stProto ≠ stOk)

theorem execLoop_not_ok (ap read : Bool) (a : UInt8) (wdata : Option UInt32) (d : Dap T)
    (tries : UInt32) : (Dap.execLoop ap read a wdata d tries).1 ≠ .error stOk := by
  induction d, tries using Dap.execLoop_induct (T := T) ap read a wdata with
  | ok d tries v t ha =>
    rw [Dap.execLoop_ok ha]
    exact fun h => by cases h
  | again d tries e t ha hw ih =>
    rw [Dap.execLoop_again ha hw]
    exact ih
  | stop d tries e t ha hw =>
    rw [Dap.execLoop_stop ha hw]
    exact fun h => failure_not_ok _ _ (Except.error.inj h)

end DapProxy.Target
