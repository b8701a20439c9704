import DapProxy.Target.Serve
import DapProxy.Target.Simulation
import DapProxy.Target.Swd

namespace DapProxy.Target

structure Keeps (T : Type) [Transport T] (I : T → Prop) : Prop where
  init : ∀ {t : T}, I t → I (Transport.init t).2
  swjSequence : ∀ {t : T} count data, I t → I (Transport.swjSequence count data t).2
  swjPins : ∀ {t : T} out sel wait, I t → I (Transport.swjPins out sel wait t).2
  readDp : ∀ {t : T} a, I t → I (Transport.readDp a t).2
  writeDp : ∀ {t : T} a v, I t → I (Transport.writeDp a v t).2
  readAp : ∀ {t : T} sel a, I t → I (Transport.readAp sel a t).2
  writeAp : ∀ {t : T} sel a v, I t → I (Transport.writeAp sel a v t).2

section
variable {T : Type} [Transport T] {I : T → Prop}

theorem Keeps.simulates (h : Keeps T I) : Simulates (fun t u : T => t = u ∧ I t) where
  init := by
    rintro t _ ⟨rfl, ht⟩
    exact ⟨rfl, rfl, h.init ht⟩
  swjSequence := by
    rintro t _ count data ⟨rfl, ht⟩
    exact ⟨rfl, rfl, h.swjSequence count data ht⟩
  swjPins := by
    rintro t _ out sel wait ⟨rfl, ht⟩
    exact ⟨rfl, rfl, h.swjPins out sel wait ht⟩
  readDp := by
    rintro t _ a ⟨rfl, ht⟩
    exact ⟨rfl, rfl, h.readDp a ht⟩
  writeDp := by
    rintro t _ a v ⟨rfl, ht⟩
    exact ⟨rfl, rfl, h.writeDp a v ht⟩
  readAp := by
    rintro t _ sel a ⟨rfl, ht⟩
    exact ⟨rfl, rfl, h.readAp sel a ht⟩
  writeAp := by
    rintro t _ sel a v ⟨rfl, ht⟩
    exact ⟨rfl, rfl, h.writeAp sel a v ht⟩

theorem Dap.answer_keeps (h : Keeps T I) {d : Dap T} (hd : I d.transport) (req : List UInt8) :
    I (d.answer req).2.transport := by
  have hrelated : d.Related (fun t u => t = u ∧ I t) (fun _ _ => True) d :=
    ⟨⟨rfl, hd⟩, rfl, trivial⟩
  exact (answer_related h.simulates (fun _ _ _ => trivial) hrelated req).2.transport.2

theorem Dap.after_keeps (h : Keeps T I) {d : Dap T} (hd : I d.transport)
    (reqs : List (List UInt8)) : I (d.after reqs).transport := by
  induction reqs generalizing d with
  | nil => exact hd
  | cons req reqs ih => exact ih (answer_keeps h hd req)

end

structure Discipline (I : Type) [Io I] (P : Bool → UInt8 → I → Prop) : Prop where
  dataHigh : ∀ {pins io}, P true pins io → P true pins (Io.setDataHigh io)
  dataLow : ∀ {pins io}, P true pins io → P true pins (Io.setDataLow io)
  clock : ∀ {driving pins io}, P driving pins io → P driving pins (Io.clockCycle io)
  sample : ∀ {pins io}, P false pins io → P false pins (Io.readBit io).2
  release : ∀ {pins io}, P true pins io → P false pins (Io.setDataInput io)
  take : ∀ {driving pins io}, P driving pins io → P true pins (Io.setDataOutput io)
  reset : ∀ {pins io} (out : UInt8), P true pins io →
    P true ((pins &&& 0x7F) ||| (out &&& 0x80)) (Io.setReset (out &&& 0x80 != 0) io)

namespace Discipline
variable {I : Type} [Io I] {P : Bool → UInt8 → I → Prop} {pins : UInt8} {io : I}

theorem writeBit (h : Discipline I P) (bit : Bool) (hp : P true pins io) :
    P true pins (Io.writeBit bit io) := by
  cases bit with
  | false => exact h.clock (h.dataLow hp)
  | true => exact h.clock (h.dataHigh hp)

theorem writeBits (h : Discipline I P) (bits : List Bool) (hp : P true pins io) :
    P true pins (Io.writeBits bits io) := by
  induction bits generalizing io with
  | nil => exact hp
  | cons bit bits ih => exact ih (h.writeBit bit hp)

theorem readFrom (h : Discipline I P) (i n : ℕ) (v : UInt32) (hp : P false pins io) :
    P false pins (Io.readFrom i n v io).2 := by
  induction n generalizing i v io with
  | zero => exact hp
  | succ n ih => exact ih _ _ (h.sample hp)

theorem clockCycles (h : Discipline I P) (n : ℕ) (hp : P true pins io) :
    P true pins (Io.clockCycles n io) := by
  induction n generalizing io with
  | zero => exact hp
  | succ n ih => exact ih (h.clock hp)

theorem lineReset (h : Discipline I P) (hp : P true pins io) : P true pins (Io.lineReset io) :=
  h.clockCycles 60 (h.take (h.dataHigh hp))

end Discipline

namespace Swd
variable {I : Type} [Io I] {P : Bool → UInt8 → I → Prop} {s : Swd I}

def Obeys (P : Bool → UInt8 → I → Prop) (driving : Bool) (s : Swd I) : Prop :=
  s.driving = driving ∧ P driving s.lastPins s.io

theorem obeys_write (h : Discipline I P) (value : UInt32) (n : ℕ) (hs : s.Obeys P true) :
    (s.write value n).Obeys P true := ⟨hs.1, h.writeBits _ hs.2⟩

theorem obeys_read (h : Discipline I P) (n : ℕ) (hs : s.Obeys P false) :
    (s.read n).2.Obeys P false := ⟨hs.1, h.readFrom 0 n 0 hs.2⟩

theorem obeys_give (h : Discipline I P) (hs : s.Obeys P true) : s.turnaround.Obeys P false := by
  rw [turnaround, if_pos hs.1]
  exact ⟨rfl, h.clock (h.release hs.2)⟩

theorem obeys_resume (h : Discipline I P) (hs : s.Obeys P false) : s.turnaround.Obeys P true := by
  rw [turnaround, if_neg (by rw [hs.1]; exact Bool.false_ne_true)]
  exact ⟨rfl, h.take (h.clock hs.2)⟩

theorem obeys_idle (h : Discipline I P) (hs : s.Obeys P true) : s.idle.Obeys P true :=
  obeys_write h 0x00 8 hs

theorem obeys_transfer (h : Discipline I P) (apndp rnw : Bool) (addr : UInt8)
    (value : Option UInt32) (hs : s.Obeys P true) :
    (transfer apndp rnw addr value s).2.Obeys P true := by
  have hack := obeys_read h 3 (obeys_give h
    (obeys_write h (makeRequest apndp rnw addr).toUInt32 8 hs))
  rw [transfer]
  generalize ((s.write (makeRequest apndp rnw addr).toUInt32 8).turnaround).read 3 = r at hack ⊢
  split
  · split
    · have hdata := obeys_read h 32 hack
      have hparity : Obeys P false { (r.2.read 32).2 with
          io := (Io.readBit (r.2.read 32).2.io).2 } := ⟨hdata.1, h.sample hdata.2⟩
      have hback := obeys_resume h hparity
      dsimp only
      split
      · exact hback
      · exact obeys_idle h hback
    · have hdata := obeys_write h (value.getD 0) 32 (obeys_resume h hack)
      exact obeys_idle h ⟨hdata.1, h.writeBit _ hdata.2⟩
  · exact obeys_idle h (obeys_resume h hack)

theorem obeys_init (h : Discipline I P) (hs : s.Obeys P true) : s.init.Obeys P true := by
  have hreset := h.lineReset (h.writeBits (Io.bitsOf 0xE79E 16) (h.lineReset hs.2))
  exact ⟨rfl, h.writeBits _ hreset⟩

theorem obeys_writeDp (h : Discipline I P) (addr : UInt8) (val : UInt32) (hs : s.Obeys P true) :
    (Wire.writeDp addr val s).2.Obeys P true := by
  have hsent := obeys_transfer h false false addr (some val) hs
  rw [Wire.writeDp]
  change Obeys P true (Wire.transfer false false addr (some val) s).2 at hsent
  revert hsent
  rcases Wire.transfer false false addr (some val) s with ⟨_ | _, s'⟩ <;> exact id

theorem obeys_readAp (h : Discipline I P) (select addr : UInt8) (hs : s.Obeys P true) :
    (Wire.readAp select addr s).2.Obeys P true := by
  have hposted := obeys_transfer h true true addr none hs
  rw [Wire.readAp]
  change Obeys P true (Wire.transfer true true addr none s).2 at hposted
  revert hposted
  rcases Wire.transfer true true addr none s with ⟨_ | _, s'⟩
  · exact id
  · exact obeys_transfer h false true dpRdbuff none

theorem obeys_writeAp (h : Discipline I P) (select addr : UInt8) (data : UInt32)
    (hs : s.Obeys P true) : (Wire.writeAp select addr data s).2.Obeys P true := by
  have hsent := obeys_transfer h true false addr (some data) hs
  rw [Wire.writeAp]
  change Obeys P true (Wire.transfer true false addr (some data) s).2 at hsent
  revert hsent
  rcases Wire.transfer true false addr (some data) s with ⟨_ | _, s'⟩ <;> exact id

theorem keeps (h : Discipline I P) : Keeps (Swd I) (fun s => s.Obeys P true) where
  init := obeys_init h
  swjSequence _ _ hs := ⟨hs.1, h.writeBits _ hs.2⟩
  swjPins out sel wait hs := by
    change (Swd.swjPins out sel wait _).2.Obeys P true
    rw [swjPins]
    split
    · exact ⟨hs.1, h.reset out hs.2⟩
    · exact hs
  readDp a hs := obeys_transfer h false true a none hs
  writeDp := obeys_writeDp h
  readAp := obeys_readAp h
  writeAp := obeys_writeAp h

end Swd

end DapProxy.Target
