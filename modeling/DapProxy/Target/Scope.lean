import DapProxy.Target.LineBits

namespace DapProxy.Target

structure Cycle where
  output : Bool
  level : Bool
  deriving DecidableEq, Repr

structure Scope where
  clk : Bool
  output : Bool
  level : Bool
  reset : Bool
  line : ℕ → Bool
  cycles : List Cycle

namespace Scope

def clkHigh (s : Scope) : Scope :=
  if s.clk then s else { s with clk := true, cycles := s.cycles ++ [⟨s.output, s.level⟩] }

def clkLow (s : Scope) : Scope := { s with clk := false }

instance : Io Scope where
  setClkHigh := clkHigh
  setClkLow := clkLow
  setDataHigh s := { s with level := true }
  setDataLow s := { s with level := false }
  isDataHigh s := if s.output then s.level else s.line s.cycles.length
  setDataOutput s := { s with output := true }
  setDataInput s := { s with output := false }
  clockCycle s := clkHigh (clkLow s)
  setReset high s := { s with reset := high }

def sampled (s : Scope) (start count : ℕ) : List Bool :=
  (List.range count).map (fun i => s.line (s.cycles.length + start + i))

theorem length_sampled (s : Scope) (start count : ℕ) : (s.sampled start count).length = count := by
  rw [sampled, List.length_map, List.length_range]

theorem sampled_snoc (s : Scope) (start count : ℕ) : s.sampled start (count + 1) =
    s.sampled start count ++ [s.line (s.cycles.length + start + count)] := by
  rw [sampled, List.range_succ, List.map_append]
  rfl

theorem sampled_cons (s : Scope) (start count : ℕ) : s.sampled start (count + 1) =
    s.line (s.cycles.length + start) :: s.sampled (start + 1) count := by
  simp only [sampled, List.range_succ_eq_map, List.map_cons, List.map_map, Nat.add_zero]
  congr 1
  apply List.map_congr_left
  intro i _
  rw [Function.comp_apply, Nat.succ_eq_add_one, Nat.add_comm i 1, Nat.add_assoc, Nat.add_assoc,
    Nat.add_assoc]

structure After (s : Scope) (output : Bool) (cycles : List Cycle) (s' : Scope) : Prop where
  output : s'.output = output
  line : s'.line = s.line
  cycles : s'.cycles = s.cycles ++ cycles

namespace After
variable {s s₁ s₂ : Scope} {o₁ o₂ : Bool} {cs ds : List Cycle}

theorem trans (h : After s o₁ cs s₁) (h' : After s₁ o₂ ds s₂) : After s o₂ (cs ++ ds) s₂ :=
  ⟨h'.output, h'.line.trans h.line, by rw [h'.cycles, h.cycles, List.append_assoc]⟩

theorem sampled (h : After s o₁ cs s₁) (start count : ℕ) :
    s₁.sampled start count = s.sampled (cs.length + start) count := by
  simp only [Scope.sampled, h.line, h.cycles, List.length_append, Nat.add_assoc]

end After

section
variable (s : Scope)

theorem after_clock : After s s.output [⟨s.output, s.level⟩] (Io.clockCycle s) := ⟨rfl, rfl, rfl⟩

theorem after_writeBit (bit : Bool) : After s s.output [⟨s.output, bit⟩] (Io.writeBit bit s) := by
  cases bit with
  | false => exact ⟨rfl, rfl, rfl⟩
  | true => exact ⟨rfl, rfl, rfl⟩

theorem after_writeBits (bits : List Bool) :
    After s s.output (bits.map (Cycle.mk s.output)) (Io.writeBits bits s) := by
  induction bits generalizing s with
  | nil => exact ⟨rfl, rfl, (List.append_nil _).symm⟩
  | cons bit bits ih =>
    have hbit := after_writeBit s bit
    have hbits := ih (Io.writeBit bit s)
    rw [hbit.output] at hbits
    exact hbit.trans hbits

end

theorem after_readBit (s : Scope) (h : s.output = false) :
    (Io.readBit s).1 = s.line s.cycles.length ∧
      After s false [⟨false, s.level⟩] (Io.readBit s).2 := by
  have hclock := after_clock s
  rw [h] at hclock
  refine ⟨?_, hclock⟩
  change (if s.output then s.level else s.line s.cycles.length) = _
  rw [h]
  rfl

theorem after_readFrom (s : Scope) (h : s.output = false) (i n : ℕ) (v : UInt32) :
    (Io.readFrom i n v s).1 = gather i (s.sampled 0 n) v ∧
      ∃ cs, After s false cs (Io.readFrom i n v s).2 ∧ cs.length = n := by
  induction n generalizing s i v with
  | zero => exact ⟨rfl, [], ⟨h, rfl, (List.append_nil _).symm⟩, rfl⟩
  | succ n ih =>
    obtain ⟨hbit, hafter⟩ := after_readBit s h
    obtain ⟨hrest, cs, hcs, hlen⟩ := ih (Io.readBit s).2 hafter.output (i + 1)
      (if (Io.readBit s).1 then v ||| 1 <<< UInt32.ofNat i else v)
    rw [hafter.sampled, hbit] at hrest
    refine ⟨?_, ⟨false, s.level⟩ :: cs, hafter.trans hcs, congrArg (· + 1) hlen⟩
    rw [Io.readFrom, sampled_cons, gather, hbit]
    exact hrest

end Scope

end DapProxy.Target
