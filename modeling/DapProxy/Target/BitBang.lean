import DapProxy.Target.Discipline
import Mathlib.Data.List.Basic

namespace DapProxy.Target

inductive Pin where
  | clk (high : Bool)
  | data (high : Bool)
  | enable (output : Bool)
  | reset (high : Bool)
  | nop
  deriving DecidableEq, Repr

structure BitBangIo where
  delay : UInt32
  reset : Option Bool
  line : ℕ → Bool
  clk : Bool
  level : Bool
  output : Bool
  trace : List Pin

namespace BitBangIo

def defaultDelay : UInt32 := 20

def new (line : ℕ → Bool) (delay : Option UInt32) : BitBangIo :=
  ⟨delay.getD defaultDelay, none, line, false, true, true, []⟩

def withReset (io : BitBangIo) : BitBangIo :=
  { io with reset := some true, trace := io.trace ++ [.reset true] }

def nopDelay (io : BitBangIo) : BitBangIo :=
  { io with trace := io.trace ++ List.replicate io.delay.toNat .nop }

def clkHigh (io : BitBangIo) : BitBangIo :=
  nopDelay { io with clk := true, trace := io.trace ++ [.clk true] }

def clkLow (io : BitBangIo) : BitBangIo :=
  nopDelay { io with clk := false, trace := io.trace ++ [.clk false] }

instance : Io BitBangIo where
  setClkHigh := clkHigh
  setClkLow := clkLow
  setDataHigh io := { io with level := true, trace := io.trace ++ [.data true] }
  setDataLow io := { io with level := false, trace := io.trace ++ [.data false] }
  isDataHigh io := if io.output then io.level else io.line io.trace.length
  setDataOutput io := { io with output := true, trace := io.trace ++ [.enable true] }
  setDataInput io := { io with output := false, trace := io.trace ++ [.enable false] }
  clockCycle io := clkHigh (clkLow io)
  setReset high io :=
    match io.reset with
    | none => io
    | some _ => { io with reset := some high, trace := io.trace ++ [.reset high] }

end BitBangIo

def cycleOf (d : ℕ) : List Pin :=
  .clk false :: (List.replicate d .nop ++ .clk true :: List.replicate d .nop)

inductive Wave (d : ℕ) : Bool → List Pin → Prop
  | nil : Wave d true []
  | data (high : Bool) {w : List Pin} (h : Wave d true w) : Wave d true (w ++ [.data high])
  | enable (output : Bool) {b : Bool} {w : List Pin} (h : Wave d b w) :
      Wave d output (w ++ [.enable output])
  | reset (high : Bool) {w : List Pin} (h : Wave d true w) : Wave d true (w ++ [.reset high])
  | cycle {b : Bool} {w : List Pin} (h : Wave d b w) : Wave d b (w ++ cycleOf d)

def enabled (w : List Pin) : Bool :=
  w.foldl (fun on p => match p with | .enable output => output | _ => on) true

structure Settled (d : ℕ) (front back : List Pin) : Prop where
  setup : ∃ before, front = before ++ .clk false :: List.replicate d .nop
  hold : ∃ after, back = List.replicate d .nop ++ after

theorem enabled_append (v w : List Pin) : enabled (v ++ w) =
    w.foldl (fun on p => match p with | .enable output => output | _ => on) (enabled v) :=
  List.foldl_append ..

theorem settled_append {d : ℕ} {front back : List Pin} (h : Settled d front back)
    (more : List Pin) : Settled d front (back ++ more) := by
  obtain ⟨after, rfl⟩ := h.hold
  exact ⟨h.setup, after ++ more, List.append_assoc ..⟩

theorem split_append {v w front back : List Pin} {p : Pin} (h : w ++ v = front ++ p :: back) :
    (∃ middle, w = front ++ p :: middle ∧ back = middle ++ v) ∨
      ∃ before, front = w ++ before ∧ v = before ++ p :: back := by
  rcases List.append_eq_append_iff.mp h with ⟨before, hfront, hv⟩ | ⟨rest, hw, hback⟩
  · exact Or.inr ⟨before, hfront, hv⟩
  · cases rest with
    | nil => exact Or.inr ⟨[], by rw [hw, List.append_nil, List.append_nil], hback.symm⟩
    | cons q middle =>
      rw [List.cons_append, List.cons.injEq] at hback
      obtain ⟨rfl, hback⟩ := hback
      exact Or.inl ⟨middle, hw, hback⟩

theorem split_snoc {w front back : List Pin} {p q : Pin} (hne : q ≠ p)
    (h : w ++ [q] = front ++ p :: back) :
    ∃ middle, w = front ++ p :: middle ∧ back = middle ++ [q] := by
  refine (split_append h).resolve_right ?_
  rintro ⟨before, -, hv⟩
  have hmem : p ∈ [q] := by simp [hv]
  exact hne (List.mem_singleton.mp hmem).symm

theorem cycle_settled {d : ℕ} {before back : List Pin} (w : List Pin)
    (h : cycleOf d = before ++ .clk true :: back) : Settled d (w ++ before) back := by
  have hnone : Pin.clk true ∉ .clk false :: List.replicate d Pin.nop := by
    simp [List.mem_replicate]
  have hnone' : Pin.clk true ∉ List.replicate d Pin.nop := by simp [List.mem_replicate]
  rw [cycleOf, ← List.cons_append] at h
  obtain ⟨rfl, -, rfl⟩ := (List.append_cons_inj_of_notMem hnone hnone').mp h
  exact ⟨⟨w, rfl⟩, [], (List.append_nil _).symm⟩

theorem wave_settled {d : ℕ} {b : Bool} {w : List Pin} (h : Wave d b w) {front back : List Pin}
    (hw : w = front ++ .clk true :: back) : Settled d front back := by
  induction h generalizing back with
  | nil => exact absurd hw (by simp)
  | data high h ih =>
    obtain ⟨middle, hin, rfl⟩ := split_snoc Pin.noConfusion hw
    exact settled_append (ih hin) _
  | enable output h ih =>
    obtain ⟨middle, hin, rfl⟩ := split_snoc Pin.noConfusion hw
    exact settled_append (ih hin) _
  | reset high h ih =>
    obtain ⟨middle, hin, rfl⟩ := split_snoc Pin.noConfusion hw
    exact settled_append (ih hin) _
  | cycle h ih =>
    rcases split_append hw with ⟨middle, hin, rfl⟩ | ⟨before, rfl, hcycle⟩
    · exact settled_append (ih hin) _
    · exact cycle_settled _ hcycle

theorem wave_enabled {d : ℕ} {b : Bool} {w : List Pin} (h : Wave d b w) : enabled w = b := by
  induction h with
  | nil => rfl
  | data high h ih => rw [enabled_append, ih]; rfl
  | enable output h ih => rw [enabled_append]; rfl
  | reset high h ih => rw [enabled_append, ih]; rfl
  | cycle h ih =>
    rw [enabled_append, ih, cycleOf]
    have hnops (n : ℕ) (on : Bool) : (List.replicate n Pin.nop).foldl (fun on p =>
        match p with | .enable output => output | _ => on) on = on := by
      induction n with
      | zero => rfl
      | succ n ih => exact ih
    simp [List.foldl_append, hnops]

theorem wave_data {d : ℕ} {b : Bool} {w : List Pin} (h : Wave d b w) {front back : List Pin}
    {high : Bool} (hw : w = front ++ .data high :: back) : enabled front = true := by
  induction h generalizing back with
  | nil => exact absurd hw (by simp)
  | data high' h ih =>
    rcases split_append hw with ⟨middle, hin, rfl⟩ | ⟨before, rfl, hdata⟩
    · exact ih hin
    · cases before with
      | nil => rw [List.append_nil, wave_enabled h]
      | cons q before => simp at hdata
  | enable output h ih =>
    obtain ⟨middle, hin, rfl⟩ := split_snoc Pin.noConfusion hw
    exact ih hin
  | reset high h ih =>
    obtain ⟨middle, hin, rfl⟩ := split_snoc Pin.noConfusion hw
    exact ih hin
  | cycle h ih =>
    rcases split_append hw with ⟨middle, hin, rfl⟩ | ⟨before, -, hcycle⟩
    · exact ih hin
    · have hmem : Pin.data high ∈ cycleOf d := by simp [hcycle]
      simp [cycleOf, List.mem_replicate] at hmem

structure Obeyed (d : ℕ) (wired : Bool) (driving : Bool) (pins : UInt8) (io : BitBangIo) :
    Prop where
  delay : io.delay.toNat = d
  wired : io.reset.isSome = wired
  wave : Wave d driving io.trace
  output : io.output = driving
  reset : ∀ high, io.reset = some high → pins = if high then 0x80 else 0x00

theorem obeyed_clock {d : ℕ} {wired driving : Bool} {pins : UInt8} {io : BitBangIo}
    (h : Obeyed d wired driving pins io) :
    Obeyed d wired driving pins (BitBangIo.clkHigh io.clkLow) := by
  refine ⟨h.delay, h.wired, ?_, h.output, h.reset⟩
  have htrace : (BitBangIo.clkHigh io.clkLow).trace = io.trace ++ cycleOf d := by
    simp only [BitBangIo.clkHigh, BitBangIo.clkLow, BitBangIo.nopDelay, h.delay, cycleOf,
      List.append_assoc, List.singleton_append]
    rfl
  rw [htrace]
  exact h.wave.cycle

theorem reset_pins (pins out : UInt8) (h : pins = 0x80 ∨ pins = 0x00) :
    (pins &&& 0x7F) ||| (out &&& 0x80) = if out &&& 0x80 != 0 then 0x80 else 0x00 := by
  have hall : ∀ i : Fin 256, (0 : UInt8) ||| (UInt8.ofFin i &&& 0x80) =
      if UInt8.ofFin i &&& 0x80 != 0 then 0x80 else 0x00 := by
    decide +kernel
  rcases h with rfl | rfl <;> exact hall out.toFin

theorem discipline (d : ℕ) (wired : Bool) : Discipline BitBangIo (Obeyed d wired) where
  dataHigh h := ⟨h.delay, h.wired, h.wave.data true, h.output, h.reset⟩
  dataLow h := ⟨h.delay, h.wired, h.wave.data false, h.output, h.reset⟩
  clock h := obeyed_clock h
  sample h := obeyed_clock h
  release h := ⟨h.delay, h.wired, h.wave.enable false, rfl, h.reset⟩
  take h := ⟨h.delay, h.wired, h.wave.enable true, rfl, h.reset⟩
  reset := by
    intro pins io out h
    rcases hr : io.reset with _ | high
    · simp only [Io.setReset, hr]
      exact ⟨h.delay, h.wired, h.wave, h.output, fun high hh => by rw [hr] at hh; cases hh⟩
    · simp only [Io.setReset, hr]
      refine ⟨h.delay, by rw [← h.wired, hr]; rfl, h.wave.reset _, h.output, fun level hh => ?_⟩
      have hpins : pins = 0x80 ∨ pins = 0x00 := by
        rw [h.reset high hr]
        cases high
        · exact Or.inr rfl
        · exact Or.inl rfl
      rw [← Option.some.inj hh]
      exact reset_pins pins out hpins

def built (line : ℕ → Bool) (delay : Option UInt32) (wired : Bool) : Swd BitBangIo :=
  Swd.new (if wired then (BitBangIo.new line delay).withReset else .new line delay)

def sessions {T : Type} [Transport T] (t : T) : List (List (List UInt8)) → T
  | [] => t
  | reqs :: rest => sessions ((Dap.new t).after reqs).transport rest

theorem sessions_keeps {T : Type} [Transport T] {I : T → Prop} (h : Keeps T I) {t : T} (ht : I t)
    (runs : List (List (List UInt8))) : I (sessions t runs) := by
  induction runs generalizing t with
  | nil => exact ht
  | cons reqs rest ih => exact ih (Dap.after_keeps h ht reqs)

theorem built_obeys (line : ℕ → Bool) (delay : Option UInt32) (wired : Bool) :
    (built line delay wired).Obeys
      (Obeyed (delay.getD BitBangIo.defaultDelay).toNat wired) true := by
  cases wired with
  | false => exact ⟨rfl, rfl, rfl, .nil, rfl, fun high hh => by cases hh⟩
  | true => exact ⟨rfl, rfl, rfl, Wave.nil.reset true, rfl, fun high hh => by cases hh; rfl⟩

theorem edges_settled (line : ℕ → Bool) (delay : Option UInt32) (wired : Bool)
    (runs : List (List (List UInt8))) :
    let s := sessions (built line delay wired) runs
    let d := (delay.getD BitBangIo.defaultDelay).toNat
    s.driving = true ∧ s.io.output = true ∧
      (∀ front back, s.io.trace = front ++ .clk true :: back → Settled d front back) ∧
      ∀ front back high, s.io.trace = front ++ .data high :: back → enabled front = true := by
  intro s d
  have hkept := sessions_keeps (Swd.keeps (discipline d wired)) (built_obeys line delay wired) runs
  exact ⟨hkept.1, hkept.2.output, fun _ _ => wave_settled hkept.2.wave,
    fun _ _ _ => wave_data hkept.2.wave⟩

end DapProxy.Target
