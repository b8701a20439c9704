import DapProxy.Memory.Loops
import DapProxy.Target.Serve

namespace DapProxy.Target
open Checked Loops
variable {T : Type} [Transport T]

def transferStep (req : List UInt8) (b : Batch T) : Option (Batch T × Bool) :=
  if req.length ≤ b.pos then some ({ b with status := stProto }, false)
  else do
    let rb ← req[b.pos]?
    if rb &&& 0xF0 ≠ 0 then some ({ b with pos := b.pos + 1, status := stProto }, false)
    else if rnw rb = false ∧ req.length < b.pos + 1 + 4 then
      some ({ b with pos := b.pos + 1, status := stProto }, false)
    else do
      let w ← fetchData req (rnw rb) (b.pos + 1)
      b.perform 255 rb w.1 w.2

def blockStep (req : List UInt8) (rb : UInt8) (b : Batch T) : Option (Batch T × Bool) :=
  if rnw rb = false ∧ req.length < b.pos + 4 then some ({ b with status := stProto }, false)
  else do
    let w ← fetchData req (rnw rb) b.pos
    b.perform 65535 rb w.1 w.2

theorem transferLoop_eq (req : List UInt8) (n : ℕ) (b : Batch T) :
    transferLoop req n b = iterate (transferStep req) n b := by
  induction n generalizing b with
  | zero => rfl
  | succ n ih =>
    simp only [transferLoop, iterate, transferStep]
    split
    · rfl
    · cases req[b.pos]? with
      | none => rfl
      | some rb =>
        simp only [Option.bind_eq_bind, Option.bind_some]
        split
        · rfl
        · split
          · rfl
          · simp only [ih, Option.bind_assoc]

theorem blockLoop_eq (req : List UInt8) (rb : UInt8) (n : ℕ) (b : Batch T) :
    blockLoop req rb n b = iterate (blockStep req rb) n b := by
  induction n generalizing b with
  | zero => rfl
  | succ n ih =>
    simp only [blockLoop, iterate, blockStep]
    split
    · rfl
    · simp only [Option.bind_eq_bind, ih, Option.bind_assoc]

structure Batch.Headroom (limit : ℕ) (b : Batch T) : Prop where
  done : b.done < limit
  rpos : b.rpos + 4 < 4294967296
  pos : b.pos + 5 < 4294967296

structure Batch.Within (pos rpos done : ℕ) (b : Batch T) : Prop where
  pos : b.pos ≤ pos
  rpos : b.rpos ≤ rpos
  done : b.done ≤ done

theorem bump_some {limit n m : ℕ} (h : bump limit n = some m) : m = n + 1 := by
  unfold bump at h
  split at h
  · exact (Option.some.inj h).symm
  · cases h

theorem perform_within {limit : ℕ} {b b' : Batch T} {rb : UInt8} {w : Option UInt32} {pos : ℕ}
    {more : Bool} (h : b.perform limit rb w pos = some (b', more)) :
    b'.Within pos (b.rpos + 4) (b.done + 1) := by
  unfold Batch.perform at h
  split at h
  · obtain ⟨resp, -, h⟩ := Option.bind_eq_some_iff.mp h
    obtain ⟨done, hd, h⟩ := Option.bind_eq_some_iff.mp h
    simp only [Option.some.injEq, Prod.mk.injEq] at h
    rw [← h.1]
    exact ⟨Nat.le_refl _, Nat.le_refl _, Nat.le_of_eq (bump_some hd)⟩
  · obtain ⟨done, hd, h⟩ := Option.bind_eq_some_iff.mp h
    simp only [Option.some.injEq, Prod.mk.injEq] at h
    rw [← h.1]
    exact ⟨Nat.le_refl _, Nat.le_add_right _ _, Nat.le_of_eq (bump_some hd)⟩
  · simp only [Option.some.injEq, Prod.mk.injEq] at h
    rw [← h.1]
    exact ⟨Nat.le_refl _, Nat.le_add_right _ _, Nat.le_succ _⟩

theorem fetchData_pos {req : List UInt8} {read : Bool} {pos : ℕ} {w : Option UInt32 × ℕ}
    (h : fetchData req read pos = some w) : w.2 ≤ pos + 4 := by
  unfold fetchData at h
  split at h
  · simp only [Option.some.injEq] at h
    rw [← h]
    exact Nat.le_add_right _ _
  · obtain ⟨v, -, rfl⟩ := Option.map_eq_some_iff.mp h
    exact Nat.le_refl _

theorem transferStep_within {req : List UInt8} {b b' : Batch T}
    (h : transferStep req b = some (b', true)) :
    b'.Within (b.pos + 5) (b.rpos + 4) (b.done + 1) := by
  unfold transferStep at h
  split at h
  · cases h
  · cases hrb : req[b.pos]? with
    | none => simp [hrb] at h
    | some rb =>
      simp only [hrb, Option.bind_eq_bind, Option.bind_some] at h
      split at h
      · cases h
      · split at h
        · cases h
        · obtain ⟨w, hw, hp⟩ := Option.bind_eq_some_iff.mp h
          have hin := perform_within hp
          have hpos := fetchData_pos hw
          exact ⟨Nat.le_trans hin.pos (by omega), hin.rpos, hin.done⟩

theorem blockStep_within {req : List UInt8} {rb : UInt8} {b b' : Batch T}
    (h : blockStep req rb b = some (b', true)) :
    b'.Within (b.pos + 4) (b.rpos + 4) (b.done + 1) := by
  unfold blockStep at h
  split at h
  · cases h
  · obtain ⟨w, hw, hp⟩ := Option.bind_eq_some_iff.mp h
    have hin := perform_within hp
    exact ⟨Nat.le_trans hin.pos (fetchData_pos hw), hin.rpos, hin.done⟩

omit [Transport T] in
theorem visits_within {step : Batch T → Option (Batch T × Bool)} {stride : ℕ}
    (hstep : ∀ b b', step b = some (b', true) →
      b'.Within (b.pos + stride) (b.rpos + 4) (b.done + 1))
    {start b : Batch T} {k : ℕ} (h : Visits step start k b) :
    b.Within (start.pos + stride * k) (start.rpos + 4 * k) (start.done + k) := by
  induction h with
  | start => exact ⟨Nat.le_refl _, Nat.le_refl _, Nat.le_refl _⟩
  | next _ hs ih =>
    obtain ⟨hpos, hrpos, hdone⟩ := hstep _ _ hs
    obtain ⟨ihpos, ihrpos, ihdone⟩ := ih
    exact ⟨by rw [Nat.mul_succ]; omega, by omega, by omega⟩

theorem transfer_headroom {req resp : List UInt8} {d : Dap T} {b : Batch T} {k : ℕ} (hk : k < 255)
    (h : Visits (transferStep req) ⟨d, resp, 3, 2, 0, stOk⟩ k b) : b.Headroom 255 := by
  obtain ⟨hpos, hrpos, hdone⟩ := visits_within (fun _ _ => transferStep_within) h
  simp only [Nat.zero_add] at hpos hrpos hdone
  constructor <;> omega

theorem block_headroom {req resp : List UInt8} {rb : UInt8} {d : Dap T} {b : Batch T} {k : ℕ}
    (hk : k < 255) (h : Visits (blockStep req rb) ⟨d, resp, 5, 3, 0, stOk⟩ k b) :
    b.Headroom 65535 := by
  obtain ⟨hpos, hrpos, hdone⟩ := visits_within (fun _ _ => blockStep_within) h
  simp only [Nat.zero_add] at hpos hrpos hdone
  constructor <;> omega

namespace Dap

def execStep (ap read : Bool) (a : UInt8) (wdata : Option UInt32) (s : Dap T × UInt32) :
    Option ((Dap T × UInt32) × Bool) :=
  match attempt ap read a wdata s.1.transport with
  | (.ok _, t) => some (({ s.1 with transport := t }, s.2), false)
  | (.error e, t) =>
      let f := failure { s.1 with transport := t } e
      if f.1 = stWait ∧ f.2.retries s.2 = true then some ((f.2, s.2 + 1), true)
      else some ((f.2, s.2), false)

section
variable {ap read : Bool} {a : UInt8} {wdata : Option UInt32}

theorem execStep_again {s s' : Dap T × UInt32}
    (h : execStep ap read a wdata s = some (s', true)) :
    execLoop ap read a wdata s.1 s.2 = execLoop ap read a wdata s'.1 s'.2 ∧
      s.2.toNat % 65536 < 128 ∧ s'.2.toNat = s.2.toNat + 1 := by
  unfold execStep at h
  split at h
  · cases h
  · next e t ha =>
    dsimp only at h
    split at h
    · next hw =>
      simp only [Option.some.injEq, Prod.mk.injEq, and_true] at h
      obtain ⟨hlt, hsucc⟩ := retries_succ hw.2
      rw [← h]
      exact ⟨execLoop_again ha hw, hlt, hsucc⟩
    · cases h

theorem exec_visits {d : Dap T} {s : Dap T × UInt32} {k : ℕ}
    (h : Visits (execStep ap read a wdata) (d, 0) k s) :
    execTransfer d ap read a wdata = execLoop ap read a wdata s.1 s.2 ∧ s.2.toNat = k ∧
      k ≤ 128 := by
  induction h with
  | start => exact ⟨rfl, rfl, Nat.zero_le _⟩
  | next _ hs ih =>
    obtain ⟨hloop, hlt, hsucc⟩ := execStep_again hs
    obtain ⟨ihloop, ihtries, ihle⟩ := ih
    exact ⟨ihloop.trans hloop, by omega, by omega⟩

end

omit [Transport T] in
theorem ite_head {c : Prop} [Decidable c] {x y : List UInt8 × Dap T} {id : UInt8}
    (hx : x.1[0]? = some id) (hy : y.1[0]? = some id) : (if c then x else y).1[0]? = some id := by
  split
  · exact hx
  · exact hy

theorem answer_echoes (d : Dap T) (req : List UInt8) :
    (d.answer req).1[0]? = some (req.headD 0xFF) := by
  cases req with
  | nil => rfl
  | cons id rest =>
    rw [answer]
    iterate 12 refine ite_head rfl ?_
    rfl

theorem handle_echoes (d : Dap T) (req : List UInt8) (resp : RespBuffer) :
    ∃ n out d', d.handle req resp.1 = some (n, out, d') ∧ 1 ≤ n ∧ n ≤ 1024 ∧
      out.length = 1024 ∧ out[0]? = some (req.headD 0xFF) := by
  obtain ⟨hpos, hle⟩ := d.answer_fits req
  refine ⟨_, _, _, d.handle_writes req resp.1 resp.2, hpos, hle, ?_, ?_⟩
  · rw [length_overwrite (hle.trans_eq resp.2.symm), resp.2]
  · rw [overwrite, List.getElem?_append_left hpos, answer_echoes]

theorem handle_never_panics (d : Dap T) (req : List UInt8) (resp : RespBuffer) :
    (∃ n out d', d.handle req resp.1 = some (n, out, d') ∧ 1 ≤ n ∧ n ≤ 1024 ∧
        out.length = 1024 ∧ out[0]? = some (req.headD 0xFF)) ∧
      (∀ count, req[2]? = some count → ∀ k < count.toNat, ∀ b : Batch T,
        Visits (transferStep req) ⟨d, resp.1.tail, 3, 2, 0, stOk⟩ k b →
          transferLoop req count.toNat ⟨d, resp.1.tail, 3, 2, 0, stOk⟩ =
            transferLoop req (count.toNat - k) b ∧ b.Headroom 255) ∧
      (∀ b0 b1 rb, req[2]? = some b0 → req[3]? = some b1 → req[4]? = some rb →
        let count := min (leHalf b0 b1).toNat 255
        ∀ k < count, ∀ b : Batch T,
          Visits (blockStep req rb) ⟨d, resp.1.tail, 5, 3, 0, stOk⟩ k b →
            blockLoop req rb count ⟨d, resp.1.tail, 5, 3, 0, stOk⟩ =
              blockLoop req rb (count - k) b ∧ b.Headroom 65535) ∧
      ∀ ap read a wdata, ∀ e : Dap T, ∀ k s, Visits (execStep ap read a wdata) (e, 0) k s →
        e.execTransfer ap read a wdata = execLoop ap read a wdata s.1 s.2 ∧ s.2.toNat = k ∧
          s.2.toNat + 1 < 4294967296 := by
  refine ⟨d.handle_echoes req resp, ?_, ?_, fun ap read a wdata e k s hs => ?_⟩
  · intro count _ k hk b hb
    have hlt := count.toNat_lt
    refine ⟨?_, transfer_headroom (by omega) hb⟩
    rw [transferLoop_eq, transferLoop_eq, ← iterate_visits hb, Nat.add_sub_cancel' (by omega)]
  · intro b0 b1 rb _ _ _ count k hk b hb
    refine ⟨?_, block_headroom (by omega) hb⟩
    rw [blockLoop_eq, blockLoop_eq, ← iterate_visits hb, Nat.add_sub_cancel' (by omega)]
  · obtain ⟨hloop, htries, hle⟩ := exec_visits hs
    exact ⟨hloop, htries, by omega⟩

end Dap

end DapProxy.Target
