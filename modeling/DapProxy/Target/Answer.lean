import DapProxy.Target.Dap

namespace DapProxy.Target
open Checked
variable {T : Type}

structure Progress (T : Type) where
  dap : Dap T
  done : ℕ
  status : UInt8
  data : List UInt8

def parseData (read : Bool) (bytes : List UInt8) : Option (Option UInt32 × List UInt8) :=
  if read then some (none, bytes)
  else
    match bytes with
    | b0 :: b1 :: b2 :: b3 :: rest => some (some (leWord b0 b1 b2 b3), rest)
    | _ => none

def parseEntry : List UInt8 → Option (UInt8 × Option UInt32 × List UInt8)
  | [] => none
  | rb :: rest =>
      if rb &&& 0xF0 ≠ 0 then none
      else (parseData (rnw rb) rest).map (fun w => (rb, w.1, w.2))

structure Tracks (hdr buf : List UInt8) (b : Batch T) (p : Progress T) : Prop where
  dap : b.dap = p.dap
  done : b.done = p.done
  status : b.status = p.status
  resp : b.resp = overwrite (hdr ++ p.data) buf
  rpos : b.rpos = hdr.length + p.data.length

theorem fetchData_drop {req : List UInt8} {read : Bool} {pos : ℕ} {w : Option UInt32}
    {rest : List UInt8} (h : parseData read (req.drop pos) = some (w, rest)) :
    ¬(read = false ∧ req.length < pos + 4) ∧
      ∃ pos', fetchData req read pos = some (w, pos') ∧ req.drop pos' = rest := by
  cases read with
  | true =>
    simp only [parseData, if_true, Option.some.injEq, Prod.mk.injEq] at h
    exact ⟨by simp, pos, by simp [fetchData, h.1], h.2⟩
  | false =>
    simp only [parseData, Bool.false_eq_true, if_false] at h
    split at h
    · next b0 b1 b2 b3 rest' hd =>
      simp only [Option.some.injEq, Prod.mk.injEq] at h
      have hlen : req.length - pos = rest'.length + 4 := by
        simpa using congrArg List.length hd
      have hget (i : ℕ) : req[pos + i]? = (b0 :: b1 :: b2 :: b3 :: rest')[i]? := by
        rw [← hd, List.getElem?_drop]
      have h0 := hget 0
      have h1 := hget 1
      have h2 := hget 2
      have h3 := hget 3
      refine ⟨by omega, pos + 4, ?_, ?_⟩
      · simp only [Nat.add_zero, List.getElem?_cons_zero, List.getElem?_cons_succ] at h0 h1 h2 h3
        simp [fetchData, readWord, h0, h1, h2, h3, ← h.1]
      · rw [← List.drop_drop, hd, ← h.2]
        rfl
    · simp at h

theorem fetchData_short {req : List UInt8} {read : Bool} {pos : ℕ}
    (h : parseData read (req.drop pos) = none) : read = false ∧ req.length < pos + 4 := by
  cases read with
  | true => simp [parseData] at h
  | false =>
    refine ⟨rfl, ?_⟩
    by_contra hlen
    obtain ⟨b0, b1, b2, b3, rest, hd⟩ : ∃ b0 b1 b2 b3 rest,
        req.drop pos = b0 :: b1 :: b2 :: b3 :: rest := by
      have hl : 4 ≤ (req.drop pos).length := by
        rw [List.length_drop]
        omega
      match req.drop pos, hl with
      | b0 :: b1 :: b2 :: b3 :: rest, _ => exact ⟨b0, b1, b2, b3, rest, rfl⟩
    simp [parseData, hd] at h

variable [Transport T]

def Progress.perform (p : Progress T) (rb : UInt8) (wdata : Option UInt32) : Progress T × Bool :=
  match p.dap.execTransfer (apndp rb) (rnw rb) (regAddr rb) wdata with
  | (.ok (some v), d) =>
      ({ p with dap := d, done := p.done + 1, data := p.data ++ leBytes v }, true)
  | (.ok none, d) => ({ p with dap := d, done := p.done + 1 }, true)
  | (.error s, d) => ({ p with dap := d, status := s }, false)

section
variable {p : Progress T} {rb : UInt8} {w : Option UInt32} {d : Dap T}

theorem perform_read {v : UInt32}
    (h : p.dap.execTransfer (apndp rb) (rnw rb) (regAddr rb) w = (.ok (some v), d)) :
    p.perform rb w =
      ({ p with dap := d, done := p.done + 1, data := p.data ++ leBytes v }, true) := by
  simp only [Progress.perform, h]

theorem perform_error {s : UInt8}
    (h : p.dap.execTransfer (apndp rb) (rnw rb) (regAddr rb) w = (.error s, d)) :
    p.perform rb w = ({ p with dap := d, status := s }, false) := by
  simp only [Progress.perform, h]

end

def transferRun : ℕ → List UInt8 → Progress T → Progress T
  | 0, _, p => p
  | n + 1, bytes, p =>
      match parseEntry bytes with
      | none => { p with status := stProto }
      | some (rb, w, rest) =>
          if (p.perform rb w).2 then transferRun n rest (p.perform rb w).1
          else (p.perform rb w).1

def blockRun (rb : UInt8) : ℕ → List UInt8 → Progress T → Progress T
  | 0, _, p => p
  | n + 1, bytes, p =>
      match parseData (rnw rb) bytes with
      | none => { p with status := stProto }
      | some (w, rest) =>
          if (p.perform rb w).2 then blockRun rb n rest (p.perform rb w).1
          else (p.perform rb w).1

theorem length_leBytes (v : UInt32) : (leBytes v).length = 4 := rfl

theorem perform_grows (p : Progress T) (rb : UInt8) (w : Option UInt32) :
    (p.perform rb w).1.done ≤ p.done + 1 ∧
      (p.perform rb w).1.data.length ≤ p.data.length + 4 := by
  rw [Progress.perform]
  split <;> simp [length_leBytes]

theorem transferRun_grows (n : ℕ) (bytes : List UInt8) (p : Progress T) :
    (transferRun n bytes p).done ≤ p.done + n ∧
      (transferRun n bytes p).data.length ≤ p.data.length + 4 * n := by
  induction n generalizing bytes p with
  | zero => exact ⟨Nat.le_refl _, Nat.le_refl _⟩
  | succ n ih =>
    simp only [transferRun]
    split
    · exact ⟨by simp, by simp⟩
    · next rb w rest _ =>
      obtain ⟨h1, h2⟩ := perform_grows p rb w
      obtain ⟨h3, h4⟩ := ih rest (p.perform rb w).1
      split <;> constructor <;> omega

theorem blockRun_grows (rb : UInt8) (n : ℕ) (bytes : List UInt8) (p : Progress T) :
    (blockRun rb n bytes p).done ≤ p.done + n ∧
      (blockRun rb n bytes p).data.length ≤ p.data.length + 4 * n := by
  induction n generalizing bytes p with
  | zero => exact ⟨Nat.le_refl _, Nat.le_refl _⟩
  | succ n ih =>
    simp only [blockRun]
    split
    · exact ⟨by simp, by simp⟩
    · next w rest _ =>
      obtain ⟨h1, h2⟩ := perform_grows p rb w
      obtain ⟨h3, h4⟩ := ih rest (p.perform rb w).1
      split <;> constructor <;> omega

theorem perform_tracks {hdr buf : List UInt8} {b : Batch T} {p : Progress T} (limit : ℕ)
    (h : Tracks hdr buf b p) (rb : UInt8) (w : Option UInt32) (pos : ℕ) (hd : p.done < limit)
    (hl : hdr.length + p.data.length + 4 ≤ buf.length) :
    ∃ b', b.perform limit rb w pos = some (b', (p.perform rb w).2) ∧ b'.pos = pos ∧
      Tracks hdr buf b' (p.perform rb w).1 := by
  have hdone : bump limit b.done = some (p.done + 1) := by
    rw [h.done]
    exact bump_eq hd
  unfold Batch.perform Progress.perform
  rw [h.dap]
  rcases p.dap.execTransfer (apndp rb) (rnw rb) (regAddr rb) w with ⟨s | _ | v, d⟩
  · exact ⟨_, rfl, rfl, rfl, h.done, rfl, h.resp, h.rpos⟩
  · simp only [hdone, Option.bind_eq_bind, Option.bind_some]
    exact ⟨_, rfl, rfl, rfl, rfl, h.status, h.resp, h.rpos⟩
  · have hcopy : copy b.resp b.rpos (leBytes v) =
        some (overwrite (hdr ++ (p.data ++ leBytes v)) buf) := by
      rw [h.resp, h.rpos, ← List.length_append, ← List.append_assoc]
      apply copy_next _ _
      rw [List.length_append, length_leBytes]
      exact hl
    simp only [hdone, hcopy, Option.bind_eq_bind, Option.bind_some]
    refine ⟨_, rfl, rfl, rfl, rfl, h.status, rfl, ?_⟩
    simp only [h.rpos, List.length_append, length_leBytes]
    omega

theorem drop_cons {req rest : List UInt8} {pos : ℕ} {rb : UInt8} (h : req.drop pos = rb :: rest) :
    ¬req.length ≤ pos ∧ req[pos]? = some rb ∧ req.drop (pos + 1) = rest := by
  refine ⟨fun hle => ?_, ?_, ?_⟩
  · rw [List.drop_eq_nil_iff.mpr hle] at h
    cases h
  · have hget := @List.getElem?_drop _ req pos 0
    rw [h] at hget
    simpa using hget.symm
  · rw [← List.drop_drop, h]
    rfl

theorem transferLoop_tracks {hdr buf : List UInt8} (req : List UInt8) (n : ℕ) {b : Batch T}
    {p : Progress T} (h : Tracks hdr buf b p) (hd : p.done + n ≤ 255)
    (hl : hdr.length + p.data.length + 4 * n ≤ buf.length) :
    ∃ b', transferLoop req n b = some b' ∧
      Tracks hdr buf b' (transferRun n (req.drop b.pos) p) := by
  induction n generalizing b p with
  | zero => exact ⟨b, rfl, h⟩
  | succ n ih =>
    cases hr : req.drop b.pos with
    | nil =>
      have hlen : req.length ≤ b.pos := List.drop_eq_nil_iff.mp hr
      exact ⟨{ b with status := stProto }, by simp [transferLoop, hlen], h.dap, h.done, rfl,
        h.resp, h.rpos⟩
    | cons rb rest =>
      obtain ⟨hlen, hget, hrest⟩ := drop_cons hr
      simp only [transferLoop, hlen, if_false, hget, Option.bind_eq_bind, Option.bind_some,
        transferRun, parseEntry]
      by_cases hhi : rb &&& 0xF0 = 0
      · simp only [hhi, ne_eq, not_true_eq_false, if_false]
        rcases hw : parseData (rnw rb) rest with _ | ⟨w, rest'⟩
        · rw [← hrest] at hw
          rw [if_pos (fetchData_short hw)]
          exact ⟨_, rfl, h.dap, h.done, rfl, h.resp, h.rpos⟩
        · rw [← hrest] at hw
          obtain ⟨hlong, pos', hfetch, hpos'⟩ := fetchData_drop hw
          obtain ⟨b', hb', hbpos, ht⟩ := perform_tracks 255 h rb w pos' (by omega)
            (by omega)
          obtain ⟨h1, h2⟩ := perform_grows p rb w
          simp only [if_neg hlong, hfetch, Option.bind_some, hb', Option.map_some]
          split
          · obtain ⟨b'', hb'', ht'⟩ := ih ht (by omega) (by omega)
            rw [hbpos, hpos'] at ht'
            exact ⟨b'', hb'', ht'⟩
          · exact ⟨b', rfl, ht⟩
      · simp only [hhi, ne_eq, not_false_eq_true, if_true]
        exact ⟨_, rfl, h.dap, h.done, rfl, h.resp, h.rpos⟩

theorem blockLoop_tracks {hdr buf : List UInt8} (req : List UInt8) (rb : UInt8) (n : ℕ)
    {b : Batch T} {p : Progress T} (h : Tracks hdr buf b p) (hd : p.done + n ≤ 65535)
    (hl : hdr.length + p.data.length + 4 * n ≤ buf.length) :
    ∃ b', blockLoop req rb n b = some b' ∧
      Tracks hdr buf b' (blockRun rb n (req.drop b.pos) p) := by
  induction n generalizing b p with
  | zero => exact ⟨b, rfl, h⟩
  | succ n ih =>
    simp only [blockLoop, blockRun]
    rcases hw : parseData (rnw rb) (req.drop b.pos) with _ | ⟨w, rest⟩
    · rw [if_pos (fetchData_short hw)]
      exact ⟨_, rfl, h.dap, h.done, rfl, h.resp, h.rpos⟩
    · obtain ⟨hlong, pos', hfetch, hpos'⟩ := fetchData_drop hw
      obtain ⟨b', hb', hbpos, ht⟩ := perform_tracks 65535 h rb w pos' (by omega)
        (by omega)
      obtain ⟨h1, h2⟩ := perform_grows p rb w
      simp only [if_neg hlong, hfetch, Option.bind_eq_bind, Option.bind_some, hb']
      split
      · obtain ⟨b'', hb'', ht'⟩ := ih ht (by omega) (by omega)
        rw [hbpos, hpos'] at ht'
        exact ⟨b'', hb'', ht'⟩
      · exact ⟨b', rfl, ht⟩

def infoAnswer (req : List UInt8) : List UInt8 :=
  let id := req[1]?.getD 0
  if infoString id ≠ [] then UInt8.ofNat (infoString id).length :: infoString id
  else if id = 0xF0 then [1, 1]
  else if id = 0xFE then [1, 1]
  else if id = 0xFF then [2, 0, 2]
  else [0]

namespace Dap

def connectAnswer (d : Dap T) : List UInt8 × Dap T :=
  let t := (Transport.init d.transport).2
  let t := (Transport.readDp dpDpidr t).2
  let t := (Transport.writeDp dpCtrlStat (cdbgpwrupreq ||| csyspwrupreq) t).2
  let r := connectLoop 200 t
  ([if r.1 then 0x01 else 0x00], { d with transport := r.2 })

def configured (d : Dap T) : List UInt8 → Dap T
  | _ :: _ :: b0 :: b1 :: _ :: _ :: _ => { d with waitRetry := leHalf b0 b1 }
  | _ => d

def aborted (d : Dap T) : List UInt8 → Dap T
  | _ :: _ :: b0 :: b1 :: b2 :: b3 :: _ =>
      { d with transport := (Transport.writeDp dpAbort (leWord b0 b1 b2 b3) d.transport).2 }
  | _ => d

def transferAnswer (d : Dap T) : List UInt8 → List UInt8 × Dap T
  | _ :: _ :: count :: entries =>
      let p := transferRun count.toNat entries ⟨d, 0, stOk, []⟩
      (UInt8.ofNat p.done :: p.status :: p.data, p.dap)
  | _ => ([0, stProto], d)

def blockAnswer (d : Dap T) : List UInt8 → List UInt8 × Dap T
  | _ :: _ :: b0 :: b1 :: rb :: words =>
      if rb &&& 0xF0 ≠ 0 then ([0, 0, stProto], d)
      else
        let p := blockRun rb (min (leHalf b0 b1).toNat 255) words ⟨d, 0, stOk, []⟩
        let done := UInt16.ofNat p.done
        (done.toUInt8 :: (done >>> 8).toUInt8 :: p.status :: p.data, p.dap)
  | _ => ([0, 0, stProto], d)

def sequenceAnswer (d : Dap T) : List UInt8 → List UInt8 × Dap T
  | _ :: bits :: data =>
      let nbytes := (bits.toNat + 7) / 8
      if data.length < nbytes then ([0xFF], d)
      else
        ([0x00], { d with
          transport := (Transport.swjSequence bits (data.take nbytes) d.transport).2 })
  | _ => ([0xFF], d)

def pinsAnswer (d : Dap T) : List UInt8 → List UInt8 × Dap T
  | _ :: out :: sel :: _ :: _ :: _ :: b0 :: b1 :: b2 :: b3 :: _ =>
      let r := Transport.swjPins out sel (leWord b0 b1 b2 b3) d.transport
      ([match r.1 with | .ok pins => pins | .error _ => 0x00], { d with transport := r.2 })
  | _ => ([0xFF], d)

def answer (d : Dap T) (req : List UInt8) : List UInt8 × Dap T :=
  match req with
  | [] => ([0xFF], d)
  | id :: _ =>
      if id = idInfo then (id :: infoAnswer req, d)
      else if id = idConnect then (id :: d.connectAnswer.1, d.connectAnswer.2)
      else if id = idDisconnect then ([id, 0x00], d)
      else if id = idHostStatus then ([id, 0x00], d)
      else if id = idTransferConfig then ([id, 0x00], d.configured req)
      else if id = idTransfer then (id :: (d.transferAnswer req).1, (d.transferAnswer req).2)
      else if id = idTransferBlock then (id :: (d.blockAnswer req).1, (d.blockAnswer req).2)
      else if id = idWriteAbort then ([id, 0x00], d.aborted req)
      else if id = idSwjPins then (id :: (d.pinsAnswer req).1, (d.pinsAnswer req).2)
      else if id = idSwjClock then ([id, 0x00], d)
      else if id = idSwdConfigure then ([id, 0x00], d)
      else if id = idSwjSequence then
        (id :: (d.sequenceAnswer req).1, (d.sequenceAnswer req).2)
      else ([id, 0xFF], d)

theorem length_infoString (id : UInt8) : (infoString id).length ≤ 15 := by
  rw [infoString]
  split
  · decide
  · split
    · decide
    · split <;> decide

omit [Transport T] in
theorem dapInfo_writes (d : Dap T) (req : List UInt8) :
    Writes (d.dapInfo req) 1023 (infoAnswer req) d := by
  intro buf hb
  have hid : (if 1 < req.length then req[1]? else some 0) = some (req[1]?.getD 0) := by
    by_cases h : 1 < req.length
    · rw [if_pos h, List.getElem?_eq_getElem h, Option.getD_some]
    · rw [if_neg h, List.getElem?_eq_none (by omega), Option.getD_none]
  simp only [dapInfo, hid, Option.bind_eq_bind, Option.bind_some, infoAnswer]
  generalize req[1]?.getD 0 = id
  by_cases hs : infoString id = []
  · simp only [hs, ne_eq, not_true_eq_false, if_false]
    split
    · simp [put_front, put_second, hb]
    · split
      · simp [put_front, put_second, hb]
      · split
        · simp [put_front, put_second, put_third, hb]
        · simp [put_front, hb]
  · have hl := length_infoString id
    have hcopy := @copy_next _ [UInt8.ofNat (infoString id).length] buf
      (infoString id) (by rw [List.length_singleton]; omega)
    simp only [List.length_singleton, List.singleton_append] at hcopy
    simp only [ne_eq, hs, not_false_eq_true, if_true]
    rw [put_front _ (by omega), Option.bind_some, hcopy, Option.bind_some, List.length_cons,
      Nat.add_comm]

theorem dapConnect_writes (d : Dap T) :
    Writes d.dapConnect 1023 d.connectAnswer.1 d.connectAnswer.2 := by
  intro buf hb
  simp [dapConnect, connectAnswer, put_front, hb]

omit [Transport T] in
theorem dapTransferConfig_writes (d : Dap T) (req : List UInt8) :
    Writes (d.dapTransferConfig req) 1023 [0x00] (d.configured req) := by
  intro buf hb
  rw [dapTransferConfig, put_front _ (by omega)]
  match req with
  | [] | [_] | [_, _] | [_, _, _] | [_, _, _, _] | [_, _, _, _, _] => rfl
  | _ :: _ :: _ :: _ :: _ :: _ :: rest =>
    simp [configured]

theorem dapWriteAbort_writes (d : Dap T) (req : List UInt8) :
    Writes (d.dapWriteAbort req) 1023 [0x00] (d.aborted req) := by
  intro buf hb
  rw [dapWriteAbort, put_front _ (by omega)]
  match req with
  | [] | [_] | [_, _] | [_, _, _] | [_, _, _, _] | [_, _, _, _, _] => rfl
  | _ :: _ :: _ :: _ :: _ :: _ :: rest =>
    simp [aborted, readWord]

theorem dapTransfer_writes (d : Dap T) (req : List UInt8) :
    Writes (d.dapTransfer req) 1023 (d.transferAnswer req).1 (d.transferAnswer req).2 := by
  intro buf hb
  match req with
  | [] | [_] | [_, _] =>
    simp [dapTransfer, transferAnswer, put_front, put_second, hb]
  | r0 :: r1 :: count :: entries =>
    obtain ⟨h0, h1, hbuf⟩ := front_two (show 2 ≤ buf.length by omega)
    have hlt := count.toNat_lt
    have hstart : Tracks [h0, h1] buf ⟨d, buf, 3, 2, 0, stOk⟩ ⟨d, 0, stOk, []⟩ :=
      ⟨rfl, rfl, rfl, hbuf.symm, rfl⟩
    obtain ⟨b, hrun, ht⟩ := transferLoop_tracks (r0 :: r1 :: count :: entries) count.toNat hstart
      (by simp only [Nat.zero_add]; omega) (by simp [hb]; omega)
    have hdata := (transferRun_grows count.toNat entries ⟨d, 0, stOk, []⟩).2
    simp only [List.drop_succ_cons, List.drop_zero] at ht
    simp only [List.length_nil, Nat.zero_add] at hdata
    rw [dapTransfer, if_neg (by simp), transferAnswer]
    simp only [List.getElem?_cons_succ, List.getElem?_cons_zero, Option.bind_eq_bind,
      Option.bind_some, hrun, ht.resp, ht.rpos, ht.done, ht.status, ht.dap]
    revert hdata
    generalize transferRun count.toNat entries ⟨d, 0, stOk, []⟩ = p
    intro hdata
    have hfit (x y : UInt8) : (x :: y :: p.data).length ≤ buf.length := by
      simp only [List.length_cons]
      omega
    have hput0 : put (overwrite ([h0, h1] ++ p.data) buf) 0 (UInt8.ofNat p.done) =
        some (overwrite (UInt8.ofNat p.done :: h1 :: p.data) buf) :=
      put_within _ (by simp) (hfit h0 h1)
    have hput1 : put (overwrite (UInt8.ofNat p.done :: h1 :: p.data) buf) 1 p.status =
        some (overwrite (UInt8.ofNat p.done :: p.status :: p.data) buf) :=
      put_within _ (by simp) (hfit _ h1)
    rw [hput0, Option.bind_some, hput1, Option.bind_some]
    simp only [List.length_cons, List.length_nil, Nat.zero_add]
    rw [Nat.add_comm]

theorem dapTransferBlock_writes (d : Dap T) (req : List UInt8) :
    Writes (d.dapTransferBlock req) 1023 (d.blockAnswer req).1 (d.blockAnswer req).2 := by
  intro buf hb
  match req with
  | [] | [_] | [_, _] | [_, _, _] | [_, _, _, _] =>
    simp [dapTransferBlock, blockAnswer, copy_front, hb]
  | r0 :: r1 :: b0 :: b1 :: rb :: words =>
    have hroom : sub buf.length 3 = some 1020 := by simp [sub, hb]
    simp only [dapTransferBlock, List.length_cons, List.getElem?_cons_succ,
      List.getElem?_cons_zero, Option.bind_eq_bind, Option.bind_some, hroom]
    rw [if_neg (by omega)]
    by_cases hrb : rb &&& 0xF0 = 0
    · obtain ⟨h0, h1, h2, hbuf⟩ := front_three (show 3 ≤ buf.length by omega)
      have hstart : Tracks [h0, h1, h2] buf ⟨d, buf, 5, 3, 0, stOk⟩ ⟨d, 0, stOk, []⟩ :=
        ⟨rfl, rfl, rfl, hbuf.symm, rfl⟩
      obtain ⟨b, hrun, ht⟩ := blockLoop_tracks (r0 :: r1 :: b0 :: b1 :: rb :: words) rb
        (min (leHalf b0 b1).toNat 255) hstart (by simp only [Nat.zero_add]; omega)
        (by simp [hb]; omega)
      have hdata := (blockRun_grows rb (min (leHalf b0 b1).toNat 255) words ⟨d, 0, stOk, []⟩).2
      simp only [List.drop_succ_cons, List.drop_zero] at ht
      simp only [List.length_nil, Nat.zero_add] at hdata
      rw [if_neg (by simpa using hrb), blockAnswer, if_neg (by simpa using hrb)]
      simp only [hrun, Option.bind_some, ht.resp, ht.rpos, ht.done, ht.status, ht.dap]
      revert hdata
      generalize blockRun rb (min (leHalf b0 b1).toNat 255) words ⟨d, 0, stOk, []⟩ = p
      intro hdata
      have hfit (x y z : UInt8) : (x :: y :: z :: p.data).length ≤ buf.length := by
        simp only [List.length_cons]
        omega
      have hcopy (x y : UInt8) : copy (overwrite ([h0, h1, h2] ++ p.data) buf) 0 [x, y] =
          some (overwrite (x :: y :: h2 :: p.data) buf) :=
        copy_first [x, y] (by simp) (hfit h0 h1 h2)
      have hput (x y : UInt8) : put (overwrite (x :: y :: h2 :: p.data) buf) 2 p.status =
          some (overwrite (x :: y :: p.status :: p.data) buf) :=
        put_within _ (by simp) (hfit x y h2)
      rw [hcopy, Option.bind_some, hput, Option.bind_some]
      simp only [List.length_cons, List.length_nil, Nat.zero_add]
      rw [Nat.add_comm]
    · simp [blockAnswer, hrb, copy_front, hb]

omit [Transport T] in
theorem dapSwjClock_writes (d : Dap T) : Writes d.dapSwjClock 1023 [0x00] d := by
  intro buf hb
  simp [dapSwjClock, put_front, hb]

theorem dapSwjSequence_writes (d : Dap T) (req : List UInt8) :
    Writes (d.dapSwjSequence req) 1023 (d.sequenceAnswer req).1 (d.sequenceAnswer req).2 := by
  intro buf hb
  match req with
  | [] | [_] => simp [dapSwjSequence, sequenceAnswer, put_front, hb]
  | r0 :: bits :: data =>
    by_cases hd : data.length < (bits.toNat + 7) / 8
    · have hs : data.length + 1 + 1 < 2 + (bits.toNat + 7) / 8 := by omega
      simp [dapSwjSequence, sequenceAnswer, put_front, hb, hd, hs]
    · have hs : ¬data.length + 1 + 1 < 2 + (bits.toNat + 7) / 8 := by omega
      simp [dapSwjSequence, sequenceAnswer, put_front, hb, hd, hs]

theorem dapSwjPins_writes (d : Dap T) (req : List UInt8) :
    Writes (d.dapSwjPins req) 1023 (d.pinsAnswer req).1 (d.pinsAnswer req).2 := by
  intro buf hb
  match req with
  | [] | [_] | [_, _] | [_, _, _] | [_, _, _, _] | [_, _, _, _, _] | [_, _, _, _, _, _]
  | [_, _, _, _, _, _, _] | [_, _, _, _, _, _, _, _] | [_, _, _, _, _, _, _, _, _] =>
    simp [dapSwjPins, pinsAnswer, put_front, hb]
  | _ :: out :: sel :: _ :: _ :: _ :: b0 :: b1 :: b2 :: b3 :: rest =>
    have hlong : ¬rest.length + 10 < 10 := by omega
    have hfront (x : UInt8) : put buf 0 x = some (overwrite [x] buf) := put_front x (by omega)
    simp only [dapSwjPins, pinsAnswer, List.length_cons, Nat.add_assoc, Nat.reduceAdd,
      if_neg hlong]
    exact congrArg (fun r : Option (List UInt8) => r.bind fun resp => some (1, resp, _)) (hfront _)

omit [Transport T] in
theorem ite_reply {c : Prop} [Decidable c] {buf : List UInt8} {x y : Option (Reply T)}
    {a b : List UInt8 × Dap T} (hx : x = some (a.1.length, overwrite a.1 buf, a.2))
    (hy : y = some (b.1.length, overwrite b.1 buf, b.2)) :
    (if c then x else y) = some ((if c then a else b).1.length,
      overwrite (if c then a else b).1 buf, (if c then a else b).2) := by
  split
  · exact hx
  · exact hy

theorem handle_writes (d : Dap T) (req : List UInt8) :
    Writes (d.handle req) 1024 (d.answer req).1 (d.answer req).2 := by
  intro buf hb
  cases req with
  | nil => simp [handle, answer, put_front, hb]
  | cons id rest =>
    have hack (st : UInt8) :
        d.ack st (overwrite [id] buf) = some ([id, st].length, overwrite [id, st] buf, d) := by
      rw [ack, put_second id st (by omega)]
      rfl
    rw [handle, put_front id (by omega), answer]
    simp only [Option.bind_eq_bind, Option.bind_some, hack, (d.dapInfo_writes _).tail id hb,
      (d.dapConnect_writes).tail id hb, (d.dapTransferConfig_writes _).tail id hb,
      (d.dapTransfer_writes _).tail id hb, (d.dapTransferBlock_writes _).tail id hb,
      (d.dapWriteAbort_writes _).tail id hb, (d.dapSwjPins_writes _).tail id hb,
      (d.dapSwjClock_writes).tail id hb, (d.dapSwjSequence_writes _).tail id hb]
    iterate 12 refine ite_reply rfl ?_
    rfl

theorem length_infoAnswer (req : List UInt8) : (infoAnswer req).length ≤ 16 := by
  have hl := length_infoString (req[1]?.getD 0)
  unfold infoAnswer
  dsimp only
  split_ifs
  · rw [List.length_cons]
    omega
  all_goals decide

theorem length_transferAnswer (d : Dap T) (req : List UInt8) :
    (d.transferAnswer req).1.length ≤ 1022 := by
  match req with
  | [] | [_] | [_, _] => simp [transferAnswer]
  | _ :: _ :: count :: entries =>
    have hlt := count.toNat_lt
    have hdata := (transferRun_grows count.toNat entries ⟨d, 0, stOk, []⟩).2
    simp only [List.length_nil, Nat.zero_add] at hdata
    simp only [transferAnswer, List.length_cons]
    omega

theorem length_blockAnswer (d : Dap T) (req : List UInt8) :
    (d.blockAnswer req).1.length ≤ 1023 := by
  match req with
  | [] | [_] | [_, _] | [_, _, _] | [_, _, _, _] => simp [blockAnswer]
  | _ :: _ :: b0 :: b1 :: rb :: words =>
    have hdata :=
      (blockRun_grows rb (min (leHalf b0 b1).toNat 255) words ⟨d, 0, stOk, []⟩).2
    simp only [List.length_nil, Nat.zero_add] at hdata
    rw [blockAnswer]
    split
    · simp
    · simp only [List.length_cons]
      omega

theorem length_sequenceAnswer (d : Dap T) (req : List UInt8) :
    (d.sequenceAnswer req).1.length = 1 := by
  unfold sequenceAnswer
  split
  · dsimp only
    split <;> rfl
  · rfl

theorem length_pinsAnswer (d : Dap T) (req : List UInt8) :
    (d.pinsAnswer req).1.length = 1 := by
  unfold pinsAnswer
  split <;> rfl

def Fits (a : List UInt8 × Dap T) : Prop := 1 ≤ a.1.length ∧ a.1.length ≤ 1024

omit [Transport T] in
theorem fits_cons (x : UInt8) {out : List UInt8} (d : Dap T) (h : out.length ≤ 1023) :
    Fits (x :: out, d) := by
  constructor <;> simp only [List.length_cons] <;> omega

omit [Transport T] in
theorem ite_fits {c : Prop} [Decidable c] {a b : List UInt8 × Dap T} (ha : Fits a) (hb : Fits b) :
    Fits (if c then a else b) := by
  split
  · exact ha
  · exact hb

theorem answer_fits (d : Dap T) (req : List UInt8) : Fits (d.answer req) := by
  cases req with
  | nil => exact fits_cons _ d (by simp)
  | cons id rest =>
    have hinfo := length_infoAnswer (id :: rest)
    have htransfer := length_transferAnswer d (id :: rest)
    have hblock := length_blockAnswer d (id :: rest)
    have hsequence := length_sequenceAnswer d (id :: rest)
    have hpins := length_pinsAnswer d (id :: rest)
    have hone (x : UInt8) : [x].length ≤ 1023 := by simp
    rw [answer]
    apply ite_fits (fits_cons id _ (by omega))
    apply ite_fits (fits_cons id _ (hone _))
    apply ite_fits (fits_cons id _ (hone _))
    apply ite_fits (fits_cons id _ (hone _))
    apply ite_fits (fits_cons id _ (hone _))
    apply ite_fits (fits_cons id _ (by omega))
    apply ite_fits (fits_cons id _ hblock)
    apply ite_fits (fits_cons id _ (hone _))
    apply ite_fits (fits_cons id _ (by omega))
    apply ite_fits (fits_cons id _ (hone _))
    apply ite_fits (fits_cons id _ (hone _))
    exact ite_fits (fits_cons id _ (by omega)) (fits_cons id _ (hone _))

end Dap

end DapProxy.Target
