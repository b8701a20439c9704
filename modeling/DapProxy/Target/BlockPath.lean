import DapProxy.Target.Batches

namespace DapProxy.Target
open Checked
variable {T : Type} [Transport T]

def entriesOf (rb : UInt8) (n : ℕ) (words : List UInt32) : List UInt8 :=
  if rnw rb then List.replicate n rb else words.flatMap (fun w => rb :: leBytes w)

theorem parseEntry_read {rb : UInt8} (hrb : rb &&& 0xF0 = 0) (hr : rnw rb = true)
    (rest : List UInt8) : parseEntry (rb :: rest) = some (rb, none, rest) :=
  parseEntry_bytes ⟨rb, none, hrb, hr.symm⟩ rest

theorem parseEntry_write {rb : UInt8} (hrb : rb &&& 0xF0 = 0) (hr : rnw rb = false) (w : UInt32)
    (rest : List UInt8) : parseEntry (rb :: leBytes w ++ rest) = some (rb, some w, rest) :=
  parseEntry_bytes ⟨rb, some w, hrb, hr.symm⟩ rest

theorem transferRun_reads {rb : UInt8} (hrb : rb &&& 0xF0 = 0) (hr : rnw rb = true) (n : ℕ)
    (bytes : List UInt8) (p : Progress T) :
    transferRun n (List.replicate n rb) p = blockRun rb n bytes p := by
  induction n generalizing p with
  | zero => rfl
  | succ n ih =>
    simp only [transferRun, blockRun, List.replicate_succ, parseEntry_read hrb hr, parseData, hr,
      if_true, ih]

theorem transferRun_writes {rb : UInt8} (hrb : rb &&& 0xF0 = 0) (hr : rnw rb = false) (n : ℕ)
    {words : List UInt32} (hk : words.length ≤ n) (p : Progress T) :
    transferRun n (words.flatMap fun w => rb :: leBytes w) p =
      blockRun rb n (words.flatMap leBytes) p := by
  induction n generalizing words p with
  | zero => rfl
  | succ n ih =>
    cases words with
    | nil => simp only [transferRun, blockRun, List.flatMap_nil, parseEntry, parseData, hr,
        Bool.false_eq_true, if_false]
    | cons w words =>
      have hdata (rest : List UInt8) : parseData false (leBytes w ++ rest) = some (some w, rest) :=
        parseData_bytes (some w) rest
      simp only [transferRun, blockRun, List.flatMap_cons, parseEntry_write hrb hr, hr, hdata,
        ih (Nat.le_of_succ_le_succ hk)]

theorem transferRun_entriesOf {rb : UInt8} (hrb : rb &&& 0xF0 = 0) (n : ℕ) {words : List UInt32}
    (hk : words.length ≤ n) (p : Progress T) :
    transferRun n (entriesOf rb n words) p = blockRun rb n (words.flatMap leBytes) p := by
  rw [entriesOf]
  cases hr : rnw rb with
  | true => exact transferRun_reads hrb hr n _ p
  | false => exact transferRun_writes hrb hr n hk p

def transferRequest (index count : UInt8) (entries : List UInt8) : List UInt8 :=
  idTransfer :: index :: count :: entries

def blockRequest (index : UInt8) (count : UInt16) (rb : UInt8) (words : List UInt8) : List UInt8 :=
  idTransferBlock :: index :: (leHalfBytes count ++ rb :: words)

theorem answer_transferRequest (d : Dap T) (index count : UInt8) (entries : List UInt8) :
    d.answer (transferRequest index count entries) =
      let p := transferRun count.toNat entries ⟨d, 0, stOk, []⟩
      (idTransfer :: UInt8.ofNat p.done :: p.status :: p.data, p.dap) := rfl

theorem answer_blockRequest (d : Dap T) (index : UInt8) (count : UInt16) {rb : UInt8}
    (hrb : rb &&& 0xF0 = 0) (words : List UInt8) :
    d.answer (blockRequest index count rb words) =
      let p := blockRun rb (min count.toNat 255) words ⟨d, 0, stOk, []⟩
      (idTransferBlock :: (leHalfBytes (UInt16.ofNat p.done) ++ p.status :: p.data), p.dap) := by
  change (idTransferBlock :: (d.blockAnswer (_ :: _ :: _ :: _ :: rb :: words)).1,
    (d.blockAnswer (_ :: _ :: _ :: _ :: rb :: words)).2) = _
  rw [Dap.blockAnswer, if_neg (not_not.mpr hrb), leHalf_bytes]
  rfl

theorem answer_blockRequest_refused (d : Dap T) (index : UInt8) (count : UInt16) {rb : UInt8}
    (hrb : rb &&& 0xF0 ≠ 0) (words : List UInt8) :
    d.answer (blockRequest index count rb words) =
      (idTransferBlock :: (leHalfBytes 0 ++ [stProto]), d) := by
  change (idTransferBlock :: (d.blockAnswer (_ :: _ :: _ :: _ :: rb :: words)).1,
    (d.blockAnswer (_ :: _ :: _ :: _ :: rb :: words)).2) = _
  rw [Dap.blockAnswer, if_pos hrb]
  rfl

theorem block_agrees_with_transfer (d : Dap (Recorded T)) (index index' n rb : UInt8)
    (words : List UInt32) (resp resp' : RespBuffer) (hrb : rb &&& 0xF0 = 0)
    (hk : words.length ≤ n.toNat) :
    let block := d.handleFrame (blockRequest index n.toUInt16 rb (words.flatMap leBytes)) resp
    let plain := d.handleFrame (transferRequest index' n (entriesOf rb n.toNat words)) resp'
    block.2.2 = plain.2.2 ∧ ∃ done status data,
      block.1 = idTransferBlock :: (leHalfBytes (UInt8.toUInt16 done) ++ status :: data) ∧
        plain.1 = idTransfer :: done :: status :: data := by
  intro block plain
  have hlt := n.toNat_lt
  obtain ⟨hblock, hblockDap⟩ :=
    d.handleFrame_eq (blockRequest index n.toUInt16 rb (words.flatMap leBytes)) resp
  obtain ⟨hplain, hplainDap⟩ :=
    d.handleFrame_eq (transferRequest index' n (entriesOf rb n.toNat words)) resp'
  have hcount : min n.toUInt16.toNat 255 = n.toNat := by
    rw [UInt8.toNat_toUInt16]
    omega
  rw [answer_blockRequest d index _ hrb, hcount] at hblock hblockDap
  rw [answer_transferRequest, transferRun_entriesOf hrb _ hk] at hplain hplainDap
  have hgrows := (blockRun_grows rb n.toNat (words.flatMap leBytes) ⟨d, 0, stOk, []⟩).1
  refine ⟨hblockDap.trans hplainDap.symm, _, _, _, ?_, hplain⟩
  revert hblock hgrows
  generalize blockRun rb n.toNat (words.flatMap leBytes) ⟨d, 0, stOk, []⟩ = p
  intro hblock hgrows
  have hdone : (UInt8.ofNat p.done).toUInt16 = UInt16.ofNat p.done := by
    simp only [Nat.zero_add] at hgrows
    rw [← UInt16.toNat_inj, UInt8.toNat_toUInt16, UInt8.toNat_ofNat', UInt16.toNat_ofNat']
    omega
  rw [hdone]
  exact hblock

theorem block_agrees_short_write :
    let d : Dap (Recorded Unplugged) := ⟨⟨⟨0x80⟩, []⟩, 64, 0⟩
    let n : UInt8 := 2
    let block := d.handleFrame (blockRequest 0 n.toUInt16 0x00 ([7].flatMap leBytes)) .new
    let plain := d.handleFrame (transferRequest 0 n (entriesOf 0x00 n.toNat [7])) .new
    block.2.2 = plain.2.2 ∧ ∃ done status data,
      block.1 = idTransferBlock :: (leHalfBytes (UInt8.toUInt16 done) ++ status :: data) ∧
        plain.1 = idTransfer :: done :: status :: data := by
  intro d n
  exact block_agrees_with_transfer d 0 0 n 0x00 [7] .new .new (by decide) (by decide)

theorem blockRun_ok_iff (rb : UInt8) (n : ℕ) (bytes : List UInt8) {p : Progress T}
    (hp : p.status = stOk) :
    (blockRun rb n bytes p).status = stOk ↔ (blockRun rb n bytes p).done = p.done + n := by
  induction n generalizing bytes p with
  | zero => exact iff_of_true hp rfl
  | succ n ih =>
    simp only [blockRun]
    cases hd : parseData (rnw rb) bytes with
    | none => exact iff_of_false (by decide : stProto ≠ stOk) (by simp only; omega)
    | some r =>
      obtain ⟨w, rest⟩ := r
      rcases hx : p.dap.execTransfer (apndp rb) (rnw rb) (regAddr rb) w with ⟨s | v, d⟩
      · simp only [perform_error hx, Bool.false_eq_true, if_false]
        refine iff_of_false (fun hs => ?_) (by omega)
        have hne := execLoop_not_ok (apndp rb) (rnw rb) (regAddr rb) w p.dap 0
        exact hne (by rw [← hs]; exact congrArg Prod.fst hx)
      · simp only [perform_ok hx, if_true]
        rw [ih rest (p := { p with
          dap := d, done := p.done + 1, data := p.data ++ readBytes (.ok v) }) hp]
        simp only
        omega

theorem blockRequest_reply (d : Dap T) (index : UInt8) (count : UInt16) {rb : UInt8}
    (hrb : rb &&& 0xF0 = 0) (words : List UInt8) (resp : RespBuffer) :
    ∃ done status data, (d.handleFrame (blockRequest index count rb words) resp).1 =
        idTransferBlock :: (leHalfBytes done ++ status :: data) ∧
      done.toNat ≤ min count.toNat 255 ∧ (status = stOk ↔ done.toNat = min count.toNat 255) := by
  have hout := (d.handleFrame_eq (blockRequest index count rb words) resp).1
  rw [answer_blockRequest d index count hrb] at hout
  refine ⟨_, _, _, hout, ?_⟩
  have hgrows := (blockRun_grows rb (min count.toNat 255) words ⟨d, 0, stOk, []⟩).1
  have hok := blockRun_ok_iff rb (min count.toNat 255) words (p := ⟨d, 0, stOk, []⟩) rfl
  revert hgrows hok
  generalize blockRun rb (min count.toNat 255) words ⟨d, 0, stOk, []⟩ = p
  intro hgrows hok
  simp only [Nat.zero_add] at hgrows hok
  have hdone : (UInt16.ofNat p.done).toNat = p.done := by
    rw [UInt16.toNat_ofNat']
    omega
  rw [hdone]
  exact ⟨hgrows, hok⟩

theorem block_status_ok_iff (d : Dap T) (index : UInt8) (count : UInt16) (rb : UInt8)
    (words : List UInt8) (resp : RespBuffer) :
    ∃ done status data, (d.handleFrame (blockRequest index count rb words) resp).1 =
        idTransferBlock :: (leHalfBytes done ++ status :: data) ∧
      (rb &&& 0xF0 ≠ 0 → done = 0 ∧ status = stProto) ∧
      (rb &&& 0xF0 = 0 → ¬(255 < count ∧ done = 255) → (status = stOk ↔ done = count)) := by
  have h255 : (255 : UInt16).toNat = 255 := rfl
  by_cases hrb : rb &&& 0xF0 = 0
  · obtain ⟨done, status, data, hout, hle, hok⟩ := blockRequest_reply d index count hrb words resp
    refine ⟨done, status, data, hout, fun hne => absurd hrb hne, fun _ hc => ?_⟩
    rw [UInt16.lt_iff_toNat_lt, ← UInt16.toNat_inj, h255] at hc
    rw [hok, ← UInt16.toNat_inj]
    omega
  · have hout := (d.handleFrame_eq (blockRequest index count rb words) resp).1
    rw [answer_blockRequest_refused d index count hrb] at hout
    exact ⟨0, stProto, [], hout, fun _ => ⟨rfl, rfl⟩, fun h => absurd h hrb⟩

theorem empty_block_refused :
    let r := (Dap.new (⟨0x80⟩ : Unplugged)).handleFrame (blockRequest 0 0 0x10 []) .new
    r.1 = idTransferBlock :: (leHalfBytes 0 ++ [stProto]) ∧ stProto ≠ stOk := by
  intro r
  exact ⟨(Dap.handleFrame_eq _ _ _).1, by decide⟩

theorem clamped_block_reports_ok (d : Dap T) (index : UInt8) {count : UInt16} {rb : UInt8}
    (hrb : rb &&& 0xF0 = 0) (words : List UInt8) (resp : RespBuffer) (hc : 255 < count) :
    ∃ done status data, (d.handleFrame (blockRequest index count rb words) resp).1 =
        idTransferBlock :: (leHalfBytes done ++ status :: data) ∧
      done ≠ count ∧ (done = 255 → status = stOk) := by
  have h255 : (255 : UInt16).toNat = 255 := rfl
  obtain ⟨done, status, data, hout, hle, hok⟩ := blockRequest_reply d index count hrb words resp
  rw [UInt16.lt_iff_toNat_lt, h255] at hc
  refine ⟨done, status, data, hout, fun h => ?_, fun h => hok.mpr ?_⟩
  · rw [h] at hle
    omega
  · rw [h, h255]
    omega

end DapProxy.Target
