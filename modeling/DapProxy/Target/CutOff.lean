import DapProxy.Target.BlockPath

namespace DapProxy.Target
variable {T : Type} [Transport T]

structure Item where
  rb : UInt8
  word : Option UInt32
  sized : word.isSome ↔ rnw rb = false ∨ rb &&& 0x10 ≠ 0

namespace Item

def bytes (e : Item) : List UInt8 := e.rb :: Entry.wordBytes e.word

end Item

inductive Issued where
  | transferConfigure (idle : UInt8) (waitRetry matchRetry : UInt16)
  | transfer (index : UInt8) (items : List Item) (asked : 1 ≤ items.length)
      (counted : items.length ≤ 255)
  | transferBlock (index : UInt8) (count : UInt16) (rb : UInt8) (words : List UInt32)
      (asked : count ≠ 0) (sized : words.length = if rnw rb then 0 else count.toNat)
  | writeAbort (index : UInt8) (word : UInt32)
  | swjSequence (count : UInt8) (data : List UInt8) (asked : count ≠ 0)
      (sized : data.length = (count.toNat + 7) / 8)

namespace Issued

def bytes : Issued → List UInt8
  | .transferConfigure idle waitRetry matchRetry =>
      idTransferConfig :: idle :: (leHalfBytes waitRetry ++ leHalfBytes matchRetry)
  | .transfer index items _ _ =>
      transferRequest index (UInt8.ofNat items.length) (items.flatMap Item.bytes)
  | .transferBlock index count rb words _ _ =>
      blockRequest index count rb (words.flatMap leBytes)
  | .writeAbort index word => idWriteAbort :: index :: leBytes word
  | .swjSequence count data _ _ => idSwjSequence :: count :: data

def success : Issued → UInt8
  | .transfer .. => stOk
  | .transferBlock .. => stOk
  | _ => 0x00

def statusAt : Issued → ℕ
  | .transfer .. => 2
  | .transferBlock .. => 3
  | _ => 1

end Issued

theorem parseData_short {cut missing : List UInt8} {w : UInt32}
    (h : leBytes w = cut ++ missing) (hm : missing ≠ []) : parseData false cut = none := by
  have hlen := congrArg List.length h
  have hpos := List.length_pos_iff.mpr hm
  rw [length_leBytes, List.length_append] at hlen
  match cut with
  | [] | [_] | [_, _] | [_, _, _] => rfl
  | _ :: _ :: _ :: _ :: _ =>
    simp only [List.length_cons] at hlen
    omega

theorem perform_not_ok {p p' : Progress T} {rb : UInt8} {w : Option UInt32}
    (h : p.perform rb w = (p', false)) : p'.status ≠ stOk := by
  rcases hx : p.dap.execTransfer (apndp rb) (rnw rb) (regAddr rb) w with ⟨s | v, d⟩
  · rw [perform_error hx] at h
    obtain rfl := (Prod.mk.inj h).1
    intro hs
    have hne := execLoop_not_ok (apndp rb) (rnw rb) (regAddr rb) w p.dap 0
    exact hne (by rw [← hs]; exact congrArg Prod.fst hx)
  · rw [perform_ok hx] at h
    exact Bool.noConfusion (Prod.mk.inj h).2

theorem Item.word_of_read (e : Item) (hv : e.rb &&& 0xF0 = 0) (hr : rnw e.rb = true) :
    e.word = none := by
  have hmatch : e.rb &&& 0x10 = 0 := by
    have hmask : e.rb &&& 0x10 = (e.rb &&& 0xF0) &&& 0x10 := by
      rw [UInt8.and_assoc]
      rfl
    rw [hmask, hv]
    rfl
  rw [← Option.not_isSome_iff_eq_none, e.sized, hr]
  simp only [hmatch, ne_eq, not_true_eq_false, or_false, Bool.true_eq_false, not_false_eq_true]

theorem parseEntry_cut (e : Item) {tail cut missing : List UInt8}
    (h : e.bytes ++ tail = cut ++ missing) (hm : missing ≠ []) :
    parseEntry cut = none ∨
      ∃ cut', parseEntry cut = some (e.rb, e.word, cut') ∧ tail = cut' ++ missing := by
  cases cut with
  | nil => exact Or.inl rfl
  | cons b cut =>
    obtain ⟨rfl, hrest⟩ := List.cons.inj h
    by_cases hv : e.rb &&& 0xF0 = 0
    · rw [parseEntry, if_neg (not_not.mpr hv)]
      cases hr : rnw e.rb with
      | true =>
        rw [e.word_of_read hv hr] at hrest ⊢
        exact Or.inr ⟨cut, rfl, hrest⟩
      | false =>
        obtain ⟨w, hw⟩ := Option.isSome_iff_exists.mp (e.sized.mpr (Or.inl hr))
        rw [hw] at hrest ⊢
        have hword (rest : List UInt8) :
            parseData false (leBytes w ++ rest) = some (some w, rest) :=
          parseData_bytes (some w) rest
        change leBytes w ++ tail = cut ++ missing at hrest
        rcases List.append_eq_append_iff.mp hrest with ⟨mid, rfl, htail⟩ | ⟨mid, hcut, rfl⟩
        · rw [hword]
          exact Or.inr ⟨mid, rfl, htail⟩
        · cases mid with
          | nil =>
            rw [List.append_nil] at hcut
            rw [← hcut, ← List.append_nil (leBytes w), hword]
            exact Or.inr ⟨[], rfl, rfl⟩
          | cons x mid =>
            rw [parseData_short hcut (List.cons_ne_nil x mid)]
            exact Or.inl rfl
    · rw [parseEntry, if_pos hv]
      exact Or.inl rfl

theorem transferRun_cut {items : List Item} {cut missing : List UInt8} (p : Progress T)
    (h : items.flatMap Item.bytes = cut ++ missing) (hm : missing ≠ []) :
    (transferRun items.length cut p).status ≠ stOk := by
  induction items generalizing cut p with
  | nil => exact absurd (List.append_eq_nil_iff.mp h.symm).2 hm
  | cons e items ih =>
    rw [List.flatMap_cons] at h
    rcases parseEntry_cut e h hm with hparse | ⟨cut', hparse, htail⟩
    · simp only [List.length_cons, transferRun, hparse]
      decide
    · simp only [List.length_cons, transferRun, hparse]
      rcases hp : p.perform e.rb e.word with ⟨p', _ | _⟩
      · exact perform_not_ok hp
      · exact ih p' htail

theorem length_leWords (words : List UInt32) :
    (words.flatMap leBytes).length = 4 * words.length := by
  induction words with
  | nil => rfl
  | cons w words ih =>
    rw [List.flatMap_cons, List.length_append, ih, length_leBytes, List.length_cons]
    omega

theorem blockRun_short {rb : UInt8} (hr : rnw rb = false) {n : ℕ} {bytes : List UInt8}
    (p : Progress T) (h : bytes.length < 4 * n) : (blockRun rb n bytes p).status ≠ stOk := by
  induction n generalizing bytes p with
  | zero => exact absurd h (Nat.not_lt_zero _)
  | succ n ih =>
    rcases hdata : parseData (rnw rb) bytes with _ | ⟨w, rest⟩
    · simp only [blockRun, hdata]
      decide
    · obtain ⟨hw, rfl⟩ := parseData_some hdata
      simp only [blockRun, hdata]
      rcases hp : p.perform rb w with ⟨p', _ | _⟩
      · exact perform_not_ok hp
      · refine ih p' ?_
        cases w with
        | none => exact absurd (hw.trans hr) Bool.noConfusion
        | some w =>
          rw [List.length_append, Entry.wordBytes, length_leBytes] at h
          omega

inductive Willing where
  | target

instance : Transport Willing where
  init t := (.ok (), t)
  swjSequence _ _ t := (.ok (), t)
  swjPins _ _ _ t := (.ok 0, t)
  readDp _ t := (.ok 0, t)
  writeDp _ _ t := (.ok (), t)
  readAp _ _ t := (.ok 0, t)
  writeAp _ _ _ t := (.ok (), t)

theorem perform_willing {rb : UInt8} (hr : rnw rb = false) (w : UInt32) (p : Progress Willing) :
    p.perform rb (some w) =
      ({ p with done := p.done + 1, data := p.data ++ readBytes (.ok none) }, true) := by
  have hexec : p.dap.execTransfer (apndp rb) false (regAddr rb) (some w) = (.ok none, p.dap) := by
    refine Dap.execLoop_ok ?_
    cases apndp rb <;> rfl
  rw [perform_ok (hr ▸ hexec)]

theorem blockRun_willing {rb : UInt8} (hr : rnw rb = false) {n : ℕ} {bytes : List UInt8}
    {p : Progress Willing} (hp : p.status = stOk) (h : 4 * n ≤ bytes.length) :
    (blockRun rb n bytes p).status = stOk := by
  induction n generalizing bytes p with
  | zero => exact hp
  | succ n ih =>
    match bytes with
    | [] | [_] | [_, _] | [_, _, _] =>
      simp only [List.length_cons, List.length_nil] at h
      omega
    | b0 :: b1 :: b2 :: b3 :: rest =>
      have hdata : parseData (rnw rb) (b0 :: b1 :: b2 :: b3 :: rest) =
          some (some (leWord b0 b1 b2 b3), rest) := by
        rw [hr]
        rfl
      simp only [blockRun, hdata, perform_willing hr, if_true]
      refine ih hp ?_
      simp only [List.length_cons] at h
      omega

namespace Issued

def Reported (r : Issued) (out : List UInt8) : Prop :=
  ∃ status, out[r.statusAt]? = some status ∧ status ≠ r.success

def Caught : Issued → List UInt8 → Prop
  | .transferConfigure .., _ => False
  | .transfer .., _ => True
  | .transferBlock _ _ rb .., cut => ¬(rb &&& 0xF0 = 0 ∧ 5 + 4 * 255 ≤ cut.length)
  | .writeAbort .., _ => False
  | .swjSequence .., _ => True

theorem not_reported {r : Issued} {out : List UInt8} (h : out[r.statusAt]? = some r.success) :
    ¬r.Reported out := by
  rintro ⟨status, hstatus, hne⟩
  exact hne (Option.some.inj (hstatus.symm.trans h))

section
variable {cut missing : List UInt8}

theorem transfer_reported (d : Dap T) (index : UInt8) (items : List Item)
    (asked : 1 ≤ items.length) (counted : items.length ≤ 255)
    (h : (transfer index items asked counted).bytes = cut ++ missing) (hc : cut ≠ [])
    (hm : missing ≠ []) :
    (transfer index items asked counted).Reported (d.answer cut).1 := by
  match cut with
  | [] => exact absurd rfl hc
  | [a] =>
    obtain ⟨rfl, -⟩ := List.cons.inj h
    exact ⟨stProto, rfl, (by decide : stProto ≠ stOk)⟩
  | [a, b] =>
    obtain ⟨rfl, -⟩ := List.cons.inj h
    exact ⟨stProto, rfl, (by decide : stProto ≠ stOk)⟩
  | a :: b :: c :: cut =>
    simp only [bytes, transferRequest, List.cons_append, List.cons.injEq] at h
    obtain ⟨rfl, rfl, rfl, hitems⟩ := h
    have hn : (UInt8.ofNat items.length).toNat = items.length := by
      rw [UInt8.toNat_ofNat']
      omega
    change Reported _ (d.answer (transferRequest index (UInt8.ofNat items.length) cut)).1
    rw [answer_transferRequest, hn]
    exact ⟨_, rfl, transferRun_cut _ hitems hm⟩

theorem swjSequence_reported (d : Dap T) (count : UInt8) (data : List UInt8) (asked : count ≠ 0)
    (sized : data.length = (count.toNat + 7) / 8)
    (h : (swjSequence count data asked sized).bytes = cut ++ missing) (hc : cut ≠ [])
    (hm : missing ≠ []) :
    (swjSequence count data asked sized).Reported (d.answer cut).1 := by
  match cut with
  | [] => exact absurd rfl hc
  | [a] =>
    obtain ⟨rfl, -⟩ := List.cons.inj h
    exact ⟨0xFF, rfl, (by decide : (0xFF : UInt8) ≠ 0x00)⟩
  | a :: b :: cut =>
    simp only [bytes, List.cons_append, List.cons.injEq] at h
    obtain ⟨rfl, rfl, hdata⟩ := h
    have hlen := congrArg List.length hdata
    have hpos := List.length_pos_iff.mpr hm
    rw [List.length_append, sized] at hlen
    have hshort : cut.length < (count.toNat + 7) / 8 := by omega
    refine ⟨0xFF, ?_, (by decide : (0xFF : UInt8) ≠ 0x00)⟩
    change (idSwjSequence :: (d.sequenceAnswer (_ :: count :: cut)).1)[1]? = some 0xFF
    rw [Dap.sequenceAnswer, if_pos hshort]
    rfl

section
variable {index rb : UInt8} {count : UInt16} {words : List UInt32} {asked : count ≠ 0}
  {sized : words.length = if rnw rb then 0 else count.toNat}

theorem block_cut (h : (transferBlock index count rb words asked sized).bytes = cut ++ missing)
    (hlen : 5 ≤ cut.length) :
    ∃ tail, cut = blockRequest index count rb tail ∧ words.flatMap leBytes = tail ++ missing := by
  match cut with
  | [] | [_] | [_, _] | [_, _, _] | [_, _, _, _] =>
    simp only [List.length_cons, List.length_nil] at hlen
    omega
  | a :: b :: c :: e :: f :: tail =>
    simp only [bytes, blockRequest, leHalfBytes, List.cons_append, List.nil_append,
      List.cons.injEq] at h
    obtain ⟨rfl, rfl, rfl, rfl, rfl, hwords⟩ := h
    exact ⟨tail, rfl, hwords⟩

theorem block_tail {tail : List UInt8} (sized : words.length = if rnw rb then 0 else count.toNat)
    (hwords : words.flatMap leBytes = tail ++ missing) :
    tail.length + missing.length = if rnw rb then 0 else 4 * count.toNat := by
  have hlen := congrArg List.length hwords
  rw [length_leWords, List.length_append, sized] at hlen
  split at hlen <;> simp_all

theorem block_reported (d : Dap T)
    (h : (transferBlock index count rb words asked sized).bytes = cut ++ missing) (hc : cut ≠ [])
    (hm : missing ≠ []) (hcaught : (transferBlock index count rb words asked sized).Caught cut) :
    (transferBlock index count rb words asked sized).Reported (d.answer cut).1 := by
  by_cases hlen : 5 ≤ cut.length
  · obtain ⟨tail, rfl, hwords⟩ := block_cut h hlen
    by_cases hrb : rb &&& 0xF0 = 0
    · rw [answer_blockRequest d index count hrb]
      refine ⟨_, rfl, ?_⟩
      have hshort := not_and.mp hcaught hrb
      have htail := block_tail sized hwords
      have hpos := List.length_pos_iff.mpr hm
      simp only [blockRequest, List.length_append, List.length_cons, List.length_nil, leHalfBytes]
        at hshort
      cases hr : rnw rb with
      | true =>
        rw [hr, if_pos rfl] at htail
        omega
      | false =>
        rw [hr, if_neg Bool.false_ne_true] at htail
        exact blockRun_short hr _ (by omega)
    · rw [answer_blockRequest_refused d index count hrb]
      exact ⟨stProto, rfl, (by decide : stProto ≠ stOk)⟩
  · match cut with
    | [] => exact absurd rfl hc
    | [a] | [a, b] | [a, b, c] | [a, b, c, e] =>
      obtain ⟨rfl, -⟩ := List.cons.inj h
      exact ⟨stProto, rfl, (by decide : stProto ≠ stOk)⟩
    | _ :: _ :: _ :: _ :: _ :: _ =>
      simp only [List.length_cons] at hlen
      omega

theorem block_clamped
    (h : (transferBlock index count rb words asked sized).bytes = cut ++ missing)
    (hrb : rb &&& 0xF0 = 0) (hlen : 5 + 4 * 255 ≤ cut.length) (resp : RespBuffer) :
    ((Dap.new Willing.target).handleFrame cut resp).1[3]? = some stOk := by
  obtain ⟨tail, rfl, hwords⟩ := block_cut h (by omega)
  have htail := block_tail sized hwords
  simp only [blockRequest, List.length_append, List.length_cons, List.length_nil, leHalfBytes]
    at hlen
  have hr : rnw rb = false := by
    cases hr : rnw rb with
    | false => rfl
    | true =>
      rw [hr, if_pos rfl] at htail
      omega
  rw [(Dap.handleFrame_eq _ _ resp).1, answer_blockRequest _ index count hrb]
  exact congrArg some (blockRun_willing hr rfl (by omega))

end

theorem cut_reported_iff (r : Issued) (h : r.bytes = cut ++ missing) (hc : cut ≠ [])
    (hm : missing ≠ []) :
    (∀ (T : Type) [Transport T] (d : Dap T) (resp : RespBuffer),
      r.Reported (d.handleFrame cut resp).1) ↔ r.Caught cut := by
  have hcons : ∃ id rest, cut = id :: rest := List.exists_cons_of_ne_nil hc
  constructor
  · intro hall
    cases r with
    | transfer => trivial
    | swjSequence => trivial
    | transferConfigure idle waitRetry matchRetry =>
      obtain ⟨id, rest, rfl⟩ := hcons
      obtain ⟨rfl, -⟩ := List.cons.inj h
      refine not_reported ?_ (hall Willing (Dap.new .target) .new)
      rw [(Dap.handleFrame_eq _ _ _).1]
      rfl
    | writeAbort index word =>
      obtain ⟨id, rest, rfl⟩ := hcons
      obtain ⟨rfl, -⟩ := List.cons.inj h
      refine not_reported ?_ (hall Willing (Dap.new .target) .new)
      rw [(Dap.handleFrame_eq _ _ _).1]
      rfl
    | transferBlock index count rb words asked sized =>
      rintro ⟨hrb, hlen⟩
      exact not_reported (block_clamped h hrb hlen .new)
        (hall Willing (Dap.new .target) .new)
  · intro hcaught T _ d resp
    rw [(d.handleFrame_eq cut resp).1]
    cases r with
    | transferConfigure => exact hcaught.elim
    | writeAbort => exact hcaught.elim
    | transfer index items asked counted =>
      exact transfer_reported d index items asked counted h hc hm
    | swjSequence count data asked sized =>
      exact swjSequence_reported d count data asked sized h hc hm
    | transferBlock index count rb words asked sized =>
      exact block_reported d h hc hm hcaught

theorem cut_block_reported :
    (transferBlock 0 2 0x00 [7, 8] (by decide) (by decide)).bytes =
        [idTransferBlock, 0, 2, 0, 0x00, 7, 0, 0, 0, 8] ++ [0, 0, 0] ∧
      (transferBlock 0 2 0x00 [7, 8] (by decide) (by decide)).Reported
        ((Dap.new (⟨0x80⟩ : Unplugged)).handleFrame
          [idTransferBlock, 0, 2, 0, 0x00, 7, 0, 0, 0, 8] .new).1 := by
  have hcut : (transferBlock 0 2 0x00 [7, 8] (by decide) (by decide)).bytes =
      [idTransferBlock, 0, 2, 0, 0x00, 7, 0, 0, 0, 8] ++ [0, 0, 0] := rfl
  refine ⟨hcut, ?_⟩
  exact (cut_reported_iff _ hcut (List.cons_ne_nil _ _) (List.cons_ne_nil _ _)).mpr
    (by simp [Caught]) Unplugged (.new ⟨0x80⟩) .new

theorem cut_abort_reported_done :
    (writeAbort 0 0x1E).bytes = [idWriteAbort, 0, 0x1E, 0] ++ [0, 0] ∧
      ((Dap.new (⟨0x80⟩ : Unplugged)).handleFrame [idWriteAbort, 0, 0x1E, 0] .new).1 =
        [idWriteAbort, 0x00] ∧
      ¬(writeAbort 0 0x1E).Reported
        ((Dap.new (⟨0x80⟩ : Unplugged)).handleFrame [idWriteAbort, 0, 0x1E, 0] .new).1 := by
  have hout : ((Dap.new (⟨0x80⟩ : Unplugged)).handleFrame [idWriteAbort, 0, 0x1E, 0] .new).1 =
      [idWriteAbort, 0x00] := (Dap.handleFrame_eq _ _ _).1
  refine ⟨rfl, hout, not_reported ?_⟩
  rw [hout]
  rfl

end

end Issued

end DapProxy.Target
