import DapProxy.Target.BlockPath
import DapProxy.Target.Retry
import DapProxy.Target.Serve
import DapProxy.Target.Swd
import Mathlib.Data.Nat.Count

namespace DapProxy.Target

structure Pattern where
  words : ℕ → UInt32
  stale : UInt32
  apWait : ℕ → Bool
  rdWait : ℕ → Bool

structure Port where
  pattern : Pattern
  apRequests : ℕ
  rdRequests : ℕ
  started : ℕ

namespace Port

def idle (p : Pattern) : Port := ⟨p, 0, 0, 0⟩

def posted (p : Port) : UInt32 :=
  match p.started with
  | 0 => p.pattern.stale
  | n + 1 => p.pattern.words n

def readAp (p : Port) : Except TErr UInt32 × Port :=
  if p.pattern.apWait p.apRequests then (.error .wait, { p with apRequests := p.apRequests + 1 })
  else (.ok p.posted, { p with apRequests := p.apRequests + 1, started := p.started + 1 })

def readRdbuff (p : Port) : Except TErr UInt32 × Port :=
  if p.pattern.rdWait p.rdRequests then (.error .wait, { p with rdRequests := p.rdRequests + 1 })
  else (.ok p.posted, { p with rdRequests := p.rdRequests + 1 })

instance : Wire Port where
  transfer apndp rnw addr _ p :=
    if apndp && rnw then p.readAp
    else if !apndp && rnw && addr == dpRdbuff then p.readRdbuff
    else (.ok 0, p)

instance : Transport Port where
  init p := (.ok (), p)
  swjSequence _ _ p := (.ok (), p)
  swjPins _ _ _ p := (.ok 0x80, p)
  readDp := Wire.readDp
  writeDp := Wire.writeDp
  readAp := Wire.readAp
  writeAp := Wire.writeAp

end Port

namespace Pattern

def issued (p : Pattern) (j : ℕ) : ℕ := Nat.count (fun i => p.apWait i = false) j

def Waited (p : Pattern) (j : ℕ) : Prop := p.apWait j = true ∨ p.rdWait (p.issued j) = true

instance (p : Pattern) : DecidablePred p.Waited := fun _ => inferInstanceAs (Decidable (_ ∨ _))

def completed (p : Pattern) (j : ℕ) : ℕ := Nat.count (fun i => ¬p.Waited i) j

def AllWaited (p : Pattern) (limit j : ℕ) : Prop := ∀ k ≤ limit, p.Waited (j + k)

def GivesUp (p : Pattern) (limit n : ℕ) : Prop :=
  ∃ j, p.completed j < n ∧ p.AllWaited limit j

def portAfter (p : Pattern) (j : ℕ) : Port := ⟨p, j, p.issued j, p.issued j⟩

section
variable {p : Pattern} {j : ℕ}

theorem issued_wait (h : p.apWait j = true) : p.issued (j + 1) = p.issued j := by
  simp [issued, Nat.count_succ, h]

theorem issued_ok (h : p.apWait j = false) : p.issued (j + 1) = p.issued j + 1 := by
  simp [issued, Nat.count_succ, h]

theorem completed_wait (h : p.Waited j) : p.completed (j + 1) = p.completed j := by
  simp [completed, Nat.count_succ, h]

theorem completed_ok (h : ¬p.Waited j) : p.completed (j + 1) = p.completed j + 1 := by
  simp [completed, Nat.count_succ, h]

theorem attempt_port (p : Pattern) (a : UInt8) (j : ℕ) :
    Dap.attempt true true a none (p.portAfter j) =
      (if p.Waited j then .error .wait else .ok (some (p.words (p.issued j))),
        p.portAfter (j + 1)) := by
  cases ha : p.apWait j with
  | true =>
    have hw : p.Waited j := Or.inl ha
    simp only [Dap.attempt, Transport.readAp, Wire.readAp, Wire.transfer, Port.readAp, portAfter,
      ha, issued_wait ha, hw, if_true, Bool.and_self]
    rfl
  | false =>
    cases hr : p.rdWait (p.issued j) with
    | true =>
      have hw : p.Waited j := Or.inr hr
      simp [Dap.attempt, Transport.readAp, Wire.readAp, Wire.readRdbuff, Wire.readDp,
        Wire.transfer, Port.readAp, Port.readRdbuff, portAfter, ha, issued_ok ha, hw, hr]
      rfl
    | false =>
      have hw : ¬p.Waited j := by simp [Waited, ha, hr]
      simp [Dap.attempt, Transport.readAp, Wire.readAp, Wire.readRdbuff, Wire.readDp,
        Wire.transfer, Port.readAp, Port.readRdbuff, Port.posted, portAfter, ha, issued_ok ha, hw,
        hr]
      rfl

theorem attempts_port (p : Pattern) (a : UInt8) (j i : ℕ) :
    Dap.attempts true true a none i (p.portAfter j) = p.portAfter (j + i) := by
  induction i generalizing j with
  | zero => rfl
  | succ i ih =>
    rw [Dap.attempts, attempt_port, ih]
    congr 1
    omega

theorem waits_port (p : Pattern) (a : UInt8) (j i : ℕ) :
    Dap.Waits true true a none (p.portAfter j) i ↔ p.Waited (j + i) := by
  rw [Dap.Waits, attempts_port, attempt_port]
  split <;> simp_all

theorem completed_waits {i : ℕ} (h : ∀ k < i, p.Waited (j + k)) :
    p.completed (j + i) = p.completed j := by
  induction i with
  | zero => rfl
  | succ i ih =>
    rw [← Nat.add_assoc, completed_wait (h i (Nat.lt_succ_self i))]
    exact ih fun k hk => h k (Nat.lt_succ_of_lt hk)

theorem issued_waits {i : ℕ} (h : ∀ k < i, p.Waited (j + k))
    (hr : p.rdWait (p.issued j) = false) : p.issued (j + i) = p.issued j := by
  induction i with
  | zero => rfl
  | succ i ih =>
    have hi := ih fun k hk => h k (Nat.lt_succ_of_lt hk)
    have hap : p.apWait (j + i) = true := by
      rcases h i (Nat.lt_succ_self i) with ha | hrd
      · exact ha
      · rw [hi, hr] at hrd
        cases hrd
    rw [← Nat.add_assoc, issued_wait hap, hi]

theorem completed_mono (p : Pattern) : Monotone p.completed := Nat.count_monotone _

theorem completed_le_issued (p : Pattern) (j : ℕ) : p.completed j ≤ p.issued j := by
  induction j with
  | zero => exact Nat.le_refl _
  | succ j ih =>
    by_cases hw : p.Waited j
    · rw [completed_wait hw]
      exact Nat.le_trans ih (Nat.count_monotone _ (Nat.le_succ j))
    · have ha : p.apWait j = false := by simpa using fun h => hw (Or.inl h)
      rw [completed_ok hw, issued_ok ha]
      exact Nat.succ_le_succ ih

theorem clean_of_completed (h : p.issued j = p.completed j) :
    ∀ r < p.issued j, p.rdWait r = false := by
  induction j with
  | zero => exact fun r hr => absurd hr (Nat.not_lt_zero r)
  | succ j ih =>
    have hle := completed_le_issued p j
    cases ha : p.apWait j with
    | false =>
      have hi := issued_ok ha
      have hw : ¬p.Waited j := by
        intro hw
        rw [completed_wait hw, hi] at h
        omega
      rw [completed_ok hw, hi] at h
      intro r hr
      rcases Nat.lt_or_eq_of_le (Nat.le_of_lt_succ (hi ▸ hr)) with hlt | rfl
      · exact ih (by omega) r hlt
      · simpa using fun hrd => hw (Or.inr hrd)
    | true =>
      rw [issued_wait ha, completed_wait (Or.inl ha)] at h
      rw [issued_wait ha]
      exact ih h

end

section
variable {p : Pattern} {j : ℕ} {d : Dap Port} {rb : UInt8}

theorem exec_port (hap : apndp rb = true) (hrd : rnw rb = true)
    (hd : d.transport = p.portAfter j) :
    (p.AllWaited d.limit j ∧ ∃ d', d.execTransfer (apndp rb) (rnw rb) (regAddr rb) none =
        (.error stWait, d')) ∨
      ∃ i ≤ d.limit, (∀ k < i, p.Waited (j + k)) ∧ ¬p.Waited (j + i) ∧
        d.execTransfer (apndp rb) (rnw rb) (regAddr rb) none =
          (.ok (some (p.words (p.issued (j + i)))),
            { d with transport := p.portAfter (j + i + 1) }) := by
  have h0 : (0 : UInt32).toNat = 0 := rfl
  rw [hap, hrd]
  obtain ⟨i, hi⟩ := Dap.exists_settles true true (regAddr rb) none d
  have hwaits (k : ℕ) : Dap.Waits true true (regAddr rb) none d.transport k ↔ p.Waited (j + k) := by
    rw [hd, waits_port]
  by_cases hlast : p.Waited (j + i)
  · have hall := hi.all_waited ((hwaits i).mpr hlast)
    have hlimit : i = d.limit := hi.stopped ((hwaits i).mpr hlast)
    refine Or.inl ⟨fun k hk => (hwaits k).mp (hall k (hlimit ▸ hk)), _,
      Dap.execLoop_exhausted (by rw [h0, Nat.zero_add, hlimit]) hall⟩
  · have hmin (k : ℕ) (hk : k < i) : p.Waited (j + k) := (hwaits k).mp (hi.waited k hk)
    refine Or.inr ⟨i, hi.bounded, hmin, hlast, ?_⟩
    rw [Dap.execTransfer, Dap.execLoop_answered (v := some (p.words (p.issued (j + i))))
      (by rw [h0, Nat.zero_add]; exact hi.bounded) hi.waited, hd, attempts_port]
    · rfl
    · rw [hd, attempts_port, attempt_port, if_neg hlast]

end

def wordBytes (p : Pattern) (first n : ℕ) : List UInt8 :=
  (List.range n).flatMap (fun i => leBytes (p.words (first + i)))

theorem wordBytes_succ (p : Pattern) (first n : ℕ) :
    p.wordBytes first (n + 1) = leBytes (p.words first) ++ p.wordBytes (first + 1) n := by
  simp only [wordBytes, List.range_succ_eq_map, List.flatMap_cons, List.flatMap_map, Nat.add_zero]
  congr 2
  funext i
  rw [Nat.add_right_comm, Nat.add_assoc]

structure Read (p : Pattern) (j n J : ℕ) (q r : Progress Port) : Prop where
  port : r.dap.transport = p.portAfter J
  status : r.status = q.status
  completed : p.completed J = p.completed j + n
  never : ∀ j', j ≤ j' → p.completed j' < p.completed j + n → ¬p.AllWaited q.dap.limit j'
  clean : (∀ i < p.issued j + n, p.rdWait i = false) →
    p.issued J = p.issued j + n ∧ r.data = q.data ++ p.wordBytes (p.issued j) n

structure Abandoned (p : Pattern) (j n : ℕ) (q r : Progress Port) : Prop where
  status : r.status = stWait
  gaveUp : ∃ j', p.completed j' < p.completed j + n ∧ p.AllWaited q.dap.limit j'

theorem never_one {p : Pattern} {j i limit : ℕ} (hi : i ≤ limit)
    (hw : ∀ k < i, p.Waited (j + k)) (hn : ¬p.Waited (j + i)) {j' : ℕ} (hj : j ≤ j')
    (hc : p.completed j' ≤ p.completed j) : ¬p.AllWaited limit j' := by
  intro hall
  have hle : j' ≤ j + i := by
    by_contra hlt
    have hmono := completed_mono p (show j + i + 1 ≤ j' by omega)
    rw [completed_ok hn, completed_waits hw] at hmono
    omega
  have := hall (j + i - j') (by omega)
  rw [Nat.add_sub_cancel' hle] at this
  exact hn this

section
variable {p : Pattern} {rb : UInt8}

theorem blockRun_read (hrd : rnw rb = true) (n : ℕ) {q : Progress Port} {v : UInt32}
    {d : Dap Port}
    (h : q.dap.execTransfer (apndp rb) (rnw rb) (regAddr rb) none = (.ok (some v), d)) :
    blockRun rb (n + 1) [] q =
      blockRun rb n [] { q with dap := d, done := q.done + 1, data := q.data ++ leBytes v } := by
  simp only [blockRun, parseData, hrd, if_true, perform_read h]

theorem blockRun_refused (hrd : rnw rb = true) (n : ℕ) {q : Progress Port} {s : UInt8}
    {d : Dap Port}
    (h : q.dap.execTransfer (apndp rb) (rnw rb) (regAddr rb) none = (.error s, d)) :
    blockRun rb (n + 1) [] q = { q with dap := d, status := s } := by
  simp only [blockRun, parseData, hrd, if_true, perform_error h, Bool.false_eq_true, if_false]

theorem blockRun_port (hap : apndp rb = true) (hrd : rnw rb = true) (n : ℕ) {j : ℕ}
    {q : Progress Port} (hq : q.dap.transport = p.portAfter j) :
    p.Abandoned j n q (blockRun rb n [] q) ∨ ∃ J, p.Read j n J q (blockRun rb n [] q) := by
  induction n generalizing j q with
  | zero =>
    exact Or.inr ⟨j, hq, rfl, rfl, fun j' hj hc => absurd hc (Nat.not_lt.mpr (completed_mono p hj)),
      fun _ => ⟨rfl, (List.append_nil _).symm⟩⟩
  | succ n ih =>
    rcases exec_port hap hrd hq with ⟨hall, d', hx⟩ | ⟨i, hi, hw, hn, hx⟩
    · rw [blockRun_refused hrd n hx]
      exact Or.inl ⟨rfl, j, by omega, hall⟩
    · rw [blockRun_read hrd n hx]
      have hnext : p.completed (j + i + 1) = p.completed j + 1 := by
        rw [completed_ok hn, completed_waits hw]
      rcases ih (j := j + i + 1) (q := { q with
          dap := { q.dap with transport := p.portAfter (j + i + 1) }
          done := q.done + 1
          data := q.data ++ leBytes (p.words (p.issued (j + i))) }) rfl with hab | ⟨J, hJ⟩
      · obtain ⟨j', hc, hall⟩ := hab.gaveUp
        exact Or.inl ⟨hab.status, j', by omega, hall⟩
      · refine Or.inr ⟨J, hJ.port, hJ.status, by rw [hJ.completed, hnext]; omega, ?_, ?_⟩
        · intro j' hj hc
          by_cases hlt : p.completed j' ≤ p.completed j
          · exact never_one hi hw hn hj hlt
          · refine hJ.never j' ?_ (by omega)
            by_contra hle
            have hmono := completed_mono p (show j' ≤ j + i by omega)
            rw [completed_waits hw] at hmono
            omega
        · intro hclean
          have hissued : p.issued (j + i) = p.issued j :=
            issued_waits hw (hclean _ (by omega))
          have hap' : p.apWait (j + i) = false := by simpa using fun h => hn (Or.inl h)
          have hstep : p.issued (j + i + 1) = p.issued j + 1 := by rw [issued_ok hap', hissued]
          obtain ⟨hI, hdata⟩ := hJ.clean fun r hr => hclean r (by omega)
          refine ⟨by omega, ?_⟩
          rw [hdata, hissued, hstep, wordBytes_succ, List.append_assoc]

end

structure Exact (p : Pattern) (n : ℕ) (status : Option UInt8) (data : List UInt8)
    (port : Port) : Prop where
  data : status = some stOk → data = p.wordBytes 0 n
  acked : status = some stOk → port.started = n

theorem exact_iff {p : Pattern} {rb : UInt8} (hap : apndp rb = true) (hrd : rnw rb = true)
    (n : ℕ) {d : Dap Port} (hd : d.transport = Port.idle p) :
    let r := blockRun rb n [] ⟨d, 0, stOk, []⟩
    Exact p n (some r.status) r.data r.dap.transport ↔
      (∀ i < n, p.rdWait i = false) ∨ p.GivesUp d.limit n := by
  intro r
  have h0 : p.issued 0 = 0 := rfl
  have hc0 : p.completed 0 = 0 := rfl
  rcases blockRun_port hap hrd n (j := 0) (q := ⟨d, 0, stOk, []⟩) hd with hab | ⟨J, hJ⟩
  · obtain ⟨j', hc, hall⟩ := hab.gaveUp
    have hstatus : r.status = stWait := hab.status
    constructor
    · exact fun _ => Or.inr ⟨j', by omega, hall⟩
    · intro _
      constructor <;> (intro hok; rw [hstatus] at hok; cases hok)
  · have hstatus : r.status = stOk := hJ.status
    have hport : r.dap.transport.started = p.issued J := by
      rw [show r.dap.transport = p.portAfter J from hJ.port]
      rfl
    have hcompleted := hJ.completed
    rw [hc0, Nat.zero_add] at hcompleted
    constructor
    · intro hex
      have hI := hex.acked (by rw [hstatus])
      rw [hport] at hI
      exact Or.inl (hI ▸ clean_of_completed (by omega))
    · rintro (hclean | ⟨j', hc, hall⟩)
      · obtain ⟨hI, hdata⟩ := hJ.clean (by simpa [h0] using hclean)
        exact ⟨fun _ => hdata, fun _ => by rw [hport, hI, h0, Nat.zero_add]⟩
      · exact absurd hall (hJ.never j' (Nat.zero_le _) (by omega))

def transferReads (index : UInt8) (n : ℕ) (rb : UInt8) : List UInt8 :=
  0x05 :: index :: UInt8.ofNat n :: List.replicate n rb

def blockRead (index : UInt8) (n : ℕ) (rb : UInt8) : List UInt8 :=
  [0x06, index, UInt8.ofNat n, 0, rb]

theorem answer_transferReads {rb : UInt8} {n : ℕ} (hn : n ≤ 255) (hrb : rb &&& 0xF0 = 0)
    (hrd : rnw rb = true) (d : Dap Port) (index : UInt8) :
    d.answer (transferReads index n rb) =
      (0x05 :: UInt8.ofNat (blockRun rb n [] ⟨d, 0, stOk, []⟩).done ::
        (blockRun rb n [] ⟨d, 0, stOk, []⟩).status :: (blockRun rb n [] ⟨d, 0, stOk, []⟩).data,
        (blockRun rb n [] ⟨d, 0, stOk, []⟩).dap) := by
  have hbyte : (UInt8.ofNat n).toNat = n := by
    rw [UInt8.toNat_ofNat']
    omega
  change (_ :: (d.transferAnswer (transferReads index n rb)).1,
    (d.transferAnswer (transferReads index n rb)).2) = _
  simp only [transferReads, Dap.transferAnswer, hbyte, transferRun_reads hrb hrd n []]

theorem answer_blockRead {rb : UInt8} {n : ℕ} (hn : n ≤ 255) (hrb : rb &&& 0xF0 = 0)
    (d : Dap Port) (index : UInt8) :
    d.answer (blockRead index n rb) =
      (0x06 :: (UInt16.ofNat (blockRun rb n [] ⟨d, 0, stOk, []⟩).done).toUInt8 ::
        (UInt16.ofNat (blockRun rb n [] ⟨d, 0, stOk, []⟩).done >>> 8).toUInt8 ::
        (blockRun rb n [] ⟨d, 0, stOk, []⟩).status :: (blockRun rb n [] ⟨d, 0, stOk, []⟩).data,
        (blockRun rb n [] ⟨d, 0, stOk, []⟩).dap) := by
  have hhalf : min (leHalf (UInt8.ofNat n) 0).toNat 255 = n := by
    have hzero : (0 : UInt8).toUInt16 <<< 8 = 0 := rfl
    have hbyte : (UInt8.ofNat n).toNat = n := by
      rw [UInt8.toNat_ofNat']
      omega
    rw [leHalf, hzero, UInt16.or_zero, UInt8.toNat_toUInt16, hbyte]
    exact Nat.min_eq_left hn
  change (_ :: (d.blockAnswer (blockRead index n rb)).1,
    (d.blockAnswer (blockRead index n rb)).2) = _
  simp only [blockRead, Dap.blockAnswer, hhalf, hrb, ne_eq, not_true_eq_false, if_false]

theorem block_read_exact_iff (p : Pattern) (waitRetry : UInt16) (errLogs : UInt32)
    (resp : RespBuffer) (index rb : UInt8) (n : ℕ) (hn : n ≤ 255) (hrb : rb &&& 0xF0 = 0)
    (hap : apndp rb = true) (hrd : rnw rb = true) :
    let d : Dap Port := ⟨Port.idle p, waitRetry, errLogs⟩
    let transfer := d.handleFrame (transferReads index n rb) resp
    let block := d.handleFrame (blockRead index n rb) resp
    (Exact p n transfer.1[2]? (transfer.1.drop 3) transfer.2.2.transport ↔
        (∀ i < n, p.rdWait i = false) ∨ p.GivesUp (min waitRetry.toNat 128) n) ∧
      (Exact p n block.1[3]? (block.1.drop 4) block.2.2.transport ↔
        (∀ i < n, p.rdWait i = false) ∨ p.GivesUp (min waitRetry.toNat 128) n) := by
  intro d transfer block
  have hmain := exact_iff hap hrd n (d := d) rfl
  constructor
  · obtain ⟨hout, hdap⟩ := d.handleFrame_eq (transferReads index n rb) resp
    rw [show transfer.1 = _ from hout, show transfer.2.2 = _ from hdap,
      answer_transferReads hn hrb hrd]
    exact hmain
  · obtain ⟨hout, hdap⟩ := d.handleFrame_eq (blockRead index n rb) resp
    rw [show block.1 = _ from hout, show block.2.2 = _ from hdap, answer_blockRead hn hrb]
    exact hmain

def patient (rdWait : ℕ → Bool) : Pattern :=
  ⟨fun i => UInt32.ofNat i, 0xFF, fun _ => false, rdWait⟩

def hesitant : Pattern := ⟨fun i => UInt32.ofNat i, 0xFF, fun i => i % 3 != 2, fun _ => false⟩

theorem block_read_exact_retried :
    let r := (⟨Port.idle hesitant, 64, 0⟩ : Dap Port).handleFrame (transferReads 0 2 0x0F) .new
    r.1[2]? = some stOk ∧ r.1.drop 3 = hesitant.wordBytes 0 2 ∧ r.2.2.transport.started = 2 ∧
      r.2.2.transport.apRequests = 6 := by
  intro r
  have hexact : Exact hesitant 2 r.1[2]? (r.1.drop 3) r.2.2.transport :=
    ((block_read_exact_iff hesitant 64 0 .new 0 0x0F 2 (by decide) (by decide) (by decide)
      (by decide)).1).mpr (Or.inl fun _ _ => rfl)
  have hok : r.1[2]? = some stOk := by decide +kernel
  exact ⟨hok, hexact.data hok, hexact.acked hok, by decide +kernel⟩

theorem rdbuff_wait_skips_word :
    let p := patient (fun i => i == 0)
    let r := (⟨Port.idle p, 64, 0⟩ : Dap Port).handleFrame (transferReads 0 1 0x0F) .new
    r.1[2]? = some stOk ∧ r.1.drop 3 = leBytes (p.words 1) ∧ r.1.drop 3 ≠ p.wordBytes 0 1 ∧
      r.2.2.transport.started = 2 := by
  intro p r
  let d : Dap Port := ⟨Port.idle p, 64, 0⟩
  have hexec : d.execTransfer (apndp 0x0F) (rnw 0x0F) (regAddr 0x0F) none =
      (.ok (some (p.words 1)), { d with transport := p.portAfter 2 }) := by
    refine (Dap.execLoop_answered (i := 1) (v := some (p.words 1)) (by decide) ?_ ?_).trans ?_
    · intro k hk
      obtain rfl : k = 0 := by omega
      exact (waits_port p _ 0 0).mpr (by decide)
    · exact congrArg Prod.fst ((attempts_port p _ 0 1).symm ▸ attempt_port p _ 1)
    · exact congrArg (fun t => (_, { d with transport := t })) (attempts_port p _ 0 2)
  have hrun : blockRun 0x0F 1 [] ⟨d, 0, stOk, []⟩ =
      ⟨{ d with transport := p.portAfter 2 }, 1, stOk, leBytes (p.words 1)⟩ :=
    blockRun_read rfl 0 hexec
  obtain ⟨hout, hdap⟩ := d.handleFrame_eq (transferReads 0 1 0x0F) .new
  rw [answer_transferReads (by decide) (by decide) rfl, hrun] at hout hdap
  have hr : r = d.handleFrame (transferReads 0 1 0x0F) .new := rfl
  rw [hr, hout, hdap]
  exact ⟨rfl, rfl, by decide, by decide⟩

end Pattern

end DapProxy.Target
