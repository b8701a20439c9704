import DapProxy.Host.Peer
import DapProxy.Host.Urb

namespace DapProxy.Host
open Words

def stringSize (index : UInt8) : ℕ :=
  if index = 0 then 4
  else if index = 1 then 24
  else if index = 2 then 50
  else if index = 3 then 38
  else if index = 4 then 26
  else 0

def requestSize (bmRequestType bRequest : UInt8) (value : UInt16) : ℕ :=
  if bmRequestType = 0x80 ∧ bRequest = 0x00 then 2
  else if bmRequestType = 0x80 ∧ bRequest = 0x06 ∧ value >>> 8 = 0x01 then 18
  else if bmRequestType = 0x80 ∧ bRequest = 0x06 ∧ value >>> 8 = 0x02 then 32
  else if bmRequestType = 0x80 ∧ bRequest = 0x06 ∧ value >>> 8 = 0x03 then
    stringSize (value &&& 0xFF).toUInt8
  else if bmRequestType = 0x80 ∧ bRequest = 0x08 then 1
  else if (bmRequestType = 0x81 ∧ bRequest = 0x00) ∨ (bmRequestType = 0x82 ∧ bRequest = 0x00) then
    2
  else if bmRequestType = 0x80 ∧ bRequest = 0x0A then 1
  else 0

def controlSize (setup : Vector UInt8 8) : ℕ :=
  min (requestSize (bmRequestType setup) (bRequest setup) (wValue setup)) (wLength setup).toNat

def Accepts (setup : Vector UInt8 8) : Prop :=
  0 < requestSize (bmRequestType setup) (bRequest setup) (wValue setup) ∨
    (bmRequestType setup &&& 0x80 = 0 ∧ (bRequest setup = 0x01 ∨ bRequest setup = 0x03 ∨
      bRequest setup = 0x09 ∨ bRequest setup = 0x0B))

instance (setup : Vector UInt8 8) : Decidable (Accepts setup) := inferInstanceAs (Decidable (_ ∨ _))

structure Sized (payload : Option (List UInt8)) (size : ℕ) : Prop where
  length : (payload.getD []).length = size
  isSome : payload.isSome ↔ 0 < size

theorem sized_some {p : List UInt8} {n : ℕ} (h : p.length = n + 1) : Sized (some p) (n + 1) :=
  ⟨h, by simp⟩

theorem sized_none : Sized none 0 := ⟨rfl, by simp⟩

theorem ite_sized {c : Prop} [Decidable c] {p q : Option (List UInt8)} {m n : ℕ} (hp : Sized p m)
    (hq : Sized q n) : Sized (if c then p else q) (if c then m else n) := by
  split
  · exact hp
  · exact hq

theorem stringDescriptor_sized (index : UInt8) :
    Sized (stringDescriptor index) (stringSize index) := by
  refine ite_sized (sized_some rfl) ?_
  refine ite_sized (sized_some (by decide)) ?_
  refine ite_sized (sized_some (by decide)) ?_
  refine ite_sized (sized_some (by decide)) ?_
  exact ite_sized (sized_some (by decide)) sized_none

theorem ep0Payload_sized (bmRequestType bRequest : UInt8) (value : UInt16) :
    Sized (ep0Payload bmRequestType bRequest value) (requestSize bmRequestType bRequest value) := by
  refine ite_sized (sized_some rfl) ?_
  refine ite_sized (sized_some rfl) ?_
  refine ite_sized (sized_some rfl) ?_
  refine ite_sized (stringDescriptor_sized _) ?_
  refine ite_sized (sized_some rfl) ?_
  refine ite_sized (sized_some rfl) ?_
  exact ite_sized (sized_some rfl) sized_none

theorem requestSize_host {bmRequestType : UInt8} (h : bmRequestType &&& 0x80 = 0)
    (bRequest : UInt8) (value : UInt16) : requestSize bmRequestType bRequest value = 0 := by
  have h0 : bmRequestType ≠ 0x80 := by
    rintro rfl
    exact absurd h (by decide)
  have h1 : bmRequestType ≠ 0x81 := by
    rintro rfl
    exact absurd h (by decide)
  have h2 : bmRequestType ≠ 0x82 := by
    rintro rfl
    exact absurd h (by decide)
  simp [requestSize, h0, h1, h2]

theorem ep0Control_fields (setup : Vector UInt8 8) : ep0Control setup =
    if bmRequestType setup &&& 0x80 ≠ 0 then
      match ep0Payload (bmRequestType setup) (bRequest setup) (wValue setup) with
      | some p => (0, p.take (min p.length (wLength setup).toNat))
      | none => (epipe, [])
    else if bRequest setup = 0x01 ∨ bRequest setup = 0x03 ∨ bRequest setup = 0x09 ∨
        bRequest setup = 0x0B then (0, [])
    else (epipe, []) := rfl

theorem ep0Control_eq (setup : Vector UInt8 8) :
    (ep0Control setup).1 = (if Accepts setup then 0 else epipe) ∧
      (ep0Control setup).2.length = controlSize setup := by
  have hp := ep0Payload_sized (bmRequestType setup) (bRequest setup) (wValue setup)
  rw [ep0Control_fields]
  by_cases hdir : bmRequestType setup &&& 0x80 = 0
  · have hzero := requestSize_host hdir (bRequest setup) (wValue setup)
    simp only [hdir, ne_eq, not_true_eq_false, if_false, Accepts, controlSize, hzero,
      Nat.lt_irrefl, false_or, true_and, Nat.zero_min]
    split <;> exact ⟨rfl, rfl⟩
  · have hacc : Accepts setup ↔
        0 < requestSize (bmRequestType setup) (bRequest setup) (wValue setup) :=
      or_iff_left (fun h => hdir h.1)
    rw [if_pos hdir]
    revert hp
    cases ep0Payload (bmRequestType setup) (bRequest setup) (wValue setup) with
    | none =>
      intro hp
      have hzero := hp.length
      simp only [Option.getD_none, List.length_nil] at hzero
      rw [if_neg (by rw [hacc, ← hzero]; exact Nat.lt_irrefl 0), controlSize, ← hzero]
      exact ⟨rfl, (Nat.zero_min _).symm⟩
    | some p =>
      intro hp
      rw [if_pos (hacc.mpr (hp.isSome.mp rfl)), controlSize, ← hp.length]
      exact ⟨rfl, by simp⟩

theorem retSubmitBytes_payload (seqnum : UInt32) (status : Int32) (data : List UInt8) :
    (retSubmitBytes seqnum status data).drop headerLen = data := rfl

theorem retSubmitBytes_status (seqnum : UInt32) (status : Int32) (data : List UInt8) :
    wordAt (retSubmitBytes seqnum status data) 20 = some status.toUInt32 :=
  wordAt_words _ 5 rfl _

theorem retSubmitBytes_actual (seqnum : UInt32) (status : Int32) (data : List UInt8) :
    wordAt (retSubmitBytes seqnum status data) 24 = some (UInt32.ofNat data.length) :=
  wordAt_words _ 6 rfl _

def Bounded (direction transferLen : UInt32) (payload : List UInt8) : Prop :=
  (direction = dirOut → payload = []) ∧ (direction = dirIn → payload.length ≤ transferLen.toNat)

def ControlFits (hdr : Vector UInt8 headerLen) : Prop :=
  headerEp hdr = 0 →
    (headerDirection hdr = dirOut → controlSize (headerSetup hdr) = 0) ∧
      (headerDirection hdr = dirIn → controlSize (headerSetup hdr) ≤ (headerTransferLen hdr).toNat)

structure Reported (direction : UInt32) (carried : Prop) (data payload : List UInt8)
    (status : Int32) (actual : UInt32) : Prop where
  success : status = 0 ↔ carried
  failure : ¬carried → status < 0
  out : carried → direction = dirOut → actual.toNat = data.length
  inward : direction = dirIn → actual.toNat = payload.length

namespace UrbSession
variable {ν : Type} [Network ν] {hdr : Vector UInt8 headerLen} {data rest : List UInt8}
  {s : UrbSession ν}

def sent (s : UrbSession ν) : List UInt8 := s.turn.2.client.output.drop s.client.output.length

theorem sent_submission (h : Submission hdr data rest s)
    (hcut : s.client.cut s.client.writes = none) :
    s.sent = retSubmitBytes (headerWord hdr 4) (served hdr data rest s).1.1
      (served hdr data rest s).1.2 := by
  have hclient : (served hdr data rest s).2.client = { s.client with input := rest } :=
    submit_client ..
  simp only [sent, turn_submission h, sendRetSubmit, hclient, Client.writeAll, hcut, replied]
  exact List.drop_left

def CarriedOut (hdr : Vector UInt8 headerLen) (data : List UInt8) (s : UrbSession ν) : Prop :=
  if headerEp hdr = 0 then Accepts (headerSetup hdr)
  else if headerDirection hdr = dirOut then (s.bridge.bulkOut data).1 = .ok ()
  else headerDirection hdr = dirIn

theorem served_control (h : headerEp hdr = 0) :
    (served hdr data rest s).1 = ep0Control (headerSetup hdr) := by
  rw [served, submit, if_pos h]

theorem served_out (h : headerEp hdr ≠ 0) (hd : headerDirection hdr = dirOut) :
    (served hdr data rest s).1 =
      (if (s.bridge.bulkOut data).1 = .ok () then 0 else eio, []) := by
  rw [served, submit, if_neg h, if_pos hd]
  rcases s.bridge.bulkOut data with ⟨_ | _, _⟩ <;> rfl

omit [Network ν] in
theorem bulkIn_ok (maxLen : ℕ) (b : DapBridge ν) :
    ∃ payload b', b.bulkIn maxLen = (.ok payload, b') ∧ payload.length ≤ maxLen := by
  rcases h : b.bulkIn maxLen with ⟨_ | payload, b'⟩
  · rw [DapBridge.bulkIn] at h
    split at h
    · cases h
    · split at h <;> cases h
  · exact ⟨payload, b', rfl, length_bulkIn h⟩

theorem served_in (data rest : List UInt8) (s : UrbSession ν) (h : headerEp hdr ≠ 0)
    (hd : headerDirection hdr = dirIn) :
    ∃ payload, (served hdr data rest s).1 = (0, payload) ∧
      payload.length ≤ (headerTransferLen hdr).toNat := by
  obtain ⟨payload, b', hb, hl⟩ := bulkIn_ok (headerTransferLen hdr).toNat s.bridge
  refine ⟨payload, ?_, hl⟩
  have hne : ¬headerDirection hdr = dirOut := by
    rw [hd]
    decide
  rw [served, submit, if_neg h, if_neg hne, if_pos hd]
  simp only [hb]

theorem served_neither (h : headerEp hdr ≠ 0) (ho : headerDirection hdr ≠ dirOut)
    (hi : headerDirection hdr ≠ dirIn) : (served hdr data rest s).1 = (epipe, []) := by
  rw [served, submit, if_neg h, if_neg ho, if_neg hi]

theorem payload_bounded_iff (h : Submission hdr data rest s)
    (hcut : s.client.cut s.client.writes = none) :
    Bounded (headerDirection hdr) (headerTransferLen hdr) (s.sent.drop headerLen) ↔
      ControlFits hdr := by
  rw [sent_submission h hcut, retSubmitBytes_payload]
  by_cases hep : headerEp hdr = 0
  · rw [served_control hep, Bounded, ← List.length_eq_zero_iff, (ep0Control_eq _).2]
    exact ⟨fun hb _ => hb, fun hb => hb hep⟩
  · refine iff_of_true ⟨fun ho => ?_, fun hi => ?_⟩ fun hz => absurd hz hep
    · rw [served_out hep ho]
    · obtain ⟨payload, hp, hl⟩ := served_in data rest s hep hi
      rw [hp]
      exact hl

def quiet : Peer := .new (fun _ _ => ⟨[0x05], by decide⟩) (fun _ => .succeed) (fun _ => 0)

def attached (hdr : Vector UInt8 headerLen) (data : List UInt8) : UrbSession Peer :=
  ⟨.new (hdr.toList ++ (data ++ [])) (fun _ => none), .new quiet, ⟨0, 0, 0, 0, 0⟩⟩

def getDescriptor (direction transferLen : UInt8) : Vector UInt8 headerLen :=
  ⟨#[0, 0, 0, 1, 0, 0, 0, 7, 0, 0, 0, 1, 0, 0, 0, direction, 0, 0, 0, 0, 0, 0, 0, 0,
    0, 0, 0, transferLen, 0, 0, 0, 0, 0, 0, 0, 0, 0, 0, 0, 0, 0x80, 0x06, 0, 1, 0, 0, 18, 0], rfl⟩

theorem payload_bounded_descriptor :
    Bounded 1 18 ((attached (getDescriptor 1 18) []).sent.drop headerLen) :=
  (payload_bounded_iff (s := attached (getDescriptor 1 18) []) ⟨by decide, rfl, by decide⟩
    rfl).mpr fun _ => by decide

theorem descriptor_sent_to_out_urb :
    let s := attached (getDescriptor 0 0) []
    headerWord (getDescriptor 0 0) 0 = cmdSubmit ∧
      headerWord (getDescriptor 0 0) 12 = dirOut ∧
      s.sent.drop headerLen = deviceDescriptor ∧ ¬Bounded dirOut 0 (s.sent.drop headerLen) := by
  intro s
  have hsub : Submission (getDescriptor 0 0) [] [] s := ⟨by decide, rfl, by decide⟩
  have hsent : s.sent.drop headerLen = deviceDescriptor := by
    rw [sent_submission hsub rfl, retSubmitBytes_payload, served_control (by decide)]
    decide
  refine ⟨by decide, by decide, hsent, fun hb => ?_⟩
  rw [hsent] at hb
  exact absurd (hb.1 rfl) (by decide)

theorem served_status (hdr : Vector UInt8 headerLen) (data rest : List UInt8) (s : UrbSession ν) :
    (s.CarriedOut hdr data → (served hdr data rest s).1.1 = 0) ∧
      (¬s.CarriedOut hdr data → 0 < (served hdr data rest s).1.1) := by
  unfold CarriedOut
  by_cases hep : headerEp hdr = 0
  · rw [if_pos hep, served_control hep, (ep0Control_eq _).1]
    refine ⟨fun hc => if_pos hc, fun hc => ?_⟩
    rw [if_neg hc]
    decide
  · rw [if_neg hep]
    by_cases ho : headerDirection hdr = dirOut
    · rw [if_pos ho, served_out hep ho]
      refine ⟨fun hc => if_pos hc, fun hc => ?_⟩
      simp only [if_neg hc]
      decide
    · rw [if_neg ho]
      refine ⟨fun hi => ?_, fun hi => ?_⟩
      · obtain ⟨payload, hp, -⟩ := served_in data rest s hep hi
        rw [hp]
      · rw [served_neither hep ho hi]
        decide

theorem length_served_out (ho : headerDirection hdr = dirOut) :
    (served hdr data rest s).1.2.length =
      if headerEp hdr = 0 then controlSize (headerSetup hdr) else 0 := by
  by_cases hep : headerEp hdr = 0
  · rw [if_pos hep, served_control hep, (ep0Control_eq _).2]
  · rw [if_neg hep, served_out hep ho]
    rfl

theorem outcome_reported_iff (h : Submission hdr data rest s)
    (hcut : s.client.cut s.client.writes = none) :
    ∃ status actual, wordAt s.sent 20 = some status ∧ wordAt s.sent 24 = some actual ∧
      (Reported (headerDirection hdr) (s.CarriedOut hdr data) data (s.sent.drop headerLen)
          status.toInt32 actual ↔
        s.CarriedOut hdr data ∧ (headerDirection hdr = dirOut → data.length =
          if headerEp hdr = 0 then controlSize (headerSetup hdr) else 0)) := by
  rw [sent_submission h hcut, retSubmitBytes_payload]
  refine ⟨_, _, retSubmitBytes_status _ _ _, retSubmitBytes_actual _ _ _, ?_⟩
  obtain ⟨hok, hfail⟩ := served_status hdr data rest s
  have hlen : (served hdr data rest s).1.2.length < 4294967296 := length_submit _ _ _ _ _ _
  have hactual := UInt32.toNat_ofNat_of_lt' hlen
  rw [Int32.toInt32_toUInt32]
  constructor
  · intro hr
    have hc : s.CarriedOut hdr data := by
      by_contra hc
      exact absurd (hfail hc) (Int32.lt_asymm (hr.failure hc))
    refine ⟨hc, fun ho => ?_⟩
    rw [← hr.out hc ho, hactual, length_served_out ho]
  · rintro ⟨hc, hsize⟩
    refine ⟨iff_of_true (hok hc) hc, fun hn => absurd hc hn, fun _ ho => ?_, fun _ => hactual⟩
    rw [hactual, length_served_out ho, hsize ho]

def getString (index : UInt8) : Vector UInt8 headerLen :=
  ⟨#[0, 0, 0, 1, 0, 0, 0, 7, 0, 0, 0, 1, 0, 0, 0, 1, 0, 0, 0, 0, 0, 0, 0, 0,
    0, 0, 0, 255, 0, 0, 0, 0, 0, 0, 0, 0, 0, 0, 0, 0, 0x80, 0x06, index, 3, 0, 0, 255, 0], rfl⟩

def bulkCommand (transferLen : UInt8) : Vector UInt8 headerLen :=
  ⟨#[0, 0, 0, 1, 0, 0, 0, 7, 0, 0, 0, 1, 0, 0, 0, 0, 0, 0, 0, 1, 0, 0, 0, 0,
    0, 0, 0, transferLen, 0, 0, 0, 0, 0, 0, 0, 0, 0, 0, 0, 0, 0, 0, 0, 0, 0, 0, 0, 0], rfl⟩

theorem outcome_reported_string :
    ∃ status actual, wordAt (attached (getString 1) []).sent 20 = some status ∧
      wordAt (attached (getString 1) []).sent 24 = some actual ∧
      Reported 1 ((attached (getString 1) []).CarriedOut (getString 1) []) []
        ((attached (getString 1) []).sent.drop headerLen) status.toInt32 actual := by
  have hsubmission : Submission (getString 1) [] [] (attached (getString 1) []) :=
    ⟨by decide, rfl, by decide⟩
  obtain ⟨status, actual, hs, ha, hr⟩ := outcome_reported_iff hsubmission rfl
  refine ⟨status, actual, hs, ha, hr.mpr ⟨?_, by decide⟩⟩
  rw [CarriedOut, if_pos (by decide)]
  decide

theorem outcome_misreported :
    let stalled := attached (getString 9) []
    let accepted := attached (bulkCommand 2) [0x00, 0x01]
    (¬stalled.CarriedOut (getString 9) [] ∧ wordAt stalled.sent 20 = some 32 ∧
        ¬(32 : UInt32).toInt32 < 0) ∧
      headerWord (bulkCommand 2) 12 = dirOut ∧
      accepted.CarriedOut (bulkCommand 2) [0x00, 0x01] ∧ wordAt accepted.sent 20 = some 0 ∧
      wordAt accepted.sent 24 = some 0 := by
  intro stalled accepted
  have hstalled : Submission (getString 9) [] [] stalled := ⟨by decide, rfl, by decide⟩
  have haccepted : Submission (bulkCommand 2) [0x00, 0x01] [] accepted :=
    ⟨by decide, rfl, by decide⟩
  have hlink : (accepted.bridge.bulkOut [0x00, 0x01]).1 = .ok () := by decide +kernel
  refine ⟨⟨?_, ?_, by decide⟩, by decide, ?_, ?_, ?_⟩
  · rw [CarriedOut, if_pos (by decide)]
    decide
  · rw [sent_submission hstalled rfl, retSubmitBytes_status, served_control (by decide)]
    decide
  · rw [CarriedOut, if_neg (by decide), if_pos (by decide)]
    exact hlink
  · rw [sent_submission haccepted rfl, retSubmitBytes_status,
      served_out (by decide) (by decide), if_pos hlink]
    rfl
  · rw [sent_submission haccepted rfl, retSubmitBytes_actual,
      served_out (by decide) (by decide)]
    rfl

end UrbSession

end DapProxy.Host
