import DapProxy.Host.Reader
import DapProxy.Host.Usbip

namespace DapProxy.Host
open Words
variable {ν : Type}

namespace Client

theorem readExact_some {n : ℕ} {c : Client} {xs rest : List UInt8} (h : c.input = xs ++ rest)
    (hn : xs.length = n) :
    ∃ v, c.readExact n = (some v, { c with input := rest }) ∧ v.toList = xs := by
  subst hn
  have hle : xs.length ≤ c.input.length := by simp [h]
  have hdrop : c.input.drop xs.length = rest := by rw [h, List.drop_left]
  refine ⟨bufferOf xs.length c.input hle, ?_, ?_⟩
  · rw [readExact, dif_pos hle, hdrop]
  · rw [bufferOf_toList, h, List.take_left]

theorem readExact_length {n : ℕ} {c c' : Client} {v : Vector UInt8 n}
    (h : c.readExact n = (some v, c')) : c'.input.length + n = c.input.length := by
  rw [readExact] at h
  split at h
  · simp only [Prod.mk.injEq] at h
    rw [← h.2, List.length_drop]
    omega
  · simp at h

theorem writeAll_input (data : List UInt8) (c : Client) : (c.writeAll data).2.input = c.input := by
  rw [writeAll]
  split <;> rfl

end Client

namespace UrbSession

theorem sendRetSubmit_input (seqnum : UInt32) (status : Int32) (data : List UInt8)
    (s : UrbSession ν) :
    (s.sendRetSubmit seqnum status data).2.client.input = s.client.input :=
  Client.writeAll_input _ _

theorem sendRetUnlink_input (seqnum : UInt32) (s : UrbSession ν) :
    (s.sendRetUnlink seqnum).2.client.input = s.client.input :=
  Client.writeAll_input _ _

theorem readOut_length {direction transferLen : UInt32} {s s' : UrbSession ν} {data : List UInt8}
    (h : s.readOut direction transferLen = (some data, s')) :
    s'.client.input.length ≤ s.client.input.length := by
  rw [readOut] at h
  split at h
  · split at h
    · simp at h
    · next v client hr =>
      have hlen := Client.readExact_length hr
      simp only [Prod.mk.injEq] at h
      rw [← h.2]
      change client.input.length ≤ _
      omega
  · simp only [Prod.mk.injEq] at h
    rw [h.2]

variable [Network ν]

theorem submit_client (ep direction transferLen : UInt32) (setup : Vector UInt8 8)
    (outData : List UInt8) (s : UrbSession ν) :
    (s.submit ep direction transferLen setup outData).2.client = s.client := by
  rw [submit]
  split
  · rfl
  · split
    · split <;> rfl
    · split
      · split <;> rfl
      · rfl

omit [Network ν] in
theorem replied_none {r : Bool × UrbSession ν} {s' : UrbSession ν} (h : replied r = (none, s')) :
    r.2 = s' := by
  rcases r with ⟨_ | _, s⟩ <;> simp [replied] at h
  exact h

theorem onSubmit_length {hdr : Vector UInt8 headerLen} {s s' : UrbSession ν}
    (h : s.onSubmit hdr = (none, s')) : s'.client.input.length ≤ s.client.input.length := by
  rw [onSubmit] at h
  rcases ho : s.readOut (headerWord hdr 12) (headerWord hdr 24) with ⟨_ | data, s₁⟩
  · simp [ho] at h
  · simp only [ho] at h
    have hout := readOut_length ho
    rw [← replied_none h, sendRetSubmit_input, submit_client]
    exact hout

theorem turn_length {s s' : UrbSession ν} (h : s.turn = (none, s')) :
    s'.client.input.length < s.client.input.length := by
  rw [turn] at h
  rcases hr : s.client.readExact headerLen with ⟨_ | hdr, client⟩
  · simp [hr] at h
  · have hlen := Client.readExact_length hr
    have hheader : headerLen = 48 := rfl
    simp only [hr] at h
    split at h
    · have hle := onSubmit_length h
      simp only at hle
      omega
    · split at h
      · rw [← replied_none h, sendRetUnlink_input]
        simp only
        omega
      · simp at h

def urbLoop (s : UrbSession ν) : Exit × UrbSession ν :=
  match _h : s.turn with
  | (some e, s') => (e, s')
  | (none, s') => urbLoop s'
  termination_by s.client.input.length
  decreasing_by exact turn_length _h

theorem urbLoop_exit {s s' : UrbSession ν} {e : Exit} (h : s.turn = (some e, s')) :
    s.urbLoop = (e, s') := by
  rw [urbLoop]
  split
  · next h' =>
    rw [h] at h'
    cases h'
    rfl
  · next h' =>
    rw [h] at h'
    cases h'

theorem urbLoop_next {s s' : UrbSession ν} (h : s.turn = (none, s')) : s.urbLoop = s'.urbLoop := by
  rw [urbLoop]
  split
  · next h' =>
    rw [h] at h'
    cases h'
  · next h' =>
    rw [h] at h'
    cases h'
    rfl

end UrbSession

structure Urb where
  seqnum : UInt32
  devid : UInt32
  direction : UInt32
  ep : UInt32
  flags : UInt32
  length : UInt32
  startFrame : UInt32
  packets : UInt32
  interval : UInt32
  setup : Vector UInt8 8

def Urb.words (u : Urb) (command : UInt32) : List UInt32 :=
  [command, u.seqnum, u.devid, u.direction, u.ep, u.flags, u.length, u.startFrame, u.packets,
    u.interval]

def Urb.header (u : Urb) (command : UInt32) : List UInt8 :=
  (u.words command).flatMap beBytes ++ u.setup.toList

inductive Command where
  | submit (u : Urb) (data : List UInt8)
      (sized : data.length = if u.direction = dirOut then u.length.toNat else 0)
  | unlink (u : Urb)

def Command.bytes : Command → List UInt8
  | .submit u data _ => u.header cmdSubmit ++ data
  | .unlink u => u.header cmdUnlink

def Replied : Command → List UInt8 → Prop
  | .submit u _ _, r =>
      wordAt r 0 = some retSubmit ∧ wordAt r 4 = some u.seqnum ∧
        ∃ actual, wordAt r 24 = some actual ∧ r.length = headerLen + actual.toNat
  | .unlink u, r =>
      wordAt r 0 = some retUnlink ∧ wordAt r 4 = some u.seqnum ∧ r.length = headerLen

theorem length_header (u : Urb) (command : UInt32) : (u.header command).length = headerLen := by
  rw [Urb.header, List.length_append, length_words]
  simp [Urb.words, headerLen]

theorem headerWord_eq {hdr : Vector UInt8 headerLen} {xs : List UInt8} (h : hdr.toList = xs)
    {i : Fin 45} {w : UInt32} (hw : wordAt xs i.val = some w) : headerWord hdr i = w := by
  have hi := i.isLt
  have hget (j : ℕ) (hj : j < headerLen) : xs[j]? = some hdr[j] := by
    subst h
    rw [List.getElem?_eq_getElem (by simpa using hj)]
    simp
  have hlen : headerLen = 48 := rfl
  simp only [wordAt, hget i.val (by omega), hget (i.val + 1) (by omega),
    hget (i.val + 2) (by omega), hget (i.val + 3) (by omega), Option.bind_eq_bind,
    Option.bind_some, Option.some.injEq] at hw
  exact hw

theorem headerWord_urb {hdr : Vector UInt8 headerLen} {u : Urb} {command : UInt32}
    (h : hdr.toList = u.header command) :
    headerWord hdr 0 = command ∧ headerWord hdr 4 = u.seqnum ∧
      headerWord hdr 12 = u.direction ∧ headerWord hdr 16 = u.ep ∧
      headerWord hdr 24 = u.length := by
  refine ⟨headerWord_eq h ?_, headerWord_eq h ?_, headerWord_eq h ?_, headerWord_eq h ?_,
    headerWord_eq h ?_⟩
  · exact wordAt_words (u.words command) 0 rfl _
  · exact wordAt_words (u.words command) 1 rfl _
  · exact wordAt_words (u.words command) 3 rfl _
  · exact wordAt_words (u.words command) 4 rfl _
  · exact wordAt_words (u.words command) 6 rfl _

theorem replied_submit (u : Urb) (data : List UInt8) (sized) (status : Int32)
    {inData : List UInt8} (h : inData.length < 4294967296) :
    Replied (.submit u data sized) (retSubmitBytes u.seqnum status inData) := by
  refine ⟨wordAt_words _ 0 rfl _, wordAt_words _ 1 rfl _, _,
    wordAt_words _ 6 rfl _, ?_⟩
  rw [retSubmitBytes, List.length_append, length_words, UInt32.toNat_ofNat_of_lt' h]
  simp only [List.length_cons, List.length_nil, List.length_append, List.length_replicate,
    headerLen]
  omega

theorem replied_unlink (u : Urb) : Replied (.unlink u) (retUnlinkBytes u.seqnum) :=
  ⟨wordAt_words _ 0 rfl _, wordAt_words _ 1 rfl _, rfl⟩

theorem length_ep0Control (setup : Vector UInt8 8) : (ep0Control setup).2.length < 65536 := by
  unfold ep0Control
  dsimp only
  split
  · split
    · apply Nat.lt_of_le_of_lt (List.length_take_le _ _)
      exact Nat.lt_of_le_of_lt (Nat.min_le_right _ _) (UInt16.toNat_lt _)
    · exact Nat.zero_lt_succ _
  · split <;> exact Nat.zero_lt_succ _

theorem length_bulkIn {maxLen : ℕ} {b b' : DapBridge ν} {data : List UInt8}
    (h : b.bulkIn maxLen = (.ok data, b')) : data.length ≤ maxLen := by
  rw [DapBridge.bulkIn] at h
  split at h
  · simp only [Prod.mk.injEq, Except.ok.injEq] at h
    simp [← h.1]
  · split at h
    · next hle =>
      simp only [Prod.mk.injEq, Except.ok.injEq] at h
      exact h.1 ▸ hle
    · simp only [Prod.mk.injEq, Except.ok.injEq] at h
      rw [← h.1]
      exact List.length_take_le _ _

namespace UrbSession

theorem readOut_sized {direction transferLen : UInt32} {s : UrbSession ν}
    {data rest : List UInt8} (h : s.client.input = data ++ rest)
    (hd : data.length = if direction = dirOut then transferLen.toNat else 0) :
    s.readOut direction transferLen =
      (some data, { s with client := { s.client with input := rest } }) := by
  by_cases hc : direction = dirOut ∧ 0 < transferLen
  · rw [if_pos hc.1] at hd
    obtain ⟨v, hv, hl⟩ := Client.readExact_some h hd
    simp only [readOut, if_pos hc, hv, hl]
  · have hempty : data = [] := by
      rw [← List.length_eq_zero_iff, hd]
      split
      · next hdir =>
        have hpos : ¬0 < transferLen := fun h => hc ⟨hdir, h⟩
        rw [UInt32.lt_iff_toNat_lt] at hpos
        exact Nat.eq_zero_of_not_pos hpos
      · rfl
    subst hempty
    have hrest : rest = s.client.input := by rw [h, List.nil_append]
    simp only [readOut, if_neg hc, hrest]

variable [Network ν]

theorem length_submit (ep direction transferLen : UInt32) (setup : Vector UInt8 8)
    (outData : List UInt8) (s : UrbSession ν) :
    (s.submit ep direction transferLen setup outData).1.2.length < 4294967296 := by
  rw [submit]
  split
  · exact Nat.lt_trans (length_ep0Control setup) (by decide)
  · split
    · split <;> exact Nat.zero_lt_succ _
    · split
      · split
        · next hb => exact Nat.lt_of_le_of_lt (length_bulkIn hb) transferLen.toNat_lt
        · exact Nat.zero_lt_succ _
      · exact Nat.zero_lt_succ _

structure Submission (hdr : Vector UInt8 headerLen) (data rest : List UInt8)
    (s : UrbSession ν) : Prop where
  command : headerWord hdr 0 = cmdSubmit
  input : s.client.input = hdr.toList ++ (data ++ rest)
  sized : data.length = if headerDirection hdr = dirOut then (headerTransferLen hdr).toNat else 0

def served (hdr : Vector UInt8 headerLen) (data rest : List UInt8) (s : UrbSession ν) :
    (Int32 × List UInt8) × UrbSession ν :=
  submit (headerEp hdr) (headerDirection hdr) (headerTransferLen hdr) (headerSetup hdr) data
    { s with client := { s.client with input := rest } }

theorem turn_submission {hdr : Vector UInt8 headerLen} {data rest : List UInt8}
    {s : UrbSession ν} (h : Submission hdr data rest s) :
    s.turn = replied ((served hdr data rest s).2.sendRetSubmit (headerWord hdr 4)
      (served hdr data rest s).1.1 (served hdr data rest s).1.2) := by
  obtain ⟨v, hread, hl⟩ := Client.readExact_some h.input (Vector.length_toList)
  obtain rfl : v = hdr := Vector.toList_inj.mp hl
  have hout : readOut (headerWord v 12) (headerWord v 24)
      { s with client := { s.client with input := data ++ rest } } =
        (some data, { s with client := { s.client with input := rest } }) :=
    readOut_sized rfl h.sized
  simp only [turn, hread, h.command, if_true, onSubmit, hout]
  rfl

theorem turn_command (c : Command) {s : UrbSession ν} {rest : List UInt8}
    (h : s.client.input = c.bytes ++ rest) :
    ∃ reply s', Replied c reply ∧
      s.turn = replied ((Client.writeAll reply { s.client with input := rest }).1, s') ∧
      s'.client = (Client.writeAll reply { s.client with input := rest }).2 := by
  cases c with
  | submit u data sized =>
    rw [Command.bytes, List.append_assoc] at h
    obtain ⟨hdr, -, hl⟩ := Client.readExact_some h (length_header u cmdSubmit)
    obtain ⟨hcmd, hseq, hdir, -, hlen⟩ := headerWord_urb hl
    have hsub : Submission hdr data rest s :=
      ⟨hcmd, hl ▸ h, by rw [headerDirection, headerTransferLen, hdir, hlen, sized]⟩
    have hclient : (served hdr data rest s).2.client = { s.client with input := rest } :=
      submit_client ..
    refine ⟨retSubmitBytes u.seqnum (served hdr data rest s).1.1 (served hdr data rest s).1.2,
      ((served hdr data rest s).2.sendRetSubmit u.seqnum (served hdr data rest s).1.1
        (served hdr data rest s).1.2).2,
      replied_submit u data sized _ (length_submit _ _ _ _ _ _), ?_, ?_⟩
    · rw [turn_submission hsub, hseq, ← hclient]
      rfl
    · rw [← hclient]
      rfl
  | unlink u =>
    obtain ⟨hdr, hread, hl⟩ := Client.readExact_some h (length_header u cmdUnlink)
    obtain ⟨hcmd, hseq, -⟩ := headerWord_urb hl
    have hne : ¬cmdUnlink = cmdSubmit := by decide
    refine ⟨retUnlinkBytes u.seqnum,
      (sendRetUnlink u.seqnum { s with client := { s.client with input := rest } }).2,
      replied_unlink u, ?_, rfl⟩
    simp only [turn, hread, hcmd, if_neg hne, if_true, hseq]
    rfl

structure InStep (cmds : List Command) (rest : List UInt8) (s : UrbSession ν)
    (replies : List (List UInt8)) : Prop where
  count : replies.length = cmds.length
  loop : ∃ s' : UrbSession ν, s.urbLoop = s'.urbLoop ∧ s'.client =
    ⟨rest, s.client.output ++ replies.flatten, s.client.cut, s.client.writes + cmds.length⟩

structure Severed (cmds : List Command) (rest : List UInt8) (s : UrbSession ν)
    (sent : List (List UInt8)) (reply : List UInt8) (k : ℕ) : Prop where
  cut : s.client.cut (s.client.writes + sent.length) = some k
  exit : s.urbLoop.1 = .failed
  input : s.urbLoop.2.client.input = (cmds.drop (sent.length + 1)).flatMap Command.bytes ++ rest
  output : s.urbLoop.2.client.output = s.client.output ++ (sent.flatten ++ reply.take k)

section
variable {c : Command} {cmds : List Command} {rest reply : List UInt8} {s s' : UrbSession ν}

theorem inStep_cons {replies : List (List UInt8)} (hloop : s.urbLoop = s'.urbLoop)
    (hclient : s'.client = ⟨cmds.flatMap Command.bytes ++ rest, s.client.output ++ reply,
      s.client.cut, s.client.writes + 1⟩) (h : InStep cmds rest s' replies) :
    InStep (c :: cmds) rest s (reply :: replies) := by
  obtain ⟨s'', hl, hc⟩ := h.loop
  refine ⟨congrArg (· + 1) h.count, s'', hloop.trans hl, ?_⟩
  rw [hc, hclient]
  simp only [List.flatten_cons, List.append_assoc, List.length_cons, Nat.add_assoc, Nat.add_comm 1]

theorem severed_cons {sent : List (List UInt8)} {last : List UInt8} {k : ℕ}
    (hloop : s.urbLoop = s'.urbLoop)
    (hclient : s'.client = ⟨cmds.flatMap Command.bytes ++ rest, s.client.output ++ reply,
      s.client.cut, s.client.writes + 1⟩) (h : Severed cmds rest s' sent last k) :
    Severed (c :: cmds) rest s (reply :: sent) last k := by
  refine ⟨?_, hloop ▸ h.exit, hloop ▸ h.input, ?_⟩
  · have hk := h.cut
    rw [hclient] at hk
    simpa only [List.length_cons, Nat.add_assoc, Nat.add_comm 1] using hk
  · rw [hloop, h.output, hclient]
    simp only [List.flatten_cons, List.append_assoc]

end

theorem urbLoop_commands (cmds : List Command) (rest : List UInt8) {s : UrbSession ν}
    (h : s.client.input = cmds.flatMap Command.bytes ++ rest) :
    ∃ replies, List.Forall₂ Replied (cmds.take replies.length) replies ∧
      (InStep cmds rest s replies ∨
        ∃ sent reply k, replies = sent ++ [reply] ∧ Severed cmds rest s sent reply k) := by
  induction cmds generalizing s with
  | nil =>
    refine ⟨[], List.Forall₂.nil, Or.inl ⟨rfl, s, rfl, ?_⟩⟩
    rw [List.flatMap_nil, List.nil_append] at h
    rw [← h, List.flatten_nil, List.append_nil]
    rfl
  | cons c cmds ih =>
    rw [List.flatMap_cons, List.append_assoc] at h
    obtain ⟨reply, s', hreply, hturn, hclient⟩ := turn_command c h
    cases hcut : s.client.cut s.client.writes with
    | none =>
      simp only [Client.writeAll, hcut] at hturn hclient
      have hloop : s.urbLoop = s'.urbLoop := urbLoop_next hturn
      obtain ⟨replies, hall, hin | ⟨sent, last, k, rfl, hsev⟩⟩ :=
        ih (s := s') (congrArg Client.input hclient)
      · exact ⟨reply :: replies, List.Forall₂.cons hreply hall,
          Or.inl (inStep_cons hloop hclient hin)⟩
      · exact ⟨reply :: (sent ++ [last]), List.Forall₂.cons hreply hall,
          Or.inr ⟨reply :: sent, last, k, rfl, severed_cons hloop hclient hsev⟩⟩
    | some k =>
      simp only [Client.writeAll, hcut] at hturn hclient
      have hloop : s.urbLoop = (.failed, s') := urbLoop_exit hturn
      refine ⟨[reply], List.Forall₂.cons hreply List.Forall₂.nil,
        Or.inr ⟨[], reply, k, rfl, hcut, ?_, ?_, ?_⟩⟩ <;> rw [hloop]
      · rw [hclient]
        rfl
      · rw [hclient]
        rfl

theorem urbLoop_starved {s : UrbSession ν} (h : s.client.input.length < headerLen) :
    s.urbLoop = (.closed, { s with client := { s.client with input := [] } }) := by
  apply urbLoop_exit
  have hread : s.client.readExact headerLen = (none, { s.client with input := [] }) :=
    dif_neg (Nat.not_le.mpr h)
  simp only [turn, hread]

end UrbSession

theorem urb_loop_in_step [Network ν] (cmds : List Command) (rest : List UInt8) (cut : ℕ → Option ℕ)
    (bridge : DapBridge ν) (metrics : UsbMetrics) :
    let s : UrbSession ν := ⟨.new (cmds.flatMap Command.bytes ++ rest) cut, bridge, metrics⟩
    ∃ replies, List.Forall₂ Replied (cmds.take replies.length) replies ∧
      ((replies.length = cmds.length ∧
          (∃ s' : UrbSession ν, s.urbLoop = s'.urbLoop ∧ s'.client.input = rest ∧
            s'.client.output = replies.flatten) ∧
          (rest.length < headerLen →
            s.urbLoop.1 = .closed ∧ s.urbLoop.2.client.output = replies.flatten)) ∨
        ∃ sent reply k, replies = sent ++ [reply] ∧ cut sent.length = some k ∧
          s.urbLoop.1 = .failed ∧
          s.urbLoop.2.client.input = (cmds.drop replies.length).flatMap Command.bytes ++ rest ∧
          s.urbLoop.2.client.output = sent.flatten ++ reply.take k) := by
  intro s
  obtain ⟨replies, hall, hin | ⟨sent, reply, k, rfl, hsev⟩⟩ :=
    UrbSession.urbLoop_commands cmds rest (s := s) rfl
  · obtain ⟨s', hloop, hclient⟩ := hin.loop
    have hinput : s'.client.input = rest := congrArg Client.input hclient
    have houtput : s'.client.output = replies.flatten := congrArg Client.output hclient
    refine ⟨replies, hall, Or.inl ⟨hin.count, ⟨s', hloop, hinput, houtput⟩, fun hrest => ?_⟩⟩
    rw [hloop, UrbSession.urbLoop_starved (hinput ▸ hrest)]
    exact ⟨rfl, houtput⟩
  · refine ⟨_, hall, Or.inr ⟨sent, reply, k, rfl, ?_, hsev.exit, ?_, ?_⟩⟩
    · simpa [s, Client.new] using hsev.cut
    · simpa using hsev.input
    · simpa [s, Client.new] using hsev.output

end DapProxy.Host
