import DapProxy.Host.Urb

namespace DapProxy.Host
open Words

def devlistRequest (status : Vector UInt8 4) : List UInt8 :=
  beHalfBytes version ++ beHalfBytes opReqDevlist ++ status.toList

def importRequest (status : Vector UInt8 4) (busid : Vector UInt8 32) : List UInt8 :=
  beHalfBytes version ++ beHalfBytes opReqImport ++ status.toList ++ busid.toList

def Owns (busid : Vector UInt8 32) : Prop :=
  ∃ n, busid.toList = asBytes usbipBusid ++ List.replicate n 0

inductive Ends : List UInt8 → Opening → List UInt8 → List UInt8 → Prop
  | accepted {status : Vector UInt8 4} {busid : Vector UInt8 32} (rest : List UInt8)
      (owns : Owns busid) : Ends (importRequest status busid ++ rest) .entered
        (pushDeviceBody (importReply 0)) rest
  | refused {status : Vector UInt8 4} {busid : Vector UInt8 32} (rest : List UInt8)
      (foreign : ¬Owns busid) : Ends (importRequest status busid ++ rest) .closed
        (importReply 1) rest
  | deviates {tail : List UInt8} {o : Opening} (left : List UInt8) (dropped : o ≠ .entered)
      (devlist : ∀ status rest, tail ≠ devlistRequest status ++ rest)
      (imports : ∀ status busid rest, tail ≠ importRequest status busid ++ rest) :
      Ends tail o [] left

theorem busid_accepted_iff (busid : Vector UInt8 32) :
    Utf8.trimEnd 0 (Utf8.lossy busid.toList) = asBytes usbipBusid ↔ Owns busid := by
  have hascii (n : ℕ) : ∀ c ∈ asBytes usbipBusid ++ List.replicate n 0, c < (0x80 : UInt8) := by
    intro c hc
    have hbusid : (asBytes usbipBusid).all (· < 0x80) = true := rfl
    rcases List.mem_append.mp hc with hc | hc
    · exact of_decide_eq_true (List.all_eq_true.mp hbusid c hc)
    · rw [(List.mem_replicate.mp hc).2]
      decide
  rw [Utf8.trimEnd_eq_iff (by decide)]
  exact exists_congr fun n => Utf8.lossy_eq_iff (hascii n)

theorem beHalfBytes_inj {v w : UInt16} (h : beHalfBytes v = beHalfBytes w) : v = w := by
  obtain ⟨hhi, hlo⟩ := List.cons.inj h
  rw [← beHalf_bytes v, ← beHalf_bytes w, hhi, (List.cons.inj hlo).1]

theorem head_toList (head : Vector UInt8 8) : ∃ status : Vector UInt8 4,
    head.toList =
      beHalfBytes (headVersion head) ++ beHalfBytes (headCommand head) ++ status.toList := by
  rcases head with ⟨⟨l⟩, hl⟩
  match l, hl with
  | [b0, b1, b2, b3, b4, b5, b6, b7], hl =>
    have hversion : headVersion ⟨⟨[b0, b1, b2, b3, b4, b5, b6, b7]⟩, hl⟩ = beHalf b0 b1 := rfl
    have hcommand : headCommand ⟨⟨[b0, b1, b2, b3, b4, b5, b6, b7]⟩, hl⟩ = beHalf b2 b3 := rfl
    refine ⟨⟨⟨[b4, b5, b6, b7]⟩, rfl⟩, ?_⟩
    rw [hversion, hcommand, beHalfBytes_half, beHalfBytes_half]
    rfl

theorem head_of_toList {head : Vector UInt8 8} {v c : UInt16} {status : List UInt8}
    (h : head.toList = beHalfBytes v ++ beHalfBytes c ++ status) :
    headVersion head = v ∧ headCommand head = c := by
  obtain ⟨status', hhead⟩ := head_toList head
  rw [hhead, List.append_assoc, List.append_assoc] at h
  obtain ⟨hv, hrest⟩ := List.append_inj h rfl
  exact ⟨beHalfBytes_inj hv, beHalfBytes_inj (List.append_inj hrest rfl).1⟩

namespace Client
variable {n : ℕ} {c c' : Client}

theorem readExact_input {v : Vector UInt8 n} (h : c.readExact n = (some v, c')) :
    c.input = v.toList ++ c'.input ∧ c' = { c with input := c'.input } := by
  rw [readExact] at h
  split at h
  · next hle =>
    obtain ⟨hv, rfl⟩ := Prod.mk.inj h
    rw [← Option.some.inj hv, bufferOf_toList]
    exact ⟨(List.take_append_drop n c.input).symm, rfl⟩
  · cases h

theorem readExact_starved (h : c.readExact n = (none, c')) : c' = { c with input := [] } := by
  rw [readExact] at h
  split at h
  · cases h
  · exact (Prod.mk.inj h).2.symm

theorem readExact_vector {v : Vector UInt8 n} {rest : List UInt8}
    (h : c.input = v.toList ++ rest) :
    c.readExact n = (some v, { c with input := rest }) := by
  obtain ⟨w, hread, hw⟩ := readExact_some h v.length_toList
  rw [hread, Vector.toList_inj.mp hw]

end Client

namespace Visit
variable {v : Visit}

def sent (v : Visit) (left reply : List UInt8) : Visit :=
  { v with client :=
      ⟨left, v.client.output ++ reply, v.client.cut, v.client.writes + 1⟩ }

def Open (v : Visit) : Prop := ∀ n, v.client.cut n = none

theorem replyDevlist_open (h : v.Open) :
    v.replyDevlist = (true, v.sent v.client.input devlistReply) := by
  rw [replyDevlist, Client.writeAll, h]
  rfl

theorem replyImport_owned (h : v.Open) {busid : Vector UInt8 32} {rest : List UInt8}
    (hin : v.client.input = busid.toList ++ rest) (howns : Owns busid) :
    v.replyImport = (some true,
      { v.sent rest (pushDeviceBody (importReply 0)) with usbSessions := v.usbSessions + 1 }) := by
  have hbusid := (busid_accepted_iff busid).mpr howns
  rw [replyImport, Client.readExact_vector hin]
  simp only [hbusid, ne_eq, not_true_eq_false, if_false, Client.writeAll, h v.client.writes]
  rfl

theorem replyImport_foreign (h : v.Open) {busid : Vector UInt8 32} {rest : List UInt8}
    (hin : v.client.input = busid.toList ++ rest) (howns : ¬Owns busid) :
    v.replyImport = (some false, v.sent rest (importReply 1)) := by
  have hbusid := mt (busid_accepted_iff busid).mp howns
  rw [replyImport, Client.readExact_vector hin]
  simp only [ne_eq, hbusid, not_false_eq_true, if_true, Client.writeAll, h v.client.writes]
  rfl

section
variable {status : Vector UInt8 4} {busid : Vector UInt8 32} {rest : List UInt8}

theorem turn_devlist (h : v.Open) (hin : v.client.input = devlistRequest status ++ rest) :
    v.turn = (none, v.sent rest devlistReply) := by
  obtain ⟨head, hread, hhead⟩ := Client.readExact_some hin (n := 8) (by
    simp only [devlistRequest, beHalfBytes, List.length_append, Vector.length_toList]
    rfl)
  obtain ⟨hversion, hcommand⟩ := head_of_toList hhead
  have hreply := replyDevlist_open (v := { v with client := { v.client with input := rest } }) h
  rw [turn, hread]
  simp only [hversion, hcommand, ne_eq, not_true_eq_false, if_false, if_true, hreply]
  rfl

theorem turn_import (hin : v.client.input = importRequest status busid ++ rest) :
    v.turn =
      match replyImport { v with client := { v.client with input := busid.toList ++ rest } } with
      | (none, v) => (some .failed, v)
      | (some false, v) => (some .closed, v)
      | (some true, v) => (some .entered, v) := by
  rw [importRequest, List.append_assoc] at hin
  obtain ⟨head, hread, hhead⟩ := Client.readExact_some hin (n := 8) (by
    simp only [beHalfBytes, List.length_append, Vector.length_toList]
    rfl)
  obtain ⟨hversion, hcommand⟩ := head_of_toList hhead
  have hother : headCommand head ≠ opReqDevlist := by
    rw [hcommand]
    decide
  rw [turn, hread]
  exact (if_neg (not_not.mpr hversion)).trans ((if_neg hother).trans (if_pos hcommand))

theorem turn_deviates (hdevlist : ∀ status rest, v.client.input ≠ devlistRequest status ++ rest)
    (himport : ∀ status busid rest, v.client.input ≠ importRequest status busid ++ rest) :
    ∃ o left, o ≠ .entered ∧
      v.turn = (some o, { v with client := { v.client with input := left } }) := by
  rw [turn]
  rcases hread : v.client.readExact 8 with ⟨_ | head, client⟩
  · exact ⟨.closed, [], Opening.noConfusion, by rw [Client.readExact_starved hread]⟩
  · obtain ⟨hin, hclient⟩ := Client.readExact_input hread
    obtain ⟨status, hhead⟩ := head_toList head
    dsimp only
    rw [hclient]
    by_cases hversion : headVersion head = version
    · rw [if_neg (not_not.mpr hversion)]
      rw [hversion] at hhead
      by_cases hlist : headCommand head = opReqDevlist
      · rw [hhead, hlist] at hin
        exact absurd hin (hdevlist status client.input)
      · rw [if_neg hlist]
        by_cases hcommand : headCommand head = opReqImport
        · rw [if_pos hcommand, replyImport]
          rcases hbusid : Client.readExact 32 { v.client with input := client.input } with
            ⟨_ | busid, client'⟩
          · refine ⟨.failed, [], Opening.noConfusion, ?_⟩
            simp only [Client.readExact_starved hbusid]
          · obtain ⟨hrest, -⟩ := Client.readExact_input hbusid
            change client.input = _ at hrest
            rw [hhead, hcommand, hrest, ← List.append_assoc] at hin
            exact absurd hin (himport status busid client'.input)
        · rw [if_neg hcommand]
          exact ⟨.closed, client.input, Opening.noConfusion, rfl⟩
    · rw [if_pos hversion]
      exact ⟨.closed, client.input, Opening.noConfusion, rfl⟩

end

theorem replyDevlist_input (v : Visit) : v.replyDevlist.2.client.input = v.client.input :=
  Client.writeAll_input devlistReply v.client

theorem turn_length {v' : Visit} (h : v.turn = (none, v')) :
    v'.client.input.length < v.client.input.length := by
  rw [turn] at h
  rcases hread : v.client.readExact 8 with ⟨_ | head, client⟩ <;> simp only [hread] at h
  · cases h
  · have hlen := Client.readExact_length hread
    split_ifs at h
    · cases h
    · rcases hreply : replyDevlist { v with client } with ⟨_ | _, v₁⟩ <;> simp only [hreply] at h
      · cases h
      · have hinput := replyDevlist_input { v with client }
        rw [hreply, (Prod.mk.inj h).2] at hinput
        change v'.client.input = client.input at hinput
        rw [hinput]
        omega
    · rcases himport : replyImport { v with client } with ⟨_ | _ | _, v₁⟩ <;>
        simp only [himport] at h <;> cases h
    · cases h

def handshake (v : Visit) : Opening × Visit :=
  match _h : v.turn with
  | (some o, v') => (o, v')
  | (none, v') => handshake v'
  termination_by v.client.input.length
  decreasing_by exact turn_length _h

theorem handshake_ends {v' : Visit} {o : Opening} (h : v.turn = (some o, v')) :
    v.handshake = (o, v') := by
  rw [handshake]
  split
  · next h' =>
    rw [h] at h'
    cases h'
    rfl
  · next h' =>
    rw [h] at h'
    cases h'

theorem handshake_next {v' : Visit} (h : v.turn = (none, v')) : v.handshake = v'.handshake := by
  rw [handshake]
  split
  · next h' =>
    rw [h] at h'
    cases h'
  · next h' =>
    rw [h] at h'
    cases h'
    rfl

def After (v : Visit) (o : Opening) (left reply : List UInt8) : Prop :=
  v.handshake.1 = o ∧ v.handshake.2.client.input = left ∧
    v.handshake.2.client.output = v.client.output ++ reply

theorem handshake_ended (h : v.Open)
    (hdevlist : ∀ status rest, v.client.input ≠ devlistRequest status ++ rest) :
    ∃ o reply left, Ends v.client.input o reply left ∧ v.After o left reply := by
  by_cases himport : ∃ status busid rest, v.client.input = importRequest status busid ++ rest
  · obtain ⟨status, busid, rest, hin⟩ := himport
    have hturn := turn_import hin
    by_cases howns : Owns busid
    · rw [replyImport_owned (v := { v with
        client := { v.client with input := busid.toList ++ rest } }) h rfl howns] at hturn
      refine ⟨_, _, _, hin.symm ▸ Ends.accepted rest howns, ?_⟩
      rw [After, handshake_ends hturn]
      exact ⟨rfl, rfl, rfl⟩
    · rw [replyImport_foreign (v := { v with
        client := { v.client with input := busid.toList ++ rest } }) h rfl howns] at hturn
      refine ⟨_, _, _, hin.symm ▸ Ends.refused rest howns, ?_⟩
      rw [After, handshake_ends hturn]
      exact ⟨rfl, rfl, rfl⟩
  · have hnone (status busid rest) : v.client.input ≠ importRequest status busid ++ rest :=
      fun hin => himport ⟨status, busid, rest, hin⟩
    obtain ⟨o, left, ho, hturn⟩ := turn_deviates hdevlist hnone
    refine ⟨o, [], left, .deviates left ho hdevlist hnone, ?_⟩
    rw [After, handshake_ends hturn]
    exact ⟨rfl, rfl, (List.append_nil _).symm⟩

theorem handshake_listed (h : v.Open) (n : ℕ) {listings : List (Vector UInt8 4)}
    {tail : List UInt8} (hn : listings.length = n)
    (hin : v.client.input = listings.flatMap devlistRequest ++ tail) :
    ∃ v' : Visit, v'.Open ∧ v.handshake = v'.handshake ∧ v'.client.input = tail ∧
      v'.client.output = v.client.output ++ (List.replicate n devlistReply).flatten := by
  induction listings generalizing v n with
  | nil =>
    subst hn
    exact ⟨v, h, rfl, hin, (List.append_nil _).symm⟩
  | cons status listings ih =>
    rw [List.flatMap_cons, List.append_assoc] at hin
    subst hn
    have hturn := turn_devlist h hin
    obtain ⟨v', hopen, hrun, hinput, houtput⟩ :=
      ih (v := v.sent (listings.flatMap devlistRequest ++ tail) devlistReply) h _ rfl rfl
    refine ⟨v', hopen, (handshake_next hturn).trans hrun, hinput, ?_⟩
    rw [houtput, List.length_cons, List.replicate_succ, List.flatten_cons, ← List.append_assoc]
    rfl

theorem exists_listings (input : List UInt8) :
    ∃ listings tail, input = List.flatMap devlistRequest listings ++ tail ∧
      ∀ status rest, tail ≠ devlistRequest status ++ rest := by
  induction hn : input.length using Nat.strong_induction_on generalizing input with
  | _ n ih =>
    by_cases h : ∃ status rest, input = devlistRequest status ++ rest
    · obtain ⟨status, rest, rfl⟩ := h
      have hlt : rest.length < n := by
        rw [← hn, devlistRequest, List.length_append, List.length_append, List.length_append]
        simp only [beHalfBytes, List.length_cons]
        omega
      obtain ⟨listings, tail, hrest, htail⟩ := ih _ hlt rest rfl
      exact ⟨status :: listings, tail, by rw [hrest, List.flatMap_cons, List.append_assoc], htail⟩
    · exact ⟨[], input, rfl, fun status rest hin => h ⟨status, rest, hin⟩⟩

theorem entered_iff (h : v.Open) : v.handshake.1 = .entered ↔
    ∃ listings status busid rest, Owns busid ∧
      v.client.input = List.flatMap devlistRequest listings ++
        (importRequest status busid ++ rest) := by
  constructor
  · intro hentered
    obtain ⟨listings, tail, hin, htail⟩ := exists_listings v.client.input
    obtain ⟨v', hopen, hrun, rfl, -⟩ := handshake_listed h _ rfl hin
    obtain ⟨o, reply, left, hends, ho, -, -⟩ := handshake_ended hopen htail
    rw [← hrun, hentered] at ho
    subst ho
    rw [hin]
    revert hends
    generalize v'.client.input = tail
    rintro (⟨_, howns⟩ | _ | ⟨_, hdropped⟩)
    · exact ⟨listings, _, _, left, howns, rfl⟩
    · exact absurd rfl hdropped
  · rintro ⟨listings, status, busid, rest, howns, hin⟩
    obtain ⟨v', hopen, hrun, hinput, -⟩ := handshake_listed h _ rfl hin
    have hturn := turn_import hinput
    rw [replyImport_owned (v := { v' with
      client := { v'.client with input := busid.toList ++ rest } }) hopen rfl howns] at hturn
    rw [hrun, handshake_ends hturn]

variable {ν : Type} [Network ν]

def handleConnection (net : ν) (metrics : UsbMetrics) (v : Visit) :
    Exit × Visit × Option (UrbSession ν) :=
  match v.handshake with
  | (.closed, v) => (.closed, v, none)
  | (.failed, v) => (.failed, v, none)
  | (.entered, v) =>
      let r := UrbSession.urbLoop ⟨v.client, .new net, metrics⟩
      (r.1, { v with client := r.2.client }, some r.2)

theorem handleConnection_entered {net : ν} {metrics : UsbMetrics} (h : v.handshake.1 = .entered) :
    (v.handleConnection net metrics).2.2 =
      some (UrbSession.urbLoop ⟨v.handshake.2.client, .new net, metrics⟩).2 := by
  rw [handleConnection]
  revert h
  rcases v.handshake with ⟨_ | _ | _, v'⟩ <;> intro h
  · cases h
  · cases h
  · rfl

theorem handleConnection_dropped {net : ν} {metrics : UsbMetrics} (h : v.handshake.1 ≠ .entered) :
    (v.handleConnection net metrics).2 = (v.handshake.2, none) := by
  rw [handleConnection]
  revert h
  rcases v.handshake with ⟨_ | _ | _, v'⟩ <;> intro h
  · rfl
  · rfl
  · exact absurd rfl h

end Visit

theorem pushDeviceBody_eq (buf : List UInt8) : pushDeviceBody buf = buf ++ pushDeviceBody [] := rfl

theorem length_padded {n : ℕ} {bytes : List UInt8} (h : bytes.length ≤ n) :
    (padded n bytes).length = n := by
  rw [padded, List.length_append, List.length_replicate]
  omega

theorem length_deviceBody : (pushDeviceBody []).length = 312 := by
  have hpath : (padded 256 (asBytes usbipPath)).length = 256 := length_padded (by decide)
  have hbusid : (padded 32 (asBytes usbipBusid)).length = 32 := length_padded (by decide)
  simp only [pushDeviceBody, List.nil_append, List.length_append, hpath, hbusid, length_beBytes]
  rfl

theorem length_importReply (status : UInt32) : (importReply status).length = 8 := rfl

theorem length_accepted : (pushDeviceBody (importReply 0)).length = 320 := by
  rw [pushDeviceBody_eq, List.length_append, length_importReply, length_deviceBody]

theorem devlistReply_eq : ∃ head, head.length = 12 ∧
    devlistReply = head ++ (pushDeviceBody [] ++ [0xFF, 0x00, 0x00, 0x00]) :=
  ⟨_, by rfl, List.append_assoc _ _ _⟩

theorem length_devlistReply : devlistReply.length = 328 := by
  obtain ⟨head, hlen, heq⟩ := devlistReply_eq
  rw [heq, List.length_append, List.length_append, hlen, length_deviceBody]
  rfl

theorem device_record_shared :
    (devlistReply.drop 12).take 312 = (pushDeviceBody (importReply 0)).drop 8 := by
  obtain ⟨head, hlen, heq⟩ := devlistReply_eq
  rw [heq, List.drop_left' hlen, List.take_left' length_deviceBody,
    pushDeviceBody_eq (importReply 0), List.drop_left' (length_importReply 0)]

theorem handshake_accepts_exactly {ν : Type} [Network ν] (input : List UInt8) (usbSessions : ℕ)
    (net : ν) (metrics : UsbMetrics) :
    let v : Visit := ⟨.new input fun _ => none, usbSessions⟩
    let r := v.handleConnection net metrics
    (r.2.2.isSome ↔ ∃ listings status busid rest, Owns busid ∧
        input = List.flatMap devlistRequest listings ++ (importRequest status busid ++ rest)) ∧
      (∃ listings tail reply left, input = List.flatMap devlistRequest listings ++ tail ∧
        Ends tail v.handshake.1 reply left ∧ v.handshake.2.client.input = left ∧
        v.handshake.2.client.output =
          (List.replicate listings.length devlistReply).flatten ++ reply) ∧
      (r.2.2.isSome →
        r.2.2 = some (UrbSession.urbLoop ⟨v.handshake.2.client, .new net, metrics⟩).2) ∧
      (r.2.2 = none → r.2.1 = v.handshake.2) ∧
      devlistReply.length = 328 ∧
      (pushDeviceBody (importReply 0)).length = 320 ∧
      wordAt (pushDeviceBody (importReply 0)) 4 = some 0 ∧
      (importReply 1).length = 8 ∧ wordAt (importReply 1) 4 = some 1 ∧
      (devlistReply.drop 12).take 312 = (pushDeviceBody (importReply 0)).drop 8 := by
  intro v r
  have hopen : v.Open := fun _ => rfl
  have hsome : r.2.2.isSome ↔ v.handshake.1 = .entered := by
    by_cases hentered : v.handshake.1 = .entered
    · exact iff_of_true (by rw [Visit.handleConnection_entered hentered]; rfl) hentered
    · refine iff_of_false ?_ hentered
      rw [show r.2 = (v.handshake.2, none) from Visit.handleConnection_dropped hentered]
      exact Bool.noConfusion
  obtain ⟨listings, tail, hin, htail⟩ := Visit.exists_listings input
  obtain ⟨v', hopen', hrun, rfl, houtput⟩ := Visit.handshake_listed hopen _ rfl hin
  obtain ⟨o, reply, left, hends, rfl, hleft, hreply⟩ := Visit.handshake_ended hopen' htail
  rw [← hrun] at hends hleft hreply
  rw [houtput] at hreply
  refine ⟨hsome.trans (Visit.entered_iff hopen),
    ⟨listings, _, reply, left, hin, hends, hleft, hreply⟩,
    fun h => Visit.handleConnection_entered (hsome.mp h), fun h => ?_, ?_⟩
  · have hdropped : v.handshake.1 ≠ .entered := fun hentered => by
      rw [← hsome, h] at hentered
      cases hentered
    exact congrArg Prod.fst (Visit.handleConnection_dropped hdropped)
  · exact ⟨length_devlistReply, length_accepted, rfl, rfl, rfl, device_record_shared⟩

end DapProxy.Host
