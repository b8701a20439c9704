import DapProxy.Host.Peer
import DapProxy.Host.Reader

namespace DapProxy.Host
open DapLink

structure Ground (p : Peer) : Prop where
  written : ∀ w ∈ p.writes, w.conn < p.opened
  untouched : ∀ c, p.opened ≤ c → p.taken c = 0

structure Inv (l : DapLink Peer) : Prop where
  ground : Ground l.net
  held : ∀ c, l.stream = some c → c < l.net.opened
  settled : Settled l

structure ReadOn (c : ℕ) (p : Peer) (l : DapLink Peer) : Prop where
  stream : l.stream = some c
  answers : l.net.answers = p.answers
  writes : l.net.writes = p.writes
  opened : l.net.opened = p.opened
  others : ∀ c', c' ≠ c → l.net.taken c' = p.taken c'

structure Unread (c : ℕ) (p : Peer) (bytes : List UInt8) (l : DapLink Peer) : Prop
    extends ReadOn c p l where
  unread : l.net.unread c = bytes
  taken : l.net.taken c + bytes.length =
    (Peer.stream p.answers c (received p.writes c).length).length

theorem readOn_take {c : ℕ} {p : Peer} {l : DapLink Peer} (h : ReadOn c p l) (n : ℕ) :
    ReadOn c p { l with net := l.net.advance.take c n } := by
  refine ⟨h.stream, h.answers, h.writes, h.opened, fun c' hc => ?_⟩
  simpa [Peer.take, Peer.advance, Function.update_of_ne hc] using h.others c' hc

theorem unread_take (p : Peer) (c n : ℕ) :
    (p.advance.take c n).unread c = (p.unread c).drop n := by
  simp [Peer.unread, Peer.take, Peer.advance, List.drop_drop]

theorem peer_source (c : ℕ) (p : Peer) : Source (Unread c p) (ReadOn c p) where
  read := by
    intro n bytes l h hn
    have hlen : n ≤ (l.net.unread c).length := h.unread.symm ▸ hn
    cases hf : l.net.fate l.net.tick with
    | succeed =>
      refine Or.inl ⟨_, _, readExact_done (l.net.advance.take c n) h.stream
        (v := bufferOf n (l.net.unread c) hlen) ?_, ?_, readOn_take h.toReadOn n, ?_, ?_⟩
      · simp only [Network.readExact, hf, dif_pos hlen]
      · rw [bufferOf_toList, h.unread]
      · rw [unread_take, h.unread]
      · have ht := h.taken
        simp only [Peer.take, Peer.advance, Function.update_self, List.length_drop]
        omega
    | fail e moved =>
      refine Or.inr ⟨_, _, readExact_failed _ h.stream (e := e) ?_,
        readOn_take h.toReadOn (min moved (min n (l.net.unread c).length))⟩
      simp only [Network.readExact, hf]
    | elapse moved =>
      refine Or.inr ⟨_, _, readExact_elapsed _ h.stream ?_,
        readOn_take h.toReadOn (min moved (min n (l.net.unread c).length))⟩
      simp only [Network.readExact, hf]

theorem ground_readOn {c : ℕ} {p : Peer} {l : DapLink Peer} (hg : Ground p) (hc : c < p.opened)
    (h : ReadOn c p l) : Ground l.net where
  written := by
    rw [h.writes, h.opened]
    exact hg.written
  untouched := by
    intro c' hc'
    rw [h.opened] at hc'
    rw [h.others c' (by omega)]
    exact hg.untouched c' hc'

theorem inv_disconnect {l : DapLink Peer} (h : Ground l.net) : Inv l.disconnect := by
  rw [DapLink.disconnect]
  split
  · next hs => exact ⟨h, by simp [hs], by simp [Settled, hs]⟩
  · exact ⟨h, by simp, by simp [Settled]⟩

theorem disconnect_net (l : DapLink Peer) : l.disconnect.net = l.net := by
  rw [DapLink.disconnect]
  split <;> rfl

theorem received_append (ws vs : List Write) (c : ℕ) :
    received (ws ++ vs) c = received ws c ++ received vs c := List.filter_append ..

theorem received_fresh {ws : List Write} {c : ℕ} (h : ∀ w ∈ ws, w.conn < c) :
    received ws c = [] := by
  rw [received, List.filter_eq_nil_iff]
  intro w hw hc
  simp only [Bool.and_eq_true, beq_iff_eq] at hc
  exact absurd hc.1 (Nat.ne_of_lt (h w hw))

structure Untouched (l l' : DapLink Peer) : Prop where
  answers : l'.net.answers = l.net.answers
  writes : l'.net.writes = l.net.writes

theorem connect_cases {l : DapLink Peer} (h : Inv l) (hs : l.stream = none) :
    Inv l.connect.2 ∧ Untouched l l.connect.2 ∧
      ((∃ e, l.connect.1 = .error e ∧ l.connect.2.stream = none) ∨
        (l.connect.1 = .ok () ∧ l.connect.2.stream = some l.net.opened)) := by
  cases hf : l.net.fate l.net.tick with
  | succeed =>
    rw [connect_done { l.net.advance with opened := l.net.opened + 1 } (c := l.net.opened)
      (by simp only [Network.connect, hf])]
    refine ⟨⟨⟨fun w hw => Nat.lt_succ_of_lt (h.ground.written w hw), ?_⟩, ?_, ?_⟩, ⟨rfl, rfl⟩,
      Or.inr ⟨rfl, rfl⟩⟩
    · exact fun c hc => h.ground.untouched c (Nat.le_of_succ_le hc)
    · intro c hc
      simp only [Option.some.injEq] at hc
      exact hc ▸ Nat.lt_succ_self _
    · intro c hc
      simp only [Option.some.injEq] at hc
      subst hc
      refine ⟨fun w hw hc => absurd hc (Nat.ne_of_lt (h.ground.written w hw)), ?_⟩
      have ht := h.ground.untouched _ (Nat.le_refl l.net.opened)
      change l.net.taken l.net.opened = (Peer.stream _ _ (received l.net.writes _).length).length
      rw [ht, received_fresh h.ground.written]
      rfl
  | fail e moved =>
    rw [connect_failed l.net.advance (e := e) (by simp only [Network.connect, hf])]
    exact ⟨⟨⟨h.ground.written, h.ground.untouched⟩, h.held, h.settled⟩, ⟨rfl, rfl⟩,
      Or.inl ⟨_, rfl, hs⟩⟩
  | elapse moved =>
    rw [connect_elapsed l.net.advance (by simp only [Network.connect, hf])]
    exact ⟨⟨⟨h.ground.written, h.ground.untouched⟩, h.held, h.settled⟩, ⟨rfl, rfl⟩,
      Or.inl ⟨_, rfl, hs⟩⟩

theorem ensure_cases {l : DapLink Peer} (h : Inv l) :
    Inv l.ensure.2 ∧ Untouched l l.ensure.2 ∧
      ((∃ e, l.ensure.1 = .error e ∧ l.ensure.2.stream = none) ∨
        ∃ c, l.ensure.1 = .ok () ∧ l.ensure.2.stream = some c ∧
          (l.stream = some c ∨ l.stream = none ∧ c = l.net.opened)) := by
  rw [DapLink.ensure]
  cases hs : l.stream with
  | none =>
    obtain ⟨hi, hu, he | ho⟩ := connect_cases h hs
    · exact ⟨hi, hu, Or.inl he⟩
    · exact ⟨hi, hu, Or.inr ⟨_, ho.1, ho.2, Or.inr ⟨rfl, rfl⟩⟩⟩
  | some c =>
    exact ⟨h, ⟨rfl, rfl⟩, Or.inr ⟨c, rfl, hs, Or.inl rfl⟩⟩

theorem stream_succ (answers : ℕ → ℕ → Answer) (c n : ℕ) :
    Peer.stream answers c (n + 1) = Peer.stream answers c n ++ wire (answers c n).bytes := by
  simp [Peer.stream, List.range_succ]

theorem ground_write {p : Peer} {c : ℕ} (h : Ground p) (hc : c < p.opened) (data : List UInt8)
    (whole : Bool) : Ground (p.advance.write c data whole) where
  written := by
    intro w hw
    simp only [Peer.write, List.mem_append, List.mem_singleton] at hw
    rcases hw with hw | rfl
    · exact h.written w hw
    · exact hc
  untouched := h.untouched

theorem unread_write {l : DapLink Peer} {c : ℕ} (h : Inv l) (hs : l.stream = some c)
    (data : List UInt8) :
    Unread c (l.net.advance.write c data true)
      (wire (l.net.answers c (received l.net.writes c).length).bytes)
      { l with net := l.net.advance.write c data true } := by
  have hreceived : received (l.net.writes ++ [⟨c, data, true⟩]) c =
      received l.net.writes c ++ [⟨c, data, true⟩] := by
    rw [received_append]
    simp [received]
  have htaken := (h.settled c hs).2
  refine ⟨⟨hs, rfl, rfl, rfl, fun _ _ => rfl⟩, ?_, ?_⟩
  · simp only [Peer.unread, Peer.write, Peer.advance, hreceived, List.length_append,
      List.length_singleton, stream_succ, htaken]
    simp
  · simp only [Peer.write, Peer.advance, hreceived, List.length_append, List.length_singleton,
      stream_succ, htaken]

theorem settled_read {c : ℕ} {p : Peer} {l : DapLink Peer}
    (hw : ∀ w ∈ p.writes, w.conn = c → w.whole) (h : Unread c p [] l) : Settled l := by
  intro c' hc'
  obtain rfl : c = c' := Option.some.inj (h.stream.symm.trans hc')
  rw [h.writes, h.answers]
  exact ⟨hw, h.taken⟩

structure Wrote (l l' : DapLink Peer) (payload : List UInt8) (w : Write) : Prop where
  data : w.data = wire payload
  writes : l'.net.writes = l.net.writes ++ [w]
  conn : l.stream = some w.conn ∨ l.stream = none ∧ w.conn = l.net.opened

theorem writeAll_cases {l : DapLink Peer} {c : ℕ} (hs : l.stream = some c)
    (data : List UInt8) :
    ∃ whole res, l.writeAll data = (res, { l with net := l.net.advance.write c data whole }) ∧
      (res = .ok () ∧ whole = true ∨ ∃ e, res = .error e) := by
  cases hf : l.net.fate l.net.tick with
  | succeed =>
    refine ⟨true, _, writeAll_done _ hs ?_, Or.inl ⟨rfl, rfl⟩⟩
    simp only [Network.writeAll, hf]
  | fail e moved =>
    refine ⟨data.length ≤ moved, _, writeAll_failed _ (e := e) hs ?_, Or.inr ⟨_, rfl⟩⟩
    simp only [Network.writeAll, hf]
  | elapse moved =>
    refine ⟨data.length ≤ moved, _, writeAll_elapsed _ hs ?_, Or.inr ⟨_, rfl⟩⟩
    simp only [Network.writeAll, hf]

theorem exchange_cases {l : DapLink Peer} {c : ℕ} (h : Inv l) (hs : l.stream = some c)
    (data : List UInt8) :
    ∃ l', ReadOn c (l.net.advance.write c data true) l' ∧
      ((DapLink.readFrame { l with net := l.net.advance.write c data true } =
            (.ok (l.net.answers c (received l.net.writes c).length).bytes, l') ∧ Settled l') ∨
        ∃ e, DapLink.readFrame { l with net := l.net.advance.write c data true } =
          (.error e, l')) := by
  have hunread := unread_write h hs data
  rw [← List.append_nil (wire _)] at hunread
  rcases (peer_source c _).readFrame (l.net.answers c _).bounded hunread with
    ⟨l', hr, hl'⟩ | ⟨e, l', hr, hl'⟩
  · refine ⟨l', hl'.toReadOn, Or.inl ⟨hr, settled_read ?_ hl'⟩⟩
    intro w hmem hc
    simp only [Peer.write, Peer.advance, List.mem_append, List.mem_singleton] at hmem
    rcases hmem with hmem | rfl
    · exact (h.settled c hs).1 w hmem hc
    · rfl
  · exact ⟨l', hl', Or.inr ⟨e, hr⟩⟩

theorem tryRequest_cases {l : DapLink Peer} (h : Inv l) (payload : List UInt8) :
    ∃ res l', l.tryRequest payload = (res, l') ∧ Inv l' ∧ l'.net.answers = l.net.answers ∧
      ((∃ e, res = .error e ∧ l'.stream = none ∧ l'.net.writes = l.net.writes) ∨
        ∃ w, Wrote l l' payload w ∧
          ((∃ e, res = .error e ∧ l'.stream = none) ∨
            res = .ok (l.net.answers w.conn (received l.net.writes w.conn).length).bytes ∧
              w.whole = true)) := by
  obtain ⟨h₁, hu, ⟨e, he, hs⟩ | ⟨c, hok, hs, hc⟩⟩ := ensure_cases h
  · exact ⟨.error e, l.ensure.2, tryRequest_unconnected (Prod.ext he rfl), h₁, hu.answers,
      Or.inl ⟨e, rfl, hs, hu.writes⟩⟩
  rcases hl : l.ensure with ⟨r, l₁⟩
  rw [hl] at h₁ hu hok hs
  simp only at h₁ hu hok hs
  subst hok
  have hopen := h₁.held c hs
  have hground (whole : Bool) := ground_write h₁.ground hopen (wire payload) whole
  have hwrote (whole : Bool) {l' : DapLink Peer}
      (hw : l'.net.writes = (l₁.net.advance.write c (wire payload) whole).writes) :
      Wrote l l' payload ⟨c, wire payload, whole⟩ :=
    ⟨rfl, by rw [hw, ← hu.writes]; rfl, hc⟩
  obtain ⟨whole, res, hw, ⟨rfl, rfl⟩ | ⟨e, rfl⟩⟩ := writeAll_cases hs (wire payload)
  · have htry := tryRequest_written hl hw
    obtain ⟨l', hon, ⟨hr, hset⟩ | ⟨e, hr⟩⟩ := exchange_cases h₁ hs (wire payload)
    · simp only [hr] at htry
      refine ⟨_, l', htry, ⟨ground_readOn (hground true) hopen hon, ?_, hset⟩,
        hon.answers.trans hu.answers, Or.inr ⟨_, hwrote true hon.writes, Or.inr ⟨?_, rfl⟩⟩⟩
      · intro c' hc'
        obtain rfl : c = c' := Option.some.inj (hon.stream.symm.trans hc')
        rw [hon.opened]
        exact hopen
      · rw [hu.answers, hu.writes]
    · simp only [hr] at htry
      refine ⟨_, l'.disconnect, htry, inv_disconnect (ground_readOn (hground true) hopen hon), ?_,
        Or.inr ⟨_, hwrote true ?_, Or.inl ⟨e, rfl, disconnect_stream l'⟩⟩⟩
      · rw [disconnect_net]
        exact hon.answers.trans hu.answers
      · rw [disconnect_net]
        exact hon.writes
  · refine ⟨_, _, tryRequest_unwritten hl hw, inv_disconnect (hground whole), ?_,
      Or.inr ⟨_, hwrote whole ?_, Or.inl ⟨e, rfl, disconnect_stream _⟩⟩⟩
    · rw [disconnect_net]
      exact hu.answers
    · rw [disconnect_net]

theorem inv_metrics {l : DapLink Peer} (h : Inv l) (m : Metrics) :
    Inv { l with metrics := m } := ⟨h.ground, h.held, h.settled⟩

structure Answered (l : DapLink Peer) (r : Except LinkError (List UInt8) × DapLink Peer)
    (ws : List Write) : Prop where
  writes : r.2.net.writes = l.net.writes ++ ws
  answered : ∀ resp, r.1 = .ok resp → ∃ before w, ws = before ++ [w] ∧ w.whole ∧
    resp = (l.net.answers w.conn (received (l.net.writes ++ before) w.conn).length).bytes
  settled : Settled r.2

theorem again_cases {l : DapLink Peer} (h : Inv l) (hs : l.stream = none)
    (payload : List UInt8) :
    Inv (l.again payload).2 ∧ (l.again payload).2.net.answers = l.net.answers ∧
      ∃ ws, Answered l (l.again payload) ws ∧
        (ws = [] ∨ ∃ w, ws = [w] ∧ w.data = wire payload ∧ w.conn = l.net.opened) := by
  have hretried : l.retried.disconnect = l.retried := disconnect_none hs
  have hstart : Inv l.retried := inv_metrics h _
  rw [DapLink.again]
  rw [hretried]
  obtain ⟨h₁, hu, ⟨e, he, hs₁⟩ | ⟨hok, hs₁⟩⟩ := connect_cases hstart hs
  · rw [show l.retried.connect = (.error e, l.retried.connect.2) from Prod.ext he rfl]
    exact ⟨h₁, hu.answers, [], ⟨hu.writes.trans (List.append_nil l.net.writes).symm, by simp,
      h₁.settled⟩, Or.inl rfl⟩
  · rw [show l.retried.connect = (.ok (), l.retried.connect.2) from Prod.ext hok rfl]
    generalize l.retried.connect.2 = l₂ at h₁ hu hs₁
    have hw₂ : l₂.net.writes = l.net.writes := hu.writes
    have ha₂ : l₂.net.answers = l.net.answers := hu.answers
    obtain ⟨res, l', htry, h', ha, ⟨e, rfl, -, hw⟩ | ⟨w, hw, hres⟩⟩ := tryRequest_cases h₁ payload
    · simp only [htry]
      exact ⟨inv_metrics h' _, ha.trans ha₂, [], ⟨by simpa using hw.trans hw₂, by simp, h'.settled⟩,
        Or.inl rfl⟩
    · have hconn : w.conn = l.net.opened := by
        rcases hw.conn with hc | ⟨hc, -⟩
        · exact (Option.some.inj (hs₁.symm.trans hc)).symm
        · exact absurd (hs₁.symm.trans hc) (by simp)
      have hwrites : l'.net.writes = l.net.writes ++ [w] := by rw [hw.writes, hw₂]
      rcases hres with ⟨e, rfl, -⟩ | ⟨rfl, hwhole⟩
      · simp only [htry]
        exact ⟨inv_metrics h' _, ha.trans ha₂, [w], ⟨hwrites, by simp, h'.settled⟩,
          Or.inr ⟨w, rfl, hw.data, hconn⟩⟩
      · simp only [htry]
        refine ⟨h', ha.trans ha₂, [w], ⟨hwrites, ?_, h'.settled⟩, Or.inr ⟨w, rfl, hw.data, hconn⟩⟩
        intro resp hresp
        refine ⟨[], w, rfl, hwhole, ?_⟩
        rw [← Except.ok.inj hresp, ha₂, hw₂, List.append_nil]

structure Paired (l : DapLink Peer) (payload : List UInt8)
    (r : Except LinkError (List UInt8) × DapLink Peer) (ws : List Write) : Prop
    extends Answered l r ws where
  data : ∀ w ∈ ws, w.data = wire payload
  twice : ws.length ≤ 2
  fresh : ∀ w w', ws = [w, w'] → ∀ v ∈ l.net.writes ++ [w], v.conn < w'.conn

theorem paired_again {l l₁ : DapLink Peer} {payload : List UInt8} {ws : List Write} (h₁ : Inv l₁)
    (hs : l₁.stream = none) (ha : l₁.net.answers = l.net.answers)
    (hw : l₁.net.writes = l.net.writes ++ ws) (hd : ∀ w ∈ ws, w.data = wire payload)
    (hl : ws.length ≤ 1) :
    Inv (l₁.again payload).2 ∧ (l₁.again payload).2.net.answers = l.net.answers ∧
      ∃ ws, Paired l payload (l₁.again payload) ws := by
  obtain ⟨h', ha', ws', hans, hws'⟩ := again_cases h₁ hs payload
  refine ⟨h', ha'.trans ha, ws ++ ws', ⟨⟨?_, ?_, hans.settled⟩, ?_, ?_, ?_⟩⟩
  · rw [hans.writes, hw, List.append_assoc]
  · intro resp hresp
    obtain ⟨before, w, rfl, hwhole, hbytes⟩ := hans.answered resp hresp
    refine ⟨ws ++ before, w, by simp, hwhole, ?_⟩
    rw [hbytes, ha, hw, List.append_assoc]
  · rcases hws' with rfl | ⟨w', rfl, hd', -⟩
    · simpa using hd
    · simpa [or_imp, forall_and, hd'] using hd
  · rcases hws' with rfl | ⟨w', rfl, -, -⟩ <;> simp <;> omega
  · intro w w' hpair v hv
    rcases hws' with rfl | ⟨w'', rfl, -, hc⟩
    · rw [List.append_nil] at hpair
      rw [hpair] at hl
      simp at hl
    · obtain ⟨rfl, rfl⟩ : ws = [w] ∧ w'' = w' := by
        match ws, hl with
        | [], _ => simp at hpair
        | [_], _ => simpa using hpair
      rw [hc]
      exact h₁.ground.written v (hw ▸ hv)

theorem request_paired {l : DapLink Peer} (h : Inv l) (payload : List UInt8) :
    Inv (l.request payload).2 ∧ (l.request payload).2.net.answers = l.net.answers ∧
      ∃ ws, Paired l payload (l.request payload) ws := by
  rcases Nat.lt_or_ge maxFrame payload.length with hp | hp
  · rw [request_refused hp]
    exact ⟨h, rfl, [], ⟨⟨(List.append_nil _).symm, by simp, h.settled⟩, by simp, by simp, by simp⟩⟩
  have hcounted : Inv l.counted := inv_metrics h _
  obtain ⟨res, l₁, htry, h₁, ha, ⟨e, rfl, hs, hw⟩ | ⟨w, hw, ⟨e, rfl, hs⟩ | ⟨rfl, hwhole⟩⟩⟩ :=
    tryRequest_cases hcounted payload
  · rw [request_again hp htry]
    have hnone : l₁.net.writes = l.net.writes ++ [] := hw.trans (List.append_nil l.net.writes).symm
    exact paired_again h₁ hs ha hnone (by simp) (by simp)
  · rw [request_again hp htry]
    exact paired_again h₁ hs ha hw.writes (by simpa using hw.data) (by simp)
  · rw [request_first hp htry]
    refine ⟨inv_metrics h₁ _, ha, [w], ⟨⟨hw.writes, ?_, h₁.settled⟩, ?_, by simp, by simp⟩⟩
    · intro resp hresp
      refine ⟨[], w, rfl, hwhole, ?_⟩
      rw [← Except.ok.inj hresp, List.append_nil]
      rfl
    · simpa using hw.data

theorem inv_new (answers : ℕ → ℕ → Answer) (fate : ℕ → Fate) (clock : ℕ → ℕ) :
    Inv (DapLink.new (Peer.new answers fate clock)) := by
  refine ⟨⟨?_, fun _ _ => rfl⟩, ?_, ?_⟩
  · intro w hw
    cases hw
  · intro c hc
    cases hc
  · intro c hc
    cases hc

theorem requests_inv {l : DapLink Peer} (h : Inv l) (ps : List (List UInt8)) :
    Inv (l.requests ps).2 ∧ (l.requests ps).2.net.answers = l.net.answers := by
  induction ps generalizing l with
  | nil => exact ⟨h, rfl⟩
  | cons p ps ih =>
    obtain ⟨h₁, ha, -⟩ := request_paired h p
    obtain ⟨h₂, ha'⟩ := ih h₁
    exact ⟨h₂, ha'.trans ha⟩

theorem responses_match_requests (answers : ℕ → ℕ → Answer) (fate : ℕ → Fate) (clock : ℕ → ℕ)
    (calls : List (List UInt8)) (payload : List UInt8) :
    let l := ((DapLink.new (Peer.new answers fate clock)).requests calls).2
    let r := l.request payload
    ∃ ws, r.2.net.writes = l.net.writes ++ ws ∧ ws.length ≤ 2 ∧
      (∀ w ∈ ws, w.data = wire payload) ∧
      (∀ w w', ws = [w, w'] → ∀ v ∈ l.net.writes ++ [w], v.conn < w'.conn) ∧
      (∀ resp, r.1 = .ok resp → ∃ before w, ws = before ++ [w] ∧ w.whole ∧
        resp = (answers w.conn (received (l.net.writes ++ before) w.conn).length).bytes) ∧
      (r.2.stream = none ∨ ∃ c, r.2.stream = some c ∧
        (∀ w ∈ r.2.net.writes, w.conn = c → w.whole) ∧
        r.2.net.taken c =
          (Peer.stream answers c (received r.2.net.writes c).length).length) := by
  obtain ⟨hinv, ha⟩ := requests_inv (inv_new answers fate clock) calls
  obtain ⟨-, ha', ws, hp⟩ := request_paired hinv payload
  refine ⟨ws, hp.writes, hp.twice, hp.data, hp.fresh, ?_, ?_⟩
  · intro resp hresp
    obtain ⟨before, w, hws, hwhole, hbytes⟩ := hp.answered resp hresp
    exact ⟨before, w, hws, hwhole, by rw [hbytes, ha]; rfl⟩
  · rcases hs : (DapLink.request payload
        ((DapLink.new (Peer.new answers fate clock)).requests calls).2).2.stream with _ | c
    · exact Or.inl rfl
    · refine Or.inr ⟨c, rfl, ?_⟩
      have hset := hp.settled c hs
      rw [ha', ha] at hset
      exact hset

end DapProxy.Host
