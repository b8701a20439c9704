import DapProxy.System.World

namespace DapProxy.System
open Framing Target Host

def octets : Format Octet := dapFormat.comap (·.byte)

def Octet.le (a b : Octet) : Prop := a.conn < b.conn ∨ a.conn = b.conn ∧ a.copy ≤ b.copy

def report (raw : List Octet) : List UInt8 × Option Octet :=
  (slice 1024 (raw.map (·.byte)), raw.getLast?)

def Execution.report (e : Execution) : List UInt8 × Option Octet := (e.exchange.req, some e.cause)

namespace World
variable {T : Type}

def decoded (w : World T) : Decoder Octet := octets.decoder.run ⟨[], 0⟩ w.fed

structure Decoded (w : World T) : Prop where
  refines : w.fw.channel.deframer.Refines (w.decoded.map (·.byte))
  logged : w.log.map Execution.report = (octets.decoder.outs ⟨[], 0⟩ w.fed).map report

structure Ordered (w : World T) : Prop where
  passed : ∀ o ∈ w.fed, ∃ b, w.current = some b ∧ o.conn ≤ b
  sorted : ∀ c, w.current = some c → (w.fed ++ w.toTarget c).Pairwise Octet.le
  queued : ∀ c, (w.toTarget c).Pairwise Octet.le
  placed : ∀ c, ∀ o ∈ w.toTarget c, o.conn = c
  written : ∀ o, (o ∈ w.fed ∨ ∃ c, o ∈ w.toTarget c) →
    ∃ data, w.copies[o.copy]? = some ⟨o.conn, data⟩
  bounded : ∀ t cp, w.copies[t]? = some cp →
    (w.fed ++ w.toTarget cp.conn).countP (·.copy == t) ≤ cp.data.length

variable [Transport T]

omit [Transport T] in
theorem scan_octets (D : Decoder Octet) (os : List Octet) :
    dapFormat.decoder.scan (D.map (·.byte)) (os.map (·.byte)) =
      ((octets.decoder.scan D os).1.map (·.byte),
        (octets.decoder.scan D os).2.map (fun r => (r.1.map (·.byte), r.2.map (·.byte)))) :=
  Format.scan_comap (F := dapFormat) (·.byte) D os

theorem consumed_eq {ch : TcpChannel} {D : Decoder Octet}
    (h : ch.deframer.Refines (D.map (·.byte))) (os : List Octet) :
    consumed ch (os.map (·.byte)) =
      match (octets.decoder.scan D os).2 with
      | some (_, rest) => os.length - rest.length
      | none => os.length := by
  obtain ⟨-, ho⟩ := Deframer.feed_simulates.scan h (os.map (·.byte))
  rw [scan_octets] at ho
  rw [consumed]
  rcases hf : (Deframer.feeder 1024).scan ch.deframer (os.map (·.byte)) with ⟨d, o⟩
  rw [hf] at ho
  simp only at ho
  subst ho
  simp only [hf]
  rcases (octets.decoder.scan D os).2 with _ | ⟨raw, rest⟩ <;> simp

theorem specRead_octets {D : Decoder Octet} {os : List Octet}
    (hs : 0 < os.length ∧ os.length ≤ 128) :
    specRead (D.map (·.byte)) (.chunk (chunkOf os hs)) =
      match octets.decoder.scan D os with
      | (D', some (raw, _)) => (D'.map (·.byte), some (.ok (slice 1024 (raw.map (·.byte)))))
      | (D', none) =>
          (D'.map (·.byte), if maxRejects < D'.noise then some (.error .garbage) else none) := by
  simp only [specRead, chunkOf, scan_octets]
  rcases octets.decoder.scan D os with ⟨D', _ | ⟨raw, rest⟩⟩ <;> rfl

structure Eaten (D : Decoder Octet) (os eaten : List Octet) : Prop where
  run : octets.decoder.run D eaten = (octets.decoder.scan D os).1
  outs : octets.decoder.outs D eaten = ((octets.decoder.scan D os).2.map (·.1)).toList
  last : ∀ raw rest, (octets.decoder.scan D os).2 = some (raw, rest) →
    raw.getLast? = eaten.getLast? ∧ eaten ≠ []

theorem take_consumed {ch : TcpChannel} {D : Decoder Octet}
    (h : ch.deframer.Refines (D.map (·.byte))) (os : List Octet) :
    Eaten D os (os.take (consumed ch (os.map (·.byte)))) := by
  have hlen := consumed_eq h os
  rcases hoct : octets.decoder.scan D os with ⟨D', _ | ⟨raw, rest⟩⟩
  · rw [hoct] at hlen
    obtain ⟨houts, hrun⟩ := Transducer.scan_none hoct
    rw [hlen, List.take_length]
    exact ⟨by rw [hoct, hrun], by rw [hoct, houts]; rfl, by simp [hoct]⟩
  · rw [hoct] at hlen
    obtain ⟨pre, x, rfl, houts, hx⟩ := Transducer.scan_some hoct
    have hsplit : pre ++ x :: rest = (pre ++ [x]) ++ rest := by simp
    have hn : (pre ++ x :: rest).length - rest.length = (pre ++ [x]).length := by
      rw [hsplit, List.length_append, Nat.add_sub_cancel]
    have heaten : (pre ++ x :: rest).take (consumed ch ((pre ++ x :: rest).map (·.byte))) =
        pre ++ [x] := by
      rw [hlen]
      simp only
      rw [hn, hsplit, List.take_left]
    rw [heaten]
    refine ⟨?_, ?_, ?_⟩
    · rw [hoct, Transducer.run_append]
      exact congrArg Prod.fst hx
    · rw [hoct, Transducer.outs_append, houts]
      simp [Transducer.outs, hx]
    · rw [hoct]
      rintro _ _ ⟨⟩
      rw [(Format.step_out hx).1, List.getLast?_concat, List.getLast?_concat]
      exact ⟨rfl, by simp⟩

theorem serveRead_octets {s : Session T} {D : Decoder Octet}
    (h : s.ch.deframer.Refines (D.map (·.byte))) {os : List Octet}
    (hs : 0 < os.length ∧ os.length ≤ 128) (sent : Bool) :
    let r := Firmware.serveRead s (.chunk (chunkOf os hs)) sent
    let eaten := os.take (consumed s.ch (os.map (·.byte)))
    r.1.channel.deframer.Refines ((octets.decoder.run D eaten).map (·.byte)) ∧
      (r.2.map (⟨·, eaten.getLastD os[0]⟩ : Exchange → Execution)).toList.map Execution.report =
        (octets.decoder.outs D eaten).map report := by
  intro r eaten
  have heaten : Eaten D os eaten := take_consumed h os
  have hspec := specRead_octets (D := D) hs
  obtain ⟨ch, d', href, hcases⟩ := Firmware.serveRead_cases h (.chunk (chunkOf os hs)) sent
  rw [heaten.run, heaten.outs]
  have hlast := heaten.last
  rcases hoct : octets.decoder.scan D os with ⟨D', _ | ⟨raw, rest⟩⟩
  · rw [hspec, hoct] at hcases
    rcases hcases with ⟨hsp, hr⟩ | ⟨e, hsp, hr⟩ | ⟨frame, resp, hsp, -⟩
    · obtain rfl := (Prod.mk.inj hsp).1
      rw [show r = _ from hr]
      exact ⟨href, rfl⟩
    · obtain rfl := (Prod.mk.inj hsp).1
      rw [show r = _ from hr]
      exact ⟨href, rfl⟩
    · have hok := (Prod.mk.inj hsp).2
      split at hok <;> simp at hok
  · rw [hspec, hoct] at hcases
    rcases hcases with ⟨hsp, -⟩ | ⟨e, hsp, -⟩ | ⟨frame, resp, hsp, hr⟩
    · cases (Prod.mk.inj hsp).2
    · cases (Prod.mk.inj hsp).2
    · obtain ⟨rfl, hframe⟩ := Prod.mk.inj hsp
      simp only [Option.some.injEq, Except.ok.injEq] at hframe
      obtain ⟨hraw, hne⟩ := hlast raw rest (by rw [hoct])
      have hcause : some (eaten.getLastD os[0]) = raw.getLast? := by
        rw [hraw, List.getLastD_eq_getLast?, List.getLast?_eq_some_getLast hne]
        rfl
      rw [show r = _ from hr]
      refine ⟨?_, ?_⟩
      · cases sent <;> exact href
      · simp only [Option.map_some, Option.toList_some, List.map_cons, List.map_nil,
          Execution.report, report, hcause, hframe]

theorem decoded_take {w : World T} (h : Decoded w) {s : Session T} (hs : w.fw = .serving s)
    (c k : ℕ) (cut : Option ℕ) : Decoded (w.take s c k cut) := by
  rw [World.take]
  dsimp only
  split
  · next hos =>
    have href : s.ch.deframer.Refines (w.decoded.map (·.byte)) := by
      have := h.refines
      rwa [hs] at this
    obtain ⟨hr, hl⟩ := serveRead_octets href hos cut.isNone
    refine ⟨?_, ?_⟩
    · simp only [decoded, Transducer.run_append]
      exact hr
    · simp only [List.map_append, h.logged, Transducer.outs_append]
      exact congrArg (_ ++ ·) hl
  · exact h

theorem step_hangUp (fw : Firmware T) (eof : Bool) :
    (fw.step (.read (if eof then .eof else .failed) true)).1.channel = fw.channel := by
  cases fw <;> cases eof <;> rfl

theorem step_accepted (fw : Firmware T) : (fw.step .accepted).1.channel = fw.channel := by
  cases fw <;> rfl

theorem step_acceptFailed (fw : Firmware T) : (fw.step .acceptFailed).1.channel = fw.channel := by
  cases fw <;> rfl

structure Switched (w w' : World T) (fw : Firmware T) (conn : Option ℕ) : Prop where
  channel : fw.channel = w.fw.channel
  forward : conn = w.current ∨ ∃ c, conn = some c ∧ ∀ b ∈ w.current, b < c
  state : w' = { w with fw, current := conn }

theorem move_cases (w : World T) (m : Move) :
    (∃ s c k cut, w.fw = .serving s ∧ w.current = some c ∧ w.move m = w.take s c k cut) ∨
      ∃ fw conn, Switched w (w.move m) fw conn := by
  have hstay {w' : World T} (h : w' = w) : ∃ fw conn, Switched w w' fw conn :=
    ⟨w.fw, w.current, rfl, Or.inl rfl, h⟩
  cases m with
  | accept c =>
    cases hfw : w.fw with
    | accepting ch t =>
      by_cases hc : (∀ b ∈ w.current, b < c) ∧ c < w.opened
      · refine Or.inr ⟨_, some c, step_accepted w.fw, Or.inr ⟨c, rfl, hc.1⟩, ?_⟩
        simp only [World.move, hfw, if_pos hc]
      · exact Or.inr (hstay (by simp only [World.move, hfw, if_neg hc]))
    | serving s =>
      exact Or.inr (hstay (by simp only [World.move, hfw]))
  | acceptFailed => exact Or.inr ⟨_, _, step_acceptFailed w.fw, Or.inl rfl, rfl⟩
  | read k cut =>
    cases hfw : w.fw with
    | accepting ch t =>
      exact Or.inr (hstay (by simp only [World.move, hfw]))
    | serving s =>
      cases hc : w.current with
      | none =>
        exact Or.inr (hstay (by simp only [World.move, hfw, hc]))
      | some c =>
        exact Or.inl ⟨s, c, k, cut, rfl, rfl, by simp only [World.move, hfw, hc]⟩
  | hangUp eof => exact Or.inr ⟨_, _, step_hangUp w.fw eof, Or.inl rfl, rfl⟩

theorem decoded_move {w : World T} (h : Decoded w) (m : Move) : Decoded (w.move m) := by
  obtain ⟨s, c, k, cut, hs, -, hm⟩ | ⟨fw, conn, hch, -, hm⟩ := move_cases w m
  · rw [hm]
    exact decoded_take h hs c k cut
  · rw [hm]
    refine ⟨?_, h.logged⟩
    rw [hch]
    exact h.refines

theorem decoded_settle {w : World T} (h : Decoded w) (ms : List Move) :
    Decoded (w.settle ms) := by
  induction ms generalizing w with
  | nil => exact h
  | cons m ms ih => exact ih (decoded_move h m)

theorem decoded_stir {w : World T} (h : Decoded w) : Decoded w.stir :=
  have hs := decoded_settle h (w.schedule w.tick).1
  ⟨hs.refines, hs.logged⟩

theorem upholds_of_stir {P : World T → Prop} (hs : ∀ {w}, P w → P w.stir)
    (ho : ∀ {w} n, P w → P { w with opened := n })
    (hw : ∀ {w} c data moved, P w → P (w.push c data moved))
    (hr : ∀ {w} c n, P w → P (w.pull c n)) : DapLink.Upholds P where
  connect := by
    intro w h
    have hc := ho (w.stir.opened + 1) (hs h)
    rcases hf : w.fate with _ | _ | _ <;> simpa only [Network.connect, hf] using hc
  writeAll := by
    intro w c data h
    rcases hf : w.fate with _ | _ | _ <;> simp only [Network.writeAll, hf] <;>
      exact hw c data _ (hs h)
  readExact := by
    intro w c n h
    rcases hf : w.fate with _ | _ | _ <;> simp only [Network.readExact, hf]
    · split <;> exact hr c _ (hs h)
    · exact hr c _ (hs h)
    · exact hr c _ (hs h)
  close _ h := h

theorem upholds_decoded : DapLink.Upholds (Decoded (T := T)) :=
  upholds_of_stir decoded_stir (fun _ h => ⟨h.refines, h.logged⟩)
    (fun _ _ _ h => ⟨h.refines, h.logged⟩) (fun _ _ h => ⟨h.refines, h.logged⟩)

omit [Transport T] in
theorem fed_sorted {w : World T} (h : Ordered w) : w.fed.Pairwise Octet.le := by
  cases hc : w.current with
  | none =>
    cases hfed : w.fed with
    | nil =>
      exact List.Pairwise.nil
    | cons o os =>
      obtain ⟨b, hb, -⟩ := h.passed o (by simp [hfed])
      rw [hc] at hb
      cases hb
  | some c =>
    exact (List.pairwise_append.mp (h.sorted c hc)).1

omit [Transport T] in
theorem ordered_conn {w : World T} (h : Ordered w) {conn : Option ℕ}
    (hc : conn = w.current ∨ ∃ c, conn = some c ∧ ∀ b ∈ w.current, b < c) (fw : Firmware T) :
    Ordered { w with fw, current := conn } := by
  rcases hc with rfl | ⟨c, rfl, hc⟩
  · exact ⟨h.passed, h.sorted, h.queued, h.placed, h.written, h.bounded⟩
  · have hlt {o : Octet} (ho : o ∈ w.fed) : o.conn < c := by
      obtain ⟨b, hb, hle⟩ := h.passed o ho
      exact Nat.lt_of_le_of_lt hle (hc b hb)
    refine ⟨fun o ho => ⟨c, rfl, Nat.le_of_lt (hlt ho)⟩, ?_, h.queued, h.placed, h.written,
      h.bounded⟩
    rintro _ ⟨⟩
    rw [List.pairwise_append]
    refine ⟨fed_sorted (w := w) h, h.queued c, fun o ho o' ho' => Or.inl ?_⟩
    rw [h.placed c o' ho']
    exact hlt ho

theorem eaten_sublist {A : Type} (xs : List A) (a n : ℕ) :
    ((xs.take a).take n ++ xs.drop (xs.take a).length).Sublist xs := by
  have hxs : xs.take a ++ xs.drop (xs.take a).length = xs := by
    rw [List.length_take]
    rcases Nat.le_total a xs.length with h | h <;> simp [h]
  calc ((xs.take a).take n ++ xs.drop (xs.take a).length).Sublist
        (xs.take a ++ xs.drop (xs.take a).length) :=
        (List.take_sublist n _).append (List.Sublist.refl _)
    _ = xs := hxs

theorem update_sublist {A : Type} {f : ℕ → List A} {c : ℕ} {xs : List A} (h : xs.Sublist (f c))
    (c' : ℕ) : (Function.update f c xs c').Sublist (f c') := by
  by_cases hc : c' = c
  · subst hc
    rwa [Function.update_self]
  · rw [Function.update_of_ne hc]

theorem ordered_take {w : World T} (h : Ordered w) {c : ℕ} (hc : w.current = some c)
    (s : Session T) (k : ℕ) (cut : Option ℕ) : Ordered (w.take s c k cut) := by
  rw [World.take]
  dsimp only
  split
  · next hos =>
    generalize consumed s.ch _ = n
    have hsub := eaten_sublist (w.toTarget c) (min k 128) n
    have hpipe := update_sublist (List.drop_sublist ((w.toTarget c).take (min k 128)).length
      (w.toTarget c))
    have heaten {o : Octet} (ho : o ∈ ((w.toTarget c).take (min k 128)).take n) :
        o ∈ w.toTarget c := List.mem_of_mem_take (List.mem_of_mem_take ho)
    refine ⟨?_, ?_, fun c' => (h.queued c').sublist (hpipe c'),
      fun c' o ho => h.placed c' o ((hpipe c').subset ho), ?_, ?_⟩
    · intro o ho
      rcases List.mem_append.mp ho with ho | ho
      · exact h.passed o ho
      · exact ⟨c, hc, Nat.le_of_eq (h.placed c o (heaten ho))⟩
    · intro c' hc'
      obtain rfl : c = c' := Option.some.inj (hc.symm.trans hc')
      simp only [Function.update_self]
      rw [List.append_assoc]
      exact (h.sorted c hc).sublist ((List.Sublist.refl _).append hsub)
    · rintro o (ho | ⟨c', ho⟩)
      · rcases List.mem_append.mp ho with ho | ho
        · exact h.written o (Or.inl ho)
        · exact h.written o (Or.inr ⟨c, heaten ho⟩)
      · exact h.written o (Or.inr ⟨c', (hpipe c').subset ho⟩)
    · intro t cp hcp
      have hb := h.bounded t cp hcp
      by_cases hcc : cp.conn = c
      · rw [hcc] at hb ⊢
        simp only [Function.update_self]
        rw [List.append_assoc]
        exact Nat.le_trans ((List.Sublist.refl _).append hsub).countP_le hb
      · simp only [Function.update_of_ne hcc]
        have hnone : (((w.toTarget c).take (min k 128)).take n).countP (·.copy == t) = 0 := by
          rw [List.countP_eq_zero]
          intro o ho hot
          obtain ⟨data, hd⟩ := h.written o (Or.inr ⟨c, heaten ho⟩)
          rw [show o.copy = t by simpa using hot, hcp, h.placed c o (heaten ho)] at hd
          exact hcc (congrArg Copy.conn (Option.some.inj hd))
        rw [List.countP_append, List.countP_append, hnone, Nat.add_zero, ← List.countP_append]
        exact hb
  · exact h

theorem ordered_move {w : World T} (h : Ordered w) (m : Move) : Ordered (w.move m) := by
  obtain ⟨s, c, k, cut, -, hc, hm⟩ | ⟨fw, conn, -, hc, hm⟩ := move_cases w m
  · rw [hm]
    exact ordered_take h hc s k cut
  · rw [hm]
    exact ordered_conn h hc fw

theorem ordered_settle {w : World T} (h : Ordered w) (ms : List Move) :
    Ordered (w.settle ms) := by
  induction ms generalizing w with
  | nil => exact h
  | cons m ms ih => exact ih (ordered_move h m)

theorem ordered_stir {w : World T} (h : Ordered w) : Ordered w.stir :=
  have hs := ordered_settle h (w.schedule w.tick).1
  ⟨hs.passed, hs.sorted, hs.queued, hs.placed, hs.written, hs.bounded⟩

omit [Transport T] in
theorem copy_lt {w : World T} (h : Ordered w) {o : Octet}
    (ho : o ∈ w.fed ∨ ∃ c, o ∈ w.toTarget c) : o.copy < w.copies.length := by
  obtain ⟨data, hd⟩ := h.written o ho
  exact (List.getElem?_eq_some_iff.mp hd).1

omit [Transport T] in
theorem push_toTarget (w : World T) (c : ℕ) (data : List UInt8) (moved c' : ℕ) :
    ∃ late, (w.push c data moved).toTarget c' = w.toTarget c' ++ late ∧
      (∀ o ∈ late, c' = c ∧ o.conn = c ∧ o.copy = w.copies.length) ∧
      late.length ≤ data.length := by
  by_cases hc : c' = c
  · subst hc
    refine ⟨(data.take moved).map (⟨·, c', w.copies.length⟩), Function.update_self .., ?_, ?_⟩
    · intro o ho
      obtain ⟨b, -, rfl⟩ := List.mem_map.mp ho
      exact ⟨rfl, rfl, rfl⟩
    · rw [List.length_map, List.length_take]
      exact Nat.min_le_right _ _
  · have hsame : (w.push c data moved).toTarget c' = w.toTarget c' := Function.update_of_ne hc ..
    exact ⟨[], by rw [hsame, List.append_nil], by simp, Nat.zero_le _⟩

theorem pairwise_late {xs late : List Octet} {c t : ℕ} (h : xs.Pairwise Octet.le)
    (hxs : ∀ o ∈ xs, o.conn ≤ c ∧ o.copy < t) (hlate : ∀ o ∈ late, o.conn = c ∧ o.copy = t) :
    (xs ++ late).Pairwise Octet.le := by
  rw [List.pairwise_append]
  refine ⟨h, ?_, ?_⟩
  · refine List.pairwise_of_forall_mem_list fun o ho o' ho' => Or.inr ⟨?_, ?_⟩
    · rw [(hlate o ho).1, (hlate o' ho').1]
    · rw [(hlate o ho).2, (hlate o' ho').2]
  · intro o ho o' ho'
    obtain ⟨hconn, hcopy⟩ := hxs o ho
    obtain ⟨hconn', hcopy'⟩ := hlate o' ho'
    rw [Octet.le, hconn', hcopy']
    omega

omit [Transport T] in
theorem push_bounded {w : World T} (h : Ordered w) {c : ℕ} {data : List UInt8} {moved t : ℕ}
    {cp : Copy} (hcp : (w.push c data moved).copies[t]? = some cp) :
    (w.fed ++ (w.push c data moved).toTarget cp.conn).countP (·.copy == t) ≤ cp.data.length := by
  obtain ⟨late, hp, hlate, hlen⟩ := push_toTarget w c data moved cp.conn
  rw [hp, ← List.append_assoc, List.countP_append]
  by_cases ht : t < w.copies.length
  · have hb := h.bounded t cp (by rwa [push, List.getElem?_append_left ht] at hcp)
    have hnone : late.countP (·.copy == t) = 0 := by
      rw [List.countP_eq_zero]
      intro o ho hot
      have hcopy := (hlate o ho).2.2
      have hot : o.copy = t := by simpa using hot
      omega
    rw [hnone]
    exact hb
  · have hlt := (List.getElem?_eq_some_iff.mp hcp).1
    simp only [push, List.length_append, List.length_singleton] at hlt
    obtain rfl : t = w.copies.length := by omega
    rw [push, List.getElem?_concat_length] at hcp
    cases hcp
    have hfresh : (w.fed ++ w.toTarget c).countP (·.copy == w.copies.length) = 0 := by
      rw [List.countP_eq_zero]
      intro o ho hot
      have hold := copy_lt h ((List.mem_append.mp ho).imp_right (⟨c, ·⟩))
      have hot : o.copy = w.copies.length := by simpa using hot
      omega
    rw [hfresh, Nat.zero_add]
    exact Nat.le_trans List.countP_le_length hlen

omit [Transport T] in
theorem ordered_push {w : World T} (h : Ordered w) (c : ℕ) (data : List UInt8) (moved : ℕ) :
    Ordered (w.push c data moved) := by
  have hcopies {o : Octet} (ho : o ∈ w.fed ∨ ∃ c, o ∈ w.toTarget c) :
      ∃ data', (w.push c data moved).copies[o.copy]? = some ⟨o.conn, data'⟩ := by
    rw [push, List.getElem?_append_left (copy_lt h ho)]
    exact h.written o ho
  refine ⟨h.passed, ?_, ?_, ?_, ?_, fun t cp hcp => push_bounded h hcp⟩
  · intro b hb
    obtain ⟨late, hp, hlate, -⟩ := push_toTarget w c data moved b
    change (w.fed ++ (w.push c data moved).toTarget b).Pairwise Octet.le
    rw [hp, ← List.append_assoc]
    refine pairwise_late (c := b) (t := w.copies.length) (h.sorted b hb) (fun o ho => ⟨?_, ?_⟩)
      (fun o ho => ⟨(hlate o ho).2.1.trans (hlate o ho).1.symm, (hlate o ho).2.2⟩)
    · rcases List.mem_append.mp ho with ho | ho
      · obtain ⟨b', hb', hle⟩ := h.passed o ho
        obtain rfl : b = b' := Option.some.inj (hb.symm.trans hb')
        exact hle
      · exact Nat.le_of_eq (h.placed b o ho)
    · exact copy_lt h ((List.mem_append.mp ho).imp_right (⟨b, ·⟩))
  · intro c'
    obtain ⟨late, hp, hlate, -⟩ := push_toTarget w c data moved c'
    rw [hp]
    exact pairwise_late (c := c') (h.queued c')
      (fun o ho => ⟨Nat.le_of_eq (h.placed c' o ho), copy_lt h (Or.inr ⟨c', ho⟩)⟩)
      (fun o ho => ⟨(hlate o ho).2.1.trans (hlate o ho).1.symm, (hlate o ho).2.2⟩)
  · intro c' o ho
    obtain ⟨late, hp, hlate, -⟩ := push_toTarget w c data moved c'
    rw [hp] at ho
    rcases List.mem_append.mp ho with ho | ho
    · exact h.placed c' o ho
    · exact (hlate o ho).2.1.trans (hlate o ho).1.symm
  · rintro o (ho | ⟨c', ho⟩)
    · exact hcopies (Or.inl ho)
    · obtain ⟨late, hp, hlate, -⟩ := push_toTarget w c data moved c'
      rw [hp] at ho
      rcases List.mem_append.mp ho with ho | ho
      · exact hcopies (Or.inr ⟨c', ho⟩)
      · refine ⟨data, ?_⟩
        rw [(hlate o ho).2.1, (hlate o ho).2.2]
        exact List.getElem?_concat_length

theorem upholds_ordered : DapLink.Upholds (Ordered (T := T)) :=
  upholds_of_stir ordered_stir
    (fun _ h => ⟨h.passed, h.sorted, h.queued, h.placed, h.written, h.bounded⟩)
    (fun c data moved h => ordered_push h c data moved)
    (fun _ _ h => ⟨h.passed, h.sorted, h.queued, h.placed, h.written, h.bounded⟩)

omit [Transport T] in
theorem decoded_new (schedule : ℕ → List Move × Fate) (clock : ℕ → ℕ) (t : T) :
    Decoded (World.new schedule clock t) := ⟨TcpChannel.refines_new, rfl⟩

omit [Transport T] in
theorem ordered_new (schedule : ℕ → List Move × Fate) (clock : ℕ → ℕ) (t : T) :
    Ordered (World.new schedule clock t) where
  passed := by simp [World.new]
  sorted := by simp [World.new]
  queued := by simp [World.new]
  placed := by simp [World.new]
  written := by simp [World.new]
  bounded := by simp [World.new]

end World

end DapProxy.System
