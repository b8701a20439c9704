import DapProxy.Host.Closure

namespace DapProxy.Host

structure Metered (ν : Type) where
  net : ν
  connects : ℕ
  writes : ℕ
  reads : ℕ

namespace Metered
variable {ν : Type} [Network ν]

instance : Network (Metered ν) where
  connect m :=
    let r := Network.connect m.net
    (r.1, { m with net := r.2, connects := m.connects + 1 })
  writeAll c data m :=
    let r := Network.writeAll c data m.net
    (r.1, { m with net := r.2, writes := m.writes + 1 })
  readExact c n m :=
    let r := Network.readExact c n m.net
    (r.1, { m with net := r.2, reads := m.reads + 1 })
  close c m := { m with net := Network.close c m.net }
  micros m := Network.micros m.net

def waited (m : Metered ν) : ℕ := m.connects * 1000 + m.writes * 1000 + m.reads * 2000

end Metered

namespace DapLink
variable {ν α : Type}

def metered (l : DapLink ν) : DapLink (Metered ν) := ⟨l.stream, ⟨l.net, 0, 0, 0⟩, l.metrics⟩

def erase (m : DapLink (Metered ν)) : DapLink ν := ⟨m.stream, m.net.net, m.metrics⟩

structure Within (connects writes reads : ℕ) (n n' : Metered ν) : Prop where
  connects : n'.connects ≤ n.connects + connects
  writes : n'.writes ≤ n.writes + writes
  reads : n'.reads ≤ n.reads + reads

structure Spends (connects writes reads : ℕ) (m : DapLink (Metered ν)) (x : Res (Metered ν) α)
    (y : Res ν α) : Prop where
  erased : y = (x.1, x.2.erase)
  within : Within connects writes reads m.net x.2.net

section
variable {n n' n'' : Metered ν} {m m' : DapLink (Metered ν)} {x : Res (Metered ν) α} {y : Res ν α}
  {i j k i' j' k' : ℕ}

theorem within_refl (n : Metered ν) : Within 0 0 0 n n :=
  ⟨Nat.le_refl _, Nat.le_refl _, Nat.le_refl _⟩

theorem Within.trans (h : Within i j k n n') (h' : Within i' j' k' n' n'') :
    Within (i + i') (j + j') (k + k') n n'' := by
  obtain ⟨hc, hw, hr⟩ := h
  obtain ⟨hc', hw', hr'⟩ := h'
  exact ⟨by omega, by omega, by omega⟩

theorem Within.mono (h : Within i j k n n') (hi : i ≤ i') (hj : j ≤ j') (hk : k ≤ k') :
    Within i' j' k' n n' := by
  obtain ⟨hc, hw, hr⟩ := h
  exact ⟨by omega, by omega, by omega⟩

theorem Spends.mono (h : Spends i j k m x y) (hi : i ≤ i') (hj : j ≤ j') (hk : k ≤ k') :
    Spends i' j' k' m x y := ⟨h.erased, h.within.mono hi hj hk⟩

theorem Spends.after (h : Within i j k m.net m'.net) (hx : Spends i' j' k' m' x y) :
    Spends (i + i') (j + j') (k + k') m x y := ⟨hx.erased, h.trans hx.within⟩

theorem Spends.split {r : Except LinkError α} (h : Spends i j k m x y) (hx : x = (r, m')) :
    y = (r, m'.erase) ∧ Within i j k m.net m'.net := by
  subst hx
  exact ⟨h.erased, h.within⟩

end

section
variable [Network ν] (m : DapLink (Metered ν))

theorem disconnect_erase : m.erase.disconnect = m.disconnect.erase := by
  rcases hs : m.stream with _ | c
  · rw [disconnect_none hs, disconnect_none (l := m.erase) hs]
  · simp only [disconnect, erase, hs]
    rfl

theorem disconnect_within : Within 0 0 0 m.net m.disconnect.net := by
  rw [disconnect]
  split
  · exact within_refl m.net
  · exact ⟨Nat.le_refl _, Nat.le_refl _, Nat.le_refl _⟩

theorem spends_connect : Spends 1 0 0 m m.connect m.erase.connect := by
  have hwithin (net : ν) : Within 1 0 0 m.net
      { m.net with net, connects := m.net.connects + 1 } :=
    ⟨Nat.le_refl _, Nat.le_refl _, Nat.le_refl _⟩
  have hmetered {o : Attempt ℕ} {net : ν} (h : Network.connect m.net.net = (o, net)) :
      Network.connect m.net = (o, { m.net with net, connects := m.net.connects + 1 }) := by
    change ((Network.connect m.net.net).1, ({ m.net with
      net := (Network.connect m.net.net).2, connects := m.net.connects + 1 } : Metered ν)) = _
    rw [h]
  rcases h : Network.connect m.net.net with ⟨c | e | _, net⟩
  · rw [connect_done _ (hmetered h), connect_done (l := m.erase) net h]
    exact ⟨rfl, hwithin net⟩
  · rw [connect_failed _ (hmetered h), connect_failed (l := m.erase) net h]
    exact ⟨rfl, hwithin net⟩
  · rw [connect_elapsed _ (hmetered h), connect_elapsed (l := m.erase) net h]
    exact ⟨rfl, hwithin net⟩

theorem spends_readExact (n : ℕ) : Spends 0 0 1 m (m.readExact n) (m.erase.readExact n) := by
  rcases hs : m.stream with _ | c
  · rw [readExact, readExact, hs, show m.erase.stream = none from hs]
    exact ⟨rfl, (within_refl m.net).mono (Nat.le_refl _) (Nat.le_refl _) (Nat.zero_le _)⟩
  · have hwithin (net : ν) : Within 0 0 1 m.net { m.net with net, reads := m.net.reads + 1 } :=
      ⟨Nat.le_refl _, Nat.le_refl _, Nat.le_refl _⟩
    have hmetered {o : Attempt (Vector UInt8 n)} {net : ν}
        (h : Network.readExact c n m.net.net = (o, net)) :
        Network.readExact c n m.net = (o, { m.net with net, reads := m.net.reads + 1 }) := by
      change ((Network.readExact c n m.net.net).1, ({ m.net with
        net := (Network.readExact c n m.net.net).2, reads := m.net.reads + 1 } : Metered ν)) = _
      rw [h]
    rcases h : Network.readExact c n m.net.net with ⟨buf | e | _, net⟩
    · rw [readExact_done _ hs (hmetered h), readExact_done (l := m.erase) net hs h]
      exact ⟨rfl, hwithin net⟩
    · rw [readExact_failed _ hs (hmetered h), readExact_failed (l := m.erase) net hs h]
      exact ⟨rfl, hwithin net⟩
    · rw [readExact_elapsed _ hs (hmetered h), readExact_elapsed (l := m.erase) net hs h]
      exact ⟨rfl, hwithin net⟩

theorem spends_writeAll (data : List UInt8) :
    Spends 0 1 0 m (m.writeAll data) (m.erase.writeAll data) := by
  rcases hs : m.stream with _ | c
  · rw [writeAll, writeAll, hs, show m.erase.stream = none from hs]
    exact ⟨rfl, (within_refl m.net).mono (Nat.le_refl _) (Nat.zero_le _) (Nat.le_refl _)⟩
  · have hwithin (net : ν) : Within 0 1 0 m.net { m.net with net, writes := m.net.writes + 1 } :=
      ⟨Nat.le_refl _, Nat.le_refl _, Nat.le_refl _⟩
    have hmetered {o : Attempt Unit} {net : ν}
        (h : Network.writeAll c data m.net.net = (o, net)) :
        Network.writeAll c data m.net = (o, { m.net with net, writes := m.net.writes + 1 }) := by
      change ((Network.writeAll c data m.net.net).1, ({ m.net with
        net := (Network.writeAll c data m.net.net).2, writes := m.net.writes + 1 } : Metered ν)) = _
      rw [h]
    rcases h : Network.writeAll c data m.net.net with ⟨_ | e | _, net⟩
    · rw [writeAll_done _ hs (hmetered h), writeAll_done (l := m.erase) net hs h]
      exact ⟨rfl, hwithin net⟩
    · rw [writeAll_failed _ hs (hmetered h), writeAll_failed (l := m.erase) net hs h]
      exact ⟨rfl, hwithin net⟩
    · rw [writeAll_elapsed _ hs (hmetered h), writeAll_elapsed (l := m.erase) net hs h]
      exact ⟨rfl, hwithin net⟩

theorem spends_ensure : Spends 1 0 0 m m.ensure m.erase.ensure := by
  rcases hs : m.stream with _ | c
  · rw [ensure, ensure, hs, show m.erase.stream = none from hs]
    exact spends_connect m
  · rw [ensure, ensure, hs, show m.erase.stream = some c from hs]
    exact ⟨rfl, (within_refl m.net).mono (Nat.zero_le _) (Nat.le_refl _) (Nat.le_refl _)⟩

variable {m} in
theorem spends_ensure_open (h : m.stream ≠ none) : Spends 0 0 0 m m.ensure m.erase.ensure := by
  obtain ⟨c, hs⟩ := Option.ne_none_iff_exists'.mp h
  rw [ensure, ensure, hs, show m.erase.stream = some c from hs]
  exact ⟨rfl, within_refl m.net⟩

theorem spends_skipToMagic (room : ℕ) :
    Spends 0 0 (room + 1) m (m.skipToMagic room) (m.erase.skipToMagic room) := by
  induction room generalizing m with
  | zero =>
    rcases hread : m.readExact 1 with ⟨e | byte, m'⟩ <;>
      obtain ⟨herased, hwithin⟩ := (spends_readExact m 1).split hread <;>
      rw [skipToMagic, skipToMagic, hread, herased] <;> dsimp only
    · exact ⟨rfl, hwithin⟩
    · split <;> exact ⟨rfl, hwithin⟩
  | succ room ih =>
    rcases hread : m.readExact 1 with ⟨e | byte, m'⟩ <;>
      obtain ⟨herased, hwithin⟩ := (spends_readExact m 1).split hread <;>
      rw [skipToMagic, skipToMagic, hread, herased] <;> dsimp only
    · exact ⟨rfl, hwithin.mono (Nat.le_refl _) (Nat.le_refl _) (by omega)⟩
    · split
      · exact ⟨rfl, hwithin.mono (Nat.le_refl _) (Nat.le_refl _) (by omega)⟩
      · exact ((ih m').after hwithin).mono (Nat.le_refl _) (Nat.le_refl _) (by omega)

theorem spends_readFrame : Spends 0 0 4099 m m.readFrame m.erase.readFrame := by
  rcases hskip : m.skipToMagic maxFrame with ⟨e | _, m₁⟩ <;>
    obtain ⟨herased, hwithin⟩ := (spends_skipToMagic m maxFrame).split hskip <;>
    rw [maxFrame] at hwithin <;> rw [readFrame, readFrame, hskip, herased] <;> dsimp only
  · exact ⟨rfl, hwithin.mono (Nat.le_refl _) (Nat.le_refl _) (by omega)⟩
  · rcases hlen : m₁.readExact 2 with ⟨e | len, m₂⟩ <;>
      obtain ⟨herased₂, hwithin₂⟩ := (spends_readExact m₁ 2).split hlen <;>
      rw [herased₂] <;> dsimp only
    · exact ⟨rfl, (hwithin.trans hwithin₂).mono (Nat.le_refl _) (Nat.le_refl _) (by omega)⟩
    · split
      · exact ⟨rfl, (hwithin.trans hwithin₂).mono (Nat.le_refl _) (Nat.le_refl _) (by omega)⟩
      · generalize len[0].toNat ||| len[1].toNat <<< 8 = n
        rcases hbody : m₂.readExact n with ⟨e | payload, m₃⟩ <;>
          obtain ⟨herased₃, hwithin₃⟩ := (spends_readExact m₂ n).split hbody <;>
          rw [herased₃] <;> exact ⟨rfl, (hwithin.trans hwithin₂).trans hwithin₃⟩

variable {m} in
theorem spends_tryRequest {i : ℕ} (h : Spends i 0 0 m m.ensure m.erase.ensure)
    (p : List UInt8) : Spends i 1 4099 m (m.tryRequest p) (m.erase.tryRequest p) := by
  rcases hensure : m.ensure with ⟨e | _, m₁⟩ <;> obtain ⟨herased, hwithin⟩ := h.split hensure <;>
    rw [tryRequest, tryRequest, hensure, herased] <;> dsimp only
  · exact ⟨rfl, hwithin.mono (Nat.le_refl _) (Nat.zero_le _) (Nat.zero_le _)⟩
  · rcases hwrite : m₁.writeAll (wire p) with ⟨e | _, m₂⟩ <;>
      obtain ⟨herased₂, hwithin₂⟩ := (spends_writeAll m₁ (wire p)).split hwrite <;>
      rw [herased₂] <;> dsimp only
    · rw [disconnect_erase]
      refine ⟨rfl, ((hwithin.trans hwithin₂).trans (disconnect_within m₂)).mono ?_ ?_ ?_⟩ <;> omega
    · rcases hframe : m₂.readFrame with ⟨e | resp, m₃⟩ <;>
        obtain ⟨herased₃, hwithin₃⟩ := (spends_readFrame m₂).split hframe <;>
        rw [herased₃] <;> dsimp only <;> have hall := (hwithin.trans hwithin₂).trans hwithin₃
      · rw [disconnect_erase]
        refine ⟨rfl, (hall.trans (disconnect_within m₃)).mono ?_ ?_ ?_⟩ <;> omega
      · refine ⟨rfl, hall.mono ?_ ?_ ?_⟩ <;> omega

variable {m} in
theorem connected_open {m' : DapLink (Metered ν)} (h : m.connect = (.ok (), m')) :
    m'.stream ≠ none := by
  revert h
  rw [connect]
  rcases Network.connect m.net with ⟨c | e | _, net⟩ <;> rintro ⟨⟩
  exact Option.some_ne_none c

theorem spends_again (p : List UInt8) : Spends 1 1 4099 m (m.again p) (m.erase.again p) := by
  have hretried : m.erase.retried.disconnect.connect = m.retried.disconnect.erase.connect :=
    congrArg connect (disconnect_erase m.retried)
  have hclosed : Within 0 0 0 m.net m.retried.disconnect.net := disconnect_within m.retried
  rcases hconnect : m.retried.disconnect.connect with ⟨e | ⟨⟩, m₁⟩ <;>
    obtain ⟨herased, hwithin⟩ := (spends_connect m.retried.disconnect).split hconnect <;>
    rw [again, again, hretried, hconnect, herased] <;> dsimp only <;>
    have hopened := hclosed.trans hwithin
  · exact ⟨rfl, hopened.mono (Nat.le_refl _) (Nat.zero_le _) (Nat.zero_le _)⟩
  · rcases htry : m₁.tryRequest p with ⟨e | resp, m₂⟩ <;>
      obtain ⟨herased₂, hwithin₂⟩ :=
        (spends_tryRequest (spends_ensure_open (connected_open hconnect)) p).split htry <;>
      rw [herased₂] <;> refine ⟨rfl, (hopened.trans hwithin₂).mono ?_ ?_ ?_⟩ <;> omega

theorem spends_request (p : List UInt8) : Spends 2 2 8198 m (m.request p) (m.erase.request p) := by
  by_cases hp : p.length ≤ maxFrame
  · rcases htry : m.counted.tryRequest p with ⟨e | resp, m₁⟩ <;>
      obtain ⟨herased, hwithin⟩ :=
        (spends_tryRequest (spends_ensure m.counted) p).split htry <;>
      have herased : m.erase.counted.tryRequest p = _ := herased
    · rw [request_again hp htry, request_again hp herased]
      obtain ⟨herased₂, hwithin₂⟩ := spends_again m₁ p
      exact ⟨herased₂, hwithin.trans hwithin₂⟩
    · rw [request_first hp htry, request_first hp herased]
      refine ⟨rfl, hwithin.mono ?_ ?_ ?_⟩ <;> omega
  · have hlarge := Nat.not_le.mp hp
    rw [request, request, if_pos hlarge, if_pos hlarge]
    exact ⟨rfl, (within_refl m.net).mono (Nat.zero_le _) (Nat.zero_le _) (Nat.zero_le _)⟩

theorem requests_within (ps : List (List UInt8)) :
    m.erase.requests ps = ((m.requests ps).1, (m.requests ps).2.erase) ∧
      Within (2 * ps.length) (2 * ps.length) (8198 * ps.length) m.net (m.requests ps).2.net := by
  induction ps generalizing m with
  | nil => exact ⟨rfl, within_refl m.net⟩
  | cons p ps ih =>
    obtain ⟨herased, hwithin⟩ := spends_request m p
    obtain ⟨hrest, hafter⟩ := ih (m.request p).2
    rw [requests, requests, herased]
    dsimp only
    rw [hrest]
    refine ⟨rfl, (hwithin.trans hafter).mono ?_ ?_ ?_⟩ <;> rw [List.length_cons] <;> omega

end

section
variable [Network ν]

theorem requests_deadline (l : DapLink ν) (ps : List (List UInt8)) :
    let r := l.metered.requests ps
    l.requests ps = (r.1, r.2.erase) ∧ r.2.net.connects ≤ 2 * ps.length ∧
      r.2.net.writes ≤ 2 * ps.length ∧ r.2.net.reads ≤ 8198 * ps.length ∧
      r.2.net.waited ≤ 16400000 * ps.length := by
  obtain ⟨herased, hconnects, hwrites, hreads⟩ := requests_within l.metered ps
  have hstart : l.metered.net.connects = 0 ∧ l.metered.net.writes = 0 ∧
      l.metered.net.reads = 0 := ⟨rfl, rfl, rfl⟩
  refine ⟨herased, by omega, by omega, by omega, ?_⟩
  rw [Metered.waited]
  omega

end

end DapLink

end DapProxy.Host
