import DapProxy.Concurrent.Threads
import Mathlib.Data.UInt
import Mathlib.Data.List.Chain

namespace DapProxy.Host
open Concurrent

def ringCapacity : ℕ := 512

def channelCapacity : ℕ := 1024

structure LogEvent where
  seq : UInt64
  ts : Float
  level : String
  target : String
  message : String

structure Hub where
  nextSeq : UInt64
  ring : List LogEvent
  sent : List LogEvent

def pushRing (ring : List LogEvent) (ev : LogEvent) : List LogEvent :=
  (if ringCapacity ≤ ring.length then ring.drop 1 else ring) ++ [ev]

namespace Hub

def history (g : Hub) : List LogEvent := g.ring

inductive Publish where
  | idle
  | numbered (ev : LogEvent)
  | stored (ev : LogEvent)

inductive Act : Hub → Publish → Hub → Publish → Prop
  | number (g ts level target message) : Act g .idle { g with nextSeq := g.nextSeq + 1 }
      (.numbered ⟨g.nextSeq, ts, level, target, message⟩)
  | store (g ev) : Act g (.numbered ev) { g with ring := pushRing g.ring ev } (.stored ev)
  | send (g ev) : Act g (.stored ev) { g with sent := g.sent ++ [ev] } .idle

def start (ι : Type) : Config ι Hub Publish := ⟨⟨0, [], []⟩, fun _ => .idle⟩

structure Complete (g : Hub) : Prop where
  capped : g.history.length ≤ 512
  increasing : (g.history.map (·.seq)).Pairwise (· < ·)
  consecutive : g.history.IsChain fun a b => b.seq.toNat = a.seq.toNat + 1
  newest : g.nextSeq ≠ 0 → g.history.getLast?.map (·.seq) = some (g.nextSeq - 1)

variable {ι : Type} [DecidableEq ι] {c : Config ι Hub Publish}

def InOrder (c : Config ι Hub Publish) (i : ι) : Prop :=
  match c.locals i with
  | .idle => c.shared.nextSeq.toNat + 1 < 2 ^ 64
  | .numbered ev => ∀ j other, c.locals j = .numbered other → ev.seq ≤ other.seq
  | .stored _ => True

def Unwrapped (c : Config ι Hub Publish) (_ : ι) : Prop := c.shared.nextSeq.toNat + 1 < 2 ^ 64

def storeOf : Publish → Publish → Option LogEvent
  | .numbered ev, .stored _ => some ev
  | _, _ => none

def Holds (n : ℕ) : Publish → Prop
  | .numbered ev => ev.seq.toNat = n
  | _ => False

structure Filled (c : Config ι Hub Publish) (p : ℕ) : Prop where
  ring : c.shared.ring.map (·.seq.toNat) = List.range' (p - min p 512) (min p 512)
  held : ∀ n, p ≤ n → n < c.shared.nextSeq.toNat → ∃ i, Holds n (c.locals i)
  within : ∀ i n, Holds n (c.locals i) → p ≤ n ∧ n < c.shared.nextSeq.toNat
  unique : ∀ i j n, Holds n (c.locals i) → Holds n (c.locals j) → i = j
  le : p ≤ c.shared.nextSeq.toNat

theorem pushRing_range {ring : List LogEvent} {ev : LogEvent} {p : ℕ}
    (h : ring.map (·.seq.toNat) = List.range' (p - min p 512) (min p 512))
    (hp : ev.seq.toNat = p) :
    (pushRing ring ev).map (·.seq.toNat) =
      List.range' (p + 1 - min (p + 1) 512) (min (p + 1) 512) := by
  have hlen : ring.length = min p 512 := by
    have hmap := congrArg List.length h
    rwa [List.length_map, List.length_range'] at hmap
  have hcapacity : ringCapacity = 512 := rfl
  rw [pushRing, hlen, hcapacity, List.map_append, List.map_singleton, hp]
  by_cases hfull : 512 ≤ p
  · have hmin : min p 512 = 511 + 1 := by omega
    have hmin' : min (p + 1) 512 = 511 + 1 := by omega
    have hstart : p - (511 + 1) + 1 = p + 1 - (511 + 1) := by omega
    have hend : p + 1 - (511 + 1) + 511 = p := by omega
    rw [if_pos (by omega), List.map_drop, h, hmin, hmin', List.range'_succ, List.drop_one,
      List.tail_cons, hstart, List.range'_1_concat (n := 511), hend]
  · have hmin : min p 512 = p := by omega
    have hmin' : min (p + 1) 512 = p + 1 := by omega
    rw [if_neg (by omega), h, hmin, hmin', Nat.sub_self, Nat.sub_self, List.range'_1_concat,
      Nat.zero_add]

theorem toNat_succ {n : UInt64} (h : n.toNat + 1 < 2 ^ 64) : (n + 1).toNat = n.toNat + 1 := by
  rw [UInt64.toNat_add, UInt64.toNat_one]
  exact Nat.mod_eq_of_lt h

theorem filled_number {p : ℕ} {i : ι} {g : Hub} {ev : LogEvent} (h : Filled c p)
    (hi : c.locals i = .idle) (hring : g.ring = c.shared.ring)
    (hseq : ev.seq = c.shared.nextSeq)
    (hnext : g.nextSeq.toNat = c.shared.nextSeq.toNat + 1) :
    Filled (c.move i g (.numbered ev)) p := by
  have hnot (n : ℕ) : ¬Holds n (c.locals i) := by
    rw [hi]
    exact id
  have hold (j n) (hj : Holds n ((c.move i g (.numbered ev)).locals j)) :
      (j = i ∧ n = c.shared.nextSeq.toNat) ∨ (j ≠ i ∧ Holds n (c.locals j)) := by
    rcases Config.moved_cases hj with ⟨rfl, hn⟩ | hj
    · exact Or.inl ⟨rfl, by rw [← hseq]; exact hn.symm⟩
    · exact Or.inr hj
  refine ⟨?_, fun n hp hn => ?_, fun j n hj => ?_, fun j k n hj hk => ?_, ?_⟩
  · rw [Config.move_shared, hring]
    exact h.ring
  · rw [Config.move_shared, hnext] at hn
    by_cases hlast : n = c.shared.nextSeq.toNat
    · exact ⟨i, by rw [Config.move_self, hlast, ← hseq]; rfl⟩
    · exact Config.some_moved (h.held n hp (by omega)) fun hh => absurd hh (hnot n)
  · rw [Config.move_shared, hnext]
    rcases hold j n hj with ⟨-, rfl⟩ | ⟨-, hj⟩
    · exact ⟨h.le, Nat.lt_succ_self _⟩
    · exact ⟨(h.within j n hj).1, Nat.lt_succ_of_lt (h.within j n hj).2⟩
  · rcases hold j n hj with ⟨rfl, hn⟩ | ⟨-, hj'⟩ <;>
      rcases hold k n hk with ⟨rfl, hn'⟩ | ⟨-, hk'⟩
    · rfl
    · exact absurd hn (Nat.ne_of_lt (h.within k n hk').2)
    · exact absurd hn' (Nat.ne_of_lt (h.within j n hj').2)
    · exact h.unique j k n hj' hk'
  · rw [Config.move_shared, hnext]
    exact Nat.le_succ_of_le h.le

theorem filled_store {p : ℕ} {i : ι} {ev : LogEvent} (h : Filled c p)
    (hi : c.locals i = .numbered ev)
    (hfirst : ∀ j other, c.locals j = .numbered other → ev.seq ≤ other.seq) :
    Filled (c.move i { c.shared with ring := pushRing c.shared.ring ev } (.stored ev)) (p + 1) := by
  have hholds : Holds ev.seq.toNat (c.locals i) := by
    rw [hi]
    rfl
  obtain ⟨hle, hlt⟩ := h.within i _ hholds
  have hp : ev.seq.toNat = p := by
    obtain ⟨j, hj⟩ := h.held p (Nat.le_refl p) (Nat.lt_of_le_of_lt hle hlt)
    rcases hl : c.locals j with _ | other | _ <;> rw [hl] at hj
    · exact hj.elim
    · have hother := UInt64.le_iff_toNat_le.mp (hfirst j other hl)
      rw [show other.seq.toNat = p from hj] at hother
      exact Nat.le_antisymm hother hle
    · exact hj.elim
  have hold (j n) (hj : Holds n ((c.move i { c.shared with
      ring := pushRing c.shared.ring ev } (.stored ev)).locals j)) :
      j ≠ i ∧ Holds n (c.locals j) :=
    (Config.moved_cases hj).resolve_left fun h => h.2
  refine ⟨pushRing_range h.ring hp, fun n hn hlt => ?_, fun j n hj => ?_, fun j k n hj hk => ?_, ?_⟩
  · refine Config.some_moved (h.held n (by omega) hlt) fun hh => ?_
    rw [hi] at hh
    have hn' : ev.seq.toNat = n := hh
    omega
  · obtain ⟨hji, hj⟩ := hold j n hj
    obtain ⟨hpn, hnN⟩ := h.within j n hj
    have hne : n ≠ p := by
      rintro rfl
      exact hji (h.unique j i n hj (hp ▸ hholds))
    exact ⟨by omega, hnN⟩
  · exact h.unique j k n (hold j n hj).2 (hold k n hk).2
  · change p + 1 ≤ c.shared.nextSeq.toNat
    omega

theorem filled_send {p : ℕ} {i : ι} {ev : LogEvent} (h : Filled c p)
    (hi : c.locals i = .stored ev) :
    Filled (c.move i { c.shared with sent := c.shared.sent ++ [ev] } .idle) p := by
  have hold (j n) (hj : Holds n ((c.move i { c.shared with
      sent := c.shared.sent ++ [ev] } .idle).locals j)) : Holds n (c.locals j) :=
    ((Config.moved_cases hj).resolve_left fun h => h.2).2
  refine ⟨h.ring, fun n hp hn => Config.some_moved (h.held n hp hn) fun hh => ?_,
    fun j n hj => h.within j n (hold j n hj),
    fun j k n hj hk => h.unique j k n (hold j n hj) (hold k n hk), h.le⟩
  rw [hi] at hh
  exact hh.elim

theorem filled_of_run (h : Run Act InOrder (start ι) c) : ∃ p, Filled c p := by
  refine h.invariant (P := fun c => ∃ p, Filled c p) ?_ ?_
  · exact ⟨0, rfl, fun n _ hn => absurd hn (Nat.not_lt_zero n), fun i n hi => hi.elim,
      fun i j n hi _ => hi.elim, Nat.le_refl 0⟩
  · rintro c i g l - ⟨p, hp⟩ hact hguard
    rw [InOrder] at hguard
    generalize hl : c.locals i = l₀ at hact hguard
    cases hact with
    | number ts level target message =>
      exact ⟨p, filled_number hp hl rfl rfl (toNat_succ hguard)⟩
    | store ev => exact ⟨p + 1, filled_store hp hl hguard⟩
    | send ev => exact ⟨p, filled_send hp hl⟩

theorem complete_of_range {g : Hub}
    (h : g.ring.map (·.seq.toNat) =
      List.range' (g.nextSeq.toNat - min g.nextSeq.toNat 512) (min g.nextSeq.toNat 512)) :
    Complete g := by
  have hlen : g.history.length = min g.nextSeq.toNat 512 := by
    have hmap := congrArg List.length h
    rwa [List.length_map, List.length_range'] at hmap
  refine ⟨by omega, ?_, ?_, fun hne => ?_⟩
  · have hlt : (g.ring.map (·.seq.toNat)).Pairwise (· < ·) := h ▸ List.pairwise_lt_range'
    rw [List.pairwise_map] at hlt ⊢
    exact hlt.imp UInt64.lt_iff_toNat_lt.mpr
  · have hchain : (g.ring.map (·.seq.toNat)).IsChain fun a b => b = a + 1 :=
      h ▸ List.isChain_range' _ _ 1
    exact (List.isChain_map _).mp hchain
  · have hpos : 0 < g.nextSeq.toNat :=
      Nat.pos_of_ne_zero fun hzero => hne (UInt64.toNat_inj.mp hzero)
    have hlast := congrArg List.getLast? h
    rw [List.getLast?_map, List.getLast?_range', if_neg (by omega)] at hlast
    obtain ⟨ev, hev, hseq⟩ := Option.map_eq_some_iff.mp hlast
    have hone : (1 : UInt64) ≤ g.nextSeq := UInt64.le_iff_toNat_le.mpr hpos
    have hnewest : ev.seq = g.nextSeq - 1 := by
      rw [← UInt64.toNat_inj, UInt64.toNat_sub_of_le _ _ hone, UInt64.toNat_one, hseq]
      omega
    rw [history, hev, Option.map_some, hnewest]

theorem ring_of_idle (h : Run Act InOrder (start ι) c) (hidle : ∀ i, c.locals i = .idle) :
    c.shared.ring.map (·.seq.toNat) =
      List.range' (c.shared.nextSeq.toNat - min c.shared.nextSeq.toNat 512)
        (min c.shared.nextSeq.toNat 512) := by
  obtain ⟨p, hp⟩ := filled_of_run h
  have hall : p = c.shared.nextSeq.toNat := by
    refine Nat.le_antisymm hp.le (Nat.le_of_not_lt fun hlt => ?_)
    obtain ⟨i, hi⟩ := hp.held p (Nat.le_refl p) hlt
    rw [hidle i] at hi
    exact hi
  exact hall ▸ hp.ring

theorem history_complete_in_order (h : Run Act InOrder (start ι) c)
    (hidle : ∀ i, c.locals i = .idle) : Complete c.shared :=
  complete_of_range (ring_of_idle h hidle)

def eventOf (seq : UInt64) : LogEvent := ⟨seq, 0, "INFO", "esp_daplink_host", "log"⟩

def Orderly (c : Config ι Hub Publish) (i : ι) : Prop := InOrder c i ∧ Unwrapped c i

section
variable {i : ι} {ev : LogEvent}

omit [DecidableEq ι] in
theorem orderly_idle (hl : c.locals i = .idle) (h : c.shared.nextSeq.toNat + 1 < 2 ^ 64) :
    Orderly c i := ⟨by rw [InOrder, hl]; exact h, h⟩

omit [DecidableEq ι] in
theorem orderly_numbered (hl : c.locals i = .numbered ev)
    (hfirst : ∀ j other, c.locals j = .numbered other → ev.seq ≤ other.seq)
    (h : c.shared.nextSeq.toNat + 1 < 2 ^ 64) : Orderly c i :=
  ⟨by rw [InOrder, hl]; exact hfirst, h⟩

omit [DecidableEq ι] in
theorem orderly_stored (hl : c.locals i = .stored ev) (h : c.shared.nextSeq.toNat + 1 < 2 ^ 64) :
    Orderly c i := ⟨by rw [InOrder, hl]; trivial, h⟩

end

section
variable {c : Config Bool Hub Publish} {stored : List LogEvent}

theorem interleaved_round (h : Traced Act Orderly storeOf (start Bool) stored c)
    (hidle : ∀ i, c.locals i = .idle) (hroom : c.shared.nextSeq.toNat + 3 < 2 ^ 64) :
    ∃ c', Traced Act Orderly storeOf (start Bool)
        (stored ++ [eventOf c.shared.nextSeq, eventOf (c.shared.nextSeq + 1)]) c' ∧
      (∀ i, c'.locals i = .idle) ∧ c'.shared.nextSeq = c.shared.nextSeq + 1 + 1 ∧
      c'.shared.sent = c.shared.sent ++
        [eventOf (c.shared.nextSeq + 1), eventOf c.shared.nextSeq] := by
  have hone : (c.shared.nextSeq + 1).toNat = c.shared.nextSeq.toNat + 1 := toNat_succ (by omega)
  have htwo := toNat_succ (n := c.shared.nextSeq + 1) (by omega)
  have hlt : c.shared.nextSeq ≤ c.shared.nextSeq + 1 :=
    UInt64.le_iff_toNat_le.mpr (by omega)
  have hroom' : (c.shared.nextSeq + 1 + 1).toNat + 1 < 2 ^ 64 := by omega
  have hnumbered := h.step (i := true) (hidle true) (.number _ 0 "INFO" "esp_daplink_host" "log")
    (orderly_idle (hidle true) (by omega))
  have hboth := hnumbered.step (i := false) (hidle false)
    (.number _ 0 "INFO" "esp_daplink_host" "log")
    (orderly_idle (hidle false) (by rw [Config.move_shared]; dsimp only; omega))
  have hstored := hboth.step (i := true) (k := .numbered (eventOf c.shared.nextSeq)) rfl
    (.store _ _) (orderly_numbered rfl (fun j other hj => by
      cases j <;> cases hj
      · exact hlt
      · exact UInt64.le_refl _) hroom')
  have hboth' := hstored.step (i := false) (k := .numbered (eventOf (c.shared.nextSeq + 1))) rfl
    (.store _ _) (orderly_numbered rfl (fun j other hj => by
      cases j <;> cases hj
      exact UInt64.le_refl _) hroom')
  have hsent := hboth'.extend (.send _ _) (orderly_stored rfl hroom')
  have hdone := hsent.step (i := true) (k := .stored (eventOf c.shared.nextSeq)) rfl
    (.send _ _) (orderly_stored rfl hroom')
  refine ⟨_, by simpa [storeOf] using hdone, fun i => ?_, rfl, rfl⟩
  cases i <;> rfl

theorem interleaved_rounds (n : ℕ) (hn : 2 * n + 1 < 2 ^ 64) :
    ∃ c stored, Traced Act Orderly storeOf (start Bool) stored c ∧
      (∀ i, c.locals i = .idle) ∧ c.shared.nextSeq.toNat = 2 * n ∧
      stored.map (·.seq.toNat) = List.range (2 * n) ∧
      c.shared.sent.map (·.seq.toNat) = (List.range n).flatMap fun k => [2 * k + 1, 2 * k] := by
  induction n with
  | zero => exact ⟨start Bool, [], .refl, fun _ => rfl, rfl, rfl, rfl⟩
  | succ n ih =>
    obtain ⟨c, stored, hrun, hidle, hnext, hstored, hsent⟩ := ih (by omega)
    obtain ⟨c', hrun', hidle', hnext', hsent'⟩ := interleaved_round hrun hidle (by omega)
    have hone : (c.shared.nextSeq + 1).toNat = 2 * n + 1 := by
      rw [toNat_succ (by omega), hnext]
    refine ⟨c', _, hrun', hidle', ?_, ?_, ?_⟩
    · rw [hnext', toNat_succ (by omega), hone, Nat.mul_succ]
    · rw [List.map_append, hstored, Nat.mul_succ, List.range_succ, List.range_succ]
      simp [eventOf, hnext, hone]
    · rw [hsent', List.map_append, hsent, List.range_succ, List.flatMap_append]
      simp [eventOf, hnext, hone]

end

theorem history_complete_two_publishers :
    ∃ c, Run Act InOrder (start Bool) c ∧ c.shared.nextSeq.toNat = 600 ∧
      c.shared.sent.map (·.seq.toNat) =
        ((List.range 300).flatMap fun k => [2 * k + 1, 2 * k]) ∧
      c.shared.history.map (·.seq.toNat) = List.range' 88 512 ∧ Complete c.shared := by
  obtain ⟨c, stored, htraced, hidle, hnext, -, hsent⟩ := interleaved_rounds 300 (by decide)
  have hrun := (run_iff_traced storeOf).mpr ⟨stored, htraced.mono fun d i hd => hd.1⟩
  have hring := ring_of_idle hrun hidle
  rw [hnext] at hring
  exact ⟨c, hrun, hnext, hsent, hring, history_complete_in_order hrun hidle⟩

theorem history_out_of_order :
    ∃ c, Run Act anytime (start Bool) c ∧ (∀ i, c.locals i = .idle) ∧
      c.shared.history.map (·.seq) = [1, 0] ∧ ¬Complete c.shared := by
  have hbegun : Run Act anytime (start Bool) (start Bool) := .refl
  have hnumbered := hbegun.moves (i := true) rfl
    (.number _ 0 "INFO" "esp_daplink_host" "log") trivial
  have hovertaken := hnumbered.moves (i := false) rfl
    (.number _ 0 "INFO" "esp_daplink_host" "log") trivial
  have hsecond := (hovertaken.extend (.store _ _) trivial).extend (.send _ _) trivial
  have hfirst := (hsecond.moves (i := true) rfl (.store _ (eventOf 0)) trivial).extend
    (.send _ _) trivial
  refine ⟨_, hfirst, fun i => ?_, rfl, fun h => ?_⟩
  · cases i <;> rfl
  · exact absurd h.increasing (by decide)

end Hub

end DapProxy.Host
