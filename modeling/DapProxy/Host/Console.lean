import DapProxy.Host.Publishing
import DapProxy.Host.Dashboard

namespace DapProxy.Host
open Concurrent

namespace Hub
variable {ι : Type} [DecidableEq ι] {c : Config ι Hub Publish} {p q : ℕ} {i : ι} {ev : LogEvent}

def Awaits (n : ℕ) : Publish → Prop
  | .stored ev => number ev = n
  | _ => False

def InTurn (c : Config ι Hub Publish) (i : ι) : Prop :=
  InOrder c i ∧ ∀ ev, c.locals i = .stored ev →
    ∀ j other, c.locals j = .stored other → number ev ≤ number other

structure Sending (c : Config ι Hub Publish) (p q : ℕ) : Prop where
  sent : c.shared.sent.map number = List.range q
  awaited : ∀ n, q ≤ n → n < p → ∃ i, Awaits n (c.locals i)
  within : ∀ i n, Awaits n (c.locals i) → q ≤ n ∧ n < p
  unique : ∀ i j n, Awaits n (c.locals i) → Awaits n (c.locals j) → i = j
  le : q ≤ p

omit [DecidableEq ι] in
theorem stored_next (h : Filled c p) (hi : c.locals i = .numbered ev)
    (hfirst : ∀ j other, c.locals j = .numbered other → ev.seq ≤ other.seq) : number ev = p := by
  obtain ⟨hle, hlt⟩ := h.within i (number ev) (by rw [hi]; rfl)
  obtain ⟨j, hj⟩ := h.held p (Nat.le_refl p) (Nat.lt_of_le_of_lt hle hlt)
  rcases hl : c.locals j with _ | other | _ <;> rw [hl] at hj
  · exact hj.elim
  · have hother : number other = p := hj
    have hfirst' : number ev ≤ number other := UInt64.le_iff_toNat_le.mp (hfirst j other hl)
    omega
  · exact hj.elim

theorem sending_number {g : Hub} (h : Sending c p q) (hi : c.locals i = .idle)
    (hsent : g.sent = c.shared.sent) : Sending (c.move i g (.numbered ev)) p q := by
  have hmoved (j n) (hj : Awaits n ((c.move i g (.numbered ev)).locals j)) :
      Awaits n (c.locals j) :=
    ((Config.moved_cases hj).resolve_left fun h => h.2).2
  refine ⟨by rw [Config.move_shared, hsent]; exact h.sent, fun n hq hp => ?_,
    fun j n hj => h.within j n (hmoved j n hj),
    fun j k n hj hk => h.unique j k n (hmoved j n hj) (hmoved k n hk), h.le⟩
  refine Config.some_moved (h.awaited n hq hp) fun hh => ?_
  rw [hi] at hh
  exact hh.elim

theorem sending_store {g : Hub} (h : Sending c p q) (hi : c.locals i = .numbered ev)
    (hp : number ev = p) (hsent : g.sent = c.shared.sent) :
    Sending (c.move i g (.stored ev)) (p + 1) q := by
  have hmoved (j n) (hj : Awaits n ((c.move i g (.stored ev)).locals j)) :
      (j = i ∧ n = p) ∨ (Awaits n (c.locals j) ∧ n < p) := by
    rcases Config.moved_cases hj with ⟨rfl, hn⟩ | ⟨-, hj⟩
    · exact Or.inl ⟨rfl, hp ▸ hn.symm⟩
    · exact Or.inr ⟨hj, (h.within j n hj).2⟩
  have hle := h.le
  refine ⟨by rw [Config.move_shared, hsent]; exact h.sent, fun n hq hn => ?_, fun j n hj => ?_,
    fun j k n hj hk => ?_, Nat.le_succ_of_le hle⟩
  · by_cases hlast : n = p
    · exact ⟨i, by rw [Config.move_self, hlast]; exact hp⟩
    · refine Config.some_moved (h.awaited n hq (by omega)) fun hh => ?_
      rw [hi] at hh
      exact hh.elim
  · rcases hmoved j n hj with ⟨-, rfl⟩ | ⟨hj, -⟩
    · exact ⟨hle, Nat.lt_succ_self n⟩
    · exact ⟨(h.within j n hj).1, Nat.lt_succ_of_lt (h.within j n hj).2⟩
  · rcases hmoved j n hj with ⟨rfl, hn⟩ | ⟨hj, hn⟩ <;>
      rcases hmoved k n hk with ⟨rfl, hn'⟩ | ⟨hk, hn'⟩
    · rfl
    · exact absurd hn (Nat.ne_of_lt hn')
    · exact absurd hn' (Nat.ne_of_lt hn)
    · exact h.unique j k n hj hk

theorem sending_send (h : Sending c p q) (hi : c.locals i = .stored ev)
    (hfirst : ∀ j other, c.locals j = .stored other → number ev ≤ number other) :
    Sending (c.move i { c.shared with sent := c.shared.sent ++ [ev] } .idle) p (q + 1) := by
  have hawaits : Awaits (number ev) (c.locals i) := by
    rw [hi]
    rfl
  obtain ⟨hle, hlt⟩ := h.within i _ hawaits
  have hq : number ev = q := by
    obtain ⟨j, hj⟩ := h.awaited q (Nat.le_refl q) (Nat.lt_of_le_of_lt hle hlt)
    rcases hl : c.locals j with _ | _ | other <;> rw [hl] at hj
    · exact hj.elim
    · exact hj.elim
    · have hother : number other = q := hj
      have hmin := hfirst j other hl
      omega
  have hmoved (j n) (hj : Awaits n ((c.move i { c.shared with
      sent := c.shared.sent ++ [ev] } .idle).locals j)) : j ≠ i ∧ Awaits n (c.locals j) :=
    (Config.moved_cases hj).resolve_left fun h => h.2
  refine ⟨?_, fun n hn hp => ?_, fun j n hj => ?_,
    fun j k n hj hk => h.unique j k n (hmoved j n hj).2 (hmoved k n hk).2, by omega⟩
  · rw [Config.move_shared, List.map_append, h.sent, List.map_singleton, hq, List.range_succ]
  · refine Config.some_moved (h.awaited n (by omega) hp) fun hh => ?_
    rw [hi] at hh
    have hn' : number ev = n := hh
    omega
  · obtain ⟨hji, hj⟩ := hmoved j n hj
    obtain ⟨hqn, hnp⟩ := h.within j n hj
    refine ⟨Nat.lt_of_le_of_ne hqn fun hn => hji ?_, hnp⟩
    exact h.unique j i n hj (by rw [← hn, ← hq]; exact hawaits)

end Hub

namespace Page

structure Shown (lo hi : ℕ) (xs : List LogLine) : Prop where
  appended : appended xs = List.range' lo (hi - lo)
  reached : ∀ n, (∀ x ∈ xs, x.seq < n) ↔ hi ≤ n
  le : lo ≤ hi

theorem shown_next {lo hi : ℕ} {xs : List LogLine} {x : LogLine} (h : Shown lo hi xs)
    (hx : x.seq ≤ hi) : Shown lo (max hi (x.seq + 1)) (xs ++ [x]) := by
  classical
  have hle := h.le
  refine ⟨?_, fun n => ?_, by omega⟩
  · rw [appended_snoc, h.appended]
    by_cases hnew : hi ≤ x.seq
    · have heq : x.seq = lo + (hi - lo) := by omega
      have hmax : max hi (x.seq + 1) - lo = hi - lo + 1 := by omega
      rw [if_pos ((h.reached x.seq).mpr hnew), hmax, heq, List.range'_1_concat]
    · have hmax : max hi (x.seq + 1) = hi := by omega
      rw [if_neg fun hall => hnew ((h.reached x.seq).mp hall), hmax, List.append_nil]
  · simp only [List.mem_append, List.mem_singleton, or_imp, forall_and, forall_eq]
    rw [h.reached]
    omega

theorem shown_history {lo n : ℕ} {xs : List LogLine} (h : xs.map (·.seq) = List.range' lo n)
    (hlo : n = 0 → lo = 0) : Shown lo (lo + n) xs := by
  have hincreasing : Increasing xs := by
    have hpairs : (xs.map (·.seq)).Pairwise (· < ·) := h ▸ List.pairwise_lt_range'
    exact List.pairwise_map.mp hpairs
  refine ⟨?_, fun m => ?_, Nat.le_add_right lo n⟩
  · rw [appended_of_increasing hincreasing, h, Nat.add_sub_cancel_left]
  · have hmem (k : ℕ) : (∃ x ∈ xs, x.seq = k) ↔ lo ≤ k ∧ k < lo + n := by
      rw [← List.mem_range'_1, ← h, List.mem_map]
    constructor
    · intro hall
      by_cases hn : n = 0
      · have hzero := hlo hn
        omega
      · obtain ⟨x, hx, hseq⟩ := (hmem (lo + n - 1)).mpr (by omega)
        have hlt := hall x hx
        omega
    · intro hm x hx
      have hin := (hmem x.seq).mp ⟨x, hx, rfl⟩
      omega

end Page

structure Screen where
  cursor : Option ℕ
  inFlight : List LogEvent
  response : Option (List LogEvent)
  arrived : List Page.Arrival
  missed : ℕ

structure Desk (ι : Type) where
  hub : Config ι Hub Hub.Publish
  screen : Screen

def LogEvent.line (ev : LogEvent) : LogLine := ⟨Hub.number ev, ev.ts, ev.level, ev.message⟩

namespace Desk
variable {ι : Type} [DecidableEq ι]

def start (ι : Type) : Desk ι := ⟨Hub.start ι, none, [], none, [], 0⟩

inductive Loads : Desk ι → Desk ι → Prop
  | publish {d : Desk ι} {c} (h : Next Hub.Act Hub.InTurn d.hub c) : Loads d { d with hub := c }
  | connect {d : Desk ι} (h : d.screen.cursor = none) :
      Loads d { d with screen := { d.screen with cursor := some d.hub.shared.sent.length } }
  | answer {d : Desk ι} (h : d.screen.cursor ≠ none) (hr : d.screen.response = none) :
      Loads d { d with screen := { d.screen with response := some d.hub.shared.history } }
  | load {d : Desk ι} {list} (h : d.screen.response = some list) (ha : d.screen.arrived = []) :
      Loads d { d with screen := { d.screen with arrived := [.history (list.map (·.line))] } }
  | carry {d : Desk ι} {k ev} (h : d.screen.cursor = some k)
      (hlag : d.hub.shared.sent.length ≤ k + channelCapacity)
      (hev : d.hub.shared.sent[k]? = some ev) :
      Loads d { d with
        screen := { d.screen with
          cursor := some (k + 1), inFlight := d.screen.inFlight ++ [ev] } }
  -- the receiver jumps to the oldest event the channel still holds, and its error is dropped
  | lagged {d : Desk ι} {k} (h : d.screen.cursor = some k)
      (hlag : k + channelCapacity < d.hub.shared.sent.length) :
      Loads d { d with
        screen := { d.screen with
          cursor := some (d.hub.shared.sent.length - channelCapacity)
          missed := d.screen.missed + (d.hub.shared.sent.length - channelCapacity - k) } }
  | deliver {d : Desk ι} {ev rest} (h : d.screen.inFlight = ev :: rest)
      (ha : d.screen.arrived ≠ []) :
      Loads d { d with
        screen := { d.screen with
          inFlight := rest, arrived := d.screen.arrived ++ [.log ev.line] } }
  | reconnect {d : Desk ι} {k} (h : d.screen.cursor = some k) :
      Loads d { d with
        screen := { d.screen with
          cursor := some d.hub.shared.sent.length
          inFlight := []
          missed := d.screen.missed +
            (d.screen.inFlight.length + (d.hub.shared.sent.length - k)) } }

structure Carries (q k m : ℕ) (inFlight : List LogEvent) : Prop where
  numbers : inFlight.map Hub.number = List.range' k m
  within : k + m ≤ q

open Page in
inductive Shows (p q : ℕ) : Screen → Prop
  | closed : Shows p q ⟨none, [], none, [], 0⟩
  | connected {k m : ℕ} {inFlight : List LogEvent} (hc : Carries q k m inFlight) :
      Shows p q ⟨some (k + m), inFlight, none, [], 0⟩
  | answered {k m lo n : ℕ} {inFlight list : List LogEvent} (hc : Carries q k m inFlight)
      (hn : k ≤ lo + n) (hp : lo + n ≤ p) (hlist : list.map Hub.number = List.range' lo n)
      (hlo : lo = 0 ∨ n = 512) : Shows p q ⟨some (k + m), inFlight, some list, [], 0⟩
  | loaded {k m lo hi : ℕ} {inFlight list : List LogEvent} {arrived : List Arrival}
      (hc : Carries q k m inFlight) (hn : k ≤ hi) (hp : hi ≤ p) (ha : arrived ≠ [])
      (hshown : Shown lo hi (arrived.flatMap Arrival.added)) (hlo : lo = 0 ∨ 512 ≤ hi - lo) :
      Shows p q ⟨some (k + m), inFlight, some list, arrived, 0⟩

section
variable {p q k m : ℕ} {s : Screen} {ev : LogEvent} {rest inFlight : List LogEvent}

theorem Carries.mono {q' : ℕ} (h : Carries q k m inFlight) (hq : q ≤ q') :
    Carries q' k m inFlight :=
  ⟨h.numbers, Nat.le_trans h.within hq⟩

theorem Carries.carry (h : Carries q k m inFlight) (hev : Hub.number ev = k + m)
    (hq : k + m < q) : Carries q k (m + 1) (inFlight ++ [ev]) := by
  refine ⟨?_, hq⟩
  rw [List.map_append, h.numbers, List.map_singleton, hev, List.range'_1_concat]

theorem Carries.deliver (h : Carries q k m (ev :: rest)) :
    ∃ n, m = n + 1 ∧ Hub.number ev = k ∧ Carries q (k + 1) n rest := by
  obtain ⟨hnumbers, hwithin⟩ := h
  cases m with
  | zero => cases hnumbers
  | succ n =>
    rw [List.map_cons, List.range'_succ] at hnumbers
    obtain ⟨hk, hrest⟩ := List.cons.inj hnumbers
    exact ⟨n, rfl, hk, hrest, by omega⟩

theorem Shows.mono {p' q' : ℕ} (h : Shows p q s) (hp : p ≤ p') (hq : q ≤ q') :
    Shows p' q' s := by
  cases h with
  | closed => exact .closed
  | connected hc => exact .connected (hc.mono hq)
  | answered hc hn hle hlist hlo =>
    exact .answered (hc.mono hq) hn (Nat.le_trans hle hp) hlist hlo
  | loaded hc hn hle ha hshown hlo =>
    exact .loaded (hc.mono hq) hn (Nat.le_trans hle hp) ha hshown hlo

end

structure Follows (d : Desk ι) (p q : ℕ) : Prop where
  filled : Hub.Filled d.hub p
  sending : Hub.Sending d.hub p q
  shows : d.screen.missed = 0 → Shows p q d.screen

theorem follows_publish {d : Desk ι} {p q : ℕ} {i : ι} {g : Hub} {l : Hub.Publish}
    (h : d.Follows p q) (hact : Hub.Act d.hub.shared (d.hub.locals i) g l)
    (hguard : Hub.InTurn d.hub i) :
    ∃ p' q', Follows { d with hub := d.hub.move i g l } p' q' := by
  obtain ⟨hfilled, hsending, hshows⟩ := h
  obtain ⟨horder, hfirst⟩ := hguard
  rw [Hub.InOrder] at horder
  generalize hl : d.hub.locals i = l₀ at hact horder hfirst
  cases hact with
  | number ts level target message =>
    exact ⟨p, q, Hub.filled_number hfilled hl rfl rfl (Hub.toNat_succ horder),
      Hub.sending_number hsending hl rfl, hshows⟩
  | store ev =>
    have hp := Hub.stored_next hfilled hl horder
    exact ⟨p + 1, q, Hub.filled_store hfilled hl horder, Hub.sending_store hsending hl hp rfl,
      fun hm => (hshows hm).mono (Nat.le_succ p) (Nat.le_refl q)⟩
  | send ev =>
    exact ⟨p, q + 1, Hub.filled_send hfilled hl,
      Hub.sending_send hsending hl (hfirst ev rfl),
      fun hm => (hshows hm).mono (Nat.le_refl p) (Nat.le_succ q)⟩

section
variable {p q k : ℕ} {s : Screen} {ev : LogEvent}

theorem shows_connect (h : Shows p q s) (hc : s.cursor = none) (hk : k ≤ q) :
    Shows p q { s with cursor := some k } := by
  cases h with
  | closed => exact .connected (k := k) (m := 0) ⟨rfl, hk⟩
  | connected => cases hc
  | answered => cases hc
  | loaded => cases hc

theorem shows_load {list : List LogEvent} (h : Shows p q s) (hr : s.response = some list)
    (ha : s.arrived = []) : Shows p q { s with arrived := [.history (list.map (·.line))] } := by
  cases h with
  | closed => cases hr
  | connected => cases hr
  | loaded hc hn hp hne => exact absurd ha hne
  | @answered k m lo n inFlight list' hc hn hp hlist hlo =>
    cases hr
    have hmap : (list.map (·.line)).map (·.seq) = List.range' lo n := by
      rw [List.map_map, ← hlist]
      rfl
    have hshown := Page.shown_history hmap fun hn => hlo.resolve_right (by omega)
    refine .loaded hc hn hp (List.cons_ne_nil _ _) ?_ (hlo.imp_right (by omega))
    rw [List.flatMap_singleton]
    exact hshown

theorem shows_carry (h : Shows p q s) (hc : s.cursor = some k) (hev : Hub.number ev = k)
    (hkq : k < q) :
    Shows p q { s with cursor := some (k + 1), inFlight := s.inFlight ++ [ev] } := by
  cases h with
  | closed => cases hc
  | @connected j m inFlight hcarries =>
    cases hc
    exact .connected (k := j) (m := m + 1) (hcarries.carry hev hkq)
  | @answered j m lo n inFlight list hcarries hn hp hlist hlo =>
    cases hc
    exact .answered (k := j) (m := m + 1) (hcarries.carry hev hkq) hn hp hlist hlo
  | @loaded j m lo hi inFlight list arrived hcarries hn hp ha hshown hlo =>
    cases hc
    exact .loaded (k := j) (m := m + 1) (hcarries.carry hev hkq) hn hp ha hshown hlo

theorem shows_deliver {rest : List LogEvent} (h : Shows p q s) (hf : s.inFlight = ev :: rest)
    (ha : s.arrived ≠ []) (hqp : q ≤ p) :
    Shows p q { s with inFlight := rest, arrived := s.arrived ++ [.log ev.line] } := by
  cases h with
  | closed => cases hf
  | connected => exact absurd rfl ha
  | answered => exact absurd rfl ha
  | @loaded k m lo hi inFlight list arrived hc hn hp hne hshown hlo =>
    cases hf
    obtain ⟨n, rfl, hseq, hrest⟩ := hc.deliver
    replace hseq : ev.line.seq = k := hseq
    have hwithin := hc.within
    have hnext := Page.shown_next hshown (x := ev.line) (by omega)
    rw [hseq] at hnext
    have hcursor : k + (n + 1) = k + 1 + n := by omega
    rw [hcursor]
    refine .loaded hrest (Nat.le_max_right hi (k + 1)) (by omega) (by simp) ?_
      (hlo.imp_right (by omega))
    rw [List.flatMap_append, List.flatMap_singleton]
    exact hnext

theorem Shows.cursor_le (h : Shows p q s) (hc : s.cursor = some k) : k ≤ q := by
  cases h with
  | closed => cases hc
  | connected hcarries => cases hc; exact hcarries.within
  | answered hcarries => cases hc; exact hcarries.within
  | loaded hcarries => cases hc; exact hcarries.within

end

omit [DecidableEq ι] in
theorem shows_answer {c : Config ι Hub Hub.Publish} {p q : ℕ} {s : Screen} (h : Shows p q s)
    (hfilled : Hub.Filled c p) (hle : q ≤ p) (hc : s.cursor ≠ none) (hr : s.response = none) :
    Shows p q { s with response := some c.shared.history } := by
  cases h with
  | closed => exact absurd rfl hc
  | connected hcarries =>
    have hwithin := hcarries.within
    exact .answered hcarries (by omega) (by omega) hfilled.ring (by omega)
  | answered => cases hr
  | loaded => cases hr

omit [DecidableEq ι] in
theorem follows_start : Follows (start ι) 0 0 := by
  refine ⟨⟨rfl, ?_, fun i n hi => hi.elim, fun i j n hi _ => hi.elim, Nat.le_refl 0⟩,
    ⟨rfl, ?_, fun i n hi => hi.elim, fun i j n hi _ => hi.elim, Nat.le_refl 0⟩, fun _ => .closed⟩
  · exact fun n _ hn => absurd hn (Nat.not_lt_zero n)
  · exact fun n _ hn => absurd hn (Nat.not_lt_zero n)

theorem follows_step {d d' : Desk ι} {p q : ℕ} (h : d.Follows p q) (hstep : Loads d d') :
    ∃ p' q', d'.Follows p' q' := by
  have hlen : d.hub.shared.sent.length = q := by
    rw [← List.length_map (f := Hub.number), h.sending.sent, List.length_range]
  cases hstep with
  | publish hnext =>
    cases hnext with
    | step hact hguard => exact follows_publish h hact hguard
  | connect hc =>
    exact ⟨p, q, h.filled, h.sending, fun hm => shows_connect (h.shows hm) hc hlen.le⟩
  | answer hc hr =>
    exact ⟨p, q, h.filled, h.sending,
      fun hm => shows_answer (h.shows hm) h.filled h.sending.le hc hr⟩
  | load hr ha => exact ⟨p, q, h.filled, h.sending, fun hm => shows_load (h.shows hm) hr ha⟩
  | @lagged k hc hlag =>
    exact ⟨p, q, h.filled, h.sending, fun hm => by dsimp only at hm; omega⟩
  | @reconnect k hc =>
    refine ⟨p, q, h.filled, h.sending, fun hm => ?_⟩
    dsimp only at hm
    have hshows := h.shows (by omega)
    have hkq := hshows.cursor_le hc
    have hk : d.hub.shared.sent.length = k := by omega
    have hempty : d.screen.inFlight = [] := List.eq_nil_of_length_eq_zero (by omega)
    rw [hk, hempty, List.length_nil, Nat.sub_self, ← hc, ← hempty]
    exact hshows
  | deliver hf ha =>
    exact ⟨p, q, h.filled, h.sending,
      fun hm => shows_deliver (h.shows hm) hf ha h.sending.le⟩
  | @carry k ev hc hlag hev =>
    have hat : (List.range q)[k]? = some (Hub.number ev) := by
      rw [← h.sending.sent, List.getElem?_map, hev, Option.map_some]
    obtain ⟨hkq, hk⟩ := List.getElem?_eq_some_iff.mp hat
    rw [List.getElem_range] at hk
    rw [List.length_range] at hkq
    exact ⟨p, q, h.filled, h.sending,
      fun hm => shows_carry (h.shows hm) hc hk.symm hkq⟩

theorem follows_of_run {d : Desk ι} (h : Relation.ReflTransGen Loads (start ι) d) :
    ∃ p q, d.Follows p q := by
  induction h with
  | refl => exact ⟨0, 0, follows_start⟩
  | tail _ hstep ih =>
    obtain ⟨p, q, hfollows⟩ := ih
    exact follows_step hfollows hstep

theorem page_follows_log {d : Desk ι} (h : Relation.ReflTransGen Loads (start ι) d)
    (hmissed : d.screen.missed = 0) (hloaded : d.screen.arrived ≠ []) :
    ∃ lo hi, Page.shown d.screen.arrived = List.range' lo (hi - lo) ∧
      (lo = 0 ∨ 512 ≤ hi - lo) ∧ lo ≤ hi ∧ hi ≤ d.hub.shared.nextSeq.toNat ∧
      ((∀ i, d.hub.locals i = .idle) → d.screen.cursor = some d.hub.shared.sent.length →
        d.screen.inFlight = [] → hi = d.hub.shared.nextSeq.toNat) := by
  obtain ⟨p, q, hfilled, hsending, hshows⟩ := follows_of_run h
  replace hshows := hshows hmissed
  generalize hs : d.screen = s at hshows hloaded ⊢
  cases hshows with
  | closed => exact absurd rfl hloaded
  | connected => exact absurd rfl hloaded
  | answered => exact absurd rfl hloaded
  | @loaded k m lo hi inFlight list arrived hcarries hn hp ha hshown hlo =>
    refine ⟨lo, hi, hshown.appended, hlo, hshown.le, Nat.le_trans hp hfilled.le,
      fun hidle hc hf => ?_⟩
    have hlen : d.hub.shared.sent.length = q := by
      rw [← List.length_map (f := Hub.number), hsending.sent, List.length_range]
    have hsent : q = p := by
      refine Nat.le_antisymm hsending.le (Nat.le_of_not_lt fun hlt => ?_)
      obtain ⟨i, hi⟩ := hsending.awaited q (Nat.le_refl q) hlt
      rw [hidle i] at hi
      exact hi
    have hstored : p = d.hub.shared.nextSeq.toNat := by
      refine Nat.le_antisymm hfilled.le (Nat.le_of_not_lt fun hlt => ?_)
      obtain ⟨i, hi⟩ := hfilled.held p (Nat.le_refl p) hlt
      rw [hidle i] at hi
      exact hi
    have hnumbers := congrArg List.length hcarries.numbers
    replace hf : inFlight = [] := hf
    rw [hf, List.length_range'] at hnumbers
    replace hc : k + m = d.hub.shared.sent.length := Option.some.inj hc
    replace hnumbers : 0 = m := hnumbers
    omega

section
variable {d : Desk Unit}

theorem number_alone (h : Relation.ReflTransGen Loads (start Unit) d)
    (hl : d.hub.locals () = .idle) (hroom : d.hub.shared.nextSeq.toNat + 1 < 2 ^ 64) :
    Relation.ReflTransGen Loads (start Unit)
      ⟨d.hub.move () { d.hub.shared with nextSeq := d.hub.shared.nextSeq + 1 }
        (.numbered (Hub.eventOf d.hub.shared.nextSeq)), d.screen⟩ := by
  refine h.tail (.publish (.step ?_ ⟨?_, fun ev hev => ?_⟩))
  · rw [hl]
    exact .number _ 0 "INFO" "esp_daplink_host" "log"
  · rw [Hub.InOrder, hl]
    exact hroom
  · rw [hl] at hev
    cases hev

theorem store_alone {ev : LogEvent} (h : Relation.ReflTransGen Loads (start Unit) d)
    (hl : d.hub.locals () = .numbered ev) :
    Relation.ReflTransGen Loads (start Unit)
      ⟨d.hub.move () { d.hub.shared with ring := pushRing d.hub.shared.ring ev } (.stored ev),
        d.screen⟩ := by
  refine h.tail (.publish (.step ?_ ⟨?_, fun ev hev => ?_⟩))
  · rw [hl]
    exact .store _ ev
  · rw [Hub.InOrder, hl]
    rintro ⟨⟩ other hother
    rw [hl] at hother
    cases hother
    exact UInt64.le_refl _
  · rw [hl] at hev
    cases hev

theorem send_alone {ev : LogEvent} (h : Relation.ReflTransGen Loads (start Unit) d)
    (hl : d.hub.locals () = .stored ev) :
    Relation.ReflTransGen Loads (start Unit)
      ⟨d.hub.move () { d.hub.shared with sent := d.hub.shared.sent ++ [ev] } .idle,
        d.screen⟩ := by
  refine h.tail (.publish (.step ?_ ⟨?_, ?_⟩))
  · rw [hl]
    exact .send _ ev
  · rw [Hub.InOrder, hl]
    trivial
  · rintro ev hev ⟨⟩ other hother
    rw [hev] at hother
    cases hother
    exact Nat.le_refl _

end

theorem page_follows_across_reconnect : ∃ d : Desk Unit,
    Relation.ReflTransGen Loads (start Unit) d ∧ d.hub.shared.nextSeq.toNat = 2 ∧
      Page.shown d.screen.arrived = [0, 1] := by
  have hconnected : Relation.ReflTransGen Loads (start Unit) _ :=
    Relation.ReflTransGen.refl.tail (.connect rfl)
  -- the first event is in the history and comes again over the stream
  have hstored := store_alone (number_alone hconnected rfl (by decide)) rfl
  have hloaded := (hstored.tail (.answer (Option.some_ne_none _) rfl)).tail (.load rfl rfl)
  have hrepeated := ((send_alone hloaded rfl).tail (.carry rfl (by decide) rfl)).tail
    (.deliver rfl (List.cons_ne_nil _ _))
  obtain ⟨d, hd, hidle, hshared, hcursor, hempty, harrived, hmissed⟩ : ∃ d : Desk Unit,
      Relation.ReflTransGen Loads (start Unit) d ∧ d.hub.locals () = .idle ∧
        d.hub.shared = ⟨1, [Hub.eventOf 0], [Hub.eventOf 0]⟩ ∧ d.screen.cursor = some 1 ∧
        d.screen.inFlight = [] ∧ d.screen.arrived ≠ [] ∧ d.screen.missed = 0 :=
    ⟨_, hrepeated.tail (.reconnect rfl), rfl, rfl, rfl, rfl, List.cons_ne_nil _ _, rfl⟩
  have hnext : d.hub.shared.nextSeq = 1 := by rw [hshared]
  have hsent : d.hub.shared.sent = [Hub.eventOf 0] := by rw [hshared]
  have hsecond := send_alone (store_alone (number_alone hd hidle (by rw [hnext]; decide)) rfl) rfl
  have hev : (d.hub.shared.sent ++ [Hub.eventOf d.hub.shared.nextSeq])[1]? =
      some (Hub.eventOf d.hub.shared.nextSeq) := by simp [hsent]
  have hcarried := hsecond.tail (.carry hcursor (by simp [hsent, channelCapacity]) hev)
  have hfirst : d.screen.inFlight ++ [Hub.eventOf d.hub.shared.nextSeq] =
      [Hub.eventOf d.hub.shared.nextSeq] := by rw [hempty, List.nil_append]
  have hshown := hcarried.tail (.deliver hfirst harrived)
  refine ⟨_, hshown, by simp [hnext], ?_⟩
  obtain ⟨lo, hi, happended, hlo, -, -, hall⟩ := page_follows_log hshown hmissed (by simp)
  have hhi : hi = 2 := by
    rw [hall (fun _ => rfl) (by simp [hsent]) rfl]
    simp [hnext]
  obtain rfl : lo = 0 := by omega
  rw [happended, hhi]
  rfl

end Desk

end DapProxy.Host
