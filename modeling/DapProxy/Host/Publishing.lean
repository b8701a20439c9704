import DapProxy.Host.Logs
import Mathlib.Data.List.Perm.Subperm

namespace DapProxy.Host.Hub
open Concurrent
variable {ι : Type} [DecidableEq ι] {c : Config ι Hub Publish}

def number (ev : LogEvent) : ℕ := ev.seq.toNat

def Owns (n : ℕ) : Publish → Prop
  | .idle => False
  | .numbered ev => number ev = n
  | .stored ev => number ev = n

def Carries (ev : LogEvent) (l : Publish) : Prop := l = .stored ev

theorem owns_of_holds {n : ℕ} {l : Publish} (h : Holds n l) : Owns n l := by
  cases l with
  | idle => exact h
  | numbered ev => exact h
  | stored ev => exact h.elim

structure Ledger (c : Config ι Hub Publish) (stored waiting : List LogEvent) : Prop where
  ring : c.shared.ring = stored.drop (stored.length - 512)
  perm : stored.Perm (c.shared.sent ++ waiting)
  nodup : (stored.map number).Nodup
  known : ∀ n, n < c.shared.nextSeq.toNat ↔ n ∈ stored.map number ∨ ∃ i, Holds n (c.locals i)
  fresh : ∀ i n, Holds n (c.locals i) → n ∉ stored.map number
  unique : ∀ i j n, Owns n (c.locals i) → Owns n (c.locals j) → i = j
  pending : ∀ i ev, Carries ev (c.locals i) → ev ∈ waiting
  waits : ∀ ev ∈ waiting, ∃ i, Carries ev (c.locals i)

theorem pushRing_drop {ring stored : List LogEvent} (h : ring = stored.drop (stored.length - 512))
    (ev : LogEvent) :
    pushRing ring ev = (stored ++ [ev]).drop ((stored ++ [ev]).length - 512) := by
  have hlen : ring.length = min stored.length 512 := by
    rw [h, List.length_drop]
    omega
  have hcapacity : ringCapacity = 512 := rfl
  rw [pushRing, hlen, hcapacity, List.length_append, List.length_singleton]
  by_cases hfull : 512 ≤ stored.length
  · have hdrop : stored.length - 512 + 1 = stored.length + 1 - 512 := by omega
    rw [if_pos (by omega), h, List.drop_drop, List.drop_append_of_le_length (by omega), hdrop]
  · have hdrop : stored.length - 512 = stored.length + 1 - 512 := by omega
    rw [if_neg (by omega), h, List.drop_append_of_le_length (by omega), hdrop]

section
variable {stored waiting : List LogEvent} {i : ι} {ev : LogEvent}

omit [DecidableEq ι] in
theorem Ledger.owned_lt (h : Ledger c stored waiting) {n : ℕ} (hi : Owns n (c.locals i)) :
    n < c.shared.nextSeq.toNat := by
  rw [h.known]
  rcases hl : c.locals i with _ | ev | ev <;> rw [hl] at hi
  · exact hi.elim
  · refine Or.inr ⟨i, ?_⟩
    rw [hl]
    exact hi
  · refine Or.inl (List.mem_map.mpr ⟨ev, ?_, hi⟩)
    exact h.perm.mem_iff.mpr (List.mem_append_right _ (h.pending i ev hl))

theorem ledger_number {g : Hub} (h : Ledger c stored waiting) (hi : c.locals i = .idle)
    (hring : g.ring = c.shared.ring) (hsent : g.sent = c.shared.sent)
    (hseq : ev.seq = c.shared.nextSeq)
    (hnext : g.nextSeq.toNat = c.shared.nextSeq.toNat + 1) :
    Ledger (c.move i g (.numbered ev)) stored waiting := by
  have hnumber : number ev = c.shared.nextSeq.toNat := congrArg UInt64.toNat hseq
  have hmoved (j ev') (hj : Carries ev' ((c.move i g (.numbered ev)).locals j)) :
      Carries ev' (c.locals j) :=
    ((Config.moved_cases hj).resolve_left fun h => Publish.noConfusion h.2).2
  have howner (j n) (hj : Owns n ((c.move i g (.numbered ev)).locals j)) :
      (j = i ∧ n = c.shared.nextSeq.toNat) ∨ Owns n (c.locals j) := by
    rcases Config.moved_cases hj with ⟨rfl, hn⟩ | ⟨-, hj⟩
    · exact Or.inl ⟨rfl, hnumber ▸ hn.symm⟩
    · exact Or.inr hj
  refine ⟨hring.trans h.ring, ?_, h.nodup, fun n => ?_, fun j n hj => ?_, fun j k n hj hk => ?_,
    fun j ev' hj => h.pending j ev' (hmoved j ev' hj), fun ev' hev' => ?_⟩
  · rw [Config.move_shared, hsent]
    exact h.perm
  · rw [Config.move_shared, hnext]
    constructor
    · intro hn
      by_cases hlast : n = c.shared.nextSeq.toNat
      · exact Or.inr ⟨i, by rw [Config.move_self, hlast]; exact hnumber⟩
      · refine ((h.known n).mp (by omega)).imp id fun hheld => ?_
        refine Config.some_moved hheld fun hh => ?_
        rw [hi] at hh
        exact hh.elim
    · rintro (hn | ⟨j, hj⟩)
      · exact Nat.lt_succ_of_lt ((h.known n).mpr (Or.inl hn))
      · rcases howner j n (owns_of_holds hj) with ⟨-, rfl⟩ | hj
        · exact Nat.lt_succ_self _
        · exact Nat.lt_succ_of_lt (h.owned_lt hj)
  · rcases Config.moved_cases hj with ⟨rfl, hn⟩ | ⟨-, hj⟩
    · intro hmem
      have hlt := (h.known n).mpr (Or.inl hmem)
      have hn' : number ev = n := hn
      omega
    · exact h.fresh j n hj
  · rcases howner j n hj with ⟨rfl, hn⟩ | hj' <;> rcases howner k n hk with ⟨rfl, hn'⟩ | hk'
    · rfl
    · exact absurd (h.owned_lt hk') (by omega)
    · exact absurd (h.owned_lt hj') (by omega)
    · exact h.unique j k n hj' hk'
  · refine Config.some_moved (h.waits ev' hev') fun hh => ?_
    rw [hi] at hh
    cases hh

theorem ledger_store (h : Ledger c stored waiting) (hi : c.locals i = .numbered ev) :
    Ledger (c.move i { c.shared with ring := pushRing c.shared.ring ev } (.stored ev))
      (stored ++ [ev]) (waiting ++ [ev]) := by
  have hholds : Holds (number ev) (c.locals i) := by
    rw [hi]
    rfl
  have howner (j n) (hj : Owns n ((c.move i { c.shared with
      ring := pushRing c.shared.ring ev } (.stored ev)).locals j)) : Owns n (c.locals j) := by
    rcases Config.moved_cases hj with ⟨rfl, hn⟩ | ⟨-, hj⟩
    · rw [hi]
      exact hn
    · exact hj
  have hholder (j n) (hj : Holds n ((c.move i { c.shared with
      ring := pushRing c.shared.ring ev } (.stored ev)).locals j)) :
      j ≠ i ∧ Holds n (c.locals j) := (Config.moved_cases hj).resolve_left fun h => h.2
  refine ⟨pushRing_drop h.ring ev, ?_, ?_, fun n => ?_, fun j n hj => ?_,
    fun j k n hj hk => h.unique j k n (howner j n hj) (howner k n hk), fun j ev' hj => ?_,
    fun ev' hev' => ?_⟩
  · rw [Config.move_shared, ← List.append_assoc]
    exact h.perm.append_right [ev]
  · rw [List.map_append, List.map_singleton, List.nodup_append]
    refine ⟨h.nodup, List.nodup_singleton _, fun m hm n hn => ?_⟩
    rw [List.mem_singleton.mp hn]
    exact fun heq => h.fresh i _ hholds (heq ▸ hm)
  · rw [List.map_append, List.mem_append, List.map_singleton, List.mem_singleton]
    refine (h.known n).trans ⟨?_, ?_⟩
    · rintro (hn | ⟨j, hj⟩)
      · exact Or.inl (Or.inl hn)
      · by_cases hji : j = i
        · rw [hji, hi] at hj
          exact Or.inl (Or.inr hj.symm)
        · exact Or.inr ⟨j, by rw [Config.move_other _ _ _ _ hji]; exact hj⟩
    · rintro ((hn | rfl) | ⟨j, hj⟩)
      · exact Or.inl hn
      · exact Or.inr ⟨i, hholds⟩
      · exact Or.inr ⟨j, (hholder j n hj).2⟩
  · obtain ⟨hji, hj⟩ := hholder j n hj
    rw [List.map_append, List.mem_append, List.map_singleton, List.mem_singleton]
    rintro (hn | rfl)
    · exact h.fresh j n hj hn
    · exact hji (h.unique j i _ (owns_of_holds hj) (owns_of_holds hholds))
  · rcases Config.moved_cases hj with ⟨-, heq⟩ | ⟨-, hj⟩
    · cases heq
      exact List.mem_append_right _ (List.mem_singleton_self _)
    · exact List.mem_append_left _ (h.pending j ev' hj)
  · rcases List.mem_append.mp hev' with hev' | hev'
    · refine Config.some_moved (h.waits ev' hev') fun hh => ?_
      rw [hi] at hh
      cases hh
    · rw [List.mem_singleton.mp hev']
      exact ⟨i, Config.move_self ..⟩

theorem ledger_send (h : Ledger c stored waiting) (hi : c.locals i = .stored ev) :
    ∃ waiting', Ledger (c.move i { c.shared with sent := c.shared.sent ++ [ev] } .idle)
      stored waiting' := by
  obtain ⟨front, back, rfl⟩ := List.append_of_mem (h.pending i ev hi)
  have hperm : stored.Perm (c.shared.sent ++ [ev] ++ (front ++ back)) := by
    refine h.perm.trans ?_
    rw [List.append_assoc]
    exact List.Perm.append_left _ List.perm_middle
  have hown (j n) (hj : Owns n ((c.move i { c.shared with
      sent := c.shared.sent ++ [ev] } .idle).locals j)) : j ≠ i ∧ Owns n (c.locals j) :=
    (Config.moved_cases hj).resolve_left fun h => h.2
  have hcarrier (j ev') (hj : Carries ev' ((c.move i { c.shared with
      sent := c.shared.sent ++ [ev] } .idle).locals j)) : j ≠ i ∧ Carries ev' (c.locals j) :=
    (Config.moved_cases hj).resolve_left fun h => Publish.noConfusion h.2
  have hholder (j n) (hj : Holds n ((c.move i { c.shared with
      sent := c.shared.sent ++ [ev] } .idle).locals j)) : Holds n (c.locals j) :=
    ((Config.moved_cases hj).resolve_left fun h => h.2).2
  have hapart : ev ∉ front ++ back := by
    have hnodup := (hperm.map number).nodup_iff.mp h.nodup
    rw [List.map_append, List.map_append, List.nodup_append] at hnodup
    intro hmem
    exact hnodup.2.2 (number ev) (by simp) (number ev) (List.mem_map_of_mem hmem) rfl
  refine ⟨front ++ back, h.ring, hperm, h.nodup, fun n => (h.known n).trans (or_congr_right ?_),
    fun j n hj => h.fresh j n (hholder j n hj),
    fun j k n hj hk => h.unique j k n (hown j n hj).2 (hown k n hk).2, fun j ev' hj => ?_,
    fun ev' hev' => ?_⟩
  · refine ⟨fun hheld => Config.some_moved hheld fun hh => ?_, fun ⟨j, hj⟩ => ⟨j, hholder j n hj⟩⟩
    rw [hi] at hh
    exact hh.elim
  · obtain ⟨hji, hcarries⟩ := hcarrier j ev' hj
    have hmem := h.pending j ev' hcarries
    rcases List.mem_append.mp hmem with hmem | hmem
    · exact List.mem_append_left _ hmem
    · rcases List.mem_cons.mp hmem with rfl | hmem
      · refine absurd (h.unique j i (number ev') ?_ ?_) hji
        · rw [show c.locals j = .stored ev' from hcarries]
          rfl
        · rw [hi]
          rfl
      · exact List.mem_append_right _ hmem
  · have hmem : ev' ∈ front ++ ev :: back := by
      rcases List.mem_append.mp hev' with hev' | hev'
      · exact List.mem_append_left _ hev'
      · exact List.mem_append_right _ (List.mem_cons_of_mem _ hev')
    refine Config.some_moved (h.waits ev' hmem) fun hh => ?_
    rw [hi] at hh
    cases hh
    exact absurd hev' hapart

end

theorem ledger_of_run {stored : List LogEvent}
    (h : Traced Act Unwrapped storeOf (start ι) stored c) :
    ∃ waiting, Ledger c stored waiting := by
  induction h with
  | refl =>
    refine ⟨[], rfl, List.Perm.refl _, List.nodup_nil, fun n => ?_, fun i n hi => hi.elim,
      fun i j n hi _ => hi.elim, fun i ev hi => Publish.noConfusion hi, fun ev hev => ?_⟩
    · exact iff_of_false (Nat.not_lt_zero n) fun h =>
        h.elim List.not_mem_nil fun ⟨i, hi⟩ => hi.elim
    · exact absurd hev List.not_mem_nil
  | step _ hl hact hroom ih =>
    obtain ⟨waiting, hledger⟩ := ih
    cases hact with
    | number ts level target message =>
      simp only [storeOf, Option.toList_none, List.append_nil]
      exact ⟨waiting, ledger_number hledger hl rfl rfl rfl (toNat_succ hroom)⟩
    | store ev => exact ⟨_, ledger_store hledger hl⟩
    | send ev =>
      simp only [storeOf, Option.toList_none, List.append_nil]
      exact ledger_send hledger hl

theorem events_kept_once {stored : List LogEvent}
    (h : Traced Act Unwrapped storeOf (start ι) stored c) :
    (c.shared.sent.map number).Nodup ∧ (c.shared.history.map number).Nodup ∧
      c.shared.history.length ≤ 512 ∧ (stored.map number).Nodup ∧
      c.shared.history = stored.drop (stored.length - 512) ∧
      ((∀ i, c.locals i = .idle) →
        (c.shared.sent.map number).Perm (List.range c.shared.nextSeq.toNat) ∧
          stored.Perm c.shared.sent) := by
  obtain ⟨waiting, hledger⟩ := ledger_of_run h
  have hsent := (hledger.perm.map number).nodup_iff.mp hledger.nodup
  rw [List.map_append] at hsent
  refine ⟨hsent.of_append_left, ?_, ?_, hledger.nodup, hledger.ring, fun hidle => ?_⟩
  · rw [history, hledger.ring, List.map_drop]
    exact hledger.nodup.sublist (List.drop_sublist _ _)
  · rw [history, hledger.ring, List.length_drop]
    omega
  · have hwaiting : waiting = [] := by
      rw [List.eq_nil_iff_forall_not_mem]
      intro ev hev
      obtain ⟨i, hi⟩ := hledger.waits ev hev
      rw [hidle i] at hi
      cases hi
    have hperm : stored.Perm c.shared.sent := by
      rw [← List.append_nil c.shared.sent, ← hwaiting]
      exact hledger.perm
    refine ⟨(hperm.map number).symm.trans ?_, hperm⟩
    rw [List.perm_ext_iff_of_nodup hledger.nodup List.nodup_range]
    intro n
    rw [List.mem_range, hledger.known]
    refine (or_iff_left ?_).symm
    rintro ⟨i, hi⟩
    rw [hidle i] at hi
    exact hi

theorem overtaken_event_kept :
    ∃ c stored, Traced Act Unwrapped storeOf (start Bool) stored c ∧
      stored.map number = List.range 600 ++ [601, 600] ∧
      c.shared.history.map number = List.range' 90 510 ++ [601, 600] := by
  obtain ⟨c, stored, hrun, hidle, hnext, hstored, -⟩ := interleaved_rounds 300 (by decide)
  have hbegun := hrun.mono fun d i hd => hd.2
  have hone : (c.shared.nextSeq + 1).toNat = 601 := by rw [toNat_succ (by omega), hnext]
  have htwo : (c.shared.nextSeq + 1 + 1).toNat = 602 := by rw [toNat_succ (by omega), hone]
  have hroom {d : Config Bool Hub Publish} {i : Bool}
      (hd : d.shared.nextSeq = c.shared.nextSeq + 1 + 1) : Unwrapped d i := by
    rw [Unwrapped, hd, htwo]
    decide
  have hnumbered := hbegun.step (i := true) (hidle true)
    (.number _ 0 "INFO" "esp_daplink_host" "log") (by rw [Unwrapped, hnext]; decide)
  have hovertaken := hnumbered.step (i := false) (hidle false)
    (.number _ 0 "INFO" "esp_daplink_host" "log") (by
      rw [Unwrapped, Config.move_shared, hone]
      decide)
  have hsecond := (hovertaken.step (i := false) (k := .numbered (eventOf (c.shared.nextSeq + 1)))
    rfl (.store _ _) (hroom rfl)).extend (.send _ _) (hroom rfl)
  have hfirst := (hsecond.step (i := true) (k := .numbered (eventOf c.shared.nextSeq)) rfl
    (.store _ _) (hroom rfl)).extend (.send _ _) (hroom rfl)
  simp only [storeOf, Option.toList_none, Option.toList_some, List.append_nil] at hfirst
  have hnumbers : (stored ++ [eventOf (c.shared.nextSeq + 1)] ++
      [eventOf c.shared.nextSeq]).map number = List.range 600 ++ [601, 600] := by
    rw [List.map_append, List.map_append, show stored.map number = _ from hstored]
    simp [number, eventOf, hone, hnext]
  have hlen : (stored ++ [eventOf (c.shared.nextSeq + 1)] ++ [eventOf c.shared.nextSeq]).length =
      602 := by
    rw [← List.length_map (f := number), hnumbers, List.length_append, List.length_range]
    rfl
  obtain ⟨-, -, -, -, hhistory, -⟩ := events_kept_once hfirst
  refine ⟨_, _, hfirst, hnumbers, ?_⟩
  rw [hhistory, List.map_drop, hnumbers, hlen, List.drop_append_of_le_length (by simp),
    List.range_eq_range', List.drop_range']

end DapProxy.Host.Hub
