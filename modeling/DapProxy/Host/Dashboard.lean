import DapProxy.Framing.Transducer
import Mathlib.Data.Int.Notation
import Mathlib.Data.List.Induction
import Mathlib.Data.List.Nodup
import Mathlib.Tactic.Common

namespace DapProxy.Host

structure LogLine where
  seq : ℕ
  ts : Float
  level : String
  message : String

structure Page where
  lastSeq : ℤ
  console : List LogLine

namespace Page

def new : Page := ⟨-1, []⟩

def trimmed (console : List LogLine) : List LogLine := console.drop (console.length - 2000)

def addLog (p : Page) (ev : LogLine) : Page × Option LogLine :=
  if (ev.seq : ℤ) ≤ p.lastSeq then (p, none)
  else (⟨ev.seq, trimmed (p.console ++ [ev])⟩, some ev)

def pager : Transducer Page LogLine LogLine := ⟨addLog⟩

def appended (evs : List LogLine) : List ℕ := (pager.outs new evs).map (·.seq)

inductive Arrival where
  | log (ev : LogLine)
  | history (list : List LogLine)

def Arrival.added : Arrival → List LogLine
  | log ev => [ev]
  | history list => list

def shown (arrivals : List Arrival) : List ℕ := appended (arrivals.flatMap Arrival.added)

def opened (history before after : List LogLine) : List Arrival :=
  before.map Arrival.log ++ Arrival.history history :: after.map Arrival.log

def Increasing (evs : List LogLine) : Prop := evs.Pairwise (fun a b => a.seq < b.seq)

instance (evs : List LogLine) : Decidable (Increasing evs) :=
  inferInstanceAs (Decidable (evs.Pairwise fun a b => a.seq < b.seq))

structure Merges (history before after : List LogLine) : Prop where
  recent : ∀ h ∈ history, (∃ l ∈ before, l.seq = h.seq) ∨ ∀ l ∈ before, l.seq < h.seq
  fresh : ∀ l ∈ after, (∃ h ∈ history, h.seq = l.seq) ∨ ∀ h ∈ history, h.seq < l.seq

variable {xs : List LogLine}

theorem lastSeq_lt_iff (xs : List LogLine) (n : ℕ) :
    (pager.run new xs).lastSeq < n ↔ ∀ x ∈ xs, x.seq < n := by
  induction xs using List.reverseRecOn with
  | nil =>
    have hneg : (-1 : ℤ) < n := by omega
    exact iff_of_true hneg fun x hx => absurd hx List.not_mem_nil
  | append_singleton xs x ih =>
    rw [Transducer.run_append]
    change (addLog (pager.run new xs) x).1.lastSeq < n ↔ _
    simp only [List.mem_append, List.mem_singleton, or_imp, forall_and, forall_eq]
    rw [← ih, addLog]
    split
    · next hold =>
      dsimp only
      omega
    · next hnew =>
      change (x.seq : ℤ) < n ↔ _
      omega

theorem appended_snoc (xs : List LogLine) (x : LogLine) [Decidable (∀ y ∈ xs, y.seq < x.seq)] :
    appended (xs ++ [x]) = appended xs ++ if ∀ y ∈ xs, y.seq < x.seq then [x.seq] else [] := by
  rw [appended, Transducer.outs_append, List.map_append, appended]
  congr 1
  change ((addLog (pager.run new xs) x).2.toList ++ []).map _ = _
  rw [addLog]
  split
  · next hold =>
    rw [if_neg]
    · rfl
    · rw [← lastSeq_lt_iff]
      omega
  · next hnew =>
    rw [if_pos]
    · rfl
    · rw [← lastSeq_lt_iff]
      omega

theorem exists_of_appended {n : ℕ} (h : n ∈ appended xs) : ∃ x ∈ xs, x.seq = n := by
  induction xs using List.reverseRecOn with
  | nil => exact absurd h List.not_mem_nil
  | append_singleton xs x ih =>
    classical
    rw [appended_snoc, List.mem_append] at h
    rcases h with h | h
    · obtain ⟨y, hy, hseq⟩ := ih h
      exact ⟨y, List.mem_append_left _ hy, hseq⟩
    · split at h
      · exact ⟨x, by simp, (List.mem_singleton.mp h).symm⟩
      · exact absurd h List.not_mem_nil

theorem appended_increasing (xs : List LogLine) : (appended xs).Pairwise (· < ·) := by
  induction xs using List.reverseRecOn with
  | nil => exact List.Pairwise.nil
  | append_singleton xs x ih =>
    classical
    rw [appended_snoc, List.pairwise_append]
    split
    · next hall =>
      refine ⟨ih, List.pairwise_singleton _ _, fun n hn m hm => ?_⟩
      obtain ⟨y, hy, rfl⟩ := exists_of_appended hn
      rw [List.mem_singleton.mp hm]
      exact hall y hy
    · exact ⟨ih, List.Pairwise.nil, fun _ _ _ hm => absurd hm List.not_mem_nil⟩

theorem appended_of_increasing (h : Increasing xs) : appended xs = xs.map (·.seq) := by
  induction xs using List.reverseRecOn with
  | nil => rfl
  | append_singleton xs x ih =>
    classical
    rw [Increasing, List.pairwise_append] at h
    have hall (y) (hy : y ∈ xs) : y.seq < x.seq := h.2.2 y hy x List.mem_cons_self
    rw [appended_snoc, if_pos hall, ih h.1, List.map_append]
    rfl

theorem mem_appended_append (xs ys : List LogLine) (n : ℕ) : n ∈ appended (xs ++ ys) ↔
    n ∈ appended xs ∨ (∀ x ∈ xs, x.seq < n) ∧ n ∈ appended ys := by
  induction ys using List.reverseRecOn with
  | nil =>
    rw [List.append_nil]
    exact ⟨Or.inl, fun h => h.resolve_right fun hn => absurd hn.2 List.not_mem_nil⟩
  | append_singleton ys y ih =>
    classical
    rw [← List.append_assoc, appended_snoc, appended_snoc, List.mem_append, List.mem_append, ih]
    have hlast (c : Prop) [Decidable c] : n ∈ (if c then [y.seq] else []) ↔ c ∧ n = y.seq := by
      split <;> simp [*]
    rw [hlast, hlast]
    simp only [List.mem_append, or_imp, forall_and]
    constructor
    · rintro ((h | ⟨hx, h⟩) | ⟨⟨hx, hy⟩, rfl⟩)
      · exact Or.inl h
      · exact Or.inr ⟨hx, Or.inl h⟩
      · exact Or.inr ⟨hx, Or.inr ⟨hy, rfl⟩⟩
    · rintro (h | ⟨hx, h | ⟨hy, rfl⟩⟩)
      · exact Or.inl (Or.inl h)
      · exact Or.inl (Or.inr ⟨hx, h⟩)
      · exact Or.inr ⟨⟨hx, hy⟩, rfl⟩

theorem count_shown_iff (arrivals : List Arrival) (n : ℕ) :
    (shown arrivals).count n = 1 ↔ n ∈ shown arrivals := by
  have hnodup : (shown arrivals).Nodup := (appended_increasing _).imp Nat.ne_of_lt
  constructor
  · intro h
    exact List.count_pos_iff.mp (by omega)
  · exact List.count_eq_one_of_mem hnodup

section
variable {history before after : List LogLine}

theorem shown_opened (history before after : List LogLine) :
    shown (opened history before after) = appended (before ++ (history ++ after)) := by
  have hlog (evs : List LogLine) : (evs.map Arrival.log).flatMap Arrival.added = evs := by
    rw [List.flatMap_map]
    exact List.flatMap_singleton' evs
  rw [shown, opened, List.flatMap_append, List.flatMap_cons, hlog, hlog]
  rfl

theorem shown_iff (hh : Increasing history) (hl : Increasing (before ++ after)) (n : ℕ) :
    n ∈ shown (opened history before after) ↔
      n ∈ before.map (·.seq) ∨ (∀ l ∈ before, l.seq < n) ∧
        (n ∈ history.map (·.seq) ∨ (∀ h ∈ history, h.seq < n) ∧ n ∈ after.map (·.seq)) := by
  rw [Increasing, List.pairwise_append] at hl
  rw [shown_opened, mem_appended_append, mem_appended_append, appended_of_increasing hh,
    appended_of_increasing hl.1, appended_of_increasing hl.2.1]

theorem shown_once_iff (hh : Increasing history) (hl : Increasing (before ++ after)) :
    (∀ ev ∈ history ++ (before ++ after),
        (shown (opened history before after)).count ev.seq = 1) ↔
      Merges history before after := by
  have hbefore (l) (hl' : l ∈ before) (x) (hx : x ∈ after) : l.seq < x.seq :=
    (List.pairwise_append.mp hl).2.2 l hl' x hx
  simp only [count_shown_iff, shown_iff hh hl, List.mem_append, or_imp, forall_and]
  constructor
  · rintro ⟨hhist, -, hafter⟩
    refine ⟨fun h hmem => ?_, fun l hmem => ?_⟩
    · rcases hhist h hmem with hlive | ⟨hall, -⟩
      · exact Or.inl (List.mem_map.mp hlive)
      · exact Or.inr hall
    · rcases hafter l hmem with hlive | ⟨-, hhist | ⟨hall, -⟩⟩
      · obtain ⟨l', hl', hseq⟩ := List.mem_map.mp hlive
        exact absurd hseq (Nat.ne_of_lt (hbefore l' hl' l hmem))
      · exact Or.inl (List.mem_map.mp hhist)
      · exact Or.inr hall
  · rintro ⟨hrecent, hfresh⟩
    refine ⟨fun h hmem => ?_, fun l hmem => Or.inl (List.mem_map_of_mem hmem), fun l hmem => ?_⟩
    · rcases hrecent h hmem with hlive | hall
      · exact Or.inl (List.mem_map.mpr hlive)
      · exact Or.inr ⟨hall, Or.inl (List.mem_map_of_mem hmem)⟩
    · refine Or.inr ⟨fun l' hl' => hbefore l' hl' l hmem, ?_⟩
      rcases hfresh l hmem with hhist | hall
      · exact Or.inl (List.mem_map.mpr hhist)
      · exact Or.inr ⟨hall, List.mem_map_of_mem hmem⟩

end

def lineOf (seq : ℕ) : LogLine := ⟨seq, 0, "INFO", "log"⟩

theorem shown_once_overlapping :
    let history := [0, 1, 2].map lineOf
    let before := [0, 1].map lineOf
    let after := [2, 3].map lineOf
    ∀ ev ∈ history ++ (before ++ after),
      (shown (opened history before after)).count ev.seq = 1 :=
  (shown_once_iff (by decide) (by decide)).mpr ⟨by decide, by decide⟩

theorem overtaken_history_lost :
    let history := [0, 1, 2, 3, 4, 5].map lineOf
    let live := [5].map lineOf
    Increasing history ∧ Increasing live ∧ shown (opened history live []) = [5] ∧
      ¬∀ ev ∈ history ++ live, (shown (opened history live [])).count ev.seq = 1 := by
  refine ⟨by decide, by decide, by decide, fun h => ?_⟩
  have hfirst := h (lineOf 0) List.mem_cons_self
  revert hfirst
  decide

end Page

end DapProxy.Host
