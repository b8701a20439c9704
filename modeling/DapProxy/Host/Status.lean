import DapProxy.Concurrent.Totals
import DapProxy.Host.Accounting

namespace DapProxy.Host
open Concurrent

structure Status where
  linkRequests : ℕ
  linkRetries : ℕ
  linkErrors : ℕ
  lastLinkError : Option String

inductive Outcome where
  | refused
  | first
  | second
  | unconnected
  | failed
  deriving DecidableEq

namespace Outcome

def counted : Outcome → Bool
  | refused => false
  | first | second | unconnected | failed => true

def retried : Outcome → Bool
  | refused | first => false
  | second | unconnected | failed => true

end Outcome

-- the code's counters are u64: fewer than 2 ^ 64 calls
structure LinkStats where
  linkRequests : ℕ
  linkRetries : ℕ
  linkErrors : ℕ
  lastLinkError : Option String
  returned : List Outcome

namespace LinkStats

inductive Phase where
  | idle
  | trying
  | reconnecting
  | retrying
  | noting (msg : String)
  | viewing (seen : List Status)
  | loadedRequests (seen : List Status) (requests : ℕ)
  | loadedRetries (seen : List Status) (requests retries : ℕ)
  | loadedErrors (seen : List Status) (requests retries errors : ℕ)

inductive Act : LinkStats → Phase → LinkStats → Phase → Prop
  | refuse (g) : Act g .idle { g with returned := g.returned ++ [.refused] } .idle
  | call (g) : Act g .idle { g with linkRequests := g.linkRequests + 1 } .trying
  | answered (g) : Act g .trying { g with returned := g.returned ++ [.first] } .idle
  | retry (g) : Act g .trying { g with linkRetries := g.linkRetries + 1 } .reconnecting
  | unconnected (g) : Act g .reconnecting { g with returned := g.returned ++ [.unconnected] } .idle
  | reconnected (g) : Act g .reconnecting g .retrying
  | answeredAgain (g) : Act g .retrying { g with returned := g.returned ++ [.second] } .idle
  | fail (g msg) : Act g .retrying { g with linkErrors := g.linkErrors + 1 } (.noting msg)
  | note (g msg) : Act g (.noting msg)
      { g with lastLinkError := some msg, returned := g.returned ++ [.failed] } .idle
  | visit (g) : Act g .idle g (.viewing [])
  | loadRequests (g seen) : Act g (.viewing seen) g (.loadedRequests seen g.linkRequests)
  | loadRetries (g seen m) :
      Act g (.loadedRequests seen m) g (.loadedRetries seen m g.linkRetries)
  | loadErrors (g seen m n) :
      Act g (.loadedRetries seen m n) g (.loadedErrors seen m n g.linkErrors)
  | respond (g seen m n k) : Act g (.loadedErrors seen m n k) g
      (.viewing (seen ++ [⟨m, n, k, g.lastLinkError⟩]))

def start (ι : Type) : Config ι LinkStats Phase := ⟨⟨0, 0, 0, none, []⟩, fun _ => .idle⟩

def begun : Phase → ℕ
  | .trying | .reconnecting | .retrying | .noting _ => 1
  | _ => 0

def again : Phase → ℕ
  | .reconnecting | .retrying | .noting _ => 1
  | _ => 0

def lost : Phase → ℕ
  | .noting _ => 1
  | _ => 0

def Resting (l : Phase) : Prop := begun l = 0

structure Balance (g : LinkStats) (l : Phase) (g' : LinkStats) (l' : Phase) : Prop where
  requests : g'.linkRequests + g.returned.countP Outcome.counted + begun l =
    g.linkRequests + g'.returned.countP Outcome.counted + begun l'
  retries : g'.linkRetries + g.returned.countP Outcome.retried + again l =
    g.linkRetries + g'.returned.countP Outcome.retried + again l'
  errors : g'.linkErrors + g.returned.countP (· = .failed) + lost l =
    g.linkErrors + g'.returned.countP (· = .failed) + lost l'

theorem act_balance {g g' : LinkStats} {l l' : Phase} (h : Act g l g' l') : Balance g l g' l' := by
  cases h <;> constructor <;> simp [begun, again, lost, Outcome.counted, Outcome.retried] <;> omega

structure Grows (g g' : LinkStats) : Prop where
  requests : g.linkRequests ≤ g'.linkRequests
  retries : g.linkRetries ≤ g'.linkRetries
  errors : g.linkErrors ≤ g'.linkErrors
  last : g.lastLinkError ≠ none → g'.lastLinkError ≠ none

theorem act_grows {g g' : LinkStats} {l l' : Phase} (h : Act g l g' l') : Grows g g' := by
  cases h <;> constructor <;> simp

theorem act_last {g g' : LinkStats} {l l' : Phase} (h : Act g l g' l')
    (hg : g.lastLinkError = none ↔ .failed ∉ g.returned) :
    g'.lastLinkError = none ↔ .failed ∉ g'.returned := by
  cases h <;> simp [hg]

section
variable {ι : Type} [DecidableEq ι] [Fintype ι] {c : Config ι LinkStats Phase}

structure Tallied (c : Config ι LinkStats Phase) : Prop where
  requests : c.shared.linkRequests = c.shared.returned.countP Outcome.counted + c.total begun
  retries : c.shared.linkRetries = c.shared.returned.countP Outcome.retried + c.total again
  errors : c.shared.linkErrors = c.shared.returned.countP (· = .failed) + c.total lost
  last : c.shared.lastLinkError = none ↔ .failed ∉ c.shared.returned

theorem tallied_move {i : ι} {g : LinkStats} {l : Phase} (h : Tallied c)
    (hact : Act c.shared (c.locals i) g l) : Tallied (c.move i g l) := by
  obtain ⟨hrequests, hretries, herrors, hlast⟩ := h
  have hbalance := act_balance hact
  have hbegun := c.total_move begun i g l
  have hagain := c.total_move again i g l
  have hlost := c.total_move lost i g l
  refine ⟨?_, ?_, ?_, ?_⟩ <;> rw [Config.move_shared]
  · have hstep := hbalance.requests
    omega
  · have hstep := hbalance.retries
    omega
  · have hstep := hbalance.errors
    omega
  · exact act_last hact hlast

theorem tallied_of_run (h : Run Act anytime (start ι) c) : Tallied c := by
  have hzero (w : Phase → ℕ) (hw : w .idle = 0) : (start ι).total w = 0 :=
    Config.total_eq_zero fun _ => hw
  refine h.invariant ⟨?_, ?_, ?_, by simp [start]⟩ fun _ htallied hact _ =>
    tallied_move htallied hact
  · rw [hzero begun rfl]
    rfl
  · rw [hzero again rfl]
    rfl
  · rw [hzero lost rfl]
    rfl

structure InStep (g : LinkStats) : Prop where
  errors : g.linkErrors ≤ g.linkRetries
  retries : g.linkRetries ≤ g.linkRequests
  last : g.lastLinkError ≠ none → 0 < g.linkErrors

omit [DecidableEq ι] in
theorem inStep_of_tallied (h : Tallied c) : InStep c.shared := by
  obtain ⟨hrequests, hretries, herrors, hlast⟩ := h
  have hagain : c.total again ≤ c.total begun := by
    refine Config.total_le (fun l => ?_) c
    cases l <;> simp [again, begun]
  have hlost : c.total lost ≤ c.total again := by
    refine Config.total_le (fun l => ?_) c
    cases l <;> simp [again, lost]
  have hle : c.shared.returned.countP Outcome.retried ≤
      c.shared.returned.countP Outcome.counted := by
    refine List.countP_mono_left fun o _ ho => ?_
    cases o <;> first | rfl | cases ho
  have hfailed : c.shared.returned.countP (· = .failed) ≤
      c.shared.returned.countP Outcome.retried := by
    refine List.countP_mono_left fun o _ ho => ?_
    cases o <;> first | rfl | cases ho
  refine ⟨by omega, by omega, fun hsome => ?_⟩
  have hmem : Outcome.failed ∈ c.shared.returned := by
    by_contra hnot
    exact hsome (hlast.mpr hnot)
  have hpos : 0 < c.shared.returned.countP (· = .failed) :=
    List.countP_pos_iff.mpr ⟨.failed, hmem, by simp⟩
  omega

theorem counters_in_step (h : Run Act anytime (start ι) c) :
    InStep c.shared ∧ ((∀ i, Resting (c.locals i)) →
      c.shared.linkRequests = c.shared.returned.countP Outcome.counted ∧
        c.shared.linkRetries = c.shared.returned.countP Outcome.retried ∧
        c.shared.linkErrors = c.shared.returned.countP (· = .failed)) := by
  have htallied := tallied_of_run h
  refine ⟨inStep_of_tallied htallied, fun hresting => ?_⟩
  have hbegun : c.total begun = 0 := Config.total_eq_zero hresting
  have hagain : c.total again = 0 := by
    refine Config.total_eq_zero fun i => ?_
    have hi := hresting i
    rw [Resting] at hi
    cases hl : c.locals i <;> rw [hl] at hi <;> simp [begun, again] at hi ⊢
  have hlost : c.total lost = 0 := by
    refine Config.total_eq_zero fun i => ?_
    have hi := hresting i
    rw [Resting] at hi
    cases hl : c.locals i <;> rw [hl] at hi <;> simp [begun, lost] at hi ⊢
  have hrequests := htallied.requests
  have hretries := htallied.retries
  have herrors := htallied.errors
  omega

theorem counters_in_step_two_sessions :
    ∃ c, Run Act anytime (start Bool) c ∧
      c.shared.returned = [.refused, .first, .second, .failed] ∧ c.shared.linkRequests = 3 ∧
      c.shared.linkRetries = 2 ∧ c.shared.linkErrors = 1 := by
  have hbegun : Run Act anytime (start Bool) (start Bool) := .refl
  have hfirst := ((hbegun.moves (i := true) rfl (.call _) trivial).extend (.retry _) trivial).moves
    (i := false) rfl (.refuse _) trivial
  have hsecond := (hfirst.extend (.call _) trivial).extend (.answered _) trivial
  have hretried := (hsecond.moves (i := true) rfl (.reconnected _) trivial).moves
    (i := false) rfl (.call _) trivial
  have hagain := (hretried.extend (.retry _) trivial).moves (i := true) rfl (.answeredAgain _)
    trivial
  have hfailed := ((hagain.moves (i := false) rfl (.reconnected _) trivial).extend
    (.fail _ "链路超时") trivial).extend (.note _ _) trivial
  obtain ⟨hrequests, hretries, herrors⟩ := (counters_in_step hfailed).2 fun i => by
    cases i <;> rfl
  exact ⟨_, hfailed, rfl, hrequests, hretries, herrors⟩

structure Older (s t : Status) : Prop where
  requests : s.linkRequests ≤ t.linkRequests
  retries : s.linkRetries ≤ t.linkRetries
  errors : s.linkErrors ≤ t.linkErrors
  retried : s.linkRetries ≤ t.linkRequests
  failed : s.linkErrors ≤ t.linkRetries
  last : s.lastLinkError ≠ none → t.lastLinkError ≠ none ∧ 0 < t.linkErrors

structure Below (s : Status) (g : LinkStats) : Prop where
  requests : s.linkRequests ≤ g.linkRequests
  retries : s.linkRetries ≤ g.linkRetries
  errors : s.linkErrors ≤ g.linkErrors
  last : s.lastLinkError ≠ none → g.lastLinkError ≠ none

structure Seen (g : LinkStats) (seen : List Status) : Prop where
  ordered : seen.Pairwise Older
  below : ∀ s ∈ seen, Below s g

structure RequestsLoaded (g : LinkStats) (seen : List Status) (m : ℕ) : Prop where
  past : Seen g seen
  now : m ≤ g.linkRequests
  since : ∀ s ∈ seen, s.linkRequests ≤ m ∧ s.linkRetries ≤ m

structure RetriesLoaded (g : LinkStats) (seen : List Status) (m n : ℕ) : Prop where
  requests : RequestsLoaded g seen m
  now : n ≤ g.linkRetries
  since : ∀ s ∈ seen, s.linkRetries ≤ n ∧ s.linkErrors ≤ n

structure ErrorsLoaded (g : LinkStats) (seen : List Status) (m n k : ℕ) : Prop where
  retries : RetriesLoaded g seen m n
  now : k ≤ g.linkErrors
  since : ∀ s ∈ seen, s.linkErrors ≤ k ∧ (s.lastLinkError ≠ none → 0 < k)

def Asserts (g : LinkStats) : Phase → Prop
  | .viewing seen => Seen g seen
  | .loadedRequests seen m => RequestsLoaded g seen m
  | .loadedRetries seen m n => RetriesLoaded g seen m n
  | .loadedErrors seen m n k => ErrorsLoaded g seen m n k
  | _ => True

section
variable {g g' : LinkStats} {seen : List Status} {m n k : ℕ}

theorem seen_grows (h : Grows g g') (hs : Seen g seen) : Seen g' seen := by
  refine ⟨hs.ordered, fun s hmem => ?_⟩
  have hbelow := hs.below s hmem
  exact ⟨Nat.le_trans hbelow.requests h.requests, Nat.le_trans hbelow.retries h.retries,
    Nat.le_trans hbelow.errors h.errors, fun hsome => h.last (hbelow.last hsome)⟩

theorem requestsLoaded_grows (h : Grows g g') (hs : RequestsLoaded g seen m) :
    RequestsLoaded g' seen m :=
  ⟨seen_grows h hs.past, Nat.le_trans hs.now h.requests, hs.since⟩

theorem retriesLoaded_grows (h : Grows g g') (hs : RetriesLoaded g seen m n) :
    RetriesLoaded g' seen m n :=
  ⟨requestsLoaded_grows h hs.requests, Nat.le_trans hs.now h.retries, hs.since⟩

theorem asserts_grows {l : Phase} (h : Grows g g') (hl : Asserts g l) : Asserts g' l := by
  cases l with
  | viewing seen => exact seen_grows h hl
  | loadedRequests seen m => exact requestsLoaded_grows h hl
  | loadedRetries seen m n => exact retriesLoaded_grows h hl
  | loadedErrors seen m n k =>
    exact ⟨retriesLoaded_grows h hl.retries, Nat.le_trans hl.now h.errors, hl.since⟩
  | _ => trivial

theorem seen_respond (hs : ErrorsLoaded g seen m n k) :
    Seen g (seen ++ [⟨m, n, k, g.lastLinkError⟩]) := by
  have hretries := hs.retries
  have hrequests := hretries.requests
  refine ⟨?_, fun s hmem => ?_⟩
  · rw [List.pairwise_append]
    refine ⟨hrequests.past.ordered, List.pairwise_singleton _ _, fun s hmem t ht => ?_⟩
    rw [List.mem_singleton.mp ht]
    exact ⟨(hrequests.since s hmem).1, (hretries.since s hmem).1, (hs.since s hmem).1,
      (hrequests.since s hmem).2, (hretries.since s hmem).2,
      fun hsome => ⟨(hrequests.past.below s hmem).last hsome, (hs.since s hmem).2 hsome⟩⟩
  · rcases List.mem_append.mp hmem with hmem | hmem
    · exact hrequests.past.below s hmem
    · rw [List.mem_singleton.mp hmem]
      exact ⟨hrequests.now, hretries.now, hs.now, id⟩

theorem act_asserts {l l' : Phase} (hstep : InStep g) (hl : Asserts g l) (h : Act g l g' l') :
    Asserts g' l' := by
  cases h with
  | visit => exact ⟨List.Pairwise.nil, fun _ hmem => absurd hmem List.not_mem_nil⟩
  | loadRequests seen =>
    refine ⟨hl, Nat.le_refl _, fun s hmem => ?_⟩
    have hbelow := hl.below s hmem
    exact ⟨hbelow.requests, Nat.le_trans hbelow.retries hstep.retries⟩
  | loadRetries seen m =>
    refine ⟨hl, Nat.le_refl _, fun s hmem => ?_⟩
    have hbelow := hl.past.below s hmem
    exact ⟨hbelow.retries, Nat.le_trans hbelow.errors hstep.errors⟩
  | loadErrors seen m n =>
    refine ⟨hl, Nat.le_refl _, fun s hmem => ?_⟩
    have hbelow := hl.requests.past.below s hmem
    exact ⟨hbelow.errors, fun hsome => hstep.last (hbelow.last hsome)⟩
  | respond seen m n k => exact seen_respond hl
  | _ => trivial

end

theorem status_never_goes_back (h : Run Act anytime (start ι) c) (i : ι) (seen : List Status)
    (hi : c.locals i = .viewing seen) : seen.Pairwise Older := by
  have hall : ∀ i, Asserts c.shared (c.locals i) := by
    refine h.invariant (P := fun c => ∀ i, Asserts c.shared (c.locals i)) (fun _ => trivial) ?_
    rintro d i g l hrun hd hact - j
    have hstep := inStep_of_tallied (tallied_of_run hrun)
    by_cases hj : j = i
    · rw [hj, Config.move_self]
      exact act_asserts hstep (hd i) hact
    · rw [Config.move_other d i g l hj]
      exact asserts_grows (act_grows hact) (hd j)
  have hseen := hall i
  rw [hi] at hseen
  exact hseen.ordered

theorem status_torn_by_failed_call :
    ∃ c, Run Act anytime (start Bool) c ∧
      c.locals true = .viewing [⟨0, 1, 1, none⟩, ⟨1, 1, 1, some "链路超时"⟩] ∧
      [(⟨0, 1, 1, none⟩ : Status), ⟨1, 1, 1, some "链路超时"⟩].Pairwise Older := by
  have hbegun : Run Act anytime (start Bool) (start Bool) := .refl
  have hloaded := (hbegun.moves (i := true) rfl (.visit _) trivial).extend
    (.loadRequests _ _) trivial
  -- the call fails between the page's first load and its second
  have hfailed := (((hloaded.moves (i := false) rfl (.call _) trivial).extend
    (.retry _) trivial).extend (.reconnected _) trivial).extend (.fail _ "链路超时") trivial
  have hfirst := ((hfailed.moves (i := true) rfl (.loadRetries _ _ _) trivial).extend
    (.loadErrors _ _ _ _) trivial).extend (.respond _ _ _ _ _) trivial
  have hnoted := hfirst.moves (i := false) rfl (.note _ _) trivial
  have hsecond := (((hnoted.moves (i := true) rfl (.loadRequests _ _) trivial).extend
    (.loadRetries _ _ _) trivial).extend (.loadErrors _ _ _ _) trivial).extend
    (.respond _ _ _ _ _) trivial
  exact ⟨_, hsecond, rfl, status_never_goes_back hsecond true _ rfl⟩

end

def counters (m : Metrics) (returned : List Outcome) : LinkStats :=
  ⟨m.linkRequests, m.linkRetries, m.linkErrors, m.lastLinkError, returned⟩

section
open DapLink
variable {ν : Type} [Network ν] {ι : Type} [DecidableEq ι] {c : Config ι LinkStats Phase}
  {l l₁ : DapLink ν} {returned : List Outcome} {i : ι}

theorem again_acts (hc : Run Act anytime c (c.move i (counters l.metrics returned) .trying))
    (p : List UInt8) : ∃ outcome, outcome.counted = true ∧ Run Act anytime c
      (c.move i (counters (l.again p).2.metrics (returned ++ [outcome])) .idle) := by
  have hretried := hc.extend (.retry _) trivial
  rcases hcon : l.retried.disconnect.connect with ⟨e | ⟨⟩, l₁⟩
  · have hmetrics := metrics_reconnect l
    rw [hcon] at hmetrics
    rw [again_unconnected hcon, hmetrics]
    exact ⟨.unconnected, rfl, hretried.extend (.unconnected _) trivial⟩
  · have hmetrics := metrics_second hcon p
    have hagain := hretried.extend (.reconnected _) trivial
    rcases htry : l₁.tryRequest p with ⟨e | resp, l₂⟩ <;> rw [htry] at hmetrics
    · rw [again_failed hcon htry, hmetrics]
      exact ⟨.failed, rfl,
        (hagain.extend (.fail _ e.toString) trivial).extend (.note _ _) trivial⟩
    · rw [again_answered hcon htry, hmetrics]
      exact ⟨.second, rfl, hagain.extend (.answeredAgain _) trivial⟩

theorem called_acts {p : List UInt8} (h : p.length ≤ maxFrame)
    (hc : c.shared = counters l.metrics returned) (hi : c.locals i = .idle) :
    ∃ outcome, outcome.counted = true ∧ Run Act anytime c
      (c.move i (counters (l.request p).2.metrics (returned ++ [outcome])) .idle) := by
  have hcalled : Run Act anytime c (c.move i (counters l.counted.metrics returned) .trying) := by
    have hstart : Run Act anytime c c := .refl
    have hcall := hstart.moves hi (.call _) trivial
    rw [hc] at hcall
    exact hcall
  rcases htry : l.counted.tryRequest p with ⟨e | resp, l₁⟩ <;> have hmetrics := first_metrics htry
  · rw [request_again h htry]
    rw [← hmetrics] at hcalled
    exact again_acts hcalled p
  · rw [request_first h htry]
    refine ⟨.first, rfl, ?_⟩
    have hanswered := hcalled.extend (.answered _) trivial
    rw [← hmetrics] at hanswered
    exact hanswered

theorem request_acts (p : List UInt8) (hc : c.shared = counters l.metrics returned)
    (hi : c.locals i = .idle) :
    ∃ outcome, (outcome.counted = true ↔ p.length ≤ maxFrame) ∧ Run Act anytime c
      (c.move i (counters (l.request p).2.metrics (returned ++ [outcome])) .idle) := by
  by_cases h : p.length ≤ maxFrame
  · obtain ⟨outcome, hcounted, hrun⟩ := called_acts h hc hi
    exact ⟨outcome, iff_of_true hcounted h, hrun⟩
  · have hstart : Run Act anytime c c := .refl
    have hrefused := hstart.moves hi (.refuse _) trivial
    rw [hc] at hrefused
    rw [request_refused (Nat.lt_of_not_le h)]
    exact ⟨.refused, iff_of_false Bool.noConfusion h, hrefused⟩

end

end LinkStats

end DapProxy.Host
