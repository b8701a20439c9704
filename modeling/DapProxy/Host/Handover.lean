import DapProxy.Host.Bridge
import Mathlib.Tactic.Common

namespace DapProxy.Host

inductive Call where
  | bulkOut (command : List UInt8)
  | bulkIn (maxLen : ℕ)

inductive Performed where
  | sent (command : List UInt8) (result : Except LinkError (List UInt8))
  | taken (maxLen : ℕ) (result : Except LinkError (List UInt8))

namespace Performed

def IsTaken : Performed → Prop
  | .sent _ _ => False
  | .taken _ _ => True

def asked : Performed → ℕ
  | .taken maxLen _ => maxLen
  | .sent _ _ => 0

def handed : Performed → List UInt8
  | .taken _ (.ok data) => data
  | _ => []

end Performed

namespace DapBridge
variable {ν : Type}

def unread (b : DapBridge ν) : List UInt8 := b.pending.getD []

theorem bulkIn_unread (maxLen : ℕ) (b : DapBridge ν) :
    (b.bulkIn maxLen).1 = .ok (b.unread.take maxLen) ∧
      (b.bulkIn maxLen).2.unread = b.unread.drop maxLen ∧
      (b.bulkIn maxLen).2.pending ≠ some [] := by
  cases hp : b.pending with
  | none => simp [bulkIn, unread, hp]
  | some response =>
    by_cases hle : response.length ≤ maxLen
    · simp [bulkIn, unread, hp, hle, List.take_of_length_le, List.drop_of_length_le]
    · have hlt : maxLen < response.length := Nat.not_le.mp hle
      simp [bulkIn, unread, hp, hle, List.drop_eq_nil_iff]

variable [Network ν]

def answered (result : Except LinkError (List UInt8)) : List UInt8 :=
  match result with
  | .ok response => response
  | .error _ => []

theorem bulkOut_unread (command : List UInt8) (b : DapBridge ν) :
    (b.bulkOut command).1 = (b.link.request command).1.map (fun _ => ()) ∧
      (b.bulkOut command).2.unread = answered (b.link.request command).1 ∧
      (b.bulkOut command).2.pending ≠ some [] := by
  rcases hr : b.link.request command with ⟨e | response, link⟩
  · simp [bulkOut, unread, hr, answered, Except.map]
  · by_cases hempty : response = []
    · simp [bulkOut, unread, hr, answered, Except.map, hempty]
    · simp [bulkOut, unread, hr, answered, Except.map, hempty]

def perform : Call → DapBridge ν → Performed × DapBridge ν
  | .bulkOut command, b => (.sent command (b.link.request command).1, (b.bulkOut command).2)
  | .bulkIn maxLen, b => (.taken maxLen (b.bulkIn maxLen).1, (b.bulkIn maxLen).2)

def performAll : List Call → DapBridge ν → List Performed × DapBridge ν
  | [], b => ([], b)
  | c :: cs, b =>
      let r := performAll cs (b.perform c).2
      ((b.perform c).1 :: r.1, r.2)

theorem perform_pending (c : Call) (b : DapBridge ν) : (b.perform c).2.pending ≠ some [] := by
  cases c with
  | bulkOut command => exact (b.bulkOut_unread command).2.2
  | bulkIn maxLen => exact (b.bulkIn_unread maxLen).2.2

theorem performAll_pending (cs : List Call) {b : DapBridge ν} (h : b.pending ≠ some []) :
    (b.performAll cs).2.pending ≠ some [] := by
  induction cs generalizing b with
  | nil => exact h
  | cons c cs ih => exact ih (b.perform_pending c)

theorem performAll_split {cs : List Call} {b : DapBridge ν} {before after : List Performed}
    (h : (b.performAll cs).1 = before ++ after) :
    ∃ ds es, cs = ds ++ es ∧ (b.performAll ds).1 = before ∧
      ((b.performAll ds).2.performAll es).1 = after := by
  induction before generalizing cs b with
  | nil => exact ⟨[], cs, rfl, rfl, h⟩
  | cons e before ih =>
    cases cs with
    | nil => simp [performAll] at h
    | cons c cs =>
      simp only [performAll, List.cons_append, List.cons.injEq] at h
      obtain ⟨ds, es, rfl, hd, he⟩ := ih h.2
      exact ⟨c :: ds, es, rfl, by simp only [performAll, h.1, hd], he⟩

theorem performAll_taken {cs : List Call} {b : DapBridge ν}
    (ht : ∀ e ∈ (b.performAll cs).1, e.IsTaken) :
    (b.performAll cs).1.flatMap Performed.handed =
      b.unread.take ((b.performAll cs).1.map Performed.asked).sum := by
  induction cs generalizing b with
  | nil => rfl
  | cons c cs ih =>
    cases c with
    | bulkOut command => exact absurd (ht _ (List.mem_cons_self ..)) id
    | bulkIn maxLen =>
      obtain ⟨hdata, hrest, -⟩ := b.bulkIn_unread maxLen
      have htail := ih (fun e he => ht e (List.mem_cons_of_mem _ he))
      rw [perform, hrest] at htail
      simp only [performAll, perform, hdata, List.flatMap_cons, List.map_cons, List.sum_cons,
        Performed.handed, Performed.asked, List.take_add]
      exact congrArg _ htail

theorem performAll_short {cs : List Call} {b : DapBridge ν}
    (ht : ∀ e ∈ (b.performAll cs).1, e.IsTaken) {maxLen : ℕ} {data : List UInt8}
    (hmem : .taken maxLen (.ok data) ∈ (b.performAll cs).1) (hshort : data.length < maxLen) :
    b.unread.length ≤ ((b.performAll cs).1.map Performed.asked).sum := by
  induction cs generalizing b with
  | nil => exact absurd hmem (List.not_mem_nil)
  | cons c cs ih =>
    cases c with
    | bulkOut command => exact absurd (ht _ (List.mem_cons_self ..)) id
    | bulkIn asked =>
      obtain ⟨hdata, hrest, -⟩ := b.bulkIn_unread asked
      simp only [performAll, perform, List.map_cons, List.sum_cons, Performed.asked]
      rcases List.mem_cons.mp hmem with heq | htail
      · simp only [perform, hdata, Performed.taken.injEq, Except.ok.injEq] at heq
        obtain ⟨rfl, rfl⟩ := heq
        rw [List.length_take] at hshort
        omega
      · have hle := ih (fun e he => ht e (List.mem_cons_of_mem _ he)) htail
        simp only [perform, hrest, List.length_drop] at hle
        omega

theorem performAll_bounded {cs : List Call} {b : DapBridge ν} {maxLen : ℕ}
    {result : Except LinkError (List UInt8)}
    (hmem : .taken maxLen result ∈ (b.performAll cs).1) :
    ∃ data, result = .ok data ∧ data.length ≤ maxLen := by
  induction cs generalizing b with
  | nil => exact absurd hmem (List.not_mem_nil)
  | cons c cs ih =>
    rcases List.mem_cons.mp hmem with heq | htail
    · cases c with
      | bulkOut command => cases heq
      | bulkIn asked =>
        simp only [perform, (b.bulkIn_unread asked).1, Performed.taken.injEq] at heq
        obtain ⟨rfl, rfl⟩ := heq
        exact ⟨_, rfl, List.length_take_le _ _⟩
    · exact ih htail

end DapBridge

structure HandedOver (response : List UInt8) (ins : List Performed) : Prop where
  inOrder : ins.flatMap Performed.handed <+: response
  whole : ∀ maxLen data, .taken maxLen (.ok data) ∈ ins → data.length < maxLen →
    ins.flatMap Performed.handed = response

namespace DapBridge
variable {ν : Type} [Network ν]

theorem performAll_handedOver {cs : List Call} {b : DapBridge ν} {ins after : List Performed}
    (h : (b.performAll cs).1 = ins ++ after) (ht : ∀ e ∈ ins, e.IsTaken) :
    HandedOver b.unread ins := by
  obtain ⟨ds, es, rfl, rfl, -⟩ := performAll_split h
  have htaken := performAll_taken ht
  refine ⟨htaken ▸ List.take_prefix _ _, fun maxLen data hmem hshort => ?_⟩
  rw [htaken, List.take_of_length_le (performAll_short ht hmem hshort)]

theorem responses_handed_over (net : ν) (calls : List Call) :
    let run := (DapBridge.new net).performAll calls
    run.2.pending ≠ some [] ∧
      (∀ maxLen result, .taken maxLen result ∈ run.1 →
        ∃ data, result = .ok data ∧ data.length ≤ maxLen) ∧
      (∀ before command result ins after,
        run.1 = before ++ .sent command result :: (ins ++ after) → (∀ e ∈ ins, e.IsTaken) →
          HandedOver (answered result) ins) ∧
      ∀ ins after, run.1 = ins ++ after → (∀ e ∈ ins, e.IsTaken) → HandedOver [] ins := by
  intro run
  refine ⟨performAll_pending calls (by simp [DapBridge.new]), fun _ _ => performAll_bounded, ?_,
    fun _ _ => performAll_handedOver⟩
  intro before command result ins after h ht
  obtain ⟨ds, es, -, -, hrest⟩ := performAll_split h
  cases es with
  | nil => simp [performAll] at hrest
  | cons c es =>
    simp only [performAll, List.cons.injEq] at hrest
    obtain ⟨hsent, htail⟩ := hrest
    cases c with
    | bulkIn maxLen => cases hsent
    | bulkOut sent =>
      simp only [perform, Performed.sent.injEq] at hsent
      obtain ⟨-, rfl⟩ := hsent
      have hover := performAll_handedOver htail ht
      rwa [perform, (bulkOut_unread sent _).2.1] at hover

end DapBridge

end DapProxy.Host
