import Mathlib.Data.UInt
import Mathlib.Data.List.DropRight
import Mathlib.Tactic.Common

namespace Utf8

def replacement : List UInt8 := [0xEF, 0xBF, 0xBD]

abbrev Range := UInt8 × UInt8

def tail : Range := (0x80, 0xBF)

def tails (b : UInt8) : Option (List Range) :=
  if b < 0x80 then some []
  else if 0xC2 ≤ b ∧ b ≤ 0xDF then some [tail]
  else if b = 0xE0 then some [(0xA0, 0xBF), tail]
  else if b = 0xED then some [(0x80, 0x9F), tail]
  else if 0xE1 ≤ b ∧ b ≤ 0xEF then some [tail, tail]
  else if b = 0xF0 then some [(0x90, 0xBF), tail, tail]
  else if 0xF1 ≤ b ∧ b ≤ 0xF3 then some [tail, tail, tail]
  else if b = 0xF4 then some [(0x80, 0x8F), tail, tail]
  else none

def matching : List Range → List UInt8 → Bool × ℕ
  | [], _ => (true, 0)
  | _ :: _, [] => (false, 0)
  | r :: rs, x :: xs =>
      if r.1 ≤ x ∧ x ≤ r.2 then ((matching rs xs).1, (matching rs xs).2 + 1) else (false, 0)

def lossy : List UInt8 → List UInt8
  | [] => []
  | b :: rest =>
      match tails b with
      | none => replacement ++ lossy rest
      | some ranges =>
          let m := matching ranges rest
          (if m.1 then b :: rest.take m.2 else replacement) ++ lossy (rest.drop m.2)
  termination_by bytes => bytes.length
  decreasing_by
    · simp
    · simp only [List.length_drop, List.length_cons]
      omega

theorem lossy_nil : lossy [] = [] := by
  rw [lossy]

theorem lossy_ascii {b : UInt8} (h : b < 0x80) (rest : List UInt8) :
    lossy (b :: rest) = b :: lossy rest := by
  have htails : tails b = some [] := if_pos h
  rw [lossy, htails]
  rfl

theorem lossy_not_ascii {b : UInt8} (h : ¬b < 0x80) (rest : List UInt8) :
    ∃ x xs, lossy (b :: rest) = x :: xs ∧ ¬x < 0x80 := by
  have hreplaced : ¬(0xEF : UInt8) < 0x80 := by decide
  rw [lossy]
  split
  · exact ⟨0xEF, _, rfl, hreplaced⟩
  · dsimp only
    split
    · exact ⟨b, _, rfl, h⟩
    · exact ⟨0xEF, _, rfl, hreplaced⟩

theorem lossy_eq_iff {bytes text : List UInt8} (h : ∀ c ∈ text, c < 0x80) :
    lossy bytes = text ↔ bytes = text := by
  induction bytes generalizing text with
  | nil => rw [lossy_nil]
  | cons b rest ih =>
    by_cases hb : b < 0x80
    · rw [lossy_ascii hb]
      cases text with
      | nil => exact iff_of_false (List.cons_ne_nil _ _) (List.cons_ne_nil _ _)
      | cons c text =>
        rw [List.cons.injEq, List.cons.injEq, ih fun x hx => h x (List.mem_cons_of_mem c hx)]
    · obtain ⟨x, xs, hlossy, hx⟩ := lossy_not_ascii hb rest
      rw [hlossy]
      constructor
      · rintro rfl
        exact absurd (h x List.mem_cons_self) hx
      · rintro rfl
        exact absurd (h b List.mem_cons_self) hb

def trimEnd (c : UInt8) (text : List UInt8) : List UInt8 := text.rdropWhile (· == c)

theorem last_replicated {c x : UInt8} {text word : List UInt8} {n : ℕ}
    (h : text ++ [x] = word ++ List.replicate n c) :
    word = text ++ [x] ∨ x = c ∧ ∃ m, text = word ++ List.replicate m c := by
  cases n with
  | zero =>
    rw [List.replicate_zero, List.append_nil] at h
    exact Or.inl h.symm
  | succ n =>
    rw [List.replicate_succ', ← List.append_assoc] at h
    obtain ⟨htext, hx⟩ := List.append_singleton_inj.mp h
    exact Or.inr ⟨hx, n, htext⟩

theorem trimEnd_eq_iff {c : UInt8} {text word : List UInt8} (hw : word.getLast? ≠ some c) :
    trimEnd c text = word ↔ ∃ n, text = word ++ List.replicate n c := by
  induction text using List.reverseRecOn with
  | nil =>
    constructor
    · rintro rfl
      exact ⟨0, rfl⟩
    · rintro ⟨n, hn⟩
      exact (List.append_eq_nil_iff.mp hn.symm).1.symm
  | append_singleton text x ih =>
    by_cases hx : x = c
    · subst hx
      have htrim : trimEnd x (text ++ [x]) = trimEnd x text :=
        List.rdropWhile_concat_pos _ _ _ (beq_self_eq_true x)
      rw [htrim, ih]
      constructor
      · rintro ⟨n, rfl⟩
        exact ⟨n + 1, by rw [List.append_assoc, List.replicate_succ']⟩
      · rintro ⟨n, hn⟩
        rcases last_replicated hn with rfl | ⟨-, htext⟩
        · exact absurd List.getLast?_concat hw
        · exact htext
    · have htrim : trimEnd c (text ++ [x]) = text ++ [x] :=
        List.rdropWhile_concat_neg _ _ _ (by simpa using hx)
      rw [htrim]
      constructor
      · rintro rfl
        exact ⟨0, (List.append_nil _).symm⟩
      · rintro ⟨n, hn⟩
        exact ((last_replicated hn).resolve_right fun h => hx h.1).symm

end Utf8
