import Mathlib.Data.List.Basic
import Mathlib.Tactic.Common

namespace Checked
variable {A B : Type}

def put (buf : List A) (i : ℕ) (x : A) : Option (List A) :=
  if i < buf.length then some (buf.set i x) else none

def copy (buf : List A) (i : ℕ) (xs : List A) : Option (List A) :=
  if i + xs.length ≤ buf.length then some (buf.take i ++ xs ++ buf.drop (i + xs.length)) else none

def setAt {n : ℕ} (buf : Vector A n) (i : ℕ) (x : A) : Option (Vector A n) :=
  if h : i < n then some (buf.set i x h) else none

def front {n : ℕ} (buf : Vector A n) (k : ℕ) : Option (List A) :=
  if k ≤ n then some (buf.toList.take k) else none

def onTail (buf : List A) (f : List A → Option (ℕ × List A × B)) : Option (ℕ × List A × B) :=
  match buf with
  | [] => none
  | x :: rest => (f rest).map (fun r => (1 + r.1, x :: r.2.1, r.2.2))

def bump (limit n : ℕ) : Option ℕ := if n < limit then some (n + 1) else none

def sub (m n : ℕ) : Option ℕ := if n ≤ m then some (m - n) else none

def overwrite (out buf : List A) : List A := out ++ buf.drop out.length

theorem length_overwrite {out buf : List A} (h : out.length ≤ buf.length) :
    (overwrite out buf).length = buf.length := by
  simp only [overwrite, List.length_append, List.length_drop]
  omega

theorem take_overwrite (out buf : List A) : (overwrite out buf).take out.length = out := by
  simp [overwrite]

theorem front_two {buf : List A} (h : 2 ≤ buf.length) : ∃ x y, overwrite [x, y] buf = buf := by
  match buf, h with
  | x :: y :: _, _ => exact ⟨x, y, rfl⟩

theorem front_three {buf : List A} (h : 3 ≤ buf.length) :
    ∃ x y z, overwrite [x, y, z] buf = buf := by
  match buf, h with
  | x :: y :: z :: _, _ => exact ⟨x, y, z, rfl⟩

theorem put_within {out buf : List A} {i : ℕ} (x : A) (hi : i < out.length)
    (h : out.length ≤ buf.length) :
    put (overwrite out buf) i x = some (overwrite (out.set i x) buf) := by
  rw [put, length_overwrite h, if_pos (by omega)]
  simp only [overwrite, List.length_set]
  rw [List.set_append_left _ _ hi]

theorem put_next (out : List A) {buf : List A} (x : A) (h : out.length < buf.length) :
    put (overwrite out buf) out.length x = some (overwrite (out ++ [x]) buf) := by
  obtain ⟨y, rest, hd⟩ : ∃ y rest, buf.drop out.length = y :: rest :=
    ⟨_, _, List.drop_eq_getElem_cons h⟩
  have hd' : buf.drop (out.length + 1) = rest := by
    rw [← List.drop_drop, hd]
    rfl
  rw [put, length_overwrite (Nat.le_of_lt h), if_pos h]
  simp [overwrite, hd, hd']

theorem copy_next (out : List A) {buf : List A} (xs : List A)
    (h : out.length + xs.length ≤ buf.length) :
    copy (overwrite out buf) out.length xs = some (overwrite (out ++ xs) buf) := by
  rw [copy, length_overwrite (by omega), if_pos h]
  simp [overwrite, List.drop_append, List.drop_drop]

theorem onTail_overwrite {x : A} {out rest : List A} {b : B}
    {f : List A → Option (ℕ × List A × B)}
    (h : f rest = some (out.length, overwrite out rest, b)) :
    onTail (x :: rest) f =
      some ((x :: out).length, overwrite (x :: out) (x :: rest), b) := by
  simp [onTail, h, overwrite, Nat.add_comm]

theorem copy_first {out buf : List A} (xs : List A) (hx : xs.length ≤ out.length)
    (h : out.length ≤ buf.length) :
    copy (overwrite out buf) 0 xs = some (overwrite (xs ++ out.drop xs.length) buf) := by
  have hl : (xs ++ out.drop xs.length).length = out.length := by
    rw [List.length_append, List.length_drop]
    omega
  rw [copy, length_overwrite h, if_pos (by omega)]
  simp only [overwrite, hl, List.take_zero, List.nil_append, Nat.zero_add]
  rw [List.drop_append_of_le_length hx, List.append_assoc]

def Writes (f : List A → Option (ℕ × List A × B)) (room : ℕ) (out : List A) (b : B) : Prop :=
  ∀ buf : List A, buf.length = room → f buf = some (out.length, overwrite out buf, b)

theorem put_front {buf : List A} (x : A) (h : 1 ≤ buf.length) :
    put buf 0 x = some (overwrite [x] buf) := by
  simpa [overwrite] using put_next [] x h

theorem put_second {buf : List A} (x y : A) (h : 2 ≤ buf.length) :
    put (overwrite [x] buf) 1 y = some (overwrite [x, y] buf) :=
  put_next [x] y h

theorem put_third {buf : List A} (x y z : A) (h : 3 ≤ buf.length) :
    put (overwrite [x, y] buf) 2 z = some (overwrite [x, y, z] buf) :=
  put_next [x, y] z h

theorem copy_front {buf : List A} (xs : List A) (h : xs.length ≤ buf.length) :
    copy buf 0 xs = some (overwrite xs buf) := by
  simpa [overwrite] using copy_next [] xs (by simpa using h)

theorem Writes.tail {room : ℕ} {f : List A → Option (ℕ × List A × B)} {out : List A} {b : B}
    (h : Writes f room out b) (x : A) {buf : List A} (hb : buf.length = room + 1) :
    onTail (overwrite [x] buf) f =
      some ((x :: out).length, overwrite (x :: out) buf, b) := by
  cases buf with
  | nil => simp at hb
  | cons y rest =>
    have hr : rest.length = room := by simpa using hb
    change onTail (x :: rest) f = _
    rw [onTail_overwrite (h rest hr)]
    simp [overwrite]

theorem bump_eq {limit n : ℕ} (h : n < limit) : bump limit n = some (n + 1) := if_pos h

end Checked
