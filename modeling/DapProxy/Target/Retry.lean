import DapProxy.Target.Dap

namespace DapProxy.Target.Dap
variable {T : Type} [Transport T]

def limit (d : Dap T) : ℕ := min d.waitRetry.toNat 128

def attempts (ap read : Bool) (a : UInt8) (wdata : Option UInt32) : ℕ → T → T
  | 0, t => t
  | n + 1, t => attempts ap read a wdata n (attempt ap read a wdata t).2

section
variable {ap read : Bool} {a : UInt8} {wdata : Option UInt32}

def Waits (ap read : Bool) (a : UInt8) (wdata : Option UInt32) (t : T) (n : ℕ) : Prop :=
  (attempt ap read a wdata (attempts ap read a wdata n t)).1 = .error .wait

omit [Transport T] in
theorem retries_of_lt {d : Dap T} {tries : UInt32} (h : tries.toNat < d.limit) :
    d.retries tries = true ∧ (tries + 1).toNat = tries.toNat + 1 := by
  have hr : d.retries tries = true := by
    rw [retries_iff]
    exact Nat.lt_of_le_of_lt (Nat.mod_le _ _) h
  exact ⟨hr, (retries_succ hr).2⟩

omit [Transport T] in
theorem retries_at_limit {d : Dap T} {tries : UInt32} (h : tries.toNat = d.limit) :
    ¬d.retries tries = true := by
  have hle : d.limit ≤ 128 := Nat.min_le_right _ _
  rw [retries_iff, Nat.mod_eq_of_lt (by omega), h]
  exact Nat.lt_irrefl _

theorem execLoop_wait {d : Dap T} {tries : UInt32} (h : tries.toNat < d.limit)
    (hw : Waits ap read a wdata d.transport 0) :
    execLoop ap read a wdata d tries =
      execLoop ap read a wdata { d with transport := (attempt ap read a wdata d.transport).2 }
        (tries + 1) :=
  execLoop_again (e := .wait) (Prod.ext hw rfl) ⟨rfl, (retries_of_lt h).1⟩

theorem attempts_succ (n : ℕ) (t : T) :
    attempts ap read a wdata (n + 1) t =
      (attempt ap read a wdata (attempts ap read a wdata n t)).2 := by
  induction n generalizing t with
  | zero => rfl
  | succ n ih => exact ih _

theorem execLoop_waited {d : Dap T} {tries : UInt32} {i : ℕ} (hi : tries.toNat + i ≤ d.limit)
    (hw : ∀ k < i, Waits ap read a wdata d.transport k) :
    ∃ tries' : UInt32, tries'.toNat = tries.toNat + i ∧
      execLoop ap read a wdata d tries =
        execLoop ap read a wdata { d with transport := attempts ap read a wdata i d.transport }
          tries' := by
  induction i generalizing d tries with
  | zero => exact ⟨tries, rfl, rfl⟩
  | succ i ih =>
    have hlt : tries.toNat < d.limit := by omega
    have hsucc := (retries_of_lt hlt).2
    obtain ⟨tries', htries, hrun⟩ := @ih
      { d with transport := (attempt ap read a wdata d.transport).2 } (tries + 1)
      (by rw [hsucc]; exact Nat.le_trans (by omega) hi)
      (fun k hk => hw (k + 1) (Nat.succ_lt_succ hk))
    refine ⟨tries', by omega, ?_⟩
    rw [execLoop_wait hlt (hw 0 (Nat.succ_pos i)), hrun]
    rfl

section
variable {d : Dap T} {tries : UInt32} {i : ℕ}

theorem execLoop_answered {v : Option UInt32} (hi : tries.toNat + i ≤ d.limit)
    (hw : ∀ k < i, Waits ap read a wdata d.transport k)
    (hv : (attempt ap read a wdata (attempts ap read a wdata i d.transport)).1 = .ok v) :
    execLoop ap read a wdata d tries =
      (.ok v, { d with transport := attempts ap read a wdata (i + 1) d.transport }) := by
  obtain ⟨tries', -, hrun⟩ := execLoop_waited hi hw
  rw [hrun, execLoop_ok (Prod.ext hv rfl), attempts_succ]

theorem execLoop_exhausted (hi : tries.toNat + i = d.limit)
    (hw : ∀ k ≤ i, Waits ap read a wdata d.transport k) :
    execLoop ap read a wdata d tries =
      (.error stWait, { d with transport := attempts ap read a wdata (i + 1) d.transport }) := by
  obtain ⟨tries', htries, hrun⟩ :=
    execLoop_waited (Nat.le_of_eq hi) (fun k hk => hw k (Nat.le_of_lt hk))
  have hstop (t : T) : ¬({ d with transport := t } : Dap T).retries tries' = true :=
    retries_at_limit (htries.trans hi)
  have hlast : attempt ap read a wdata (attempts ap read a wdata i d.transport) =
      (.error .wait, attempts ap read a wdata (i + 1) d.transport) :=
    Prod.ext (hw i (Nat.le_refl i)) (attempts_succ i d.transport).symm
  rw [hrun]
  exact execLoop_stop (e := .wait) hlast (fun h => hstop _ h.2)

end

structure Settles (ap read : Bool) (a : UInt8) (wdata : Option UInt32) (d : Dap T) (k : ℕ) :
    Prop where
  bounded : k ≤ d.limit
  waited : ∀ i < k, Waits ap read a wdata d.transport i
  stopped : Waits ap read a wdata d.transport k → k = d.limit

theorem Settles.all_waited {d : Dap T} {k : ℕ} (h : Settles ap read a wdata d k)
    (hk : Waits ap read a wdata d.transport k) (i : ℕ) (hi : i ≤ k) :
    Waits ap read a wdata d.transport i :=
  (Nat.lt_or_eq_of_le hi).elim (h.waited i) fun heq => heq ▸ hk

theorem exists_settles (ap read : Bool) (a : UInt8) (wdata : Option UInt32) (d : Dap T) :
    ∃ k, Settles ap read a wdata d k := by
  classical
  by_cases hall : ∀ n ≤ d.limit, Waits ap read a wdata d.transport n
  · exact ⟨d.limit, Nat.le_refl _, fun i hi => hall i (Nat.le_of_lt hi), fun _ => rfl⟩
  · simp only [not_forall] at hall
    obtain ⟨n, hn, hnot⟩ := hall
    have hex : ∃ n, ¬Waits ap read a wdata d.transport n := ⟨n, hnot⟩
    refine ⟨Nat.find hex, Nat.le_trans (Nat.find_min' hex hnot) hn, ?_, ?_⟩
    · exact fun i hi => not_not.mp (Nat.find_min hex hi)
    · exact fun hw => absurd hw (Nat.find_spec hex)

end

end DapProxy.Target.Dap
