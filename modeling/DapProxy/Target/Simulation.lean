import DapProxy.Target.Answer

namespace DapProxy.Target

def Matches {A S T : Type} (R : S → T → Prop) (x : A × S) (y : A × T) : Prop :=
  x.1 = y.1 ∧ R x.2 y.2

variable {T U : Type}

def logged (n : UInt32) : UInt32 := if n < 8 then n + 1 else n

structure Simulates [Transport T] [Transport U] (R : T → U → Prop) : Prop where
  init : ∀ {t u}, R t u → Matches R (Transport.init t) (Transport.init u)
  swjSequence : ∀ {t u} count data, R t u →
    Matches R (Transport.swjSequence count data t) (Transport.swjSequence count data u)
  swjPins : ∀ {t u} out sel wait, R t u →
    Matches R (Transport.swjPins out sel wait t) (Transport.swjPins out sel wait u)
  readDp : ∀ {t u} a, R t u → Matches R (Transport.readDp a t) (Transport.readDp a u)
  writeDp : ∀ {t u} a v, R t u → Matches R (Transport.writeDp a v t) (Transport.writeDp a v u)
  readAp : ∀ {t u} sel a, R t u → Matches R (Transport.readAp sel a t) (Transport.readAp sel a u)
  writeAp : ∀ {t u} sel a v, R t u →
    Matches R (Transport.writeAp sel a v t) (Transport.writeAp sel a v u)

structure Mirrors [Transport T] [Transport U] (R : T → U → Prop) : Prop where
  init : ∀ {t u}, R t u → Matches R (Transport.init t) (Transport.init u)
  swjPins : ∀ {t u} out sel wait, R t u →
    Matches R (Transport.swjPins out sel wait t) (Transport.swjPins out sel wait u)
  readDp : ∀ {t u} a, R t u → Matches R (Transport.readDp a t) (Transport.readDp a u)
  writeDp : ∀ {t u} a v, R t u → Matches R (Transport.writeDp a v t) (Transport.writeDp a v u)
  readAp : ∀ {t u} sel a, R t u → Matches R (Transport.readAp sel a t) (Transport.readAp sel a u)
  writeAp : ∀ {t u} sel a v, R t u →
    Matches R (Transport.writeAp sel a v t) (Transport.writeAp sel a v u)

theorem Simulates.mirrors [Transport T] [Transport U] {R : T → U → Prop} (hs : Simulates R) :
    Mirrors R := ⟨hs.init, hs.swjPins, hs.readDp, hs.writeDp, hs.readAp, hs.writeAp⟩

namespace Dap

structure Related (R : T → U → Prop) (L : UInt32 → UInt32 → Prop) (d : Dap T) (e : Dap U) :
    Prop where
  transport : R d.transport e.transport
  waitRetry : d.waitRetry = e.waitRetry
  errLogs : L d.errLogs e.errLogs

def Logs (L : UInt32 → UInt32 → Prop) : Prop := ∀ m n, L m n → L (logged m) (logged n)

section
variable {R : T → U → Prop} {L : UInt32 → UInt32 → Prop} {d : Dap T} {e : Dap U}

theorem logXferErr_eq (d : Dap T) : d.logXferErr = { d with errLogs := logged d.errLogs } := by
  unfold logXferErr logged
  split <;> rfl

theorem related_move (h : d.Related R L e) {t : T} {u : U} (ht : R t u) :
    ({ d with transport := t } : Dap T).Related R L { e with transport := u } :=
  ⟨ht, h.waitRetry, h.errLogs⟩

theorem related_log (hl : Logs L) (h : d.Related R L e) :
    d.logXferErr.Related R L e.logXferErr := by
  rw [logXferErr_eq, logXferErr_eq]
  exact ⟨h.transport, h.waitRetry, hl _ _ h.errLogs⟩

theorem failure_related (hl : Logs L) (h : d.Related R L e) (err : TErr) :
    Matches (Related R L) (failure d err) (failure e err) := by
  cases err with
  | wait => exact ⟨rfl, h⟩
  | fault => exact ⟨rfl, h⟩
  | parity => exact ⟨rfl, related_log hl h⟩
  | unknown ack => exact ⟨rfl, related_log hl h⟩
  | io => exact ⟨rfl, related_log hl h⟩

theorem retries_related (h : d.Related R L e) (tries : UInt32) :
    d.retries tries = e.retries tries := by
  rw [retries, retries, h.waitRetry]

end

section
variable [Transport T] [Transport U] {R : T → U → Prop} {L : UInt32 → UInt32 → Prop}
  {d : Dap T} {e : Dap U}

theorem attempt_matches (hs : Mirrors R) (ap read : Bool) (a : UInt8) (wdata : Option UInt32)
    {t : T} {u : U} (h : R t u) :
    Matches R (attempt ap read a wdata t) (attempt ap read a wdata u) := by
  cases ap with
  | false =>
    cases read with
    | false =>
      obtain ⟨hresult, hstate⟩ := hs.writeDp _ _ h
      exact ⟨congrArg (Except.map fun _ => none) hresult, hstate⟩
    | true => exact ⟨congrArg (Except.map some) (hs.readDp _ h).1, (hs.readDp _ h).2⟩
  | true =>
    cases read with
    | false =>
      obtain ⟨hresult, hstate⟩ := hs.writeAp _ _ _ h
      exact ⟨congrArg (Except.map fun _ => none) hresult, hstate⟩
    | true => exact ⟨congrArg (Except.map some) (hs.readAp _ _ h).1, (hs.readAp _ _ h).2⟩

theorem attempt_other (hs : Mirrors R) {ap read : Bool} {a : UInt8} {wdata : Option UInt32}
    {t t' : T} {u : U} {r : Except TErr (Option UInt32)} (h : R t u)
    (ha : attempt ap read a wdata t = (r, t')) :
    ∃ u', attempt ap read a wdata u = (r, u') ∧ R t' u' := by
  obtain ⟨hr, ht⟩ := attempt_matches hs ap read a wdata h
  rw [ha] at hr ht
  exact ⟨_, Prod.ext hr.symm rfl, ht⟩

theorem execLoop_related (hs : Mirrors R) (hl : Logs L) (ap read : Bool) (a : UInt8)
    (wdata : Option UInt32) (tries : UInt32) (h : d.Related R L e) :
    Matches (Related R L) (execLoop ap read a wdata d tries)
      (execLoop ap read a wdata e tries) := by
  induction d, tries using execLoop_induct (T := T) ap read a wdata generalizing e with
  | ok d tries v t ha =>
    obtain ⟨u, hb, ht⟩ := attempt_other hs h.transport ha
    rw [execLoop_ok ha, execLoop_ok hb]
    exact ⟨rfl, related_move h ht⟩
  | again d tries err t ha hw ih =>
    obtain ⟨u, hb, ht⟩ := attempt_other hs h.transport ha
    obtain ⟨hstatus, hdap⟩ := failure_related hl (related_move h ht) err
    rw [execLoop_again ha hw]
    rw [hstatus, retries_related hdap] at hw
    rw [execLoop_again hb hw]
    exact ih hdap
  | stop d tries err t ha hw =>
    obtain ⟨u, hb, ht⟩ := attempt_other hs h.transport ha
    obtain ⟨hstatus, hdap⟩ := failure_related hl (related_move h ht) err
    rw [execLoop_stop ha hw]
    rw [hstatus, retries_related hdap] at hw
    rw [execLoop_stop hb hw]
    exact ⟨congrArg Except.error hstatus, hdap⟩

theorem connectLoop_matches (hs : Mirrors R) (n : ℕ) {t : T} {u : U} (h : R t u) :
    Matches R (connectLoop n t) (connectLoop n u) := by
  induction n generalizing t u with
  | zero => exact ⟨rfl, h⟩
  | succ n ih =>
    obtain ⟨hr, ht⟩ := hs.readDp dpCtrlStat h
    rcases ha : Transport.readDp dpCtrlStat t with ⟨err | stat, t'⟩ <;>
      rcases hb : Transport.readDp dpCtrlStat u with ⟨r, u'⟩ <;>
      rw [ha, hb] at hr ht <;> obtain rfl : _ = r := hr <;> simp only [connectLoop, ha, hb]
    · exact ih ht
    · split
      · exact ⟨rfl, ht⟩
      · exact ih ht

end

end Dap

variable [Transport T] [Transport U] {R : T → U → Prop} {L : UInt32 → UInt32 → Prop}

structure Progress.Related (R : T → U → Prop) (L : UInt32 → UInt32 → Prop) (p : Progress T)
    (q : Progress U) : Prop where
  dap : p.dap.Related R L q.dap
  done : p.done = q.done
  status : p.status = q.status
  data : p.data = q.data

theorem perform_related (hs : Mirrors R) (hl : Dap.Logs L) {p : Progress T} {q : Progress U}
    (h : p.Related R L q) (rb : UInt8) (w : Option UInt32) :
    (p.perform rb w).2 = (q.perform rb w).2 ∧
      (p.perform rb w).1.Related R L (q.perform rb w).1 := by
  obtain ⟨h1, h2⟩ := Dap.execLoop_related hs hl (apndp rb) (rnw rb) (regAddr rb) w 0 h.dap
  unfold Progress.perform Dap.execTransfer
  revert h1 h2
  rcases Dap.execLoop (apndp rb) (rnw rb) (regAddr rb) w p.dap 0 with ⟨r, d⟩
  rcases Dap.execLoop (apndp rb) (rnw rb) (regAddr rb) w q.dap 0 with ⟨r', e⟩
  rintro rfl h2
  rcases r with s | _ | v
  · exact ⟨rfl, h2, h.done, rfl, h.data⟩
  · exact ⟨rfl, h2, congrArg (· + 1) h.done, h.status, h.data⟩
  · exact ⟨rfl, h2, congrArg (· + 1) h.done, h.status, congrArg (· ++ leBytes v) h.data⟩

theorem transferRun_related (hs : Mirrors R) (hl : Dap.Logs L) (n : ℕ) (bytes : List UInt8)
    {p : Progress T} {q : Progress U} (h : p.Related R L q) :
    (transferRun n bytes p).Related R L (transferRun n bytes q) := by
  induction n generalizing bytes p q with
  | zero => exact h
  | succ n ih =>
    simp only [transferRun]
    split
    · exact ⟨h.dap, h.done, rfl, h.data⟩
    · next rb w rest _ =>
      obtain ⟨h1, h2⟩ := perform_related hs hl h rb w
      rw [h1]
      split
      · exact ih rest h2
      · exact h2

theorem blockRun_related (hs : Mirrors R) (hl : Dap.Logs L) (rb : UInt8) (n : ℕ)
    (bytes : List UInt8) {p : Progress T} {q : Progress U} (h : p.Related R L q) :
    (blockRun rb n bytes p).Related R L (blockRun rb n bytes q) := by
  induction n generalizing bytes p q with
  | zero => exact h
  | succ n ih =>
    simp only [blockRun]
    split
    · exact ⟨h.dap, h.done, rfl, h.data⟩
    · next w rest _ =>
      obtain ⟨h1, h2⟩ := perform_related hs hl h rb w
      rw [h1]
      split
      · exact ih rest h2
      · exact h2

namespace Dap

abbrev SameReply (R : T → U → Prop) (L : UInt32 → UInt32 → Prop) :
    List UInt8 × Dap T → List UInt8 × Dap U → Prop :=
  Matches (Related R L)

section
variable {d : Dap T} {e : Dap U}

omit [Transport T] [Transport U] in
theorem sameReply_cons {x : List UInt8 × Dap T} {y : List UInt8 × Dap U} (id : UInt8)
    (h : SameReply R L x y) : SameReply R L (id :: x.1, x.2) (id :: y.1, y.2) :=
  ⟨congrArg (id :: ·) h.1, h.2⟩

omit [Transport T] [Transport U] in
theorem ite_sameReply {c : Prop} [Decidable c] {x x' : List UInt8 × Dap T}
    {y y' : List UInt8 × Dap U} (h : SameReply R L x y) (h' : SameReply R L x' y') :
    SameReply R L (if c then x else x') (if c then y else y') := by
  split
  · exact h
  · exact h'

theorem connectAnswer_begun (hs : Mirrors R)
    (hinit : R (Transport.init d.transport).2 (Transport.init e.transport).2)
    (hwait : d.waitRetry = e.waitRetry) (hlogs : L d.errLogs e.errLogs) :
    SameReply R L d.connectAnswer e.connectAnswer := by
  have hid := (hs.readDp dpDpidr hinit).2
  have hpower := (hs.writeDp dpCtrlStat (cdbgpwrupreq ||| csyspwrupreq) hid).2
  obtain ⟨hr, ht⟩ := connectLoop_matches hs 200 hpower
  exact ⟨congrArg (fun r : Bool => [if r then 0x01 else 0x00]) hr, ht, hwait, hlogs⟩

theorem connectAnswer_related (hs : Mirrors R) (h : d.Related R L e) :
    SameReply R L d.connectAnswer e.connectAnswer :=
  connectAnswer_begun hs (hs.init h.transport).2 h.waitRetry h.errLogs

omit [Transport T] [Transport U] in
theorem configured_related (h : d.Related R L e) (req : List UInt8) :
    (d.configured req).Related R L (e.configured req) := by
  unfold configured
  split
  · exact ⟨h.transport, rfl, h.errLogs⟩
  · exact h

theorem aborted_related (hs : Mirrors R) (h : d.Related R L e) (req : List UInt8) :
    (d.aborted req).Related R L (e.aborted req) := by
  unfold aborted
  split
  · exact related_move h (hs.writeDp _ _ h.transport).2
  · exact h

theorem transferAnswer_related (hs : Mirrors R) (hl : Logs L) (h : d.Related R L e)
    (req : List UInt8) : SameReply R L (d.transferAnswer req) (e.transferAnswer req) := by
  unfold transferAnswer
  split
  · next count entries =>
    have hp := transferRun_related hs hl count.toNat entries
      (p := ⟨d, 0, stOk, []⟩) (q := ⟨e, 0, stOk, []⟩) ⟨h, rfl, rfl, rfl⟩
    refine ⟨?_, hp.dap⟩
    simp only [hp.done, hp.status, hp.data]
  · exact ⟨rfl, h⟩

theorem blockAnswer_related (hs : Mirrors R) (hl : Logs L) (h : d.Related R L e)
    (req : List UInt8) : SameReply R L (d.blockAnswer req) (e.blockAnswer req) := by
  unfold blockAnswer
  split
  · next b0 b1 rb words =>
    refine ite_sameReply ⟨rfl, h⟩ ?_
    have hp := blockRun_related hs hl rb (min (leHalf b0 b1).toNat 255) words
      (p := ⟨d, 0, stOk, []⟩) (q := ⟨e, 0, stOk, []⟩) ⟨h, rfl, rfl, rfl⟩
    refine ⟨?_, hp.dap⟩
    simp only [hp.done, hp.status, hp.data]
  · exact ⟨rfl, h⟩

theorem sequenceAnswer_related (hs : Simulates R) (h : d.Related R L e) (req : List UInt8) :
    SameReply R L (d.sequenceAnswer req) (e.sequenceAnswer req) := by
  unfold sequenceAnswer
  split
  · refine ite_sameReply ⟨rfl, h⟩ ⟨rfl, ?_⟩
    exact related_move h (hs.swjSequence _ _ h.transport).2
  · exact ⟨rfl, h⟩

theorem pinsAnswer_related (hs : Mirrors R) (h : d.Related R L e) (req : List UInt8) :
    SameReply R L (d.pinsAnswer req) (e.pinsAnswer req) := by
  unfold pinsAnswer
  split
  · next out sel _ _ _ b0 b1 b2 b3 _ =>
    obtain ⟨hr, ht⟩ := hs.swjPins out sel (leWord b0 b1 b2 b3) h.transport
    exact ⟨by simp only [hr], related_move h ht⟩
  · exact ⟨rfl, h⟩

theorem answer_mirrored (hs : Mirrors R) (hl : Logs L) (h : d.Related R L e)
    (req : List UInt8)
    (hsequence : req.head? = some idSwjSequence →
      SameReply R L (d.sequenceAnswer req) (e.sequenceAnswer req)) :
    SameReply R L (d.answer req) (e.answer req) := by
  cases req with
  | nil => exact ⟨rfl, h⟩
  | cons id rest =>
    rw [answer, answer]
    refine ite_sameReply ⟨rfl, h⟩ ?_
    apply ite_sameReply (sameReply_cons id (connectAnswer_related hs h))
    refine ite_sameReply ⟨rfl, h⟩ ?_
    refine ite_sameReply ⟨rfl, h⟩ ?_
    refine ite_sameReply ⟨rfl, configured_related h _⟩ ?_
    apply ite_sameReply (sameReply_cons id (transferAnswer_related hs hl h _))
    apply ite_sameReply (sameReply_cons id (blockAnswer_related hs hl h _))
    refine ite_sameReply ⟨rfl, aborted_related hs h _⟩ ?_
    apply ite_sameReply (sameReply_cons id (pinsAnswer_related hs h _))
    refine ite_sameReply ⟨rfl, h⟩ ?_
    refine ite_sameReply ⟨rfl, h⟩ ?_
    by_cases hid : id = idSwjSequence
    · rw [if_pos hid, if_pos hid]
      exact sameReply_cons id (hsequence (congrArg some hid))
    · rw [if_neg hid, if_neg hid]
      exact ⟨rfl, h⟩

theorem answer_related (hs : Simulates R) (hl : Logs L) (h : d.Related R L e)
    (req : List UInt8) : SameReply R L (d.answer req) (e.answer req) :=
  answer_mirrored hs.mirrors hl h req (fun _ => sequenceAnswer_related hs h req)

end

end Dap

end DapProxy.Target
