import DapProxy.Framing.Decoder

namespace Transducer
variable {S T A B C : Type}

def blockOuts (M : Transducer S A B) : S → List (List A) → List B
  | _, [] => []
  | s, b :: bs => ((M.scan s b).2.map (·.1)).toList ++ M.blockOuts (M.scan s b).1 bs

def lost (M : Transducer S A B) : S → List (List A) → List A
  | _, [] => []
  | s, b :: bs => ((M.scan s b).2.map (·.2)).getD [] ++ M.lost (M.scan s b).1 bs

def Tails (M : Transducer S A B) (P : List A → Prop) : S → List (List A) → Prop
  | _, [] => True
  | s, b :: bs => (∀ y rest, (M.scan s b).2 = some (y, rest) → P rest) ∧ M.Tails P (M.run s b) bs

theorem tails_mono {M : Transducer S A B} {P Q : List A → Prop} (h : ∀ xs, P xs → Q xs) {s : S}
    {bs : List (List A)} (hp : M.Tails P s bs) : M.Tails Q s bs := by
  induction bs generalizing s with
  | nil => trivial
  | cons b bs ih => exact ⟨fun y rest hb => h rest (hp.1 y rest hb), ih hp.2⟩

theorem scan_run {M : Transducer S A B} {s s' : S} {b : List A} {y : B}
    (h : M.scan s b = (s', some (y, []))) : M.run s b = s' := by
  obtain ⟨pre, x, rfl, -, hx⟩ := scan_some h
  rw [run_append]
  exact congrArg Prod.fst hx

theorem lost_eq_nil_iff (M : Transducer S A B) (s : S) (bs : List (List A)) :
    M.lost s bs = [] ↔ M.Tails (· = []) s bs := by
  induction bs generalizing s with
  | nil => exact ⟨fun _ => trivial, fun _ => rfl⟩
  | cons b bs ih =>
    rcases hs : M.scan s b with ⟨s', _ | ⟨y, rest⟩⟩
    · simp [lost, Tails, hs, ih, (scan_none hs).2]
    · simp only [lost, Tails, hs, Option.map_some, Option.getD_some, List.append_eq_nil_iff,
        Option.some.injEq, Prod.mk.injEq, and_imp, ih]
      constructor
      · rintro ⟨rfl, ht⟩
        exact ⟨fun _ _ _ h => h.symm, (scan_run hs).symm ▸ ht⟩
      · rintro ⟨hr, ht⟩
        obtain rfl : rest = [] := hr y rest rfl rfl
        exact ⟨rfl, scan_run hs ▸ ht⟩

namespace Simulates
variable {M : Transducer S A B} {N : Transducer T A C} {R : S → T → Prop} {f : C → B}

theorem lost (h : Simulates M N R f) {s : S} {t : T} (hr : R s t) (bs : List (List A)) :
    M.lost s bs = N.lost t bs := by
  induction bs generalizing s t with
  | nil => rfl
  | cons b bs ih =>
    obtain ⟨hr', ho⟩ := h.scan hr b
    simp only [Transducer.lost, ho, Option.map_map, Function.comp_def, ih hr']

end Simulates

end Transducer

namespace Framing.Format
variable {A : Type} {F : Format A}

theorem scan_some_state {s s' : Decoder A} {b rest : List A} {raw : List A}
    (h : F.decoder.scan s b = (s', some (raw, rest))) :
    s' = ⟨[], 0⟩ ∧ ∃ fed, b = fed ++ rest ∧ F.decoder.outs s fed = [raw] ∧
      F.decoder.run s fed = ⟨[], 0⟩ := by
  obtain ⟨pre, x, rfl, ho, hx⟩ := Transducer.scan_some h
  obtain ⟨-, rfl⟩ := step_out hx
  refine ⟨rfl, pre ++ [x], by simp, ?_, ?_⟩
  · rw [Transducer.outs_append, ho]
    simp [Transducer.outs, hx]
  · rw [Transducer.run_append]
    exact congrArg Prod.fst hx

theorem blockOuts_frame {s : Decoder A} (hs : F.Open s.raw) (bs : List (List A)) :
    ∀ raw ∈ F.decoder.blockOuts s bs, ∃ f : F.Frame, f.wire = raw ∧ f.payload ≠ [] := by
  induction bs generalizing s with
  | nil => simp [Transducer.blockOuts]
  | cons b bs ih =>
    intro raw hraw
    rcases hb : F.decoder.scan s b with ⟨s', _ | ⟨q, rest⟩⟩
    · simp only [Transducer.blockOuts, hb, Option.map_none, Option.toList_none,
        List.nil_append] at hraw
      exact ih ((Transducer.scan_none hb).2 ▸ run_open hs b) raw hraw
    · obtain ⟨rfl, fed, rfl, ho, -⟩ := scan_some_state hb
      simp only [Transducer.blockOuts, hb, Option.map_some, Option.toList_some,
        List.cons_append, List.nil_append, List.mem_cons] at hraw
      rcases hraw with rfl | hraw
      · exact outs_frame hs fed _ (by rw [ho]; simp)
      · exact ih (s := ⟨[], 0⟩) trivial raw hraw

theorem lost_magic_le (p : A → Bool) (s : Decoder A) (bs : List (List A)) :
    (F.decoder.blockOuts s bs).flatten.countP p + (F.decoder.lost s bs).countP p ≤
      s.raw.countP p + bs.flatten.countP p := by
  induction bs generalizing s with
  | nil => simp [Transducer.blockOuts, Transducer.lost]
  | cons b bs ih =>
    rcases hs : F.decoder.scan s b with ⟨s', _ | ⟨raw, rest⟩⟩
    · obtain ⟨ho, hr⟩ := Transducer.scan_none hs
      have hsub := (outs_sublist (F := F) s b).countP_le (p := p)
      have hbs := ih s'
      simp only [ho, hr, List.flatten_nil, List.nil_append, List.countP_append] at hsub
      simp only [Transducer.blockOuts, Transducer.lost, hs, Option.map_none, Option.toList_none,
        Option.getD_none, List.nil_append, List.flatten_cons, List.countP_append]
      omega
    · obtain ⟨rfl, fed, rfl, ho, hr⟩ := scan_some_state hs
      have hsub := (outs_sublist (F := F) s fed).countP_le (p := p)
      have hbs := ih ⟨[], 0⟩
      simp only [ho, hr, List.flatten_cons, List.flatten_nil, List.append_nil,
        List.countP_append] at hsub
      simp only [List.countP_nil, Nat.zero_add] at hbs
      simp only [Transducer.blockOuts, Transducer.lost, hs, Option.map_some, Option.toList_some,
        Option.getD_some, List.flatten_cons, List.countP_append, List.cons_append,
        List.nil_append]
      omega

theorem tails_of_lost {s t : Decoder A} (hst : s.raw = t.raw) {bs : List (List A)}
    (h : ∀ x ∈ F.decoder.lost s bs, F.isMagic x = false) :
    F.decoder.Tails (fun rest => ∀ x ∈ rest, F.isMagic x = false) t bs := by
  induction bs generalizing s t with
  | nil => trivial
  | cons b bs ih =>
    have heq : (F.decoder.scan s b).2 = (F.decoder.scan t b).2 := by
      simpa using ((sameRaw_simulates (F := F)).scan hst b).2
    rcases hs : F.decoder.scan s b with ⟨s', _ | ⟨raw, rest⟩⟩
    · simp only [Transducer.lost, hs, Option.map_none, Option.getD_none, List.nil_append] at h
      refine ⟨by simp [← heq, hs], ih ?_ h⟩
      rw [← (Transducer.scan_none hs).2]
      exact run_sameRaw hst b
    · obtain ⟨rfl, fed, rfl, ho, hr⟩ := scan_some_state hs
      simp only [Transducer.lost, hs, Option.map_some, Option.getD_some, List.mem_append] at h
      have hq : ∀ x ∈ rest, F.isMagic x = false := fun x hx => h x (Or.inl hx)
      refine ⟨?_, ih ?_ (fun x hx => h x (Or.inr hx))⟩
      · rw [← heq, hs]
        rintro y rest' he
        simp only [Option.some.injEq, Prod.mk.injEq] at he
        exact he.2 ▸ hq
      · rw [← run_sameRaw hst, Transducer.run_append, hr, run_quiet 0 hq]

end Framing.Format
