import DapProxy.Target.Simulation

namespace DapProxy.Target
variable {T : Type}

theorem matches_refl {A : Type} (x : A × T) : Matches Eq x x := ⟨rfl, rfl⟩

theorem simulates_refl [Transport T] : Simulates (Eq : T → T → Prop) where
  init := by
    rintro t _ rfl
    exact matches_refl _
  swjSequence := by
    rintro t _ count data rfl
    exact matches_refl _
  swjPins := by
    rintro t _ out sel wait rfl
    exact matches_refl _
  readDp := by
    rintro t _ a rfl
    exact matches_refl _
  writeDp := by
    rintro t _ a v rfl
    exact matches_refl _
  readAp := by
    rintro t _ sel a rfl
    exact matches_refl _
  writeAp := by
    rintro t _ sel a v rfl
    exact matches_refl _

namespace Dap

structure Agree (d e : Dap T) : Prop where
  transport : d.transport = e.transport
  waitRetry : d.waitRetry = e.waitRetry

theorem agree_refl (d : Dap T) : d.Agree d := ⟨rfl, rfl⟩

theorem answer_agree [Transport T] {d e : Dap T} (h : d.Agree e) (req : List UInt8) :
    (d.answer req).1 = (e.answer req).1 ∧ (d.answer req).2.Agree (e.answer req).2 := by
  have hrelated : d.Related Eq (fun _ _ => True) e := ⟨h.transport, h.waitRetry, trivial⟩
  obtain ⟨hbytes, hdap⟩ := answer_related simulates_refl (fun _ _ _ => trivial) hrelated req
  exact ⟨hbytes, hdap.transport, hdap.waitRetry⟩

end Dap

end DapProxy.Target
