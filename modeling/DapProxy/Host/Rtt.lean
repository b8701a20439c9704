import DapProxy.Concurrent.Threads
import DapProxy.Host.Link

namespace DapProxy.Host
open Concurrent

def clamp (micros : UInt64) : UInt32 := (min micros 4294967295).toUInt32

def weighted (old v : UInt32) : UInt64 := old.toUInt64 * 4 + v.toUInt64

def average (old v : UInt32) : UInt32 :=
  let avg := if old.toUInt64 = 0 then v.toUInt64 else weighted old v / 5
  (min avg 4294967295).toUInt32

structure RttStats where
  linkRttLast : UInt32
  linkRttEwma : UInt32
  linkRttMax : UInt32
  samples : List UInt64

namespace RttStats

def values (g : RttStats) : List UInt32 := g.samples.map clamp

inductive Phase where
  | idle
  | storeLast (v : UInt32)
  | loadEwma (v : UInt32)
  | storeEwma (v old : UInt32)
  | loadMax (v : UInt32)
  | raise (v cur : UInt32)

inductive Act : RttStats → Phase → RttStats → Phase → Prop
  | call (g micros) : Act g .idle { g with samples := g.samples ++ [micros] }
      (.storeLast (clamp micros))
  | storeLast (g v) : Act g (.storeLast v) { g with linkRttLast := v } (.loadEwma v)
  | loadEwma (g v) : Act g (.loadEwma v) g (.storeEwma v g.linkRttEwma)
  | storeEwma (g v old) : Act g (.storeEwma v old) { g with linkRttEwma := average old v }
      (.loadMax v)
  | loadMax (g v) : Act g (.loadMax v) g (.raise v g.linkRttMax)
  | exchanged {g v cur} (above : cur < v) (same : g.linkRttMax = cur) :
      Act g (.raise v cur) { g with linkRttMax := v } .idle
  | notExchanged {g v cur} (above : cur < v) : Act g (.raise v cur) g (.raise v g.linkRttMax)
  | returned {g v cur} (above : ¬cur < v) : Act g (.raise v cur) g .idle

def fresh : RttStats := ⟨0, 0, 0, []⟩

def Between (vs : List UInt32) (x : UInt32) : Prop := ∃ lo ∈ vs, ∃ hi ∈ vs, lo ≤ x ∧ x ≤ hi

end RttStats

theorem toNat_min (a b : UInt64) : (min a b).toNat = min a.toNat b.toNat := by
  have hmin : min a b = if a ≤ b then a else b := rfl
  rw [hmin]
  split
  · next h => rw [UInt64.le_iff_toNat_le] at h; omega
  · next h => rw [UInt64.le_iff_toNat_le] at h; omega

theorem toNat_clamp (micros : UInt64) : (clamp micros).toNat = min micros.toNat 4294967295 := by
  have hmax : (4294967295 : UInt64).toNat = 4294967295 := rfl
  rw [clamp, UInt64.toNat_toUInt32, toNat_min, hmax]
  omega

theorem toNat_weighted (old v : UInt32) : (weighted old v).toNat = old.toNat * 4 + v.toNat := by
  have hold := old.toNat_lt
  have hv := v.toNat_lt
  have hfour : (4 : UInt64).toNat = 4 := rfl
  rw [weighted, UInt64.toNat_add, UInt64.toNat_mul, UInt32.toNat_toUInt64, UInt32.toNat_toUInt64,
    hfour]
  omega

theorem toNat_average (old v : UInt32) : (average old v).toNat =
    if old.toNat = 0 then v.toNat else (old.toNat * 4 + v.toNat) / 5 := by
  have hold := old.toNat_lt
  have hv := v.toNat_lt
  have hmax : (4294967295 : UInt64).toNat = 4294967295 := rfl
  have hfive : (5 : UInt64).toNat = 5 := rfl
  have hzero : old.toUInt64 = 0 ↔ old.toNat = 0 := by
    rw [← UInt64.toNat_inj, UInt32.toNat_toUInt64]
    rfl
  simp only [average, UInt64.toNat_toUInt32, toNat_min, hmax, hzero]
  split
  · rw [UInt32.toNat_toUInt64]
    omega
  · rw [UInt64.toNat_div, toNat_weighted, hfive]
    omega

namespace RttStats

theorem between_self {vs : List UInt32} {v : UInt32} (h : v ∈ vs) : Between vs v :=
  ⟨v, h, v, h, UInt32.le_refl v, UInt32.le_refl v⟩

theorem between_average {vs : List UInt32} {old v : UInt32} (hold : old = 0 ∨ Between vs old)
    (hv : v ∈ vs) : Between vs (average old v) := by
  have havg := toNat_average old v
  by_cases hzero : old.toNat = 0
  · rw [if_pos hzero] at havg
    rw [UInt32.toNat_inj.mp havg]
    exact between_self hv
  · rw [if_neg hzero] at havg
    obtain ⟨lo, hlo, hi, hhi, hle, hge⟩ := hold.resolve_left fun h => hzero (h ▸ rfl)
    rw [UInt32.le_iff_toNat_le] at hle hge
    refine ⟨if lo ≤ v then lo else v, ?_, if v ≤ hi then hi else v, ?_, ?_, ?_⟩
    · split
      · exact hlo
      · exact hv
    · split
      · exact hhi
      · exact hv
    · rw [UInt32.le_iff_toNat_le, havg]
      split <;> next h => rw [UInt32.le_iff_toNat_le] at h; omega
    · rw [UInt32.le_iff_toNat_le, havg]
      split <;> next h => rw [UInt32.le_iff_toNat_le] at h; omega

def Sound (g : RttStats) : Prop := g.linkRttEwma = 0 ∨ Between g.values g.linkRttEwma

def Stored (g : RttStats) : Prop :=
  g.linkRttLast ∈ g.values ∧ Between g.values g.linkRttEwma

def Asserts (g : RttStats) : Phase → Prop
  | .idle => True
  | .storeLast v => v ∈ g.values
  | .loadEwma v => v ∈ g.values ∧ g.linkRttLast ∈ g.values
  | .storeEwma v old =>
      (v ∈ g.values ∧ g.linkRttLast ∈ g.values) ∧ (old = 0 ∨ Between g.values old)
  | .loadMax v => v ∈ g.values ∧ Stored g
  | .raise v cur => (v ∈ g.values ∧ Stored g) ∧ cur ≤ g.linkRttMax

structure Grows (g g' : RttStats) : Prop where
  values : ∀ v ∈ g.values, v ∈ g'.values
  last : g.linkRttLast ∈ g.values → g'.linkRttLast ∈ g'.values
  ewma : Between g.values g.linkRttEwma → Between g'.values g'.linkRttEwma
  max : g.linkRttMax ≤ g'.linkRttMax

variable {g g' : RttStats} {l l' : Phase}

theorem between_mono {vs ws : List UInt32} {x : UInt32} (h : ∀ v ∈ vs, v ∈ ws)
    (hx : Between vs x) : Between ws x := by
  obtain ⟨lo, hlo, hi, hhi, hx⟩ := hx
  exact ⟨lo, h lo hlo, hi, h hi hhi, hx⟩

theorem values_called (g : RttStats) (micros : UInt64) :
    values { g with samples := g.samples ++ [micros] } = g.values ++ [clamp micros] := by
  rw [values, List.map_append]
  rfl

theorem Grows.refl (g : RttStats) : Grows g g := ⟨fun _ h => h, id, id, UInt32.le_refl _⟩

theorem act_grows (hg : Asserts g l) (h : Act g l g' l') : Grows g g' := by
  cases h with
  | call micros =>
    have hmem : ∀ v ∈ g.values, v ∈ values { g with samples := g.samples ++ [micros] } := by
      intro v hv
      rw [values_called]
      exact List.mem_append_left _ hv
    exact ⟨hmem, fun h => hmem _ h, between_mono hmem, UInt32.le_refl _⟩
  | storeLast v => exact ⟨fun _ h => h, fun _ => hg, id, UInt32.le_refl _⟩
  | storeEwma v old =>
    exact ⟨fun _ h => h, id, fun _ => between_average hg.2 hg.1.1, UInt32.le_refl _⟩
  | exchanged above same =>
    exact ⟨fun _ h => h, id, id, same ▸ UInt32.le_of_lt above⟩
  | _ => exact Grows.refl g

theorem asserts_grows {m : Phase} (h : Grows g g') (hm : Asserts g m) : Asserts g' m := by
  cases m with
  | idle => trivial
  | storeLast v => exact h.values v hm
  | loadEwma v => exact ⟨h.values v hm.1, h.last hm.2⟩
  | storeEwma v old =>
    exact ⟨⟨h.values v hm.1.1, h.last hm.1.2⟩, hm.2.imp id (between_mono h.values)⟩
  | loadMax v => exact ⟨h.values v hm.1, h.last hm.2.1, h.ewma hm.2.2⟩
  | raise v cur =>
    exact ⟨⟨h.values v hm.1.1, h.last hm.1.2.1, h.ewma hm.1.2.2⟩,
      UInt32.le_trans hm.2 h.max⟩

theorem act_asserts (hI : Sound g) (hg : Asserts g l) (h : Act g l g' l') :
    Sound g' ∧ Asserts g' l' := by
  have hgrows := act_grows hg h
  cases h with
  | call micros =>
    refine ⟨hI.imp id hgrows.ewma, ?_⟩
    change _ ∈ values _
    rw [values_called]
    exact List.mem_append_right _ List.mem_cons_self
  | storeLast v => exact ⟨hI, hg, hg⟩
  | loadEwma v => exact ⟨hI, hg, hI⟩
  | storeEwma v old =>
    have hewma := between_average hg.2 hg.1.1
    exact ⟨Or.inr hewma, hg.1.1, hg.1.2, hewma⟩
  | loadMax v => exact ⟨hI, hg, UInt32.le_refl _⟩
  | exchanged => exact ⟨hI, trivial⟩
  | notExchanged => exact ⟨hI, hg.1, UInt32.le_refl _⟩
  | returned => exact ⟨hI, trivial⟩

def Holds (v : UInt32) : Phase → Prop
  | .idle => False
  | .storeLast w => w = v
  | .loadEwma w => w = v
  | .storeEwma w _ => w = v
  | .loadMax w => w = v
  | .raise w _ => w = v

variable {ι : Type} [DecidableEq ι] {c c' : Config ι RttStats Phase}

def start (ι : Type) : Config ι RttStats Phase := ⟨fresh, fun _ => .idle⟩

theorem asserted (h : Run Act anytime (start ι) c) :
    Sound c.shared ∧ ∀ i, Asserts c.shared (c.locals i) :=
  h.outline (Or.inl rfl) (fun _ => trivial) act_asserts
    fun _ hg hact hm => asserts_grows (act_grows hg hact) hm

structure Tracked (c : Config ι RttStats Phase) : Prop where
  covered : ∀ v ∈ c.shared.values, v ≤ c.shared.linkRttMax ∨ ∃ i, Holds v (c.locals i)
  topped : c.shared.linkRttMax = 0 ∨ c.shared.linkRttMax ∈ c.shared.values
  stored : c.shared.values = [] ∨ Stored c.shared ∨ ∃ i, c.locals i ≠ .idle

theorem act_covered {i : ι} {l₀ : Phase} (hl : c.locals i = l₀) (hg : Asserts c.shared l₀)
    (h : Act c.shared l₀ g l)
    (hc : ∀ v ∈ c.shared.values, v ≤ c.shared.linkRttMax ∨ ∃ j, Holds v (c.locals j)) :
    ∀ v ∈ g.values, v ≤ g.linkRttMax ∨ ∃ j, Holds v ((c.move i g l).locals j) := by
  have hkept {v : UInt32} (hv : v ∈ c.shared.values) (hsame : Holds v l₀ → Holds v l) :
      v ≤ c.shared.linkRttMax ∨ ∃ j, Holds v ((c.move i g l).locals j) :=
    (hc v hv).imp id fun hj => Config.some_moved hj (hl.symm ▸ hsame)
  have hleft {v : UInt32} (hv : v ∈ c.shared.values) :
      v ≤ c.shared.linkRttMax ∨ Holds v l₀ ∨ ∃ j, Holds v ((c.move i g l).locals j) :=
    (hc v hv).imp id fun hj => hl ▸ Config.some_left hj
  intro v hv
  cases h with
  | call micros =>
    rw [values_called] at hv
    rcases List.mem_append.mp hv with hv | hv
    · exact hkept hv False.elim
    · exact Or.inr ⟨i, by rw [Config.move_self]; exact (List.mem_singleton.mp hv).symm⟩
  | exchanged above same =>
    rcases hleft hv with hle | rfl | hj
    · exact Or.inl (UInt32.le_trans hle (same ▸ UInt32.le_of_lt above))
    · exact Or.inl (UInt32.le_refl _)
    · exact Or.inr hj
  | returned above =>
    rcases hleft hv with hle | rfl | hj
    · exact Or.inl hle
    · exact Or.inl (UInt32.le_trans (UInt32.not_lt.mp above) hg.2)
    · exact Or.inr hj
  | _ => exact hkept hv id

theorem act_topped (hg : Asserts g l) (h : Act g l g' l')
    (htop : g.linkRttMax = 0 ∨ g.linkRttMax ∈ g.values) :
    g'.linkRttMax = 0 ∨ g'.linkRttMax ∈ g'.values := by
  have hgrows := act_grows hg h
  cases h with
  | call micros => exact htop.imp id (hgrows.values _)
  | exchanged => exact Or.inr hg.1.1
  | _ => exact htop

theorem act_stored (hg : Asserts g l) (h : Act g l g' l') : l' ≠ .idle ∨ Stored g' := by
  cases h with
  | exchanged => exact Or.inr hg.1.2
  | returned => exact Or.inr hg.1.2
  | _ => exact Or.inl Phase.noConfusion

theorem tracked (h : Run Act anytime (start ι) c) : Tracked c := by
  refine h.invariant ⟨fun v hv => absurd hv List.not_mem_nil, Or.inl rfl, Or.inl rfl⟩ ?_
  rintro c i g l hrun ⟨hcovered, htopped, -⟩ hact -
  have hg := (asserted hrun).2 i
  refine ⟨act_covered rfl hg hact hcovered, act_topped hg hact htopped, Or.inr ?_⟩
  rcases act_stored hg hact with hl | hstored
  · exact Or.inr ⟨i, by rw [Config.move_self]; exact hl⟩
  · exact Or.inl hstored

theorem max_le_of_run (h : Run Act anytime (start ι) c) (h' : Run Act anytime c c') :
    c.shared.linkRttMax ≤ c'.shared.linkRttMax := by
  refine h'.invariant (P := fun d => c.shared.linkRttMax ≤ d.shared.linkRttMax)
    (UInt32.le_refl _) ?_
  intro d i g l hrun hle hact _
  exact UInt32.le_trans hle (act_grows ((asserted (h.trans hrun)).2 i) hact).max

theorem rtt_within_samples (h : Run Act anytime (start ι) c) :
    (∀ c', Run Act anytime c c' → c.shared.linkRttMax ≤ c'.shared.linkRttMax) ∧
      (c.shared.samples ≠ [] → (∀ i, c.locals i = .idle) →
        (c.shared.linkRttMax ∈ c.shared.values ∧
          ∀ v ∈ c.shared.values, v ≤ c.shared.linkRttMax) ∧
        c.shared.linkRttLast ∈ c.shared.values ∧
        Between c.shared.values c.shared.linkRttEwma) ∧
      (∀ micros, (clamp micros).toNat = min micros.toNat 4294967295) ∧
      ∀ i v old, c.locals i = .storeEwma v old →
        (weighted old v).toNat = old.toNat * 4 + v.toNat ∧
          (average old v).toNat =
            if old.toNat = 0 then v.toNat else (old.toNat * 4 + v.toNat) / 5 := by
  refine ⟨fun c' => max_le_of_run h, fun hcalled hidle => ?_, toNat_clamp,
    fun i v old _ => ⟨toNat_weighted old v, toNat_average old v⟩⟩
  obtain ⟨hcovered, htopped, hstored⟩ := tracked h
  have hne : c.shared.values ≠ [] := fun hnil => hcalled (List.map_eq_nil_iff.mp hnil)
  have hall (v) (hv : v ∈ c.shared.values) : v ≤ c.shared.linkRttMax := by
    refine (hcovered v hv).resolve_right ?_
    rintro ⟨i, hi⟩
    rw [hidle i] at hi
    exact hi
  obtain ⟨hlast, hewma⟩ := (hstored.resolve_left hne).resolve_right fun ⟨i, hi⟩ => hi (hidle i)
  refine ⟨⟨?_, hall⟩, hlast, hewma⟩
  rcases htopped with hzero | hmem
  · obtain ⟨v, hv⟩ := List.exists_mem_of_ne_nil _ hne
    have hle := hall v hv
    rw [hzero, UInt32.le_iff_toNat_le] at hle
    have hv0 : v = 0 := UInt32.toNat_inj.mp (Nat.le_zero.mp hle)
    rw [hzero, ← hv0]
    exact hv
  · exact hmem

structure Matches (g : RttStats) (m : Metrics) : Prop where
  last : g.linkRttLast.toNat = m.linkRttLast
  ewma : g.linkRttEwma.toNat = m.linkRttEwma
  max : g.linkRttMax.toNat = m.linkRttMax

def noted (g : RttStats) (micros : UInt64) : RttStats where
  linkRttLast := clamp micros
  linkRttEwma := average g.linkRttEwma (clamp micros)
  linkRttMax := if g.linkRttMax < clamp micros then clamp micros else g.linkRttMax
  samples := g.samples ++ [micros]

theorem noted_matches {m : Metrics} (h : g.Matches m) (micros : UInt64) :
    (g.noted micros).Matches (m.noteRtt micros.toNat) := by
  have hv := toNat_clamp micros
  have hlt := (average g.linkRttEwma (clamp micros)).toNat_lt
  have havg := toNat_average g.linkRttEwma (clamp micros)
  rw [h.ewma, hv] at havg
  refine ⟨hv, ?_, ?_⟩
  · have hmin : (average g.linkRttEwma (clamp micros)).toNat =
        min (average g.linkRttEwma (clamp micros)).toNat 4294967295 := by omega
    rw [havg] at hmin
    exact havg.trans hmin
  · have habove : g.linkRttMax < clamp micros ↔ m.linkRttMax < min micros.toNat 4294967295 := by
      rw [UInt32.lt_iff_toNat_lt, h.max, hv]
    rw [noted, Metrics.noteRtt]
    by_cases hlt : g.linkRttMax < clamp micros
    · simp only [if_pos hlt, if_pos (habove.mp hlt), hv]
    · simp only [if_neg hlt, if_neg (mt habove.mpr hlt), h.max]

theorem noteRtt_alone {i : ι} (hi : c.locals i = .idle) (micros : UInt64) :
    Run Act anytime c { c with shared := c.shared.noted micros } := by
  have hbegun : Run Act anytime c c := .refl
  have hcalled := hbegun.moves hi (.call c.shared micros) trivial
  have hloaded := ((((hcalled.extend (.storeLast _ _) trivial).extend (.loadEwma _ _)
    trivial).extend (.storeEwma _ _ _) trivial).extend (.loadMax _ _) trivial)
  by_cases habove : c.shared.linkRttMax < clamp micros
  · have hdone := hloaded.extend (.exchanged habove rfl) trivial
    rw [Config.move_eq_self hi] at hdone
    rwa [noted, if_pos habove]
  · have hdone := hloaded.extend (.returned habove) trivial
    rw [Config.move_eq_self hi] at hdone
    rwa [noted, if_neg habove]

theorem rtt_within_two_samples :
    let g := (fresh.noted 40).noted 5000000000
    g.linkRttMax ∈ g.values ∧ g.linkRttLast ∈ g.values ∧ Between g.values g.linkRttEwma := by
  intro g
  have hfirst : Run Act anytime (start Bool) _ := noteRtt_alone (i := true) rfl 40
  have hsecond := noteRtt_alone (c := ⟨fresh.noted 40, fun _ : Bool => .idle⟩) (i := false) rfl
    5000000000
  obtain ⟨⟨hmax, -⟩, hlast, hewma⟩ := (rtt_within_samples (hfirst.trans hsecond)).2.1
    (List.append_ne_nil_of_right_ne_nil _ (List.cons_ne_nil _ _)) fun _ => rfl
  exact ⟨hmax, hlast, hewma⟩

end RttStats

end DapProxy.Host
