import DapProxy.Framing.Ends
import DapProxy.Target.Tcp

namespace DapProxy.Target
open Framing Framing.Format

def chunkBytes (cs : List Chunk) : List UInt8 := (cs.map (·.bytes)).flatten

namespace Deframer

def frames (d : Deframer 1024) (bytes : List UInt8) : List (List UInt8) :=
  (feeder 1024).outs d bytes

def discarded (d : Deframer 1024) (cs : List Chunk) : List UInt8 :=
  (feeder 1024).lost d (cs.map (·.bytes))

end Deframer

def Behind (P : List UInt8 → Prop) (gs : List dapFormat.Segment) (cs : List Chunk) : Prop :=
  ∀ reads c later before g after xs x rest, cs = reads ++ c :: later →
    gs = before ++ g :: after → g.frame.payload ≠ [] → c.bytes = xs ++ x :: rest →
    chunkBytes reads ++ xs ++ [x] = Segment.stream (before ++ [g]) → P rest

def Aligned (gs : List dapFormat.Segment) (cs : List Chunk) : Prop := Behind (· = []) gs cs

def Separated (gs : List dapFormat.Segment) (cs : List Chunk) : Prop :=
  Behind (frameMagic ∉ ·) gs cs

theorem isMagic_false_iff (x : UInt8) : dapFormat.isMagic x = false ↔ x ≠ frameMagic := by
  simp [dapFormat]

theorem quiet_iff (xs : List UInt8) :
    (∀ x ∈ xs, dapFormat.isMagic x = false) ↔ frameMagic ∉ xs := by
  simp only [isMagic_false_iff]
  exact ⟨fun h hm => h _ hm rfl, fun h x hx he => h (he ▸ hx)⟩

theorem magic_not_mem : ∀ rest : List UInt8, rest = [] → frameMagic ∉ rest := by
  rintro rest rfl
  exact List.not_mem_nil

theorem behind_iff {P : List UInt8 → Prop} (hP : ∀ rest, P rest → frameMagic ∉ rest)
    {gs : List dapFormat.Segment} {tail : List UInt8} {cs : List Chunk}
    (htail : frameMagic ∉ tail) (hcs : chunkBytes cs = Segment.stream gs ++ tail) :
    dapFormat.decoder.Tails P ⟨[], 0⟩ (cs.map (·.bytes)) ↔ Behind P gs cs := by
  have hends (p : List UInt8) (x : UInt8) (post : List UInt8) (h : chunkBytes cs = p ++ x :: post) :
      dapFormat.decoder.EmitsAt ⟨[], 0⟩ p x ↔ Segment.EndsAt gs (p ++ [x]) :=
    Segment.emitsAt_iff (fun j => outs_quiet j ((quiet_iff tail).mpr htail)) (hcs.symm.trans h)
  rw [Transducer.tails_iff fun s xs x rest hx hrest => by
    rw [emitsAt_state hx, outs_quiet 0 ((quiet_iff rest).mpr (hP rest hrest))]]
  constructor
  · rintro h reads c later before g after xs x rest rfl rfl hp hc heq
    apply h (reads.map (·.bytes)) xs x rest (later.map (·.bytes)) (by simp [hc])
    rw [hends _ _ (rest ++ chunkBytes later) (by simp [chunkBytes, hc])]
    exact ⟨before, g, after, rfl, hp, heq.symm⟩
  · intro h before xs x rest after heq hx
    obtain ⟨reads, cs', rfl, rfl, heq'⟩ := List.map_eq_append_iff.mp heq
    obtain ⟨c, later, rfl, hc, rfl⟩ := List.map_eq_cons_iff.mp heq'
    rw [hends _ _ (rest ++ chunkBytes later) (by simp [chunkBytes, hc])] at hx
    obtain ⟨before, g, after, rfl, hp, hstream⟩ := hx
    exact h reads c later before g after xs x rest rfl rfl hp hc hstream.symm

theorem specAll_chunks {s t : Decoder UInt8} (hb : Below s t) (cs : List Chunk)
    (hn : t.noise + dapFormat.rejected t (chunkBytes cs) ≤ maxRejects)
    (ht : dapFormat.decoder.Tails (frameMagic ∉ ·) t (cs.map (·.bytes))) :
    specAll s (cs.map .chunk) =
      (dapFormat.decoder.outs t (chunkBytes cs)).map (fun raw => .ok (slice 1024 raw)) := by
  induction cs generalizing s t with
  | nil => rfl
  | cons c cs ih =>
    obtain ⟨hc, hcs⟩ := ht
    have hcons : chunkBytes (c :: cs) = c.bytes ++ chunkBytes cs := by simp [chunkBytes]
    have hrun := noise_le_rejected (F := dapFormat) t c.bytes
    rw [hcons, rejected_append] at hn
    rw [hcons, Transducer.outs_append]
    obtain ⟨-, ho⟩ := (below_simulates (F := dapFormat)).scan hb c.bytes
    rcases hs : dapFormat.decoder.scan s c.bytes with ⟨s', _ | ⟨raw, rest⟩⟩
    · obtain ⟨hso, hsr⟩ := Transducer.scan_none hs
      have hb' : Below s' (dapFormat.decoder.run t c.bytes) := hsr ▸ below_simulates.run hb c.bytes
      have hg : ¬maxRejects < s'.noise := by
        have := hb'.2
        omega
      have hto : dapFormat.decoder.outs t c.bytes = [] := outs_sameRaw hb.1 _ ▸ hso
      simp only [List.map_cons, specAll, specRead, hs, if_neg hg, hto, List.nil_append]
      exact ih hb' (by omega) hcs
    · have hts : (dapFormat.decoder.scan t c.bytes).2 = some (raw, rest) := by
        simpa [hs] using ho.symm
      obtain ⟨t', hts'⟩ : ∃ t', dapFormat.decoder.scan t c.bytes = (t', some (raw, rest)) :=
        ⟨_, Prod.ext rfl hts⟩
      obtain ⟨rfl, fed, hfed, hto, htr⟩ := scan_some_state hts'
      obtain ⟨rfl, -⟩ := scan_some_state hs
      have hq := (quiet_iff rest).mpr (hc raw rest hts)
      have hto' : dapFormat.decoder.outs t c.bytes = [raw] := by
        rw [hfed, Transducer.outs_append, hto, htr, outs_quiet 0 hq, List.append_nil]
      have htr' : dapFormat.decoder.run t c.bytes = ⟨[], 0 + rest.length⟩ := by
        rw [hfed, Transducer.run_append, htr, run_quiet 0 hq]
      have hb' : Below ⟨[], 0⟩ (dapFormat.decoder.run t c.bytes) := by
        rw [htr']
        exact ⟨rfl, Nat.zero_le _⟩
      simp only [List.map_cons, specAll, specRead, hs, hto', List.cons_append, List.nil_append]
      exact congrArg _ (ih hb' (by omega) hcs)

theorem specAll_blockOuts {s : Decoder UInt8} {cs : List Chunk} {ps : List (List UInt8)}
    (h : specAll s (cs.map .chunk) = ps.map .ok) :
    (dapFormat.decoder.blockOuts s (cs.map (·.bytes))).map (slice 1024) = ps := by
  induction cs generalizing s ps with
  | nil => cases ps <;> simp_all [specAll, Transducer.blockOuts]
  | cons c cs ih =>
    rcases hs : dapFormat.decoder.scan s c.bytes with ⟨s', _ | ⟨raw, rest⟩⟩
    · by_cases hg : maxRejects < s'.noise
      · cases ps <;> simp [specAll, specRead, hs, hg] at h
      · simp only [List.map_cons, specAll, specRead, hs, if_neg hg] at h
        simpa [Transducer.blockOuts, hs] using ih h
    · cases ps with
      | nil => simp [specAll, specRead, hs] at h
      | cons p ps =>
        simp only [List.map_cons, specAll, specRead, hs, List.cons.injEq, Except.ok.injEq] at h
        simp [Transducer.blockOuts, hs, h.1, ih h.2]

theorem magic_eq {x : UInt8} (h : dapFormat.isMagic x = true) : x = frameMagic := by
  simpa [dapFormat] using h

theorem slice_wire (f : dapFormat.Frame) : slice 1024 f.wire = f.payload.take 1024 := rfl

theorem magics_le_of_slice {f g : dapFormat.Frame} (hg : g.payload.length ≤ 1024)
    (h : slice 1024 f.wire = slice 1024 g.wire) :
    g.wire.countP dapFormat.isMagic ≤ f.wire.countP dapFormat.isMagic := by
  rw [slice_wire, slice_wire, List.take_of_length_le hg] at h
  by_cases hf : f.payload.length ≤ 1024
  · rw [List.take_of_length_le hf] at h
    obtain ⟨hlo, hhi⟩ := size_inj (f.size.symm.trans ((congrArg List.length h).trans g.size))
    have hm : f.magic = g.magic := (magic_eq f.isMagic).trans (magic_eq g.isMagic).symm
    have hw : f.wire = g.wire := by simp only [Frame.wire, h, hlo, hhi, hm]
    exact hw ▸ Nat.le_refl _
  · have hlen : g.payload.length = 1024 := by
      have := congrArg List.length h
      rw [List.length_take] at this
      omega
    obtain ⟨hlo, hhi⟩ : g.lo = 0 ∧ g.hi = 4 := by
      refine size_inj (g.size.symm.trans (hlen.trans ?_))
      rw [size_eq]
      rfl
    have hp : g.payload.countP dapFormat.isMagic ≤ f.payload.countP dapFormat.isMagic :=
      h ▸ (List.take_sublist 1024 f.payload).countP_le
    simp only [Frame.wire, List.countP_cons, f.isMagic, g.isMagic, hlo, hhi, if_true]
    have h0 : dapFormat.isMagic 0 = false := rfl
    have h4 : dapFormat.isMagic 4 = false := rfl
    simp only [h0, h4, Bool.false_eq_true, if_false]
    omega

theorem magics_le_of_slices {raws : List (List UInt8)} {gs : List dapFormat.Segment}
    (hr : ∀ raw ∈ raws, ∃ f : dapFormat.Frame, f.wire = raw ∧ f.payload ≠ [])
    (hg : ∀ g ∈ gs, 1 ≤ g.frame.payload.length ∧ g.frame.payload.length ≤ 1024)
    (h : raws.map (slice 1024) = (Segment.wires gs).map (slice 1024)) :
    (Segment.stream gs).countP dapFormat.isMagic ≤ raws.flatten.countP dapFormat.isMagic := by
  induction gs generalizing raws with
  | nil => simp [Segment.stream]
  | cons g gs ih =>
    obtain ⟨hg1, hg2⟩ := hg g (by simp)
    have hne : g.frame.payload ≠ [] := List.length_pos_iff.mp hg1
    have hw : Segment.wires (g :: gs) = g.frame.wire :: Segment.wires gs := by
      simp [Segment.wires, hne]
    rw [hw] at h
    cases raws with
    | nil => simp at h
    | cons raw raws =>
      simp only [List.map_cons, List.cons.injEq] at h
      obtain ⟨f, rfl, -⟩ := hr raw (by simp)
      have hhead := magics_le_of_slice hg2 h.1
      have htail := ih (fun r hr' => hr r (by simp [hr'])) (fun g' hg' => hg g' (by simp [hg']))
        h.2
      have hgap : g.gap.countP dapFormat.isMagic = 0 := by
        simpa [List.countP_eq_zero] using g.quiet
      simp only [Segment.stream, List.flatMap_cons, Segment.bytes, List.countP_append, hgap,
        List.flatten_cons] at htail ⊢
      omega

theorem recvAll_new {cs : List Chunk} :
    TcpChannel.recvAll 1024 .new (cs.map .chunk) = specAll ⟨[], 0⟩ (cs.map .chunk) :=
  TcpChannel.recvAll_spec TcpChannel.refines_new _

theorem frames_new (bytes : List UInt8) :
    Deframer.frames .new bytes = (dapFormat.decoder.outs ⟨[], 0⟩ bytes).map (slice 1024) :=
  Deframer.feed_simulates.outs Deframer.refines_new bytes

section
variable {gs : List dapFormat.Segment} {tail : List UInt8} {cs : List Chunk}

theorem recvAll_of_separated (htail : frameMagic ∉ tail)
    (hn : Segment.noise gs + tail.length ≤ maxRejects)
    (hcs : chunkBytes cs = Segment.stream gs ++ tail) (h : Separated gs cs) :
    TcpChannel.recvAll 1024 .new (cs.map .chunk) =
      (Deframer.frames .new (chunkBytes cs)).map .ok := by
  have hrun := Segment.run_stream gs 0
  have hrej : dapFormat.rejected ⟨[], 0⟩ (chunkBytes cs) = Segment.noise gs + tail.length := by
    have hq := (quiet_iff tail).mpr htail
    rw [hcs, rejected_append, Segment.rejected_stream]
    rcases hs : dapFormat.decoder.run ⟨[], 0⟩ (Segment.stream gs) with ⟨raw, k⟩
    rw [hs] at hrun
    simp only at hrun
    rw [hrun, rejected_quiet k hq]
  have ht := (behind_iff (fun _ => id) htail hcs).mpr h
  have hle : (⟨[], 0⟩ : Decoder UInt8).noise + dapFormat.rejected ⟨[], 0⟩ (chunkBytes cs) ≤
      maxRejects := by
    rw [hrej]
    simpa using hn
  rw [recvAll_new, specAll_chunks ⟨rfl, Nat.le_refl _⟩ cs hle ht, frames_new, List.map_map]
  rfl

theorem separated_of_recvAll (htail : frameMagic ∉ tail)
    (hg : ∀ g ∈ gs, 1 ≤ g.frame.payload.length ∧ g.frame.payload.length ≤ 1024)
    (hcs : chunkBytes cs = Segment.stream gs ++ tail)
    (h : TcpChannel.recvAll 1024 .new (cs.map .chunk) =
      (Deframer.frames .new (chunkBytes cs)).map .ok) : Separated gs cs := by
  have hq := (quiet_iff tail).mpr htail
  have hwires : dapFormat.decoder.outs ⟨[], 0⟩ (chunkBytes cs) = Segment.wires gs := by
    have hrun := Segment.run_stream gs 0
    rw [hcs, Transducer.outs_append, Segment.outs_stream]
    rcases hs : dapFormat.decoder.run ⟨[], 0⟩ (Segment.stream gs) with ⟨raw, k⟩
    rw [hs] at hrun
    simp only at hrun
    rw [hrun, outs_quiet k hq, List.append_nil]
  rw [recvAll_new, frames_new, hwires] at h
  have hblocks := specAll_blockOuts h
  have hcount := lost_magic_le (F := dapFormat) dapFormat.isMagic ⟨[], 0⟩ (cs.map (·.bytes))
  have hle := magics_le_of_slices (blockOuts_frame (s := ⟨[], 0⟩) trivial _) hg hblocks
  have htot : (cs.map (·.bytes)).flatten.countP dapFormat.isMagic =
      (Segment.stream gs).countP dapFormat.isMagic := by
    rw [show (cs.map (·.bytes)).flatten = chunkBytes cs from rfl, hcs, List.countP_append]
    simpa [List.countP_eq_zero] using hq
  rw [htot, List.countP_nil] at hcount
  have hlost : (dapFormat.decoder.lost ⟨[], 0⟩ (cs.map (·.bytes))).countP dapFormat.isMagic =
      0 := by
    omega
  have hquiet : ∀ x ∈ dapFormat.decoder.lost ⟨[], 0⟩ (cs.map (·.bytes)),
      dapFormat.isMagic x = false := by
    simpa [List.countP_eq_zero] using hlost
  have ht := tails_of_lost (F := dapFormat) (s := ⟨[], 0⟩) (t := ⟨[], 0⟩) rfl hquiet
  exact (behind_iff (fun _ => id) htail hcs).mp
    (Transducer.tails_mono (fun xs => (quiet_iff xs).mp) ht)

theorem discarded_eq_nil_iff (htail : frameMagic ∉ tail)
    (hcs : chunkBytes cs = Segment.stream gs ++ tail) :
    Deframer.discarded .new cs = [] ↔ Aligned gs cs := by
  have hlost : Deframer.discarded .new cs = dapFormat.decoder.lost ⟨[], 0⟩ (cs.map (·.bytes)) :=
    Deframer.feed_simulates.lost Deframer.refines_new _
  rw [hlost, Transducer.lost_eq_nil_iff, behind_iff magic_not_mem htail hcs, Aligned]

end

theorem recvAll_segmentation (gs : List dapFormat.Segment) (tail : List UInt8) (cs : List Chunk)
    (htail : frameMagic ∉ tail) (hn : Segment.noise gs + tail.length ≤ 128)
    (hcs : chunkBytes cs = Segment.stream gs ++ tail) :
    ((TcpChannel.recvAll 1024 .new (cs.map .chunk) =
          (Deframer.frames .new (chunkBytes cs)).map .ok ∧
        Deframer.discarded .new cs = []) ↔ Aligned gs cs) ∧
    ((∀ g ∈ gs, 1 ≤ g.frame.payload.length ∧ g.frame.payload.length ≤ 1024) →
      (TcpChannel.recvAll 1024 .new (cs.map .chunk) =
        (Deframer.frames .new (chunkBytes cs)).map .ok ↔ Separated gs cs)) := by
  have hdiscarded := discarded_eq_nil_iff htail hcs
  refine ⟨⟨fun h => hdiscarded.mp h.2, fun h => ⟨?_, hdiscarded.mpr h⟩⟩,
    fun hg => ⟨separated_of_recvAll htail hg hcs, recvAll_of_separated htail hn hcs⟩⟩
  have hseparated : Separated gs cs := by
    intro reads c later before g after xs x rest hreads hgs hp hc hends
    rw [h reads c later before g after xs x rest hreads hgs hp hc hends]
    exact List.not_mem_nil
  exact recvAll_of_separated htail hn hcs hseparated

def segmentOf (p : List UInt8) (h : p.length < 65536) : dapFormat.Segment :=
  ⟨[], frameOf p h, by simp⟩

theorem recvAll_drops_second_frame :
    let oneRead : List Chunk := [⟨[0xDA, 1, 0, 0x41, 0xDA, 1, 0, 0x42], by decide, by decide⟩]
    let twoReads : List Chunk :=
      [⟨[0xDA, 1, 0, 0x41], by decide, by decide⟩, ⟨[0xDA, 1, 0, 0x42], by decide, by decide⟩]
    let gs : List dapFormat.Segment := [segmentOf [0x41] (by decide), segmentOf [0x42] (by decide)]
    chunkBytes oneRead = Segment.stream gs ∧ chunkBytes twoReads = Segment.stream gs ∧
      TcpChannel.recvAll 1024 .new (oneRead.map .chunk) = [.ok [0x41]] ∧
      TcpChannel.recvAll 1024 .new (twoReads.map .chunk) = [.ok [0x41], .ok [0x42]] ∧
      Deframer.frames .new (Segment.stream gs) = [[0x41], [0x42]] := by
  refine ⟨by decide, by decide, ?_, ?_, ?_⟩
  · rw [recvAll_new]
    rfl
  · rw [recvAll_new]
    rfl
  · rw [frames_new]
    rfl

theorem recvAll_segmentation_three_reads :
    let cs : List Chunk := [⟨[0xDA, 1], by decide, by decide⟩, ⟨[0, 0x41], by decide, by decide⟩,
      ⟨[0xDA, 1, 0, 0x42], by decide, by decide⟩]
    TcpChannel.recvAll 1024 .new (cs.map .chunk) = [.ok [0x41], .ok [0x42]] ∧
      Deframer.discarded .new cs = [] := by
  intro cs
  have hcs : chunkBytes cs = Segment.stream
      [segmentOf [0x41] (by decide), segmentOf [0x42] (by decide)] ++ [] := by decide
  have haligned : Aligned [segmentOf [0x41] (by decide), segmentOf [0x42] (by decide)] cs := by
    refine (behind_iff magic_not_mem List.not_mem_nil hcs).mp ⟨?_, ?_, ?_, trivial⟩
    · rintro y rest ⟨⟩
    · rintro y rest ⟨⟩
      rfl
    · rintro y rest ⟨⟩
      rfl
  obtain ⟨hframes, hkept⟩ :=
    (recvAll_segmentation _ [] cs List.not_mem_nil (by decide) hcs).1.mpr haligned
  refine ⟨hframes.trans ?_, hkept⟩
  rw [frames_new]
  rfl

end DapProxy.Target
