import Pqueue.Store.Moves

/-!
# The generations of a mounted object

`Generations` says how the ranges, the tail and the next generation of an object with a tail fit
together.  Opening a segment and compacting keep it: sealing the tail adds it to the ranges
(`Generations.sealTail`), and a compaction replaces the generations of its input by those of its
output (`Compacts.gens`).
-/

namespace Pqueue

open Effect LittleEndian

/-- The generations in use, in replay order. -/
def Ram.gens (ram : Ram) : List ℕ := rangeGens ram.manifestRanges ++ [ram.activeGeneration]

/-- The ranges and the tail of an object that has one. -/
structure Generations (ram : Ram) : Prop where
  ranges_valid : ∀ r ∈ ram.manifestRanges, r.Valid
  count : ram.manifestRanges.length ≤ kManifestMaxRanges
  nodup : ram.gens.Nodup
  below : ∀ g ∈ ram.gens, g < ram.nextGeneration
  next_lt : ram.nextGeneration < 2 ^ 32
  tail_ne : ram.activeGeneration ≠ 0

lemma Ram.gens_congr {ram ram' : Ram} (hr : ram'.manifestRanges = ram.manifestRanges)
    (ha : ram'.activeGeneration = ram.activeGeneration) : ram'.gens = ram.gens := by
  rw [Ram.gens, Ram.gens, hr, ha]

lemma Ram.mem_gens {ram : Ram} {g : ℕ} :
    g ∈ ram.gens ↔ g ∈ rangeGens ram.manifestRanges ∨ g = ram.activeGeneration := by
  rw [Ram.gens, List.mem_append, List.mem_singleton]

namespace Generations

variable {ram ram' : Ram}

lemma congr (h : Generations ram) (hr : ram'.manifestRanges = ram.manifestRanges)
    (ha : ram'.activeGeneration = ram.activeGeneration)
    (hn : ram'.nextGeneration = ram.nextGeneration) : Generations ram' where
  ranges_valid := hr ▸ h.ranges_valid
  count := hr ▸ h.count
  nodup := by rw [Ram.gens_congr hr ha]; exact h.nodup
  below := by rw [Ram.gens_congr hr ha, hn]; exact h.below
  next_lt := hn ▸ h.next_lt
  tail_ne := ha ▸ h.tail_ne

lemma ranges_nodup (h : Generations ram) : (rangeGens ram.manifestRanges).Nodup :=
  (List.nodup_append.1 h.nodup).1

lemma tail_not_sealed (h : Generations ram) : ram.activeGeneration ∉ rangeGens ram.manifestRanges :=
  fun hm => (List.nodup_append.1 h.nodup).2.2 _ hm _ (List.mem_singleton_self _) rfl

lemma gen_lt (h : Generations ram) {g : ℕ} (hg : g ∈ ram.gens) : g < 2 ^ 32 :=
  (h.below g hg).trans h.next_lt

lemma next_ne (h : Generations ram) : ram.nextGeneration ≠ 0 :=
  (Nat.zero_lt_of_lt (h.below _ (Ram.mem_gens.2 (.inr rfl)))).ne'

lemma end_mem (h : Generations ram) {r : ManifestRange} (hr : r ∈ ram.manifestRanges) :
    r.endGen ∈ ram.gens :=
  Ram.mem_gens.2 (.inl (mem_rangeGens.2 ⟨r, hr, (h.ranges_valid r hr).2.1, le_rfl⟩))

lemma end_lt (h : Generations ram) : ∀ r ∈ ram.manifestRanges, r.endGen + 1 < 2 ^ 32 := by
  intro r hr
  have h1 := h.below _ (h.end_mem hr)
  have h2 := h.next_lt
  omega

/-! ## Opening a segment -/

/-- Sealing the tail adds it to the ranges. -/
lemma sealTail (h : Generations ram) : rangeGens ram.sealTail = ram.gens :=
  rangeGens_sealTail (fun r hr => (h.ranges_valid r hr).2.1) h.end_lt h.tail_ne

lemma sealTail_valid (h : Generations ram) : ∀ r ∈ ram.sealTail, r.Valid :=
  valid_sealTail h.ranges_valid h.tail_ne (h.gen_lt (Ram.mem_gens.2 (.inr rfl))) h.end_lt

variable {harm : FsCall → Disk → Disk → Prop} {A : StoreMark → Disk → Prop} {d : Disk}
  {ranges : List ManifestRange} {startSeq : ℕ} {slot : Slot} {epoch : ℕ}

/-- The object after a rotation. -/
lemma opened (h : Generations ram) (hranges : ranges = ram.sealTail)
    (hcount : ranges.length ≤ kManifestMaxRanges) (hlt : ram.nextGeneration + 1 < 2 ^ 32)
    (slot : Slot) (epoch n : ℕ) :
    Generations (ram.opened ranges slot epoch n) ∧
      (ram.opened ranges slot epoch n).gens = ram.gens ++ [ram.nextGeneration] := by
  have hgens : (ram.opened ranges slot epoch n).gens = ram.gens ++ [ram.nextGeneration] := by
    rw [← h.sealTail, ← hranges]
    rfl
  refine ⟨⟨hranges ▸ h.sealTail_valid, hcount, ?_, fun g hg => ?_, hlt, h.next_ne⟩, hgens⟩
  · rw [hgens]
    exact List.nodup_append.2 ⟨h.nodup, List.nodup_singleton _, fun a ha b hb hab =>
      absurd (h.below a ha) (by rw [hab, List.mem_singleton.1 hb]; exact lt_irrefl _)⟩
  · show g < ram.nextGeneration + 1
    rw [hgens] at hg
    rcases List.mem_append.1 hg with hg | hg
    · exact (h.below g hg).trans (Nat.lt_succ_self _)
    · rw [List.mem_singleton.1 hg]
      exact Nat.lt_succ_self _

/-- The object after its first segment was opened. -/
lemma first (hranges : ram.manifestRanges = []) (hne : ram.nextGeneration ≠ 0)
    (hlt : ram.nextGeneration + 1 < 2 ^ 32) (slot : Slot) (epoch n : ℕ) :
    Generations (ram.opened ram.manifestRanges slot epoch n) ∧
      (ram.opened ram.manifestRanges slot epoch n).gens = [ram.nextGeneration] := by
  have hr : (ram.opened ram.manifestRanges slot epoch n).manifestRanges = [] := hranges
  have hgens : (ram.opened ram.manifestRanges slot epoch n).gens = [ram.nextGeneration] := by
    rw [Ram.gens, hr]
    rfl
  refine ⟨⟨?_, ?_, ?_, fun g hg => ?_, hlt, hne⟩, hgens⟩
  · rw [hr]
    exact fun r hm => absurd hm List.not_mem_nil
  · rw [hr]
    exact Nat.zero_le _
  · rw [hgens]
    exact List.nodup_singleton _
  · rw [hgens] at hg
    rw [List.mem_singleton.1 hg]
    exact Nat.lt_succ_self _

end Generations

/-! ## Compacting -/

/-- The object after a compaction, whatever became of the input files. -/
structure AfterCompaction (ram : Ram) (idx : ℕ) (parent : ManifestRange) (input : CompactionRange)
    (out : List OutputSeg) (ram' : Ram) : Prop where
  ranges : ram'.manifestRanges = spliceRanges ram.manifestRanges idx parent input
    (outputRange ram out)
  active : ram'.activeGeneration = ram.activeGeneration
  bytes : ram'.activeSegmentBytes = ram.activeSegmentBytes
  next : ram'.nextGeneration = ram.nextGeneration + out.length
  gens : ram'.activeGenerations = rangeGens ram'.manifestRanges ++
    (ram.compaction 0 idx parent input out).tailList
  records : ram'.records = (ram.moveRecords input (out.flatMap OutputSeg.locations)).records
  mounted : ram'.mounted = ram.mounted

lemma Removed.afterCompaction {harm : FsCall → Disk → Disk → Prop} {ram ram' : Ram} {d d' : Disk}
    {idx : ℕ} {parent : ManifestRange} {input : CompactionRange} {out : List OutputSeg}
    {slot : Slot} {epoch n : ℕ} (h : Removed harm input.gens
      ((ram.wroteAll out).published slot
        (ram.compactionAt epoch idx parent input out) n) d ram' d') :
    AfterCompaction ram idx parent input out
      ((ram'.forgetInput input).moveRecords input (out.flatMap OutputSeg.locations)) := by
  have hs := SameCore.of_core h.core
  have hw := SameCore.of_core (core_wroteAll ram out)
  have hrec : ram'.records = ram.records := hs.records.trans hw.records
  exact {
    ranges := hs.ranges
    active := hs.active.trans hw.active
    bytes := hs.bytes.trans hw.bytes
    next := hs.next
    gens := by
      show ram'.activeGenerations = rangeGens ram'.manifestRanges ++ _
      rw [hs.gens, hs.ranges]
      rfl
    records := by
      show List.map _ ram'.records = List.map _ ram.records
      rw [hrec]
    mounted := hs.mounted.trans hw.mounted }

namespace Generations

variable {cfg : AppendLogConfig} {ram ram' : Ram} {idx : ℕ} {parent : ManifestRange}
  {input : CompactionRange} {out : List OutputSeg}

/-- The generations in use, split at the input of a compaction. -/
lemma split (h : PartOf ram.manifestRanges idx parent input) :
    ram.gens = rangeGens (rangesBefore ram.manifestRanges idx parent input) ++ input.gens ++
      (rangeGens (rangesAfter ram.manifestRanges idx parent input) ++ [ram.activeGeneration]) := by
  rw [Ram.gens, h.gens_eq, List.append_assoc]

lemma before_gens (h : Generations ram) (hp : PartOf ram.manifestRanges idx parent input) :
    input.before ram.gens = rangeGens (rangesBefore ram.manifestRanges idx parent input) := by
  have hn := h.nodup
  rw [split hp] at hn ⊢
  exact CompactionRange.before_eq hp.le hn

lemma after_gens (h : Generations ram) (hp : PartOf ram.manifestRanges idx parent input) :
    input.after ram.gens =
      rangeGens (rangesAfter ram.manifestRanges idx parent input) ++ [ram.activeGeneration] := by
  have hn := h.nodup
  rw [split hp] at hn ⊢
  exact CompactionRange.after_eq hp.le hn

/-- The generations in use are those before, in and after the input. -/
lemma gens_eq (h : Generations ram) (hp : PartOf ram.manifestRanges idx parent input) :
    ram.gens = input.before ram.gens ++ input.gens ++ input.after ram.gens := by
  rw [h.before_gens hp, h.after_gens hp]
  exact split hp

lemma mem_of_kept (h : Generations ram) (hp : PartOf ram.manifestRanges idx parent input) {g : ℕ}
    (hg : g ∈ input.before ram.gens ++ input.after ram.gens) : g ∈ ram.gens := by
  rw [h.gens_eq hp]
  simp only [List.mem_append] at hg ⊢
  tauto

lemma input_mem (h : Generations ram) (hp : PartOf ram.manifestRanges idx parent input) {g : ℕ}
    (hg : g ∈ input.gens) : g ∈ ram.gens := by
  rw [h.gens_eq hp]
  exact List.mem_append_left _ (List.mem_append_right _ hg)

/-- A generation of the input is not among those that are kept. -/
lemma input_not_kept (h : Generations ram) (hp : PartOf ram.manifestRanges idx parent input)
    {g : ℕ} (hg : g ∈ input.gens) : g ∉ input.before ram.gens ++ input.after ram.gens := by
  have hn := h.nodup
  rw [h.gens_eq hp, List.append_assoc, List.nodup_append] at hn
  obtain ⟨-, hia, hdis⟩ := hn
  simp only [List.mem_append, not_or]
  exact ⟨fun hb => hdis g hb g (List.mem_append_left _ hg) rfl,
    fun ha => (List.nodup_append.1 hia).2.2 g hg g ha rfl⟩

/-- The output is a valid range of new generations. -/
lemma outputRange_valid (h : Generations ram)
    (hgens : out.map OutputSeg.gen = List.range' ram.nextGeneration out.length)
    (hlt : ∀ o ∈ out, o.gen + 1 < 2 ^ 32) :
    ram.nextGeneration + out.length < 2 ^ 32 ∧
      ∀ r ∈ outputRange ram out, r.Valid ∧ r.endGen + 1 < 2 ^ 32 := by
  rcases Nat.eq_zero_or_pos out.length with h0 | hpos
  · rw [List.length_eq_zero_iff.1 h0]
    exact ⟨h.next_lt, fun r hr => nomatch hr⟩
  · have hm : ram.nextGeneration + out.length - 1 ∈ out.map OutputSeg.gen := by
      rw [hgens, List.mem_range'_1]
      omega
    obtain ⟨o, ho, hgen⟩ := List.mem_map.1 hm
    have hnext : ram.nextGeneration + out.length < 2 ^ 32 := by
      have := hlt o ho
      omega
    refine ⟨hnext, fun r hr => ?_⟩
    rw [outputRange, if_neg (List.length_pos_iff.1 hpos)] at hr
    obtain rfl := Option.some.inj hr
    exact ⟨⟨h.next_ne, by simp only; omega, by simp only; omega⟩, by simp only; omega⟩

lemma outputGens_eq (hgens : out.map OutputSeg.gen = List.range' ram.nextGeneration out.length) :
    outputGens (outputRange ram out) = out.map OutputSeg.gen := by
  rw [outputRange]
  split
  · next hnil =>
    subst hnil
    rfl
  · next hne =>
    have hpos := List.length_pos_iff.2 hne
    have hlen : ram.nextGeneration + out.length - 1 + 1 - ram.nextGeneration =
        out.length := by omega
    rw [outputGens, ManifestRange.gens, hgens]
    simp only [hlen]

lemma output_fresh (hgens : out.map OutputSeg.gen = List.range' ram.nextGeneration out.length)
    {g : ℕ} (hg : g ∈ out.map OutputSeg.gen) :
    ram.nextGeneration ≤ g ∧ g < ram.nextGeneration + out.length := by
  rw [hgens, List.mem_range'_1] at hg
  exact hg

/-- **The generations after a compaction**: those of the input are replaced by those of the
output. -/
lemma compacted (h : Generations ram) (hp : PartOf ram.manifestRanges idx parent input)
    (hgens : out.map OutputSeg.gen = List.range' ram.nextGeneration out.length)
    (hlt : ∀ o ∈ out, o.gen + 1 < 2 ^ 32)
    (hcount : (spliceRanges ram.manifestRanges idx parent input (outputRange ram out)).length ≤
      kManifestMaxRanges) (ha : AfterCompaction ram idx parent input out ram') :
    Generations ram' ∧
      ram'.gens = input.before ram.gens ++ out.map OutputSeg.gen ++ input.after ram.gens := by
  obtain ⟨hnext, hvalid⟩ := h.outputRange_valid hgens hlt
  have hg : ram'.gens = input.before ram.gens ++ out.map OutputSeg.gen ++ input.after ram.gens := by
    rw [h.before_gens hp, h.after_gens hp, ← outputGens_eq hgens, Ram.gens, ha.ranges, ha.active,
      rangeGens_spliceRanges hp h.ranges_valid h.end_lt hvalid]
    simp only [List.append_assoc]
  have hold : ∀ g ∈ input.before ram.gens ++ input.after ram.gens, g ∉ out.map OutputSeg.gen :=
    fun g hk hm => absurd (h.below g (h.mem_of_kept hp hk)) (not_lt.2 (output_fresh hgens hm).1)
  refine ⟨⟨?_, ?_, ?_, fun g hm => ?_, ?_, ?_⟩, hg⟩
  · rw [ha.ranges]
    exact valid_spliceRanges hp h.ranges_valid h.end_lt hvalid
  · rw [ha.ranges]
    exact hcount
  · have hn := h.nodup
    rw [h.gens_eq hp, List.append_assoc, List.nodup_append] at hn
    obtain ⟨hb, hia, hd⟩ := hn
    obtain ⟨-, hafter, -⟩ := List.nodup_append.1 hia
    have hout : (out.map OutputSeg.gen).Nodup := by
      rw [hgens]
      exact List.nodup_range'
    rw [hg, List.append_assoc]
    refine List.nodup_append.2 ⟨hb, List.nodup_append.2 ⟨hout, hafter, ?_⟩, ?_⟩
    · rintro x hx y hy rfl
      exact hold x (List.mem_append_right _ hy) hx
    · rintro x hx y hy rfl
      rcases List.mem_append.1 hy with hy | hy
      · exact hold x (List.mem_append_left _ hx) hy
      · exact hd x hx x (List.mem_append_right _ hy) rfl
  · rw [ha.next]
    rw [hg, List.append_assoc] at hm
    simp only [List.mem_append] at hm
    rcases hm with hm | hm | hm
    · exact (h.below g (h.mem_of_kept hp (List.mem_append_left _ hm))).trans_le
        (Nat.le_add_right _ _)
    · exact (output_fresh hgens hm).2
    · exact (h.below g (h.mem_of_kept hp (List.mem_append_right _ hm))).trans_le
        (Nat.le_add_right _ _)
  · rw [ha.next]
    exact hnext
  · rw [ha.active]
    exact h.tail_ne

end Generations

/-! ## What the plan promises -/

namespace Compacts

variable {cfg : AppendLogConfig} {harm : FsCall → Disk → Disk → Prop} {A : StoreMark → Disk → Prop}
  {ram₀ ram : Ram} {d₀ d : Disk} {plan : CompactionPlan} {idx : ℕ} {parent : ManifestRange}
  {input : CompactionRange} {live : List CompactionLiveRecord} {out : List OutputSeg}

/-- Something is written only when something is live. -/
lemma output_nil (h : Compacts cfg harm A ram₀ d₀ plan ram d idx parent input live out)
    (hnil : ram.liveIn input = []) : out = [] := by
  have hc := h.collected
  rw [Ram.collect_of_liveIn_nil hnil] at hc
  rw [h.output, compactionOutput, if_pos (Option.some.inj hc).symm]

lemma outputRange_isSome (h : Compacts cfg harm A ram₀ d₀ plan ram d idx parent input live out) :
    (outputRange ram out).isSome.toNat ≤ (!(ram.liveIn input).isEmpty).toNat := by
  cases hl : ram.liveIn input with
  | nil =>
    rw [h.output_nil hl]
    rfl
  | cons r rs => exact Bool.toNat_le _

/-- When the tail was sealed, the input ends with it and lies in the last range. -/
lemma rotated (h : Compacts cfg harm A ram₀ d₀ plan ram d idx parent input live out)
    (hg₀ : Generations ram₀) (hrot : plan.rotates = true) : ∃ last,
    ram₀.manifestRanges.getLast? = some last ∧ ram.manifestRanges = ram₀.sealTail ∧
      ram₀.sealTail = ram₀.manifestRanges.dropLast ++ [⟨last.startGen, ram₀.activeGeneration⟩] ∧
      parent = ⟨last.startGen, ram₀.activeGeneration⟩ ∧ last.startGen ≤ plan.input.startGen ∧
      plan.input.startGen ≤ plan.input.endGen ∧ plan.input.endGen = last.endGen ∧
      last.endGen + 1 = ram₀.activeGeneration ∧
      ram₀.manifestRanges.length + (hasLeft last plan.input).toNat ≤ kManifestMaxRanges := by
  obtain ⟨range, fallback, -, hplan⟩ := h.planned
  obtain ⟨idx', last, hp⟩ := planned_of_planCompaction hg₀.ranges_nodup hg₀.ranges_valid hg₀.count
    hplan
  obtain ⟨-, hlast, hend, hact, hlen⟩ := hp.rotation hrot
  have hmem : last ∈ ram₀.manifestRanges := List.mem_of_getLast? hlast
  have hlt := hg₀.end_lt last hmem
  have hseal : ram₀.sealTail = ram₀.manifestRanges.dropLast ++
      [⟨last.startGen, ram₀.activeGeneration⟩] := by
    rw [Ram.sealTail, if_pos hg₀.tail_ne, hlast]
    exact if_pos hact
  have hranges : ram.manifestRanges = ram₀.sealTail := by
    cases h.prepared with
    | asIs hr => rw [hrot] at hr; cases hr
    | rotated => rfl
  rw [u32_of_lt hlt] at hact
  refine ⟨last, hlast, hranges, hseal, ?_, hp.part.start_le, hp.part.le, hend, hact, hlen⟩
  -- the parent found after the rotation is the range that was extended
  have hpart := h.part
  rw [hranges] at hpart
  have hlastget : ram₀.sealTail[ram₀.sealTail.length - 1]? =
      some ⟨last.startGen, ram₀.activeGeneration⟩ := by
    rw [← List.getLast?_eq_getElem?, hseal, List.getLast?_concat]
  have hn : (rangeGens ram₀.sealTail).Nodup := hg₀.sealTail ▸ hg₀.nodup
  have hin : input.startGen = plan.input.startGen := by rw [h.input_eq]
  have h1 := hp.part.start_le
  have h2 := hp.part.le
  have hidx := range_unique hn hpart.get hlastget (g := plan.input.startGen)
    (ManifestRange.mem_gens.2 ⟨hin ▸ hpart.start_le, hin ▸ hpart.le.trans hpart.end_le⟩)
    (ManifestRange.mem_gens.2 ⟨h1, by simp only; omega⟩)
  exact Option.some.inj (hpart.get.symm.trans (hidx ▸ hlastget))

/-- The new ranges fit. -/
lemma count (h : Compacts cfg harm A ram₀ d₀ plan ram d idx parent input live out)
    (hg₀ : Generations ram₀) :
    (spliceRanges ram.manifestRanges idx parent input (outputRange ram out)).length ≤
      kManifestMaxRanges := by
  have hle := length_spliceRanges_le h.part (outputRange ram out)
  have hout := h.outputRange_isSome
  cases hrot : plan.rotates with
  | false =>
    have hram : ram = ram₀ := by
      cases h.prepared with
      | asIs => rfl
      | rotated hr => rw [hrot] at hr; cases hr
    subst hram
    obtain ⟨range, fallback, -, hplan⟩ := h.planned
    obtain ⟨idx', parent', hp⟩ := planned_of_planCompaction hg₀.ranges_nodup hg₀.ranges_valid
      hg₀.count hplan
    have hin : input = plan.input := by
      rw [h.input_eq, hrot]
      rfl
    have hpart := h.part
    rw [hin] at hpart hle hout
    have hidx := range_unique hg₀.ranges_nodup hpart.get hp.part.get (g := plan.input.startGen)
      (ManifestRange.mem_gens.2 ⟨hpart.start_le, hpart.le.trans hpart.end_le⟩)
      (ManifestRange.mem_gens.2 ⟨hp.part.start_le, hp.part.le.trans hp.part.end_le⟩)
    obtain rfl : parent = parent' :=
      Option.some.inj (hpart.get.symm.trans (hidx ▸ hp.part.get))
    have hgate := hp.gate hrot
    rw [hin]
    omega
  | true =>
    obtain ⟨last, hlast, hranges, hseal, hparent, h1, h2, hend, hact, hlen⟩ := h.rotated hg₀ hrot
    have hlength : ram.manifestRanges.length = ram₀.manifestRanges.length := by
      have hpos := List.length_pos_of_mem (List.mem_of_getLast? hlast)
      rw [hranges, hseal, List.length_append, List.length_dropLast, List.length_singleton]
      omega
    have hin := h.input_eq
    rw [hrot, if_pos rfl, hparent] at hin
    have hleft : hasLeft parent input = hasLeft last plan.input := by rw [hparent, hin]; rfl
    have hright : hasRight parent input = false := by
      rw [hparent, hin]
      exact decide_eq_false (lt_irrefl _)
    have := Bool.toNat_le (outputRange ram out).isSome
    rw [hleft, hright, hlength, Bool.toNat_false] at hle
    omega

end Compacts

end Pqueue
