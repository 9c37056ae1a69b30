import Mathlib.Algebra.BigOperators.Group.List.Basic
import Pqueue.Store.Runs

/-!
# The manifest and index invariant

What holds of the ranges, of the index and of the winning slot in every state of a run
(`StoreRun.invariant`), provided no 32-bit offset, segment size or epoch wraps and a format
removes both manifest slots.
-/

namespace Pqueue

open Effect LittleEndian

/-- The bytes that the events of the live records of generation `g` take, and the header. -/
def Ram.liveBytes (ram : Ram) (g : ℕ) : ℕ :=
  kSegmentHeaderBytes + ((ram.records.filter fun r => r.segmentGeneration = g).map
    fun r => kEnqueueOverheadBytes + r.payloadBytes).sum

/-- The ranges, the index and the winning slot of a store object fit together. -/
structure StoreInvariant (ram : Ram) (d : Disk) : Prop where
  /-- Ranges are nonempty, -/
  nonempty : ∀ r ∈ ram.manifestRanges, r.startGen ≤ r.endGen
  /-- pairwise disjoint, -/
  disjoint : ram.manifestRanges.Pairwise fun r s => r.endGen < s.startGen ∨ s.endGen < r.startGen
  /-- exclude generation `0` -/
  zero : ∀ r ∈ ram.manifestRanges, 0 < r.startGen
  /-- and the tail, -/
  tail : ∀ r ∈ ram.manifestRanges, ram.activeGeneration < r.startGen ∨
    r.endGen < ram.activeGeneration
  /-- and are not too many. -/
  count : ram.manifestRanges.length ≤ kManifestMaxRanges
  next : ∀ g ∈ ram.activeGenerations, g < ram.nextGeneration
  generations : ram.activeGenerations = ram.manifestRanges.flatMap ManifestRange.gens ++
    if ram.activeGeneration = 0 then [] else [ram.activeGeneration]
  /-- There is a tail once a manifest was published, and what is in memory wins. -/
  winner : Disk.elected d = if ram.activeGeneration = 0 then none else some ram.manifest
  located : ∀ r ∈ ram.records, r.segmentGeneration ∈ ram.activeGenerations ∧
    ∃ data, d.lookup (segmentName r.segmentGeneration) = some data ∧
      r.payloadOffset + r.payloadBytes ≤ ram.extent r.segmentGeneration ∧
        ram.extent r.segmentGeneration ≤ data.length
  apart : ram.records.Pairwise fun r s => r.segmentGeneration = s.segmentGeneration →
    r.payloadOffset + r.payloadBytes ≤ s.payloadOffset ∨
      s.payloadOffset + s.payloadBytes ≤ r.payloadOffset
  live_le : ∀ g ∈ ram.manifestRanges.flatMap ManifestRange.gens,
    ram.liveBytes g ≤ (ram.sealedSegmentBytes g).getD 0
  /-- So the statistics do not underflow. -/
  stats : ∀ s ∈ ram.segmentStats, s.liveBytes ≤ s.totalBytes

/-! ## Lemmas -/

lemma sumU32_eq (ns : List ℕ) : sumU32 ns = u32 ns.sum := by
  have h : ∀ (ns : List ℕ) (acc : ℕ), acc < 2 ^ 32 →
      ns.foldl (fun acc n => u32 (acc + n)) acc = u32 (acc + ns.sum) := by
    intro ns
    induction ns with
    | nil => exact fun acc hacc => (u32_of_lt hacc).symm
    | cons n ns ih =>
      intro acc _
      rw [List.foldl_cons, ih _ (u32_lt _), List.sum_cons, ← Nat.add_assoc]
      exact Nat.mod_add_mod _ _ _
  rw [sumU32, h ns 0 (by decide), Nat.zero_add]

/-- Ranges whose generations do not repeat are disjoint. -/
lemma ranges_disjoint {rs : List ManifestRange} (hv : ∀ r ∈ rs, r.Valid)
    (hn : (rangeGens rs).Nodup) :
    rs.Pairwise fun r s => r.endGen < s.startGen ∨ s.endGen < r.startGen := by
  refine (List.nodup_flatMap.1 hn).2.imp_of_mem fun {r s} hr hs hdis => ?_
  by_contra hover
  rw [not_or, not_lt, not_lt] at hover
  have h1 := (hv r hr).2.1
  have h2 := (hv s hs).2.1
  have hmem : ∀ t : ManifestRange, t.startGen ≤ max r.startGen s.startGen →
      max r.startGen s.startGen ≤ t.endGen → max r.startGen s.startGen ∈ t.gens := by
    intro t hlo hhi
    rw [ManifestRange.gens, List.mem_range'_1]
    omega
  exact hdis (hmem r (by omega) (by omega)) (hmem s (by omega) (by omega))

/-- The events of the live records of a segment fit into its extent. -/
lemma Placed.liveBytes_le {cfg : AppendLogConfig} {gens : List ℕ} {extent : ℕ → ℕ} {ram : Ram}
    (h : Placed cfg gens extent ram.records) {g : ℕ} (hg : kSegmentHeaderBytes ≤ extent g) :
    ram.liveBytes g ≤ extent g := by
  have hapart : ram.records.Pairwise SegmentRecord.Apart :=
    (List.pairwise_map.1 h.nodup).imp_of_mem fun hr hs hne => h.apart _ hr _ hs hne
  have hsum := @Intervals.sum_length_le
    ((ram.records.filter fun r => r.segmentGeneration = g).map fun r => (r.start, r.stop))
    kSegmentHeaderBytes (extent g) ?_ ?_
  · rw [List.map_map] at hsum
    have hlen : ∀ r ∈ ram.records.filter fun r => r.segmentGeneration = g,
        kEnqueueOverheadBytes + r.payloadBytes = r.stop - r.start := by
      intro r hr
      have := (h.enclosed r (List.mem_of_mem_filter hr)).header_le
      simp only [SegmentRecord.stop, SegmentRecord.start, kEnqueueOverheadBytes,
        kEnqueueHeaderBytes, kEventTrailerBytes, kSegmentHeaderBytes] at this ⊢
      omega
    rw [Ram.liveBytes, List.map_congr_left hlen]
    exact Nat.add_le_of_le_sub' hg hsum
  · refine List.pairwise_map.2 (((hapart.filter _).imp_of_mem fun {r s} hr hs ha => ?_))
    have hr := of_decide_eq_true (List.mem_filter.1 hr).2
    have hs := of_decide_eq_true (List.mem_filter.1 hs).2
    exact ha (hr.trans hs.symm)
  · intro i hi
    obtain ⟨r, hr, rfl⟩ := List.mem_map.1 hi
    obtain ⟨hr, hg⟩ := List.mem_filter.1 hr
    have hstart := (h.enclosed r hr).header_le
    have hstop := (h.enclosed r hr).stop_le
    rw [of_decide_eq_true hg] at hstop
    exact ⟨by rw [SegmentRecord.start]; omega, hstop⟩

/-! ## The invariant -/

/-- Without ranges, a tail and records there is little to ask for. -/
lemma StoreInvariant.empty {ram : Ram} {d : Disk} (hranges : ram.manifestRanges = [])
    (hactive : ram.activeGeneration = 0) (hgens : ram.activeGenerations = [])
    (hrec : ram.records = []) (hslots : ∀ s, Disk.manifest d s = none) : StoreInvariant ram d where
  nonempty _ h := absurd (hranges ▸ h) List.not_mem_nil
  disjoint := hranges ▸ List.Pairwise.nil
  zero _ h := absurd (hranges ▸ h) List.not_mem_nil
  tail _ h := absurd (hranges ▸ h) List.not_mem_nil
  count := hranges ▸ Nat.zero_le _
  next _ h := absurd (hgens ▸ h) List.not_mem_nil
  generations := by rw [hgens, hranges, if_pos hactive]; rfl
  winner := by rw [Disk.elected, hslots, hslots, if_pos hactive]; rfl
  located _ h := absurd (hrec ▸ h) List.not_mem_nil
  apart := hrec ▸ List.Pairwise.nil
  live_le g h := by rw [hranges] at h; exact absurd h List.not_mem_nil
  stats s h := by rw [Ram.segmentStats, hranges] at h; exact absurd h List.not_mem_nil

lemma Coherent.invariant {cfg : AppendLogConfig} {ram : Ram} {d : Disk} (h : Coherent cfg ram d)
    (hel : Elects ram d) : StoreInvariant ram d := by
  have hv := h.generations.ranges_valid
  have hextent : ∀ g ∈ rangeGens ram.manifestRanges,
      ram.extent g = (ram.sealedSegmentBytes g).getD 0 := fun g hg =>
    Ram.extent_of_ne fun he => h.generations.tail_not_sealed (he ▸ hg)
  have hlive : ∀ g ∈ rangeGens ram.manifestRanges,
      ram.liveBytes g ≤ (ram.sealedSegmentBytes g).getD 0 := fun g hg => by
    rw [← hextent g hg]
    exact h.placed.liveBytes_le (h.extents g (Ram.mem_gens.2 (.inl hg))).1
  have hapart : ram.records.Pairwise SegmentRecord.Apart :=
    (List.pairwise_map.1 h.placed.nodup).imp_of_mem fun hr hs hne => h.placed.apart _ hr _ hs hne
  obtain ⟨slot, -, hp⟩ := hel
  refine ⟨fun r hr => (hv r hr).2.1, ranges_disjoint hv h.generations.ranges_nodup,
    fun r hr => Nat.pos_of_ne_zero (hv r hr).1, fun r hr => ?_, h.generations.count, fun g hg => ?_,
    ?_, ?_, fun r hr => ?_, hapart.imp_of_mem fun {r s} hr hs ha hgen => ?_, hlive, fun s hs => ?_⟩
  · by_contra hin
    rw [not_or, not_lt, not_lt] at hin
    refine h.generations.tail_not_sealed (List.mem_flatMap.2 ⟨r, hr, ?_⟩)
    rw [ManifestRange.gens, List.mem_range'_1]
    omega
  · rw [h.active] at hg
    exact h.generations.below g hg
  · rw [h.active, if_neg h.generations.tail_ne]
    rfl
  · rw [hp.elected, if_neg h.generations.tail_ne]
  · have hmem := h.enclosed.mem r hr
    obtain ⟨data, hdata, hle⟩ := h.held _ hmem
    have hstop := (h.enclosed r hr).stop_le
    rw [SegmentRecord.stop] at hstop
    exact ⟨h.active ▸ hmem, data, hdata, by omega, hle⟩
  · have hr := (h.enclosed r hr).header_le
    have hs := (h.enclosed s hs).header_le
    have ha := ha hgen
    simp only [SegmentRecord.stop, SegmentRecord.start] at ha
    omega
  · obtain ⟨g, hg, rfl⟩ := List.mem_map.1 hs
    have hlt : (ram.sealedSegmentBytes g).getD 0 < 2 ^ 32 := by
      rw [← hextent g hg]
      exact (h.extents g (Ram.mem_gens.2 (.inl hg))).2
    have hle := hlive g hg
    have hfit : ∀ r ∈ ram.records.filter fun r => r.segmentGeneration = g,
        u32 (kEnqueueOverheadBytes + r.payloadBytes) = kEnqueueOverheadBytes + r.payloadBytes := by
      intro r hr
      have := (h.enclosed.fits r (List.mem_of_mem_filter hr)).2.2
      exact u32_of_lt (by omega)
    have hsum : ((ram.records.filter fun r => r.segmentGeneration = g).map
        fun r => kEnqueueOverheadBytes + r.payloadBytes).sum < 2 ^ 32 := by
      rw [Ram.liveBytes] at hle
      omega
    simp only
    rw [List.map_congr_left hfit, sumU32_eq, u32_of_lt hsum]
    exact (Nat.mod_le _ _).trans hle

lemma Kept.invariant {cfg : AppendLogConfig} {ram : Ram} {d : Disk} (h : Kept cfg ram d) :
    StoreInvariant ram d := by
  rcases h with h | ⟨⟨h, hu⟩ | ⟨h, hel⟩, -⟩
  · exact .empty h.ranges h.active h.gens h.records h.manifest
  · exact .empty h.ranges h.active h.gens h.records hu.2
  · exact h.invariant hel

/-! ## Runs -/

/-- No 32-bit offset, segment size, generation or epoch wraps at a marked point. -/
def NoWrap (mk : StoreMark) (_ : Disk) : Prop := Within unbounded mk

instance (mk : StoreMark) (d : Disk) : Decidable (NoWrap mk d) :=
  inferInstanceAs (Decidable (Within unbounded mk))

/-- Generations stay below the last one. -/
def FewGenerations : StoreMark → Disk → Prop
  | .allocate gen, _ => gen + 1 < 2 ^ 32
  | _, _ => True

instance : (mk : StoreMark) → (d : Disk) → Decidable (FewGenerations mk d)
  | .allocate gen, _ => inferInstanceAs (Decidable (gen + 1 < 2 ^ 32))
  | .compactRange .., _ | .publish .., _ | .append .., _ | .pack _, _ => .isTrue trivial

/-- **The manifest and index invariant.**  It holds in every state of every run, whatever calls
fail, in which no offset, segment size or epoch wraps and every format removes both slots. -/
theorem store_invariant {env : Env} {cfg : AppendLogConfig} {ram : Ram} {w : World}
    (h : StoreRun env cfg partialWrite NoWrap SlotsRemoved ram w) : StoreInvariant ram w.disk :=
  (h.kept damaging_partialWrite tearsSlots_partialWrite fun _ _ => id).invariant

/-- A configuration without budgets, with room for two small records in a segment. -/
def smallSegments : AppendLogConfig :=
  { AppendLogConfig.unlimited with
    maxSegmentBytes := 72, maxRecordBytes := 100
    maxSegmentBytes_lt := by decide }

/-- Two records of one segment and one of the next, of which the first is popped in a second try;
the fourth opens another segment, and the compaction seals it and moves all that are left. -/
def compactedOps : List (StoreOp × (FsCall → World → Option World)) :=
  [(.enqueue 1 [7], allComplete), (.enqueue 1 [8, 9], allComplete), (.enqueue 1 [5], allComplete),
    (.pop 0, writesStop 9), (.pop 0, allComplete), (.enqueue 1 [4], allComplete),
    (.compactOneSegment .no, allComplete)]

theorem store_invariant_compacted : ∃ ram w, StoreRun (plainEnv .posix) smallSegments partialWrite
    NoWrap SlotsRemoved ram w ∧ ram.records = [⟨1, 5, 36, 2⟩, ⟨2, 5, 62, 1⟩, ⟨3, 6, 36, 1⟩] ∧
      ram.manifestRanges = [⟨5, 6⟩] ∧ StoreInvariant ram w.disk := by
  have hrun : (storeTrial smallSegments NoWrap compactedOps {} ⟨∅, 0, false⟩).map
      (fun x => (x.1.records, x.1.manifestRanges)) =
        some ([⟨1, 5, 36, 2⟩, ⟨2, 5, 62, 1⟩, ⟨3, 6, 36, 1⟩], [⟨5, 6⟩]) := by
    decide +kernel
  obtain ⟨⟨ram, w⟩, ht, hx⟩ := Option.map_eq_some_iff.1 hrun
  obtain ⟨hrecords, hranges⟩ := Prod.mk.inj hx
  have hfails : ∀ op ∈ compactedOps, ∀ c w w', op.2 c w = some w' →
      partialWrite c w.disk w'.disk := by
    intro op hop c w w' hw
    have hops : op.2 = allComplete ∨ op.2 = writesStop 9 := by
      revert op
      simp [compactedOps]
    rcases hops with h | h
    · rw [h] at hw
      cases hw
    · rw [h] at hw
      exact partialWrite_of_torn hw
  have hdone : StoreRun (plainEnv .posix) smallSegments partialWrite NoWrap SlotsRemoved ram w := by
    refine storeTrial_invariant hfails ?_ (.start rfl) ht
    intro op hop ram w r ram' w' h he
    refine h.step he ?_
    revert op
    simp [compactedOps, SlotsRemoved]
  exact ⟨ram, w, hdone, hrecords, hranges, store_invariant hdone⟩

/-- A configuration without budgets, with segments and records of gigabytes. -/
def hugeSegments : AppendLogConfig :=
  { AppendLogConfig.unlimited with maxRecordBytes := 2 ^ 31 }

lemma TailIs.index_tail {ram : Ram} {d : Disk} {gen bytes : ℕ} {data : Bytes}
    {rs : List SegmentRecord} {r : SegmentRecord} (h : TailIs ram d gen bytes data (rs ++ [r])) :
    ram.index.tail = u32 (r.sequence + 1) := by
  rw [Ram.index, h.records, List.getLast?_concat]
  cases rs <;> rfl

/-- Two records of 2 GiB, of which the second passes the end of the 32-bit offsets, and a third
that is written over the first. -/
theorem store_invariant_wraps : ∃ ram w, StoreRun (plainEnv .posix) hugeSegments partialWrite
    FewGenerations SlotsRemoved ram w ∧ ¬StoreInvariant ram w.disk := by
  obtain ⟨big, hbig⟩ : ∃ b : Bytes, b.length = 2 ^ 31 := ⟨List.replicate _ 0, List.length_replicate⟩
  have hok : PayloadOk hugeSegments big := by
    refine ⟨hbig.le, ?_⟩
    rw [hbig]
    decide
  obtain ⟨data₁, h₁⟩ : ∃ data, May (plainEnv .posix) partialWrite FewGenerations
      ((StoreOp.enqueue 0 big).method hugeSegments) (fun r ram w => r = .ok () ∧
        TailIs ram w.disk 1 (2 ^ 31 + 44) data ([] ++ [⟨0, 1, 36, 2 ^ 31⟩])) {} ⟨∅, 0, false⟩ := by
    have := @may_enqueue_first (plainEnv .posix) hugeSegments partialWrite FewGenerations
      ⟨∅, 0, false⟩ 0 big rfl hok rfl rfl (fun _ => (by decide : 1 + 1 < 2 ^ 32))
      (fun _ => trivial) fun _ => trivial
    rw [hbig] at this
    exact ⟨_, this⟩
  obtain ⟨_, ram₁, w₁, he₁, -, ht₁⟩ := h₁.executes
  obtain ⟨data₂, h₂⟩ : ∃ data, May (plainEnv .posix) partialWrite FewGenerations
      ((StoreOp.enqueue 0 big).method hugeSegments) (fun r ram w => r = .ok () ∧
        TailIs ram w.disk 1 68 data ([⟨0, 1, 36, 2 ^ 31⟩] ++ [⟨1, 1, 2 ^ 31 + 60, 2 ^ 31⟩]))
      ram₁ w₁ := by
    have := @may_enqueue (plainEnv .posix) hugeSegments partialWrite FewGenerations ram₁ w₁ _ 1 _ _
      0 big ht₁ hok rfl rfl (by decide) (by rw [hbig]; decide) _ ht₁.index_tail (by decide) trivial
    rw [hbig] at this
    exact ⟨_, this⟩
  obtain ⟨_, ram₂, w₂, he₂, -, ht₂⟩ := h₂.executes
  obtain ⟨_, ram₃, w₃, he₃, -, ht₃⟩ := (@may_enqueue (plainEnv .posix) hugeSegments partialWrite
    FewGenerations ram₂ w₂ _ 1 _ _ 0 [0] ht₂ ⟨by decide, by decide⟩ rfl rfl (by decide) (by decide)
    _ ht₂.index_tail (by decide) trivial).executes
  refine ⟨ram₃, w₃, .step (.step (.step (.start rfl) he₁ trivial) he₂ trivial) he₃ trivial,
    fun hinv => ?_⟩
  have hapart := hinv.apart
  rw [ht₃.records] at hapart
  -- the payloads of the first record and the third
  have := (List.pairwise_cons.1 hapart).1 ⟨2, 1, 84, 1⟩ (by decide) rfl
  revert this
  decide

end Pqueue
