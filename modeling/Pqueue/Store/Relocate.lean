import Pqueue.Store.Placement
import Pqueue.Store.Generations

/-!
# Records after a compaction

The payloads that a compaction collects are those of the live records of its input
(`collect_perm`), and it writes them apart from each other in its output (`OutputPlaces`).  So
moving the records to the output keeps them placed and what is read of them
(`Compacts.placed`, `Compacts.view`).
-/

namespace Pqueue

open Effect LittleEndian

/-! ## Collecting -/

/-- The sequence and the payload of a collected record. -/
def CompactionLiveRecord.keyed (lr : CompactionLiveRecord) : ℕ × Bytes := (lr.sequence, lr.payload)

/-- A list is a permutation of its parts by the values of `f`. -/
lemma flatMap_filter_perm {α : Type} {f : α → ℕ} {gens : List ℕ} (hn : gens.Nodup) {l : List α}
    (h : ∀ a ∈ l, f a ∈ gens) : (gens.flatMap fun g => l.filter fun a => f a = g).Perm l := by
  induction gens generalizing l with
  | nil =>
    cases l with
    | nil => exact .refl _
    | cons a l => exact absurd (h a (List.mem_cons_self ..)) List.not_mem_nil
  | cons g gens ih =>
    obtain ⟨hg, hn⟩ := List.nodup_cons.1 hn
    have hrest : (gens.flatMap fun g' => l.filter fun a => f a = g') =
        gens.flatMap fun g' => (l.filter fun a => ¬f a = g).filter fun a => f a = g' := by
      refine List.flatMap_congr fun g' hg' => ?_
      rw [List.filter_filter]
      refine List.filter_congr fun a _ => ?_
      have hne : g' ≠ g := fun he => hg (he ▸ hg')
      by_cases ha : f a = g'
      · simp [ha, hne]
      · simp [ha]
    rw [List.flatMap_cons, hrest]
    refine ((ih hn fun a ha => ?_).append_left _).trans ?_
    · obtain ⟨hm, hne⟩ := List.mem_filter.1 ha
      exact (List.mem_cons.1 (h a hm)).resolve_left (by simpa using hne)
    · have hp := List.filter_append_perm (fun a => decide (f a = g)) l
      simpa only [decide_not] using hp

section Collect

variable {d : Disk} {ram : Ram} {input : CompactionRange}

lemma cutPayloads_keyed {buf : Bytes} {rs : List SegmentRecord} {lrs : List CompactionLiveRecord}
    (hbuf : ∀ r ∈ rs, (d.lookup (segmentName r.segmentGeneration)).getD [] = buf)
    (h : cutPayloads buf rs = some lrs) :
    lrs.map CompactionLiveRecord.keyed = rs.map (SegmentRecord.view d) := by
  induction rs generalizing lrs with
  | nil =>
    obtain rfl := Option.some.inj h
    rfl
  | cons r rs ih =>
    rw [cutPayloads] at h
    split at h
    · cases h
    · obtain ⟨rest, hrest, rfl⟩ := Option.map_eq_some_iff.1 h
      rw [List.map_cons, List.map_cons,
        ih (fun r' hr' => hbuf r' (List.mem_cons_of_mem _ hr')) hrest,
        SegmentRecord.view, hbuf r (List.mem_cons_self ..), CompactionLiveRecord.keyed]

lemma collectFrom_keyed {rs : List SegmentRecord} {gens : List ℕ}
    {lrs : List CompactionLiveRecord} (h : Disk.collectFrom d rs gens = some lrs) :
    lrs.map CompactionLiveRecord.keyed =
      (gens.flatMap fun g => rs.filter fun r => r.segmentGeneration = g).map
        (SegmentRecord.view d) := by
  induction gens generalizing lrs with
  | nil =>
    obtain rfl := Option.some.inj h
    rfl
  | cons g gens ih =>
    simp only [Disk.collectFrom, Option.bind_eq_bind, Option.pure_def,
      Option.bind_eq_some_iff] at h
    obtain ⟨xs, hxs, ys, hys, h⟩ := h
    obtain rfl := Option.some.inj h
    rw [List.map_append, ih hys, List.flatMap_cons, List.map_append]
    refine congrArg (· ++ _) (cutPayloads_keyed (fun r hr => ?_) hxs)
    rw [of_decide_eq_true (List.mem_filter.1 hr).2]

/-- What is collected is what the live records of the input hold. -/
lemma collect_perm {live : List CompactionLiveRecord} (h : ram.collect d input = some live) :
    (live.map CompactionLiveRecord.keyed).Perm ((ram.liveIn input).map (SegmentRecord.view d)) := by
  obtain ⟨out, hout, rfl⟩ := Option.map_eq_some_iff.1 h
  refine ((List.perm_insertionSort _ out).map _).trans ?_
  rw [collectFrom_keyed hout]
  refine List.Perm.map _ (flatMap_filter_perm ?_ fun r hr => mem_liveGens.2 ⟨r, hr, rfl⟩)
  exact (List.perm_insertionSort _ _).nodup_iff.2 (List.nodup_dedup _)

end Collect

/-! ## The output -/

section Output

variable {cfg : AppendLogConfig} {out : List OutputSeg}

/-- The locations of an output segment, within its bytes and apart. -/
lemma OutputSeg.locations_spec (o : OutputSeg)
    (hf : ∀ lr ∈ o.records, lr.event.Fits cfg.maxRecordBytes) (hsize : o.data.length < 2 ^ 32) :
    (∀ r ∈ o.locations, r.segmentGeneration = o.gen ∧
      kSegmentHeaderBytes + kEnqueueHeaderBytes ≤ r.payloadOffset ∧ r.stop ≤ o.data.length) ∧
    o.locations.Pairwise fun r r' => r.stop ≤ r'.start := by
  have heq := o.locations_eq hf hsize
  have hmem : ∀ r ∈ o.locations,
      QueueLog.Event.push r ∈ locate o.gen kSegmentHeaderBytes o.log := fun r hr => by
    rw [← heq]
    exact List.mem_map_of_mem hr
  refine ⟨fun r hr => ?_, ?_⟩
  · obtain ⟨h1, h2⟩ := locate_bounds (hmem r hr) (.inl rfl)
    rw [OutputSeg.length_data, logBytes]
    exact ⟨located_writes (hmem r hr) (.inl rfl), h1, h2⟩
  · have hp := locate_pairwise o.gen kSegmentHeaderBytes o.log
    rw [← heq, List.pairwise_map] at hp
    exact hp.imp fun h => h _ _ (.inl rfl) (.inl rfl)

/-- What is read at the locations of an output segment is what was packed into it. -/
lemma OutputSeg.view_locations {d : Disk} (o : OutputSeg)
    (hf : ∀ lr ∈ o.records, lr.event.Fits cfg.maxRecordBytes) (hsize : o.data.length < 2 ^ 32)
    (hd : d.lookup (segmentName o.gen) = some o.data) :
    o.locations.map (SegmentRecord.view d) = o.records.map CompactionLiveRecord.keyed := by
  have hlog : d.lookup (segmentName o.gen) = some
      (serializeSegmentHeader o.gen o.startSeq ++ (encodeEvents o.log ++ [])) := by
    rw [hd, o.data_eq]
    rfl
  have hv := view_locate hlog
  rw [length_serializeSegmentHeader, ← o.locations_eq hf hsize, List.map_map, OutputSeg.log,
    List.map_map] at hv
  have hinj : Function.Injective fun x : ℕ × Bytes =>
      (QueueLog.Event.push x : QueueLog.Event ℕ _) :=
    fun _ _ h => QueueLog.Event.push.inj h
  refine List.map_injective_iff.2 hinj ?_
  rw [List.map_map, List.map_map]
  exact hv

lemma OutputSeg.fits_locations (o : OutputSeg)
    (hf : ∀ lr ∈ o.records, lr.event.Fits cfg.maxRecordBytes) :
    ∀ r ∈ o.locations, r.Fits cfg := by
  have h : ∀ (lrs : List CompactionLiveRecord) (offset : ℕ),
      (∀ lr ∈ lrs, lr.event.Fits cfg.maxRecordBytes) →
        ∀ r ∈ locateOutput o.gen offset lrs, r.Fits cfg := by
    intro lrs
    induction lrs with
    | nil => exact fun _ _ r hr => absurd hr List.not_mem_nil
    | cons lr lrs ih =>
      intro offset hfit r hr
      rcases List.mem_cons.1 hr with rfl | hr
      · obtain ⟨h1, h2, h3⟩ := hfit lr (List.mem_cons_self ..)
        have hu : u32 lr.payload.length = lr.payload.length := u32_of_lt (by omega)
        simp only [SegmentRecord.Fits, hu]
        exact ⟨h1, h2, h3⟩
      · exact ih _ (fun lr' hlr' => hfit lr' (List.mem_cons_of_mem _ hlr')) r hr
  exact h o.records _ hf

end Output

/-! ## What is written -/

lemma OutputMarks.sizes {A : StoreMark → Disk → Prop} {out : List OutputSeg} {d : Disk}
    (hA : ∀ mk d, A mk d → OffsetsFit mk) (h : OutputMarks A out d) :
    ∀ o ∈ out, o.data.length < 2 ^ 32 := by
  induction out generalizing d with
  | nil => exact fun _ ho => absurd ho List.not_mem_nil
  | cons x xs ih =>
    obtain ⟨-, hpack, hrest⟩ := h
    intro o ho
    rcases List.mem_cons.1 ho with rfl | ho
    · have hle : o.data.length ≤ 2 ^ 32 - 1 := hA _ _ hpack
      omega
    · exact ih hrest o ho

namespace Compacts

variable {cfg : AppendLogConfig} {harm : FsCall → Disk → Disk → Prop} {A : StoreMark → Disk → Prop}
  {ram₀ ram : Ram} {d₀ d : Disk} {plan : CompactionPlan} {idx : ℕ} {parent : ManifestRange}
  {input : CompactionRange} {live : List CompactionLiveRecord} {out : List OutputSeg}

lemma gen_lt (h : Compacts cfg harm A ram₀ d₀ plan ram d idx parent input live out) :
    ∀ o ∈ out, o.gen < 2 ^ 32 := fun o ho => Nat.lt_of_succ_lt (h.gens_lt o ho)

lemma nodup (h : Compacts cfg harm A ram₀ d₀ plan ram d idx parent input live out) :
    (out.map OutputSeg.gen).Nodup := by
  rw [h.gens]
  exact List.nodup_range'

/-- The output holds what was collected. -/
lemma output_records (h : Compacts cfg harm A ram₀ d₀ plan ram d idx parent input live out) :
    out.flatMap OutputSeg.records = live := by
  rw [h.output, compactionOutput]
  split
  · next hnil => rw [hnil, List.flatMap_nil]
  · rw [flatMap_packOutput, List.nil_append]

lemma output_fits (h : Compacts cfg harm A ram₀ d₀ plan ram d idx parent input live out)
    (hf : ∀ r ∈ ram.records, r.Fits cfg) :
    ∀ o ∈ out, ∀ lr ∈ o.records, lr.event.Fits cfg.maxRecordBytes := by
  intro o ho lr hlr
  refine Ram.collect_fits hf h.collected lr ?_
  rw [← h.output_records]
  exact List.mem_flatMap.2 ⟨o, ho, hlr⟩

/-- What is read at the new places, once the output is written, is what was collected. -/
lemma view_locations (h : Compacts cfg harm A ram₀ d₀ plan ram d idx parent input live out)
    (hf : ∀ r ∈ ram.records, r.Fits cfg) (hsize : ∀ o ∈ out, o.data.length < 2 ^ 32) {d' : Disk}
    (hd : ∀ o ∈ out, d'.lookup (segmentName o.gen) = some o.data) :
    (out.flatMap OutputSeg.locations).map (SegmentRecord.view d') =
      live.map CompactionLiveRecord.keyed := by
  rw [← h.output_records, List.map_flatMap, List.map_flatMap]
  exact List.flatMap_congr fun o ho =>
    o.view_locations (h.output_fits hf o ho) (hsize o ho) (hd o ho)

/-- Every live record of the input has a new place, where what was read is read. -/
lemma exists_place (h : Compacts cfg harm A ram₀ d₀ plan ram d idx parent input live out)
    (hf : ∀ r ∈ ram.records, r.Fits cfg) (hsize : ∀ o ∈ out, o.data.length < 2 ^ 32) {d' : Disk}
    (hd : ∀ o ∈ out, d'.lookup (segmentName o.gen) = some o.data) {r : SegmentRecord}
    (hr : r ∈ ram.records) (hin : input.Contains r.segmentGeneration) :
    ∃ rep ∈ out.flatMap OutputSeg.locations, rep.view d' = r.view d := by
  have hperm := collect_perm h.collected
  rw [← h.view_locations hf hsize hd] at hperm
  have hlive : r ∈ ram.liveIn input := mem_liveIn.2 ⟨hr, hin⟩
  exact List.mem_map.1 (hperm.mem_iff.2 (List.mem_map_of_mem (f := SegmentRecord.view d) hlive))

/-- Where sequences are distinct, it is found by the sequence. -/
lemma place (h : Compacts cfg harm A ram₀ d₀ plan ram d idx parent input live out)
    (hf : ∀ r ∈ ram.records, r.Fits cfg) (hn : (ram.records.map (·.sequence)).Nodup)
    (hsize : ∀ o ∈ out, o.data.length < 2 ^ 32) {d' : Disk}
    (hd : ∀ o ∈ out, d'.lookup (segmentName o.gen) = some o.data) {r : SegmentRecord}
    (hr : r ∈ ram.records) (hin : input.Contains r.segmentGeneration) :
    ∃ rep, (out.flatMap OutputSeg.locations).find? (fun rep => rep.sequence = r.sequence) =
      some rep ∧ rep.view d' = r.view d := by
  obtain ⟨loc, hloc, hview⟩ := h.exists_place hf hsize hd hr hin
  cases hfind : (out.flatMap OutputSeg.locations).find? fun rep => rep.sequence = r.sequence with
  | none =>
    have hne := List.find?_eq_none.1 hfind loc hloc
    have hseq : loc.sequence = r.sequence := congrArg Prod.fst hview
    exact absurd hseq (by simpa using hne)
  | some rep =>
    refine ⟨rep, rfl, ?_⟩
    have hperm := collect_perm h.collected
    rw [← h.view_locations hf hsize hd] at hperm
    have hseq : rep.sequence = r.sequence := by simpa using List.find?_some hfind
    -- the new place shows some live record of the input, and its sequence tells which one
    obtain ⟨r', hr', hview'⟩ := List.mem_map.1 (hperm.mem_iff.1
      (List.mem_map_of_mem (f := SegmentRecord.view d') (List.mem_of_find?_eq_some hfind)))
    have hrr : r' = r := List.inj_on_of_nodup_map hn (mem_liveIn.1 hr').1 hr
      ((congrArg Prod.fst hview').trans hseq)
    rw [← hview', hrr]

end Compacts

end Pqueue
