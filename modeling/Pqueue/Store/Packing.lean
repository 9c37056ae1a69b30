import Mathlib.Data.List.Dedup
import Pqueue.Store.Splice

/-!
# Collecting and packing the live records

Reading the payloads of the live records and distributing them over output segments.  The packed
segments hold the collected records in order (`flatMap_packOutput`), under consecutive
generations (`consecutive_packOutput`), each as a log of ENQUEUE events (`OutputSeg.data_eq`).
-/

namespace Pqueue

open Effect LittleEndian

/-! ## Collecting -/

/-- `collectFrom` as a function of the directory, when the files are there. -/
def Disk.collectFrom (d : Disk) (records : List SegmentRecord) :
    List ℕ → Option (List CompactionLiveRecord)
  | [] => some []
  | gen :: gens => do
    let lrs ← cutPayloads ((d.lookup (segmentName gen)).getD [])
      (records.filter fun sr => sr.segmentGeneration = gen)
    let rest ← Disk.collectFrom d records gens
    return lrs ++ rest

/-- The generations that `collectLiveRecords` reads. -/
def Ram.liveGens (ram : Ram) (r : CompactionRange) : List ℕ :=
  (((ram.liveIn r).map (·.segmentGeneration)).dedup).insertionSort (· ≤ ·)

/-- `collectLiveRecords` as a function of the object and the directory. -/
def Ram.collect (d : Disk) (ram : Ram) (r : CompactionRange) : Option (List CompactionLiveRecord) :=
  (Disk.collectFrom d (ram.liveIn r) (ram.liveGens r)).map fun out =>
    out.insertionSort fun a b => a.sequence ≤ b.sequence

lemma mem_liveIn {ram : Ram} {r : CompactionRange} {sr : SegmentRecord} :
    sr ∈ ram.liveIn r ↔ sr ∈ ram.records ∧ r.Contains sr.segmentGeneration := by
  rw [Ram.liveIn, List.mem_filter, decide_eq_true_eq]

lemma mem_liveGens {ram : Ram} {r : CompactionRange} {g : ℕ} :
    g ∈ ram.liveGens r ↔ ∃ sr ∈ ram.liveIn r, sr.segmentGeneration = g := by
  rw [Ram.liveGens, List.mem_insertionSort, List.mem_dedup, List.mem_map]

/-- Nothing is collected when nothing is live. -/
lemma Ram.collect_of_liveIn_nil {d : Disk} {ram : Ram} {r : CompactionRange}
    (h : ram.liveIn r = []) : ram.collect d r = some [] := by
  rw [Ram.collect, Ram.liveGens, h]
  rfl

/-- A record whose copy can be written. -/
def CompactionLiveRecord.event (lr : CompactionLiveRecord) : LogEvent :=
  .enqueue lr.sequence lr.payload

lemma cutPayloads_fits {cfg : AppendLogConfig} {buf : Bytes} {records : List SegmentRecord}
    (hf : ∀ r ∈ records, r.Fits cfg) {lrs : List CompactionLiveRecord}
    (h : cutPayloads buf records = some lrs) :
    ∀ lr ∈ lrs, lr.event.Fits cfg.maxRecordBytes := by
  induction records generalizing lrs with
  | nil =>
    obtain rfl := Option.some.inj h
    exact fun _ hlr => absurd hlr List.not_mem_nil
  | cons r records ih =>
    rw [cutPayloads] at h
    split at h
    · cases h
    · obtain ⟨rest, hrest, rfl⟩ := Option.map_eq_some_iff.1 h
      intro lr hlr
      rcases List.mem_cons.1 hlr with rfl | hlr
      · obtain ⟨h1, h2, h3⟩ := hf r (List.mem_cons_self ..)
        have hle : ((buf.drop r.payloadOffset).take r.payloadBytes).length ≤ r.payloadBytes :=
          List.length_take_le ..
        exact ⟨h1, hle.trans h2, by simp only; omega⟩
      · exact ih (fun r' hr' => hf r' (List.mem_cons_of_mem _ hr')) hrest lr hlr

lemma Ram.collect_fits {cfg : AppendLogConfig} {d : Disk} {ram : Ram} {r : CompactionRange}
    (hf : ∀ sr ∈ ram.records, sr.Fits cfg) {live : List CompactionLiveRecord}
    (h : ram.collect d r = some live) : ∀ lr ∈ live, lr.event.Fits cfg.maxRecordBytes := by
  obtain ⟨out, hout, rfl⟩ := Option.map_eq_some_iff.1 h
  have hall : ∀ (gens : List ℕ) (lrs : List CompactionLiveRecord),
      Disk.collectFrom d (ram.liveIn r) gens = some lrs →
        ∀ lr ∈ lrs, lr.event.Fits cfg.maxRecordBytes := by
    intro gens
    induction gens with
    | nil =>
      intro lrs hl
      obtain rfl := Option.some.inj hl
      exact fun _ hlr => absurd hlr List.not_mem_nil
    | cons g gens ih =>
      intro lrs hl lr hlr
      simp only [Disk.collectFrom, Option.bind_eq_bind, Option.pure_def,
        Option.bind_eq_some_iff] at hl
      obtain ⟨xs, hxs, ys, hys, hl⟩ := hl
      obtain rfl := Option.some.inj hl
      rcases List.mem_append.1 hlr with hlr | hlr
      · exact cutPayloads_fits
          (fun sr hsr => hf sr (mem_liveIn.1 (List.mem_filter.1 hsr).1).1) hxs lr hlr
      · exact ih ys hys lr hlr
  exact fun lr hlr => hall _ _ hout lr ((List.mem_insertionSort _).1 hlr)

/-! ## Output segments -/

/-- The log of an output segment. -/
def OutputSeg.log (seg : OutputSeg) : List LogEvent := seg.records.map CompactionLiveRecord.event

/-- The sequence an output segment is labelled with. -/
def OutputSeg.startSeq (seg : OutputSeg) : ℕ := (seg.records.head?.map (·.sequence)).getD 0

lemma OutputSeg.data_eq (seg : OutputSeg) :
    seg.data = segmentData seg.gen seg.startSeq seg.log [] := by
  have h : ∀ lrs : List CompactionLiveRecord,
      (lrs.flatMap fun lr => serializeEnqueueEvent lr.sequence lr.payload) =
        encodeEvents (lrs.map CompactionLiveRecord.event) := by
    intro lrs
    induction lrs with
    | nil => rfl
    | cons lr lrs ih =>
      rw [List.flatMap_cons, ih]
      rfl
  rw [OutputSeg.data, segmentData, h, List.append_nil]
  rfl

lemma OutputSeg.startSeq_lt {m : ℕ} (seg : OutputSeg)
    (h : ∀ lr ∈ seg.records, lr.event.Fits m) : seg.startSeq < 2 ^ 32 := by
  rw [OutputSeg.startSeq]
  cases hhead : seg.records.head? with
  | none => exact Nat.two_pow_pos 32
  | some lr => exact (h lr (List.mem_of_head? hhead)).1

lemma OutputSeg.length_data (seg : OutputSeg) : seg.data.length = logBytes seg.log := by
  rw [OutputSeg.data_eq, length_segmentData, List.length_nil, Nat.add_zero]

/-- The segments have consecutive 32-bit generations. -/
def Consecutive : ℕ → List OutputSeg → Prop
  | _, [] => True
  | gen, seg :: segs => seg.gen = gen ∧ Consecutive (u32 (gen + 1)) segs

section Pack

variable {cfg : AppendLogConfig}

lemma packOutput_ne_nil (gen segBytes : ℕ) (packed lrs : List CompactionLiveRecord) :
    packOutput cfg gen segBytes packed lrs ≠ [] := by
  induction lrs generalizing gen segBytes packed with
  | nil => exact List.cons_ne_nil _ _
  | cons lr lrs ih =>
    rw [packOutput]
    split
    · exact List.cons_ne_nil _ _
    · exact ih _ _ _

/-- The output holds the records that were packed, in order. -/
lemma flatMap_packOutput (gen segBytes : ℕ) (packed lrs : List CompactionLiveRecord) :
    (packOutput cfg gen segBytes packed lrs).flatMap OutputSeg.records = packed ++ lrs := by
  induction lrs generalizing gen segBytes packed with
  | nil =>
    rw [packOutput, List.flatMap_singleton, List.append_nil]
  | cons lr lrs ih =>
    rw [packOutput]
    split
    · rw [List.flatMap_cons, ih, List.singleton_append]
    · rw [ih, List.append_assoc, List.singleton_append]

lemma consecutive_packOutput (gen segBytes : ℕ) (packed lrs : List CompactionLiveRecord) :
    Consecutive gen (packOutput cfg gen segBytes packed lrs) := by
  induction lrs generalizing gen segBytes packed with
  | nil => exact ⟨rfl, trivial⟩
  | cons lr lrs ih =>
    rw [packOutput]
    split
    · exact ⟨rfl, ih ..⟩
    · exact ih ..

end Pack

/-- Without a wrap the generations are a range. -/
lemma Consecutive.gens {gen : ℕ} {segs : List OutputSeg} (h : Consecutive gen segs)
    (hlt : ∀ seg ∈ segs, seg.gen + 1 < 2 ^ 32) :
    segs.map OutputSeg.gen = List.range' gen segs.length := by
  induction segs generalizing gen with
  | nil => rfl
  | cons seg segs ih =>
    obtain ⟨rfl, hrest⟩ := h
    rw [u32_of_lt (hlt seg (List.mem_cons_self ..))] at hrest
    rw [List.map_cons, ih hrest fun s hs => hlt s (List.mem_cons_of_mem _ hs), List.length_cons,
      List.range'_succ]

/-- The locations of an output segment are those of its log. -/
lemma OutputSeg.locations_eq {cfg : AppendLogConfig} (seg : OutputSeg)
    (hf : ∀ lr ∈ seg.records, lr.event.Fits cfg.maxRecordBytes) (hsize : seg.data.length < 2 ^ 32) :
    seg.locations.map QueueLog.Event.push = locate seg.gen kSegmentHeaderBytes seg.log := by
  have h : ∀ (lrs : List CompactionLiveRecord) (offset : ℕ),
      (∀ lr ∈ lrs, lr.event.Fits cfg.maxRecordBytes) →
      offset + (encodeEvents (lrs.map CompactionLiveRecord.event)).length < 2 ^ 32 →
      (locateOutput seg.gen offset lrs).map QueueLog.Event.push =
        locate seg.gen offset (lrs.map CompactionLiveRecord.event) := by
    intro lrs
    induction lrs with
    | nil => exact fun _ _ _ => rfl
    | cons lr lrs ih =>
      intro offset hfit hlt
      obtain ⟨-, -, hlen⟩ := hfit lr (List.mem_cons_self ..)
      have henc : lr.event.encode.length = kEnqueueOverheadBytes + lr.payload.length :=
        length_serializePayloadEvent ..
      rw [List.map_cons, encodeEvents_cons, List.length_append, henc] at hlt
      simp only [kEnqueueOverheadBytes, kEnqueueHeaderBytes, kEventTrailerBytes] at hlen hlt henc
      have h1 : u32 lr.payload.length = lr.payload.length := u32_of_lt (by omega)
      have h2 : u32 (offset + kEnqueueHeaderBytes) = offset + kEnqueueHeaderBytes := u32_of_lt (by
        simp only [kEnqueueHeaderBytes]
        omega)
      have h3 : u32 (kEnqueueOverheadBytes + lr.payload.length) = lr.event.encode.length := by
        rw [henc]
        exact u32_of_lt (by
          simp only [kEnqueueOverheadBytes, kEnqueueHeaderBytes, kEventTrailerBytes]
          omega)
      have h4 : u32 (offset + lr.event.encode.length) = offset + lr.event.encode.length :=
        u32_of_lt (by omega)
      rw [locateOutput, List.map_cons, List.map_cons, locate, h1, h2, h3, h4,
        ih _ (fun lr' hlr' => hfit lr' (List.mem_cons_of_mem _ hlr')) (by rw [henc]; omega)]
      rfl
  refine h seg.records _ hf ?_
  rw [OutputSeg.length_data, logBytes] at hsize
  exact hsize

end Pqueue
