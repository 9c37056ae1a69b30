import Pqueue.Store.Logs
import Pqueue.Store.Recovery

/-!
# The index is what the logs replay to

When no call fails, the index of an object is the replay of the logs in its directory (`Indexed`).
Logging an event and opening a segment always keep this.  A compaction keeps it when its input is
`Separable` from the segments before it: it pops no record that they leave open, and what is live in
it where it was rewritten is above those records.
-/

namespace Pqueue

open Effect LittleEndian

/-! ## Events on records that are there -/

/-- The sequence that an event pops. -/
def LogEvent.popped : LogEvent → Option ℕ
  | .pop sequence => some sequence
  | .enqueue .. | .rewrite .. => none

/-- The sequence that an event rewrites. -/
def LogEvent.rewritten : LogEvent → Option ℕ
  | .rewrite sequence _ => some sequence
  | .enqueue .. | .pop _ => none

/-- A located event is an event of the log at some offset. -/
lemma exists_of_mem_locate {gen offset : ℕ} {evs : List LogEvent}
    {e : QueueLog.Event ℕ SegmentRecord} (he : e ∈ locate gen offset evs) :
    ∃ ev ∈ evs, ∃ at', e = ev.located gen at' := by
  induction evs generalizing offset with
  | nil => cases he
  | cons ev evs ih =>
    rcases List.mem_cons.1 he with rfl | he
    · exact ⟨ev, List.mem_cons_self .., offset, rfl⟩
    · obtain ⟨ev', hev, h⟩ := ih he
      exact ⟨ev', List.mem_cons_of_mem _ hev, h⟩

/-- Every event of a log is located somewhere. -/
lemma exists_mem_locate (gen offset : ℕ) {evs : List LogEvent} {ev : LogEvent} (hev : ev ∈ evs) :
    ∃ at', ev.located gen at' ∈ locate gen offset evs := by
  induction evs generalizing offset with
  | nil => cases hev
  | cons ev' evs ih =>
    rcases List.mem_cons.1 hev with rfl | hev
    · exact ⟨offset, List.mem_cons_self ..⟩
    · obtain ⟨at', h⟩ := ih _ hev
      exact ⟨at', List.mem_cons_of_mem _ h⟩

lemma exists_of_mem_locatedLog {seg : ℕ → List LogEvent} {gens : List ℕ}
    {e : QueueLog.Event ℕ SegmentRecord} (he : e ∈ locatedLog seg gens) :
    ∃ g ∈ gens, ∃ ev ∈ seg g, ∃ offset, e = ev.located g offset := by
  obtain ⟨g, hg, hmem⟩ := List.mem_flatMap.1 he
  exact ⟨g, hg, exists_of_mem_locate hmem⟩

/-- A put comes from a REWRITE event in the segment its record names. -/
lemma rewrite_of_put {seg : ℕ → List LogEvent} {gens : List ℕ} {r : SegmentRecord}
    (h : .put r ∈ locatedLog seg gens) : r.segmentGeneration ∈ gens ∧
      ∃ payload, .rewrite r.sequence payload ∈ seg r.segmentGeneration := by
  obtain ⟨g, hg, ev, hev, offset, hloc⟩ := exists_of_mem_locatedLog h
  cases ev with
  | enqueue | pop => cases hloc
  | rewrite sequence payload =>
    have hr := QueueLog.Event.put.inj hloc
    rw [hr]
    exact ⟨hg, payload, hev⟩

/-- Where a record that a log leaves open was written. -/
lemma live_gen_mem {seg : ℕ → List LogEvent} {gens : List ℕ} {s : ℕ} {r : SegmentRecord}
    (h : QueueLog.live SegmentRecord.sequence (locatedLog seg gens) s none = some r) :
    r.segmentGeneration ∈ gens := by
  obtain ⟨-, e, he, hw⟩ := QueueLog.live_eq_write h
  exact locatedLog_writes he hw

/-! ## Compactions whose input is separable -/

/-- The events in the file of a generation, however large it is. -/
def Disk.logged (cfg : AppendLogConfig) (d : Disk) (gen : ℕ) : List LogEvent :=
  ((d.lookup (segmentName gen)).map fun data =>
    let body := data.drop kSegmentHeaderBytes
    readLog cfg.maxRecordBytes body.length body).getD []

lemma SegmentFile.logged {cfg : AppendLogConfig} {d : Disk} {gen : ℕ} {evs : List LogEvent}
    (h : SegmentFile cfg d gen evs []) : Disk.logged cfg d gen = evs := by
  obtain ⟨-, hfits, startSeq, -, hfile⟩ := h
  have hdrop : (segmentData gen startSeq evs []).drop kSegmentHeaderBytes =
      encodeEvents evs ++ [] :=
    List.drop_left' (length_serializeSegmentHeader gen startSeq)
  unfold Disk.logged
  rw [hfile, Option.map_some, Option.getD_some, hdrop]
  exact readLog_log hfits (stopsAt_nil _) le_rfl

/-- The sequences that the segments before `input` leave open. -/
def Disk.openBefore (cfg : AppendLogConfig) (d : Disk) (gens : List ℕ) (input : CompactionRange) :
    List ℕ :=
  (logContents ((input.before gens).flatMap (Disk.logged cfg d))).map Prod.fst

/-- The live records of the input that lie where they were rewritten are above the records open
before it. -/
def RewrittenAbove (cfg : AppendLogConfig) (d : Disk) (ram : Ram) (plan : CompactionPlan) : Prop :=
  ∀ r ∈ ram.liveIn plan.effective, ∀ e ∈ Disk.logged cfg d r.segmentGeneration,
    e.rewritten = some r.sequence →
      ∀ s ∈ Disk.openBefore cfg d ram.gens plan.input, s < r.sequence

instance (cfg : AppendLogConfig) (d : Disk) (ram : Ram) (plan : CompactionPlan) :
    Decidable (RewrittenAbove cfg d ram plan) :=
  inferInstanceAs (Decidable (∀ r ∈ _, ∀ e ∈ _, _ → ∀ s ∈ _, _))

/-- The live records of the input can stand for it: no POP that is dropped is about a record open
before the input. -/
structure Separable (cfg : AppendLogConfig) (d : Disk) (ram : Ram) (plan : CompactionPlan) :
    Prop where
  tombstones : ∀ g ∈ plan.effective.gens, ∀ e ∈ Disk.logged cfg d g, ∀ s ∈ e.popped,
    s ∉ Disk.openBefore cfg d ram.gens plan.input
  rewritten : RewrittenAbove cfg d ram plan

instance (cfg : AppendLogConfig) (d : Disk) (ram : Ram) (plan : CompactionPlan) :
    Decidable (Separable cfg d ram plan) :=
  decidable_of_iff ((∀ g ∈ plan.effective.gens, ∀ e ∈ Disk.logged cfg d g, ∀ s ∈ e.popped,
      s ∉ Disk.openBefore cfg d ram.gens plan.input) ∧ RewrittenAbove cfg d ram plan)
    ⟨fun h => ⟨h.1, h.2⟩, fun h => ⟨h.tombstones, h.rewritten⟩⟩

/-- What a compaction that is asked for plans, if anything, is separable. -/
def SeparableAt (cfg : AppendLogConfig) : StoreMark → Disk → Prop
  | .compactRange ram range fallback, d =>
    ∀ plan ∈ ram.planCompaction cfg range fallback, Separable cfg d ram plan
  | _, _ => True

instance (cfg : AppendLogConfig) : (mk : StoreMark) → (d : Disk) → Decidable (SeparableAt cfg mk d)
  | .compactRange .., _ => inferInstanceAs (Decidable (∀ plan ∈ _, _))
  | .allocate _, _ | .publish .., _ | .append .., _ | .pack _, _ => .isTrue trivial

/-! ## The input of a compaction -/

lemma CompactionRange.before_append {r : CompactionRange} {gens : List ℕ} (h : r.startGen ∈ gens)
    (gens' : List ℕ) : r.before (gens ++ gens') = r.before gens := by
  induction gens with
  | nil => cases h
  | cons g gens ih =>
    unfold before at ih ⊢
    by_cases hg : g = r.startGen
    · simp [hg]
    · have hmem := (List.mem_cons.1 h).resolve_left (Ne.symm hg)
      rw [List.cons_append, List.takeWhile_cons_of_pos (by simpa using hg),
        List.takeWhile_cons_of_pos (by simpa using hg), ih hmem]

/-- A list without repetitions ends with `a` where `a` lies in it. -/
lemma eq_of_concat_eq {l B I S : List ℕ} {a : ℕ} (hn : (l ++ [a]).Nodup)
    (h : l ++ [a] = B ++ (I ++ [a]) ++ S) : l = B ++ I := by
  rcases List.eq_nil_or_concat S with rfl | ⟨S, b, rfl⟩
  · have h' : l ++ [a] = (B ++ I) ++ [a] := by simpa using h
    exact List.append_cancel_right h'
  · have h' : l ++ [a] = (B ++ (I ++ [a]) ++ S) ++ [b] := by simpa using h
    obtain ⟨hl, -⟩ := List.append_inj' h' rfl
    have hmem : a ∈ l := by simp [hl]
    have hne := (List.nodup_append.1 hn).2.2 a hmem a (List.mem_singleton_self a)
    exact absurd rfl hne

namespace Compacts

variable {cfg : AppendLogConfig} {harm : FsCall → Disk → Disk → Prop} {A : StoreMark → Disk → Prop}
  {ram₀ ram : Ram} {d₀ d : Disk} {plan : CompactionPlan} {idx : ℕ} {parent : ManifestRange}
  {input : CompactionRange} {live : List CompactionLiveRecord} {out : List OutputSeg}

/-- Without a rotation the input is the planned one. -/
lemma kept (h : Compacts cfg harm A ram₀ d₀ plan ram d idx parent input live out)
    (hrot : plan.rotates = false) : ram = ram₀ ∧ input = plan.input := by
  constructor
  · cases h.prepared with
    | asIs => rfl
    | rotated hr =>
      rw [hrot] at hr
      cases hr
  · rw [h.input_eq, hrot]
    rfl

/-- With a rotation the old tail is the last generation of the input. -/
lemma sealed (h : Compacts cfg harm A ram₀ d₀ plan ram d idx parent input live out)
    (hg₀ : Generations ram₀) (hrot : plan.rotates = true) :
    rangeGens ram.manifestRanges = ram₀.gens ∧ ram.gens = ram₀.gens ++ [ram.activeGeneration] ∧
      input.gens = plan.input.gens ++ [ram₀.activeGeneration] ∧
        plan.input.startGen ∈ ram₀.gens := by
  obtain ⟨last, hlast, hranges, -, hparent, h1, h2, hend, hact, -⟩ := h.rotated hg₀ hrot
  have hgens : rangeGens ram.manifestRanges = ram₀.gens := by
    rw [hranges, hg₀.sealTail]
  refine ⟨hgens, ?_, ?_, ?_⟩
  · rw [Ram.gens, hgens]
  · have hinput : input = ⟨plan.input.startGen, ram₀.activeGeneration⟩ := by
      rw [h.input_eq, hrot, hparent, if_pos rfl]
    rw [hinput, CompactionRange.gens, CompactionRange.gens]
    have hsize : ram₀.activeGeneration + 1 - plan.input.startGen =
        (plan.input.endGen + 1 - plan.input.startGen) + 1 := by omega
    rw [hsize, List.range'_concat]
    congr 2
    simp only
    omega
  · apply List.mem_append_left
    rw [mem_rangeGens]
    exact ⟨last, List.mem_of_getLast? hlast, h1, by omega⟩

lemma effective_eq (h : Compacts cfg harm A ram₀ d₀ plan ram d idx parent input live out)
    (hg₀ : Generations ram₀) : input = plan.effective := by
  unfold CompactionPlan.effective
  cases hrot : plan.rotates with
  | false => exact (h.kept hrot).2
  | true =>
    obtain ⟨last, -, -, -, hparent, -⟩ := h.rotated hg₀ hrot
    obtain ⟨range, fallback, -, hplan⟩ := h.planned
    obtain ⟨idx', parent', hp⟩ := planned_of_planCompaction hg₀.ranges_nodup hg₀.ranges_valid
      hg₀.count hplan
    have hstart := hp.hypo_start
    have hend := (hp.rotation hrot).1
    rw [h.input_eq, hrot, hparent, if_pos rfl, if_pos rfl, ← hstart, ← hend]

lemma before_eq (h : Compacts cfg harm A ram₀ d₀ plan ram d idx parent input live out)
    (hg₀ : Generations ram₀) : input.before ram.gens = plan.input.before ram₀.gens := by
  cases hrot : plan.rotates with
  | false =>
    obtain ⟨rfl, rfl⟩ := h.kept hrot
    rfl
  | true =>
    obtain ⟨-, hgens, -, hmem⟩ := h.sealed hg₀ hrot
    have hstart : input.startGen = plan.input.startGen := by rw [h.input_eq]
    have hsame : input.before = plan.input.before := by
      funext gens
      rw [CompactionRange.before, CompactionRange.before, hstart]
    rw [hgens, hsame, CompactionRange.before_append hmem]

/-- The generations of the input: those of the plan, and the old tail if it was sealed. -/
lemma input_cases (h : Compacts cfg harm A ram₀ d₀ plan ram d idx parent input live out)
    (hg₀ : Generations ram₀) (hg : Generations ram) {g : ℕ} (hmem : g ∈ input.gens) :
    g ∈ ram₀.gens ∧ (g ∈ plan.input.gens ∨ plan.rotates = true ∧ g = ram₀.activeGeneration) := by
  cases hrot : plan.rotates with
  | false =>
    obtain ⟨rfl, rfl⟩ := h.kept hrot
    exact ⟨hg.input_mem h.part hmem, .inl hmem⟩
  | true =>
    obtain ⟨hgens, -, hinput, -⟩ := h.sealed hg₀ hrot
    constructor
    · rw [← hgens, h.part.gens_eq]
      exact List.mem_append_left _ (List.mem_append_right _ hmem)
    · rw [hinput] at hmem
      exact (List.mem_append.1 hmem).imp_right fun h => ⟨rfl, List.mem_singleton.1 h⟩

/-- With a rotation the planned input is the end of the sealed segments. -/
lemma sealed_eq (h : Compacts cfg harm A ram₀ d₀ plan ram d idx parent input live out)
    (hg₀ : Generations ram₀) (hg : Generations ram) (hrot : plan.rotates = true) :
    rangeGens ram₀.manifestRanges = plan.input.before ram₀.gens ++ plan.input.gens := by
  obtain ⟨hgens, -, hinput, -⟩ := h.sealed hg₀ hrot
  have hsplit := h.part.gens_eq
  rw [← hg.before_gens h.part, h.before_eq hg₀, hgens, hinput] at hsplit
  exact eq_of_concat_eq hg₀.nodup hsplit

/-- The output, located: pushes of the new locations. -/
lemma locatedLog_output (h : Compacts cfg harm A ram₀ d₀ plan ram d idx parent input live out)
    (hf : ∀ r ∈ ram.records, r.Fits cfg) (hsize : ∀ o ∈ out, o.data.length < 2 ^ 32)
    (seg : ℕ → List LogEvent) : locatedLog (outputLogs out seg) (out.map OutputSeg.gen) =
      (out.flatMap OutputSeg.locations).map QueueLog.Event.push := by
  rw [locatedLog, List.flatMap_map, List.map_flatMap]
  apply List.flatMap_congr
  intro o ho
  rw [outputLogs_of_mem h.nodup ho]
  exact (o.locations_eq (h.output_fits hf o ho) (hsize o ho)).symm

/-- The new locations have the sequences of the live records of the input. -/
lemma locations_perm (h : Compacts cfg harm A ram₀ d₀ plan ram d idx parent input live out) :
    (out.flatMap OutputSeg.locations).map SegmentRecord.sequence =
        live.map CompactionLiveRecord.sequence ∧
      (live.map CompactionLiveRecord.sequence).Perm
        ((ram.liveIn input).map SegmentRecord.sequence) := by
  constructor
  · have hlocate : ∀ (gen : ℕ) (lrs : List CompactionLiveRecord) (offset : ℕ),
        (locateOutput gen offset lrs).map SegmentRecord.sequence =
          lrs.map CompactionLiveRecord.sequence := by
      intro gen lrs
      induction lrs with
      | nil => exact fun _ => rfl
      | cons lr lrs ih => exact fun offset => congrArg (_ :: ·) (ih _)
    rw [← h.output_records, List.map_flatMap, List.map_flatMap]
    exact List.flatMap_congr fun o _ => hlocate o.gen o.records _
  · have hperm := (collect_perm h.collected).map Prod.fst
    rw [List.map_map, List.map_map] at hperm
    exact hperm

lemma locations_sorted (h : Compacts cfg harm A ram₀ d₀ plan ram d idx parent input live out)
    (hn : (ram.records.map (·.sequence)).Nodup) :
    QueueLog.Sorted SegmentRecord.sequence (out.flatMap OutputSeg.locations) := by
  obtain ⟨hseqs, hperm⟩ := h.locations_perm
  have hnodup : (live.map CompactionLiveRecord.sequence).Nodup :=
    hperm.nodup_iff.2 (hn.sublist (List.filter_sublist.map _))
  have hsorted : (live.map CompactionLiveRecord.sequence).Pairwise (· ≤ ·) := by
    obtain ⟨collected, -, rfl⟩ := Option.map_eq_some_iff.1 h.collected
    rw [List.pairwise_map]
    exact List.pairwise_insertionSort (fun a b : CompactionLiveRecord => a.sequence ≤ b.sequence) _
  have hlt := hsorted.imp₂ (S := (· ≠ ·)) (T := (· < ·))
    (fun a b hle hne => lt_of_le_of_ne hle hne) hnodup
  rw [← hseqs, List.pairwise_map] at hlt
  exact hlt

/-- A sequence has a new location when its record lies in the input. -/
lemma find_location (h : Compacts cfg harm A ram₀ d₀ plan ram d idx parent input live out) (s : ℕ) :
    (QueueLog.find SegmentRecord.sequence (out.flatMap OutputSeg.locations) s).isSome ↔
      ∃ r ∈ ram.records, input.Contains r.segmentGeneration ∧ r.sequence = s := by
  obtain ⟨hseqs, hperm⟩ := h.locations_perm
  rw [QueueLog.isSome_find, hseqs, hperm.mem_iff, List.mem_map]
  simp only [mem_liveIn, and_assoc]

end Compacts

/-! ## Objects whose index is what their logs say -/

/-- The index is the replay of the logs. -/
structure Indexed (cfg : AppendLogConfig) (lim : Limits) (ram : Ram) (d : Disk)
    (seg : ℕ → List LogEvent) : Prop extends Stored cfg lim ram d seg where
  placed : Placed cfg ram.gens ram.extent ram.records
  records : ram.records =
    QueueLog.replay SegmentRecord.sequence [] (locatedLog seg ram.gens)
  ordered : QueueLog.Ordered SegmentRecord.sequence [] (locatedLog seg ram.gens)

namespace Indexed

variable {cfg : AppendLogConfig} {lim : Limits} {harm : FsCall → Disk → Disk → Prop}
  {A : StoreMark → Disk → Prop} {ram ram' : Ram} {d d' : Disk} {seg : ℕ → List LogEvent}

lemma coherent (h : Indexed cfg lim ram d seg) : Coherent cfg ram d := ⟨h.sited, h.placed⟩

/-- What leaves the members and the logs alone. -/
lemma frame (h : Indexed cfg lim ram d seg) (hs : Stored cfg lim ram' d' seg)
    (hc : ram'.core = ram.core) : Indexed cfg lim ram' d' seg := by
  have hcore := SameCore.of_core hc
  have hgens : ram'.gens = ram.gens := Ram.gens_congr hcore.ranges hcore.active
  refine ⟨hs, (h.coherent.of_sited hs.sited hcore.records).placed, ?_, ?_⟩
  · rw [hcore.records, hgens]
    exact h.records
  · rw [hgens]
    exact h.ordered

/-- A segment is opened: the new tail has no events. -/
lemma opened (h : Indexed cfg lim ram d seg) (hA : ∀ mk d, A mk d → Within lim mk)
    {ranges : List ManifestRange} {startSeq epoch : ℕ} {slot : Slot}
    (ho : Opens noHarm A ram d ranges startSeq slot epoch) (n : ℕ) :
    Indexed cfg lim (ram.opened ranges slot epoch n) (Disk.opened d ram ranges startSeq slot epoch)
      (Function.update seg ram.nextGeneration []) := by
  obtain ⟨hstored, hgens⟩ := h.toStored.opened hA ho n
  have hlog : locatedLog (Function.update seg ram.nextGeneration [])
      (ram.gens ++ [ram.nextGeneration]) = locatedLog seg ram.gens := by
    have hkeep : locatedLog (Function.update seg ram.nextGeneration []) ram.gens =
        locatedLog seg ram.gens := locatedLog_congr fun g hg =>
      Function.update_of_ne (h.coherent.gen_ne hg le_rfl) ..
    rw [locatedLog_append, hkeep, locatedLog_cons, Function.update_self]
    simp [locate]
  refine ⟨hstored, (h.coherent.of_sited hstored.sited rfl).placed, ?_, ?_⟩
  · rw [hgens, hlog]
    exact h.records
  · rw [hgens, hlog]
    exact h.ordered

/-! ### Logging -/

section Logging

variable {e : LogEvent}

/-- The logs with one more event at the end of the tail's. -/
lemma locatedLog_logged (h : Indexed cfg lim ram d seg) (e : LogEvent) :
    locatedLog (Function.update seg ram.activeGeneration
        (seg ram.activeGeneration ++ [e])) ram.gens =
      locatedLog seg ram.gens ++ [e.located ram.activeGeneration ram.activeSegmentBytes] := by
  have hsealed : locatedLog (Function.update seg ram.activeGeneration
      (seg ram.activeGeneration ++ [e])) (rangeGens ram.manifestRanges) =
        locatedLog seg (rangeGens ram.manifestRanges) := locatedLog_congr fun g hg => by
    apply Function.update_of_ne
    intro he
    exact h.coherent.generations.tail_not_sealed (he ▸ hg)
  rw [Ram.gens, locatedLog_append, locatedLog_append, hsealed, locatedLog_cons, locatedLog_cons,
    Function.update_self, locate_append, h.toStored.bytes, logBytes]
  simp [locate]

/-- What the store logs is in order. -/
lemma admissible (h : Indexed cfg lim ram d seg) (hl : Loggable cfg ram e) (gen offset : ℕ) :
    QueueLog.Admissible SegmentRecord.sequence ram.records (e.located gen offset) := by
  obtain ⟨head, hseqs⟩ := h.placed.contiguous
  have hbounds : ∀ r ∈ ram.records, head ≤ r.sequence ∧ r.sequence < head + ram.records.length := by
    intro r hr
    have hmem : r.sequence ∈ ram.records.map (·.sequence) := List.mem_map_of_mem hr
    rw [hseqs, List.mem_range'_1] at hmem
    exact hmem
  cases e with
  | enqueue sequence payload =>
    intro r hr
    show r.sequence < sequence
    have hpos := List.length_pos_of_mem hr
    have hlast : ram.seqs.getLast? = some (head + (ram.records.length - 1)) := by
      rw [Ram.seqs, hseqs, List.getLast?_range', if_neg hpos.ne']
      congr 1
      omega
    have := hl.2.2 _ hlast
    have := hbounds r hr
    omega
  | rewrite sequence payload => exact trivial
  | pop sequence =>
    intro r hr
    show sequence ≤ r.sequence
    obtain ⟨front, hfront, rfl⟩ := hl
    have hhead : front.sequence = head := by
      cases hrs : ram.records with
      | nil =>
        rw [hrs] at hfront
        cases hfront
      | cons x xs =>
        rw [hrs] at hfront hseqs
        obtain rfl := Option.some.inj hfront
        exact (List.cons.inj hseqs).1
    rw [hhead]
    exact (hbounds r hr).1

/-- An event is logged. -/
lemma logged (h : Indexed cfg lim ram d seg) (hl : Loggable cfg ram e)
    (hle : ram.activeSegmentBytes + e.encode.length ≤ lim.segment) {old : Bytes}
    (hold : d.lookup (segmentName ram.activeGeneration) = some old) (hram : ram' = ram.logged e)
    (hd : d' = d.insert (segmentName ram.activeGeneration)
      (overwrite old ram.activeSegmentBytes e.encode)) :
    Indexed cfg lim ram' d' (Function.update seg ram.activeGeneration
      (seg ram.activeGeneration ++ [e])) := by
  have hstored := h.toStored.logged hl hle hold hram hd
  subst hram
  have hlt := lim.segment_lt
  obtain ⟨hgens, -⟩ := Stored.logged_fields ram e
  refine ⟨hstored, (h.coherent.logged hl (by omega) hold).placed, ?_, ?_⟩
  · rw [hgens, h.locatedLog_logged, Sited.records_logged hl (by omega), h.records,
      QueueLog.replay_append]
    rfl
  · rw [hgens, h.locatedLog_logged, QueueLog.ordered_append, ← h.records]
    exact ⟨h.ordered, h.admissible hl _ _, trivial⟩

end Logging

/-! ### Compacting -/

section Compacting

variable {ram₀ : Ram} {d₀ : Disk} {plan : CompactionPlan} {idx : ℕ} {parent : ManifestRange}
  {input : CompactionRange} {live : List CompactionLiveRecord} {out : List OutputSeg} {slot : Slot}
  {epoch n : ℕ} {seg' : ℕ → List LogEvent}

lemma prepared (h : Indexed cfg lim ram₀ d₀ seg) (hA : ∀ mk d, A mk d → Within lim mk)
    (hp : Prepared cfg noHarm A ram₀ d₀ plan ram d) : ∃ seg', Indexed cfg lim ram d seg' ∧
      (∀ g ∈ ram₀.gens, seg' g = seg g) ∧ ram.records = ram₀.records := by
  cases hp with
  | asIs => exact ⟨seg, h, fun _ _ => rfl, rfl⟩
  | rotated _ ho hn =>
    have hsealed := h.frame h.toStored.noteSealed rfl
    refine ⟨_, hsealed.opened hA ho _, fun g hg => Function.update_of_ne ?_ _ _, rfl⟩
    exact h.coherent.gen_ne hg le_rfl

/-- The sequences that the first segments leave open, as the files say. -/
lemma mem_open (h : Indexed cfg lim ram d seg) {P Q : List ℕ} (hsplit : P ++ Q = ram.gens) {s : ℕ} :
    s ∈ (logContents (P.flatMap (Disk.logged cfg d))).map Prod.fst ↔
      (QueueLog.live SegmentRecord.sequence (locatedLog seg P) s none).isSome := by
  have hmem : ∀ g ∈ P, g ∈ ram.gens := fun g hg => hsplit ▸ List.mem_append_left _ hg
  have hordered := h.ordered
  rw [← hsplit, locatedLog_append] at hordered
  have hview := @view_replay_locatedLog d seg P fun g hg => by
    obtain ⟨-, -, startSeq, -, hfile⟩ := h.file g (hmem g hg)
    exact ⟨_, [], length_serializeSegmentHeader .., hfile⟩
  have hevents : P.flatMap (Disk.logged cfg d) = P.flatMap seg :=
    List.flatMap_congr fun g hg => (h.file g (hmem g hg)).logged
  rw [hevents, ← hview, List.map_map,
    ← QueueLog.mem_keys_replay (QueueLog.ordered_append.1 hordered).1]
  rfl

/-- What is logged before the input, and in it, is what the files said before a rotation. -/
lemma before_eq (h₀ : Indexed cfg lim ram₀ d₀ seg) (hkeep : ∀ g ∈ ram₀.gens, seg' g = seg g)
    (hc : Compacts cfg harm A ram₀ d₀ plan ram d idx parent input live out) :
    locatedLog seg' (input.before ram.gens) =
      locatedLog seg (plan.input.before ram₀.gens) := by
  obtain ⟨Q, hsplit⟩ := List.takeWhile_prefix (l := ram₀.gens) (· ≠ plan.input.startGen)
  rw [hc.before_eq h₀.coherent.generations]
  exact locatedLog_congr fun g hg => hkeep g (hsplit ▸ List.mem_append_left _ hg)

lemma mem_openBefore (h₀ : Indexed cfg lim ram₀ d₀ seg) (hkeep : ∀ g ∈ ram₀.gens, seg' g = seg g)
    (hc : Compacts cfg harm A ram₀ d₀ plan ram d idx parent input live out) {s : ℕ}
    (hs : (QueueLog.live SegmentRecord.sequence
      (locatedLog seg' (input.before ram.gens)) s none).isSome) :
    s ∈ Disk.openBefore cfg d₀ ram₀.gens plan.input := by
  obtain ⟨Q, hsplit⟩ := List.takeWhile_prefix (l := ram₀.gens) (· ≠ plan.input.startGen)
  rw [h₀.before_eq hkeep hc] at hs
  exact (h₀.mem_open hsplit).2 hs

lemma input_eq (h₀ : Indexed cfg lim ram₀ d₀ seg) (h : Indexed cfg lim ram d seg')
    (hkeep : ∀ g ∈ ram₀.gens, seg' g = seg g)
    (hc : Compacts cfg harm A ram₀ d₀ plan ram d idx parent input live out) {g : ℕ}
    (hg : g ∈ input.gens) : seg' g = Disk.logged cfg d₀ g := by
  have hmem := (hc.input_cases h₀.coherent.generations h.coherent.generations hg).1
  rw [hkeep g hmem, (h₀.file g hmem).logged]

/-- A put of the input that is the last event on its sequence is above what is open before. -/
lemma above (h₀ : Indexed cfg lim ram₀ d₀ seg) (h : Indexed cfg lim ram d seg')
    (hkeep : ∀ g ∈ ram₀.gens, seg' g = seg g) (hrecords : ram.records = ram₀.records)
    (hc : Compacts cfg harm A ram₀ d₀ plan ram d idx parent input live out)
    (habove : RewrittenAbove cfg d₀ ram₀ plan) {r : SegmentRecord}
    (hput : .put r ∈ locatedLog seg' input.gens)
    (hlast : QueueLog.last SegmentRecord.sequence
      (locatedLog seg' input.gens ++ locatedLog seg' (input.after ram.gens)) r.sequence =
        some (some r)) {s : ℕ}
    (hs : (QueueLog.live SegmentRecord.sequence
      (locatedLog seg' (input.before ram.gens)) s none).isSome) : s < r.sequence := by
  have hg := h.coherent.generations
  obtain ⟨hmem, payload, hev⟩ := rewrite_of_put hput
  have hfind : QueueLog.find SegmentRecord.sequence ram.records r.sequence = some r := by
    rw [h.records, QueueLog.find_replay h.ordered, hg.gens_eq hc.part, locatedLog_append,
      locatedLog_append, List.append_assoc, QueueLog.live_append, QueueLog.live, hlast]
    rfl
  have hlive : r ∈ ram₀.liveIn plan.effective := by
    rw [← hc.effective_eq h₀.coherent.generations, mem_liveIn, ← hrecords]
    exact ⟨(QueueLog.find_some hfind).1, CompactionRange.mem_gens.1 hmem⟩
  rw [h₀.input_eq h hkeep hc hmem] at hev
  exact habove r hlive _ hev rfl s (h₀.mem_openBefore hkeep hc hs)

/-- The input of a compaction that is separable is separable from the logs before it. -/
lemma separable (h₀ : Indexed cfg lim ram₀ d₀ seg) (h : Indexed cfg lim ram d seg')
    (hkeep : ∀ g ∈ ram₀.gens, seg' g = seg g) (hrecords : ram.records = ram₀.records)
    (hsep : ∀ mk d, A mk d → SeparableAt cfg mk d)
    (hc : Compacts cfg harm A ram₀ d₀ plan ram d idx parent input live out) :
    QueueLog.Separable SegmentRecord.sequence (locatedLog seg' (input.before ram.gens))
      (locatedLog seg' input.gens) (locatedLog seg' (input.after ram.gens)) := by
  obtain ⟨range, fallback, hmark, hplan⟩ := hc.planned
  have hsep : Separable cfg d₀ ram₀ plan := hsep _ _ hmark plan hplan
  constructor
  · intro s hpop
    obtain ⟨g, hmem, ev, hev, offset, hloc⟩ := exists_of_mem_locatedLog hpop
    rw [h₀.input_eq h hkeep hc hmem] at hev
    rw [hc.effective_eq h₀.coherent.generations] at hmem
    cases ev with
    | enqueue | rewrite => cases hloc
    | pop sequence =>
      obtain rfl := QueueLog.Event.pop.inj hloc
      by_contra hne
      exact hsep.tombstones g hmem _ hev s rfl
        (h₀.mem_openBefore hkeep hc (Option.isSome_iff_ne_none.2 hne))
  · intro r hput hlast s hs
    exact h₀.above h hkeep hrecords hc hsep.rewritten hput hlast hs

/-- The input may be replaced by pushes of the new locations. -/
lemma compactable (h : Indexed cfg lim ram d seg)
    (hsep : QueueLog.Separable SegmentRecord.sequence (locatedLog seg (input.before ram.gens))
      (locatedLog seg input.gens) (locatedLog seg (input.after ram.gens)))
    (hc : Compacts cfg harm A ram₀ d₀ plan ram d idx parent input live out) :
    QueueLog.Compactable SegmentRecord.sequence (locatedLog seg (input.before ram.gens))
      (locatedLog seg input.gens) (locatedLog seg (input.after ram.gens))
      (out.flatMap OutputSeg.locations) ∧
    QueueLog.replay SegmentRecord.sequence [] (locatedLog seg (input.before ram.gens) ++
      (out.flatMap OutputSeg.locations).map QueueLog.Event.push ++
        locatedLog seg (input.after ram.gens)) =
      (ram.moveRecords input (out.flatMap OutputSeg.locations)).records := by
  have hg := h.coherent.generations
  -- the records of the input are told by where they lie
  have hbefore : ∀ e ∈ locatedLog seg (input.before ram.gens), ∀ r, e.Writes r →
      ¬input.Contains r.segmentGeneration := fun e he r hwr hin =>
    hg.input_not_kept hc.part (CompactionRange.mem_gens.2 hin)
      (List.mem_append_left _ (locatedLog_writes he hwr))
  have hin : ∀ e ∈ locatedLog seg input.gens, ∀ r, e.Writes r →
      input.Contains r.segmentGeneration := fun e he r hwr =>
    CompactionRange.mem_gens.1 (locatedLog_writes he hwr)
  have hafter : ∀ e ∈ locatedLog seg (input.after ram.gens), ∀ r, e.Writes r →
      ¬input.Contains r.segmentGeneration := fun e he r hwr hin =>
    hg.input_not_kept hc.part (CompactionRange.mem_gens.2 hin)
      (List.mem_append_right _ (locatedLog_writes he hwr))
  have hordered := h.ordered
  have hrecords := h.records
  rw [hg.gens_eq hc.part, locatedLog_append, locatedLog_append] at hordered hrecords
  have hcompact :=
    hsep.compactable hordered (hc.locations_sorted h.placed.nodup) fun s => by
    rw [QueueLog.last_in_iff hordered hbefore hin hafter, ← hrecords]
    exact hc.find_location s
  refine ⟨hcompact, ?_⟩
  rw [QueueLog.replay_compact hcompact hbefore hin hafter, ← hrecords]
  rfl

/-- The output takes the place of an input that is separable from the logs before it. -/
lemma compacted (h₀ : Coherent cfg ram₀ d₀) (h : Indexed cfg lim ram d seg)
    (hA : ∀ mk d, A mk d → Within lim mk)
    (hsep : QueueLog.Separable SegmentRecord.sequence (locatedLog seg (input.before ram.gens))
      (locatedLog seg input.gens) (locatedLog seg (input.after ram.gens)))
    (hc : Compacts cfg harm A ram₀ d₀ plan ram d idx parent input live out)
    (hpub : A (.publish epoch (ram.compactionAt 0 idx parent input out)) (Disk.writeAll d out))
    (hr : Removed harm input.gens
      ((ram.wroteAll out).published slot
        (ram.compactionAt (u32 (epoch + 1)) idx parent input out) n)
      (Disk.publish (Disk.writeAll d out) slot
        (ram.compactionAt (u32 (epoch + 1)) idx parent input out)) ram' d')
    (ht : ram.Targets noHarm d slot epoch) :
    Indexed cfg lim ((ram'.forgetInput input).moveRecords input
      (out.flatMap OutputSeg.locations)) d' (outputLogs out seg) := by
  have hco := (h₀.compacted hc (fun mk d hmk => (hA mk d hmk).unbounded.offsets) hr).1
  obtain ⟨hstored, hw⟩ := h.toStored.compacted h₀.toSited hA hc hpub hr ht
  obtain ⟨hcompact, hreplay⟩ := h.compactable hsep hc
  have hkeep : ∀ gens, (∀ g ∈ gens, g ∈ input.before ram.gens ++ input.after ram.gens) →
      locatedLog (outputLogs out seg) gens = locatedLog seg gens := fun gens hsub =>
    locatedLog_congr fun g hg => outputLogs_of_not_mem (hw.kept (hsub g hg)).2.2
  have hlog : locatedLog (outputLogs out seg)
      ((ram'.forgetInput input).moveRecords input (out.flatMap OutputSeg.locations)).gens =
        locatedLog seg (input.before ram.gens) ++
          (out.flatMap OutputSeg.locations).map QueueLog.Event.push ++
            locatedLog seg (input.after ram.gens) := by
    rw [hw.gens, locatedLog_append, locatedLog_append,
      hc.locatedLog_output h.sited.enclosed.fits hw.size seg,
      hkeep _ fun g hg => List.mem_append_left _ hg, hkeep _ fun g hg => List.mem_append_right _ hg]
  refine ⟨hstored, hco.placed, ?_, ?_⟩
  · rw [hlog, hreplay, hr.afterCompaction.records]
  · rw [hlog]
    exact hcompact.ordered_compacted

end Compacting

/-- The first segment is opened. -/
lemma first {ranges : List ManifestRange} {startSeq epoch : ℕ} {slot : Slot} (hb : Blank ram)
    (hu : Unpublished ram d) (hcan : Canonical d) (hA : ∀ mk d, A mk d → Within lim mk)
    (ho : Opens noHarm A ram d ranges startSeq slot epoch) (n : ℕ) :
    Indexed cfg lim (ram.opened ranges slot epoch n) (Disk.opened d ram ranges startSeq slot epoch)
      fun _ => [] := by
  have hfirst : Stored cfg lim (ram.opened ranges slot epoch n)
      (Disk.opened d ram ranges startSeq slot epoch) (fun _ => []) ∧
        (ram.opened ranges slot epoch n).gens = [ram.nextGeneration] :=
    Stored.first hb hu hcan hA ho n
  obtain ⟨hstored, hgens⟩ := hfirst
  have hlog : locatedLog (fun _ => []) (ram.opened ranges slot epoch n).gens = [] := by
    rw [hgens]
    rfl
  have hco : Coherent cfg _ _ := (hb.opened ho n).1
  refine ⟨hstored, hco.placed, ?_, ?_⟩
  · rw [hlog]
    exact hb.records
  · rw [hlog]
    trivial

/-- **One move** without failures keeps the index, when its compaction is separable. -/
theorem move {evs : List LogEvent} (hA : ∀ mk d, A mk d → Within lim mk)
    (hsep : ∀ mk d, A mk d → SeparableAt cfg mk d) (h : Indexed cfg lim ram d seg)
    (hm : Move cfg noHarm A ram d evs ram' d') : ∃ seg', Indexed cfg lim ram' d' seg' := by
  cases hm with
  | lock hlock => exact ⟨seg, h.frame (h.toStored.lock hlock) rfl⟩
  | noteSealed => exact ⟨seg, h.frame h.toStored.noteSealed rfl⟩
  | wrote hg hlt hmark =>
    exact ⟨seg, h.frame (h.toStored.wrote hg hlt _ _ _) (core_trackWrite ..)⟩
  | opened ho hn => exact ⟨_, h.opened hA ho _⟩
  | logged hl hopen hmark hold => exact ⟨_, h.logged hl (hA _ _ hmark) hold rfl rfl⟩
  | compacted hc ht hn hmark hr =>
    obtain ⟨seg', h', hkeep, hrecords⟩ := h.prepared hA hc.prepared
    exact ⟨_, h'.compacted h.coherent hA (h.separable h' hkeep hrecords hsep hc) hc hmark hr ht⟩
  | writeFailed _ _ hharm => exact hharm.elim
  | openFailed _ hharm => exact hharm.elim
  | logFailed _ _ _ hharm => exact hharm.elim
  | compactFailed _ _ _ hharm => exact hharm.elim

end Indexed

end Pqueue
