import Pqueue.Store.Relocate

/-!
# The invariant of a store object

`Coherent` ties a mounted object with a tail to its directory: the generations fit together, the
files hold at least the bytes the object relies on, and the live records lie apart in these.
Every move keeps it, whatever failed, as long as no 32-bit counter wraps, and changes the
contents as the logged events say (`Ready.move`).
-/

namespace Pqueue

open Effect LittleEndian

/-! ## Sealed sizes -/

lemma sealed_trackWrite_segment (ram : Ram) {gen : ℕ} (hg : gen < 2 ^ 32) (n m : ℕ) :
    (ram.trackWrite (segmentName gen) n m).sealedSegmentBytes =
      Function.update ram.sealedSegmentBytes gen (some (u32 n)) := by
  rw [Ram.trackWrite]
  simp only [isSegmentName_segmentName hg]

lemma sealed_trackWrite_slot (ram : Ram) (s : Slot) (n m : ℕ) :
    (ram.trackWrite s.fileName n m).sealedSegmentBytes = ram.sealedSegmentBytes := by
  rw [Ram.trackWrite]
  simp only [isSegmentName_slot]

lemma sealed_published (ram : Ram) (s : Slot) (md : ManifestData) (n : ℕ) :
    (ram.published s md n).sealedSegmentBytes = ram.sealedSegmentBytes :=
  sealed_trackWrite_slot _ _ _ n

lemma sealed_created (ram : Ram) {gen : ℕ} (hg : gen < 2 ^ 32) :
    (ram.created gen).sealedSegmentBytes =
      Function.update ram.sealedSegmentBytes gen (some kSegmentHeaderBytes) :=
  sealed_trackWrite_segment ram hg ..

lemma sealed_opened (ram : Ram) (ranges : List ManifestRange) (slot : Slot) (epoch n : ℕ)
    (hg : ram.nextGeneration < 2 ^ 32) :
    (ram.opened ranges slot epoch n).sealedSegmentBytes =
      Function.update ram.sealedSegmentBytes ram.nextGeneration (some kSegmentHeaderBytes) :=
  (sealed_published _ _ _ n).trans (sealed_created ram hg)

lemma sealed_wroteAll_of_not_mem {ram : Ram} {out : List OutputSeg}
    (hlt : ∀ o ∈ out, o.gen < 2 ^ 32)
    {g : ℕ} (hg : g ∉ out.map OutputSeg.gen) :
    (ram.wroteAll out).sealedSegmentBytes g = ram.sealedSegmentBytes g := by
  induction out generalizing ram with
  | nil => rfl
  | cons o out ih =>
    rw [List.map_cons, List.mem_cons, not_or] at hg
    have hcons : ram.wroteAll (o :: out) =
        (ram.trackWrite (segmentName o.gen) o.data.length 0).wroteAll out := rfl
    rw [hcons, ih (fun o' ho' => hlt o' (List.mem_cons_of_mem _ ho')) hg.2,
      sealed_trackWrite_segment ram (hlt o (List.mem_cons_self ..)), Function.update_of_ne hg.1]

lemma sealed_wroteAll {ram : Ram} {out : List OutputSeg} (hlt : ∀ o ∈ out, o.gen < 2 ^ 32)
    (hn : (out.map OutputSeg.gen).Nodup) {o : OutputSeg} (ho : o ∈ out) :
    (ram.wroteAll out).sealedSegmentBytes o.gen = some (u32 o.data.length) := by
  induction out generalizing ram with
  | nil => cases ho
  | cons x xs ih =>
    rw [List.map_cons, List.nodup_cons] at hn
    have hcons : ram.wroteAll (x :: xs) =
        (ram.trackWrite (segmentName x.gen) x.data.length 0).wroteAll xs := rfl
    have hlt' := fun o' ho' => hlt o' (List.mem_cons_of_mem x ho')
    rw [hcons]
    rcases List.mem_cons.1 ho with rfl | ho
    · rw [sealed_wroteAll_of_not_mem hlt' hn.1,
        sealed_trackWrite_segment ram (hlt _ (List.mem_cons_self ..)), Function.update_self]
    · exact ih hlt' hn.2 ho

/-! ## The invariant -/

/-- The bytes of segment `g` that the object relies on. -/
def Ram.extent (ram : Ram) (g : ℕ) : ℕ :=
  if g = ram.activeGeneration then ram.activeSegmentBytes else (ram.sealedSegmentBytes g).getD 0

/-- The live records as a reader of the directory sees them: sequence and payload. -/
def Ram.contents (d : Disk) (ram : Ram) : List (ℕ × Bytes) := ram.records.map (SegmentRecord.view d)

/-- A mounted object with a tail whose segments are in its directory, with its records within
them. -/
structure Sited (cfg : AppendLogConfig) (ram : Ram) (d : Disk) : Prop where
  mounted : ram.mounted = true
  generations : Generations ram
  active : ram.activeGenerations = ram.gens
  extents : ∀ g ∈ ram.gens, kSegmentHeaderBytes ≤ ram.extent g ∧ ram.extent g < 2 ^ 32
  held : Held ram.gens ram.extent d
  enclosed : Enclosed cfg ram.gens ram.extent ram.records

/-- Such an object whose records lie apart and follow one another. -/
structure Coherent (cfg : AppendLogConfig) (ram : Ram) (d : Disk) : Prop
    extends Sited cfg ram d where
  placed : Placed cfg ram.gens ram.extent ram.records

lemma Ram.extent_tail (ram : Ram) : ram.extent ram.activeGeneration = ram.activeSegmentBytes :=
  if_pos rfl

lemma Ram.extent_of_ne {ram : Ram} {g : ℕ} (h : g ≠ ram.activeGeneration) :
    ram.extent g = (ram.sealedSegmentBytes g).getD 0 := if_neg h

lemma Ram.tail_mem_gens (ram : Ram) : ram.activeGeneration ∈ ram.gens := Ram.mem_gens.2 (.inr rfl)

/-! ## The segments after a compaction -/

/-- The segments of an object after a compaction: those outside the input are as they were, the
output takes the place of the input. -/
structure Rewritten (ram : Ram) (d : Disk) (input : CompactionRange) (out : List OutputSeg)
    (ram' : Ram) (d' : Disk) : Prop where
  generations : Generations ram'
  gens : ram'.gens = input.before ram.gens ++ out.map OutputSeg.gen ++ input.after ram.gens
  kept : ∀ {g}, g ∈ input.before ram.gens ++ input.after ram.gens →
    g ∈ ram.gens ∧ g ∉ input.gens ∧ g ∉ out.map OutputSeg.gen
  extent_kept : ∀ {g}, g ∈ input.before ram.gens ++ input.after ram.gens →
    ram'.extent g = ram.extent g
  lookup_kept : ∀ {g}, g ∈ input.before ram.gens ++ input.after ram.gens →
    d'.lookup (segmentName g) = d.lookup (segmentName g)
  extent_out : ∀ o ∈ out, ram'.extent o.gen = o.data.length
  lookup_out : ∀ o ∈ out, d'.lookup (segmentName o.gen) = some o.data
  size : ∀ o ∈ out, o.data.length < 2 ^ 32

lemma Rewritten.cases {ram ram' : Ram} {d d' : Disk} {input : CompactionRange}
    {out : List OutputSeg} (h : Rewritten ram d input out ram' d') {g : ℕ} (hg : g ∈ ram'.gens) :
    g ∈ input.before ram.gens ++ input.after ram.gens ∨ ∃ o ∈ out, o.gen = g := by
  rw [h.gens] at hg
  simp only [List.mem_append, List.mem_map] at hg ⊢
  tauto

lemma Generations.rewritten {cfg : AppendLogConfig} {harm : FsCall → Disk → Disk → Prop}
    {A : StoreMark → Disk → Prop} {ram₀ ram ram' : Ram} {d₀ d d' : Disk} {plan : CompactionPlan}
    {idx : ℕ} {parent : ManifestRange} {input : CompactionRange} {live : List CompactionLiveRecord}
    {out : List OutputSeg} {slot : Slot} {epoch n : ℕ} (h : Generations ram) (h₀ : Generations ram₀)
    (hc : Compacts cfg harm A ram₀ d₀ plan ram d idx parent input live out)
    (hA : ∀ mk d, A mk d → OffsetsFit mk)
    (hr : Removed harm input.gens
      ((ram.wroteAll out).published slot (ram.compactionAt epoch idx parent input out) n)
      (Disk.publish (Disk.writeAll d out) slot (ram.compactionAt epoch idx parent input out))
      ram' d') :
    Rewritten ram d input out
      ((ram'.forgetInput input).moveRecords input (out.flatMap OutputSeg.locations)) d' := by
  have ha := hr.afterCompaction
  obtain ⟨hG, hgens⟩ := h.compacted hc.part hc.gens hc.gens_lt (hc.count h₀) ha
  have hsealed : ∀ g, g ∉ input.gens → ((ram'.forgetInput input).moveRecords input
      (out.flatMap OutputSeg.locations)).sealedSegmentBytes g =
        (ram.wroteAll out).sealedSegmentBytes g := fun g hg =>
    (hr.sealedBytes hg).trans (congrFun (sealed_published ..) g)
  generalize hfinal : (ram'.forgetInput input).moveRecords input
    (out.flatMap OutputSeg.locations) = final at ha hG hgens hsealed
  have hsize := hc.marks.sizes hA
  have hlt := hc.gen_lt
  have hfresh : ∀ o ∈ out, ram.nextGeneration ≤ o.gen := fun o ho =>
    (Generations.output_fresh hc.gens (List.mem_map_of_mem ho)).1
  have hnew : ∀ o ∈ out, o.gen ∉ ram.gens := fun o ho hm =>
    absurd (h.below _ hm) (not_lt.2 (hfresh o ho))
  have hkept : ∀ {g}, g ∈ input.before ram.gens ++ input.after ram.gens → g ∈ ram.gens ∧
      g ∉ input.gens ∧ g ∉ out.map OutputSeg.gen := by
    intro g hg
    have hm := h.mem_of_kept hc.part hg
    refine ⟨hm, fun hi => h.input_not_kept hc.part hi hg, fun ho => ?_⟩
    obtain ⟨o, hmem, rfl⟩ := List.mem_map.1 ho
    exact hnew o hmem hm
  -- files outside the input are those after the output was written
  have hlookup : ∀ g < 2 ^ 32, g ∉ input.gens →
      d'.lookup (segmentName g) = (Disk.writeAll d out).lookup (segmentName g) := by
    intro g hg hi
    rw [hr.lookup fun g' hg' => segmentName_ne hg (h.gen_lt (h.input_mem hc.part hg'))
      fun he => hi (he ▸ hg'), Disk.publish, AList.lookup_insert_ne (segmentName_ne_slot g slot)]
  refine ⟨hG, hgens, hkept, fun {g} hg => ?_, fun {g} hg => ?_, fun o ho => ?_, fun o ho => ?_,
    hsize⟩
  · obtain ⟨-, hi, ho⟩ := hkept hg
    rw [Ram.extent, Ram.extent, ha.active, ha.bytes, hsealed g hi,
      sealed_wroteAll_of_not_mem hlt ho]
  · obtain ⟨hm, hi, -⟩ := hkept hg
    rw [hlookup g (h.gen_lt hm) hi, lookup_writeAll_of_ne fun o ho =>
      segmentName_ne (h.gen_lt hm) (hlt o ho) fun he => hnew o ho (he ▸ hm)]
  · have hne : o.gen ≠ final.activeGeneration := fun he =>
      hnew o ho (he ▸ ha.active ▸ ram.tail_mem_gens)
    rw [Ram.extent_of_ne hne, hsealed _ fun hi => hnew o ho (h.input_mem hc.part hi),
      sealed_wroteAll hlt hc.nodup ho, Option.getD_some, u32_of_lt (hsize o ho)]
  · rw [hlookup _ (hlt o ho) fun hi => hnew o ho (h.input_mem hc.part hi),
      lookup_writeAll hc.nodup hlt ho]

/-- Files other than `name` are the same, so what lies in other segments is kept. -/
lemma SameExcept.keeps {d d' : Disk} {name : FileName} (h : SameExcept name d d') {gens : List ℕ}
    {extent : ℕ → ℕ} (hne : ∀ g ∈ gens, segmentName g ≠ name) : Keeps gens extent d d' :=
  Keeps.of_lookup fun g hg => h _ (hne g hg)

/-- What a commit has decided to log can be read back. -/
lemma Loggable.fits {cfg : AppendLogConfig} {ram : Ram} {e : LogEvent}
    (hl : Loggable cfg ram e) (hf : ∀ r ∈ ram.records, r.Fits cfg) :
    e.Fits cfg.maxRecordBytes := by
  have hpay : ∀ payload : Bytes, PayloadOk cfg payload → payload.length ≤ cfg.maxRecordBytes ∧
      payload.length + kEnqueueOverheadBytes < 2 ^ 32 := by
    rintro payload ⟨h1, h2⟩
    have := cfg.maxSegmentBytes_lt
    exact ⟨h1, by omega⟩
  cases e with
  | enqueue seq payload => exact ⟨by have := hl.1; omega, hpay payload hl.2.1⟩
  | rewrite seq payload =>
    obtain ⟨hok, r, hr, rfl⟩ := hl
    exact ⟨(hf r hr).1, hpay payload hok⟩
  | pop seq =>
    obtain ⟨front, hfront, rfl⟩ := hl
    exact (hf front (List.mem_of_head? hfront)).1

namespace Sited

variable {cfg : AppendLogConfig} {ram ram' : Ram} {d d' : Disk}

lemma bytes_ge (h : Sited cfg ram d) : kSegmentHeaderBytes ≤ ram.activeSegmentBytes := by
  have := (h.extents _ ram.tail_mem_gens).1
  rwa [Ram.extent_tail] at this

lemma bytes_ne (h : Sited cfg ram d) : ram.activeSegmentBytes ≠ 0 :=
  (Nat.lt_of_lt_of_le (by decide : 0 < kSegmentHeaderBytes) h.bytes_ge).ne'

lemma gen_ne (h : Sited cfg ram d) {g gen : ℕ} (hg : g ∈ ram.gens)
    (hgen : ram.nextGeneration ≤ gen) : g ≠ gen := by
  have := h.generations.below g hg
  omega

lemma name_ne (h : Sited cfg ram d) {g gen : ℕ} (hg : g ∈ ram.gens)
    (hgen : ram.nextGeneration ≤ gen) (hlt : gen < 2 ^ 32) : segmentName g ≠ segmentName gen :=
  segmentName_ne (h.generations.gen_lt hg) hlt (h.gen_ne hg hgen)

/-- The tail file reaches at least to the end of the log. -/
lemma tail_file (h : Sited cfg ram d) {old : Bytes}
    (hold : d.lookup (segmentName ram.activeGeneration) = some old) :
    ram.activeSegmentBytes ≤ old.length := by
  obtain ⟨data, hd, hle⟩ := h.held _ ram.tail_mem_gens
  obtain rfl := Option.some.inj (hd.symm.trans hold)
  rwa [Ram.extent_tail] at hle

/-- What touches neither the members but for sizes, nor the extents, keeps everything. -/
lemma frame (h : Sited cfg ram d) (hc : ram'.core = ram.core)
    (hsealed : ∀ g ∈ ram.gens, g ≠ ram.activeGeneration →
      ram'.sealedSegmentBytes g = ram.sealedSegmentBytes g)
    (hk : Keeps ram.gens ram.extent d d') :
    Sited cfg ram' d' ∧ ram'.contents d' = ram.contents d := by
  have hs := SameCore.of_core hc
  have hgens : ram'.gens = ram.gens := Ram.gens_congr hs.ranges hs.active
  have hext : ∀ g ∈ ram.gens, ram'.extent g = ram.extent g := by
    intro g hg
    rw [Ram.extent, Ram.extent, hs.active, hs.bytes]
    split
    · rfl
    · next hne => rw [hsealed g hg hne]
  have henclosed : Enclosed cfg ram.gens ram'.extent ram.records :=
    h.enclosed.mono h.enclosed.mem fun g hg => (hext g hg).ge
  refine ⟨⟨hs.mounted.trans h.mounted, h.generations.congr hs.ranges hs.active hs.next, ?_,
    fun g hg => ?_, ?_, ?_⟩, ?_⟩
  · rw [hs.gens, hgens, h.active]
  · rw [hgens] at hg
    rw [hext g hg]
    exact h.extents g hg
  · rw [hgens]
    exact (h.held.keeps hk).mono (fun _ hg => hg) fun g hg => (hext g hg).le
  · rw [hgens, hs.records]
    exact henclosed
  · rw [Ram.contents, Ram.contents, hs.records, h.enclosed.view h.held hk]

/-- The directory changes outside the extents. -/
lemma keep (h : Sited cfg ram d) (hk : Keeps ram.gens ram.extent d d') :
    Sited cfg ram d' ∧ ram.contents d' = ram.contents d := h.frame rfl (fun _ _ _ => rfl) hk

lemma noteSealed (h : Sited cfg ram d) : Sited cfg ram.noteSealed d ∧
    ram.noteSealed.contents d = ram.contents d := by
  refine h.frame rfl (fun g _ hne => ?_) (Keeps.of_lookup fun _ _ => rfl)
  rw [Ram.noteSealed]
  simp only
  rw [if_pos h.generations.tail_ne, Function.update_of_ne hne]

/-- A segment file is written, or damaged, that no manifest names. -/
lemma wrote (h : Sited cfg ram d) {gen : ℕ} (hgen : ram.nextGeneration ≤ gen)
    (hlt : gen < 2 ^ 32) (hd : SameExcept (segmentName gen) d d') (n m : ℕ) :
    Sited cfg (ram.trackWrite (segmentName gen) n m) d' ∧
      (ram.trackWrite (segmentName gen) n m).contents d' = ram.contents d := by
  refine h.frame (core_trackWrite ..) (fun g hg _ => ?_)
    (hd.keeps fun g hg => h.name_ne hg hgen hlt)
  rw [sealed_trackWrite_segment ram hlt, Function.update_of_ne (h.gen_ne hg hgen)]

/-! ## Opening a segment -/

section Opening

variable {harm : FsCall → Disk → Disk → Prop} {A : StoreMark → Disk → Prop}
  {ranges : List ManifestRange} {startSeq epoch : ℕ} {slot : Slot}

lemma lookup_opened {g : ℕ} (hg : segmentName g ≠ segmentName ram.nextGeneration) :
    (Disk.opened d ram ranges startSeq slot epoch).lookup (segmentName g) =
      d.lookup (segmentName g) := by
  rw [Disk.opened, Disk.publish, AList.lookup_insert_ne (segmentName_ne_slot g slot), Disk.create,
    AList.lookup_insert_ne hg]

lemma lookup_opened_self : (Disk.opened d ram ranges startSeq slot epoch).lookup
    (segmentName ram.nextGeneration) =
      some (serializeSegmentHeader ram.nextGeneration startSeq) := by
  rw [Disk.opened, Disk.publish, AList.lookup_insert_ne (segmentName_ne_slot _ slot), Disk.create,
    AList.lookup_insert]

lemma gens_opened {n : ℕ} (hne : ram.nextGeneration ≠ 0) :
    (ram.opened ranges slot epoch n).activeGenerations = (ram.opened ranges slot epoch n).gens :=
  congrArg (rangeGens ranges ++ ·) (if_pos hne)

/-- A segment that is opened is empty. -/
lemma extent_opened_self {n : ℕ} :
    (ram.opened ranges slot epoch n).extent ram.nextGeneration = kSegmentHeaderBytes := if_pos rfl

/-- Opening a segment leaves the others as they are. -/
lemma extent_opened (h : Sited cfg ram d) (ho : Opens harm A ram d ranges startSeq slot epoch)
    (n : ℕ) {g : ℕ} (hg : g ∈ ram.gens) :
    (ram.opened ranges slot epoch n).extent g = ram.extent g := by
  obtain ⟨-, -, hnote⟩ := ho.shape.resolve_right fun hs => h.bytes_ne hs.2
  have hne := h.gen_ne hg le_rfl
  have hactive : (ram.opened ranges slot epoch n).activeGeneration = ram.nextGeneration := rfl
  have hsealed := sealed_opened ram ranges slot epoch n (Nat.lt_of_succ_lt ho.gen_lt)
  -- the size of the old tail was recorded
  have htail : ram.sealedSegmentBytes ram.activeGeneration = some ram.activeSegmentBytes := by
    rw [← congrArg (fun r : Ram => r.sealedSegmentBytes ram.activeGeneration) hnote, Ram.noteSealed]
    simp only
    rw [if_pos h.generations.tail_ne, Function.update_self]
  rw [Ram.extent_of_ne (by rwa [hactive]), hsealed, Function.update_of_ne hne]
  by_cases hg' : g = ram.activeGeneration
  · rw [hg', Ram.extent_tail, htail]
    rfl
  · rw [Ram.extent_of_ne hg']

/-- A rotation. -/
lemma opened (h : Sited cfg ram d) (ho : Opens harm A ram d ranges startSeq slot epoch) (n : ℕ) :
    Sited cfg (ram.opened ranges slot epoch n) (Disk.opened d ram ranges startSeq slot epoch) ∧
      (ram.opened ranges slot epoch n).contents (Disk.opened d ram ranges startSeq slot epoch) =
        ram.contents d := by
  obtain ⟨hranges, hlen, -⟩ := ho.shape.resolve_right fun hs => h.bytes_ne hs.2
  obtain ⟨hgen, hgens⟩ := h.generations.opened hranges hlen ho.gen_lt slot epoch n
  have hlt := Nat.lt_of_succ_lt ho.gen_lt
  have hnext : (ram.opened ranges slot epoch n).extent ram.nextGeneration = kSegmentHeaderBytes :=
    extent_opened_self
  have hext : ∀ g ∈ ram.gens, (ram.opened ranges slot epoch n).extent g = ram.extent g :=
    fun g hg => h.extent_opened ho n hg
  have hkeeps : Keeps ram.gens ram.extent d (Disk.opened d ram ranges startSeq slot epoch) :=
    Keeps.of_lookup fun g hg => lookup_opened (h.name_ne hg le_rfl hlt)
  refine ⟨⟨h.mounted, hgen, ?_, fun g hg => ?_, ?_, ?_⟩, h.enclosed.view h.held hkeeps⟩
  · exact gens_opened h.generations.next_ne
  · rw [hgens] at hg
    rcases List.mem_append.1 hg with hg | hg
    · rw [hext g hg]
      exact h.extents g hg
    · rw [List.mem_singleton.1 hg, hnext]
      exact ⟨le_rfl, by decide⟩
  · rw [hgens]
    refine ((h.held.keeps hkeeps).mono (fun _ hg => hg) fun g hg => (hext g hg).le).append
      fun g hg => ?_
    rw [List.mem_singleton.1 hg]
    exact ⟨_, lookup_opened_self, by rw [hnext, length_serializeSegmentHeader]⟩
  · rw [hgens]
    exact h.enclosed.mono (fun r hr => List.mem_append_left _ (h.enclosed.mem r hr))
      fun g hg => (hext g hg).ge

/-- A segment is created, and its manifest is not written. -/
lemma openFailed (h : Sited cfg ram d) (hlt : ram.nextGeneration < 2 ^ 32)
    (hd : SameExcept slot.fileName (Disk.create d ram.nextGeneration startSeq) d') :
    Sited cfg (ram.created ram.nextGeneration) d' ∧
      (ram.created ram.nextGeneration).contents d' = ram.contents d := by
  refine h.frame (core_trackWrite ..) (fun g hg _ => ?_) (Keeps.of_lookup fun g hg => ?_)
  · rw [sealed_created ram hlt, Function.update_of_ne (h.gen_ne hg le_rfl)]
  · rw [hd _ (segmentName_ne_slot g slot), Disk.create,
      AList.lookup_insert_ne (h.name_ne hg le_rfl hlt)]

end Opening

/-! ## Logging -/

section Logging

variable {e : LogEvent}

/-- The index after an event is that of a keyed log of locations. -/
lemma records_logged (hl : Loggable cfg ram e)
    (hle : ram.activeSegmentBytes + e.encode.length < 2 ^ 32) :
    (ram.logged e).records = QueueLog.step SegmentRecord.sequence ram.records
      (e.located ram.activeGeneration ram.activeSegmentBytes) := by
  have hu : ∀ magic seq (payload : Bytes),
      ram.activeSegmentBytes + (serializePayloadEvent magic seq payload).length < 2 ^ 32 →
      u32 (ram.activeSegmentBytes + kEnqueueHeaderBytes) =
        ram.activeSegmentBytes + kEnqueueHeaderBytes ∧ u32 payload.length = payload.length := by
    intro magic seq payload hlt
    rw [length_serializePayloadEvent] at hlt
    simp only [kEnqueueOverheadBytes, kEnqueueHeaderBytes, kEventTrailerBytes] at hlt
    exact ⟨u32_of_lt (by simp only [kEnqueueHeaderBytes]; omega), u32_of_lt (by omega)⟩
  cases e with
  | enqueue seq payload =>
    obtain ⟨h1, h2⟩ := hu _ _ _ hle
    show ram.records ++ [_] = _
    rw [h1, h2]
    rfl
  | rewrite seq payload =>
    obtain ⟨h1, h2⟩ := hu _ _ _ hle
    obtain ⟨-, r, hr, hs⟩ := hl
    show (replaceRecord _ ram.records).getD ram.records = QueueLog.putInto _ _ _
    obtain ⟨rs, hrs⟩ := Option.isSome_iff_exists.1
      (QueueLog.isSome_replaceFirst (r := (⟨seq, ram.activeGeneration,
        ram.activeSegmentBytes + kEnqueueHeaderBytes, payload.length⟩ : SegmentRecord)) hr hs)
    show (replaceRecord ⟨seq, ram.activeGeneration, u32 (ram.activeSegmentBytes +
      kEnqueueHeaderBytes), u32 payload.length⟩ ram.records).getD ram.records = _
    rw [h1, h2, QueueLog.putInto, replaceRecord, hrs]
    rfl
  | pop seq =>
    obtain ⟨front, hfront, hs⟩ := hl
    show ram.records.tail = QueueLog.dropFront _ _ _
    cases hr : ram.records with
    | nil => rfl
    | cons x xs =>
      rw [hr] at hfront
      obtain rfl := Option.some.inj hfront
      exact (if_pos hs).symm

lemma extent_logged (g : ℕ) (hle : ram.activeSegmentBytes + e.encode.length < 2 ^ 32) :
    (ram.logged e).extent g = if g = ram.activeGeneration then
      ram.activeSegmentBytes + e.encode.length else ram.extent g := by
  have hu : u32 (ram.activeSegmentBytes + u32 e.encode.length) =
      ram.activeSegmentBytes + e.encode.length := by
    rw [u32_of_lt (Nat.lt_of_le_of_lt (Nat.le_add_left _ _) hle), u32_of_lt hle]
  have hfields : (ram.logged e).activeGeneration = ram.activeGeneration ∧
      (ram.logged e).activeSegmentBytes = u32 (ram.activeSegmentBytes + u32 e.encode.length) ∧
        (ram.logged e).sealedSegmentBytes = ram.sealedSegmentBytes := by
    cases e <;> exact ⟨rfl, rfl, rfl⟩
  rw [Ram.extent, hfields.1, hfields.2.1, hfields.2.2, hu, Ram.extent]
  split <;> rfl

/-- The location of the event lies after all records of the tail. -/
lemma fresh_located (h : Sited cfg ram d) (he : e.Fits cfg.maxRecordBytes)
    (hle : ram.activeSegmentBytes + e.encode.length < 2 ^ 32) {r : SegmentRecord}
    (hw : (e.located ram.activeGeneration ram.activeSegmentBytes).Writes r) :
    r.Fresh cfg ram.gens (ram.logged e).extent ram.records := by
  have hmem : e.located ram.activeGeneration ram.activeSegmentBytes ∈
      locate ram.activeGeneration ram.activeSegmentBytes [e] := List.mem_singleton_self _
  have hgen := located_writes hmem hw
  obtain ⟨h1, h2⟩ := locate_bounds hmem hw
  rw [encodeEvents_cons, encodeEvents_nil, List.append_nil] at h2
  have hge := h.bytes_ge
  refine ⟨⟨?_, hgen ▸ ram.tail_mem_gens, by omega, ?_⟩, fun r' hr' hg => ?_⟩
  · exact located_fits (fun ev hev => List.mem_singleton.1 hev ▸ he) hmem hw
  · rw [hgen, extent_logged _ hle, if_pos rfl]
    exact h2
  · have hstop := (h.enclosed r' hr').stop_le
    rw [hg, hgen, Ram.extent_tail] at hstop
    rw [SegmentRecord.start]
    omega

/-- An event written over what follows the log of the tail. -/
lemma overwrite_eq {old data : Bytes} {offset : ℕ} (h : offset ≤ old.length) :
    overwrite old offset data = old.take offset ++ (data ++ old.drop (offset + data.length)) := by
  rw [overwrite, Nat.sub_eq_zero_of_le h, List.replicate_zero, List.nil_append]

/-- Logging an event. -/
lemma logged (h : Sited cfg ram d) (hl : Loggable cfg ram e)
    (hle : ram.activeSegmentBytes + e.encode.length < 2 ^ 32) {old : Bytes}
    (hold : d.lookup (segmentName ram.activeGeneration) = some old) :
    Sited cfg (ram.logged e) (d.insert (segmentName ram.activeGeneration)
        (overwrite old ram.activeSegmentBytes e.encode)) ∧
      (ram.logged e).contents (d.insert (segmentName ram.activeGeneration)
        (overwrite old ram.activeSegmentBytes e.encode)) =
          QueueLog.step Prod.fst (ram.contents d) e.keyed := by
  have hfits := hl.fits h.enclosed.fits
  have hfile := h.tail_file hold
  rw [overwrite_eq hfile]
  generalize hnew : old.take ram.activeSegmentBytes ++
    (e.encode ++ old.drop (ram.activeSegmentBytes + e.encode.length)) = new
  have htake : (old.take ram.activeSegmentBytes).length = ram.activeSegmentBytes := by
    rw [List.length_take]
    omega
  have hlen : ram.activeSegmentBytes + e.encode.length ≤ new.length := by
    rw [← hnew, List.length_append, List.length_append, htake]
    omega
  have hself : (d.insert (segmentName ram.activeGeneration) new).lookup
      (segmentName ram.activeGeneration) = some new := AList.lookup_insert _
  have hother : ∀ g ∈ ram.gens, g ≠ ram.activeGeneration →
      (d.insert (segmentName ram.activeGeneration) new).lookup (segmentName g) =
        d.lookup (segmentName g) := fun g hg hne =>
    AList.lookup_insert_ne (segmentName_ne (h.generations.gen_lt hg)
      (h.generations.gen_lt ram.tail_mem_gens) hne)
  have hkeeps : Keeps ram.gens ram.extent d (d.insert (segmentName ram.activeGeneration) new) := by
    intro g hg data hd _
    by_cases hg' : g = ram.activeGeneration
    · subst hg'
      obtain rfl := Option.some.inj (hd.symm.trans hold)
      refine ⟨new, hself, ?_⟩
      rw [Ram.extent_tail, ← hnew, List.take_left' htake]
    · exact ⟨data, (hother g hg hg').trans hd, rfl⟩
  have hextent : ∀ g, ram.extent g ≤ (ram.logged e).extent g := by
    intro g
    rw [extent_logged g hle]
    split
    · next hg' =>
      rw [hg', Ram.extent_tail]
      omega
    · exact le_rfl
  have hfields : (ram.logged e).manifestRanges = ram.manifestRanges ∧
      (ram.logged e).activeGeneration = ram.activeGeneration ∧
        (ram.logged e).nextGeneration = ram.nextGeneration ∧
          (ram.logged e).activeGenerations = ram.activeGenerations ∧
            (ram.logged e).mounted = ram.mounted := by
    cases e <;> exact ⟨rfl, rfl, rfl, rfl, rfl⟩
  obtain ⟨hr, ha, hn, hag, hm⟩ := hfields
  have hgens : (ram.logged e).gens = ram.gens := Ram.gens_congr hr ha
  have henclosed : Enclosed cfg ram.gens (ram.logged e).extent ram.records :=
    h.enclosed.mono h.enclosed.mem fun g _ => hextent g
  have hrec := records_logged hl hle
  refine ⟨⟨hm.trans h.mounted, h.generations.congr hr ha hn, ?_, fun g hg => ?_,
    fun g hg => ?_, ?_⟩,
    ?_⟩
  · rw [hag, hgens, h.active]
  · rw [hgens] at hg
    have := h.extents g hg
    rw [extent_logged g hle]
    split
    · have := h.bytes_ge
      omega
    · exact this
  · rw [hgens] at hg
    rw [extent_logged g hle]
    split
    · next hg' => exact ⟨new, hg' ▸ hself, hlen⟩
    · exact (h.held.keeps hkeeps) g hg
  · rw [hgens, hrec]
    exact henclosed.step fun r hw => (h.fresh_located hfits hle hw).toInside
  · have hlog : (d.insert (segmentName ram.activeGeneration) new).lookup
        (segmentName ram.activeGeneration) = some (old.take ram.activeSegmentBytes ++
          (encodeEvents [e] ++ old.drop (ram.activeSegmentBytes + e.encode.length))) := by
      rw [hself, ← hnew, encodeEvents_cons, encodeEvents_nil, List.append_nil]
    have hview := view_locate hlog
    rw [htake] at hview
    have hkeyed := (List.cons.inj hview).1
    have hkey : ∀ r, Prod.fst (SegmentRecord.view
      (d.insert (segmentName ram.activeGeneration) new) r) = r.sequence := fun _ => rfl
    rw [Ram.contents, hrec, ← QueueLog.step_map hkey, hkeyed, h.enclosed.view h.held hkeeps]
    rfl

/-- The write of an event fails, and may damage the tail from its end on. -/
lemma logFailed (h : Sited cfg ram d) {data : Bytes}
    (hd : damage (.writeAt (segmentName ram.activeGeneration) ram.activeSegmentBytes data) d d') :
    Sited cfg ram d' ∧ ram.contents d' = ram.contents d := by
  refine h.keep fun g hg old hold hle => ?_
  by_cases hg' : g = ram.activeGeneration
  · subst hg'
    obtain ⟨new, hnew, htake⟩ := hd.2 old hold
    refine ⟨new, hnew, ?_⟩
    rw [Ram.extent_tail] at hle ⊢
    rwa [min_eq_left hle] at htake
  · exact ⟨old, (hd.1 _ (segmentName_ne (h.generations.gen_lt hg)
      (h.generations.gen_lt ram.tail_mem_gens) hg')).trans hold, rfl⟩

end Logging

/-! ## Compacting -/

section Compacting

variable {harm : FsCall → Disk → Disk → Prop} {A : StoreMark → Disk → Prop} {ram₀ : Ram} {d₀ : Disk}
  {plan : CompactionPlan} {idx : ℕ} {parent : ManifestRange} {input : CompactionRange}
  {live : List CompactionLiveRecord} {out : List OutputSeg} {slot : Slot} {epoch n : ℕ}

lemma prepared (h : Sited cfg ram₀ d₀) (hp : Prepared cfg harm A ram₀ d₀ plan ram d) :
    Sited cfg ram d ∧ ram.contents d = ram₀.contents d₀ := by
  cases hp with
  | asIs => exact ⟨h, rfl⟩
  | rotated _ ho hn =>
    obtain ⟨h1, hc1⟩ := h.noteSealed
    obtain ⟨h2, hc2⟩ := h1.opened ho _
    exact ⟨h2, hc2.trans hc1⟩

/-- Where an output segment has the records packed into it. -/
lemma located_output (h : Sited cfg ram d)
    (hc : Compacts cfg harm A ram₀ d₀ plan ram d idx parent input live out)
    (hsize : ∀ o ∈ out, o.data.length < 2 ^ 32) {rep : SegmentRecord}
    (hrep : rep ∈ out.flatMap OutputSeg.locations) : ∃ o ∈ out, rep ∈ o.locations ∧
      rep.segmentGeneration = o.gen ∧
        kSegmentHeaderBytes + kEnqueueHeaderBytes ≤ rep.payloadOffset ∧
        rep.stop ≤ o.data.length ∧ rep.Fits cfg := by
  have hfits := h.enclosed.fits
  obtain ⟨o, ho, hm⟩ := List.mem_flatMap.1 hrep
  obtain ⟨h1, h2, h3⟩ := (o.locations_spec (hc.output_fits hfits o ho) (hsize o ho)).1 rep hm
  exact ⟨o, ho, hm, h1, h2, h3, o.fits_locations (hc.output_fits hfits o ho) rep hm⟩

/-- A record outside the input of a compaction lies in a segment that stays. -/
lemma outside_input (h : Sited cfg ram d)
    (hc : Compacts cfg harm A ram₀ d₀ plan ram d idx parent input live out) {r : SegmentRecord}
    (hr : r ∈ ram.records) (hp : ¬input.Contains r.segmentGeneration) :
    r.segmentGeneration ∈ input.before ram.gens ++ input.after ram.gens := by
  have hm := h.enclosed.mem r hr
  rw [h.generations.gens_eq hc.part] at hm
  simp only [List.mem_append] at hm ⊢
  have hi := mt CompactionRange.mem_gens.1 hp
  tauto

/-- A compaction takes effect, whatever becomes of the input files. -/
lemma compacted (h₀ : Sited cfg ram₀ d₀)
    (hc : Compacts cfg harm A ram₀ d₀ plan ram d idx parent input live out)
    (hA : ∀ mk d, A mk d → OffsetsFit mk)
    (hr : Removed harm input.gens
      ((ram.wroteAll out).published slot (ram.compactionAt epoch idx parent input out) n)
      (Disk.publish (Disk.writeAll d out) slot (ram.compactionAt epoch idx parent input out))
      ram' d') :
    Sited cfg ((ram'.forgetInput input).moveRecords input (out.flatMap OutputSeg.locations)) d' ∧
      Rewritten ram d input out
        ((ram'.forgetInput input).moveRecords input (out.flatMap OutputSeg.locations)) d' ∧
      ((ram'.forgetInput input).moveRecords input (out.flatMap OutputSeg.locations)).records =
        ram.records.map (moveTo (fun r => input.Contains r.segmentGeneration)
          (out.flatMap OutputSeg.locations)) := by
  obtain ⟨h, -⟩ := h₀.prepared hc.prepared
  have ha := hr.afterCompaction
  have hw := h.generations.rewritten h₀.generations hc hA hr
  generalize hfinal : (ram'.forgetInput input).moveRecords input
    (out.flatMap OutputSeg.locations) = final at ha hw ⊢
  have hgens := hw.gens
  have hkept := fun {g} hg => hw.kept (g := g) hg
  have hsize := hw.size
  have hdata : ∀ o ∈ out, kSegmentHeaderBytes ≤ o.data.length := fun o _ => by
    rw [OutputSeg.length_data]
    exact Nat.le_add_right _ _
  refine ⟨⟨ha.mounted.trans h.mounted, hw.generations, ?_, fun g hg => ?_, fun g hg => ?_, ?_⟩, hw,
    ha.records⟩
  · rw [ha.gens, Ram.gens, ha.active]
    exact congrArg (rangeGens final.manifestRanges ++ ·) (if_pos h.generations.tail_ne)
  · rcases hw.cases hg with hk | ⟨o, ho, rfl⟩
    · rw [hw.extent_kept hk]
      exact h.extents g (hkept hk).1
    · rw [hw.extent_out o ho]
      exact ⟨hdata o ho, hsize o ho⟩
  · rcases hw.cases hg with hk | ⟨o, ho, rfl⟩
    · rw [hw.extent_kept hk, hw.lookup_kept hk]
      exact h.held g (hkept hk).1
    · exact ⟨_, hw.lookup_out o ho, (hw.extent_out o ho).le⟩
  · rw [ha.records]
    apply h.enclosed.move (fun r hr hin => ?_) (fun rep hrep => ?_) fun r hr hp => ?_
    · obtain ⟨rep, hmem, hview⟩ := hc.exists_place h.enclosed.fits hsize hw.lookup_out hr hin
      exact ⟨rep, hmem, congrArg Prod.fst hview⟩
    · obtain ⟨o, ho, -, h1, h2, h3, h4⟩ := h.located_output hc hsize hrep
      refine ⟨h4, ?_, h2, ?_⟩
      · rw [hgens, h1]
        exact List.mem_append_left _ (List.mem_append_right _ (List.mem_map_of_mem ho))
      · rw [h1, hw.extent_out o ho]
        exact h3
    · have hk := h.outside_input hc hr hp
      refine ⟨?_, (hw.extent_kept hk).ge⟩
      rw [hgens]
      simp only [List.mem_append] at hk ⊢
      tauto

/-- A compaction whose manifest cannot be written. -/
lemma compactFailed (h₀ : Sited cfg ram₀ d₀)
    (hc : Compacts cfg harm A ram₀ d₀ plan ram d idx parent input live out)
    (hd : SameExcept slot.fileName (Disk.writeAll d out) d') :
    Sited cfg (ram.wroteAll out) d' ∧ (ram.wroteAll out).contents d' = ram₀.contents d₀ := by
  obtain ⟨h, hcontents⟩ := h₀.prepared hc.prepared
  have hlt := hc.gen_lt
  have hfresh : ∀ o ∈ out, ram.nextGeneration ≤ o.gen := fun o ho =>
    (Generations.output_fresh hc.gens (List.mem_map_of_mem ho)).1
  rw [← hcontents]
  refine h.frame (core_wroteAll ..) (fun g hg _ => ?_) (Keeps.of_lookup fun g hg => ?_)
  · refine sealed_wroteAll_of_not_mem hlt fun hm => ?_
    obtain ⟨o, ho, rfl⟩ := List.mem_map.1 hm
    exact h.gen_ne hg (hfresh o ho) rfl
  · rw [hd _ (segmentName_ne_slot g slot), lookup_writeAll_of_ne fun o ho =>
      h.name_ne hg (hfresh o ho) (hlt o ho)]

end Compacting

end Sited

namespace Coherent

variable {cfg : AppendLogConfig} {harm : FsCall → Disk → Disk → Prop} {A : StoreMark → Disk → Prop}
  {ram₀ ram ram' : Ram} {d₀ d d' : Disk} {plan : CompactionPlan} {idx : ℕ} {parent : ManifestRange}
  {input : CompactionRange} {live : List CompactionLiveRecord} {out : List OutputSeg} {slot : Slot}
  {epoch n : ℕ} {e : LogEvent}

/-- Where the records stay the same, they stay in place. -/
lemma of_sited (h : Coherent cfg ram d) (hs : Sited cfg ram' d')
    (hrecords : ram'.records = ram.records) : Coherent cfg ram' d' :=
  ⟨hs, hrecords ▸ h.placed.mono (hrecords ▸ hs.enclosed)⟩

lemma prepared (h : Coherent cfg ram₀ d₀) (hp : Prepared cfg harm A ram₀ d₀ plan ram d) :
    Coherent cfg ram d := by
  apply h.of_sited (h.toSited.prepared hp).1
  cases hp <;> rfl

/-- Logging an event. -/
lemma logged (h : Coherent cfg ram d) (hl : Loggable cfg ram e)
    (hle : ram.activeSegmentBytes + e.encode.length < 2 ^ 32) {old : Bytes}
    (hold : d.lookup (segmentName ram.activeGeneration) = some old) :
    Coherent cfg (ram.logged e) (d.insert (segmentName ram.activeGeneration)
      (overwrite old ram.activeSegmentBytes e.encode)) := by
  obtain ⟨hs, -⟩ := h.toSited.logged hl hle hold
  have hrecords := Sited.records_logged hl hle
  have hfits := hl.fits h.enclosed.fits
  have hgens : (ram.logged e).gens = ram.gens := by
    cases e <;> rfl
  refine ⟨hs, ?_⟩
  have henclosed : Enclosed cfg ram.gens (ram.logged e).extent ram.records :=
    h.enclosed.mono h.enclosed.mem fun g _ => by
      rw [Sited.extent_logged g hle]
      split
      · next hg =>
        rw [hg, Ram.extent_tail]
        omega
      · exact le_rfl
  rw [hgens, hrecords]
  apply (h.placed.mono henclosed).step fun r hw => h.toSited.fresh_located hfits hle hw
  · rintro r hr back hback
    cases e with
    | enqueue =>
      obtain rfl := QueueLog.Event.push.inj hr
      exact hl.2.2 back hback
    | rewrite => cases hr
    | pop => cases hr
  · rintro r hr
    cases e with
    | enqueue => cases hr
    | rewrite =>
      obtain rfl := QueueLog.Event.put.inj hr
      exact hl.2
    | pop => cases hr

/-- A compaction takes effect, whatever becomes of the input files. -/
lemma compacted (h₀ : Coherent cfg ram₀ d₀)
    (hc : Compacts cfg harm A ram₀ d₀ plan ram d idx parent input live out)
    (hA : ∀ mk d, A mk d → OffsetsFit mk)
    (hr : Removed harm input.gens
      ((ram.wroteAll out).published slot (ram.compactionAt epoch idx parent input out) n)
      (Disk.publish (Disk.writeAll d out) slot (ram.compactionAt epoch idx parent input out))
      ram' d') :
    Coherent cfg ((ram'.forgetInput input).moveRecords input (out.flatMap OutputSeg.locations)) d' ∧
      ((ram'.forgetInput input).moveRecords input (out.flatMap OutputSeg.locations)).contents d' =
        ram₀.contents d₀ := by
  have h := h₀.prepared hc.prepared
  obtain ⟨hs, hw, hrecords⟩ := h₀.toSited.compacted hc hA hr
  have hplace := fun {r} (hr : r ∈ ram.records) hin =>
    hc.place h.enclosed.fits h.placed.nodup hw.size hw.lookup_out hr hin
  refine ⟨⟨hs, ?_⟩, ?_⟩
  · have henclosed := hs.enclosed
    rw [hrecords] at henclosed ⊢
    refine h.placed.move (fun r hr hin => ?_) henclosed (fun rep hrep rep' hrep' hne => ?_)
      fun rep hrep r hr hp => ?_
    · obtain ⟨rep, hfind, -⟩ := hplace hr hin
      exact ⟨rep, List.mem_of_find?_eq_some hfind, by simpa using List.find?_some hfind⟩
    · obtain ⟨o, ho, hm, h1, -⟩ := h.toSited.located_output hc hw.size hrep
      obtain ⟨o', ho', hm', h1', -⟩ := h.toSited.located_output hc hw.size hrep'
      intro hg
      obtain rfl : o = o' := List.inj_on_of_nodup_map hc.nodup ho ho' (h1.symm.trans (hg.trans h1'))
      have hp := (o.locations_spec (hc.output_fits h.enclosed.fits o ho) (hw.size o ho)).2
      have hap : o.locations.Pairwise SegmentRecord.Apart := hp.imp fun hle _ => .inl hle
      exact hap.forall hm hm' (fun he => hne (congrArg SegmentRecord.sequence he)) hg
    · obtain ⟨o, ho, -, h1, -⟩ := h.toSited.located_output hc hw.size hrep
      exact fun he => (hw.kept (h.toSited.outside_input hc hr hp)).2.2
        (he ▸ h1 ▸ List.mem_map_of_mem ho)
  · rw [← (h₀.toSited.prepared hc.prepared).2, Ram.contents, Ram.contents, hrecords, List.map_map]
    refine List.map_congr_left fun r hr => ?_
    simp only [Function.comp, moveTo]
    split
    · next hin =>
      obtain ⟨rep, hfind, hview⟩ := hplace hr hin
      rw [hfind]
      exact hview
    · next hp =>
      rw [SegmentRecord.view, SegmentRecord.view,
        hw.lookup_kept (h.toSited.outside_input hc hr hp)]

end Coherent

/-! ## Before the first segment -/

/-- A mounted object in whose directory no segment was opened yet. -/
structure Blank (ram : Ram) : Prop where
  mounted : ram.mounted = true
  bytes : ram.activeSegmentBytes = 0
  active : ram.activeGeneration = 0
  ranges : ram.manifestRanges = []
  gens : ram.activeGenerations = []
  records : ram.records = []
  next_ne : ram.nextGeneration ≠ 0

namespace Blank

variable {cfg : AppendLogConfig} {harm : FsCall → Disk → Disk → Prop} {A : StoreMark → Disk → Prop}
  {ram ram' : Ram} {d d' : Disk}

lemma of_core (h : Blank ram) (hc : ram'.core = ram.core) : Blank ram' := by
  have hs := SameCore.of_core hc
  exact ⟨hs.mounted.trans h.mounted, hs.bytes.trans h.bytes, hs.active.trans h.active,
    hs.ranges.trans h.ranges, hs.gens.trans h.gens, hs.records.trans h.records,
    fun hn => h.next_ne (hs.next.symm.trans hn)⟩

lemma noteSealed (h : Blank ram) : ram.noteSealed = ram := by
  rw [Ram.noteSealed, if_neg (not_not.2 h.active)]

lemma sealTail (h : Blank ram) : ram.sealTail = ram.manifestRanges := by
  rw [Ram.sealTail, if_neg (not_not.2 h.active)]

/-- No compaction is planned without ranges. -/
lemma not_planned (h : Blank ram) {range : CompactionRange} {fallback : AllowFullRangeFallback} :
    ram.planCompaction cfg range fallback = none := by
  have hnone : findParentRangeIdx ram.manifestRanges range = none := by
    rw [findParentRangeIdx, h.ranges]
    split <;> rfl
  rw [Ram.planCompaction, hnone]
  rfl

/-- The first segment is opened. -/
lemma opened (h : Blank ram) {ranges : List ManifestRange} {startSeq epoch : ℕ} {slot : Slot}
    (ho : Opens harm A ram d ranges startSeq slot epoch) (n : ℕ) :
    Coherent cfg (ram.opened ranges slot epoch n) (Disk.opened d ram ranges startSeq slot epoch) ∧
      (ram.opened ranges slot epoch n).contents (Disk.opened d ram ranges startSeq slot epoch) =
        [] := by
  obtain rfl : ranges = ram.manifestRanges := by
    rcases ho.shape with ⟨hr, -⟩ | ⟨hr, -⟩
    · rw [hr, h.sealTail]
    · exact hr
  obtain ⟨hG, hgens⟩ := Generations.first h.ranges h.next_ne ho.gen_lt slot epoch n
  have hrec : (ram.opened ram.manifestRanges slot epoch n).records = [] := h.records
  have hext : (ram.opened ram.manifestRanges slot epoch n).extent ram.nextGeneration =
      kSegmentHeaderBytes := if_pos rfl
  refine ⟨⟨⟨h.mounted, hG, Sited.gens_opened h.next_ne, fun g hg => ?_, fun g hg => ?_, ?_⟩, ?_⟩,
    ?_⟩
  · rw [hgens] at hg
    rw [List.mem_singleton.1 hg, hext]
    exact ⟨le_rfl, by decide⟩
  · rw [hgens] at hg
    rw [List.mem_singleton.1 hg, hext]
    exact ⟨_, Sited.lookup_opened_self, by rw [length_serializeSegmentHeader]⟩
  · rw [hrec]
    exact Enclosed.nil
  · rw [hrec]
    exact Placed.nil
  · rw [Ram.contents, hrec]
    rfl

end Blank

/-! ## Runs -/

/-- An object that is mounted, with the contents `L`. -/
def Ready (cfg : AppendLogConfig) (ram : Ram) (d : Disk) (L : List (ℕ × Bytes)) : Prop :=
  Blank ram ∧ L = [] ∨ Coherent cfg ram d ∧ ram.contents d = L

/-- What a list of events does to the contents. -/
def afterEvents (L : List (ℕ × Bytes)) (evs : List LogEvent) : List (ℕ × Bytes) :=
  QueueLog.replay Prod.fst L (evs.map LogEvent.keyed)

lemma afterEvents_append (L : List (ℕ × Bytes)) (evs evs' : List LogEvent) :
    afterEvents L (evs ++ evs') = afterEvents (afterEvents L evs) evs' := by
  rw [afterEvents, List.map_append, QueueLog.replay_append]
  rfl

namespace Ready

variable {cfg : AppendLogConfig} {harm : FsCall → Disk → Disk → Prop} {A : StoreMark → Disk → Prop}
  {ram ram' : Ram} {d d' : Disk} {L : List (ℕ × Bytes)} {evs : List LogEvent}

lemma mounted (h : Ready cfg ram d L) : ram.mounted = true :=
  h.elim (fun h => h.1.mounted) fun h => h.1.mounted

lemma contents (h : Ready cfg ram d L) : ram.contents d = L := by
  rcases h with ⟨h, rfl⟩ | ⟨-, h⟩
  · rw [Ram.contents, h.records]
    rfl
  · exact h

/-- **One move** keeps the invariant, and changes the contents as the events it logs. -/
theorem move (hd : Damaging harm) (hA : ∀ mk d, A mk d → OffsetsFit mk)
    (h : Ready cfg ram d L) (hm : Move cfg harm A ram d evs ram' d') :
    Ready cfg ram' d' (afterEvents L evs) := by
  have quiet : ∀ {ram' : Ram} {d' : Disk}, (Blank ram → Blank ram') →
      ram'.records = ram.records →
      (Sited cfg ram d → Sited cfg ram' d' ∧ ram'.contents d' = ram.contents d) →
        Ready cfg ram' d' (afterEvents L []) := by
    intro ram' d' hb hrecords hs
    rcases h with ⟨h, rfl⟩ | ⟨h, rfl⟩
    · exact .inl ⟨hb h, rfl⟩
    · exact .inr ⟨h.of_sited (hs h.toSited).1 hrecords, (hs h.toSited).2⟩
  cases hm with
  | lock hlock =>
    exact quiet id rfl fun h => h.keep (hlock.keeps fun g _ => segmentName_ne_lock g)
  | noteSealed => exact quiet (fun h => h.of_core rfl) rfl fun h => h.noteSealed
  | wrote hg hlt hA =>
    exact quiet (fun h => h.of_core (core_trackWrite ..)) rfl fun h =>
      h.wrote hg hlt (fun _ hne => AList.lookup_insert_ne hne) _ _
  | writeFailed hg hlt hw =>
    exact quiet id rfl fun h => h.keep ((hd _ _ _ hw : SameExcept _ _ _).keeps
      fun g hg' => h.name_ne hg' hg hlt)
  | opened ho hn =>
    rcases h with ⟨h, rfl⟩ | ⟨h, rfl⟩
    · exact .inr (h.opened ho _)
    · obtain ⟨hs, hcontents⟩ := h.toSited.opened ho _
      exact .inr ⟨h.of_sited hs rfl, hcontents⟩
  | openFailed ho hw =>
    exact quiet (fun h => h.of_core (core_trackWrite ..)) rfl fun h =>
      h.openFailed (Nat.lt_of_succ_lt ho.gen_lt) (hd _ _ _ hw)
  | logged hl hopen hmark hold =>
    rcases h with ⟨h, rfl⟩ | ⟨h, rfl⟩
    · exact absurd h.bytes hopen
    · have hle : _ + _ ≤ 2 ^ 32 - 1 := hA _ _ hmark
      exact .inr ⟨h.logged hl (by omega) hold, (h.toSited.logged hl (by omega) hold).2⟩
  | logFailed hl hopen hmark hw =>
    exact quiet (fun h => absurd h.bytes hopen) rfl fun h => h.logFailed (hd _ _ _ hw)
  | compacted hc ht hn hmark hr =>
    rcases h with ⟨h, rfl⟩ | ⟨h, rfl⟩
    · obtain ⟨range, fallback, -, hplan⟩ := hc.planned
      rw [h.not_planned] at hplan
      cases hplan
    · exact .inr (h.compacted hc hA hr)
  | compactFailed hc ht hmark hw =>
    rcases h with ⟨h, rfl⟩ | ⟨h, rfl⟩
    · obtain ⟨range, fallback, -, hplan⟩ := hc.planned
      rw [h.not_planned] at hplan
      cases hplan
    · obtain ⟨hs, hcontents⟩ := h.toSited.compactFailed hc (hd _ _ _ hw)
      exact .inr ⟨(h.prepared hc.prepared).of_sited hs
        (SameCore.of_core (core_wroteAll ..)).records, hcontents⟩

/-- **Any sequence of moves** does. -/
theorem moves (hd : Damaging harm) (hA : ∀ mk d, A mk d → OffsetsFit mk)
    (h : Ready cfg ram d L) (hm : Moves cfg harm A ram d evs ram' d') :
    Ready cfg ram' d' (afterEvents L evs) :=
  hm.invariant (P := fun evs ram d => Ready cfg ram d (afterEvents L evs))
    (fun evs ram d evs' ram' d' hp hmove => by
      rw [afterEvents_append]
      exact hp.move hd hA hmove) h

end Ready

end Pqueue
