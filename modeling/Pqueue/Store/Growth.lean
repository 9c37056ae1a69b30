import Pqueue.Store.Accounting
import Pqueue.Store.Invariant

/-!
# The growth estimate

`appendGrowthBytes` bounds what an append adds to the files of a store, in every state that
operations without failing calls lead to (`FaultFree`), as long as none of its 32-bit sums wraps.
The estimate takes the old size of the slot that is overwritten from the counters, and the append
writes at the end that the object knows of the tail; so what carries the bound is `Sized`, which a
mount establishes and every move keeps (`Sized.move`).
-/

namespace Pqueue

open Effect LittleEndian

/-! ## Moves keep the sizes -/

section Moves

variable {cfg : AppendLogConfig} {harm : FsCall → Disk → Disk → Prop}
  {A : StoreMark → Disk → Prop} {ram ram' ram₀ : Ram} {d d' d₀ : Disk} {evs : List LogEvent}

lemma slotBytes_trackWrite (ram : Ram) (name : FileName) (n m : ℕ) :
    (ram.trackWrite name n m).manifestSlotBytes = ram.manifestSlotBytes := by
  obtain ⟨⟩ := ram
  simp only [Ram.trackWrite]

lemma slotBytes_wroteAll (ram : Ram) (out : List OutputSeg) :
    (ram.wroteAll out).manifestSlotBytes = ram.manifestSlotBytes := by
  induction out generalizing ram with
  | nil => rfl
  | cons o out ih =>
    have hcons : ram.wroteAll (o :: out) =
        (ram.trackWrite (segmentName o.gen) o.data.length 0).wroteAll out := rfl
    rw [hcons, ih, slotBytes_trackWrite]

/-- A slot that was written is as large as counted. -/
lemma slots_published {slot : Slot} {md : ManifestData} {n : ℕ}
    (h : ∀ s, ram.manifestSlotBytes s ≤ Disk.size d s.fileName) (s : Slot) :
    (ram.published slot md n).manifestSlotBytes s ≤
      Disk.size (Disk.publish d slot md) s.fileName := by
  have hupdate : (ram.published slot md n).manifestSlotBytes =
      Function.update ram.manifestSlotBytes slot (u32 (serialiseManifest md).length) := by
    show Function.update (ram.trackWrite slot.fileName (serialiseManifest md).length
      n).manifestSlotBytes _ _ = _
    rw [slotBytes_trackWrite]
  rw [hupdate]
  by_cases hs : s = slot
  · subst hs
    rw [Function.update_self, Disk.publish, Disk.size_insert]
    exact Nat.mod_le _ _
  · have hname : s.fileName ≠ slot.fileName := fun he => hs (slot_fileName_injective he)
    rw [Function.update_of_ne hs, Disk.publish, Disk.size_congr (AList.lookup_insert_ne hname)]
    exact h s

lemma length_overwrite (old : Bytes) (offset : ℕ) (data : Bytes) :
    (overwrite old offset data).length = max old.length (offset + data.length) := by
  simp only [overwrite, List.length_append, List.length_take, List.length_replicate,
    List.length_drop]
  omega

namespace Sized

/-- The members that matter are the same. -/
lemma congr (h : Sized ram d) (hactive : ram'.activeGeneration = ram.activeGeneration)
    (hbytes : ram'.activeSegmentBytes = ram.activeSegmentBytes)
    (hnext : ram'.nextGeneration = ram.nextGeneration)
    (hslots : ram'.manifestSlotBytes = ram.manifestSlotBytes) : Sized ram' d := by
  obtain ⟨h1, h2, h3, h4⟩ := h
  constructor
  · rwa [hactive, hbytes]
  · rwa [hslots]
  · rwa [hactive]
  · rwa [hactive, hbytes, hnext]

/-- A segment that is still to be written is not the tail. -/
lemma tail_ne (h : Sized ram d) (hopen : ram.activeSegmentBytes ≠ 0) {g : ℕ}
    (hg : ram.nextGeneration ≤ g) (hlt : g + 1 < 2 ^ 32) :
    segmentName ram.activeGeneration ≠ segmentName g := by
  intro he
  have heq := segmentName_injOn h.active_lt (Nat.lt_of_succ_lt hlt) he
  have hnext := h.next hopen
  omega

/-- A segment is written that no manifest names. -/
lemma wrote (h : Sized ram d) {g : ℕ} (hg : ram.nextGeneration ≤ g) (hlt : g + 1 < 2 ^ 32)
    (data : Bytes) (n m : ℕ) :
    Sized (ram.trackWrite (segmentName g) n m) (d.insert (segmentName g) data) := by
  apply h.frame (core_trackWrite ..) (slotBytes_trackWrite ..)
  · intro hopen data' hdata'
    rw [AList.lookup_insert_ne (h.tail_ne hopen hg hlt)] at hdata'
    exact ⟨data', hdata', le_rfl⟩
  · exact slots_insert d g data

/-- The output of a compaction is written. -/
lemma wroteAll (h : Sized ram d) {out : List OutputSeg}
    (hgens : out.map OutputSeg.gen = List.range' ram.nextGeneration out.length)
    (hlt : ∀ o ∈ out, o.gen + 1 < 2 ^ 32) : Sized (ram.wroteAll out) (Disk.writeAll d out) := by
  apply h.frame (core_wroteAll ..) (slotBytes_wroteAll ..)
  · intro hopen data hdata
    have hne : ∀ o ∈ out, segmentName ram.activeGeneration ≠ segmentName o.gen := fun o ho =>
      h.tail_ne hopen (Generations.output_fresh hgens (List.mem_map_of_mem ho)).1 (hlt o ho)
    rw [lookup_writeAll_of_ne hne] at hdata
    exact ⟨data, hdata, le_rfl⟩
  · exact slots_writeAll d out

/-- A manifest is written. -/
lemma published (h : Sized ram d) {md : ManifestData}
    (hnext : ram.nextGeneration ≤ md.nextGeneration) (slot : Slot) (n : ℕ) :
    Sized (ram.published slot md n) (Disk.publish d slot md) := by
  refine ⟨fun data hdata => ?_, slots_published h.slots, h.active_lt, fun hopen => ?_⟩
  · rw [Disk.publish, AList.lookup_insert_ne (segmentName_ne_slot _ slot)] at hdata
    exact h.tail data hdata
  · have hold := h.next hopen
    show ram.activeGeneration < md.nextGeneration ∨ ram.activeGeneration + 1 = 2 ^ 32
    omega

/-- A segment is opened. -/
lemma opened (h : Sized ram d) {ranges : List ManifestRange} {startSeq epoch : ℕ} {slot : Slot}
    (ho : Opens harm A ram d ranges startSeq slot epoch) (n : ℕ) :
    Sized (ram.opened ranges slot epoch n) (Disk.opened d ram ranges startSeq slot epoch) := by
  refine ⟨fun data hdata => ?_, ?_, Nat.lt_of_succ_lt ho.gen_lt, fun _ => .inl (Nat.lt_succ_self _)⟩
  · have hself : (Disk.opened d ram ranges startSeq slot epoch).lookup
        (segmentName ram.nextGeneration) = some data := hdata
    rw [Sited.lookup_opened_self] at hself
    obtain rfl := Option.some.inj hself
    rw [length_serializeSegmentHeader]
    exact le_rfl
  · apply slots_published
    intro s
    rw [Ram.created, slotBytes_trackWrite, Disk.create, Disk.size_congr (slots_insert _ _ _ s)]
    exact h.slots s

lemma noteSealed (h : Sized ram d) : Sized ram.noteSealed d :=
  h.congr rfl rfl rfl rfl

/-- Bytes are appended to the tail. -/
lemma appended (h : Sized ram d) (hopen : ram.activeSegmentBytes ≠ 0) (old data : Bytes) :
    Sized (ram.extendTail data.length) (d.insert (segmentName ram.activeGeneration)
      (overwrite old ram.activeSegmentBytes data)) := by
  refine ⟨fun data' hdata' => ?_, fun s => ?_, h.active_lt, fun _ => h.next hopen⟩
  · have hself : (d.insert (segmentName ram.activeGeneration)
        (overwrite old ram.activeSegmentBytes data)).lookup (segmentName ram.activeGeneration) =
          some data' := hdata'
    rw [AList.lookup_insert] at hself
    obtain rfl := Option.some.inj hself
    have hbytes : (ram.extendTail data.length).activeSegmentBytes ≤
        ram.activeSegmentBytes + data.length :=
      (Nat.mod_le _ _).trans (Nat.add_le_add_left (Nat.mod_le _ _) _)
    rw [length_overwrite]
    omega
  · rw [Disk.size_congr (slots_insert _ _ _ s)]
    exact h.slots s

lemma logged (h : Sized ram d) (hopen : ram.activeSegmentBytes ≠ 0) (e : LogEvent) (old : Bytes) :
    Sized (ram.logged e) (d.insert (segmentName ram.activeGeneration)
      (overwrite old ram.activeSegmentBytes e.encode)) := by
  cases e with
  | enqueue sequence payload => exact (h.appended hopen old _).congr rfl rfl rfl rfl
  | rewrite sequence payload => exact (h.appended hopen old _).congr rfl rfl rfl rfl
  | pop sequence => exact (h.appended hopen old _).congr rfl rfl rfl rfl

/-- Input files are removed. -/
lemma removed (h : Sized ram d) {gens : List ℕ} (hr : Removed harm gens ram d ram' d') :
    Sized ram' d' := by
  induction hr with
  | nil => exact h
  | @gone g _ ram d _ _ _ ih =>
    apply ih
    apply h.erased (core_dropSegment ..) (slotBytes_dropSegment ..)
    exact fun s => (segmentName_ne_slot g s).symm
  | kept _ _ ih => exact ih h

lemma prepared (h : Sized ram₀ d₀) {plan : CompactionPlan}
    (hp : Prepared cfg harm A ram₀ d₀ plan ram d) : Sized ram d := by
  cases hp with
  | asIs => exact h
  | rotated _ ho => exact h.noteSealed.opened ho _

/-- A compaction takes effect. -/
lemma compacted (h : Sized ram₀ d₀) {plan : CompactionPlan} {idx : ℕ} {parent : ManifestRange}
    {input : CompactionRange} {live : List CompactionLiveRecord} {out : List OutputSeg}
    {slot : Slot} {epoch n : ℕ}
    (hc : Compacts cfg harm A ram₀ d₀ plan ram d idx parent input live out)
    (hr : Removed harm input.gens
      ((ram.wroteAll out).published slot (ram.compactionAt epoch idx parent input out) n)
      (Disk.publish (Disk.writeAll d out) slot (ram.compactionAt epoch idx parent input out))
      ram' d') :
    Sized ((ram'.forgetInput input).moveRecords input (out.flatMap OutputSeg.locations)) d' := by
  have hwrote := (h.prepared hc.prepared).wroteAll hc.gens hc.gens_lt
  have hnext : (ram.wroteAll out).nextGeneration ≤ ram.nextGeneration + out.length :=
    (SameCore.of_core (core_wroteAll ram out)).next.trans_le (Nat.le_add_right _ _)
  have hpub : Sized ((ram.wroteAll out).published slot
      (ram.compactionAt epoch idx parent input out) n) _ := hwrote.published hnext slot n
  exact (hpub.removed hr).congr rfl rfl rfl rfl

/-- **One move** that does not fail keeps the sizes. -/
theorem move (hgen : ∀ g d, A (.allocate g) d → g + 1 < 2 ^ 32) (h : Sized ram d)
    (hm : Move cfg noHarm A ram d evs ram' d') : Sized ram' d' := by
  cases hm with
  | lock hlock =>
    exact h.keep rfl rfl (hlock _ (segmentName_ne_lock _)) (SameExcept.slots hlock slot_ne_lock)
  | noteSealed => exact h.noteSealed
  | wrote hg _ hmark => exact h.wrote hg (hgen _ _ hmark) _ _ _
  | opened ho => exact h.opened ho _
  | logged _ hopen => exact h.logged hopen _ _
  | compacted hc _ _ _ hr => exact h.compacted hc hr
  | writeFailed _ _ hw => exact hw.elim
  | openFailed _ hw => exact hw.elim
  | logFailed _ _ _ hw => exact hw.elim
  | compactFailed _ _ _ hw => exact hw.elim

/-- **Any sequence of moves** does. -/
theorem moves (hgen : ∀ g d, A (.allocate g) d → g + 1 < 2 ^ 32) (h : Sized ram₀ d₀)
    (hm : Moves cfg noHarm A ram₀ d₀ evs ram d) : Sized ram d :=
  hm.invariant (P := fun _ ram d => Sized ram d) (fun _ _ _ _ _ _ hs hmove => hs.move hgen hmove) h

end Sized

end Moves

/-! ## Runs without failures -/

/-- The states of mounted objects that operations without failing calls lead to.  An object whose
mount fails is not mounted, and mounts again in its next operation. -/
inductive FaultFree (env : Env) (cfg : AppendLogConfig) (A : StoreMark → Disk → Prop) :
    Ram → World → Prop
  /-- An object mounts a directory, whatever this holds. -/
  | mounted {ram w ram' w'} (he : Executes env noHarm A (Store.mount cfg) ram w (.ok ()) ram' w') :
      FaultFree env cfg A ram' w'
  /-- It formats the directory instead. -/
  | formatted {ram w ram' w'} (he : Executes env noHarm A Store.format ram w (.ok ()) ram' w') :
      FaultFree env cfg A ram' w'
  /-- An operation is carried out, or refused. -/
  | step {ram w} {op : StoreOp} {r ram' w'} (h : FaultFree env cfg A ram w)
      (he : Executes env noHarm A (op.method cfg) ram w r ram' w') : FaultFree env cfg A ram' w'
  /-- A caller commits a record under a sequence of its own. -/
  | commit {ram w fuel sequence record r ram' w'} (h : FaultFree env cfg A ram w)
      (he : Executes env noHarm A (Store.commitEnqueue cfg fuel (u32 sequence) record) ram w r
        ram' w') : FaultFree env cfg A ram' w'

section Commits

variable {env : Env} {cfg : AppendLogConfig} {A : StoreMark → Disk → Prop} {ram ram' : Ram}
  {d d' : Disk} {fuel sequence : ℕ} {record : Bytes}

/-- Bytes are appended, or there is no tail to append to. -/
lemma wp_appendThen {bytes : Bytes} {f : Ram → Ram} {Q : DiskPost Ram Unit}
    (hok : ∀ old, d.lookup (segmentName ram.activeGeneration) = some old →
      Q (.ok ()) (f (ram.extendTail bytes.length)) (d.insert (segmentName ram.activeGeneration)
        (overwrite old ram.activeSegmentBytes bytes)))
    (hnone : ∀ st, Q (.error st) ram d) :
    Wp env noHarm A (fun _ => True)
      (Store.appendBytes bytes >>= fun _ => Store.modify f) Q ram d := by
  apply wp_bind_ok fun _ ram' d' => ∃ old, d.lookup (segmentName ram.activeGeneration) = some old ∧
    ram' = ram.extendTail bytes.length ∧ d' = d.insert (segmentName ram.activeGeneration)
      (overwrite old ram.activeSegmentBytes bytes)
  · apply wp_get_bind
    apply wp_mark_bind trivial
    intro _
    apply wp_bind_ok fun _ ram' d' => ram' = ram ∧
      ∃ old, d.lookup (segmentName ram.activeGeneration) = some old ∧
        d' = d.insert (segmentName ram.activeGeneration)
          (overwrite old ram.activeSegmentBytes bytes)
    · apply wp_writeAt trivial
      · exact fun old hold => ⟨rfl, old, hold, rfl⟩
      · exact hnone
      · exact fun st d' hharm => hharm.elim
    · rintro _ ram' d' ⟨rfl, old, hold, rfl⟩
      exact wp_modify ⟨old, hold, rfl, rfl⟩
  · rintro _ ram' d' ⟨old, hold, rfl, rfl⟩
    exact wp_modify (hok old hold)

/-- **A commit** is refused, or it is admitted, room is made for it, and it is appended. -/
lemma wp_commitEnqueue_by {P R : Ram → Disk → Prop} {Q : DiskPost Ram Unit}
    (hm : ram.mounted = true) (hrefuse : ∀ st, Q (.error st) ram d)
    (hadmission : PayloadOk cfg record → Wp env noHarm A (fun _ => True)
      (Store.admission cfg fuel (u32 record.length)) (fun r ram' d' => match r with
        | .ok _ => P ram' d'
        | .error st => Q (.error st) ram' d') ram d)
    (hroom : ∀ ram₁ d₁, P ram₁ d₁ → Wp env noHarm A (fun _ => True)
      (Store.makeRoom cfg (u32 (kEnqueueOverheadBytes + u32 record.length)) sequence)
      (fun r ram' d' => match r with
        | .ok _ => R ram' d'
        | .error st => Q (.error st) ram' d') ram₁ d₁)
    (hlost : ∀ ram₂ d₂ st, R ram₂ d₂ → Q (.error st) ram₂ d₂)
    (happend : ∀ ram₂ d₂ old sr, R ram₂ d₂ →
      d₂.lookup (segmentName ram₂.activeGeneration) = some old →
      Q (.ok ()) ((ram₂.extendTail (serializeEnqueueEvent sequence record).length).pushRecord sr)
        (d₂.insert (segmentName ram₂.activeGeneration) (overwrite old ram₂.activeSegmentBytes
          (serializeEnqueueEvent sequence record)))) :
    Wp env noHarm A (fun _ => True) (Store.commitEnqueue cfg fuel sequence record) Q ram d := by
  refine (reads_ensureMounted hm).bind fun _ _ => ?_
  apply wp_bind wp_checkRecordSize
  swap
  · rintro st ram' d' ⟨rfl, rfl, -⟩
    exact hrefuse st
  rintro _ ram' d' ⟨rfl, rfl, hok⟩
  split
  · exact wp_fail (hrefuse _)
  · apply wp_bind (hadmission (hok rfl))
    swap
    · exact fun st ram'' d'' hq => hq
    intro _ ram₁ d₁ hP
    apply wp_bind (hroom ram₁ d₁ hP)
    swap
    · exact fun st ram'' d'' hq => hq
    intro _ ram₂ d₂ hR
    apply wp_get_bind
    apply wp_appendThen
    · intro old hold
      exact happend ram₂ d₂ old _ hR hold
    · intro st
      exact hlost ram₂ d₂ st hR

/-- What runs without failures keep. -/
structure Tracked (ram : Ram) (d : Disk) : Prop extends Sized ram d where
  mounted : ram.mounted = true
  sequence_lt : ram.nextSequence < 2 ^ 32

namespace Tracked

/-- A formatted object expects nothing of the files. -/
lemma formatted (ram : Ram) (d : Disk) : Tracked ram.formatted d where
  tail _ _ := Nat.zero_le _
  slots _ := Nat.zero_le _
  active_lt := Nat.two_pow_pos 32
  next h := absurd rfl h
  mounted := rfl
  sequence_lt := Nat.two_pow_pos 32

lemma moves (hgen : ∀ g d, A (.allocate g) d → g + 1 < 2 ^ 32) (h : Tracked ram d)
    {evs : List LogEvent} (hm : Moves cfg noHarm A ram d evs ram' d') : Tracked ram' d' where
  toSized := h.toSized.moves hgen hm
  mounted := hm.mounted.trans h.mounted
  sequence_lt := hm.nextSequence.trans_lt h.sequence_lt

lemma index_tail_lt (h : Tracked ram d) : ram.index.tail < 2 ^ 32 := by
  unfold Ram.index
  split
  · exact u32_lt _
  · exact h.sequence_lt

/-- A commit. -/
lemma wp_commitEnqueue (hgen : ∀ g d, A (.allocate g) d → g + 1 < 2 ^ 32) (h : Tracked ram d)
    (hseq : sequence < 2 ^ 32) :
    Wp env noHarm A (fun _ => True) (Store.commitEnqueue cfg fuel sequence record)
      (fun _ ram' d' => Tracked ram' d') ram d := by
  apply wp_commitEnqueue_by (P := Tracked)
    (R := fun ram d => ram.activeSegmentBytes ≠ 0 ∧ Tracked ram d) h.mounted
  · exact fun _ => h
  · intro _
    apply (wp_admission damaging_noHarm hgen watched_true .refl).mono
    intro r ram' d' hq
    cases r with
    | ok _ => exact h.moves hgen hq.1
    | error st => exact h.moves hgen hq.1
  · intro ram₁ d₁ h₁
    apply (wp_makeRoom damaging_noHarm hgen watched_true .refl hseq).mono
    intro r ram' d' hq
    cases r with
    | ok _ => exact ⟨(hq.2 rfl).bytes_ne, h₁.moves hgen hq.1⟩
    | error st => exact h₁.moves hgen hq.1
  · exact fun ram₂ d₂ _ h₂ => h₂.2
  · rintro ram₂ d₂ old sr ⟨hopen, h₂⟩ -
    exact ⟨(h₂.toSized.appended hopen old _).congr rfl rfl rfl rfl, h₂.mounted, h₂.sequence_lt⟩

/-- **One operation.** -/
lemma wp_method (hgen : ∀ g d, A (.allocate g) d → g + 1 < 2 ^ 32) (h : Tracked ram d)
    (op : StoreOp) :
    Wp env noHarm A (fun _ => True) (op.method cfg) (fun _ ram' d' => Tracked ram' d') ram d := by
  by_cases hformat : op = .format
  · subst hformat
    apply (wp_format damaging_noHarm).mono
    rintro r ram' d' (⟨-, rfl⟩ | ⟨-, rfl, rfl⟩)
    · exact .formatted ram d'
    · exact h
  by_cases henqueue : ∃ fuel record, op = .enqueue fuel record
  · obtain ⟨fuel, record, rfl⟩ := henqueue
    refine (reads_readIndex h.mounted).bind fun index hindex => ?_
    subst hindex
    exact h.wp_commitEnqueue hgen h.index_tail_lt
  · apply (wp_method_of_ne damaging_noHarm hgen watched_true h.mounted hformat
      fun fuel record he => henqueue ⟨fuel, record, he⟩).mono
    rintro r ram' d' ⟨evs, -, hmoves⟩
    exact h.moves hgen hmoves

end Tracked

/-- **Any run without failures.** -/
theorem FaultFree.tracked {w : World} (hgen : ∀ g d, A (.allocate g) d → g + 1 < 2 ^ 32)
    (h : FaultFree env cfg A ram w) : Tracked ram w.disk := by
  induction h with
  | mounted he =>
    have hmounted := wp_mount_counts.sound he rfl
    exact ⟨hmounted.sized, hmounted.mounted, hmounted.sequence_lt⟩
  | formatted he =>
    obtain ⟨-, rfl⟩ | ⟨⟨st, hst⟩, -⟩ := (wp_format damaging_noHarm).sound he
    · exact .formatted _ _
    · exact nomatch hst
  | step _ he ih => exact (ih.wp_method hgen _).sound he
  | commit _ he ih => exact (ih.wp_commitEnqueue hgen (u32_lt _)).sound he

end Commits

/-! ## The estimate -/

/-- The bytes of the manifest that an append of `eventBytes` may publish. -/
def Ram.prospectiveSlotBytes (cfg : AppendLogConfig) (ram : Ram) (eventBytes : ℕ) : ℕ :=
  kManifestFixedBytes + kManifestRangeEntryBytes *
    (ram.manifestRanges.length + if ram.needsRotation cfg eventBytes then 1 else 0)

/-- None of the 32-bit sums of `appendGrowthBytes` wraps for a record of this size. -/
def Ram.GrowthFits (cfg : AppendLogConfig) (ram : Ram) (recordSize : ℕ) : Prop :=
  ram.activeSegmentBytes = 0 ∨ ram.needsRotation cfg (kEnqueueOverheadBytes + recordSize) →
    ram.prospectiveSlotBytes cfg (kEnqueueOverheadBytes + recordSize) < 2 ^ 32 ∧
      kEnqueueOverheadBytes + recordSize + kSegmentHeaderBytes +
        (ram.prospectiveSlotBytes cfg (kEnqueueOverheadBytes + recordSize) -
          ram.inactiveSlotBytes) < 2 ^ 32

instance (cfg : AppendLogConfig) (ram : Ram) (recordSize : ℕ) :
    Decidable (ram.GrowthFits cfg recordSize) :=
  inferInstanceAs (Decidable (_ → _))

section Growth

variable {env : Env} {cfg : AppendLogConfig} {A : StoreMark → Disk → Prop} {ram ram' : Ram}
  {d d' : Disk} {n : ℕ}

/-- The estimate without a new segment. -/
lemma appendGrowthBytes_stay (hn : kEnqueueOverheadBytes + n < 2 ^ 32)
    (h : ¬(ram.activeSegmentBytes = 0 ∨ ram.needsRotation cfg (kEnqueueOverheadBytes + n))) :
    ram.appendGrowthBytes cfg n = kEnqueueOverheadBytes + n := by
  unfold Ram.appendGrowthBytes
  rw [u32_of_lt hn, if_neg h]

/-- The estimate with a new segment. -/
lemma appendGrowthBytes_open (hn : kEnqueueOverheadBytes + n < 2 ^ 32)
    (h : ram.activeSegmentBytes = 0 ∨ ram.needsRotation cfg (kEnqueueOverheadBytes + n))
    (hfits : ram.GrowthFits cfg n) :
    ram.appendGrowthBytes cfg n = kEnqueueOverheadBytes + n + kSegmentHeaderBytes +
      (ram.prospectiveSlotBytes cfg (kEnqueueOverheadBytes + n) - ram.inactiveSlotBytes) := by
  obtain ⟨hslot, hsum⟩ := hfits h
  have hranges : ram.manifestRanges.length +
      (if ram.needsRotation cfg (kEnqueueOverheadBytes + n) then 1 else 0) < 2 ^ 32 := by
    simp only [Ram.prospectiveSlotBytes, kManifestFixedBytes, kManifestRangeEntryBytes] at hslot
    omega
  have hgrowth : ∀ a b : ℕ, (if a > b then a - b else 0) = a - b := by
    intro a b
    split <;> omega
  unfold Ram.appendGrowthBytes
  simp only [u32_of_lt hn]
  rw [if_pos h, hgrowth, u32_of_lt hranges, ← Ram.prospectiveSlotBytes, u32_of_lt hslot,
    u32_of_lt hsum]

/-! ## What an append adds -/

lemma footprint_insert {name : FileName} (hp : isStoreFile name = true) (d : Disk) (data : Bytes) :
    Disk.footprint (d.insert name data) + Disk.size d name = Disk.footprint d + data.length := by
  have h := Disk.total_change hp (sameExcept_insert d name data)
  rwa [Disk.size_insert] at h

/-- Sealing the tail adds at most one range. -/
lemma length_sealTail_le (ram : Ram) : ram.sealTail.length ≤ ram.manifestRanges.length + 1 := by
  unfold Ram.sealTail
  split
  · split
    · split
      · simp
      · simp
    · simp
  · exact Nat.le_succ _

/-- The slot that is overwritten is at least as large as the estimate takes it to be. -/
lemma Sized.inactive_le (h : Sized ram d) {slot : Slot} {epoch : ℕ}
    (ht : ram.Targets noHarm d slot epoch) :
    ram.inactiveSlotBytes ≤ Disk.size d slot.fileName := by
  refine le_trans ?_ (h.slots slot)
  unfold Ram.inactiveSlotBytes
  cases hs : ram.cachedWrittenSlot with
  | some cached =>
    simp only [Ram.Targets, hs] at ht
    rw [ht.1]
  | none =>
    cases slot with
    | a => exact min_le_left _ _
    | b => exact min_le_right _ _

/-- **Opening a segment** adds its header, and what the manifest is longer than the slot was. -/
lemma Sized.footprint_opened (h : Sized ram d) {ranges : List ManifestRange} {startSeq epoch : ℕ}
    {slot : Slot} (ho : Opens noHarm A ram d ranges startSeq slot epoch) :
    Disk.footprint (Disk.opened d ram ranges startSeq slot epoch) ≤
      Disk.footprint d + kSegmentHeaderBytes +
        (kManifestFixedBytes + kManifestRangeEntryBytes * ranges.length -
          ram.inactiveSlotBytes) := by
  have hcreate := footprint_insert (isStoreFile_segment (Nat.lt_of_succ_lt ho.gen_lt)) d
    (serializeSegmentHeader ram.nextGeneration startSeq)
  rw [length_serializeSegmentHeader, ← Disk.create] at hcreate
  have hpublish := footprint_insert (isStoreFile_slot slot)
    (Disk.create d ram.nextGeneration startSeq)
    (serialiseManifest (ram.opening ranges (u32 (epoch + 1))))
  have hslot : Disk.size (Disk.create d ram.nextGeneration startSeq) slot.fileName =
      Disk.size d slot.fileName := Disk.size_congr (slots_insert _ _ _ slot)
  rw [length_serialiseManifest, hslot, ← Disk.publish, ← Disk.opened] at hpublish
  have hinactive := h.inactive_le ho.target
  have hranges : (ram.opening ranges (u32 (epoch + 1))).ranges = ranges := rfl
  rw [hranges] at hpublish
  simp only [kManifestRangeEntryBytes]
  omega

/-- **Appending** adds no more than what is written. -/
lemma Sized.footprint_appended (h : Sized ram d) {old : Bytes}
    (hold : d.lookup (segmentName ram.activeGeneration) = some old) (data : Bytes) :
    Disk.footprint (d.insert (segmentName ram.activeGeneration)
      (overwrite old ram.activeSegmentBytes data)) ≤ Disk.footprint d + data.length := by
  have hinsert := footprint_insert (isStoreFile_segment h.active_lt) d
    (overwrite old ram.activeSegmentBytes data)
  have hend := h.tail old hold
  rw [Disk.size_of_lookup hold, length_overwrite] at hinsert
  omega

/-- Making room and appending adds no more than the estimate. -/
lemma RoomMade.growth (h : Sized ram d) (hn : kEnqueueOverheadBytes + n < 2 ^ 32)
    (hfits : ram.GrowthFits cfg n)
    (hroom : RoomMade cfg noHarm A (kEnqueueOverheadBytes + n) ram d ram' d') {old data : Bytes}
    (hold : d'.lookup (segmentName ram'.activeGeneration) = some old)
    (hdata : data.length = kEnqueueOverheadBytes + n) :
    Disk.footprint (d'.insert (segmentName ram'.activeGeneration)
      (overwrite old ram'.activeSegmentBytes data)) ≤
        Disk.footprint d + ram.appendGrowthBytes cfg n := by
  rcases hroom with ⟨hrot, startSeq, slot, epoch, m, ho, -, rfl, rfl⟩ |
    ⟨hrot, hzero, startSeq, slot, epoch, m, ho, -, rfl, rfl⟩ | ⟨hrot, hopen, rfl, rfl⟩
  · -- the tail is sealed
    have hopened := h.noteSealed.footprint_opened ho
    have happended := (h.noteSealed.opened ho m).footprint_appended hold data
    have hlen := length_sealTail_le ram
    have hinactive : ram.noteSealed.inactiveSlotBytes = ram.inactiveSlotBytes := rfl
    rw [appendGrowthBytes_open hn (.inr hrot) hfits, Ram.prospectiveSlotBytes, if_pos hrot]
    rw [hinactive] at hopened
    simp only [kManifestRangeEntryBytes] at hopened ⊢
    omega
  · -- there is no tail
    have hopened := h.footprint_opened ho
    have happended := (h.opened ho m).footprint_appended hold data
    rw [appendGrowthBytes_open hn (.inl hzero) hfits, Ram.prospectiveSlotBytes, if_neg hrot]
    simp only [kManifestRangeEntryBytes] at hopened ⊢
    omega
  · -- the event goes into the tail
    have happended := h.footprint_appended hold data
    rw [appendGrowthBytes_stay hn (not_or.2 ⟨hopen, hrot⟩)]
    omega

/-! ## Commits that compact nothing -/

section Still

variable (hA : ∀ ram range fallback d, ¬A (.compactRange ram range fallback) d)

include hA

/-- Where nothing may be compacted, no range is chosen. -/
lemma wp_compactOneSegment_still {fallback : AllowFullRangeFallback} :
    Wp env noHarm A (fun _ => True) (Store.compactOneSegment cfg fallback)
      (fun r ram' d' => r = .ok .noOp ∧ ram' = ram ∧ d' = d) ram d := by
  apply wp_get_bind
  split
  · exact wp_pure ⟨rfl, rfl, rfl⟩
  · apply wp_get_bind
    apply wp_mark_bind trivial
    intro hmark
    exact absurd hmark (hA _ _ _ _)

lemma wp_fitFootprint_still {fuel : ℕ} :
    Wp env noHarm A (fun _ => True) (Store.fitFootprint cfg n fuel)
      (fun _ ram' d' => ram' = ram ∧ d' = d) ram d := by
  cases fuel with
  | zero => exact wp_spin trivial
  | succ fuel =>
    apply wp_get_bind
    split
    · apply wp_bind (wp_compactOneSegment_still hA)
      · rintro _ ram' d' ⟨hr, rfl, rfl⟩
        obtain rfl := Except.ok.inj hr
        exact wp_fail ⟨rfl, rfl⟩
      · rintro e ram' d' ⟨hr, -⟩
        exact nomatch hr
    · exact wp_pure ⟨rfl, rfl⟩

lemma wp_fitFreeSpace_still {fuel : ℕ} :
    Wp env noHarm A (fun _ => True) (Store.fitFreeSpace cfg n fuel)
      (fun _ ram' d' => ram' = ram ∧ d' = d) ram d := by
  cases fuel with
  | zero => exact wp_spin trivial
  | succ fuel =>
    refine (reads_freeBytes damaging_noHarm trivial).bind fun free _ => ?_
    split
    · apply wp_bind (wp_compactOneSegment_still hA)
      · rintro _ ram' d' ⟨hr, rfl, rfl⟩
        obtain rfl := Except.ok.inj hr
        exact wp_fail ⟨rfl, rfl⟩
      · rintro e ram' d' ⟨hr, -⟩
        exact nomatch hr
    · exact wp_pure ⟨rfl, rfl⟩

/-- Admission leaves everything as it is. -/
lemma wp_admission_still {fuel : ℕ} :
    Wp env noHarm A (fun _ => True) (Store.admission cfg fuel n)
      (fun _ ram' d' => ram' = ram ∧ d' = d) ram d := by
  apply wp_bind (Q := fun _ ram' d' => ram' = ram ∧ d' = d)
  · exact wp_when (fun _ => wp_fitFootprint_still hA) fun _ => ⟨rfl, rfl⟩
  · rintro _ ram' d' ⟨rfl, rfl⟩
    apply wp_get_bind
    exact wp_when (fun _ => wp_fitFreeSpace_still hA) fun _ => ⟨rfl, rfl⟩
  · exact fun e ram' d' hq => hq

/-- **A commit** that compacts nothing adds no more than the estimate. -/
lemma Tracked.wp_growth (hgen : ∀ g d, A (.allocate g) d → g + 1 < 2 ^ 32) (h : Tracked ram d)
    {fuel sequence : ℕ} {record : Bytes} (hseq : sequence < 2 ^ 32)
    (hfits : ram.GrowthFits cfg record.length) :
    Wp env noHarm A (fun _ => True) (Store.commitEnqueue cfg fuel sequence record)
      (fun r _ d' => r = .ok () → Disk.footprint d' ≤
        Disk.footprint d + ram.appendGrowthBytes cfg (u32 record.length)) ram d := by
  by_cases hok : PayloadOk cfg record
  swap
  · apply wp_commitEnqueue_by (P := fun _ _ => False) (R := fun _ _ => False) h.mounted
    · exact fun _ hr => nomatch hr
    · exact fun h => absurd h hok
    · exact fun _ _ hP => hP.elim
    · exact fun _ _ _ hP => hP.elim
    · exact fun _ _ _ _ hP => hP.elim
  -- the event is a word
  have hn : kEnqueueOverheadBytes + record.length < 2 ^ 32 := by
    have hle := hok.2
    have hlt := cfg.maxSegmentBytes_lt
    omega
  have hword : u32 record.length = record.length := u32_of_lt (by omega)
  rw [hword]
  apply wp_commitEnqueue_by (P := fun ram' d' => ram' = ram ∧ d' = d)
    (R := fun ram' d' => RoomMade cfg noHarm A (kEnqueueOverheadBytes + record.length) ram d
      ram' d') h.mounted
  · exact fun _ hr => nomatch hr
  · intro _
    apply (wp_admission_still hA).mono
    intro r ram' d' hq
    cases r with
    | ok _ => exact hq
    | error st => exact fun hr => nomatch hr
  · rintro ram₁ d₁ ⟨rfl, rfl⟩
    rw [hword, u32_of_lt hn]
    apply (wp_makeRoom damaging_noHarm hgen watched_true .refl hseq).mono
    intro r ram' d' hq
    cases r with
    | ok _ => exact hq.2 rfl
    | error st => exact fun hr => nomatch hr
  · exact fun _ _ _ _ hr => nomatch hr
  · intro ram₂ d₂ old sr hroom hold _
    exact hroom.growth h.toSized hn hfits hold (length_serializePayloadEvent ..)

end Still

/-- Generations stay below the last one, and nothing is compacted. -/
def FewAndStill : StoreMark → Disk → Prop
  | .compactRange .., _ => False
  | mk, d => FewGenerations mk d

instance : (mk : StoreMark) → (d : Disk) → Decidable (FewAndStill mk d)
  | .compactRange .., _ => .isFalse id
  | .allocate gen, _ => inferInstanceAs (Decidable (gen + 1 < 2 ^ 32))
  | .publish .., _ | .append .., _ | .pack _, _ => .isTrue trivial

/-- **The growth estimate is an upper bound.**  In every state that operations without failing
calls lead to, a commit that succeeds without compacting adds no more to the segment and manifest
files than `appendGrowthBytes` said before it, if none of the sums in it wraps. -/
theorem append_growth_le {w w' : World} {fuel sequence : ℕ} {record : Bytes}
    (h : FaultFree env cfg FewGenerations ram w) (hfits : ram.GrowthFits cfg record.length)
    (he : Executes env noHarm FewAndStill (Store.commitEnqueue cfg fuel (u32 sequence) record) ram w
      (.ok ()) ram' w') :
    Disk.footprint w'.disk ≤
      Disk.footprint w.disk + ram.appendGrowthBytes cfg (u32 record.length) := by
  have htracked := h.tracked fun _ _ hg => hg
  exact (htracked.wp_growth (fun _ _ _ _ hm => hm) (fun _ _ hg => hg) (u32_lt _) hfits).sound he rfl

end Growth

/-- Two records fill the first segment, and the third one opens another. -/
theorem append_growth_le_rotating : ∃ ram w ram' w',
    FaultFree (plainEnv .posix) smallSegments FewGenerations ram w ∧
    Executes (plainEnv .posix) noHarm FewAndStill
      (Store.commitEnqueue smallSegments 1 (u32 2) [5]) ram w (.ok ()) ram' w' ∧
    ram.activeGeneration = 1 ∧ ram'.activeGeneration = 2 ∧
    Disk.footprint w'.disk ≤
      Disk.footprint w.disk + ram.appendGrowthBytes smallSegments (u32 ([5] : Bytes).length) := by
  have hrun : ((do
      let a ← tryMethod (plainEnv .posix) allComplete FewGenerations (Store.mount smallSegments) {}
        ⟨∅, 0, false⟩
      let b ← storeTrial smallSegments FewGenerations
        [(.enqueue 1 [7], allComplete), (.enqueue 1 [8, 9], allComplete)] a.1.2 a.2
      let c ← tryMethod (plainEnv .posix) allComplete FewAndStill
        (Store.commitEnqueue smallSegments 1 (u32 2) [5]) b.1 b.2
      pure (a.1.1.toBool, b.1.activeGeneration, decide (b.1.GrowthFits smallSegments 1),
        c.1.1.toBool, c.1.2.activeGeneration)) : Option _) = some (true, 1, true, true, 2) := by
    decide +kernel
  obtain ⟨⟨⟨r₁, ram₁⟩, w₁⟩, h₁, hrun⟩ := Option.bind_eq_some_iff.1 hrun
  obtain ⟨⟨ram, w⟩, h₂, hrun⟩ := Option.bind_eq_some_iff.1 hrun
  obtain ⟨⟨⟨r, ram'⟩, w'⟩, h₃, hrun⟩ := Option.bind_eq_some_iff.1 hrun
  simp only [pure, Option.some.injEq, Prod.mk.injEq, decide_eq_true_eq] at hrun
  obtain ⟨hr₁, hold, hfits, hr, hnew⟩ := hrun
  obtain rfl := eq_ok_of_toBool hr₁
  obtain rfl := eq_ok_of_toBool hr
  have hdone : FaultFree (plainEnv .posix) smallSegments FewGenerations ram w := by
    apply storeTrial_invariant _ _ (.mounted (executes_of_complete h₁)) h₂
    · exact noHarm
    · simp [allComplete]
    · exact fun _ _ _ _ _ _ _ h he => h.step he
  have he : Executes (plainEnv .posix) noHarm FewAndStill
      (Store.commitEnqueue smallSegments 1 (u32 2) [5]) ram w (.ok ()) ram' w' :=
    executes_of_complete h₃
  exact ⟨ram, w, ram', w', hdone, he, hold, hnew, append_growth_le hdone hfits he⟩

/-! ## The first record of a store -/

/-- A configuration without budgets that lets a record fill the largest segment there is. -/
def wholeSegments : AppendLogConfig :=
  { AppendLogConfig.unlimited with maxRecordBytes := 2 ^ 32 }

/-- A new object on an empty directory expects to publish a manifest without ranges. -/
structure New (ram : Ram) (w : World) : Prop where
  run : FaultFree (plainEnv .posix) wholeSegments FewGenerations ram w
  empty : w.disk = ∅
  blank : Blank ram
  next : ram.nextGeneration = 1
  slot : ram.cachedWrittenSlot = none

lemma exists_new : ∃ ram w, New ram w := by
  obtain ⟨_, ram, w, he, rfl, hb, hnext, -, hslot, hw⟩ := (@may_mount (plainEnv .posix)
    wholeSegments noHarm FewGenerations ⟨∅, 0, false⟩ rfl).executes
  exact ⟨ram, w, .mounted he, hw, hb, hnext, hslot⟩

namespace New

variable {ram : Ram} {w : World} {n : ℕ}

lemma prospective (h : New ram w) :
    ram.prospectiveSlotBytes wholeSegments n = kManifestFixedBytes ∧ ram.inactiveSlotBytes = 0 := by
  have hsmall : ¬ram.needsRotation wholeSegments n := by
    unfold Ram.needsRotation
    rw [h.blank.bytes]
    exact fun hr => absurd hr.1 (by decide)
  have hslots : ∀ s, ram.manifestSlotBytes s = 0 := by
    intro s
    have hle := (h.run.tracked fun _ _ hg => hg).slots s
    rw [Disk.size, h.empty] at hle
    exact Nat.le_zero.1 hle
  constructor
  · simp [Ram.prospectiveSlotBytes, hsmall, h.blank.ranges]
  · simp [Ram.inactiveSlotBytes, h.slot, hslots]

/-- The first commit, and the size of the segment it leaves. -/
lemma commit (h : New ram w) {record : Bytes} (hok : PayloadOk wholeSegments record) :
    ∃ ram' w', Executes (plainEnv .posix) noHarm FewAndStill
      (Store.commitEnqueue wholeSegments 1 (u32 0) record) ram w (.ok ()) ram' w' ∧
        kEnqueueOverheadBytes + record.length ≤ Disk.footprint w'.disk := by
  obtain ⟨_, ram', w', he, rfl, htail, -⟩ := (@may_commit_first (plainEnv .posix) wholeSegments
    noHarm FewAndStill ram w 1 0 record h.blank h.next h.slot
      (fun s => by rw [h.empty]; rfl) hok rfl
    rfl (by decide) (fun _ => (by decide : 1 + 1 < 2 ^ 32)) (fun _ => trivial)
    fun _ => trivial).executes
  refine ⟨ram', w', he, ?_⟩
  have hsize := Disk.size_le_total (p := isStoreFile) (d := w'.disk)
    (isStoreFile_segment (by decide : 1 < 2 ^ 32))
  rw [Disk.size_of_lookup htail.file, length_overwrite] at hsize
  have hevent : (serializeEnqueueEvent 0 record).length = kEnqueueOverheadBytes + record.length :=
    length_serializePayloadEvent ..
  rw [hevent] at hsize
  unfold Disk.footprint
  omega

end New

/-- A record of `2 ^ 32 - 45` bytes fills the first segment up to the last byte that its 32-bit
length can count; with the header and the manifest the sum wraps, and the estimate is the length of
the manifest less one. -/
theorem append_growth_wraps : ∃ ram w record ram' w',
    FaultFree (plainEnv .posix) wholeSegments FewGenerations ram w ∧
    Executes (plainEnv .posix) noHarm FewAndStill
      (Store.commitEnqueue wholeSegments 1 (u32 0) record) ram w (.ok ()) ram' w' ∧
    ¬Disk.footprint w'.disk ≤
      Disk.footprint w.disk + ram.appendGrowthBytes wholeSegments (u32 record.length) := by
  obtain ⟨record, hlen⟩ : ∃ b : Bytes, b.length = 2 ^ 32 - 45 :=
    ⟨List.replicate _ 0, List.length_replicate⟩
  have hok : PayloadOk wholeSegments record := by
    refine ⟨?_, ?_⟩
    · rw [hlen]
      decide
    · rw [hlen]
      decide
  obtain ⟨ram, w, h⟩ := exists_new
  obtain ⟨ram', w', he, hle⟩ := h.commit hok
  refine ⟨ram, w, record, ram', w', h.run, he, ?_⟩
  have hempty : Disk.footprint w.disk = 0 := by
    rw [h.empty]
    rfl
  have hestimate : ram.appendGrowthBytes wholeSegments (u32 record.length) =
      kManifestFixedBytes - 1 := by
    have hword : u32 record.length = record.length := u32_of_lt (by omega)
    have hevent : u32 (kEnqueueOverheadBytes + record.length) = 2 ^ 32 - 21 := by
      rw [hlen]
      decide
    have hrot : ¬ram.needsRotation wholeSegments (2 ^ 32 - 21) := by
      unfold Ram.needsRotation
      rw [h.blank.bytes]
      exact fun hr => absurd hr.1 (by decide)
    unfold Ram.appendGrowthBytes
    simp only [hword, hevent, if_pos (Or.inl h.blank.bytes), if_neg hrot, h.blank.ranges,
      (h.prospective (n := 0)).2, List.length_nil]
    decide
  rw [hempty, hestimate]
  rw [hlen] at hle
  simp only [kEnqueueOverheadBytes, kManifestFixedBytes] at hle ⊢
  omega

end Pqueue
