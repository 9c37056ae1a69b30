import Pqueue.Store.Moves

/-!
# The methods of a mounted store make moves

Each method is executed here once, on a file system where any call may fail.  Its specification
says that what it has done is a sequence of moves, which events it has logged when it succeeds,
and that it has logged none when it fails.  `J` holds of every directory on the way, once it
holds of every directory that moves lead to.
-/

namespace Pqueue

open Effect LittleEndian

/-- `J` holds wherever moves lead that have logged `evs`.  A directory in the middle of a cleanup is
one of these when a removal may fail. -/
structure Watched (cfg : AppendLogConfig) (harm : FsCall → Disk → Disk → Prop)
    (A : StoreMark → Disk → Prop) (ram₀ : Ram) (d₀ : Disk) (evs : List LogEvent)
    (J : Disk → Prop) : Prop where
  reached : ∀ {ram d}, Moves cfg harm A ram₀ d₀ evs ram d → J d
  removal : (∀ d, J d) ∨ ∀ name, ¬Reliable harm (.removeFile name)

/-! ## A compaction in three parts -/

/-- What a compaction has gathered when it publishes its manifest. -/
structure Gathered where
  input : CompactionRange
  output : List OutputSeg
  ranges : List ManifestRange
  nextGeneration : ℕ

namespace Store

/-- `compactInto` up to the written output. -/
def gatherInto (cfg : AppendLogConfig) (rangeIdx : ℕ) (parent : ManifestRange)
    (input : CompactionRange) : Store Gathered := do
  let liveRecords ← collectLiveRecords input
  let ram ← get
  if liveRecords = [] then
    pure ⟨input, [], spliceRanges ram.manifestRanges rangeIdx parent input none, ram.nextGeneration⟩
  else do
    let output := packOutput cfg ram.nextGeneration kSegmentHeaderBytes [] liveRecords
    let lastNewGen := (output.getLast?.map (·.gen)).getD ram.nextGeneration
    writeOutput output
    pure ⟨input, output, spliceRanges ram.manifestRanges rangeIdx parent input
      (some ⟨ram.nextGeneration, lastNewGen⟩), u32 (lastNewGen + 1)⟩

/-- `compactRange` up to the written output, for this plan. -/
def gatherCompaction (cfg : AppendLogConfig) (plan : CompactionPlan) :
    Store (Option Gathered) := do
  let _ ← generations plan.hypo.startGen plan.hypo.endGen
  when plan.rotates rotateSegment
  let ram ← get
  match findParentRangeIdx ram.manifestRanges plan.input with
  | none => pure none
  | some rangeIdx =>
    match ram.manifestRanges[rangeIdx]? with
    | none => pure none
    | some parent => do
      let g ← gatherInto cfg rangeIdx parent
        ⟨plan.input.startGen, if plan.rotates then parent.endGen else plan.input.endGen⟩
      pure (some g)

/-- Publish the manifest of what was gathered. -/
def publishGathered (g : Gathered) : Store Unit := do
  let ram ← get
  publishManifest
    { ranges := g.ranges, tailGeneration := ram.activeGeneration,
      nextGeneration := g.nextGeneration }

/-- What `compactRange` does then. -/
def retireGathered (g : Gathered) : Store CompactionResult := do
  cleanupInputSegments g.input
  modify fun ram => ram.forgetInput g.input
  modify fun ram => ram.moveRecords g.input (g.output.flatMap OutputSeg.locations)
  pure (.compacted (u32 (g.input.endGen - g.input.startGen + 1)) (u32 g.output.length))

/-- `compactRange` from the written output on. -/
def finishCompaction : Option Gathered → Store CompactionResult
  | none => pure .noOp
  | some g => do
    publishGathered g
    retireGathered g

end Store

/-- The output of a compaction that was planned on `ram₀` and `d₀` is written. -/
inductive Gathers (cfg : AppendLogConfig) (harm : FsCall → Disk → Disk → Prop)
    (A : StoreMark → Disk → Prop) (ram₀ : Ram) (d₀ : Disk) (plan : CompactionPlan) (g : Gathered) :
    Ram → Disk → Prop
  | intro {ram d idx parent live}
      (hp : Packed cfg harm A ram₀ d₀ plan ram d idx parent g.input live g.output)
      (hranges : g.ranges =
        spliceRanges ram.manifestRanges idx parent g.input (outputRange ram g.output))
      (hnext : g.nextGeneration = ram.nextGeneration + g.output.length) :
      Gathers cfg harm A ram₀ d₀ plan g (ram.wroteAll g.output) (Disk.writeAll d g.output)

/-- The output, as it was written to `ram` and `d`, has taken over from the input, whose files are
still there. -/
inductive TakesOver (cfg : AppendLogConfig) (harm : FsCall → Disk → Disk → Prop)
    (A : StoreMark → Disk → Prop) (ram₀ : Ram) (d₀ : Disk) (g : Gathered) (ram : Ram) (d : Disk) :
    Ram → Disk → Prop
  | intro {plan ram₁ d₁ idx parent live slot epoch n}
      (hc : Compacts cfg harm A ram₀ d₀ plan ram₁ d₁ idx parent g.input live g.output)
      (hram : ram = ram₁.wroteAll g.output) (hd : d = Disk.writeAll d₁ g.output)
      (ht : ram₁.Targets harm d₁ slot epoch) (hn : SizeRead harm d₁ slot.fileName n)
      (hA : A (.publish epoch (ram₁.compactionAt 0 idx parent g.input g.output)) d) :
      TakesOver cfg harm A ram₀ d₀ g ram d
        (ram.published slot (ram₁.compactionAt (u32 (epoch + 1)) idx parent g.input g.output) n)
        (Disk.publish d slot
          (ram₁.compactionAt (u32 (epoch + 1)) idx parent g.input g.output))

lemma TakesOver.move {cfg : AppendLogConfig} {harm : FsCall → Disk → Disk → Prop}
    {A : StoreMark → Disk → Prop} {ram₀ ram ram' ram'' : Ram} {d₀ d d' d'' : Disk} {g : Gathered}
    (h : TakesOver cfg harm A ram₀ d₀ g ram d ram' d')
    (hr : Removed harm g.input.gens ram' d' ram'' d'') :
    Move cfg harm A ram₀ d₀ [] ((ram''.forgetInput g.input).moveRecords g.input
      (g.output.flatMap OutputSeg.locations)) d'' := by
  cases h with
  | intro hc hram hd ht hn hA =>
    subst hram hd
    exact .compacted hc ht hn hA hr

section Execution

variable {env : Env} {cfg : AppendLogConfig} {harm : FsCall → Disk → Disk → Prop}
  {A : StoreMark → Disk → Prop} {J : Disk → Prop} {ram₀ ram : Ram} {d₀ d : Disk}
  {evs : List LogEvent}

/-! ## Opening segments -/

/-- What a segment that was opened leaves. -/
def Opened (harm : FsCall → Disk → Disk → Prop) (A : StoreMark → Disk → Prop) (ram : Ram) (d : Disk)
    (ranges : List ManifestRange) (ram' : Ram) (d' : Disk) : Prop :=
  ∃ startSeq slot epoch n, Opens harm A ram d ranges startSeq slot epoch ∧
    SizeRead harm d slot.fileName n ∧ ram' = ram.opened ranges slot epoch n ∧
      d' = Disk.opened d ram ranges startSeq slot epoch

/-- What the opening of a segment leaves when it fails: the segment cannot be written, no slot can
be chosen for the manifest, or the manifest cannot be written. -/
inductive OpenFails (harm : FsCall → Disk → Disk → Prop) (A : StoreMark → Disk → Prop) (ram : Ram)
    (d : Disk) (ranges : List ManifestRange) (startSeq : ℕ) : Ram → Disk → Prop
  | segment {d'} (hA : A (.allocate ram.nextGeneration) d)
      (h : harm (.writeFile (segmentName ram.nextGeneration)
        (serializeSegmentHeader ram.nextGeneration startSeq)) d d') :
      OpenFails harm A ram d ranges startSeq ram d'
  | slot (hA : A (.allocate ram.nextGeneration) d) (h : ram.NoTarget harm d) :
      OpenFails harm A ram d ranges startSeq (ram.created ram.nextGeneration)
        (Disk.create d ram.nextGeneration startSeq)
  | manifest {slot epoch d'} (ho : Opens harm A ram d ranges startSeq slot epoch)
      (h : harm (.writeFile slot.fileName
        (serialiseManifest (ram.opening ranges (u32 (epoch + 1)))))
        (Disk.create d ram.nextGeneration startSeq) d') :
      OpenFails harm A ram d ranges startSeq (ram.created ram.nextGeneration) d'

/-- Opening a segment. -/
lemma wp_startSegment_of {ranges : List ManifestRange} {startSeq : ℕ} {Q : DiskPost Ram Unit}
    (hd : Damaging harm) (hgen : ∀ g d, A (.allocate g) d → g + 1 < 2 ^ 32)
    (hshape : ranges = ram.sealTail ∧ ranges.length ≤ kManifestMaxRanges ∧ ram.noteSealed = ram ∨
      ranges = ram.manifestRanges ∧ ram.activeSegmentBytes = 0) (hseq : startSeq < 2 ^ 32)
    (hJ : J d) (hJ' : A (.allocate ram.nextGeneration) d →
      J (Disk.create d ram.nextGeneration startSeq))
    (hok : ∀ ram' d', Opened harm A ram d ranges ram' d' → J d' ∧ Q (.ok ()) ram' d')
    (herr : ∀ st ram' d', OpenFails harm A ram d ranges startSeq ram' d' → Q (.error st) ram' d') :
    Wp env harm A J (Store.startSegment ranges ram.nextGeneration startSeq) Q ram d := by
  refine wp_mark_bind hJ fun hmark => ?_
  have hlt := hgen _ _ hmark
  have htrack : ram.trackWrite (segmentName ram.nextGeneration)
      (serializeSegmentHeader ram.nextGeneration startSeq).length 0 =
        ram.created ram.nextGeneration := by
    rw [length_serializeSegmentHeader]
    rfl
  refine wp_bind_ok (fun _ ram' d' => ram' = ram.created ram.nextGeneration ∧
      d' = Disk.create d ram.nextGeneration startSeq)
    (wp_writeTracked_new hJ ⟨htrack, rfl⟩ fun st d' hh => herr st _ _ (.segment hmark hh)) ?_
  rintro _ ram' d' ⟨rfl, rfl⟩
  have hslots : ∀ s : Slot, (Disk.create d ram.nextGeneration startSeq).lookup s.fileName =
      d.lookup s.fileName := fun s => AList.lookup_insert_ne (segmentName_ne_slot _ s).symm
  refine wp_bind_ok
    (fun _ ram' d' => ∃ slot epoch n, Opens harm A ram d ranges startSeq slot epoch ∧
      SizeRead harm d slot.fileName n ∧
      ram' = (ram.created ram.nextGeneration).published slot
        (ram.opening ranges (u32 (epoch + 1))) n ∧
      d' = Disk.opened d ram ranges startSeq slot epoch)
    (wp_publishManifest hd (hJ' hmark) (fun st hnone => herr st _ _ (.slot hmark ?_)) ?_) ?_
  · exact hnone.congr (fun s => (hslots s).symm) rfl
  · intro slot epoch ht hpub md hmd
    rw [u32_of_lt hlt] at hpub hmd
    have ho : Opens harm A ram d ranges startSeq slot epoch :=
      ⟨hshape, hseq, hlt, hmark, ht.congr (fun s => (hslots s).symm) rfl rfl, hpub⟩
    obtain rfl : md = ram.opening ranges (u32 (epoch + 1)) := hmd
    refine ⟨fun st d' hh => herr st _ _ (.manifest ho hh), fun n hn => ?_⟩
    have hn := hn.congr (hslots slot).symm
    exact ⟨(hok _ _ ⟨startSeq, slot, epoch, n, ho, hn, rfl, rfl⟩).1, slot, epoch, n,
      ho, hn, rfl, rfl⟩
  · rintro _ ram' d' ⟨slot, epoch, n, ho, hn, rfl, rfl⟩
    exact wp_modify (hok _ _ ⟨startSeq, slot, epoch, n, ho, hn, rfl, rfl⟩).2

variable (hd : Damaging harm) (hgen : ∀ g d, A (.allocate g) d → g + 1 < 2 ^ 32)
  (hJ : Watched cfg harm A ram₀ d₀ evs J)

include hd hgen hJ

lemma wp_startSegment {ranges : List ManifestRange} {startSeq : ℕ}
    (h0 : Moves cfg harm A ram₀ d₀ evs ram d)
    (hshape : ranges = ram.sealTail ∧ ranges.length ≤ kManifestMaxRanges ∧ ram.noteSealed = ram ∨
      ranges = ram.manifestRanges ∧ ram.activeSegmentBytes = 0) (hseq : startSeq < 2 ^ 32) :
    Wp env harm A J (Store.startSegment ranges ram.nextGeneration startSeq)
      (fun r ram' d' => Moves cfg harm A ram₀ d₀ evs ram' d' ∧
        (r = .ok () → Opened harm A ram d ranges ram' d')) ram d := by
  have hcreated : A (.allocate ram.nextGeneration) d →
      (∃ c, ¬Reliable harm c) ∨ ram.NoTarget harm d →
      Moves cfg harm A ram₀ d₀ evs (ram.created ram.nextGeneration)
        (Disk.create d ram.nextGeneration startSeq) := by
    intro hmark hw
    have hwrote : Move cfg harm A ram d [] (ram.trackWrite (segmentName ram.nextGeneration)
        (serializeSegmentHeader ram.nextGeneration startSeq).length 0)
        (Disk.create d ram.nextGeneration startSeq) :=
      .wrote le_rfl (Nat.lt_of_succ_lt (hgen _ _ hmark)) hmark (.inr hw)
    rw [length_serializeSegmentHeader] at hwrote
    exact h0.quiet hwrote
  have hstray : A (.allocate ram.nextGeneration) d →
      J (Disk.create d ram.nextGeneration startSeq) := by
    intro hmark
    rcases hJ.removal with hall | hr
    · exact hall _
    · exact hJ.reached (hcreated hmark (.inl ⟨_, hr kLockFileName⟩))
  refine wp_startSegment_of hd hgen hshape hseq (hJ.reached h0) hstray (fun ram' d' ho => ?_)
    fun st ram' d' hf => ⟨?_, by simp⟩
  · have hopened := ho
    obtain ⟨startSeq, slot, epoch, n, hopens, hn, rfl, rfl⟩ := ho
    have hm := h0.quiet (.opened hopens hn)
    exact ⟨hJ.reached hm, hm, fun _ => hopened⟩
  · cases hf with
    | segment hmark hh =>
      exact h0.quiet (.writeFailed le_rfl (Nat.lt_of_succ_lt (hgen _ _ hmark)) hh)
    | slot hmark hnone => exact hcreated hmark (.inr hnone)
    | manifest ho hh => exact h0.quiet (.openFailed ho hh)

omit hd hgen hJ in
lemma baseSeq_lt (ram : Ram) : ram.baseSeq < 2 ^ 32 := by
  rw [Ram.baseSeq]
  split
  · exact u32_lt _
  · exact Nat.two_pow_pos 32

omit hd hgen hJ in
lemma noteSealed_noteSealed (ram : Ram) : ram.noteSealed.noteSealed = ram.noteSealed := by
  obtain ⟨⟩ := ram
  simp only [Ram.noteSealed]
  split
  · rw [Function.update_idem]
  · rfl

lemma wp_rotateSegment (h0 : Moves cfg harm A ram₀ d₀ evs ram d) :
    Wp env harm A J Store.rotateSegment
      (fun r ram' d' => Moves cfg harm A ram₀ d₀ evs ram' d' ∧
        (r = .ok () → Opened harm A ram.noteSealed d ram.sealTail ram' d')) ram d := by
  refine wp_get_bind ?_
  split
  · exact wp_fail ⟨h0, fun hr => nomatch hr⟩
  · next hlen =>
    refine wp_modify_bind ?_
    exact wp_startSegment hd hgen hJ (h0.quiet .noteSealed)
      (.inl ⟨rfl, not_lt.1 hlen, noteSealed_noteSealed ram⟩) (baseSeq_lt ram)

lemma wp_ensureActiveSegment {baseSeq : ℕ} (h0 : Moves cfg harm A ram₀ d₀ evs ram d)
    (hseq : baseSeq < 2 ^ 32) :
    Wp env harm A J (Store.ensureActiveSegment baseSeq)
      (fun r ram' d' => Moves cfg harm A ram₀ d₀ evs ram' d' ∧
        (r = .ok () → if ram.activeSegmentBytes = 0 then
          Opened harm A ram d ram.manifestRanges ram' d' else ram' = ram ∧ d' = d)) ram d := by
  refine wp_get_bind ?_
  by_cases hz : ram.activeSegmentBytes = 0
  · rw [Store.when, if_pos hz]
    simp only [if_pos hz]
    exact wp_startSegment hd hgen hJ h0 (.inr ⟨rfl, hz⟩) hseq
  · rw [Store.when, if_neg hz]
    simp only [if_neg hz]
    exact wp_pure ⟨h0, fun _ => ⟨rfl, rfl⟩⟩

/-- What `makeRoom` leaves when it succeeds: the same object, or one with a new tail. -/
def RoomMade (cfg : AppendLogConfig) (harm : FsCall → Disk → Disk → Prop)
    (A : StoreMark → Disk → Prop) (eventBytes : ℕ) (ram : Ram) (d : Disk) (ram' : Ram) (d' : Disk) :
    Prop :=
  (ram.needsRotation cfg eventBytes ∧ Opened harm A ram.noteSealed d ram.sealTail ram' d') ∨
    (¬ram.needsRotation cfg eventBytes ∧ ram.activeSegmentBytes = 0 ∧
      Opened harm A ram d ram.manifestRanges ram' d') ∨
    (¬ram.needsRotation cfg eventBytes ∧ ram.activeSegmentBytes ≠ 0 ∧ ram' = ram ∧ d' = d)

lemma wp_makeRoom {eventBytes baseSeq : ℕ} (h0 : Moves cfg harm A ram₀ d₀ evs ram d)
    (hseq : baseSeq < 2 ^ 32) :
    Wp env harm A J (Store.makeRoom cfg eventBytes baseSeq)
      (fun r ram' d' => Moves cfg harm A ram₀ d₀ evs ram' d' ∧
        (r = .ok () → RoomMade cfg harm A eventBytes ram d ram' d')) ram d := by
  refine wp_get_bind ?_
  by_cases hrot : ram.needsRotation cfg eventBytes
  · rw [Store.when, if_pos hrot]
    refine wp_bind (wp_rotateSegment hd hgen hJ h0) ?_
      (fun e ram' d' hm => ⟨hm.1, by simp⟩)
    rintro _ ram' d' ⟨hm, ho⟩
    have ho := ho rfl
    refine (wp_ensureActiveSegment hd hgen hJ hm hseq).mono fun r ram'' d'' hq =>
      ⟨hq.1, fun hr => ?_⟩
    have hne : ram'.activeSegmentBytes ≠ 0 := by
      obtain ⟨_, _, _, _, _, _, rfl, -⟩ := ho
      exact (by decide : kSegmentHeaderBytes ≠ 0)
    have hq2 := hq.2 hr
    rw [if_neg hne] at hq2
    obtain ⟨rfl, rfl⟩ := hq2
    exact .inl ⟨hrot, ho⟩
  · rw [Store.when, if_neg hrot]
    refine (reads_pure (P := fun _ => True) trivial).bind fun _ _ => ?_
    refine (wp_ensureActiveSegment hd hgen hJ h0 hseq).mono fun r ram' d' hq => ⟨hq.1, fun hr => ?_⟩
    have hq2 := hq.2 hr
    split at hq2
    · next hz => exact .inr (.inl ⟨hrot, hz, hq2⟩)
    · next hz => exact .inr (.inr ⟨hrot, hz, hq2⟩)

omit hd hgen hJ in
/-- Making room does not touch the index. -/
lemma RoomMade.records {eventBytes : ℕ} {ram' : Ram} {d' : Disk}
    (h : RoomMade cfg harm A eventBytes ram d ram' d') : ram'.records = ram.records := by
  rcases h with ⟨-, h⟩ | ⟨-, -, h⟩ | ⟨-, -, rfl, -⟩
  · obtain ⟨_, _, _, _, _, _, rfl, -⟩ := h
    rfl
  · obtain ⟨_, _, _, _, _, _, rfl, -⟩ := h
    rfl
  · rfl

omit hd hgen hJ in
/-- There is a tail once room was made. -/
lemma RoomMade.bytes_ne {eventBytes : ℕ} {ram' : Ram} {d' : Disk}
    (h : RoomMade cfg harm A eventBytes ram d ram' d') : ram'.activeSegmentBytes ≠ 0 := by
  rcases h with ⟨-, h⟩ | ⟨-, -, h⟩ | ⟨-, hne, rfl, -⟩
  · obtain ⟨_, _, _, _, _, _, rfl, -⟩ := h
    exact Nat.succ_ne_zero _
  · obtain ⟨_, _, _, _, _, _, rfl, -⟩ := h
    exact Nat.succ_ne_zero _
  · exact hne

/-! ## Logging -/

/-- An event was logged at the end of a tail with room for it. -/
def Appended (ram : Ram) (d : Disk) (e : LogEvent) (ram' : Ram) (d' : Disk) : Prop :=
  ∃ old, d.lookup (segmentName ram.activeGeneration) = some old ∧ ram' = ram.logged e ∧
    d' = d.insert (segmentName ram.activeGeneration) (overwrite old ram.activeSegmentBytes e.encode)

omit hd hgen in
/-- Appending an event and then applying it to the index. -/
lemma wp_append {e : LogEvent} {f : Ram → Ram} (h0 : Moves cfg harm A ram₀ d₀ evs ram d)
    (hl : Loggable cfg ram e) (hopen : ram.activeSegmentBytes ≠ 0)
    (hf : f (ram.extendTail e.encode.length) = ram.logged e) :
    Wp env harm A J (Store.appendBytes e.encode >>= fun _ => Store.modify f)
      (fun r ram' d' => (r = .ok () → Moves cfg harm A ram₀ d₀ (evs ++ [e]) ram' d' ∧
        Appended ram d e ram' d') ∧
        ∀ st, r = .error st → Moves cfg harm A ram₀ d₀ evs ram' d') ram d := by
  refine wp_bind_ok (fun _ ram' d' => ram' = ram.extendTail e.encode.length ∧
    A (.append ram.activeGeneration ram.activeSegmentBytes e.encode.length) d ∧ ∃ old,
      d.lookup (segmentName ram.activeGeneration) = some old ∧
      d' = d.insert (segmentName ram.activeGeneration)
        (overwrite old ram.activeSegmentBytes e.encode)) ?_ ?_
  · refine wp_get_bind (wp_mark_bind (hJ.reached h0) fun hA => ?_)
    refine wp_bind_ok (fun _ ram' d' => ram' = ram ∧
      ∃ old, d.lookup (segmentName ram.activeGeneration) = some old ∧
        d' = d.insert (segmentName ram.activeGeneration)
          (overwrite old ram.activeSegmentBytes e.encode))
      (wp_writeAt (hJ.reached h0) (fun old hold => ⟨rfl, old, hold, rfl⟩)
        (fun st => ⟨by simp, fun _ _ => h0⟩)
        fun st d' hh => ⟨by simp, fun _ _ => h0.quiet (.logFailed hl hopen hA hh)⟩) ?_
    rintro _ ram' d' ⟨rfl, old, hold, rfl⟩
    exact wp_modify ⟨rfl, hA, old, hold, rfl⟩
  · rintro _ ram' d' ⟨rfl, hA, old, hold, rfl⟩
    refine wp_modify ⟨fun _ => ?_, by simp⟩
    rw [hf]
    exact ⟨h0.step (.logged hl hopen hA hold), old, hold, rfl, rfl⟩

/-! ## Compacting -/

omit hgen in
lemma wp_collectFrom {records : List SegmentRecord} {gens : List ℕ}
    (h0 : Moves cfg harm A ram₀ d₀ evs ram d) :
    Wp env harm A J (Store.collectFrom records gens)
      (fun r ram' d' => ram' = ram ∧ d' = d ∧
        ∀ out, r = .ok out → Disk.collectFrom d records gens = some out) ram d := by
  induction gens with
  | nil =>
    refine wp_pure ⟨rfl, rfl, fun out hr => ?_⟩
    obtain rfl := Except.ok.inj hr
    rfl
  | cons g gens ih =>
    refine wp_bind (Q := fun r ram' d' => ram' = ram ∧ d' = d ∧
      ∀ buf, r = .ok buf → d.lookup (segmentName g) = some buf) ?_ ?_ ?_
    · refine wp_call (hJ.reached h0) ?_ ?_ fun st d' hh => ⟨rfl, hd _ _ _ hh, by simp⟩
      · rintro w rfl v hv
        refine ⟨rfl, handle_disk rfl w, fun buf hbuf => ?_⟩
        obtain rfl := Except.ok.inj hbuf
        simp only [handle] at hv
        cases hl : w.disk.lookup (segmentName g) with
        | none =>
          rw [hl] at hv
          cases hv
        | some data =>
          rw [hl] at hv
          exact congrArg some (Except.ok.inj hv)
      · rintro w rfl e -
        exact ⟨rfl, handle_disk rfl w, by simp⟩
    · rintro buf ram' d' ⟨rfl, rfl, hbuf⟩
      have hbuf := hbuf buf rfl
      cases hcut : cutPayloads buf (records.filter fun sr => sr.segmentGeneration = g) with
      | none => exact wp_fail ⟨rfl, rfl, by simp⟩
      | some lrs =>
        refine wp_bind ih ?_ ?_
        · rintro rest ram' d' ⟨rfl, rfl, hrest⟩
          refine wp_pure ⟨rfl, rfl, fun out hr => ?_⟩
          obtain rfl := Except.ok.inj hr
          rw [Disk.collectFrom, hbuf, Option.getD_some, hcut, hrest rest rfl]
          rfl
        · rintro e ram' d' ⟨rfl, rfl, -⟩
          exact ⟨rfl, rfl, by simp⟩
    · rintro e ram' d' ⟨rfl, rfl, -⟩
      exact ⟨rfl, rfl, by simp⟩

omit hgen in
lemma wp_collectLiveRecords {range : CompactionRange} (h0 : Moves cfg harm A ram₀ d₀ evs ram d) :
    Wp env harm A J (Store.collectLiveRecords range)
      (fun r ram' d' => ram' = ram ∧ d' = d ∧
        ∀ live, r = .ok live → ram.collect d range = some live) ram d := by
  refine wp_get_bind (wp_bind (wp_collectFrom hd hJ h0) ?_ ?_)
  · rintro out ram' d' ⟨rfl, rfl, hout⟩
    refine wp_pure ⟨rfl, rfl, fun live hr => ?_⟩
    obtain rfl := Except.ok.inj hr
    rw [Ram.collect, Ram.liveGens, hout out rfl]
    rfl
  · rintro e ram' d' ⟨rfl, rfl, -⟩
    exact ⟨rfl, rfl, by simp⟩

omit hd in
lemma wp_writeOutput {out : List OutputSeg} {g : ℕ} (hc : Consecutive g out)
    (hg : ram.nextGeneration ≤ g) (hne : ram.manifestRanges ≠ [])
    (h0 : Moves cfg harm A ram₀ d₀ evs ram d) :
    Wp env harm A J (Store.writeOutput out)
      (fun r ram' d' => Moves cfg harm A ram₀ d₀ evs ram' d' ∧ (r = .ok () →
        ram' = ram.wroteAll out ∧ d' = Disk.writeAll d out ∧ OutputMarks A out d ∧
          ∀ o ∈ out, o.gen + 1 < 2 ^ 32)) ram d := by
  induction out generalizing g ram d with
  | nil => exact wp_pure ⟨h0, fun _ => ⟨rfl, rfl, trivial, fun o ho => absurd ho List.not_mem_nil⟩⟩
  | cons o out ih =>
    obtain ⟨rfl, hrest⟩ := hc
    refine wp_bind (Q := fun r ram' d' => Moves cfg harm A ram₀ d₀ evs ram' d' ∧ (r = .ok () →
      ram' = ram.trackWrite (segmentName o.gen) o.data.length 0 ∧
        d' = d.insert (segmentName o.gen) o.data ∧ A (.allocate o.gen) d ∧
          A (.pack o.data.length) d)) ?_ ?_ (fun e ram' d' hm => ⟨hm.1, fun hr => nomatch hr⟩)
    · refine wp_mark_bind (hJ.reached h0) fun hmark => wp_mark_bind (hJ.reached h0) fun hpack => ?_
      have hlt := Nat.lt_of_succ_lt (hgen _ _ hmark)
      exact wp_writeTracked_new (hJ.reached h0)
        ⟨h0.quiet (.wrote hg hlt hmark (.inl hne)), fun _ => ⟨rfl, rfl, hmark, hpack⟩⟩
        fun st d' hh => ⟨h0.quiet (.writeFailed hg hlt hh), fun hr => nomatch hr⟩
    · rintro _ ram' d' ⟨hm, hq⟩
      obtain ⟨rfl, rfl, hmark, hpack⟩ := hq rfl
      have hlt := hgen _ _ hmark
      rw [u32_of_lt hlt] at hrest
      have hg' : (ram.trackWrite (segmentName o.gen) o.data.length 0).nextGeneration ≤ o.gen + 1 :=
        hg.trans (Nat.le_succ _)
      refine (ih hrest hg' hne hm).mono fun r ram'' d'' hq => ⟨hq.1, fun hr => ?_⟩
      obtain ⟨rfl, rfl, hmarks, hall⟩ := hq.2 hr
      refine ⟨rfl, rfl, ⟨hmark, hpack, hmarks⟩, fun o' ho' => ?_⟩
      rcases List.mem_cons.1 ho' with rfl | ho'
      · exact hlt
      · exact hall o' ho'

omit hd hgen hJ in
/-- When a removal may fail, all of them may. -/
lemma removed_none (h : ∀ name, ¬Reliable harm (.removeFile name)) (gens : List ℕ) :
    Removed harm gens ram d ram d := by
  induction gens with
  | nil => exact .nil
  | cons g gens ih => exact .kept (.inr (h _)) ih

omit hgen hJ in
lemma wp_cleanupInputSegments {input : CompactionRange}
    (hskip : (∀ d, J d) ∨ ∀ name, ¬Reliable harm (.removeFile name))
    (hend : ∀ ram' d', Removed harm input.gens ram d ram' d' → J d') :
    Wp env harm A J (Store.cleanupInputSegments input)
      (fun r ram' d' => r = .ok () ∧ Removed harm input.gens ram d ram' d') ram d := by
  have hnow : ∀ {gens : List ℕ} {ram : Ram} {d : Disk},
      (∀ ram' d', Removed harm gens ram d ram' d' → J d') → J d := fun {gens ram d} h =>
    hskip.elim (fun hall => hall d) fun hr => h _ _ (removed_none hr gens)
  refine (reads_generations (hnow hend)).bind fun gens hgens => ?_
  rw [hgens]
  change ∀ ram' d', Removed harm (List.range' input.startGen (input.endGen + 1 - input.startGen))
    ram d ram' d' → J d' at hend
  change Wp env harm A J _ (fun r ram' d' => r = .ok () ∧
    Removed harm (List.range' input.startGen (input.endGen + 1 - input.startGen))
      ram d ram' d') ram d
  generalize List.range' input.startGen (input.endGen + 1 - input.startGen) = gens at hend
  clear hgens
  induction gens generalizing ram d with
  | nil => exact wp_pure ⟨rfl, .nil⟩
  | cons g gens ih =>
    refine wp_bind (Q := fun r ram' d' => r = .ok () ∧
      ((ram' = ram.dropSegment g ((ram.sealedSegmentBytes g).getD 0) ∧
        d' = d.erase (segmentName g)) ∨
      (ram' = ram ∧ d' = d ∧ (d.lookup (segmentName g) = none ∨
        ¬Reliable harm (.removeFile (segmentName g)))))) ?_ ?_ (fun e ram' d' hm => nomatch hm.1)
    · refine wp_bind (Q := fun r ram' d' => ram' = ram ∧
        ((r = .ok (.ok ()) ∧ d' = d.erase (segmentName g)) ∨
        ((∃ st, r = .ok (.error st)) ∧ d' = d ∧ (d.lookup (segmentName g) = none ∨
          ¬Reliable harm (.removeFile (segmentName g))))))
        (wp_removeFile (hnow hend) ⟨rfl, .inl ⟨rfl, rfl⟩⟩
          (fun st hn => ⟨rfl, .inr ⟨⟨st, rfl⟩, rfl, .inl hn⟩⟩)
          fun st d' hh => ⟨rfl, .inr ⟨⟨st, rfl⟩, hd _ _ _ hh, .inr fun hr => hr _ _ hh⟩⟩) ?_ ?_
      · rintro a ram' d' ⟨rfl, ⟨ha, rfl⟩ | ⟨⟨st, ha⟩, rfl, hk⟩⟩
        · obtain rfl := Except.ok.inj ha
          exact wp_modify ⟨rfl, .inl ⟨rfl, rfl⟩⟩
        · obtain rfl := Except.ok.inj ha
          exact wp_pure ⟨rfl, .inr ⟨rfl, rfl, hk⟩⟩
      · rintro e ram' d' ⟨-, ⟨ha, -⟩ | ⟨⟨st, ha⟩, -⟩⟩ <;> cases ha
    · rintro _ ram' d' ⟨-, ⟨rfl, rfl⟩ | ⟨rfl, rfl, hk⟩⟩
      · exact (ih fun ram' d' hr => hend _ _ (.gone hr)).mono fun r ram' d' hq => ⟨hq.1, .gone hq.2⟩
      · exact (ih fun ram' d' hr => hend _ _ (.kept hk hr)).mono fun r ram' d' hq =>
          ⟨hq.1, .kept hk hq.2⟩

omit hd hgen hJ in
lemma moveRecords_nil (ram : Ram) (input : CompactionRange) : ram.moveRecords input [] = ram := by
  obtain ⟨⟩ := ram
  simp only [Ram.moveRecords, List.find?_nil, Option.getD_none, ite_self, List.map_id']

omit hd hgen hJ in
/-- The compaction of a range gathers its output, publishes it, and removes the input. -/
lemma compactRange_eq (range : CompactionRange) (fallback : AllowFullRangeFallback) :
    Store.compactRange cfg range fallback = (do
      let ram ← Store.get
      Store.mark (.compactRange ram range fallback)
      match ram.planCompaction cfg range fallback with
      | none => pure .noOp
      | some plan => Store.gatherCompaction cfg plan >>= Store.finishCompaction) := by
  have hnil : ∀ (input : CompactionRange) (k : Unit → Store CompactionResult),
      (Store.modify (fun ram => ram.moveRecords input []) >>= k) = k () := by
    intro input k
    have hid : (fun ram : Ram => ram.moveRecords input []) = id :=
      funext fun ram => moveRecords_nil ram input
    rw [hid]
    rfl
  have hpure : ∀ {α : Type} (a : α) (k : α → Store CompactionResult), (pure a >>= k) = k a :=
    fun _ _ => rfl
  have hinto : ∀ idx parent input, Store.compactInto cfg idx parent input =
      Store.gatherInto cfg idx parent input >>= fun g => Store.finishCompaction (some g) := by
    intro idx parent input
    unfold Store.compactInto Store.gatherInto
    rw [Act.bind_assoc]
    refine bind_congr fun live => ?_
    rw [Act.bind_assoc]
    refine bind_congr fun ram => ?_
    unfold Store.retireInput Store.finishCompaction Store.publishGathered Store.retireGathered
    split
    · simp only [Act.bind_assoc, hpure, List.flatMap_nil, hnil]
      rfl
    · simp only [Act.bind_assoc, hpure]
  unfold Store.compactRange Store.gatherCompaction
  refine bind_congr fun ram => ?_
  refine bind_congr fun _ => ?_
  cases ram.planCompaction cfg range fallback with
  | none => rfl
  | some plan =>
    simp only [Act.bind_assoc]
    refine bind_congr fun _ => ?_
    refine bind_congr fun _ => ?_
    refine bind_congr fun ram => ?_
    cases findParentRangeIdx ram.manifestRanges plan.input with
    | none => rfl
    | some idx =>
      cases hget : ram.manifestRanges[idx]? with
      | none => simp only [hget]; rfl
      | some parent =>
        simp only [hget, hinto, Act.bind_assoc]
        rfl

omit hd hgen hJ in
lemma lastGen_eq {out : List OutputSeg} {g : ℕ}
    (h : out.map OutputSeg.gen = List.range' g out.length) (hne : out ≠ []) :
    (out.getLast?.map OutputSeg.gen).getD g = g + out.length - 1 := by
  have hpos := List.length_pos_iff.2 hne
  rw [← List.getLast?_map, h, List.getLast?_range', if_neg hpos.ne', Option.getD_some]

lemma wp_gatherInto {plan : CompactionPlan} {ram₁ : Ram} {d₁ : Disk} {idx : ℕ}
    {parent : ManifestRange} {input : CompactionRange} (h0 : Moves cfg harm A ram₀ d₀ evs ram d)
    (hprep : Prepared cfg harm A ram₁ d₁ plan ram d)
    (hinput : input =
      ⟨plan.input.startGen, if plan.rotates then parent.endGen else plan.input.endGen⟩)
    (hp : PartOf ram.manifestRanges idx parent input) :
    Wp env harm A J (Store.gatherInto cfg idx parent input)
      (fun r ram' d' => Moves cfg harm A ram₀ d₀ evs ram' d' ∧
        ∀ g, r = .ok g → Gathers cfg harm A ram₁ d₁ plan g ram' d') ram d := by
  refine wp_bind (wp_collectLiveRecords hd hJ h0) ?_ ?_
  swap
  · rintro e ram' d' ⟨rfl, rfl, -⟩
    exact ⟨h0, by simp⟩
  rintro live ram' d' ⟨rfl, rfl, hlive⟩
  have hlive := hlive live rfl
  refine wp_get_bind ?_
  split
  · next hnil =>
    subst hnil
    refine wp_pure ⟨h0, fun g hg => ?_⟩
    obtain rfl := Except.ok.inj hg
    have hpacked : Packed cfg harm A ram₁ d₁ plan ram' d' idx parent input [] [] :=
      ⟨hprep, hinput, hp, hlive, rfl, rfl, fun o ho => absurd ho List.not_mem_nil, trivial⟩
    exact .intro (g := ⟨input, [], _, _⟩) hpacked rfl rfl
  · next hne =>
    have hout : compactionOutput cfg ram' live =
        packOutput cfg ram'.nextGeneration kSegmentHeaderBytes [] live := if_neg hne
    refine wp_bind (wp_writeOutput hgen hJ (consecutive_packOutput ..) le_rfl hp.ranges_ne h0) ?_
      (fun e ram' d' hm => ⟨hm.1, by simp⟩)
    rintro _ ram'' d'' ⟨hm, hq⟩
    obtain ⟨rfl, rfl, hmarks, hlt⟩ := hq rfl
    have hcons : Consecutive ram'.nextGeneration
        (packOutput cfg ram'.nextGeneration kSegmentHeaderBytes [] live) :=
      consecutive_packOutput ..
    have hnil : packOutput cfg ram'.nextGeneration kSegmentHeaderBytes [] live ≠ [] :=
      packOutput_ne_nil _ _ _ _
    generalize packOutput cfg ram'.nextGeneration kSegmentHeaderBytes [] live = out
      at hout hm hmarks hlt hcons hnil ⊢
    have hgens := hcons.gens hlt
    have hpos := List.length_pos_iff.2 hnil
    have hlast := lastGen_eq hgens hnil
    have hnext : u32 ((out.getLast?.map OutputSeg.gen).getD ram'.nextGeneration + 1) =
        ram'.nextGeneration + out.length := by
      have hmem : ram'.nextGeneration + out.length - 1 ∈ out.map OutputSeg.gen := by
        rw [hgens, List.mem_range'_1]
        omega
      obtain ⟨o, ho, hog⟩ := List.mem_map.1 hmem
      have := hlt o ho
      rw [hlast, u32_of_lt (by omega)]
      omega
    refine wp_pure ⟨hm, fun g hg => ?_⟩
    obtain rfl := Except.ok.inj hg
    have hpacked : Packed cfg harm A ram₁ d₁ plan ram' d' idx parent input live out :=
      ⟨hprep, hinput, hp, hlive, hout.symm, hgens, hlt, hmarks⟩
    refine .intro (g := ⟨input, out, _, _⟩) hpacked ?_ hnext
    rw [outputRange, if_neg hnil, hlast]

/-- Up to the written output a compaction makes moves that log nothing. -/
lemma wp_gatherCompaction {plan : CompactionPlan} (h0 : Moves cfg harm A ram₀ d₀ evs ram d) :
    Wp env harm A J (Store.gatherCompaction cfg plan)
      (fun r ram' d' => Moves cfg harm A ram₀ d₀ evs ram' d' ∧
        ∀ g, r = .ok (some g) → Gathers cfg harm A ram d plan g ram' d') ram d := by
  refine (reads_generations (hJ.reached h0)).bind fun _ _ => ?_
  refine wp_bind (Q := fun r ram' d' => Moves cfg harm A ram₀ d₀ evs ram' d' ∧
    (r = .ok () → Prepared cfg harm A ram d plan ram' d')) ?_ ?_
    (fun e ram' d' hm => ⟨hm.1, by simp⟩)
  · refine wp_when (fun hrot => ?_) fun hrot => ⟨h0, fun _ => .asIs (by simpa using hrot)⟩
    refine (wp_rotateSegment hd hgen hJ h0).mono fun r ram' d' hq => ⟨hq.1, fun hr => ?_⟩
    obtain ⟨startSeq, slot, epoch, n, ho, hn, rfl, rfl⟩ := hq.2 hr
    exact .rotated hrot ho hn
  · rintro _ ram' d' ⟨hm, hprep⟩
    refine wp_get_bind ?_
    cases hidx : findParentRangeIdx ram'.manifestRanges plan.input with
    | none => exact wp_pure ⟨hm, by simp⟩
    | some idx =>
      obtain ⟨parent, hget, h1, h2, h3⟩ := findParentRangeIdx_eq_some hidx
      simp only [hget]
      refine wp_bind (wp_gatherInto hd hgen hJ hm (hprep rfl) rfl ?_) ?_
        (fun e ram' d' hm => ⟨hm.1, by simp⟩)
      · refine ⟨hget, h1, ?_, ?_⟩
        · simp only
          split
          · exact h2.trans h3
          · exact h2
        · simp only
          split
          · exact le_rfl
          · exact h3
      · rintro g ram'' d'' ⟨hm, hg⟩
        refine wp_pure ⟨hm, fun g' hr => ?_⟩
        obtain rfl := Option.some.inj (Except.ok.inj hr)
        exact hg g rfl

omit hgen hJ in
/-- Publishing what was gathered: the manifest is written, or it is as if it had never been
tried, or its slot cannot be read. -/
lemma wp_publishGathered {plan : CompactionPlan} {ram₁ : Ram} {d₁ : Disk} {g : Gathered}
    {Q : DiskPost Ram Unit} (hg : Gathers cfg harm A ram₁ d₁ plan g ram d)
    (hplan : ∃ range fallback, A (.compactRange ram₁ range fallback) d₁ ∧
      ram₁.planCompaction cfg range fallback = some plan) (hJd : J d)
    (hnone : ∀ st, ram.NoTarget harm d → Q (.error st) ram d)
    (hfailed : ∀ st d', (∀ evs ram₀ d₀, Moves cfg harm A ram₀ d₀ evs ram₁ d₁ →
      Moves cfg harm A ram₀ d₀ evs ram d') → Q (.error st) ram d')
    (hok : ∀ ram' d', TakesOver cfg harm A ram₁ d₁ g ram d ram' d' →
      J d' ∧ Q (.ok ()) ram' d') :
    Wp env harm A J (Store.publishGathered g) Q ram d := by
  obtain @⟨ram, d, idx, parent, live, hp, hranges, hnext⟩ := hg
  have hcore := SameCore.of_core (core_wroteAll ram g.output)
  have hslots : ∀ s : Slot, (Disk.writeAll d g.output).lookup s.fileName =
      d.lookup s.fileName := fun s =>
    lookup_writeAll_of_ne fun o _ => (segmentName_ne_slot _ s).symm
  have hc : Compacts cfg harm A ram₁ d₁ plan ram d idx parent g.input live g.output := ⟨hp, hplan⟩
  refine wp_get_bind (wp_publishManifest hd hJd hnone ?_)
  intro slot epoch ht hpub md hmd
  rw [hcore.active, hranges, hnext] at hmd hpub
  obtain rfl : md = ram.compactionAt (u32 (epoch + 1)) idx parent g.input g.output := hmd
  have ht : ram.Targets harm d slot epoch :=
    ht.congr (fun s => (hslots s).symm) hcore.slot.symm hcore.epoch.symm
  constructor
  · intro st d' hh
    exact hfailed st d' fun evs ram₀ d₀ h0 => h0.quiet (.compactFailed hc ht hpub hh)
  · intro n hn
    exact hok _ _ (.intro hc rfl rfl ht (hn.congr (hslots slot).symm) hpub)

omit hgen hJ in
/-- What is left to do then is to remove the input. -/
lemma wp_retireGathered {g : Gathered}
    (hrem : (∀ d, J d) ∨ ∀ name, ¬Reliable harm (.removeFile name))
    (hend : ∀ ram' d', Removed harm g.input.gens ram d ram' d' → J d') :
    Wp env harm A J (Store.retireGathered g)
      (fun r ram' d' => ∃ ram₂, Removed harm g.input.gens ram d ram₂ d' ∧
        ram' = (ram₂.forgetInput g.input).moveRecords g.input
          (g.output.flatMap OutputSeg.locations) ∧ ∃ n m, r = .ok (.compacted n m)) ram d := by
  refine wp_bind (wp_cleanupInputSegments hd hrem hend) ?_ (fun e ram' d' hm => by simp at hm)
  rintro _ ram' d' ⟨-, hr⟩
  exact wp_modify_bind (wp_modify_bind (wp_pure ⟨ram', hr, rfl, _, _, rfl⟩))

/-- Compacting a range makes moves that log nothing. -/
lemma wp_compactRange {range : CompactionRange} {fallback : AllowFullRangeFallback}
    (h0 : Moves cfg harm A ram₀ d₀ evs ram d) :
    Wp env harm A J (Store.compactRange cfg range fallback)
      (fun _ ram' d' => Moves cfg harm A ram₀ d₀ evs ram' d') ram d := by
  rw [compactRange_eq]
  refine wp_get_bind (wp_mark_bind (hJ.reached h0) fun hmark => ?_)
  cases hplan : ram.planCompaction cfg range fallback with
  | none => exact wp_pure h0
  | some plan =>
    refine wp_bind (wp_gatherCompaction hd hgen hJ h0) ?_ (fun e ram' d' hm => hm.1)
    rintro (_ | g) ram₁ d₁ ⟨hm, hg⟩
    · exact wp_pure hm
    · refine wp_bind (wp_publishGathered hd (Q := fun r ram' d' =>
          (∀ st, r = .error st → Moves cfg harm A ram₀ d₀ evs ram' d') ∧
            (r = .ok () → TakesOver cfg harm A ram d g ram₁ d₁ ram' d'))
        (hg g rfl) ⟨range, fallback, hmark, hplan⟩ (hJ.reached hm)
        (fun st _ => ⟨fun _ _ => hm, by simp⟩) (fun st d' hd' => ⟨fun _ _ => hd' _ _ _ h0, by simp⟩)
        fun ram' d' ht => ⟨?_, by simp, fun _ => ht⟩) ?_ (fun e ram' d' hm => hm.1 e rfl)
      · rcases hJ.removal with hall | hr
        · exact hall _
        · exact hJ.reached (h0.quiet (ht.move (removed_none hr _)))
      · rintro _ ram' d' ⟨-, ht⟩
        refine (wp_retireGathered hd hJ.removal fun ram'' d'' hr =>
          hJ.reached (h0.quiet ((ht rfl).move hr))).mono ?_
        rintro _ _ d'' ⟨ram₂, hr, rfl, -⟩
        exact h0.quiet ((ht rfl).move hr)

/-! ## The callers of `compactRange` -/

lemma wp_reclaimDeadFrontSegment (h0 : Moves cfg harm A ram₀ d₀ evs ram d) :
    Wp env harm A J (Store.reclaimDeadFrontSegment cfg)
      (fun _ ram' d' => Moves cfg harm A ram₀ d₀ evs ram' d') ram d := by
  refine wp_get_bind ?_
  split
  · exact wp_pure h0
  · split
    · exact wp_pure h0
    · exact wp_compactRange hd hgen hJ h0

lemma wp_compactOneSegment {fallback : AllowFullRangeFallback}
    (h0 : Moves cfg harm A ram₀ d₀ evs ram d) :
    Wp env harm A J (Store.compactOneSegment cfg fallback)
      (fun _ ram' d' => Moves cfg harm A ram₀ d₀ evs ram' d') ram d := by
  refine wp_get_bind ?_
  split
  · exact wp_pure h0
  · exact wp_compactRange hd hgen hJ h0

lemma wp_compactSteps (maxSteps : ℕ) (result : Store.CompactIdleResult)
    (h0 : Moves cfg harm A ram₀ d₀ evs ram d) :
    Wp env harm A J (Store.compactSteps cfg maxSteps result)
      (fun _ ram' d' => Moves cfg harm A ram₀ d₀ evs ram' d') ram d := by
  induction maxSteps generalizing result ram d with
  | zero => exact wp_pure h0
  | succ maxSteps ih =>
    refine wp_bind (Q := fun _ ram' d' => Moves cfg harm A ram₀ d₀ evs ram' d')
      (wp_attempt (wp_compactOneSegment hd hgen hJ h0)) ?_ (fun e ram' d' hm => hm)
    rintro (e | _ | ⟨inputSegs, outputSegs⟩) ram' d' hm
    · exact wp_pure hm
    · exact wp_pure hm
    · exact ih _ hm

lemma wp_compactIdle {maxSteps : ℕ} (h0 : Moves cfg harm A ram₀ d₀ evs ram d) :
    Wp env harm A J (Store.compactIdle cfg maxSteps)
      (fun _ ram' d' => Moves cfg harm A ram₀ d₀ evs ram' d') ram d := by
  refine wp_get_bind (wp_bind (wp_compactSteps hd hgen hJ maxSteps _ h0) ?_ fun e ram' d' hm => hm)
  rintro result ram' d' hm
  exact wp_get_bind (wp_pure hm)

lemma wp_compactFull (fuel : ℕ) (h0 : Moves cfg harm A ram₀ d₀ evs ram d) :
    Wp env harm A J (Store.compactFull cfg fuel)
      (fun _ ram' d' => Moves cfg harm A ram₀ d₀ evs ram' d') ram d := by
  induction fuel generalizing ram d with
  | zero => exact wp_spin (hJ.reached h0)
  | succ fuel ih =>
    refine wp_bind (wp_compactIdle hd hgen hJ h0) ?_ (fun e ram' d' hm => hm)
    rintro result ram' d' hm
    split
    · exact wp_fail hm
    · split
      · exact ih hm
      · exact wp_pure hm

/-! ## Admission -/

omit hd hgen hJ in
lemma reads_ensureMounted (hm : ram.mounted = true) :
    Reads env harm A J (Store.ensureMounted cfg) (fun _ => True) ram d := by
  refine wp_get_bind ?_
  rw [Store.when, if_neg (fun h => h hm)]
  exact reads_pure trivial

/-- The footprint check that the first admission loop ends with. -/
def FootprintFits (cfg : AppendLogConfig) (recordSize : ℕ) (ram : Ram) : Prop :=
  cfg.maxTotalBytes > 0 →
    u32 (ram.totalOnDiskBytes + ram.appendGrowthBytes cfg recordSize + cfg.drainReserveBytes) ≤
      cfg.maxTotalBytes

lemma wp_fitFootprint {recordSize : ℕ} (fuel : ℕ) (h0 : Moves cfg harm A ram₀ d₀ evs ram d) :
    Wp env harm A J (Store.fitFootprint cfg recordSize fuel)
      (fun r ram' d' => Moves cfg harm A ram₀ d₀ evs ram' d' ∧
        (r = .ok () → FootprintFits cfg recordSize ram')) ram d := by
  induction fuel generalizing ram d with
  | zero => exact wp_spin (hJ.reached h0)
  | succ fuel ih =>
    refine wp_get_bind ?_
    split
    · refine wp_bind (wp_compactOneSegment hd hgen hJ h0) ?_
        (fun e ram' d' hm => ⟨hm, fun hr => nomatch hr⟩)
      rintro (_ | _) ram' d' hm
      · exact wp_fail ⟨hm, fun hr => nomatch hr⟩
      · exact ih hm
    · next hfit => exact wp_pure ⟨h0, fun _ _ => not_lt.1 hfit⟩

/-- The free space was too little at some time, or could not be asked for. -/
def FreeSpaceShort (env : Env) (harm : FsCall → Disk → Disk → Prop) (needed : ℕ) : Prop :=
  (∃ t, env.free t < needed) ∨ ¬Reliable harm .freeBytes

lemma wp_fitFreeSpace {needed : ℕ} (fuel : ℕ) (h0 : Moves cfg harm A ram₀ d₀ evs ram d) :
    Wp env harm A J (Store.fitFreeSpace cfg needed fuel)
      (fun r ram' d' => Moves cfg harm A ram₀ d₀ evs ram' d' ∧
        (r = .ok () → (ram' = ram ∧ d' = d) ∨ FreeSpaceShort env harm needed)) ram d := by
  induction fuel generalizing ram d with
  | zero => exact wp_spin (hJ.reached h0)
  | succ fuel ih =>
    refine Reads.bind (P := fun free => free < needed → FreeSpaceShort env harm needed) ?_
      fun free hfree => ?_
    · refine Reads.bind
        (P := fun a : Except Status ℕ => (match a with | .ok n => n | .error _ => 0) <
        needed → FreeSpaceShort env harm needed) (reads_tryCall hd (hJ.reached h0) rfl ?_ ?_) ?_
      · rintro w - hlt
        exact .inl ⟨w.clock, hlt⟩
      · intro hr st _
        exact .inr hr
      · rintro (e | n) ha
        · exact reads_pure ha
        · exact reads_pure ha
    · split
      · next hlt =>
        refine wp_bind (wp_compactOneSegment hd hgen hJ h0) ?_
          (fun e ram' d' hm => ⟨hm, fun hr => nomatch hr⟩)
        rintro (_ | _) ram' d' hm
        · exact wp_fail ⟨hm, fun hr => nomatch hr⟩
        · exact (ih hm).mono fun r ram'' d'' hq => ⟨hq.1, fun _ => .inr (hfree hlt)⟩
      · exact wp_pure ⟨h0, fun _ => .inl ⟨rfl, rfl⟩⟩

/-- What admission has established about the object it leaves: the footprint check holds, of it
or of the object before the space was short. -/
def Admitted (env : Env) (cfg : AppendLogConfig) (harm : FsCall → Disk → Disk → Prop)
    (recordSize : ℕ) (ram : Ram) : Prop :=
  FootprintFits cfg recordSize ram ∨ cfg.minFreeBytes > 0 ∧ ∃ ram₁ : Ram,
    FootprintFits cfg recordSize ram₁ ∧ FreeSpaceShort env harm
      (cfg.minFreeBytes + ram₁.appendGrowthBytes cfg recordSize + cfg.drainReserveBytes)

lemma wp_admission {fuel recordSize : ℕ} (h0 : Moves cfg harm A ram₀ d₀ evs ram d) :
    Wp env harm A J (Store.admission cfg fuel recordSize)
      (fun r ram' d' => Moves cfg harm A ram₀ d₀ evs ram' d' ∧
        (r = .ok () → Admitted env cfg harm recordSize ram')) ram d := by
  refine wp_bind (Q := fun r ram' d' => Moves cfg harm A ram₀ d₀ evs ram' d' ∧
    (r = .ok () → FootprintFits cfg recordSize ram')) ?_ ?_
    (fun e ram' d' hm => ⟨hm.1, fun hr => nomatch hr⟩)
  · exact wp_when (fun _ => wp_fitFootprint hd hgen hJ fuel h0) fun hz =>
      ⟨h0, fun _ hp => absurd hp hz⟩
  · rintro _ ram' d' ⟨hm, hfit⟩
    have hfit := hfit rfl
    refine wp_get_bind (wp_when (fun hpos => ?_) fun _ => ⟨hm, fun _ => .inl hfit⟩)
    refine (wp_fitFreeSpace hd hgen hJ fuel hm).mono fun r ram'' d'' hq => ⟨hq.1, fun hr => ?_⟩
    rcases hq.2 hr with ⟨rfl, -⟩ | hshort
    · exact .inl hfit
    · exact .inr ⟨hpos, ram', hfit, hshort⟩

omit hd hgen hJ in
lemma wp_checkRecordSize {record : Bytes} :
    Wp env harm A J (Store.checkRecordSize cfg record)
      (fun r ram' d' => ram' = ram ∧ d' = d ∧ (r = .ok () → PayloadOk cfg record)) ram d := by
  rw [Store.checkRecordSize]
  split
  · exact wp_fail ⟨rfl, rfl, fun hr => nomatch hr⟩
  · next h1 =>
    split
    · exact wp_fail ⟨rfl, rfl, fun hr => nomatch hr⟩
    · next h2 => exact wp_pure ⟨rfl, rfl, fun _ => ⟨not_lt.1 h1, not_lt.1 h2⟩⟩

/-! ## Commits -/

/-- How event `e` comes to be logged: from an object of which `P` holds, room is made for
`eventBytes`, and the event is appended. -/
def LoggedFrom (cfg : AppendLogConfig) (harm : FsCall → Disk → Disk → Prop)
    (A : StoreMark → Disk → Prop) (ram₀ : Ram) (d₀ : Disk) (evs : List LogEvent) (P : Ram → Prop)
    (eventBytes : ℕ) (e : LogEvent) (ram' : Ram) (d' : Disk) : Prop :=
  ∃ ram₁ d₁ ram₂ d₂, Moves cfg harm A ram₀ d₀ evs ram₁ d₁ ∧ P ram₁ ∧
    RoomMade cfg harm A eventBytes ram₁ d₁ ram₂ d₂ ∧ Appended ram₂ d₂ e ram' d'

/-- What a commit of event `e` does: it logs the event, or it fails and logs nothing. -/
def Commits (cfg : AppendLogConfig) (harm : FsCall → Disk → Disk → Prop)
    (A : StoreMark → Disk → Prop) (ram₀ : Ram) (d₀ : Disk) (evs : List LogEvent) (P : Ram → Prop)
    (eventBytes : ℕ) (e : LogEvent) : DiskPost Ram Unit := fun r ram' d' =>
  (r = .ok () → Moves cfg harm A ram₀ d₀ (evs ++ [e]) ram' d' ∧
    LoggedFrom cfg harm A ram₀ d₀ evs P eventBytes e ram' d') ∧
  ∀ st, r = .error st → Moves cfg harm A ram₀ d₀ evs ram' d'

omit hd hgen hJ in
lemma commits_error {P : Ram → Prop} {n : ℕ} {e : LogEvent} {st : Status}
    (h : Moves cfg harm A ram₀ d₀ evs ram d) :
    Commits cfg harm A ram₀ d₀ evs P n e (.error st) ram d :=
  ⟨fun hr => (nomatch hr), fun _ _ => h⟩

/-- Making room for an event, then appending it and applying it to the index. -/
lemma wp_logEvent {P : Ram → Prop} {eventBytes baseSeq : ℕ} {e : LogEvent}
    {k : Unit → Store Unit} (h0 : Moves cfg harm A ram₀ d₀ evs ram d) (hP : P ram)
    (hseq : baseSeq < 2 ^ 32) (hl : ∀ ram' : Ram, ram'.records = ram.records → Loggable cfg ram' e)
    (hk : ∀ (ram' : Ram) (Q : DiskPost Ram Unit) d', ram'.records = ram.records →
      (∀ f : Ram → Ram, f (ram'.extendTail e.encode.length) = ram'.logged e →
        Wp env harm A J (Store.appendBytes e.encode >>= fun _ => Store.modify f) Q ram' d') →
      Wp env harm A J (k ()) Q ram' d') :
    Wp env harm A J (Store.makeRoom cfg eventBytes baseSeq >>= k)
      (Commits cfg harm A ram₀ d₀ evs P eventBytes e) ram d := by
  refine wp_bind (wp_makeRoom hd hgen hJ h0 hseq) ?_ (fun st ram' d' hm => commits_error hm.1)
  rintro _ ram' d' ⟨hm, hroom⟩
  have hroom := hroom rfl
  refine hk ram' _ d' hroom.records fun f hf => ?_
  refine (wp_append hJ hm (hl _ hroom.records) hroom.bytes_ne hf).mono fun r ram'' d'' hq =>
    ⟨fun hr => ?_, hq.2⟩
  exact ⟨(hq.1 hr).1, ram, d, ram', d', h0, hP, hroom, (hq.1 hr).2⟩

lemma wp_commitEnqueue {fuel sequence : ℕ} {record : Bytes}
    (h0 : Moves cfg harm A ram₀ d₀ evs ram d) (hm : ram.mounted = true)
    (hseq : sequence < 2 ^ 32)
    (hback : ∀ back, ram.seqs.getLast? = some back → sequence = back + 1) :
    Wp env harm A J (Store.commitEnqueue cfg fuel sequence record)
      (Commits cfg harm A ram₀ d₀ evs (Admitted env cfg harm (u32 record.length))
        (u32 (kEnqueueOverheadBytes + u32 record.length)) (.enqueue sequence record)) ram d := by
  refine (reads_ensureMounted hm).bind fun _ _ => ?_
  refine wp_bind wp_checkRecordSize ?_ ?_
  swap
  · rintro st ram' d' ⟨rfl, rfl, -⟩
    exact commits_error h0
  rintro _ ram' d' ⟨rfl, rfl, hok⟩
  split
  · exact wp_fail (commits_error h0)
  · next hne =>
    refine wp_bind (wp_admission hd hgen hJ h0) ?_ (fun st ram' d' hm => commits_error hm.1)
    rintro _ ram'' d'' ⟨hm, hadm⟩
    have hseqs : ram''.seqs = ram'.seqs := hm.seqs.trans h0.seqs.symm
    refine wp_logEvent hd hgen hJ hm (hadm rfl) hseq (fun ram₃ hr => ⟨by omega, hok rfl, ?_⟩)
      fun ram₃ Q d₃ _ hk => ?_
    · have hseqs₃ : ram₃.seqs = ram'.seqs := (congrArg (List.map _) hr).trans hseqs
      rw [hseqs₃]
      exact hback
    exact wp_get_bind (hk _ rfl)

lemma wp_commitPop {expectedSequence : ℕ} (h0 : Moves cfg harm A ram₀ d₀ evs ram d)
    (hm : ram.mounted = true) (hseq : expectedSequence < 2 ^ 32) :
    Wp env harm A J (Store.commitPop cfg expectedSequence)
      (Commits cfg harm A ram₀ d₀ evs (· = ram) kPopEventBytes (.pop expectedSequence)) ram d := by
  refine (reads_ensureMounted hm).bind fun _ _ => wp_get_bind ?_
  split
  · exact wp_fail (commits_error h0)
  · next front rest hrec =>
    split
    · exact wp_fail (commits_error h0)
    · next heq =>
      have heq : front.sequence = expectedSequence := not_not.1 heq
      subst heq
      have hassoc : (Store.appendPopEvent cfg front.sequence >>= fun _ =>
          Store.modify fun ram => (ram.affect front.segmentGeneration).popRecord) =
          (Store.makeRoom cfg kPopEventBytes front.sequence >>= fun _ =>
            Store.appendBytes (LogEvent.pop front.sequence).encode >>= fun _ =>
              Store.modify fun ram => (ram.affect front.segmentGeneration).popRecord) := by
        rw [Store.appendPopEvent]
        exact Act.bind_assoc ..
      rw [hassoc]
      refine wp_logEvent hd hgen hJ h0 rfl hseq (fun ram' hr => ?_) fun ram' Q d' hr hk => hk _ ?_
      · rw [Loggable, hr, hrec]
        exact ⟨front, rfl, rfl⟩
      · rw [Ram.logged, hr, hrec]
        rfl

lemma wp_rewriteRecord {fuel sequence : ℕ} {record : Bytes}
    (h0 : Moves cfg harm A ram₀ d₀ evs ram d) (hm : ram.mounted = true)
    (hseq : sequence < 2 ^ 32) :
    Wp env harm A J (Store.rewriteRecord cfg fuel sequence record)
      (Commits cfg harm A ram₀ d₀ evs (Admitted env cfg harm (u32 record.length))
        (u32 (kEnqueueOverheadBytes + u32 record.length)) (.rewrite sequence record)) ram d := by
  refine (reads_ensureMounted hm).bind fun _ _ => ?_
  refine wp_bind wp_checkRecordSize ?_ ?_
  swap
  · rintro st ram' d' ⟨rfl, rfl, -⟩
    exact commits_error h0
  rintro _ ram' d' ⟨rfl, rfl, hok⟩
  refine wp_bind (wp_admission hd hgen hJ h0) ?_ (fun st ram' d' hm => commits_error hm.1)
  rintro _ ram'' d'' ⟨hm, hadm⟩
  refine wp_get_bind ?_
  split
  · exact wp_fail (commits_error hm)
  · next target htarget =>
    have hmem := List.mem_of_find?_eq_some htarget
    have hkey : target.sequence = sequence := by simpa using List.find?_some htarget
    refine wp_logEvent hd hgen hJ hm (hadm rfl) hseq
      (fun ram₃ hr => ⟨hok rfl, target, hr ▸ hmem, hkey⟩) fun ram₃ Q d₃ hr hk => ?_
    refine wp_get_bind (hk _ ?_)
    rw [Ram.logged, hr, htarget]
    rfl

/-! ## Reads -/

omit hd hgen hJ in
lemma wp_lookupRecord {past : SegmentRecord → List SegmentRecord → ℕ} {sequence : ℕ} :
    Wp env harm A J (Store.lookupRecord past sequence)
      (fun r ram' d' => ram' = ram ∧ d' = d ∧ ∀ sr, r = .ok sr →
        ∃ front rest, ram.records = front :: rest ∧ front.sequence ≤ sequence ∧
          (front :: rest)[sequence - front.sequence]? = some sr) ram d := by
  refine wp_get_bind ?_
  split
  · exact wp_fail ⟨rfl, rfl, by simp⟩
  · next front rest hrec =>
    split
    · exact wp_fail ⟨rfl, rfl, by simp⟩
    · next hin =>
      split
      · exact wp_fail ⟨rfl, rfl, by simp⟩
      · next sr hsr =>
        refine wp_pure ⟨rfl, rfl, fun sr' h => ?_⟩
        obtain rfl := Except.ok.inj h
        exact ⟨front, rest, hrec, not_lt.1 (not_or.1 hin).1, hsr⟩

omit hd hgen hJ in
/-- Reading a record gives the bytes at the location the index has for it. -/
lemma wp_readRecord {sequence : ℕ} (hd : Damaging harm) (hJ : J d) (hm : ram.mounted = true) :
    Wp env harm A J (Store.readRecord cfg sequence)
      (fun r ram' d' => ram' = ram ∧ d' = d ∧ ∀ data, r = .ok data →
        ∃ front rest sr, ram.records = front :: rest ∧ front.sequence ≤ sequence ∧
          (front :: rest)[sequence - front.sequence]? = some sr ∧ data = (sr.view d).2) ram d := by
  refine (reads_ensureMounted hm).bind fun _ _ => wp_bind wp_lookupRecord ?_ ?_
  · rintro sr ram' d' ⟨rfl, rfl, hsr⟩
    obtain ⟨front, rest, hrec, hle, hget⟩ := hsr sr rfl
    refine wp_call hJ ?_ ?_ fun st d' hh => ⟨rfl, hd _ _ _ hh, by simp⟩
    · rintro w rfl v hv
      refine ⟨rfl, handle_disk rfl w, fun data hdata => ⟨front, rest, sr, hrec, hle, hget, ?_⟩⟩
      obtain rfl := Except.ok.inj hdata
      simp only [handle] at hv
      cases hl : w.disk.lookup (segmentName sr.segmentGeneration) with
      | none =>
        rw [hl] at hv
        cases hv
      | some file =>
        simp only [hl] at hv
        split at hv
        · rw [SegmentRecord.view, hl]
          exact (Except.ok.inj hv).symm
        · cases hv
    · rintro w rfl e -
      exact ⟨rfl, handle_disk rfl w, by simp⟩
  · rintro e ram' d' ⟨rfl, rfl, -⟩
    exact ⟨rfl, rfl, by simp⟩

end Execution

end Pqueue
