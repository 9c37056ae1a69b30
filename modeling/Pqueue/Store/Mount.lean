import Mathlib.Data.List.Sort
import Pqueue.Log.Replay
import Pqueue.Store.Manifest

/-!
# Mounting: election, replay and tail recovery

`mount` and `scanSegments` of `store.cpp`.  A segment is scanned on the bytes that are left
of it; `scanStep` is one turn of the loop, and tells a torn event from a corrupt one.  The
source keeps two offsets, of which `lastGoodOffset` equals `offset` whenever the loop ends.
-/

namespace Pqueue

open Effect LittleEndian

/-- Allocation guard for whole-segment replay reads. -/
def kMaxReplaySegmentReadBytes : ℕ := 256 * 1024

/-! ## One event -/

/-- What the scanner finds at the front of the bytes that are left. -/
inductive ScanStep
  | torn
  | corrupt
  /-- The source reads the checksum or the footer past the end of its buffer. -/
  | pastEnd
  | payloadEvent (header : EnqueueHeader) (payload : Bytes) (rest : Bytes)
  | popEvent (event : PopEvent) (rest : Bytes)
  deriving DecidableEq

/-- The bytes an ENQUEUE or REWRITE event takes, as the scanner computes them. -/
def EnqueueHeader.totalEventBytes (h : EnqueueHeader) : ℕ :=
  u32 (kEnqueueHeaderBytes + h.payloadBytes + kEventTrailerBytes)

/-- Payload, checksum and footer of an event whose header is `eh`. -/
def scanPayload (eh : EnqueueHeader) (bytes : Bytes) : ScanStep :=
  let payloadAndTrailer :=
    (bytes.drop kEnqueueHeaderBytes).take (u32 (eh.payloadBytes + kEventTrailerBytes))
  if payloadAndTrailer.length < u32 (eh.payloadBytes + kEventTrailerBytes) then .torn
  else
    let payload := payloadAndTrailer.take eh.payloadBytes
    -- the two words are there unless `payloadBytes + 8` has wrapped
    match read32 (payloadAndTrailer.drop eh.payloadBytes) with
    | none => .pastEnd
    | some (storedCrc, r) =>
      match read32 r with
      | none => .pastEnd
      | some (storedFooter, _) =>
        if storedCrc ≠ enqueueEventCrc eh payload ∨ storedFooter ≠ kFooterMagic then .corrupt
        else .payloadEvent eh payload (bytes.drop eh.totalEventBytes)

def scanStep (maxRecordBytes : ℕ) (bytes : Bytes) : ScanStep :=
  match read32 bytes with
  | none => .torn
  | some (magic, _) =>
    if magic = kEnqueueMagic ∨ magic = kRewriteMagic then
      if bytes.length < kEnqueueHeaderBytes then .torn
      else match parseEnqueueHeader (bytes.take kEnqueueHeaderBytes) with
        | none => .corrupt
        | some eh =>
          if eh.payloadBytes > maxRecordBytes then .corrupt
          else if eh.totalEventBytes > bytes.length then .torn
          else scanPayload eh bytes
    else if magic = kPopMagic then
      if bytes.length < kPopEventBytes then .torn
      else match parsePopEvent (bytes.take kPopEventBytes) with
        | none => .corrupt
        | some pe => .popEvent pe (bytes.drop kPopEventBytes)
    else .corrupt

/-! ## Replaying events -/

/-- What the replay accumulates: members of the store and the local `tailAffectedGens`. -/
structure Replay where
  records : List SegmentRecord := []
  nextSequence : ℕ := 0
  tailAffectedGens : List ℕ := []
  deriving DecidableEq, Repr

/-- Replace the record with the sequence of `sr`, if there is one. -/
def replaceRecord (sr : SegmentRecord) : List SegmentRecord → Option (List SegmentRecord) :=
  QueueLog.replaceFirst SegmentRecord.sequence sr

/-- Insert `sr` before the first record whose sequence is not smaller. -/
def insertRecord (sr : SegmentRecord) : List SegmentRecord → List SegmentRecord :=
  QueueLog.insertBefore SegmentRecord.sequence sr

/-- `if (sequence + 1 > nextSequence_) nextSequence_ = sequence + 1`. -/
def bumpSequence (nextSequence sequence : ℕ) : ℕ :=
  if u32 (sequence + 1) > nextSequence then u32 (sequence + 1) else nextSequence

/-- The generation of the first record with this sequence, if the segment is the last one. -/
def affectedBy (isLastSegment : Bool) (sequence : ℕ) (records : List SegmentRecord) : List ℕ :=
  if isLastSegment then
    ((records.find? fun r => r.sequence = sequence).map (·.segmentGeneration)).toList
  else []

/-- Replay an ENQUEUE, at the back, or a REWRITE, in place or in sequence order. -/
def Replay.payloadEvent (isLastSegment : Bool) (gen offset : ℕ) (eh : EnqueueHeader)
    (st : Replay) : Replay :=
  let sr : SegmentRecord := ⟨eh.sequence, gen, offset + kEnqueueHeaderBytes, eh.payloadBytes⟩
  if eh.magic = kEnqueueMagic then
    { st with
      records := st.records ++ [sr]
      nextSequence := bumpSequence st.nextSequence eh.sequence }
  else
    { records := (replaceRecord sr st.records).getD (insertRecord sr st.records)
      nextSequence := bumpSequence st.nextSequence eh.sequence
      tailAffectedGens := affectedBy isLastSegment eh.sequence st.records ∪ st.tailAffectedGens }

/-- Replay a POP, which counts only when it names the front record. -/
def Replay.popEvent (isLastSegment : Bool) (pe : PopEvent) (st : Replay) : Replay :=
  match st.records with
  | r :: rs =>
    if r.sequence = pe.sequence then
      { records := rs
        nextSequence := bumpSequence st.nextSequence pe.sequence
        tailAffectedGens := affectedBy isLastSegment pe.sequence st.records ∪ st.tailAffectedGens }
    else { st with nextSequence := bumpSequence st.nextSequence pe.sequence }
  | [] => { st with nextSequence := bumpSequence st.nextSequence pe.sequence }

/-- Where and why the scan of a segment stopped. -/
structure Scan where
  replay : Replay
  offset : ℕ
  corrupt : Bool
  deriving DecidableEq, Repr

/-- The event loop on the bytes that are left.  Each event takes at least 20 bytes, so the
number of bytes is fuel enough. -/
def scanEvents (maxRecordBytes : ℕ) (isLastSegment : Bool) (gen : ℕ) :
    ℕ → ℕ → Bytes → Replay → Scan
  | 0, offset, _, st => ⟨st, offset, false⟩
  | fuel + 1, offset, bytes, st =>
    if bytes = [] then ⟨st, offset, false⟩
    else match scanStep maxRecordBytes bytes with
      | .torn => ⟨st, offset, false⟩
      | .corrupt => ⟨st, offset, true⟩
      -- what the source does then is undefined; elsewhere it is taken to find no event
      | .pastEnd => ⟨st, offset, true⟩
      | .payloadEvent eh _ rest =>
        scanEvents maxRecordBytes isLastSegment gen fuel (offset + eh.totalEventBytes) rest
          (st.payloadEvent isLastSegment gen offset eh)
      | .popEvent pe rest =>
        scanEvents maxRecordBytes isLastSegment gen fuel (offset + kPopEventBytes) rest
          (st.popEvent isLastSegment pe)

/-! ## Members computed in memory -/

/-- The members `scanSegments` resets; the ranges are not among them. -/
def Ram.reset (ram : Ram) : Ram :=
  { ram with
    records := []
    activeGenerations := []
    sealedSegmentBytes := fun _ => none
    cachedWrittenSlot := none
    cachedWrittenEpoch := 0
    activeGeneration := 0
    activeSegmentBytes := 0
    nextGeneration := 1
    nextSequence := 0
    manifestSlotBytes := fun _ => 0 }

/-- The generations a manifest spans, the tail included. -/
def ManifestData.totalGens (md : ManifestData) : ℕ :=
  (if md.tailGeneration ≠ 0 then 1 else 0) +
    (md.ranges.map fun r => r.endGen + 1 - r.startGen).sum

/-- `if (g + 1 > nextGeneration_) nextGeneration_ = g + 1`, for every segment file. -/
def advanceGeneration (nextGeneration : ℕ) (gens : List ℕ) : ℕ :=
  gens.foldl (fun next g => if u32 (g + 1) > next then u32 (g + 1) else next) nextGeneration

/-- After segment `gen` was replayed. -/
def Ram.replayed (ram : Ram) (gen : ℕ) (st : Replay) : Ram :=
  { ram with
    records := st.records
    nextSequence := st.nextSequence
    activeGeneration := gen }

def Ram.setTailBytes (ram : Ram) (bytes : ℕ) : Ram := { ram with activeSegmentBytes := bytes }

/-- Segment file `gen` of `size` bytes is part of the footprint. -/
def Ram.addSegment (ram : Ram) (gen size : ℕ) : Ram :=
  { ram with
    totalOnDiskBytes := u32 (ram.totalOnDiskBytes + u32 size)
    sealedSegmentBytes := Function.update ram.sealedSegmentBytes gen (some (u32 size)) }

/-- Manifest slot `slot` of `size` bytes is part of the footprint. -/
def Ram.addSlot (ram : Ram) (slot : Slot) (size : ℕ) : Ram :=
  { ram with
    totalOnDiskBytes := u32 (ram.totalOnDiskBytes + u32 size)
    manifestSlotBytes := Function.update ram.manifestSlotBytes slot (u32 size) }

/-- Segment file `gen` of `size` bytes is gone. -/
def Ram.dropSegment (ram : Ram) (gen size : ℕ) : Ram :=
  { ram with
    totalOnDiskBytes := subU32 ram.totalOnDiskBytes (u32 size)
    sealedSegmentBytes := Function.update ram.sealedSegmentBytes gen none }

def Ram.clearFootprint (ram : Ram) : Ram := { ram with totalOnDiskBytes := 0 }

/-- The mount has learnt what the tail depends on. -/
def Ram.trackTail (ram : Ram) (affected : List ℕ) : Ram :=
  { ram with
    activeTailDependenciesTracked := true
    activeTailAffectedGenerations := affected }

def Ram.setMounted (ram : Ram) : Ram := { ram with mounted := true }

/-- `nextGeneration_` is past every segment file. -/
def Ram.advance (ram : Ram) (gens : List ℕ) : Ram :=
  { ram with nextGeneration := advanceGeneration ram.nextGeneration gens }

/-- The first listed segment that is not active. -/
def firstDangling (activeGenerations : List ℕ) (files : List FileName) : Option (FileName × ℕ) :=
  files.findSome? fun name => (isSegmentName name).bind fun gen =>
    if gen ∈ activeGenerations then none else some (name, gen)

namespace Store

/-! ## Segments -/

/-- The bytes of a segment, after the size guard. -/
def readSegment (name : FileName) : Store Bytes :=
  tryCall (.fileSize name) >>= fun
    | .error _ => failure .dataCorrupt "segment missing, too small, or too large"
    | .ok sz =>
      if sz < kSegmentHeaderBytes ∨ sz > kMaxReplaySegmentReadBytes then
        failure .dataCorrupt "segment missing, too small, or too large"
      else tryCall (.readFile name) >>= fun
        | .error _ => failure .dataCorrupt "cannot read segment"
        | .ok segBuf =>
          if segBuf.length ≠ sz then failure .dataCorrupt "cannot read segment"
          else pure segBuf

/-- The header check of a segment that should be generation `gen`. -/
def checkHeader (gen : ℕ) (segBuf : Bytes) : Store Unit :=
  match parseSegmentHeader (segBuf.take kSegmentHeaderBytes) with
  | .error version =>
    if version ≠ kFormatVersion then failure .dataCorrupt "segment version mismatch"
    else failure .dataCorrupt "corrupt segment header"
  | .ok header =>
    if header.generation ≠ gen then failure .dataCorrupt "segment generation mismatch"
    else pure ()

/-- One turn of the segment loop: scan segment `gen` and, when it is the last one, cut off
what follows its last good event. -/
def scanSegment (cfg : AppendLogConfig) (isLastSegment : Bool) (gen : ℕ)
    (tailAffectedGens : List ℕ) : Store (List ℕ) := do
  let segBuf ← readSegment (segmentName gen)
  checkHeader gen segBuf
  let ram ← get
  let body := segBuf.drop kSegmentHeaderBytes
  let scan := scanEvents cfg.maxRecordBytes isLastSegment gen body.length kSegmentHeaderBytes body
    ⟨ram.records, ram.nextSequence, tailAffectedGens⟩
  modify fun ram => ram.replayed gen scan.replay
  if scan.corrupt ∧ ¬isLastSegment then
    failure .dataCorrupt "corrupt event data in segment"
  else if scan.offset < segBuf.length ∧ ¬isLastSegment then
    failure .dataCorrupt "incomplete event in non-active segment"
  else do
    -- a failed truncation is ignored: the next mount discards the same tail again
    when (scan.offset < segBuf.length) (ignore (.resizeFile (segmentName gen) scan.offset))
    modify fun ram => ram.setTailBytes scan.offset
    pure scan.replay.tailAffectedGens

/-- The segment loop; the last generation of the list is the active segment. -/
def scanActive (cfg : AppendLogConfig) : List ℕ → List ℕ → Store (List ℕ)
  | [], affected => pure affected
  | gen :: gens, affected => do
    let affected ← scanSegment cfg gens.isEmpty gen affected
    scanActive cfg gens affected

/-! ## Accounting and cleanup -/

/-- Add the segment files on disk to the footprint. -/
def accountSegments : List ℕ → Store Unit :=
  Act.forEach fun gen => do
    let sz ← call (.fileSize (segmentName gen))
    modify fun ram => ram.addSegment gen sz

/-- Add a manifest slot to the footprint, if it exists. -/
def accountSlot (slot : Slot) : Store Unit :=
  tryCall (.fileSize slot.fileName) >>= fun
    | .error _ => pure ()
    | .ok sz => modify fun ram => ram.addSlot slot sz

def cleanupOneDanglingSegment : Store Unit :=
  tryCall .listFiles >>= fun
    | .error _ => pure ()
    | .ok files => get >>= fun ram =>
      match firstDangling ram.activeGenerations files with
      | none => pure ()
      | some (name, gen) => do
        let sz ← sizeOrZero name
        tryCall (.removeFile name) >>= fun
          | .error _ => pure ()
          | .ok _ => modify fun ram => ram.dropSegment gen sz

/-- The last part of `scanSegments`: the footprint of all files, the dependencies of the tail,
and the removal of one dangling segment. -/
def accountFiles (sortedGenerations tailAffectedGens : List ℕ) : Store Unit := do
  modify Ram.clearFootprint
  accountSegments sortedGenerations
  accountSlot .a
  accountSlot .b
  modify fun ram => ram.trackTail tailAffectedGens
  cleanupOneDanglingSegment

/-! ## Mount -/

/-- Elect the manifest, or accept a directory without segments. -/
def adoptManifest (sortedGenerations : List ℕ) : Store Unit := do
  let manifest ← readManifest
  match manifest with
  | some md =>
    if md.totalGens > kManifestMaxTotalGenerations then
      failure .dataCorrupt "manifest generation span exceeds maximum"
    else applyManifestToRam md
  | none =>
    if sortedGenerations ≠ [] then
      failure .dataCorrupt "segment files exist without a valid manifest"
    else pure ()

def scanSegments (cfg : AppendLogConfig) : Store Unit := do
  let files ← call .listFiles
  let sortedGenerations := (files.filterMap isSegmentName).insertionSort (· ≤ ·)
  modify Ram.reset
  adoptManifest sortedGenerations
  modify fun ram => ram.advance sortedGenerations
  let ram ← get
  let tailAffectedGens ← scanActive cfg ram.activeGenerations []
  accountFiles sortedGenerations tailAffectedGens

def mount (cfg : AppendLogConfig) : Store Unit := do
  call .mount
  scanSegments cfg
  modify Ram.setMounted

def ensureMounted (cfg : AppendLogConfig) : Store Unit := do
  let ram ← get
  when (¬ram.mounted) (mount cfg)

end Store

end Pqueue
