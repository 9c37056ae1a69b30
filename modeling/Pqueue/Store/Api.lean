import Pqueue.Store.Compaction

/-!
# The store interface

The public methods of `AppendLogStore` in `store.cpp`.  The admission loops compact until the
record fits; `fuel` bounds the turns of each loop, and a loop that needs more has no outcome.
-/

namespace Pqueue

open Effect LittleEndian

/-- `indexFromRecords`. -/
def Ram.index (ram : Ram) : QueueIndex :=
  match ram.records.head?, ram.records.getLast? with
  | some front, some back =>
    { head := front.sequence, tail := u32 (back.sequence + 1), count := u32 ram.records.length }
  | _, _ => { head := ram.nextSequence, tail := ram.nextSequence }

def Ram.pushRecord (ram : Ram) (r : SegmentRecord) : Ram :=
  { ram with records := ram.records ++ [r] }

def Ram.popRecord (ram : Ram) : Ram := { ram with records := ram.records.tail }

/-- The members after `format`: those `scanSegments` resets, the ranges and the counters. -/
def Ram.formatted (ram : Ram) : Ram :=
  { ram.reset with
    manifestRanges := []
    totalOnDiskBytes := 0
    activeTailDependenciesTracked := true
    activeTailAffectedGenerations := []
    mounted := true }

namespace Store

def readIndex (cfg : AppendLogConfig) : Store QueueIndex := do
  ensureMounted cfg
  let ram ← get
  pure ram.index

/-! ## Admission -/

/-- `while (totalOnDiskBytes() + growth + drainReserveBytes > maxTotalBytes)`. -/
def fitFootprint (cfg : AppendLogConfig) (recordSize : ℕ) : ℕ → Store Unit
  | 0 => Act.spin
  | fuel + 1 => do
    let ram ← get
    if u32 (ram.totalOnDiskBytes + ram.appendGrowthBytes cfg recordSize + cfg.drainReserveBytes) >
        cfg.maxTotalBytes then do
      let compact ← compactOneSegment cfg .no
      match compact with
      | .noOp => failure .queueFull "queue footprint limit reached"
      | .compacted _ _ => fitFootprint cfg recordSize fuel
    else pure ()

/-- `while (freeBytes() < needed)`. -/
def fitFreeSpace (cfg : AppendLogConfig) (needed : ℕ) : ℕ → Store Unit
  | 0 => Act.spin
  | fuel + 1 => do
    let free ← freeBytes
    if free < needed then do
      let compact ← compactOneSegment cfg .no
      match compact with
      | .noOp => failure .queueFull "insufficient filesystem free space"
      | .compacted _ _ => fitFreeSpace cfg needed fuel
    else pure ()

/-- The two admission loops that `commitEnqueue` and `rewriteRecord` share. -/
def admission (cfg : AppendLogConfig) (fuel recordSize : ℕ) : Store Unit := do
  when (cfg.maxTotalBytes > 0) (fitFootprint cfg recordSize fuel)
  let ram ← get
  when (cfg.minFreeBytes > 0) (fitFreeSpace cfg
    (cfg.minFreeBytes + ram.appendGrowthBytes cfg recordSize + cfg.drainReserveBytes) fuel)

/-- The size checks that `commitEnqueue` and `rewriteRecord` share. -/
def checkRecordSize (cfg : AppendLogConfig) (record : Bytes) : Store Unit :=
  if record.length > cfg.maxRecordBytes then
    failure .recordTooLarge "record exceeds append-log maximum record size"
  else if kSegmentHeaderBytes + kEnqueueOverheadBytes + record.length > cfg.maxSegmentBytes then
    failure .recordTooLarge "record too large to fit in a segment"
  else pure ()

/-! ## Commits -/

def commitEnqueue (cfg : AppendLogConfig) (fuel sequence : ℕ) (record : Bytes) : Store Unit := do
  ensureMounted cfg
  checkRecordSize cfg record
  if sequence = 2 ^ 32 - 1 then
    failure .sequenceExhausted "sequence space exhausted; format() required"
  else do
    admission cfg fuel (u32 record.length)
    makeRoom cfg (u32 (kEnqueueOverheadBytes + u32 record.length)) sequence
    let ram ← get
    let payloadOffset := u32 (ram.activeSegmentBytes + kEnqueueHeaderBytes)
    appendEnqueueEventBytes (serializeEnqueueEvent sequence record)
    modify fun ram => ram.pushRecord
      ⟨sequence, ram.activeGeneration, payloadOffset, u32 record.length⟩

def commitPop (cfg : AppendLogConfig) (expectedSequence : ℕ) : Store Unit := do
  ensureMounted cfg
  let ram ← get
  match ram.records with
  | [] => failure .invalidIndex "commitPop: sequence mismatch"
  | front :: _ =>
    if front.sequence ≠ expectedSequence then
      failure .invalidIndex "commitPop: sequence mismatch"
    else do
      appendPopEvent cfg front.sequence
      modify fun ram => (ram.affect front.segmentGeneration).popRecord

def rewriteRecord (cfg : AppendLogConfig) (fuel sequence : ℕ) (record : Bytes) : Store Unit := do
  ensureMounted cfg
  checkRecordSize cfg record
  admission cfg fuel (u32 record.length)
  appendRewriteEvent cfg sequence record

/-! ## Reads -/

/-- The record of a live sequence, by its distance from the head; `past` is the first sequence
that the caller refuses. -/
def lookupRecord (past : SegmentRecord → List SegmentRecord → ℕ) (sequence : ℕ) :
    Store SegmentRecord := do
  let ram ← get
  match ram.records with
  | [] => failure .queueEmpty "queue is empty"
  | front :: rest =>
    if sequence < front.sequence ∨ sequence ≥ past front (front :: rest) then
      failure .invalidRecord "sequence not in live record range"
    else match (front :: rest)[sequence - front.sequence]? with
      | none => failure .invalidRecord "sequence not in live record range"
      | some sr => pure sr

/-- `readRecord` bounds the sequence by a 32-bit sum. -/
def readRecord (cfg : AppendLogConfig) (sequence : ℕ) : Store Bytes := do
  ensureMounted cfg
  let sr ← lookupRecord (fun front rs => u32 (front.sequence + u32 rs.length)) sequence
  call (.readAt (segmentName sr.segmentGeneration) sr.payloadOffset sr.payloadBytes)

/-- `readRecordSize` compares the distance from the head with the number of records. -/
def readRecordSize (cfg : AppendLogConfig) (sequence : ℕ) : Store ℕ := do
  ensureMounted cfg
  let sr ← lookupRecord (fun front rs => front.sequence + rs.length) sequence
  pure sr.payloadBytes

/-! ## Locks and formatting -/

def tryAcquireLockFile (cfg : AppendLogConfig) (name : FileName) (contents : Bytes) :
    Store Unit := do
  ensureMounted cfg
  call (.tryAcquireLockFile name contents)

def releaseLockFile (name : FileName) (expectedContents : Bytes) : Store Unit :=
  call (.releaseLockFile name expectedContents)

def format : Store Unit := do
  call .mount
  let files ← call .listFiles
  Act.forEach (fun name => when (isSegmentName name).isSome (ignore (.removeFile name))) files
  ignore (.removeFile Slot.a.fileName)
  ignore (.removeFile Slot.b.fileName)
  modify Ram.formatted

end Store

end Pqueue
