import Pqueue.Store.Mount

/-!
# Appending events

The append methods of `store.cpp` and the growth estimate that admission rests on.
-/

namespace Pqueue

open Effect LittleEndian

/-! ## Members computed in memory -/

/-- Whether an event of `eventBytes` no longer fits in a tail that holds events. -/
def Ram.needsRotation (cfg : AppendLogConfig) (ram : Ram) (eventBytes : ℕ) : Prop :=
  ram.activeSegmentBytes > kSegmentHeaderBytes ∧
    u32 (ram.activeSegmentBytes + eventBytes) > cfg.maxSegmentBytes

instance (cfg : AppendLogConfig) (ram : Ram) (n : ℕ) : Decidable (ram.needsRotation cfg n) :=
  inferInstanceAs (Decidable (_ ∧ _))

/-- After `n` bytes were appended to the tail. -/
def Ram.extendTail (ram : Ram) (n : ℕ) : Ram :=
  { ram with
    activeSegmentBytes := u32 (ram.activeSegmentBytes + u32 n)
    totalOnDiskBytes := u32 (ram.totalOnDiskBytes + u32 n) }

/-- The tail now depends on segment `gen`, when dependencies are tracked. -/
def Ram.affect (ram : Ram) (gen : ℕ) : Ram :=
  { ram with
    activeTailAffectedGenerations := if ram.activeTailDependenciesTracked then
        ram.activeTailAffectedGenerations.insert gen
      else ram.activeTailAffectedGenerations }

/-- The bytes the inactive slot is taken to hold: the smaller slot when nothing was written in
this session. -/
def Ram.inactiveSlotBytes (ram : Ram) : ℕ :=
  match ram.cachedWrittenSlot with
  | some slot => ram.manifestSlotBytes slot.other
  | none => min (ram.manifestSlotBytes .a) (ram.manifestSlotBytes .b)

/-- `appendGrowthBytes`. -/
def Ram.appendGrowthBytes (cfg : AppendLogConfig) (ram : Ram) (recordSize : ℕ) : ℕ :=
  let eventBytes := u32 (kEnqueueOverheadBytes + recordSize)
  if ram.activeSegmentBytes = 0 ∨ ram.needsRotation cfg eventBytes then
    let prospectiveRanges := u32 (ram.manifestRanges.length +
      if ram.needsRotation cfg eventBytes then 1 else 0)
    let newSlotSize := u32 (kManifestFixedBytes + kManifestRangeEntryBytes * prospectiveRanges)
    let inactiveSize := ram.inactiveSlotBytes
    let manifestGrowth := if newSlotSize > inactiveSize then newSlotSize - inactiveSize else 0
    u32 (eventBytes + kSegmentHeaderBytes + manifestGrowth)
  else eventBytes

/-- `target->… = …` on the record found for `sequence`: the first one with it. -/
def Ram.relocate (ram : Ram) (sequence payloadOffset payloadBytes : ℕ) : Ram :=
  { ram with
    records := (replaceRecord ⟨sequence, ram.activeGeneration, payloadOffset, payloadBytes⟩
      ram.records).getD ram.records }

namespace Store

/-- `appendWouldHitAdmissionPressure`. -/
def appendWouldHitAdmissionPressure (cfg : AppendLogConfig) (recordSize : ℕ) : Store Bool := do
  let ram ← get
  let growth := ram.appendGrowthBytes cfg recordSize
  if cfg.maxTotalBytes > 0 ∧
      ram.totalOnDiskBytes + growth + cfg.drainReserveBytes > cfg.maxTotalBytes then pure true
  else if cfg.minFreeBytes > 0 then do
    let free ← freeBytes
    pure (free < cfg.minFreeBytes + growth + cfg.drainReserveBytes)
  else pure false

/-- Write an event at the end of the tail. -/
def appendBytes (eventBytes : Bytes) : Store Unit := do
  let ram ← get
  mark (.append ram.activeGeneration ram.activeSegmentBytes eventBytes.length)
  call (.writeAt (segmentName ram.activeGeneration) ram.activeSegmentBytes eventBytes)
  modify fun ram => ram.extendTail eventBytes.length

def appendEnqueueEventBytes (eventBytes : Bytes) : Store Unit := appendBytes eventBytes

/-- Rotate when the event does not fit, and open a first segment when there is none. -/
def makeRoom (cfg : AppendLogConfig) (eventBytes baseSeq : ℕ) : Store Unit := do
  let ram ← get
  when (ram.needsRotation cfg eventBytes) rotateSegment
  ensureActiveSegment baseSeq

def appendPopEvent (cfg : AppendLogConfig) (sequence : ℕ) : Store Unit := do
  makeRoom cfg kPopEventBytes sequence
  appendBytes (serializePopEvent sequence)

def appendRewriteEvent (cfg : AppendLogConfig) (sequence : ℕ) (record : Bytes) : Store Unit := do
  let ram ← get
  match ram.records.find? fun r => r.sequence = sequence with
  | none => failure .invalidRecord "sequence not in live record range"
  | some target => do
    makeRoom cfg (u32 (kEnqueueOverheadBytes + u32 record.length)) sequence
    let ram ← get
    let payloadOffset := u32 (ram.activeSegmentBytes + kEnqueueHeaderBytes)
    appendBytes (serializeRewriteEvent sequence record)
    modify fun ram => (ram.affect target.segmentGeneration).relocate sequence payloadOffset
      (u32 record.length)

end Store

end Pqueue
