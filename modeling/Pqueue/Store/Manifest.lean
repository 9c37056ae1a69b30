import Mathlib.Logic.Function.Basic
import Pqueue.Store.Types

/-!
# Publishing manifests and opening segments

`manifest.cpp`, with the methods of `store.cpp` that create a segment and publish the manifest
that names it.
-/

namespace Pqueue

open Effect LittleEndian

/-! ## Slot election -/

/-- `chooseInactiveSlot`: the slot to write, or nothing when slot files exist and none parses.
`a` and `b` are whether the slot exists and what it parses to. -/
def chooseInactiveSlot (existsA existsB : Bool) (a b : Option ManifestData) : Option Slot :=
  if !existsA && !existsB then some .a
  else match a, b with
    | none, none => none
    | none, some _ => some .a
    | some _, none => some .b
    | some mdA, some mdB => if mdB.epoch ≤ mdA.epoch then some .b else some .a

/-- `chooseWinningSlot`: the higher epoch wins, and slot A on a tie. -/
def chooseWinningSlot : Option ManifestData → Option ManifestData → Option ManifestData
  | none, none => none
  | some mdA, none => some mdA
  | none, some mdB => some mdB
  | some mdA, some mdB => if mdB.epoch > mdA.epoch then some mdB else some mdA

/-! ## Members computed in memory -/

/-- The tail as a list of generations: none when it is `0`. -/
def ManifestData.tailList (md : ManifestData) : List ℕ :=
  if md.tailGeneration ≠ 0 then [md.tailGeneration] else []

/-- The running total after a file of `oldSize` bytes has become one of `newSize`. -/
def retotal (total newSize oldSize : ℕ) : ℕ :=
  if newSize ≥ oldSize then u32 (total + (newSize - oldSize))
  else subU32 total (oldSize - newSize)

/-- `writeSegmentFileTracked`, after the write. -/
def Ram.trackWrite (ram : Ram) (name : FileName) (newSize oldSize : ℕ) : Ram :=
  { ram with
    totalOnDiskBytes := retotal ram.totalOnDiskBytes (u32 newSize) (u32 oldSize)
    sealedSegmentBytes := match isSegmentName name with
      | some gen => Function.update ram.sealedSegmentBytes gen (some (u32 newSize))
      | none => ram.sealedSegmentBytes }

/-- `applyManifestToRam`, once the ranges are expanded to `gens`. -/
def Ram.applyManifest (ram : Ram) (md : ManifestData) (gens : List ℕ) : Ram :=
  { ram with
    manifestRanges := md.ranges
    activeGenerations := gens ++ md.tailList
    nextGeneration := md.nextGeneration }

/-- The slot written last holds a manifest of this epoch and size. -/
def Ram.noteSlot (ram : Ram) (slot : Slot) (epoch size : ℕ) : Ram :=
  { ram with
    cachedWrittenSlot := some slot
    cachedWrittenEpoch := epoch
    manifestSlotBytes := Function.update ram.manifestSlotBytes slot (u32 size) }

/-- The size of the tail is recorded as that of a sealed segment. -/
def Ram.noteSealed (ram : Ram) : Ram :=
  { ram with
    sealedSegmentBytes := if ram.activeGeneration ≠ 0 then
        Function.update ram.sealedSegmentBytes ram.activeGeneration (some ram.activeSegmentBytes)
      else ram.sealedSegmentBytes }

/-- The ranges after the tail is sealed: it extends the last range when it follows it. -/
def Ram.sealTail (ram : Ram) : List ManifestRange :=
  if ram.activeGeneration ≠ 0 then
    match ram.manifestRanges.getLast? with
    | some last =>
      if u32 (last.endGen + 1) = ram.activeGeneration then
        ram.manifestRanges.dropLast ++ [⟨last.startGen, ram.activeGeneration⟩]
      else ram.manifestRanges ++ [⟨ram.activeGeneration, ram.activeGeneration⟩]
    | none => [⟨ram.activeGeneration, ram.activeGeneration⟩]
  else ram.manifestRanges

/-- The tail is a new segment that holds its header only. -/
def Ram.openTail (ram : Ram) (gen : ℕ) : Ram :=
  { ram with
    activeGeneration := gen
    activeSegmentBytes := kSegmentHeaderBytes
    activeTailDependenciesTracked := true
    activeTailAffectedGenerations := [] }

/-- `0` when there is no record: the sequence a new segment is labelled with. -/
def Ram.baseSeq (ram : Ram) : ℕ :=
  match ram.records.getLast? with
  | some r => u32 (r.sequence + 1)
  | none => 0

namespace Store

/-! ## Reading the slots -/

/-- `tryRead`: the manifest of a slot, if the slot can be read and parses. -/
def tryReadSlot (slot : Slot) : Store (Option ManifestData) :=
  tryCall (.readFile slot.fileName) >>= fun
    | .ok data => pure (parseManifest data)
    | .error _ => pure none

def slotExists (slot : Slot) : Store Bool :=
  tryCall (.fileSize slot.fileName) >>= fun
    | .ok _ => pure true
    | .error _ => pure false

/-- `readManifest`. -/
def readManifest : Store (Option ManifestData) := do
  let mdA ← tryReadSlot .a
  let mdB ← tryReadSlot .b
  pure (chooseWinningSlot mdA mdB)

/-- The loop of `applyManifestToRam` over the ranges. -/
def expandRanges : List ManifestRange → Store (List ℕ)
  | [] => pure []
  | r :: rs => do
    let gens ← generations r.startGen r.endGen
    let rest ← expandRanges rs
    pure (gens ++ rest)

def applyManifestToRam (md : ManifestData) : Store Unit := do
  let gens ← expandRanges md.ranges
  modify fun ram => ram.applyManifest md gens

/-! ## Tracked writes -/

inductive SegmentWriteDisposition
  | mustBeNew
  | mayOverwrite
  deriving DecidableEq

def writeSegmentFileTracked (name : FileName) (data : Bytes)
    (disposition : SegmentWriteDisposition) : Store Unit := do
  let oldSize ← (if disposition = .mayOverwrite then sizeOrZero name else pure 0)
  call (.writeFile name data)
  modify fun ram => ram.trackWrite name data.length oldSize

/-! ## Publishing -/

/-- The slow path of `publishManifest`: the slot to write and the winning epoch, from the
slot files. -/
def probeSlots : Store (Slot × ℕ) := do
  let existsA ← slotExists .a
  let existsB ← slotExists .b
  let mdA ← (if existsA then tryReadSlot .a else pure none)
  let mdB ← (if existsB then tryReadSlot .b else pure none)
  match chooseInactiveSlot existsA existsB mdA mdB with
  | none => failure .dataCorrupt "manifest slot(s) exist but none are valid"
  | some slot => pure (slot, ((chooseWinningSlot mdA mdB).map (·.epoch)).getD 0)

/-- The slot to write and the winning epoch: from the cache when a manifest was written in
this session. -/
def writeTarget : Store (Slot × ℕ) := do
  let ram ← get
  match ram.cachedWrittenSlot with
  | some slot => pure (slot.other, ram.cachedWrittenEpoch)
  | none => probeSlots

def publishManifest (manifest : ManifestData) : Store Unit := do
  let target ← writeTarget
  mark (.publish target.2 manifest)
  let toWrite : ManifestData := { manifest with epoch := u32 (target.2 + 1) }
  let data := serialiseManifest toWrite
  writeSegmentFileTracked target.1.fileName data .mayOverwrite
  applyManifestToRam toWrite
  modify fun ram => ram.noteSlot target.1 toWrite.epoch data.length

/-! ## Opening segments -/

def createSegment (generation startSeq : ℕ) : Store Unit :=
  writeSegmentFileTracked (segmentName generation) (serializeSegmentHeader generation startSeq)
    .mustBeNew

/-- Create segment `gen`, publish a manifest that makes it the tail after `ranges`, and only
then make it the tail in memory. -/
def startSegment (ranges : List ManifestRange) (gen startSeq : ℕ) : Store Unit := do
  mark (.allocate gen)
  createSegment gen startSeq
  publishManifest
    { ranges := ranges, tailGeneration := gen, nextGeneration := u32 (gen + 1) }
  modify fun ram => ram.openTail gen

def rotateSegment : Store Unit := do
  let ram ← get
  if ram.sealTail.length > kManifestMaxRanges then
    failure .rangeLimitExceeded
      "segment range limit exceeded; compaction required before rollover"
  else do
    modify Ram.noteSealed
    startSegment ram.sealTail ram.nextGeneration ram.baseSeq

def ensureActiveSegment (baseSeq : ℕ) : Store Unit := do
  let ram ← get
  when (ram.activeSegmentBytes = 0)
    (startSegment ram.manifestRanges ram.nextGeneration baseSeq)

end Store

end Pqueue
