import Pqueue.Store.Append

/-!
# Compaction

`compaction.cpp`.  Choosing a range, planning and packing are computations in memory and are
plain functions here; `compactRange` is the method that rotates, writes the output segments,
publishes and removes the inputs.
-/

namespace Pqueue

open Effect LittleEndian

/-! ## Dead ratios

`static_cast<float>(dead) / static_cast<float>(total)` in IEEE single precision.  The values
are 32-bit integers and their quotients, which are all normal numbers, so rounding to 24
significant bits is all there is to it.  A float is represented by its value times `2 ^ 64`. -/

/-- `num / den` rounded to 24 significant bits, ties to even, times `2 ^ 64`. -/
def roundToFloat (num den : ℕ) : ℕ :=
  let scaled := num * 2 ^ 64
  let unit := den * 2 ^ (Nat.log2 (scaled / den) - 23)
  let kept := scaled / unit
  let lost := scaled % unit
  let rounded := if 2 * lost > unit ∨ (2 * lost = unit ∧ kept % 2 = 1) then kept + 1 else kept
  rounded * (unit / den)

/-- The single-precision quotient of two 32-bit integers, times `2 ^ 64`. -/
def floatRatio (num den : ℕ) : ℕ := roundToFloat (roundToFloat num 1) (roundToFloat den 1)

/-! ## Statistics -/

structure SegmentStat where
  generation : ℕ
  totalBytes : ℕ
  liveBytes : ℕ
  deriving DecidableEq, Repr

def SegmentStat.deadBytes (s : SegmentStat) : ℕ :=
  if s.totalBytes > s.liveBytes then s.totalBytes - s.liveBytes else 0

/-- 32-bit sum of a list. -/
def sumU32 (ns : List ℕ) : ℕ := ns.foldl (fun acc n => u32 (acc + n)) 0

def ManifestRange.gens (r : ManifestRange) : List ℕ :=
  List.range' r.startGen (r.endGen + 1 - r.startGen)

def CompactionRange.gens (r : CompactionRange) : List ℕ :=
  List.range' r.startGen (r.endGen + 1 - r.startGen)

def CompactionRange.Contains (r : CompactionRange) (gen : ℕ) : Prop :=
  r.startGen ≤ gen ∧ gen ≤ r.endGen

instance (r : CompactionRange) (gen : ℕ) : Decidable (r.Contains gen) :=
  inferInstanceAs (Decidable (_ ∧ _))

/-- The live records that lie in `r`. -/
def Ram.liveIn (ram : Ram) (r : CompactionRange) : List SegmentRecord :=
  ram.records.filter fun sr => r.Contains sr.segmentGeneration

/-- `segmentStats`. -/
def Ram.segmentStats (ram : Ram) : List SegmentStat :=
  (ram.manifestRanges.flatMap ManifestRange.gens).map fun gen =>
    { generation := gen
      totalBytes := (ram.sealedSegmentBytes gen).getD 0
      liveBytes := u32 (kSegmentHeaderBytes + sumU32 ((ram.records.filter fun sr =>
        sr.segmentGeneration = gen).map fun sr => u32 (kEnqueueOverheadBytes + sr.payloadBytes))) }

def Ram.sumDeadBytes (ram : Ram) : ℕ := sumU32 (ram.segmentStats.map SegmentStat.deadBytes)

/-! ## Choosing a range -/

/-- The loop of `chooseCompactionRange`: a range without live records at once, otherwise the
range with the largest dead ratio, the first of equals; `best` is the best so far. -/
def Ram.bestRange (ram : Ram) : Option (ℕ × CompactionRange) → List ManifestRange →
    Option CompactionRange
  | best, [] => best.bind fun b => if b.1 = 0 then none else some b.2
  | best, r :: rs =>
    let range : CompactionRange := ⟨r.startGen, r.endGen⟩
    if ram.liveIn range = [] then some range
    else
      let stats := ram.segmentStats.filter fun s => range.Contains s.generation
      let total := sumU32 (stats.map (·.totalBytes))
      let dead := sumU32 (stats.map SegmentStat.deadBytes)
      let ratio := floatRatio dead total
      if total = 0 then ram.bestRange best rs
      else match best with
        | some b => if ratio > b.1 then ram.bestRange (some (ratio, range)) rs
          else ram.bestRange best rs
        | none => ram.bestRange (some (ratio, range)) rs

def Ram.chooseCompactionRange (ram : Ram) : Option CompactionRange :=
  ram.bestRange none ram.manifestRanges

/-- `predictOut`: output segments for so many live bytes. -/
def predictOut (cfg : AppendLogConfig) (liveBytes : ℕ) : ℕ :=
  if liveBytes = 0 then 0
  else subU32 (liveBytes + cfg.maxSegmentBytes) 1 / cfg.maxSegmentBytes

/-- The inner loop of `narrowRange`, extending the range that starts at `first`. -/
def extendRange (cfg : AppendLogConfig) (maxOutputSegs first : ℕ) :
    ℕ → ℕ → Option ℕ × CompactionRange → List SegmentStat → Option ℕ × CompactionRange
  | _, _, best, [] => best
  | live, total, best, s :: segs =>
    let live := u32 (live + s.liveBytes)
    let total := u32 (total + s.totalBytes)
    if predictOut cfg live > maxOutputSegs then best
    else
      let ratio := if total > 0 then floatRatio (subU32 total live) total else 0
      let best := if best.1.all (ratio > ·) then (some ratio, ⟨first, s.generation⟩) else best
      extendRange cfg maxOutputSegs first live total best segs

/-- The outer loop of `narrowRange`. -/
def bestSubrange (cfg : AppendLogConfig) (maxOutputSegs : ℕ) :
    Option ℕ × CompactionRange → List SegmentStat → CompactionRange
  | best, [] => best.2
  | best, s :: segs =>
    bestSubrange cfg maxOutputSegs
      (extendRange cfg maxOutputSegs s.generation 0 0 best (s :: segs)) segs

def Ram.narrowRange (cfg : AppendLogConfig) (ram : Ram) (range : CompactionRange)
    (maxOutputSegs : ℕ) : CompactionRange :=
  let segs := (ram.segmentStats.filter fun s => range.Contains s.generation).insertionSort
    fun s t => s.generation ≤ t.generation
  match segs with
  | [] => range
  | first :: _ =>
    let single : CompactionRange := ⟨first.generation, first.generation⟩
    if predictOut cfg (sumU32 (segs.map (·.liveBytes))) ≤ maxOutputSegs then range
    else if predictOut cfg first.liveBytes > maxOutputSegs then single
    else bestSubrange cfg maxOutputSegs (none, single) segs

/-! ## Planning -/

/-- `findParentRangeIdx`: the manifest range that contains `range`. -/
def findParentRangeIdx (ranges : List ManifestRange) (range : CompactionRange) : Option ℕ :=
  if range.startGen > range.endGen then none
  else ranges.findIdx? fun r => r.startGen ≤ range.startGen ∧ range.endGen ≤ r.endGen

/-- The output segments that records of these payload sizes need, in the preflight count. -/
def countOutputSegs (cfg : AppendLogConfig) : ℕ → ℕ → List ℕ → ℕ
  | segs, _, [] => segs
  | segs, segBytes, pay :: pays =>
    let recBytes := u32 (kEnqueueOverheadBytes + pay)
    if u32 (segBytes + recBytes) > cfg.maxSegmentBytes then
      countOutputSegs cfg (segs + 1) (u32 (kSegmentHeaderBytes + recBytes)) pays
    else countOutputSegs cfg segs (u32 (segBytes + recBytes)) pays

/-- What `compactRange` has decided before it does any input or output: the range to compact,
not yet extended by the tail, whether to seal the tail first, and the generations the preflight
looks at. -/
structure CompactionPlan where
  input : CompactionRange
  rotates : Bool
  hypo : CompactionRange
  deriving DecidableEq, Repr

/-- The split of a parent by a sub-range: remainders on the left and on the right. -/
def hasLeft (parent : ManifestRange) (range : CompactionRange) : Bool :=
  range.startGen > parent.startGen

def hasRight (parent : ManifestRange) (range : CompactionRange) : Bool :=
  range.endGen < parent.endGen

/-- `gateDelta`: ranges a compaction of `range` may add. -/
def Ram.gateDelta (ram : Ram) (parent : ManifestRange) (range : CompactionRange) : ℕ :=
  let left := hasLeft parent range
  let right := hasRight parent range
  if ram.liveIn range ≠ [] then
    if left && right then 2 else if left || right then 1 else 0
  else if left && right then 1 else 0

/-- The range-count gate: the requested range, the whole parent, or nothing. -/
def Ram.gatedRange (ram : Ram) (parent : ManifestRange) (range : CompactionRange)
    (allowFallback : AllowFullRangeFallback) : Option CompactionRange :=
  if ram.manifestRanges.length + ram.gateDelta parent range > kManifestMaxRanges then
    match allowFallback with
    | .no => none
    | .yes => some ⟨parent.startGen, parent.endGen⟩
  else some range

/-- Whether compacting `input` would seal the tail and merge it into the last range: the tail
depends on no generation before the input. -/
def Ram.wouldRotate (ram : Ram) (input : CompactionRange) : Bool :=
  match ram.manifestRanges.getLast? with
  | none => false
  | some last =>
    input.endGen = last.endGen && ram.activeSegmentBytes > kSegmentHeaderBytes &&
      u32 (last.endGen + 1) = ram.activeGeneration && ram.activeTailDependenciesTracked &&
      ram.activeTailAffectedGenerations.all fun gen =>
        input.startGen ≤ gen && gen ≤ ram.activeGeneration

/-- The generations the input covers once the tail is merged, if it will be. -/
def Ram.hypoRange (ram : Ram) (input : CompactionRange) (rotate : Bool) : CompactionRange :=
  ⟨input.startGen, if rotate then ram.activeGeneration else input.endGen⟩

/-- `hypoInputBytes`. -/
def Ram.hypoInputBytes (ram : Ram) (hypo : CompactionRange) : ℕ :=
  sumU32 (hypo.gens.map fun gen =>
    if gen = ram.activeGeneration then ram.activeSegmentBytes
    else (ram.sealedSegmentBytes gen).getD 0)

/-- The preflight check: a compaction with live input must not write more segments than it
reads, nor the same number without dropping dead bytes. -/
def Ram.worthwhile (cfg : AppendLogConfig) (ram : Ram) (hypo : CompactionRange) : Bool :=
  let pays := (ram.liveIn hypo).map (·.payloadBytes)
  let outputSegs := countOutputSegs cfg 1 kSegmentHeaderBytes pays
  let inputSegs := u32 (hypo.endGen - hypo.startGen + 1)
  let liveBytes := sumU32 (u32 (outputSegs * kSegmentHeaderBytes) ::
    pays.map fun pay => u32 (kEnqueueOverheadBytes + pay))
  pays.isEmpty || !(outputSegs > inputSegs ||
    (outputSegs = inputSegs && !(liveBytes < ram.hypoInputBytes hypo)))

/-- The range-count gate once more, for an input whose live records may come from the tail. -/
def Ram.rotationGate (ram : Ram) (parent : ManifestRange) (range : CompactionRange)
    (rotate : Bool) (allowFallback : AllowFullRangeFallback) : Option CompactionRange :=
  if rotate && !(ram.liveIn (ram.hypoRange range rotate)).isEmpty && hasLeft parent range &&
      ram.manifestRanges.length + 1 > kManifestMaxRanges then
    match allowFallback with
    | .no => none
    | .yes => some ⟨parent.startGen, parent.endGen⟩
  else some range

/-- The phases of `compactRange` up to the rotation; `none` is the method's no-op. -/
def Ram.planCompaction (cfg : AppendLogConfig) (ram : Ram) (range : CompactionRange)
    (allowFallback : AllowFullRangeFallback) : Option CompactionPlan := do
  let rangeIdx ← findParentRangeIdx ram.manifestRanges range
  let parent ← ram.manifestRanges[rangeIdx]?
  let gated ← ram.gatedRange parent range allowFallback
  let rotate := ram.wouldRotate gated
  let input ← ram.rotationGate parent gated rotate allowFallback
  let hypo := ram.hypoRange input rotate
  if ram.worthwhile cfg hypo then
    some { input := input, rotates := rotate && !(ram.liveIn hypo).isEmpty, hypo := hypo }
  else none

/-! ## Packing and splicing -/

structure CompactionLiveRecord where
  sequence : ℕ
  payload : Bytes
  deriving DecidableEq

/-- The payloads of the records of one segment, cut out of its file. -/
def cutPayloads (buf : Bytes) : List SegmentRecord → Option (List CompactionLiveRecord)
  | [] => some []
  | sr :: srs =>
    if u32 (sr.payloadOffset + sr.payloadBytes) > buf.length then none
    else (cutPayloads buf srs).map
      (⟨sr.sequence, (buf.drop sr.payloadOffset).take sr.payloadBytes⟩ :: ·)

/-- An output segment and the records packed into it. -/
structure OutputSeg where
  gen : ℕ
  records : List CompactionLiveRecord

/-- Pack records into segments from `gen` on; `packed` is the segment being filled. -/
def packOutput (cfg : AppendLogConfig) (gen segBytes : ℕ) (packed : List CompactionLiveRecord) :
    List CompactionLiveRecord → List OutputSeg
  | [] => [⟨gen, packed⟩]
  | lr :: lrs =>
    let recBytes := u32 (kEnqueueOverheadBytes + u32 lr.payload.length)
    if packed ≠ [] ∧ u32 (segBytes + recBytes) > cfg.maxSegmentBytes then
      ⟨gen, packed⟩ :: packOutput cfg (u32 (gen + 1))
        (u32 (kSegmentHeaderBytes + recBytes)) [lr] lrs
    else packOutput cfg gen (u32 (segBytes + recBytes)) (packed ++ [lr]) lrs

/-- The bytes of an output segment. -/
def OutputSeg.data (seg : OutputSeg) : Bytes :=
  serializeSegmentHeader seg.gen ((seg.records.head?.map (·.sequence)).getD 0) ++
    seg.records.flatMap fun lr => serializeEnqueueEvent lr.sequence lr.payload

/-- Where the records of an output segment lie, from `writeOffset` on. -/
def locateOutput (gen : ℕ) : ℕ → List CompactionLiveRecord → List SegmentRecord
  | _, [] => []
  | writeOffset, lr :: lrs =>
    ⟨lr.sequence, gen, u32 (writeOffset + kEnqueueHeaderBytes), u32 lr.payload.length⟩ ::
      locateOutput gen (u32 (writeOffset + u32 (kEnqueueOverheadBytes + u32 lr.payload.length))) lrs

def OutputSeg.locations (seg : OutputSeg) : List SegmentRecord :=
  locateOutput seg.gen kSegmentHeaderBytes seg.records

/-- The remainder of the parent before the input, if any. -/
def leftRemainder (parent : ManifestRange) (input : CompactionRange) : List ManifestRange :=
  if hasLeft parent input then [⟨parent.startGen, input.startGen - 1⟩] else []

/-- The remainder of the parent after the input, if any. -/
def rightRemainder (parent : ManifestRange) (input : CompactionRange) : List ManifestRange :=
  if hasRight parent input then [⟨input.endGen + 1, parent.endGen⟩] else []

/-- Append `out`, merged with the last of `before` when it follows that. -/
def mergeLeft (before : List ManifestRange) (out : ManifestRange) : List ManifestRange :=
  match before.getLast? with
  | some last => if u32 (last.endGen + 1) = out.startGen then
      before.dropLast ++ [⟨last.startGen, out.endGen⟩] else before ++ [out]
  | none => [out]

/-- The manifest ranges with the parent at `rangeIdx` replaced by its left remainder, the
output, if any, and its right remainder; the output is merged with neighbours it touches. -/
def spliceRanges (ranges : List ManifestRange) (rangeIdx : ℕ) (parent : ManifestRange)
    (input : CompactionRange) (output : Option ManifestRange) : List ManifestRange :=
  let before := ranges.take rangeIdx ++ leftRemainder parent input
  let after := rightRemainder parent input ++ ranges.drop (rangeIdx + 1)
  match output with
  | none => before ++ after
  | some out =>
    match after with
    | next :: rest =>
      if u32 (out.endGen + 1) = next.startGen then
        mergeLeft before ⟨out.startGen, next.endGen⟩ ++ rest
      else mergeLeft before out ++ after
    | [] => mergeLeft before out

/-- The records with those in `input` moved to their place in the output. -/
def Ram.moveRecords (ram : Ram) (input : CompactionRange) (replacements : List SegmentRecord) :
    Ram :=
  { ram with
    records := ram.records.map fun r =>
      if input.Contains r.segmentGeneration then
        (replacements.find? fun rep => rep.sequence = r.sequence).getD r
      else r }

/-- The tail no longer depends on the generations of `input`. -/
def Ram.forgetInput (ram : Ram) (input : CompactionRange) : Ram :=
  { ram with
    activeTailAffectedGenerations :=
      ram.activeTailAffectedGenerations.filter fun gen => ¬input.Contains gen }

/-- How a compaction ended: it had nothing to do, or it replaced so many segments by so many. -/
inductive CompactionResult
  | noOp
  | compacted (inputSegs outputSegs : ℕ)
  deriving DecidableEq, Repr

namespace Store

/-! ## `compactRange` -/

/-- The loop of `collectLiveRecords`: one read for each generation with live records. -/
def collectFrom (records : List SegmentRecord) : List ℕ → Store (List CompactionLiveRecord)
  | [] => pure []
  | gen :: gens => do
    let buf ← call (.readFile (segmentName gen))
    match cutPayloads buf (records.filter fun sr => sr.segmentGeneration = gen) with
    | none => failure .dataCorrupt "payload out of bounds in segment"
    | some lrs => do
      let rest ← collectFrom records gens
      pure (lrs ++ rest)

/-- `collectLiveRecords`. -/
def collectLiveRecords (range : CompactionRange) : Store (List CompactionLiveRecord) := do
  let ram ← get
  let live := ram.liveIn range
  let gens := ((live.map (·.segmentGeneration)).dedup).insertionSort (· ≤ ·)
  let out ← collectFrom live gens
  pure (out.insertionSort fun a b => a.sequence ≤ b.sequence)

/-- Write the output segments. -/
def writeOutput : List OutputSeg → Store Unit :=
  Act.forEach fun seg => do
    mark (.allocate seg.gen)
    mark (.pack seg.data.length)
    writeSegmentFileTracked (segmentName seg.gen) seg.data .mustBeNew

/-- `cleanupInputSegments`: a file that cannot be removed stays and stays accounted for. -/
def cleanupInputSegments (range : CompactionRange) : Store Unit := do
  let gens ← generations range.startGen range.endGen
  Act.forEach (fun gen =>
    tryCall (.removeFile (segmentName gen)) >>= fun
      | .error _ => pure ()
      | .ok _ => modify fun ram => ram.dropSegment gen ((ram.sealedSegmentBytes gen).getD 0)) gens

/-- Publish the new ranges, remove the inputs, and forget that the tail depends on them. -/
def retireInput (ranges : List ManifestRange) (nextGeneration : ℕ) (input : CompactionRange) :
    Store Unit := do
  let ram ← get
  publishManifest
    { ranges := ranges, tailGeneration := ram.activeGeneration, nextGeneration := nextGeneration }
  cleanupInputSegments input
  modify fun ram => ram.forgetInput input

/-- The phases of `compactRange` once the parent and the final input range are known. -/
def compactInto (cfg : AppendLogConfig) (rangeIdx : ℕ) (parent : ManifestRange)
    (input : CompactionRange) : Store CompactionResult := do
  let inputSegs := u32 (input.endGen - input.startGen + 1)
  let liveRecords ← collectLiveRecords input
  let ram ← get
  if liveRecords = [] then do
    -- nothing is live in the input: drop it and leave the remainders in place
    retireInput (spliceRanges ram.manifestRanges rangeIdx parent input none)
      ram.nextGeneration input
    pure (.compacted inputSegs 0)
  else do
    let output := packOutput cfg ram.nextGeneration kSegmentHeaderBytes [] liveRecords
    let lastNewGen := (output.getLast?.map (·.gen)).getD ram.nextGeneration
    writeOutput output
    retireInput (spliceRanges ram.manifestRanges rangeIdx parent input
      (some ⟨ram.nextGeneration, lastNewGen⟩)) (u32 (lastNewGen + 1)) input
    modify fun ram => ram.moveRecords input (output.flatMap OutputSeg.locations)
    pure (.compacted inputSegs (u32 output.length))

def compactRange (cfg : AppendLogConfig) (range : CompactionRange)
    (allowFallback : AllowFullRangeFallback) : Store CompactionResult := do
  let ram ← get
  mark (.compactRange ram range allowFallback)
  match ram.planCompaction cfg range allowFallback with
  | none => pure .noOp
  | some plan => do
    -- the preflight loop over the input generations
    let _ ← generations plan.hypo.startGen plan.hypo.endGen
    when plan.rotates rotateSegment
    let ram ← get
    match findParentRangeIdx ram.manifestRanges plan.input with
    | none => pure .noOp
    | some rangeIdx =>
      match ram.manifestRanges[rangeIdx]? with
      | none => pure .noOp
      | some parent =>
        compactInto cfg rangeIdx parent
          ⟨plan.input.startGen, if plan.rotates then parent.endGen else plan.input.endGen⟩

/-! ## The callers of `compactRange` -/

def reclaimDeadFrontSegment (cfg : AppendLogConfig) : Store CompactionResult := do
  let ram ← get
  match ram.manifestRanges with
  | [] => pure .noOp
  | front :: _ =>
    if ram.records.any fun sr => sr.segmentGeneration = front.startGen then pure .noOp
    else compactRange cfg ⟨front.startGen, front.startGen⟩ .no

def compactOneSegment (cfg : AppendLogConfig) (allowFallback : AllowFullRangeFallback) :
    Store CompactionResult := do
  let ram ← get
  match ram.chooseCompactionRange with
  | none => pure .noOp
  | some chosen =>
    compactRange cfg
      (if cfg.maxOutputSegments > 0 then ram.narrowRange cfg chosen cfg.maxOutputSegments
        else chosen) allowFallback

structure CompactIdleResult where
  status : Except Status Unit := .ok ()
  stepsRun : ℕ := 0
  compactions : ℕ := 0
  noOps : ℕ := 0
  moreWorkLikely : Bool := false
  segmentCountExceedsTarget : Bool := false
  bytesReclaimed : ℕ := 0
  deadBytesBefore : ℕ := 0
  remainingDeadBytes : ℕ := 0
  inputSegments : ℕ := 0
  outputSegments : ℕ := 0

/-- The loop of `compactIdle`: at most `maxSteps` steps, ended by a failure or a no-op. -/
def compactSteps (cfg : AppendLogConfig) : ℕ → CompactIdleResult → Store CompactIdleResult
  | 0, result => pure result
  | maxSteps + 1, result => do
    let st ← Act.attempt (compactOneSegment cfg .yes)
    let result := { result with stepsRun := result.stepsRun + 1 }
    match st with
    | .error e => pure { result with status := .error e }
    | .ok .noOp => pure { result with noOps := result.noOps + 1 }
    | .ok (.compacted inputSegs outputSegs) =>
      compactSteps cfg maxSteps { result with
        compactions := result.compactions + 1
        inputSegments := u32 (result.inputSegments + inputSegs)
        outputSegments := u32 (result.outputSegments + outputSegs) }

def compactIdle (cfg : AppendLogConfig) (maxSteps : ℕ) : Store CompactIdleResult := do
  let before ← get
  let result ← compactSteps cfg maxSteps { deadBytesBefore := before.sumDeadBytes }
  let after ← get
  pure { result with
    moreWorkLikely := result.status.isOk && result.noOps = 0 && result.compactions > 0
    segmentCountExceedsTarget := after.activeGenerations.length > cfg.idleCompactionTargetSegments
    remainingDeadBytes := after.sumDeadBytes
    bytesReclaimed := if after.totalOnDiskBytes < before.totalOnDiskBytes then
      before.totalOnDiskBytes - after.totalOnDiskBytes else 0 }

/-- `compactFull`, for at most `fuel` steps. -/
def compactFull (cfg : AppendLogConfig) : ℕ → Store Unit
  | 0 => Act.spin
  | fuel + 1 => do
    let result ← compactIdle cfg 1
    match result.status with
    | .error e => Act.fail e
    | .ok _ => if result.compactions > 0 then compactFull cfg fuel else pure ()

end Store

end Pqueue
