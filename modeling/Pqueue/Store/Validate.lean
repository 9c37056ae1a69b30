import Pqueue.Store.Mount

/-!
# Validation of a directory

`validateUnlocked` of `store.cpp`.  It elects the manifest and scans the segments with calls of its
own, event by event, and collects what it finds wrong.  The lambdas of the source are definitions
here; the result that they share is passed along.
-/

namespace Pqueue

open Effect LittleEndian

/-! ## Reports -/

inductive ValidationRepairAction
  | none
  | format
  | dropFrontIfCorrupt
  deriving DecidableEq, Repr

inductive ValidationIssueCode
  | invalidConfig
  | metadataCorrupt
  | journalCorrupt
  | configMismatch
  | recordCrcMismatch
  | queueLoadFailed
  | queueIndexMismatch
  | outboxEnvelopeInvalid
  | httpRequestEnvelopeInvalid
  deriving DecidableEq, Repr

structure ValidationIssue where
  code : ValidationIssueCode := .invalidConfig
  message : String := ""
  recordIndex : ℕ := 0
  expectedSequence : ℕ := 0
  actualSequence : ℕ := 0
  hasRecordIndex : Bool := false
  hasExpectedSequence : Bool := false
  hasActualSequence : Bool := false
  repairAction : ValidationRepairAction := .none
  deriving DecidableEq, Repr

structure ValidationResult where
  ok : Bool := true
  checkedRecords : ℕ := 0
  stoppedEarly : Bool := false
  errors : List ValidationIssue := []
  deriving DecidableEq, Repr

structure ValidationOptions where
  maxErrors : ℕ := 100

/-- An error is kept while there is room for it. -/
def ValidationResult.addIssue (options : ValidationOptions) (issue : ValidationIssue)
    (result : ValidationResult) : ValidationResult :=
  if result.errors.length < options.maxErrors then
    { result with ok := false, errors := result.errors ++ [issue] }
  else { result with ok := false, stoppedEarly := true }

/-- `addErr`. -/
def ValidationResult.addErr (options : ValidationOptions) (code : ValidationIssueCode)
    (msg : String) (result : ValidationResult) : ValidationResult :=
  result.addIssue options { code := code, message := msg }

def ValidationResult.countRecord (result : ValidationResult) : ValidationResult :=
  { result with checkedRecords := u32 (result.checkedRecords + 1) }

/-! ## The manifest -/

/-- The winning slot, elected as `chooseWinningSlot` does. -/
def winningManifest (mdA mdB : Option ManifestData) : Option ManifestData :=
  match mdA, mdB with
  | some a, some b => some (if b.epoch > a.epoch then b else a)
  | _, _ => if mdA.isSome then mdA else mdB

def ManifestRange.boundsIssue (r : ManifestRange) : Option String :=
  if r.startGen = 0 ∨ r.endGen = 0 ∨ r.startGen > r.endGen then
    some "manifest range has invalid generation bounds"
  else if r.endGen = 2 ^ 32 - 1 then some "manifest range endGen at UINT32_MAX"
  else none

def ManifestRange.overlaps (ri rj : ManifestRange) : Bool :=
  max ri.startGen rj.startGen ≤ min ri.endGen rj.endGen

def anyOverlap : List ManifestRange → Bool
  | [] => false
  | r :: rs => rs.any r.overlaps || anyOverlap rs

def ManifestData.maxSealedGen (md : ManifestData) : ℕ :=
  md.ranges.foldl (fun m r => max m r.endGen) 0

def ManifestData.maxRefGen (md : ManifestData) : ℕ :=
  if md.tailGeneration ≠ 0 then max md.maxSealedGen md.tailGeneration else md.maxSealedGen

/-- The count of referenced segments passes the number of segment files at one of the ranges. -/
def referencesMore (segmentFileCount : ℕ) : ℕ → List ManifestRange → Bool
  | _, [] => false
  | referencedCount, r :: rs =>
    let referencedCount := referencedCount + (r.endGen - r.startGen + 1)
    referencedCount > segmentFileCount || referencesMore segmentFileCount referencedCount rs

/-- The first thing wrong with a manifest, beside `segmentFileCount` segment files. -/
def ManifestData.issue (md : ManifestData) (segmentFileCount : ℕ) : Option String :=
  match md.ranges.findSome? ManifestRange.boundsIssue with
  | some msg => some msg
  | none =>
    if anyOverlap md.ranges then some "manifest ranges overlap"
    else if md.tailGeneration ≠ 0 ∧ md.ranges.any (fun r =>
        md.tailGeneration ≥ r.startGen ∧ md.tailGeneration ≤ r.endGen) then
      some "tail generation appears within a sealed range"
    else if md.maxRefGen > 0 ∧ md.maxRefGen ≥ md.nextGeneration then
      some "nextGeneration not greater than max referenced generation"
    else if referencesMore segmentFileCount (if md.tailGeneration ≠ 0 then 1 else 0) md.ranges then
      some "manifest references more segments than exist on disk"
    else none

/-- The sealed generations, in the order of the loops over the ranges.  No range ends at the largest
generation by then, so the loops end. -/
def ManifestData.sealedGens (md : ManifestData) : List ℕ :=
  md.ranges.flatMap fun r => List.range' r.startGen (r.endGen + 1 - r.startGen)

/-! ## The events of a segment -/

/-- What one turn of the event loop finds at its offset. -/
inductive CheckStep
  | torn
  | corrupt (why : String)
  /-- The source reads the checksum or the footer past the end of its buffer. -/
  | pastEnd
  | event (bytes : ℕ)
  deriving DecidableEq, Repr

/-- Why the event loop has stopped. -/
inductive ScanExit
  | clean
  | torn
  | corrupt (why : String)
  deriving DecidableEq, Repr

namespace Store

/-- Payload, checksum and footer of an ENQUEUE or REWRITE event at `offset`. -/
def checkPayload (name : FileName) (offset : ℕ) (eh : EnqueueHeader) : Store CheckStep :=
  tryCall (.readAt name (u32 (offset + kEnqueueHeaderBytes))
      (u32 (eh.payloadBytes + kEventTrailerBytes))) >>= fun
    | .error _ => pure .torn
    | .ok payloadAndTrailer =>
      if payloadAndTrailer.length < u32 (eh.payloadBytes + kEventTrailerBytes) then pure .torn
      else
        -- the two words are there unless `payloadBytes + 8` has wrapped
        match read32 (payloadAndTrailer.drop eh.payloadBytes) with
        | none => pure .pastEnd
        | some (storedCrc, r) =>
          match read32 r with
          | none => pure .pastEnd
          | some (storedFooter, _) =>
            if storedCrc ≠ enqueueEventCrc eh (payloadAndTrailer.take eh.payloadBytes) ∨
                storedFooter ≠ kFooterMagic then pure (.corrupt "CRC or footer mismatch")
            else pure (.event (u32 (kEnqueueOverheadBytes + eh.payloadBytes)))

/-- One turn of the event loop, with `remaining` bytes from `offset` on. -/
def checkEvent (cfg : AppendLogConfig) (name : FileName) (offset remaining : ℕ) : Store CheckStep :=
  if remaining < 4 then pure .torn
  else tryCall (.readAt name offset (min remaining kEnqueueHeaderBytes)) >>= fun
    | .error _ => pure .torn
    | .ok headerBuf =>
      match read32 headerBuf with
      | none => pure .torn
      | some (magic, _) =>
        if magic = kEnqueueMagic ∨ magic = kRewriteMagic then
          if min remaining kEnqueueHeaderBytes < kEnqueueHeaderBytes then pure .torn
          else match parseEnqueueHeader headerBuf with
            | none => pure (.corrupt "bad enqueue header")
            | some eh =>
              if eh.payloadBytes > cfg.maxRecordBytes then
                pure (.corrupt "payload exceeds max record size")
              else if u32 (kEnqueueOverheadBytes + eh.payloadBytes) > remaining then pure .torn
              else checkPayload name offset eh
        else if magic = kPopMagic then
          if remaining < kPopEventBytes then pure .torn
          else tryCall (.readAt name offset kPopEventBytes) >>= fun
            | .error _ => pure .torn
            | .ok popBuf =>
              match parsePopEvent popBuf with
              | none => pure (.corrupt "bad pop event")
              | some _ => pure (.event kPopEventBytes)
        else pure (.corrupt "unknown event magic")

/-- The event loop up to `fileSize`; `stoppedEarly` does not change in it.  An event whose length
has wrapped to zero, in a file of more than 32 bits, keeps the loop where it is. -/
def checkEvents (cfg : AppendLogConfig) (name : FileName) (fileSize : ℕ) :
    ℕ → ℕ → ValidationResult → Store (ScanExit × ValidationResult)
  | 0, _, _ => Act.spin
  | fuel + 1, offset, result =>
    if offset < fileSize then do
      let step ← checkEvent cfg name offset (fileSize - offset)
      match step with
      | .torn => pure (.torn, result)
      | .corrupt why => pure (.corrupt why, result)
      -- undefined, and taken to find no event as in the mount
      | .pastEnd => pure (.corrupt "CRC or footer mismatch", result)
      | .event bytes => checkEvents cfg name fileSize fuel (u32 (offset + bytes)) result.countRecord
    else pure (.clean, result)

/-- `scanSegment`. -/
def validateSegment (cfg : AppendLogConfig) (options : ValidationOptions) (gen : ℕ) (isTail : Bool)
    (result : ValidationResult) : Store ValidationResult := do
  let name := segmentName gen
  let label := String.ofList name
  let fileSize ← sizeOrZero name
  tryCall (.readAt name 0 kSegmentHeaderBytes) >>= fun
    | .error _ =>
      pure (result.addErr options .metadataCorrupt ("cannot read segment header for " ++ label))
    | .ok hdrBytes =>
      match parseSegmentHeader hdrBytes with
      | .error version =>
        if version ≠ kFormatVersion then
          pure (result.addErr options .metadataCorrupt ("segment version mismatch in " ++ label))
        else pure (result.addErr options .metadataCorrupt ("corrupt segment header in " ++ label))
      | .ok header =>
        if header.generation ≠ gen then
          pure (result.addErr options .metadataCorrupt ("segment generation mismatch in " ++ label))
        else do
          let scan ← checkEvents cfg name (u32 fileSize)
            (u32 fileSize + 1) kSegmentHeaderBytes result
          match scan with
          | (.corrupt why, result) => pure (result.addErr options .journalCorrupt
              ("corrupt data in segment " ++ label ++ ": " ++ why))
          | (.torn, result) =>
            -- torn data is accepted in the tail segment alone
            if isTail then pure result
            else pure (result.addErr options .journalCorrupt
              ("incomplete (torn) data in sealed segment " ++ label))
          | (.clean, result) => pure result

/-! ## The loops over the segments -/

/-- `checkSegExists`. -/
def checkSegExists (options : ValidationOptions) (gen : ℕ) (result : ValidationResult) :
    Store ValidationResult :=
  if result.stoppedEarly then pure result
  else
    let missing := result.addErr options .metadataCorrupt
      ("referenced segment " ++ String.ofList (segmentName gen) ++ " missing or too small")
    tryCall (.fileSize (segmentName gen)) >>= fun
      | .error _ => pure missing
      | .ok sz => if sz < kSegmentHeaderBytes then pure missing else pure result

def checkSegmentsExist (options : ValidationOptions) :
    List ℕ → ValidationResult → Store ValidationResult
  | [], result => pure result
  | gen :: gens, result => checkSegExists options gen result >>= checkSegmentsExist options gens

/-- The scans of the sealed segments, then of the tail. -/
def validateSegments (cfg : AppendLogConfig) (options : ValidationOptions) :
    List (ℕ × Bool) → ValidationResult → Store ValidationResult
  | [], result => pure result
  | (gen, isTail) :: rest, result =>
    if result.stoppedEarly then pure result
    else validateSegment cfg options gen isTail result >>= validateSegments cfg options rest

/-- What follows the election: the manifest, then the segments it names. -/
def validateManifest (cfg : AppendLogConfig) (options : ValidationOptions) (files : List FileName)
    (winning : ManifestData) : Store ValidationResult :=
  let result : ValidationResult := {}
  match winning.issue (files.countP fun name => (isSegmentName name).isSome) with
  | some msg => pure (result.addErr options .metadataCorrupt msg)
  | none => do
    let result ← checkSegmentsExist options (winning.sealedGens ++ winning.tailList) result
    if result.ok then
      validateSegments cfg options
        (winning.sealedGens.map (·, false) ++ winning.tailList.map (·, true))
        result
    else pure result

def validateUnlocked (cfg : AppendLogConfig) (options : ValidationOptions) :
    Store ValidationResult :=
  let result : ValidationResult := {}
  tryCall .mount >>= fun
    | .error st => pure (result.addErr options .invalidConfig st.message)
    | .ok _ => do
      let existsA ← slotExists .a
      let existsB ← slotExists .b
      let mdA ← tryReadSlot .a
      let mdB ← tryReadSlot .b
      tryCall .listFiles >>= fun
        | .error st => pure (result.addErr options .invalidConfig st.message)
        | .ok files =>
          match winningManifest mdA mdB with
          | some winning => validateManifest cfg options files winning
          | none =>
            if existsA ∨ existsB then
              pure (result.addErr options .metadataCorrupt
                "manifest slot(s) present but none parseable")
            else if files.any fun name => (isSegmentName name).isSome then
              pure (result.addErr options .metadataCorrupt
                "segment files present but no valid manifest")
            else pure result

end Store

end Pqueue
