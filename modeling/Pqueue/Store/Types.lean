import Pqueue.FileSystem.Disk
import Pqueue.Format.Layout

/-!
# The state of an `AppendLogStore`

`append_log_store.h`: the configuration, the fields a store object keeps in memory, and the
methods' type.  Fields are natural numbers; where the source computes in 32 bits the model
writes `u32`.
-/

namespace Pqueue

open Effect LittleEndian

/-- `AppendLogConfig`, less the fields that select and address the file system.  The widths of
the members are part of the type. -/
structure AppendLogConfig where
  maxSegmentBytes : ℕ := 4096
  /-- `0` means unlimited. -/
  maxTotalBytes : ℕ := 128 * 1024
  minFreeBytes : ℕ := 32 * 1024
  drainReserveBytes : ℕ := 0
  idleCompactionTargetSegments : ℕ := 16
  /-- Most output segments of one `compactOneSegment`. -/
  maxOutputSegments : ℕ := 8
  maxRecordBytes : ℕ := 4096
  maxSegmentBytes_lt : maxSegmentBytes < 2 ^ 32 := by decide
  maxTotalBytes_lt : maxTotalBytes < 2 ^ 32 := by decide
  minFreeBytes_lt : minFreeBytes < 2 ^ 32 := by decide
  drainReserveBytes_lt : drainReserveBytes < 2 ^ 32 := by decide
  idleCompactionTargetSegments_lt : idleCompactionTargetSegments < 2 ^ 8 := by decide
  maxOutputSegments_lt : maxOutputSegments < 2 ^ 8 := by decide

def AppendLogConfig.defaults : AppendLogConfig := {}

/-- No budgets, and segments as long as their offsets reach. -/
def AppendLogConfig.unlimited : AppendLogConfig where
  maxSegmentBytes := 2 ^ 32 - 1
  maxTotalBytes := 0
  minFreeBytes := 0

/-- A live record and where its payload lies. -/
structure SegmentRecord where
  sequence : ℕ
  segmentGeneration : ℕ
  /-- Offset of the payload within the segment file. -/
  payloadOffset : ℕ
  payloadBytes : ℕ
  deriving DecidableEq, Repr

structure QueueIndex where
  head : ℕ := 0
  tail : ℕ := 0
  count : ℕ := 0
  deriving DecidableEq, Repr

/-- The members of an `AppendLogStore` object. -/
structure Ram where
  mounted : Bool := false
  activeGeneration : ℕ := 0
  activeSegmentBytes : ℕ := 0
  /-- All segment and manifest files, dangling ones included. -/
  totalOnDiskBytes : ℕ := 0
  nextGeneration : ℕ := 1
  /-- Bytes of each segment file by generation. -/
  sealedSegmentBytes : ℕ → Option ℕ := fun _ => none
  /-- The slot written last in this session, if any. -/
  cachedWrittenSlot : Option Slot := none
  cachedWrittenEpoch : ℕ := 0
  /-- On-disk size of each manifest slot, `0` when it does not exist. -/
  manifestSlotBytes : Slot → ℕ := fun _ => 0
  /-- Active segments in replay order. -/
  activeGenerations : List ℕ := []
  manifestRanges : List ManifestRange := []
  /-- Live records, the queue head first. -/
  records : List SegmentRecord := []
  activeTailDependenciesTracked : Bool := false
  /-- Generations touched by POP and REWRITE events of the tail. -/
  activeTailAffectedGenerations : List ℕ := []
  /-- One past the highest sequence seen by the mount. -/
  nextSequence : ℕ := 0

/-- A range of generations, both ends included. -/
structure CompactionRange where
  startGen : ℕ
  endGen : ℕ
  deriving DecidableEq, Repr

/-- Whether a compaction that may not split its parent range takes the whole parent instead. -/
inductive AllowFullRangeFallback
  | no
  | yes
  deriving DecidableEq, Repr

/-- The program points a condition can be put on. -/
inductive StoreMark
  /-- A call of `compactRange`, with the object it is made on. -/
  | compactRange (ram : Ram) (range : CompactionRange) (fallback : AllowFullRangeFallback)
  /-- A generation is taken for a new segment. -/
  | allocate (gen : ℕ)
  /-- A manifest is about to be written over the winner with this epoch. -/
  | publish (winningEpoch : ℕ) (manifest : ManifestData)
  /-- `n` bytes are about to be appended to the tail at `offset`. -/
  | append (gen offset n : ℕ)
  /-- An output segment of a compaction has reached this exact size. -/
  | pack (size : ℕ)

/-- Methods of the store. -/
abbrev Store (α : Type) := Act (Fs StoreMark) Ram Status α

namespace Store

/-- A call whose failure the method looks at. -/
def tryCall (c : FsCall) : Store (Except Status c.Val) := Act.perform (I := Fs StoreMark) c

/-- A call whose failure ends the method with the call's status. -/
def call (c : FsCall) : Store c.Val := tryCall c >>= Act.check

/-- A call whose answer is not looked at. -/
def ignore (c : FsCall) : Store Unit := tryCall c >>= fun _ => pure ()

/-- `Status::failure(code, message)` returned. -/
def failure {α : Type} (code : StatusCode) (message : String) : Store α := Act.fail ⟨code, message⟩

def get : Store Ram := Act.get
def modify (f : Ram → Ram) : Store Unit := Act.modify f
def mark (m : StoreMark) : Store Unit := Act.mark (I := Fs StoreMark) m

/-- `if (c) m;` -/
def when (c : Prop) [Decidable c] (m : Store Unit) : Store Unit := if c then m else pure ()

/-- The generations a loop `for (g = startGen; g <= endGen; ++g)` visits.  With 32-bit
generations a loop up to the largest one does not end. -/
def generations (startGen endGen : ℕ) : Store (List ℕ) :=
  if startGen ≤ endGen ∧ endGen = 2 ^ 32 - 1 then Act.spin
  else pure (List.range' startGen (endGen + 1 - startGen))

/-- The size of a file, `0` when `fileSize` fails. -/
def sizeOrZero (name : FileName) : Store ℕ :=
  tryCall (.fileSize name) >>= fun
    | .ok size => pure size
    | .error _ => pure 0

/-- `freeBytes()`: an error counts as no space. -/
def freeBytes : Store ℕ :=
  tryCall .freeBytes >>= fun
    | .ok n => pure n
    | .error _ => pure 0

end Store

end Pqueue
