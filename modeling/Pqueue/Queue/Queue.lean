import Pqueue.Store.Api

/-!
# The queue

`queue.cpp`: each operation takes the directory lock, loads the index from the store, does its
work and releases the lock.  `validate` and the statistics are not modelled here.
-/

namespace Pqueue

open Effect LittleEndian

inductive FullQueuePolicy
  | rejectNewest
  | dropOldest
  deriving DecidableEq, Repr

/-- `Config`, with the store configuration it is turned into. -/
structure QueueConfig where
  store : AppendLogConfig
  recordSizeBytes : ℕ := 492
  fullQueuePolicy : FullQueuePolicy := .rejectNewest
  /-- Turns each admission loop of the store may take. -/
  fuel : ℕ
  /-- `makeStore` passes the record size on. -/
  maxRecordBytes_eq : store.maxRecordBytes = recordSizeBytes := by rfl

/-- The members of a `Queue` object, those of its store included. -/
structure QueueState where
  store : Ram := {}
  index : QueueIndex := {}
  /-- What this object writes into the lock file. -/
  lockContents : Bytes := []
  lockHeld : Bool := false

/-- Methods of the queue. -/
abbrev QueueM (α : Type) := Act (Fs StoreMark) QueueState Status α

def kLockAttempts : ℕ := 10

namespace Queue

/-- A method of the store. -/
def lift {α : Type} (m : Store α) : QueueM α :=
  Act.zoom QueueState.store (fun ram s => { s with store := ram }) m

def get : QueueM QueueState := Act.get
def modify (f : QueueState → QueueState) : QueueM Unit := Act.modify f
def failure {α : Type} (code : StatusCode) (message : String) : QueueM α := Act.fail ⟨code, message⟩

/-! ## The lock -/

/-- The attempts of `acquireLock`: a busy lock is tried again, any other failure is final. -/
def acquireAttempts (cfg : QueueConfig) : ℕ → QueueM Unit
  | 0 => failure .lockTimeout "queue lock timeout"
  | attempts + 1 => do
    let s ← get
    let st ← Act.attempt (lift (Store.tryAcquireLockFile cfg.store kLockFileName s.lockContents))
    match st with
    | .ok _ => modify fun s => { s with lockHeld := true }
    | .error e => if e.code ≠ .lockTimeout then Act.fail e else acquireAttempts cfg attempts

def acquireLock (cfg : QueueConfig) : QueueM Unit := do
  let s ← get
  if s.lockHeld then pure () else acquireAttempts cfg kLockAttempts

/-- `releaseLock`: a failure is ignored. -/
def releaseLock : QueueM Unit := do
  let s ← get
  if s.lockHeld then do
    let _ ← Act.attempt (lift (Store.releaseLockFile kLockFileName s.lockContents))
    modify fun s => { s with lockHeld := false }
  else pure ()

/-- `ScopedLock`: run `m` under the lock and release it whatever `m` returns. -/
def scopedLock {α : Type} (cfg : QueueConfig) (m : QueueM α) : QueueM α := do
  acquireLock cfg
  let st ← Act.attempt m
  releaseLock
  Act.check st

def loadLatestIndex (cfg : QueueConfig) : QueueM Unit := do
  let index ← lift (Store.readIndex cfg.store)
  modify fun s => { s with index := index }

/-! ## Operations -/

/-- `index_.head += 1; index_.count -= 1`. -/
def QueueIndex.advance (index : QueueIndex) : QueueIndex :=
  { index with head := u32 (index.head + 1), count := index.count - 1 }

def evictFront (cfg : QueueConfig) : QueueM Unit := do
  let s ← get
  lift (Store.commitPop cfg.store s.index.head)
  modify fun s => { s with index := QueueIndex.advance s.index }

/-- The eviction loop of `enqueue`; each turn evicts one record, so their number bounds it. -/
def enqueueEvicting (cfg : QueueConfig) (sequence : ℕ) (record : Bytes) : ℕ → QueueM Unit
  | 0 => lift (Store.commitEnqueue cfg.store cfg.fuel sequence record)
  | count + 1 => do
    let st ← Act.attempt (lift (Store.commitEnqueue cfg.store cfg.fuel sequence record))
    match st with
    | .ok _ => pure ()
    | .error e =>
      if e.code = .queueFull ∧ cfg.fullQueuePolicy = .dropOldest then do
        evictFront cfg
        enqueueEvicting cfg sequence record count
      else Act.fail e

/-- Under `DropOldest`, near the byte budget: reclaim a dead front segment before any live
record is evicted. -/
def reclaimUnderPressure (cfg : QueueConfig) (recordSize : ℕ) : QueueM Unit := do
  let s ← get
  if cfg.fullQueuePolicy = .dropOldest ∧ s.index.count > 0 then do
    let pressure ← lift (Store.appendWouldHitAdmissionPressure cfg.store recordSize)
    if pressure then do
      let _ ← lift (Store.reclaimDeadFrontSegment cfg.store)
      pure ()
    else pure ()
  else pure ()

def enqueue (cfg : QueueConfig) (record : Bytes) : QueueM Unit := scopedLock cfg do
  loadLatestIndex cfg
  if record.length > cfg.recordSizeBytes then
    failure .recordTooLarge "record exceeds configured queue maximum"
  else do
    let s ← get
    reclaimUnderPressure cfg (u32 record.length)
    enqueueEvicting cfg s.index.tail record s.index.count
    modify fun s => { s with
      index := { s.index with tail := u32 (s.index.tail + 1), count := u32 (s.index.count + 1) } }

def peekSize (cfg : QueueConfig) : QueueM ℕ := scopedLock cfg do
  loadLatestIndex cfg
  let s ← get
  if s.index.count = 0 then failure .queueEmpty "queue is empty"
  else lift (Store.readRecordSize cfg.store s.index.head)

def peek (cfg : QueueConfig) : QueueM Bytes := scopedLock cfg do
  loadLatestIndex cfg
  let s ← get
  if s.index.count = 0 then failure .queueEmpty "queue is empty"
  else lift (Store.readRecord cfg.store s.index.head)

def pop (cfg : QueueConfig) : QueueM Unit := scopedLock cfg do
  loadLatestIndex cfg
  let s ← get
  if s.index.count = 0 then failure .queueEmpty "queue is empty"
  else evictFront cfg

def rewriteFront (cfg : QueueConfig) (record : Bytes) : QueueM Unit := scopedLock cfg do
  loadLatestIndex cfg
  let s ← get
  if s.index.count = 0 then failure .queueEmpty "queue is empty"
  else if record.length > cfg.recordSizeBytes then
    failure .recordTooLarge "record exceeds configured queue maximum"
  else lift (Store.rewriteRecord cfg.store cfg.fuel s.index.head record)

/-- The loop of `visitRecords` from `ordinal` on, over `n` records: what the visitor was shown,
up to and including the record at which it stopped. -/
def visitFrom (cfg : QueueConfig) (visitor : Bytes → ℕ → ℕ → Bool) (head : ℕ) :
    ℕ → ℕ → QueueM (List (Bytes × ℕ × ℕ))
  | _, 0 => pure []
  | ordinal, n + 1 => do
    let sequence := u32 (head + ordinal)
    let record ← lift (Store.readRecord cfg.store sequence)
    if visitor record sequence ordinal then do
      let rest ← visitFrom cfg visitor head (ordinal + 1) n
      pure ((record, sequence, ordinal) :: rest)
    else pure [(record, sequence, ordinal)]

def visitRecords (cfg : QueueConfig) (visitor : Bytes → ℕ → ℕ → Bool) :
    QueueM (List (Bytes × ℕ × ℕ)) := scopedLock cfg do
  loadLatestIndex cfg
  let s ← get
  visitFrom cfg visitor s.index.head 0 s.index.count

def compactIdle (cfg : QueueConfig) (maxSteps : ℕ) : QueueM Store.CompactIdleResult :=
  scopedLock cfg (lift (Store.compactIdle cfg.store maxSteps))

/-! ## Repair -/

def isCorruptRecordStatus (code : StatusCode) : Bool := code = .invalidRecord ∨ code = .crcMismatch

def dropFrontIfCorrupt (cfg : QueueConfig) : QueueM Unit := scopedLock cfg do
  loadLatestIndex cfg
  let s ← get
  if s.index.count = 0 then failure .queueEmpty "queue is empty"
  else do
    let st ← Act.attempt (lift (Store.readRecord cfg.store s.index.head))
    match st with
    | .ok _ => failure .invalidArgument "front record is not corrupt"
    | .error e =>
      if isCorruptRecordStatus e.code = false then Act.fail e
      else evictFront cfg

def format (cfg : QueueConfig) : QueueM Unit := scopedLock cfg do
  lift Store.format
  modify fun s => { s with index := {} }

end Queue

end Pqueue
