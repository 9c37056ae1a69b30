import Pqueue.FileSystem.Status
import Pqueue.Outbox.Envelope
import Pqueue.Program.Act

/-!
# The outbox

`outbox.cpp` as programs over the queue, the send callback, the clock, the random callback and the
event callback.  The queue is what its methods answer; `Outbox.Delivery` says what that is.

A method of the outbox cannot fail early: what goes wrong stands in the result it returns.
`compactIdle`, `validate` and `stats` hand the call on to the queue and are not modelled.
-/

namespace Pqueue

open Effect LittleEndian

/-! ## Types -/

inductive SendDecision
  | sent
  | retryLater
  | drop
  deriving DecidableEq, Repr

structure SendResult where
  decision : SendDecision := .drop
  /-- 0 when the server gave no hint. -/
  retryAfterMs : ℕ := 0

/-- `OutboxConfig`, with which callbacks the constructor was given. -/
structure OutboxConfig where
  maxDrainAttemptsPerSecond : ℕ := 5
  initialRetryDelayMs : ℕ := 10000
  maxRetryDelayMs : ℕ := 60000
  jitterPct : ℕ := 20
  maxCorruptDropsPerLifetime : ℕ := 3
  hasSend : Bool := true
  hasClock : Bool := true
  hasRand : Bool := false

/-- The members of an `Outbox` object besides its queue and its configuration. -/
structure OutboxState where
  drainWindowStartMs : ℕ := 0
  drainAttemptsInWindow : ℕ := 0
  hasDrainWindow : Bool := false
  frontNextAttemptMs : ℕ := 0
  hasFrontCooldown : Bool := false
  /-- Attempt count for the current front record. -/
  frontAttempts : ℕ := 0
  corruptDropsThisLifetime : ℕ := 0

inductive SubmitStatus
  | sent
  | queued
  | dropped
  | queueFull
  | sendError
  deriving DecidableEq, Repr

/-- `SubmitResult`; `none` is success. -/
structure SubmitResult where
  status : SubmitStatus
  detail : Option Status := none

/-- `DrainResult`; `none` is success. -/
structure DrainResult where
  attempts : ℕ := 0
  sent : ℕ := 0
  dropped : ℕ := 0
  corruptDropped : ℕ := 0
  removedQueuedBytes : ℕ := 0
  rateLimited : Bool := false
  notDue : Bool := false
  queueError : Bool := false
  sendError : Bool := false
  detail : Option Status := none

inductive EventKind
  | diagnostic
  | requestSent
  | requestRetried
  | requestDropped
  deriving DecidableEq, Repr

/-- An event for the event callback; `none` is a successful status. -/
structure Event where
  kind : EventKind
  status : Option Status
  operation : String
  attempt : ℕ := 0
  remainingMs : ℕ := 0
  queueCount : ℕ := 0

/-! ## What the outbox calls -/

inductive OutboxCall
  /-- `queue_.statsResult()`, of which only the number of records is looked at. -/
  | statsResult
  | peek
  | pop
  | enqueue (record : Bytes)
  /-- `dispatchSend`, with `RetryState.attempts`. -/
  | send (payload : Bytes) (attempts : ℕ)
  | clock
  | rand (range : ℕ)
  | emit (event : Event)

abbrev OutboxCall.Val : OutboxCall → Type
  | .statsResult => Except Status ℕ
  | .peek => Except Status Bytes
  | .pop | .enqueue _ => Except Status Unit
  | .send .. => SendResult
  | .clock | .rand _ => ℕ
  | .emit _ => Unit

abbrev OutboxIo : Interface where
  Call := OutboxCall
  Ret := OutboxCall.Val
  Mark := Empty

/-- Methods of the outbox. -/
abbrev OutboxM (α : Type) := Act OutboxIo OutboxState Empty α

namespace Outbox

def perform (c : OutboxCall) : OutboxM c.Val := Act.perform (I := OutboxIo) c
def get : OutboxM OutboxState := Act.get
def modify (f : OutboxState → OutboxState) : OutboxM Unit := Act.modify f

def emitDiagnostic (status : Status) (operation : String) : OutboxM Unit :=
  perform (.emit { kind := .diagnostic, status := some status, operation := operation })

def emitRequestEvent (kind : EventKind) (status : Option Status) (operation : String)
    (attempt remainingMs queueCount : ℕ) : OutboxM Unit :=
  perform (.emit ⟨kind, status, operation, attempt, remainingMs, queueCount⟩)

/-- 64-bit unsigned arithmetic. -/
def u64 (n : ℕ) : ℕ := n % 2 ^ 64

/-- 64-bit subtraction. -/
def subU64 (a b : ℕ) : ℕ := u64 (a + 2 ^ 64 - b)

/-! ## Retry delays -/

/-- The doubling loop of `computeRetryDelay`. -/
def doubled (maxMs : ℕ) : ℕ → ℕ → ℕ
  | 0, v => v
  | n + 1, v => if v < maxMs then doubled maxMs n (v * 2) else v

/-- The delay before jitter. -/
def baseDelay (cfg : OutboxConfig) (exponent serverHintMs : ℕ) : ℕ :=
  if serverHintMs > 0 then
    if serverHintMs < cfg.maxRetryDelayMs then serverHintMs else cfg.maxRetryDelayMs
  else
    let v := doubled cfg.maxRetryDelayMs exponent cfg.initialRetryDelayMs
    if v < cfg.maxRetryDelayMs then v else cfg.maxRetryDelayMs

/-- The delay for a random sample. -/
def jittered (cfg : OutboxConfig) (base jitterRange sample : ℕ) : ℕ :=
  if sample < jitterRange then if sample < base then base - sample else 0
  else
    let add := sample - jitterRange
    if add ≤ subU32 cfg.maxRetryDelayMs base then u32 (base + add) else cfg.maxRetryDelayMs

def computeRetryDelay (cfg : OutboxConfig) (exponent serverHintMs : ℕ) : OutboxM ℕ := do
  let base := baseDelay cfg exponent serverHintMs
  if cfg.hasRand = false ∨ cfg.jitterPct = 0 ∨ base = 0 then pure base
  else
    let jitterRange64 := base * cfg.jitterPct / 100
    if jitterRange64 = 0 then pure base
    else
      let jitterRange := min jitterRange64 (2 ^ 32 - 1)
      let randRange := min (jitterRange * 2) (2 ^ 32 - 1)
      let sample ← perform (.rand randRange)
      pure (jittered cfg base jitterRange sample)

/-! ## The front record -/

def setFrontCooldown (nextAttemptMs : ℕ) : OutboxM Unit :=
  modify fun s => { s with frontNextAttemptMs := nextAttemptMs, hasFrontCooldown := true }

def clearFrontCooldown : OutboxM Unit :=
  modify fun s => { s with frontNextAttemptMs := 0, hasFrontCooldown := false, frontAttempts := 0 }

def frontIsCoolingDown (s : OutboxState) (nowMs : ℕ) : Bool :=
  s.hasFrontCooldown && decide (s.frontNextAttemptMs > nowMs)

/-! ## The drain rate -/

def maxDrainAttemptsPerSecond (cfg : OutboxConfig) : ℕ :=
  if cfg.maxDrainAttemptsPerSecond = 0 then 1 else cfg.maxDrainAttemptsPerSecond

def drainRateAllows (cfg : OutboxConfig) (s : OutboxState) (nowMs : ℕ) : Bool :=
  if s.hasDrainWindow = false then true
  else if subU64 nowMs s.drainWindowStartMs ≥ 1000 then true
  else decide (s.drainAttemptsInWindow < maxDrainAttemptsPerSecond cfg)

def recordDrainAttempt (nowMs : ℕ) : OutboxM Unit := modify fun s =>
  let s := if s.hasDrainWindow = false ∨ subU64 nowMs s.drainWindowStartMs ≥ 1000 then
    { s with
      drainWindowStartMs := nowMs, drainAttemptsInWindow := 0, hasDrainWindow := true } else s
  if s.drainAttemptsInWindow ≠ 2 ^ 16 - 1 then
    { s with drainAttemptsInWindow := s.drainAttemptsInWindow + 1 } else s

def drainRateRemainingMs (s : OutboxState) (nowMs : ℕ) : ℕ :=
  if s.hasDrainWindow = false ∨ subU64 nowMs s.drainWindowStartMs ≥ 1000 then 0
  else u32 (subU64 1000 (subU64 nowMs s.drainWindowStartMs))

/-! ## Submitting -/

def enqueueRecord (payload : Bytes) (attempts : ℕ) : OutboxM SubmitResult := do
  match Envelope.encodeEnvelope attempts payload with
  | none => do
    let st : Status := ⟨.encodeFailed, "failed to encode outbox envelope"⟩
    emitDiagnostic st "enqueueRecord"
    pure { status := .sendError, detail := some st }
  | some record => do
    match ← perform (.enqueue record) with
    | .ok _ => pure { status := .queued }
    | .error st =>
      if st.code = .queueFull then pure { status := .queueFull, detail := some st }
      else pure { status := .sendError, detail := some st }

/-- `queue_.stats().count`: 0 when the statistics fail. -/
def statsCount : OutboxM ℕ := do
  match ← perform .statsResult with
  | .ok count => pure count
  | .error _ => pure 0

/-- The live send of `submit`. -/
def submitLive (cfg : OutboxConfig) (payload : Bytes) : OutboxM SubmitResult := do
  let result ← perform (.send payload 0)
  match result.decision with
  | .sent => do
    emitRequestEvent .requestSent none "submit" 0 0 0
    pure { status := .sent }
  | .drop => do
    let st : Status := ⟨.dropped, "request was dropped by send policy"⟩
    emitRequestEvent .requestDropped (some st) "submit" 0 0 0
    pure { status := .dropped, detail := some st }
  | .retryLater => do
    let count ← statsCount
    let wasEmpty := count = 0
    let queued ← enqueueRecord payload 0
    if queued.status = .queued ∧ wasEmpty then do
      modify fun s => { s with frontAttempts := 1 }
      let delayMs ← computeRetryDelay cfg 0 result.retryAfterMs
      let now ← perform .clock
      setFrontCooldown (u64 (now + delayMs))
      emitRequestEvent .requestRetried none "submit" 1 delayMs 1
      pure queued
    else pure queued

def notConfigured : Status := ⟨.sendFailed, "outbox is not configured for sending"⟩

def submit (cfg : OutboxConfig) (payload : Bytes) : OutboxM SubmitResult := do
  if cfg.hasSend = false ∨ cfg.hasClock = false then do
    emitDiagnostic notConfigured "submit"
    pure { status := .sendError, detail := some notConfigured }
  else do
    match ← perform .statsResult with
    | .ok count => if count > 0 then enqueueRecord payload 0 else submitLive cfg payload
    | .error st => do
      emitDiagnostic st "submit_queue_stats_failed_live_send_fallback"
      submitLive cfg payload

/-! ## Draining -/

/-- The width of `std::size_t` on a 64-bit host. -/
def kSizeBits : ℕ := 64

def isCorruptFrontRecordStatus (code : StatusCode) : Bool :=
  code = .invalidRecord ∨ code = .crcMismatch

def canDropCorruptFrontRecord (cfg : OutboxConfig) (s : OutboxState) : Bool :=
  cfg.maxCorruptDropsPerLifetime ≠ 0 ∧ s.corruptDropsThisLifetime < cfg.maxCorruptDropsPerLifetime

def dropCorruptFrontRecord (cfg : OutboxConfig) (corruptStatus : Status) (recordBytes : ℕ) :
    OutboxM DrainResult := do
  let s ← get
  if canDropCorruptFrontRecord cfg s = false then do
    let st : Status := ⟨corruptStatus.code, "corrupt front record drop limit exceeded"⟩
    emitDiagnostic st "drain_corrupt_front_limit"
    pure { queueError := true, detail := some st }
  else do
    match ← perform .pop with
    | .error st => do
      emitDiagnostic st "drain_corrupt_front_pop"
      pure { queueError := true, detail := some st }
    | .ok _ => do
      clearFrontCooldown
      modify fun s => { s with corruptDropsThisLifetime := u16 (s.corruptDropsThisLifetime + 1) }
      emitRequestEvent .requestDropped (some corruptStatus) "drain_corrupt_front" 0 0 0
      pure { corruptDropped := 1, removedQueuedBytes := recordBytes, detail := some corruptStatus }

/-- After a final decision of a drain: the front record is popped. -/
def removeFront (result : DrainResult) (decision : SendDecision)
    (recordBytes : ℕ) : OutboxM DrainResult := do
  match ← perform .pop with
  | .error st => do
    emitDiagnostic st "drain"
    pure { result with queueError := true, detail := some st }
  | .ok _ => do
    let s ← get
    let attemptCount := s.frontAttempts
    clearFrontCooldown
    if decision = .sent then do
      emitRequestEvent .requestSent none "drain" attemptCount 0 0
      pure { result with sent := 1, removedQueuedBytes := recordBytes }
    else do
      emitRequestEvent .requestDropped
        (some ⟨.dropped, "request was dropped by send policy"⟩) "drain"
        attemptCount 0 0
      pure { result with dropped := 1, removedQueuedBytes := recordBytes }

/-- The send of `drainOne`, at time `nowMs`. -/
def drainSend (cfg : OutboxConfig) (nowMs : ℕ) (payload : Bytes) (recordBytes : ℕ) :
    OutboxM DrainResult := do
  recordDrainAttempt nowMs
  let s ← get
  emitRequestEvent .diagnostic none "drain_send_start" s.frontAttempts 0 0
  let result : DrainResult := { attempts := 1 }
  let sendResult ← perform (.send payload s.frontAttempts)
  match sendResult.decision with
  | .sent => removeFront result .sent recordBytes
  | .drop => removeFront result .drop recordBytes
  | .retryLater => do
    modify fun s => { s with
      frontAttempts := if s.frontAttempts < 255 then s.frontAttempts + 1 else s.frontAttempts }
    let s ← get
    let delayMs ← computeRetryDelay cfg (s.frontAttempts - 1) sendResult.retryAfterMs
    setFrontCooldown (u64 (nowMs + delayMs))
    emitRequestEvent .requestRetried none "drain" s.frontAttempts delayMs 0
    pure result

def drainOne (cfg : OutboxConfig) (enforceRateLimit : Bool) : OutboxM DrainResult := do
  if cfg.hasSend = false ∨ cfg.hasClock = false then do
    emitDiagnostic notConfigured "drain"
    pure { sendError := true, detail := some notConfigured }
  else do
    let nowMs ← perform .clock
    match ← perform .peek with
    | .error st =>
      if st.code = .queueEmpty then do
        clearFrontCooldown
        pure {}
      else if isCorruptFrontRecordStatus st.code then dropCorruptFrontRecord cfg st 0
      else do
        emitDiagnostic st "drain"
        pure { queueError := true, detail := some st }
    | .ok record =>
      match Envelope.decodeEnvelope kSizeBits record with
      | none =>
        dropCorruptFrontRecord cfg ⟨.decodeFailed, "stored outbox envelope could not be decoded"⟩
          (u32 record.length)
      | some (_, payload) => do
        let s ← get
        if frontIsCoolingDown s nowMs then do
          emitRequestEvent .diagnostic
            (some ⟨.sendFailed, "front request retry cooldown not due"⟩) "drain" s.frontAttempts
            (u32 (subU64 s.frontNextAttemptMs nowMs)) 0
          pure { notDue := true }
        else if enforceRateLimit ∧ drainRateAllows cfg s nowMs = false then do
          emitRequestEvent .diagnostic (some ⟨.sendFailed, "drain rate limit not due"⟩) "drain"
            s.frontAttempts (drainRateRemainingMs s nowMs) 0
          pure { rateLimited := true }
        else drainSend cfg nowMs payload (u32 record.length)

def drain (cfg : OutboxConfig) : OutboxM DrainResult := drainOne cfg true

/-- `total` with the result of one more drain. -/
def DrainResult.plus (total current : DrainResult) : DrainResult where
  attempts := u16 (total.attempts + current.attempts)
  sent := u16 (total.sent + current.sent)
  dropped := u16 (total.dropped + current.dropped)
  corruptDropped := u16 (total.corruptDropped + current.corruptDropped)
  removedQueuedBytes := u32 (total.removedQueuedBytes + current.removedQueuedBytes)
  rateLimited := total.rateLimited || current.rateLimited
  notDue := total.notDue || current.notDue
  queueError := total.queueError || current.queueError
  sendError := total.sendError || current.sendError
  detail := if current.detail.isSome then current.detail else total.detail

/-- A drain after which `drainUpTo` stops. -/
def shouldStop (current : DrainResult) : Bool :=
  let madeProgress := current.sent ≠ 0 ∨ current.dropped ≠ 0 ∨ current.corruptDropped ≠ 0
  ¬madeProgress ∨ current.notDue ∨ current.rateLimited ∨ current.queueError ∨ current.sendError

/-- The loop of `drainUpTo`, with so many turns left. -/
def drainLoop (cfg : OutboxConfig) : ℕ → DrainResult → OutboxM DrainResult
  | 0, total => pure total
  | n + 1, total => do
    let current ← drainOne cfg true
    if shouldStop current then pure (DrainResult.plus total current)
    else drainLoop cfg n (DrainResult.plus total current)

def drainUpTo (cfg : OutboxConfig) (maxDrainAttempts : ℕ) : OutboxM DrainResult :=
  drainLoop cfg (if maxDrainAttempts = 0 then 1 else maxDrainAttempts) {}

end Outbox

end Pqueue
