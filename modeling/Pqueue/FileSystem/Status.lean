import Mathlib.Tactic.Common

/-!
# Status codes

`status.h`: every operation reports a code and a message.  `Ok` and `NoOp` both count as
success; a failing operation of the model ends early with its `Status`.
-/

namespace Pqueue

inductive StatusCode
  | ok
  | invalidArgument
  | backendUnavailable
  | mountFailed
  | readFailed
  | writeFailed
  | renameFailed
  | removeFailed
  | listFailed
  | invalidIndex
  | invalidRecord
  | crcMismatch
  | recordTooLarge
  | queueFull
  | queueEmpty
  | lockTimeout
  | encodeFailed
  | decodeFailed
  | sendFailed
  | dropped
  | dataCorrupt
  | rangeLimitExceeded
  | sequenceExhausted
  /-- The operation succeeded but had nothing to do. -/
  | noOp
  deriving DecidableEq, Repr

/-- A failure: its code and its message. -/
structure Status where
  code : StatusCode
  message : String
  deriving DecidableEq, Repr

end Pqueue
