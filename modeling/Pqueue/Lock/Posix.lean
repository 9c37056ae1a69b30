import Mathlib.Logic.Function.Basic
import Pqueue.FileSystem.Status
import Pqueue.Lock.Owner
import Pqueue.Program.Act

/-!
# The lock of `storage_posix.cpp`

`PosixFileLock` as programs over its system calls, each of which is one atomic step: the exclusive
creation of the lock file, the write into the new file, the reading of whatever file has the name,
the probe of a process, the removal of the name.  `Kernel` is the state these calls share.

A `Machine` is that state with what every process is doing.  Processes act in any order, start what
the library lets them start, and may die at any point; the calls of one process go as a `Turn`
says, so that a call may fail.  Process ids are not reused: a dead process stays dead.
-/

namespace Pqueue

open Effect LittleEndian LockDetail

/-! ## System calls -/

/-- The errors the lock tells apart. -/
inductive Errno
  | eexist
  | eperm
  | esrch
  | other
  deriving DecidableEq, Repr

/-- A file, whether or not it still has a name: the process that created it, and a serial
number. -/
structure Inode where
  creator : ℕ
  serial : ℕ
  deriving DecidableEq, Repr

/-- The system calls, all of them about the name of the lock file. -/
inductive SysCall
  /-- `open` with `O_CREAT | O_EXCL`. -/
  | openExclusive
  | write (fd : Inode) (data : Bytes)
  | readFile
  | fileExists
  | kill (pid : ℤ)
  | remove

/-- What a system call answers; for `write`, the number of bytes written. -/
abbrev SysCall.Val : SysCall → Type
  | .openExclusive => Except Errno Inode
  | .write .. => Option ℕ
  | .readFile => Except Status Bytes
  | .fileExists => Except Errno Bool
  | .kill _ | .remove => Except Errno Unit

/-- The interface of the kernel. -/
abbrev Posix : Interface where
  Call := SysCall
  Ret := SysCall.Val
  Mark := Empty

/-- Methods of the lock; a success is `Ok` or `NoOp`. -/
abbrev LockM (α : Type) := Act Posix Unit Status α

/-- A method under way. -/
abbrev LockProg := Prog Posix (Except Status StatusCode × Unit)

namespace PosixFileLock

def perform (c : SysCall) : LockM c.Val := Act.perform (I := Posix) c

def failure {α : Type} (code : StatusCode) (message : String) : LockM α := Act.fail ⟨code, message⟩

/-! ## The methods -/

/-- `removeFile` as a status: a name that is not there counts as removed. -/
def removeFile : LockM (Except Errno Unit) := perform .remove

def removeStalePosixLock : LockM Bool := do
  match ← perform .readFile with
  | .error _ => pure false
  | .ok contents =>
    if lockPid contents ≤ 0 then pure false
    else do
      match ← perform (.kill (lockPid contents)) with
      | .ok _ => pure false
      | .error errno =>
        if errno = .eperm then pure false
        else if errno ≠ .esrch then pure false
        else do
          match ← removeFile with
          | .ok _ => pure true
          | .error _ => pure false

/-- The rest of `acquire` after the file was created. -/
def fill (fd : Inode) (contents : Bytes) : LockM StatusCode := do
  let written ← perform (.write fd contents)
  if written ≠ some contents.length then do
    let _ ← removeFile
    failure .writeFailed "failed to write queue lock file"
  else pure .ok

/-- The loop of `acquire` from `attempt` on, with so many attempts left. -/
def acquireLoop (contents : Bytes) : ℕ → ℕ → LockM StatusCode
  | _, 0 => failure .lockTimeout "queue lock already exists"
  | attempt, left + 1 => do
    match ← perform .openExclusive with
    | .ok fd => fill fd contents
    | .error errno =>
      if errno ≠ .eexist then failure .writeFailed "failed to create queue lock file"
      else if attempt = 0 then do
        let removed ← removeStalePosixLock
        if removed then acquireLoop contents (attempt + 1) left
        else failure .lockTimeout "queue lock already exists"
      else failure .lockTimeout "queue lock already exists"

def acquire (contents : Bytes) : LockM StatusCode := acquireLoop contents 0 2

def release (expectedContents : Bytes) : LockM StatusCode := do
  match ← perform .readFile with
  | .error st => Act.fail st
  | .ok actual =>
    if actual ≠ expectedContents then
      failure .lockTimeout "queue lock is owned by another process"
    else do
      match ← removeFile with
      | .ok _ => pure .ok
      | .error _ => failure .removeFailed "failed to remove file"

def recoverStale : LockM StatusCode := do
  match ← perform .fileExists with
  | .error _ => failure .readFailed "failed to inspect queue lock file"
  | .ok false => pure .noOp
  | .ok true => do
    let removed ← removeStalePosixLock
    if removed then pure .ok else failure .lockTimeout "queue lock is not stale"

end PosixFileLock

/-! ## The kernel -/

/-- The state that the processes share. -/
structure Kernel where
  alive : ℕ → Bool
  /-- The file that has the name of the lock file. -/
  entry : Option Inode := none
  content : Inode → Bytes := fun _ => []
  /-- The serial number of the next file. -/
  next : ℕ := 0
  /-- The file that a process created or read last; nothing the code does depends on it. -/
  looked : ℕ → Option Inode := fun _ => none
  /-- Process ids are positive numbers of the type `pid_t`. -/
  pid_range : ∀ p, alive p = true → 0 < p ∧ p < 2 ^ 31
  /-- A file that does not exist yet has nothing in it. -/
  unwritten : ∀ i : Inode, next ≤ i.serial → content i = []

/-- How a system call goes. -/
inductive Turn
  | completes
  | fails
  /-- A `write` that stores only so many bytes. -/
  | short (n : ℕ)
  deriving DecidableEq, Repr

/-- `static_cast<pid_t>`: 32 bits, signed. -/
def toPidT (pid : ℤ) : ℤ := (pid + 2 ^ 31) % 2 ^ 32 - 2 ^ 31

/-- `kill` with signal 0.  A live process answers with success or `EPERM`, a dead one with `ESRCH`;
a number that is not positive names a group of processes. -/
def Kernel.probe (k : Kernel) (turn : Turn) (pid : ℤ) : Except Errno Unit :=
  if pid ≤ 0 then if turn = .fails then .error .esrch else .ok ()
  else if k.alive pid.toNat then if turn = .fails then .error .eperm else .ok ()
  else .error .esrch

/-- A file with so many bytes stored; a descriptor that was never opened has none. -/
def Kernel.store (k : Kernel) (fd : Inode) (data : Bytes) : Kernel := { k with
  content := fun i => if i = fd ∧ fd.serial < k.next then data else k.content i
  unwritten := fun i hi => by
    split
    · next h =>
      obtain ⟨rfl, hlt⟩ := h
      omega
    · exact k.unwritten i hi }

/-- `p` has looked at a file. -/
def Kernel.look (k : Kernel) (p : ℕ) (i : Inode) : Kernel :=
  { k with looked := Function.update k.looked p (some i) }

@[simp] lemma Kernel.looked_look (k : Kernel) (p : ℕ) (i : Inode) :
    (k.look p i).looked p = some i := by
  simp [Kernel.look]

/-- `p` has created a file, with nothing in it, and the lock file's name for it. -/
def Kernel.create (k : Kernel) (p : ℕ) : Kernel := { k with
  entry := some ⟨p, k.next⟩
  next := k.next + 1
  looked := Function.update k.looked p (some ⟨p, k.next⟩)
  unwritten := fun i hi => k.unwritten i (Nat.le_of_succ_le hi) }

@[simp] lemma Kernel.looked_create (k : Kernel) (p : ℕ) :
    (k.create p).looked p = some ⟨p, k.next⟩ := by
  simp [Kernel.create]

/-- The name is gone. -/
def Kernel.unlink (k : Kernel) : Kernel := { k with entry := none }

/-- What process `p` is answered, and the state after it. -/
def Kernel.serve (p : ℕ) (turn : Turn) : (c : SysCall) → Kernel → c.Val × Kernel
  | .openExclusive, k =>
    if k.entry.isSome then (.error .eexist, k)
    else if turn = .fails then (.error .other, k)
    else (.ok ⟨p, k.next⟩, k.create p)
  | .write fd data, k =>
    match turn with
    | .completes => (some data.length, k.store fd data)
    | .fails => (none, k)
    | .short n => (some (data.take n).length, k.store fd (data.take n))
  | .readFile, k =>
    match k.entry with
    | none => (.error ⟨.readFailed, "failed to open file for read"⟩, k)
    | some i =>
      if turn = .fails then (.error ⟨.readFailed, "failed to read file"⟩, k)
      else (.ok (k.content i), k.look p i)
  | .fileExists, k => (if turn = .fails then .error .other else .ok k.entry.isSome, k)
  | .kill pid, k => (k.probe turn (toPidT pid), k)
  | .remove, k =>
    if turn = .fails then (.error .other, k) else (.ok (), k.unlink)

/-! ## Processes -/

/-- What a process may start. -/
inductive LockTask
  /-- With the boot id and the token that its lock contents will have. -/
  | acquire (bootId token : Bytes)
  | release
  | recoverStale

/-- What a process is doing.  It is between a successful acquire and its release while it is
`holding` or `releasing`. -/
inductive Activity
  | idle
  | acquiring (contents : Bytes) (prog : LockProg)
  | holding (contents : Bytes)
  | releasing (contents : Bytes) (prog : LockProg)
  | recovering (prog : LockProg)

/-- The kernel and what every process is doing. -/
structure Machine where
  kernel : Kernel
  activity : ℕ → Activity := fun _ => .idle

/-- No lock file, and these processes, none of which has done anything. -/
def Machine.start (alive : ℕ → Bool) (h : ∀ p, alive p = true → 0 < p ∧ p < 2 ^ 31) : Machine where
  kernel := { alive := alive, pid_range := h, unwritten := fun _ _ => rfl }

inductive LockEvent
  | start (p : ℕ) (task : LockTask)
  /-- The next system call of `p`. -/
  | call (p : ℕ) (turn : Turn)
  | die (p : ℕ)
  /-- `p` dies inside a `write`, with so many bytes stored. -/
  | dieWriting (p n : ℕ)

/-- The process of an event. -/
def LockEvent.actor : LockEvent → ℕ
  | .start p _ | .call p _ | .die p | .dieWriting p _ => p

/-- What a process is doing once `prog` is all that is left of its method. -/
def Activity.goOn : Activity → LockProg → Activity
  | .acquiring contents _, .ret (.ok _, _) => .holding contents
  | .acquiring _ _, .ret (.error _, _) => .idle
  | .acquiring contents _, prog => .acquiring contents prog
  | .releasing _ _, .ret _ => .idle
  | .releasing contents _, prog => .releasing contents prog
  | .recovering _, .ret _ => .idle
  | .recovering _, prog => .recovering prog
  | a, _ => a

/-- The method a process is in. -/
def Activity.prog? : Activity → Option LockProg
  | .acquiring _ prog | .releasing _ prog | .recovering prog => some prog
  | _ => none

namespace Machine

def setActivity (m : Machine) (p : ℕ) (a : Activity) : Machine :=
  { m with activity := Function.update m.activity p a }

/-- `p` is gone. -/
def kill (k : Kernel) (p : ℕ) : Kernel := { k with
  alive := fun q => if q = p then false else k.alive q
  pid_range := fun q hq => k.pid_range q (by
    split at hq
    · exact absurd hq Bool.false_ne_true
    · exact hq) }

/-- The machine after an event; `none` when it cannot happen. -/
def next : LockEvent → Machine → Option Machine
  | .start p task, m =>
    if m.kernel.alive p then
      match task, m.activity p with
      | .acquire bootId token, .idle =>
        let contents := makeLockContents p bootId token
        some (m.setActivity p (.acquiring contents (PosixFileLock.acquire contents ())))
      | .release, .holding contents =>
        some (m.setActivity p (.releasing contents (PosixFileLock.release contents ())))
      | .recoverStale, .idle => some (m.setActivity p (.recovering (PosixFileLock.recoverStale ())))
      | _, _ => none
    else none
  | .call p turn, m =>
    if m.kernel.alive p then
      match (m.activity p).prog? with
      | some (.call c k) =>
        let (r, kernel) := m.kernel.serve p turn c
        some ({ m with kernel := kernel }.setActivity p ((m.activity p).goOn (k r)))
      | _ => none
    else none
  | .die p, m => if m.kernel.alive p then some { m with kernel := kill m.kernel p } else none
  | .dieWriting p n, m =>
    if m.kernel.alive p then
      match (m.activity p).prog? with
      | some (.call (.write fd data) _) =>
        some { m with kernel := kill (m.kernel.serve p (.short n) (.write fd data)).2 p }
      | _ => none
    else none

end Machine

/-- The machines that runs reach from `m₀` when `A` says which events may happen where. -/
inductive LockRun (A : Machine → LockEvent → Prop) (m₀ : Machine) : Machine → Prop
  | init : LockRun A m₀ m₀
  | step {m m' : Machine} (e : LockEvent) : LockRun A m₀ m → A m e → m.next e = some m' →
      LockRun A m₀ m'

lemma LockRun.mono {A B : Machine → LockEvent → Prop} {m₀ m : Machine} (h : LockRun A m₀ m)
    (hAB : ∀ m e, A m e → B m e) : LockRun B m₀ m := by
  induction h with
  | init => exact .init
  | step e _ ha hnext ih => exact ih.step e (hAB _ _ ha) hnext

/-- The machine after a list of events, if each of them meets a condition and can happen. -/
def Machine.after (A : Machine → LockEvent → Bool) : List LockEvent → Machine → Option Machine
  | [], m => some m
  | e :: es, m => if A m e then (m.next e).bind (Machine.after A es) else none

/-- A run, found by computing it. -/
lemma LockRun.of_after {A : Machine → LockEvent → Bool} (P : Machine → Bool) (es : List LockEvent)
    (m : Machine) (h : (Machine.after A es m).any P = true) :
    ∃ m', LockRun (fun m e => A m e) m m' ∧ P m' = true := by
  have hrun : ∀ (es : List LockEvent) {m₁ m' : Machine}, LockRun (fun m e => A m e) m m₁ →
      Machine.after A es m₁ = some m' → LockRun (fun m e => A m e) m m' := by
    intro es
    induction es with
    | nil =>
      intro m₁ m' h₁ he
      obtain rfl := Option.some.inj he
      exact h₁
    | cons e es ih =>
      intro m₁ m' h₁ he
      unfold Machine.after at he
      split at he
      · next hA =>
        obtain ⟨m₂, hnext, hrest⟩ := Option.bind_eq_some_iff.mp he
        exact ih (h₁.step e hA hnext) hrest
      · simp at he
  obtain ⟨m', hm', hP⟩ := Option.any_eq_true _ _ |>.mp h
  exact ⟨m', hrun es .init hm', hP⟩

end Pqueue
