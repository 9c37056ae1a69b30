import Mathlib.Data.List.AList
import Pqueue.Bytes.LittleEndian
import Pqueue.FileSystem.Names
import Pqueue.FileSystem.Status
import Pqueue.Program.Act

/-!
# The file system

`file_system.h` with its two implementations, as an environment of calls.  `handle` is the
completed behaviour of `storage_posix.cpp` and `storage_littlefs.cpp` when no call fails;
`torn` is what a crash inside a call leaves; `faulty` adds calls that fail, with the damage a
failed call may do.

What the implementations take from outside is a parameter: the free space, the order in which
a directory is listed, and whether the process that wrote a lock file is dead.  Each answer may
differ from call to call, which is what the `clock` is for.
-/

namespace Pqueue

open Effect LittleEndian

/-- The files of the storage directory. -/
abbrev Disk := AList fun _ : FileName => Bytes

/-- The two backends. -/
inductive StorageBackend
  | posix
  | littleFS
  deriving DecidableEq, Repr

/-- What the file system rests on. -/
structure Env where
  backend : StorageBackend
  /-- Free bytes, by time. -/
  free : ℕ → ℕ
  /-- The order of a directory listing, by time. -/
  order : ℕ → List FileName → List FileName
  order_perm : ∀ t names, (order t names).Perm names
  /-- Whether a lock file names a process that is gone, by time. -/
  stale : ℕ → Bytes → Bool

/-- A file system with so much free space that lists files in the order of the directory. -/
def plainEnv (backend : StorageBackend) : Env where
  backend := backend
  free _ := 2 ^ 32
  order _ names := names
  order_perm _ _ := List.Perm.refl _
  stale _ _ := false

/-- The directory, the time, and the LittleFS queue mutex. -/
structure World where
  disk : Disk
  clock : ℕ := 0
  mutexTaken : Bool := false

/-! ## Calls -/

/-- The calls of `FileSystem`. -/
inductive FsCall
  | mount
  | readFile (name : FileName)
  | writeFile (name : FileName) (data : Bytes)
  | readAt (name : FileName) (offset size : ℕ)
  | writeAt (name : FileName) (offset : ℕ) (data : Bytes)
  | resizeFile (name : FileName) (size : ℕ)
  | fileSize (name : FileName)
  | removeFile (name : FileName)
  | listFiles
  | tryAcquireLockFile (name : FileName) (contents : Bytes)
  | releaseLockFile (name : FileName) (expectedContents : Bytes)
  | freeBytes

/-- The value a successful call delivers. -/
abbrev FsCall.Val : FsCall → Type
  | .readFile _ | .readAt .. => Bytes
  | .fileSize _ | .freeBytes => ℕ
  | .listFiles => List FileName
  | _ => Unit


/-- The interface of the file system; `κ` is the type of its trace events. -/
abbrev Fs (κ : Type) : Interface where
  Call := FsCall
  Ret c := Except Status c.Val
  Mark := κ

/-- The text of an error, which differs between the backends. -/
def StorageBackend.failure (b : StorageBackend) (code : StatusCode) (posix littleFS : String) :
    Status :=
  match b with
  | .posix => ⟨code, posix⟩
  | .littleFS => ⟨code, littleFS⟩

/-! ## File contents -/

/-- A file after `data` was written at `offset`: a gap reads as zeros. -/
def overwrite (old : Bytes) (offset : ℕ) (data : Bytes) : Bytes :=
  old.take offset ++ (List.replicate (offset - old.length) 0 ++
    (data ++ old.drop (offset + data.length)))

/-- `resize_file`: cut, or extended with zeros. -/
def truncated (old : Bytes) (size : ℕ) : Bytes :=
  old.take size ++ List.replicate (size - old.length) 0

/-- `LittleFsFileSystem::resizeFile`: a longer file is removed, created empty and filled up to
the size with zeros; a shorter one is extended with zeros. -/
def refilled (old : Bytes) (size : ℕ) : Bytes :=
  let kept := if old.length > size then [] else old
  kept ++ List.replicate (size - kept.length) 0

/-- The contents `resizeFile` leaves. -/
def StorageBackend.resized : StorageBackend → Bytes → ℕ → Bytes
  | .posix => truncated
  | .littleFS => refilled

/-! ## Completed calls -/

def World.setDisk (w : World) (d : Disk) : World := { w with disk := d }

/-- Time passes at a call whose answer does not come from the directory. -/
def World.tick (w : World) : World := { w with clock := w.clock + 1 }

@[simp] lemma World.setDisk_disk (w : World) (d : Disk) : (w.setDisk d).disk = d := rfl
@[simp] lemma World.tick_disk (w : World) : w.tick.disk = w.disk := rfl
@[simp] lemma World.setDisk_self (w : World) : w.setDisk w.disk = w := rfl
@[simp] lemma World.setDisk_setDisk (w : World) (d e : Disk) :
    (w.setDisk d).setDisk e = w.setDisk e := rfl
@[simp] lemma World.setDisk_clock (w : World) (d : Disk) : (w.setDisk d).clock = w.clock := rfl

/-- `PosixFileLock::acquire` and `LittleFsMutexLock::acquire`. -/
def acquireLock (env : Env) (name : FileName) (contents : Bytes) (w : World) :
    Except Status Unit × World :=
  match env.backend with
  | .posix =>
    let held := match w.disk.lookup name with
      | none => false
      | some old => !env.stale w.clock old
    if held then (.error ⟨.lockTimeout, "queue lock already exists"⟩, w.tick)
    else (.ok (), (w.setDisk (w.disk.insert name contents)).tick)
  | .littleFS =>
    if w.mutexTaken then (.error ⟨.lockTimeout, "LittleFS queue mutex is busy"⟩, w)
    else (.ok (), { w with mutexTaken := true })

/-- `PosixFileLock::release` and `LittleFsMutexLock::release`. -/
def releaseLock (env : Env) (name : FileName) (expectedContents : Bytes) (w : World) :
    Except Status Unit × World :=
  match env.backend with
  | .posix =>
    match w.disk.lookup name with
    | none => (.error ⟨.readFailed, "failed to open file for read"⟩, w)
    | some actual =>
      if actual ≠ expectedContents then
        (.error ⟨.lockTimeout, "queue lock is owned by another process"⟩, w)
      else (.ok (), w.setDisk (w.disk.erase name))
  | .littleFS => (.ok (), { w with mutexTaken := false })

/-- What a call answers and does when nothing fails. -/
def handle (env : Env) : (c : FsCall) → World → Except Status c.Val × World
  | .mount, w => (.ok (), w)
  | .readFile name, w =>
    match w.disk.lookup name with
    | some data => (.ok data, w)
    | none => (.error (env.backend.failure .readFailed "failed to open file for read"
        "failed to open LittleFS file for read"), w)
  | .writeFile name data, w => (.ok (), w.setDisk (w.disk.insert name data))
  | .readAt name offset size, w =>
    match w.disk.lookup name with
    | some data =>
      if size ≤ data.length - offset then (.ok ((data.drop offset).take size), w)
      else (.error (env.backend.failure .readFailed "failed to read complete file range"
        "failed to read complete LittleFS range"), w)
    | none => (.error (env.backend.failure .readFailed "failed to open file for positioned read"
        "failed to open LittleFS file for positioned read"), w)
  | .writeAt name offset data, w =>
    match w.disk.lookup name with
    | some old => (.ok (), w.setDisk (w.disk.insert name (overwrite old offset data)))
    | none => (.error (env.backend.failure .writeFailed "failed to open file for positioned write"
        "failed to open LittleFS file for positioned write"), w)
  | .resizeFile name size, w =>
    let old := (w.disk.lookup name).getD []
    (.ok (), w.setDisk (w.disk.insert name (env.backend.resized old size)))
  | .fileSize name, w =>
    match w.disk.lookup name with
    | some data => (.ok data.length, w)
    | none => (.error (env.backend.failure .readFailed "failed to stat file"
        "failed to stat LittleFS file"), w)
  | .removeFile name, w =>
    if env.backend = .littleFS ∧ w.disk.lookup name = none then
      (.error ⟨.removeFailed, "failed to remove LittleFS file"⟩, w)
    else (.ok (), w.setDisk (w.disk.erase name))
  | .listFiles, w => (.ok (env.order w.clock w.disk.keys), w.tick)
  | .tryAcquireLockFile name contents, w => acquireLock env name contents w
  | .releaseLockFile name contents, w => releaseLock env name contents w
  | .freeBytes, w => (.ok (env.free w.clock), w.tick)

/-! ## Crashes -/

/-- Calls that change the directory. -/
def FsCall.mutates : FsCall → Bool
  | .writeFile .. | .writeAt .. | .resizeFile .. | .removeFile .. => true
  | .tryAcquireLockFile .. | .releaseLockFile .. => true
  | _ => false

/-- The directory after a crash inside a call that had stored `n` bytes: a strict prefix of what
the call writes.  Cutting a file and removing one are not divisible. -/
def torn : FsCall → ℕ → World → Option World
  | .writeFile name data, n, w =>
    if n < data.length then some (w.setDisk (w.disk.insert name (data.take n))) else none
  | .writeAt name offset data, n, w =>
    match w.disk.lookup name with
    | some old =>
      if n < data.length then
        some (w.setDisk (w.disk.insert name (overwrite old offset (data.take n))))
      else none
    | none => none
  | _, _, _ => none

/-- The file system as an environment in which a crash can happen. -/
def crashing {κ : Type} (env : Env) : Prog.Crashing (Fs κ) World where
  handler := handle env
  mutates := FsCall.mutates
  torn := torn

/-! ## Failing calls -/

/-- The files other than `name` are the same in both directories. -/
def SameExcept (name : FileName) (d d' : Disk) : Prop :=
  ∀ other, other ≠ name → d'.lookup other = d.lookup other

/-- The names that are in neither directory need no look. -/
lemma sameExcept_iff {name : FileName} {d d' : Disk} : SameExcept name d d' ↔
    ∀ n ∈ d.keys ++ d'.keys, n ≠ name → d'.lookup n = d.lookup n := by
  constructor
  · exact fun h n _ => h n
  · intro h n hn
    by_cases hmem : n ∈ d.keys ++ d'.keys
    · exact h n hmem hn
    · rw [List.mem_append, not_or, ← AList.mem_keys, ← AList.mem_keys, ← AList.lookup_eq_none,
        ← AList.lookup_eq_none] at hmem
      rw [hmem.1, hmem.2]

instance (name : FileName) (d d' : Disk) : Decidable (SameExcept name d d') :=
  decidable_of_iff' _ sameExcept_iff

/-- The damage a failed call may do: a failed `writeFile` or `resizeFile` damages only its
file, a failed `writeAt` only bytes of its file from the offset on, a failed `removeFile`
leaves the file; the lock calls touch the lock file only, the others nothing. -/
def damage : FsCall → Disk → Disk → Prop
  | .writeFile name _, d, d' => SameExcept name d d'
  | .resizeFile name _, d, d' => SameExcept name d d'
  | .writeAt name offset _, d, d' => SameExcept name d d' ∧
      ∀ old, d.lookup name = some old → ∃ new, d'.lookup name = some new ∧
        new.take (min offset old.length) = old.take offset
  | .tryAcquireLockFile name _, d, d' => SameExcept name d d'
  | .releaseLockFile name _, d, d' => SameExcept name d d'
  | _, d, d' => d' = d

/-- Every call completes as `handle` says or fails, with what `harm` allows as its effect. -/
def faulty {κ : Type} (env : Env) (harm : FsCall → Disk → Disk → Prop) :
    Prog.Outcomes (Fs κ) World := fun c w r w' =>
  handle env c w = (r, w') ∨ ((∃ st, r = .error st) ∧ harm c w.disk w'.disk)

end Pqueue
