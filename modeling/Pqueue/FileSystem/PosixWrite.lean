import Pqueue.FileSystem.Disk

/-!
# Writing through a buffered stream

`PosixFileSystem::writeFile` and `writeAt` write through a C++ file stream and ask the stream
whether it is good before it is destroyed.  The stream keeps what was written to it in a buffer
of a fixed capacity; system writes happen when the buffer overflows and at destruction, and only
they can set the error state.

The contract of both methods is that a reported success means the bytes are in the file.
`writes_sound_iff` says exactly when it holds: the system write at destruction, which nobody
checks, stores what was left for it.
-/

namespace Pqueue

open LittleEndian

/-! ## File streams -/

/-- The buffer of a stream.  When more than `capacity` bytes are pending, all but `kept` of them
are written out. -/
structure StreamBuffer where
  capacity : ℕ
  kept : ℕ → ℕ
  kept_le : ∀ n, kept n ≤ capacity

/-- How the operating system answers: system write number `i`, of `n` bytes, stores this many
bytes.  Fewer than `n` is a short or failed write. -/
abbrev SystemWrites := ℕ → ℕ → ℕ

/-- An open stream and its file. -/
structure FileStream where
  file : Bytes
  position : ℕ
  pending : Bytes := []
  /-- The number of system writes made so far. -/
  writes : ℕ := 0
  bad : Bool := false

/-- The file after `data` reached it at `position`. -/
def stored (file : Bytes) (position : ℕ) (data : Bytes) : Bytes :=
  if data = [] then file else overwrite file position data

@[simp] lemma stored_empty (file : Bytes) (position : ℕ) :
    stored file position [] = file := if_pos rfl

namespace FileStream

variable (os : SystemWrites) (buf : StreamBuffer)

/-- The part of a system write that is stored. -/
def accepted (s : FileStream) (chunk : Bytes) : Bytes := chunk.take (os s.writes chunk.length)

/-- One system write; an incomplete one sets the error state. -/
def systemWrite (chunk : Bytes) (s : FileStream) : FileStream :=
  { s with
    file := stored s.file s.position (s.accepted os chunk)
    position := s.position + (s.accepted os chunk).length
    writes := s.writes + 1
    bad := s.bad || (s.accepted os chunk).length < chunk.length }

/-- What an overflow writes out of `n` pending bytes. -/
def overflowBytes (n : ℕ) : ℕ := n - buf.kept n

/-- `write`: buffer the data, with a system write when the buffer overflows. -/
def write (data : Bytes) (s : FileStream) : FileStream :=
  let all := s.pending ++ data
  if all.length ≤ buf.capacity then { s with pending := all }
  else { s.systemWrite os (all.take (overflowBytes buf all.length)) with
    pending := all.drop (overflowBytes buf all.length) }

def good (s : FileStream) : Bool := !s.bad

/-- Destruction: what is pending goes to the file, and the outcome to nobody. -/
def destroy (s : FileStream) : FileStream :=
  if s.pending = [] then s else { s.systemWrite os s.pending with pending := [] }

end FileStream

/-! ## The methods -/

/-- A call of one of the methods: what the operating system and the stream do, and the file. -/
structure StreamEnv where
  os : SystemWrites
  buf : StreamBuffer
  opens : Bool := true
  seeks : Bool := true

/-- `PosixFileSystem::writeFile`: its status and the file it leaves. -/
def posixWriteFile (e : StreamEnv) (old data : Bytes) : Except Status Unit × Bytes :=
  if !e.opens then (.error ⟨.writeFailed, "failed to open file for write"⟩, old)
  else
    let s := FileStream.write e.os e.buf data { file := [], position := 0 }
    let left := (s.destroy e.os).file
    if !s.good then (.error ⟨.writeFailed, "failed to write file"⟩, left) else (.ok (), left)

/-- `PosixFileSystem::writeAt`: its status and the file it leaves. -/
def posixWriteAt (e : StreamEnv) (old : Bytes) (offset : ℕ) (data : Bytes) :
    Except Status Unit × Bytes :=
  if !e.opens then (.error ⟨.writeFailed, "failed to open file for positioned write"⟩, old)
  else if !e.seeks then (.error ⟨.writeFailed, "failed to seek file for write"⟩, old)
  else
    let s := FileStream.write e.os e.buf data { file := old, position := offset }
    let left := (s.destroy e.os).file
    if !s.good then (.error ⟨.writeFailed, "failed to write complete file range"⟩, left)
    else (.ok (), left)

/-- A reported success means that the bytes are stored. -/
def WriteFileSound (e : StreamEnv) (old data : Bytes) : Prop :=
  (posixWriteFile e old data).1 = .ok () → (posixWriteFile e old data).2 = data

/-- A reported success means that the bytes are stored and the others are as they were. -/
def WriteAtSound (e : StreamEnv) (old : Bytes) (offset : ℕ) (data : Bytes) : Prop :=
  (posixWriteAt e old offset data).1 = .ok () →
    (posixWriteAt e old offset data).2 = stored old offset data

/-! ## When the contract holds -/

/-- The bytes that an overflow writes before the status is taken. -/
def StreamEnv.checked (e : StreamEnv) (data : Bytes) : Bytes :=
  if data.length ≤ e.buf.capacity then []
  else data.take (FileStream.overflowBytes e.buf data.length)

/-- The bytes that are left for the destructor. -/
def StreamEnv.unchecked (e : StreamEnv) (data : Bytes) : Bytes :=
  if data.length ≤ e.buf.capacity then data
  else data.drop (FileStream.overflowBytes e.buf data.length)

/-- The overflow, when there is one, stores all its bytes. -/
def StreamEnv.OverflowStores (e : StreamEnv) (data : Bytes) : Prop :=
  data.length ≤ e.buf.capacity ∨ (e.checked data).length ≤ e.os 0 (e.checked data).length

/-- The number of the system write at destruction. -/
def StreamEnv.lastWrite (e : StreamEnv) (data : Bytes) : ℕ :=
  if data.length ≤ e.buf.capacity then 0 else 1

/-- What the destructor's system write stores. -/
def StreamEnv.flushed (e : StreamEnv) (data : Bytes) : Bytes :=
  (e.unchecked data).take (e.os (e.lastWrite data) (e.unchecked data).length)

lemma StreamEnv.checked_append (e : StreamEnv) (data : Bytes) :
    e.checked data ++ e.unchecked data = data := by
  rw [checked, unchecked]
  split
  · rfl
  · exact List.take_append_drop ..

/-- The stream after the write and its destruction, started on `file` at `position`. -/
lemma write_destroy (e : StreamEnv) (file data : Bytes) (position : ℕ) :
    let s := FileStream.write e.os e.buf data { file := file, position := position }
    (s.good = true ↔ e.OverflowStores data) ∧ (s.good = true → (s.destroy e.os).file =
      stored (stored file position (e.checked data)) (position + (e.checked data).length)
        (e.flushed data)) := by
  simp only [FileStream.write, List.nil_append]
  by_cases hcap : data.length ≤ e.buf.capacity
  · rw [if_pos hcap, StreamEnv.OverflowStores, StreamEnv.checked, if_pos hcap]
    refine ⟨⟨fun _ => .inl hcap, fun _ => rfl⟩, fun _ => ?_⟩
    rw [StreamEnv.flushed, StreamEnv.unchecked, if_pos hcap, StreamEnv.lastWrite, if_pos hcap,
      FileStream.destroy]
    split
    · next hnil =>
      simp only at hnil
      simp only [hnil, stored_empty, List.take_nil]
    · simp only [FileStream.systemWrite, FileStream.accepted, List.length_nil, Nat.add_zero,
        stored_empty]
  · rw [if_neg hcap]
    have hchecked : data.take (FileStream.overflowBytes e.buf data.length) = e.checked data := by
      rw [StreamEnv.checked, if_neg hcap]
    have hunchecked : data.drop (FileStream.overflowBytes e.buf data.length) =
        e.unchecked data := by
      rw [StreamEnv.unchecked, if_neg hcap]
    rw [hchecked, hunchecked]
    have hgood : (FileStream.systemWrite e.os (e.checked data)
        { file := file, position := position }).bad = false ↔
          (e.checked data).length ≤ e.os 0 (e.checked data).length := by
      simp only [FileStream.systemWrite, FileStream.accepted, List.length_take, Bool.false_or,
        decide_eq_false_iff_not, not_lt]
      omega
    refine ⟨?_, fun hg => ?_⟩
    · rw [StreamEnv.OverflowStores, or_iff_right hcap, ← hgood, FileStream.good]
      simp only [Bool.not_eq_true']
    · have hall : (e.checked data).take (e.os 0 (e.checked data).length) = e.checked data := by
        refine List.take_of_length_le (hgood.1 ?_)
        simpa [FileStream.good] using hg
      rw [StreamEnv.flushed, StreamEnv.lastWrite, if_neg hcap, FileStream.destroy]
      split
      · next hnil =>
        simp only at hnil
        simp only [FileStream.systemWrite, FileStream.accepted, hall, hnil, List.take_nil,
          stored_empty]
      · simp only [FileStream.systemWrite, FileStream.accepted, hall, Nat.zero_add]

/-- Two writes in a row are one write. -/
lemma overwrite_overwrite (file a b : Bytes) (position : ℕ) (ha : a ≠ []) :
    overwrite (overwrite file position a) (position + a.length) b =
      overwrite file position (a ++ b) := by
  have hpos := List.length_pos_iff.2 ha
  have hlen : (file.take position ++ List.replicate (position - file.length) (0 : UInt8)).length =
      position := by
    rw [List.length_append, List.length_take, List.length_replicate]
    omega
  have hsplit : overwrite file position a =
      (file.take position ++ List.replicate (position - file.length) 0) ++
        (a ++ file.drop (position + a.length)) := by
    rw [overwrite, List.append_assoc]
  have hfront : ((file.take position ++ List.replicate (position - file.length) (0 : UInt8)) ++
      a).length = position + a.length := by rw [List.length_append, hlen]
  have htake : (overwrite file position a).take (position + a.length) =
      (file.take position ++ List.replicate (position - file.length) 0) ++ a := by
    rw [hsplit, ← List.append_assoc, List.take_left' hfront]
  have hdrop : (overwrite file position a).drop (position + a.length + b.length) =
      file.drop (position + (a ++ b).length) := by
    rw [hsplit, ← List.append_assoc, ← List.drop_drop, List.drop_left' hfront, List.drop_drop,
      List.length_append, Nat.add_assoc]
  have hlong : position + a.length - (overwrite file position a).length = 0 := by
    rw [hsplit, List.length_append, hlen, List.length_append]
    omega
  rw [overwrite, htake, hlong, hdrop, overwrite]
  simp only [List.replicate_zero, List.nil_append, List.append_assoc]

lemma stored_stored (file a b : Bytes) (position : ℕ) :
    stored (stored file position a) (position + a.length) b = stored file position (a ++ b) := by
  by_cases ha : a = []
  · subst ha
    simp only [stored_empty, List.length_nil, Nat.add_zero, List.nil_append]
  · by_cases hb : b = []
    · subst hb
      simp only [stored_empty, List.append_nil]
    · rw [stored, if_neg hb, stored, if_neg ha, stored,
        if_neg (List.append_ne_nil_of_left_ne_nil ha _),
        overwrite_overwrite file a b position ha]

lemma stored_nil (data : Bytes) : stored [] 0 data = data := by
  rw [stored]
  split
  · next h => exact h.symm
  · simp only [overwrite, List.take_nil, List.length_nil, Nat.sub_zero, List.replicate_zero,
      List.drop_nil, List.nil_append, List.append_nil]

/-- The file a good stream leaves: all but what the destructor failed to store. -/
lemma good_destroy_file (e : StreamEnv) (file data : Bytes) (position : ℕ)
    (hg : (FileStream.write e.os e.buf data { file := file, position := position }).good = true) :
    ((FileStream.write e.os e.buf data { file := file, position := position }).destroy e.os).file =
      stored file position (e.checked data ++ e.flushed data) := by
  rw [(write_destroy e file data position).2 hg, stored_stored]

lemma flushed_eq_iff (e : StreamEnv) (data : Bytes) :
    e.checked data ++ e.flushed data = data ↔
      (e.unchecked data).length ≤ e.os (e.lastWrite data) (e.unchecked data).length := by
  have hsplit := e.checked_append data
  constructor
  · intro h
    have heq := List.append_cancel_left (h.trans hsplit.symm)
    have hlen := congrArg List.length heq
    rw [StreamEnv.flushed, List.length_take] at hlen
    omega
  · intro h
    rw [StreamEnv.flushed, List.take_of_length_le h, hsplit]

/-- **When a reported success is one.**  `writeFile` keeps its contract exactly when, on every
call it would report as a success, the destructor's system write stores all the bytes left for
it; for `writeAt` it is enough that the bytes it does not store are in the file already. -/
theorem writes_sound_iff (e : StreamEnv) (old : Bytes) (offset : ℕ) (data : Bytes) :
    (WriteFileSound e old data ↔ (e.opens = true → e.OverflowStores data →
      (e.unchecked data).length ≤ e.os (e.lastWrite data) (e.unchecked data).length)) ∧
    (WriteAtSound e old offset data ↔ (e.opens = true → e.seeks = true → e.OverflowStores data →
      (e.unchecked data).length ≤ e.os (e.lastWrite data) (e.unchecked data).length ∨
        stored old offset (e.checked data ++ e.flushed data) = stored old offset data)) := by
  constructor
  · rw [WriteFileSound, posixWriteFile]
    cases ho : e.opens
    · simp
    · have hgood := (write_destroy e [] data 0).1
      simp only [Bool.not_true, Bool.false_eq_true, if_false, true_implies]
      rw [← hgood]
      cases hg : (FileStream.write e.os e.buf data { file := [], position := 0 }).good
      · simp
      · have hfile := good_destroy_file e [] data 0 hg
        simp only [Bool.not_true, Bool.false_eq_true, if_false, true_implies, hfile, stored_nil]
        exact flushed_eq_iff e data
  · rw [WriteAtSound, posixWriteAt]
    cases ho : e.opens
    · simp
    · cases hs : e.seeks
      · simp
      · have hgood := (write_destroy e old data offset).1
        simp only [Bool.not_true, Bool.false_eq_true, if_false, true_implies]
        rw [← hgood]
        cases hg : (FileStream.write e.os e.buf data { file := old, position := offset }).good
        · simp
        · have hfile := good_destroy_file e old data offset hg
          simp only [Bool.not_true, Bool.false_eq_true, if_false, true_implies, hfile]
          refine ⟨fun h => .inr h, fun h => h.elim (fun hle => ?_) id⟩
          rw [(flushed_eq_iff e data).2 hle]

/-- A full disk: no system write stores anything. -/
def fullDisk : StreamEnv where
  os _ _ := 0
  buf := { capacity := 8191, kept := fun _ => 0, kept_le := fun _ => Nat.zero_le _ }

/-- On a full disk both methods report a success for one byte and store nothing. -/
theorem writes_unsound_on_full_disk :
    ¬∀ (e : StreamEnv) (old : Bytes) (offset : ℕ) (data : Bytes),
      WriteFileSound e old data ∧ WriteAtSound e old offset data := by
  intro h
  have hfile := (h fullDisk [] 0 [7]).1
  rw [(writes_sound_iff fullDisk [] 0 [7]).1] at hfile
  exact absurd (hfile rfl (.inl (by decide))) (by decide)

end Pqueue
