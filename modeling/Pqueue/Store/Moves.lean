import Pqueue.Store.Output
import Pqueue.Store.Faults

/-!
# The moves of a store

What a method of a mounted store does to its members and to the directory is a sequence of
moves: a segment is opened, an event is logged, a compaction takes effect, or one of their calls
fails and leaves what a failed call may leave.  `Move` lists them, with the events that were
logged, under the conditions the code has checked when it makes them; `Moves` is any sequence.

Invariants are proved for one move (a move lemma each) and hold after any sequence.  That the
methods do nothing else is the subject of the modules that follow.
-/

namespace Pqueue

open Effect LittleEndian

/-! ## Logging an event -/

/-- The length checks of a payload. -/
def PayloadOk (cfg : AppendLogConfig) (payload : Bytes) : Prop :=
  payload.length ≤ cfg.maxRecordBytes ∧
    kSegmentHeaderBytes + kEnqueueOverheadBytes + payload.length ≤ cfg.maxSegmentBytes

/-- The sequences of the live records. -/
def Ram.seqs (ram : Ram) : List ℕ := ram.records.map (·.sequence)

/-- The event that a commit has decided to log, for a caller that enqueues at the tail of the
index. -/
def Loggable (cfg : AppendLogConfig) (ram : Ram) : LogEvent → Prop
  | .enqueue sequence payload => sequence < 2 ^ 32 - 1 ∧ PayloadOk cfg payload ∧
    ∀ back, ram.seqs.getLast? = some back → sequence = back + 1
  | .rewrite sequence payload =>
    PayloadOk cfg payload ∧ ∃ r ∈ ram.records, r.sequence = sequence
  | .pop sequence => ∃ front, ram.records.head? = some front ∧ front.sequence = sequence

/-- The members after an event was written at the end of the tail and applied to the index. -/
def Ram.logged (ram : Ram) : LogEvent → Ram
  | .enqueue sequence payload =>
    (ram.extendTail (LogEvent.enqueue sequence payload).encode.length).pushRecord
      ⟨sequence, ram.activeGeneration, u32 (ram.activeSegmentBytes + kEnqueueHeaderBytes),
        u32 payload.length⟩
  | .rewrite sequence payload =>
    ((ram.extendTail (LogEvent.rewrite sequence payload).encode.length).affect
      (((ram.records.find? fun r => r.sequence = sequence).map
        (·.segmentGeneration)).getD 0)).relocate
        sequence (u32 (ram.activeSegmentBytes + kEnqueueHeaderBytes)) (u32 payload.length)
  | .pop sequence =>
    ((ram.extendTail (LogEvent.pop sequence).encode.length).affect
      ((ram.records.head?.map (·.segmentGeneration)).getD 0)).popRecord

/-! ## Opening a segment -/

/-- The manifest that makes the next generation the tail. -/
def Ram.opening (ram : Ram) (ranges : List ManifestRange) (epoch : ℕ) : ManifestData :=
  ⟨epoch, ram.nextGeneration + 1, ranges, ram.nextGeneration⟩

/-- What holds when a segment is opened: the tail was sealed into the ranges, or there was none;
and the marked points meet `A`. -/
structure Opens (harm : FsCall → Disk → Disk → Prop) (A : StoreMark → Disk → Prop) (ram : Ram)
    (d : Disk) (ranges : List ManifestRange) (startSeq : ℕ) (slot : Slot) (epoch : ℕ) : Prop where
  shape : ranges = ram.sealTail ∧ ranges.length ≤ kManifestMaxRanges ∧ ram.noteSealed = ram ∨
    ranges = ram.manifestRanges ∧ ram.activeSegmentBytes = 0
  startSeq_lt : startSeq < 2 ^ 32
  gen_lt : ram.nextGeneration + 1 < 2 ^ 32
  allocate : A (.allocate ram.nextGeneration) d
  target : ram.Targets harm d slot epoch
  publish : A (.publish epoch (ram.opening ranges 0)) (Disk.create d ram.nextGeneration startSeq)

/-- The members after a segment was opened. -/
def Ram.opened (ram : Ram) (ranges : List ManifestRange) (slot : Slot) (epoch oldSize : ℕ) : Ram :=
  ram.started slot (ram.opening ranges (u32 (epoch + 1))) oldSize

/-- The directory after a segment was opened. -/
def Disk.opened (d : Disk) (ram : Ram) (ranges : List ManifestRange) (startSeq : ℕ) (slot : Slot)
    (epoch : ℕ) : Disk :=
  Disk.publish (Disk.create d ram.nextGeneration startSeq) slot
    (ram.opening ranges (u32 (epoch + 1)))

/-! ## Compacting -/

/-- The marked points of writing the output segments. -/
def OutputMarks (A : StoreMark → Disk → Prop) : List OutputSeg → Disk → Prop
  | [], _ => True
  | o :: out, d => A (.allocate o.gen) d ∧ A (.pack o.data.length) d ∧
      OutputMarks A out (d.insert (segmentName o.gen) o.data)

/-- The manifest a compaction publishes, with this epoch. -/
def Ram.compactionAt (ram : Ram) (epoch idx : ℕ) (parent : ManifestRange) (input : CompactionRange)
    (out : List OutputSeg) : ManifestData :=
  { ram.compaction 0 idx parent input out with epoch := epoch }

/-- Where a compaction stands when it starts to read its input: it was planned on `ram₀` and
`d₀`, and the tail was sealed if the plan says so. -/
inductive Prepared (cfg : AppendLogConfig) (harm : FsCall → Disk → Disk → Prop)
    (A : StoreMark → Disk → Prop) (ram₀ : Ram) (d₀ : Disk) (plan : CompactionPlan) :
    Ram → Disk → Prop
  | asIs (h : plan.rotates = false) : Prepared cfg harm A ram₀ d₀ plan ram₀ d₀
  | rotated (h : plan.rotates = true) {startSeq slot epoch n}
      (ho : Opens harm A ram₀.noteSealed d₀ ram₀.sealTail startSeq slot epoch)
      (hn : SizeRead harm d₀ slot.fileName n) :
      Prepared cfg harm A ram₀ d₀ plan (ram₀.noteSealed.opened ram₀.sealTail slot epoch n)
        (Disk.opened d₀ ram₀.noteSealed ram₀.sealTail startSeq slot epoch)

/-- What holds of a compaction when it has written its output `out`: it read the live records `live`
of its input from `ram` and `d`, and packed them. -/
structure Packed (cfg : AppendLogConfig) (harm : FsCall → Disk → Disk → Prop)
    (A : StoreMark → Disk → Prop) (ram₀ : Ram) (d₀ : Disk) (plan : CompactionPlan) (ram : Ram)
    (d : Disk) (idx : ℕ) (parent : ManifestRange) (input : CompactionRange)
    (live : List CompactionLiveRecord) (out : List OutputSeg) : Prop where
  prepared : Prepared cfg harm A ram₀ d₀ plan ram d
  input_eq : input =
    ⟨plan.input.startGen, if plan.rotates then parent.endGen else plan.input.endGen⟩
  part : PartOf ram.manifestRanges idx parent input
  collected : ram.collect d input = some live
  output : out = compactionOutput cfg ram live
  gens : out.map OutputSeg.gen = List.range' ram.nextGeneration out.length
  gens_lt : ∀ o ∈ out, o.gen + 1 < 2 ^ 32
  marks : OutputMarks A out d

/-- The same, and it was planned on `ram₀` and `d₀`. -/
structure Compacts (cfg : AppendLogConfig) (harm : FsCall → Disk → Disk → Prop)
    (A : StoreMark → Disk → Prop) (ram₀ : Ram) (d₀ : Disk) (plan : CompactionPlan) (ram : Ram)
    (d : Disk) (idx : ℕ) (parent : ManifestRange) (input : CompactionRange)
    (live : List CompactionLiveRecord) (out : List OutputSeg) : Prop
    extends Packed cfg harm A ram₀ d₀ plan ram d idx parent input live out where
  planned : ∃ range fallback, A (.compactRange ram₀ range fallback) d₀ ∧
    ram₀.planCompaction cfg range fallback = some plan

/-- Removing the input: each file is gone, or it stays and stays accounted for. -/
inductive Removed (harm : FsCall → Disk → Disk → Prop) :
    List ℕ → Ram → Disk → Ram → Disk → Prop
  | nil {ram d} : Removed harm [] ram d ram d
  | gone {g gens ram d ram' d'}
      (h : Removed harm gens (ram.dropSegment g ((ram.sealedSegmentBytes g).getD 0))
        (d.erase (segmentName g)) ram' d') : Removed harm (g :: gens) ram d ram' d'
  | kept {g gens ram d ram' d'}
      (hk : d.lookup (segmentName g) = none ∨ ¬Reliable harm (.removeFile (segmentName g)))
      (h : Removed harm gens ram d ram' d') : Removed harm (g :: gens) ram d ram' d'

/-! ## Moves -/

section

variable (cfg : AppendLogConfig) (harm : FsCall → Disk → Disk → Prop)
  (A : StoreMark → Disk → Prop)

/-- One move, with the events it logs. -/
inductive Move : Ram → Disk → List LogEvent → Ram → Disk → Prop
  /-- The lock file is taken, left or damaged. -/
  | lock {ram d d'} (h : SameExcept kLockFileName d d') : Move ram d [] ram d'
  /-- The size of the tail is recorded before a rotation. -/
  | noteSealed {ram d} : Move ram d [] ram.noteSealed d
  /-- A segment file is written that no manifest names yet: the output of a compaction, or a new
  tail where calls may fail or no slot can be chosen. -/
  | wrote {ram d gen data} (hg : ram.nextGeneration ≤ gen) (hlt : gen < 2 ^ 32)
      (hA : A (.allocate gen) d)
      (hw : ram.manifestRanges ≠ [] ∨ (∃ c, ¬Reliable harm c) ∨ ram.NoTarget harm d) :
      Move ram d [] (ram.trackWrite (segmentName gen) data.length 0)
        (d.insert (segmentName gen) data)
  /-- Such a write fails. -/
  | writeFailed {ram d gen data d'} (hg : ram.nextGeneration ≤ gen) (hlt : gen < 2 ^ 32)
      (h : harm (.writeFile (segmentName gen) data) d d') : Move ram d [] ram d'
  /-- A segment is opened. -/
  | opened {ram d ranges startSeq slot epoch n}
      (h : Opens harm A ram d ranges startSeq slot epoch) (hn : SizeRead harm d slot.fileName n) :
      Move ram d [] (ram.opened ranges slot epoch n)
        (Disk.opened d ram ranges startSeq slot epoch)
  /-- A segment is created, and the manifest that names it cannot be written. -/
  | openFailed {ram d ranges startSeq slot epoch d'}
      (h : Opens harm A ram d ranges startSeq slot epoch)
      (hw : harm (.writeFile slot.fileName
        (serialiseManifest (ram.opening ranges (u32 (epoch + 1)))))
        (Disk.create d ram.nextGeneration startSeq) d') :
      Move ram d [] (ram.created ram.nextGeneration) d'
  /-- An event is logged. -/
  | logged {ram d e old} (h : Loggable cfg ram e) (hopen : ram.activeSegmentBytes ≠ 0)
      (hA : A (.append ram.activeGeneration ram.activeSegmentBytes e.encode.length) d)
      (hold : d.lookup (segmentName ram.activeGeneration) = some old) :
      Move ram d [e] (ram.logged e) (d.insert (segmentName ram.activeGeneration)
        (overwrite old ram.activeSegmentBytes e.encode))
  /-- The write of an event fails. -/
  | logFailed {ram d e d'} (h : Loggable cfg ram e) (hopen : ram.activeSegmentBytes ≠ 0)
      (hA : A (.append ram.activeGeneration ram.activeSegmentBytes e.encode.length) d)
      (hw : harm (.writeAt (segmentName ram.activeGeneration) ram.activeSegmentBytes
        e.encode) d d') :
      Move ram d [] ram d'
  /-- A compaction takes effect, the rotation before it included. -/
  | compacted {ram₀ d₀ plan ram d idx parent input live out slot epoch n ram' d'}
      (h : Compacts cfg harm A ram₀ d₀ plan ram d idx parent input live out)
      (ht : ram.Targets harm d slot epoch) (hn : SizeRead harm d slot.fileName n)
      (hA : A (.publish epoch (ram.compactionAt 0 idx parent input out)) (Disk.writeAll d out))
      (hr : Removed harm input.gens
        ((ram.wroteAll out).published slot
          (ram.compactionAt (u32 (epoch + 1)) idx parent input out) n)
        (Disk.publish (Disk.writeAll d out) slot
          (ram.compactionAt (u32 (epoch + 1)) idx parent input out)) ram' d') :
      Move ram₀ d₀ [] ((ram'.forgetInput input).moveRecords input
        (out.flatMap OutputSeg.locations)) d'
  /-- The output of a compaction is written, and the manifest that names it cannot be. -/
  | compactFailed {ram₀ d₀ plan ram d idx parent input live out slot epoch d'}
      (h : Compacts cfg harm A ram₀ d₀ plan ram d idx parent input live out)
      (ht : ram.Targets harm d slot epoch)
      (hA : A (.publish epoch (ram.compactionAt 0 idx parent input out)) (Disk.writeAll d out))
      (hw : harm (.writeFile slot.fileName (serialiseManifest
        (ram.compactionAt (u32 (epoch + 1)) idx parent input out))) (Disk.writeAll d out) d') :
      Move ram₀ d₀ [] (ram.wroteAll out) d'

/-- A sequence of moves, with the events it logs. -/
inductive Moves (ram₀ : Ram) (d₀ : Disk) : List LogEvent → Ram → Disk → Prop
  | refl : Moves ram₀ d₀ [] ram₀ d₀
  | step {evs evs' ram d ram' d'} (h : Moves ram₀ d₀ evs ram d)
      (hm : Move cfg harm A ram d evs' ram' d') : Moves ram₀ d₀ (evs ++ evs') ram' d'

end

namespace Moves

variable {cfg : AppendLogConfig} {harm : FsCall → Disk → Disk → Prop}
  {A : StoreMark → Disk → Prop} {ram₀ ram ram' : Ram} {d₀ d d' : Disk} {evs evs' : List LogEvent}

/-- A move that logs nothing. -/
lemma quiet (h : Moves cfg harm A ram₀ d₀ evs ram d) (hm : Move cfg harm A ram d [] ram' d') :
    Moves cfg harm A ram₀ d₀ evs ram' d' := by
  have := h.step hm
  rwa [List.append_nil] at this

lemma trans (h : Moves cfg harm A ram₀ d₀ evs ram d) (h' : Moves cfg harm A ram d evs' ram' d') :
    Moves cfg harm A ram₀ d₀ (evs ++ evs') ram' d' := by
  induction h' with
  | refl => rwa [List.append_nil]
  | step _ hm ih =>
    rw [← List.append_assoc]
    exact ih.step hm

/-- What one move preserves, a sequence preserves; `P` may speak about the events logged so
far. -/
lemma invariant {P : List LogEvent → Ram → Disk → Prop}
    (hstep : ∀ evs ram d evs' ram' d', P evs ram d → Move cfg harm A ram d evs' ram' d' →
      P (evs ++ evs') ram' d')
    (h : Moves cfg harm A ram₀ d₀ evs ram d) (h0 : P [] ram₀ d₀) : P evs ram d := by
  induction h with
  | refl => exact h0
  | step _ hm ih => exact hstep _ _ _ _ _ _ ih hm

end Moves

/-! ## Removing the input -/

namespace Removed

variable {harm : FsCall → Disk → Disk → Prop} {gens : List ℕ} {ram ram' : Ram} {d d' : Disk}

lemma core (h : Removed harm gens ram d ram' d') : ram'.core = ram.core := by
  induction h with
  | nil => rfl
  | gone _ ih => exact ih.trans (core_dropSegment ..)
  | kept _ _ ih => exact ih

lemma lookup (h : Removed harm gens ram d ram' d') {name : FileName}
    (hn : ∀ g ∈ gens, name ≠ segmentName g) : d'.lookup name = d.lookup name := by
  induction h with
  | nil => rfl
  | gone _ ih =>
    rw [ih fun g hg => hn g (List.mem_cons_of_mem _ hg),
      AList.lookup_erase_ne (hn _ (List.mem_cons_self ..))]
  | kept _ _ ih => exact ih fun g hg => hn g (List.mem_cons_of_mem _ hg)

lemma sealedBytes (h : Removed harm gens ram d ram' d') {g : ℕ} (hg : g ∉ gens) :
    ram'.sealedSegmentBytes g = ram.sealedSegmentBytes g := by
  induction h with
  | nil => rfl
  | gone _ ih =>
    rw [ih fun hm => hg (List.mem_cons_of_mem _ hm)]
    exact Function.update_of_ne (fun he => hg (by rw [he]; exact List.mem_cons_self ..)) _ _
  | kept _ _ ih => exact ih fun hm => hg (List.mem_cons_of_mem _ hm)

end Removed

/-- The state in which a compaction reads its input is reached by moves. -/
lemma Prepared.moves {cfg : AppendLogConfig} {harm : FsCall → Disk → Disk → Prop}
    {A : StoreMark → Disk → Prop} {ram₀ ram : Ram} {d₀ d : Disk} {plan : CompactionPlan}
    (h : Prepared cfg harm A ram₀ d₀ plan ram d) : Moves cfg harm A ram₀ d₀ [] ram d := by
  cases h with
  | asIs => exact .refl
  | rotated _ ho hn => exact (Moves.refl.quiet .noteSealed).quiet (.opened ho hn)

/-! ## The sequences of the live records -/

/-- The sequences of the live records after an event. -/
def LogEvent.seqs (l : List ℕ) : LogEvent → List ℕ
  | .enqueue sequence _ => l ++ [sequence]
  | .rewrite .. => l
  | .pop _ => l.tail

lemma seqs_relocate (ram : Ram) (sequence offset n : ℕ) :
    (ram.relocate sequence offset n).seqs = ram.seqs := by
  have h : ∀ l : List SegmentRecord,
      (((replaceRecord ⟨sequence, ram.activeGeneration, offset, n⟩ l).getD l).map
        (·.sequence)) = l.map (·.sequence) := by
    intro l
    cases hr : replaceRecord ⟨sequence, ram.activeGeneration, offset, n⟩ l with
    | none => rfl
    | some l' => exact QueueLog.map_key_replaceFirst hr
  exact h ram.records

lemma seqs_moveRecords (ram : Ram) (input : CompactionRange) (reps : List SegmentRecord) :
    (ram.moveRecords input reps).seqs = ram.seqs := by
  rw [Ram.seqs, Ram.moveRecords, List.map_map, Ram.seqs]
  refine List.map_congr_left fun r _ => ?_
  simp only [Function.comp]
  split
  · cases hf : reps.find? fun rep => rep.sequence = r.sequence with
    | none => rfl
    | some rep => simpa using List.find?_some hf
  · rfl

lemma seqs_logged (ram : Ram) (e : LogEvent) : (ram.logged e).seqs = e.seqs ram.seqs := by
  cases e with
  | enqueue sequence payload => exact List.map_append
  | rewrite sequence payload => exact seqs_relocate _ _ _ _
  | pop sequence => exact List.map_tail

lemma Prepared.seqs {cfg : AppendLogConfig} {harm : FsCall → Disk → Disk → Prop}
    {A : StoreMark → Disk → Prop} {ram₀ ram : Ram} {d₀ d : Disk} {plan : CompactionPlan}
    (h : Prepared cfg harm A ram₀ d₀ plan ram d) : ram.seqs = ram₀.seqs := by
  cases h <;> rfl

/-- What moves do to the sequences depends on the events alone. -/
lemma Move.seqs {cfg : AppendLogConfig} {harm : FsCall → Disk → Disk → Prop}
    {A : StoreMark → Disk → Prop} {ram ram' : Ram} {d d' : Disk} {evs : List LogEvent}
    (h : Move cfg harm A ram d evs ram' d') : ram'.seqs = evs.foldl LogEvent.seqs ram.seqs := by
  cases h with
  | logged => exact seqs_logged ..
  | compacted h ht hn hA hr =>
    rw [seqs_moveRecords]
    have hr' := (SameCore.of_core hr.core).records
    have hw := fun ram₁ out => (SameCore.of_core (core_wroteAll ram₁ out)).records
    exact (congrArg (List.map _) (hr'.trans (hw ..))).trans h.prepared.seqs
  | compactFailed h =>
    have hw := fun ram₁ out => (SameCore.of_core (core_wroteAll ram₁ out)).records
    exact (congrArg (List.map _) (hw ..)).trans h.prepared.seqs
  | _ => rfl

lemma Moves.seqs {cfg : AppendLogConfig} {harm : FsCall → Disk → Disk → Prop}
    {A : StoreMark → Disk → Prop} {ram₀ ram : Ram} {d₀ d : Disk} {evs : List LogEvent}
    (h : Moves cfg harm A ram₀ d₀ evs ram d) : ram.seqs = evs.foldl LogEvent.seqs ram₀.seqs := by
  induction h with
  | refl => rfl
  | step _ hm ih => rw [List.foldl_append, ← ih, hm.seqs]

/-- Sequences stay below the one that `commitEnqueue` refuses. -/
lemma Moves.seqs_lt {cfg : AppendLogConfig} {harm : FsCall → Disk → Disk → Prop}
    {A : StoreMark → Disk → Prop} {ram₀ ram : Ram} {d₀ d : Disk} {evs : List LogEvent}
    (h : Moves cfg harm A ram₀ d₀ evs ram d) (h0 : ∀ s ∈ ram₀.seqs, s < 2 ^ 32 - 1) :
    ∀ s ∈ ram.seqs, s < 2 ^ 32 - 1 := by
  induction h with
  | refl => exact h0
  | step _ hm ih =>
    cases hm with
    | @logged e old hl =>
      intro s hs
      rw [seqs_logged] at hs
      cases e with
      | enqueue sequence payload =>
        rcases List.mem_append.1 hs with hs | hs
        · exact ih s hs
        · rw [List.mem_singleton.1 hs]
          exact hl.1
      | rewrite sequence payload => exact ih s hs
      | pop sequence => exact ih s (List.mem_of_mem_tail hs)
    | compacted h ht hn hA hr =>
      rw [Move.seqs (.compacted h ht hn hA hr)]
      exact ih
    | compactFailed h ht hA hw =>
      rw [Move.seqs (.compactFailed h ht hA hw)]
      exact ih
    | _ => exact ih

/-- The first sequence of an empty queue is fixed by the mount. -/
lemma Move.nextSequence {cfg : AppendLogConfig} {harm : FsCall → Disk → Disk → Prop}
    {A : StoreMark → Disk → Prop} {ram ram' : Ram} {d d' : Disk} {evs : List LogEvent}
    (h : Move cfg harm A ram d evs ram' d') : ram'.nextSequence = ram.nextSequence := by
  have hwrote := fun (ram₁ : Ram) out => (SameCore.of_core (core_wroteAll ram₁ out)).sequence
  have hprep : ∀ {ram₀ d₀ plan ram d}, Prepared cfg harm A ram₀ d₀ plan ram d →
      ram.nextSequence = ram₀.nextSequence := fun h => by cases h <;> rfl
  cases h with
  | @logged e => cases e <;> rfl
  | compacted h _ _ _ hr =>
    exact ((SameCore.of_core hr.core).sequence.trans (hwrote _ _)).trans (hprep h.prepared)
  | compactFailed h => exact (hwrote _ _).trans (hprep h.prepared)
  | _ => rfl

lemma Moves.nextSequence {cfg : AppendLogConfig} {harm : FsCall → Disk → Disk → Prop}
    {A : StoreMark → Disk → Prop} {ram₀ ram : Ram} {d₀ d : Disk} {evs : List LogEvent}
    (h : Moves cfg harm A ram₀ d₀ evs ram d) : ram.nextSequence = ram₀.nextSequence := by
  induction h with
  | refl => rfl
  | step _ hm ih => exact hm.nextSequence.trans ih

/-- A mounted object stays mounted. -/
lemma Move.mounted {cfg : AppendLogConfig} {harm : FsCall → Disk → Disk → Prop}
    {A : StoreMark → Disk → Prop} {ram ram' : Ram} {d d' : Disk} {evs : List LogEvent}
    (h : Move cfg harm A ram d evs ram' d') : ram'.mounted = ram.mounted := by
  have hwrote := fun (ram₁ : Ram) out => (SameCore.of_core (core_wroteAll ram₁ out)).mounted
  have hprep : ∀ {ram₀ d₀ plan ram d}, Prepared cfg harm A ram₀ d₀ plan ram d →
      ram.mounted = ram₀.mounted := fun h => by cases h <;> rfl
  cases h with
  | @logged e => cases e <;> rfl
  | compacted h _ _ _ hr =>
    exact ((SameCore.of_core hr.core).mounted.trans (hwrote _ _)).trans (hprep h.prepared)
  | compactFailed h => exact (hwrote _ _).trans (hprep h.prepared)
  | _ => rfl

lemma Moves.mounted {cfg : AppendLogConfig} {harm : FsCall → Disk → Disk → Prop}
    {A : StoreMark → Disk → Prop} {ram₀ ram : Ram} {d₀ d : Disk} {evs : List LogEvent}
    (h : Moves cfg harm A ram₀ d₀ evs ram d) : ram.mounted = ram₀.mounted := by
  induction h with
  | refl => rfl
  | step _ hm ih => exact hm.mounted.trans ih

end Pqueue
