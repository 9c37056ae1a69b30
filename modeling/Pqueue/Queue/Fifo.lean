import Pqueue.Queue.Refinement
import Pqueue.Store.Invariant
import Pqueue.Store.Trial

/-!
# Runs of a queue are runs of a list

`fifo_refinement` follows a queue object from an empty directory: what its operations answer, the
abstract queue answers too, and at the end the object shows the list of the abstract queue.
-/

namespace Pqueue

open Effect LittleEndian

/-! ## Runs -/

/-- An operation and what it delivered. -/
abbrev QueueEvent : Type := Σ op : QueueOp, Except Status op.Val

/-- The states of one object that sequences of operations lead to from an empty directory, with
what the operations delivered. -/
inductive QueueRun (env : Env) (cfg : QueueConfig) (harm : FsCall → Disk → Disk → Prop)
    (A : StoreMark → Disk → Prop) : List QueueEvent → QueueState → World → Prop
  /-- The object is constructed. -/
  | start {lockContents w} (h : w.disk = ∅) :
      QueueRun env cfg harm A [] { lockContents := lockContents } w
  /-- An operation is carried out, or fails. -/
  | step {trace s w op r s' w'} (h : QueueRun env cfg harm A trace s w)
      (he : Executes env harm A (op.method cfg) s w r s' w') :
      QueueRun env cfg harm A (trace ++ [⟨op, r⟩]) s' w'

/-- The runs of the abstract queue. -/
inductive FifoRun (policy : FullQueuePolicy) : List QueueEvent → List (ℕ × Bytes) → Prop
  | start : FifoRun policy [] []
  | step {trace L op r L'} (h : FifoRun policy trace L) (hs : FifoStep policy op L r L') :
      FifoRun policy (trace ++ [⟨op, r⟩]) L'

/-- The object shows the list: sequences follow one another, and each record is read back. -/
structure Shows (env : Env) (cfg : QueueConfig) (s : QueueState) (w : World)
    (L : List (ℕ × Bytes)) : Prop where
  index : s.store.records.map (·.sequence) = L.map Prod.fst
  contiguous : ∃ head, L.map Prod.fst = List.range' head L.length
  read : ∀ (i : ℕ) seq data, L[i]? = some (seq, data) →
    Prog.run (handle env) (Store.readRecord cfg.store seq s.store) w = some ((.ok data, s.store), w)

/-- No 32-bit generation, offset or segment size wraps at a marked point. -/
def NoOffsetWrap (mk : StoreMark) (_ : Disk) : Prop := OffsetsFit mk

instance (mk : StoreMark) (d : Disk) : Decidable (NoOffsetWrap mk d) :=
  inferInstanceAs (Decidable (OffsetsFit mk))

section

variable {env : Env} {cfg : QueueConfig} {trace : List QueueEvent} {s : QueueState} {w : World}

lemma Holds.shows {L : List (ℕ × Bytes)} (h : Holds cfg.store s.store w.disk L) :
    Shows env cfg s w L where
  index := h.keys.symm
  contiguous := h.contiguous
  read _ _ _ hi := h.run_readRecord hi

/-- A run of the object is one of the abstract queue. -/
lemma QueueRun.holds {harm : FsCall → Disk → Disk → Prop} {A : StoreMark → Disk → Prop}
    (hd : Damaging harm) (hA : ∀ mk d, A mk d → OffsetsFit mk)
    (h : QueueRun env cfg harm A trace s w) :
    ∃ L, FifoRun cfg.fullQueuePolicy trace L ∧ Holds cfg.store s.store w.disk L := by
  induction h with
  | start hw => exact ⟨[], .start, .start hw⟩
  | @step trace s w op r s' w' _ he ih =>
    obtain ⟨L, hrun, hL⟩ := ih
    obtain ⟨L', hL', hstep⟩ := (Queue.wp_method (backs_holds hd hA) hL op).sound he
    exact ⟨L', .step hrun hstep, hL'⟩

/-- **FIFO refinement.**  Whatever calls fail, a run in which no offset, segment size or generation
wraps is a run of the abstract queue, and the object shows its list. -/
theorem fifo_refinement (h : QueueRun env cfg damage NoOffsetWrap trace s w) :
    ∃ L, FifoRun cfg.fullQueuePolicy trace L ∧ Shows env cfg s w L := by
  obtain ⟨L, hrun, hL⟩ := h.holds (fun _ _ _ => id) fun _ _ => id
  exact ⟨L, hrun, hL.shows⟩

end

/-! ## Runs that exist -/

section Exhibit

variable {env : Env} {cfg : QueueConfig} {harm : FsCall → Disk → Disk → Prop}
  {A : StoreMark → Disk → Prop} {s : QueueState} {w : World} {α : Type}

/-- The lock is taken on a directory without lock file, and given back. -/
lemma may_scopedLock (hback : env.backend = .posix) {m : QueueM α}
    {Q : Act.Post QueueState Status World α} (hheld : s.lockHeld = false)
    (h : May env harm A (Store.ensureMounted cfg.store) (fun r ram' w' => r = .ok () ∧
      w'.disk.lookup kLockFileName = none ∧ May env harm A m (fun r s' w'' =>
        w''.disk.lookup kLockFileName = some s.lockContents ∧ s'.lockHeld = true ∧
          s'.lockContents = s.lockContents ∧
            Q r { s' with lockHeld := false } (w''.setDisk (w''.disk.erase kLockFileName)))
        { s with store := ram', lockHeld := true }
        (w'.setDisk (w'.disk.insert kLockFileName s.lockContents)).tick) s.store w) :
    May env harm A (Queue.scopedLock cfg m) Q s w := by
  refine Act.may_bind (Act.may_get_bind ?_)
  rw [hheld, if_neg Bool.false_ne_true]
  refine Act.may_get_bind (Act.may_bind (Act.may_attempt (Act.may_zoom (Act.may_bind (h.mono ?_)))))
  rintro _ ram' w' ⟨rfl, hnone, hm⟩
  have hacquire : handle env (.tryAcquireLockFile kLockFileName s.lockContents) w' =
      (.ok (), (w'.setDisk (w'.disk.insert kLockFileName s.lockContents)).tick) := by
    simp only [handle, acquireLock, hback, hnone]
    rfl
  refine may_call hacquire ⟨_, _, _, ⟨rfl, rfl⟩, Act.may_bind (Act.may_attempt (hm.mono ?_))⟩
  rintro r s' w'' ⟨hlock, hheld', hcontents, hQ⟩
  refine Act.may_bind (Act.may_get_bind ?_)
  rw [hheld', if_pos rfl]
  have hrelease : handle env (.releaseLockFile kLockFileName s'.lockContents) w'' =
      (.ok (), w''.setDisk (w''.disk.erase kLockFileName)) := by
    simp only [handle, releaseLock, hback, hlock, hcontents]
    exact if_neg (not_not.2 rfl)
  refine Act.may_bind (Act.may_attempt (Act.may_zoom (may_call hrelease ?_)))
  refine ⟨_, _, _, ⟨rfl, rfl⟩, ?_⟩
  cases r with
  | ok a => exact Act.may_pure hQ
  | error e => exact Act.may_fail hQ

/-- An enqueue under `RejectNewest`, on a store that accepts the record. -/
lemma may_queueEnqueue (hback : env.backend = .posix) {record : Bytes} {P : Ram → Disk → Prop}
    (hpolicy : cfg.fullQueuePolicy = .rejectNewest) (hlen : record.length ≤ cfg.recordSizeBytes)
    (hheld : s.lockHeld = false) (hP : ∀ ram d, P ram d → P ram (d.erase kLockFileName))
    (h : May env harm A (Store.ensureMounted cfg.store) (fun r ram' w' => r = .ok () ∧
      ram'.mounted = true ∧ w'.disk.lookup kLockFileName = none ∧
        May env harm A (Store.commitEnqueue cfg.store cfg.fuel ram'.index.tail record)
          (fun r ram'' w'' => r = .ok () ∧ P ram'' w''.disk ∧
            w''.disk.lookup kLockFileName = some s.lockContents) ram'
          (w'.setDisk (w'.disk.insert kLockFileName s.lockContents)).tick) s.store w) :
    May env harm A ((QueueOp.enqueue record).method cfg) (fun r s' w' => r = .ok () ∧
      P s'.store w'.disk ∧ s'.lockHeld = false ∧ w'.disk.lookup kLockFileName = none) s w := by
  refine may_scopedLock hback hheld (h.mono ?_)
  rintro _ ram' w' ⟨rfl, hm, hnone, hcommit⟩
  refine ⟨rfl, hnone,
    Act.may_bind (Act.may_bind (Act.may_zoom (Act.may_bind (Act.may_get_bind ?_))))⟩
  rw [Store.when, if_neg (not_not.2 hm)]
  refine Act.may_pure (Act.may_get_bind (Act.may_pure ⟨_, _, _, ⟨rfl, rfl⟩, ?_⟩))
  simp only [Act.andThen]
  rw [if_neg (not_lt.2 hlen)]
  refine Act.may_get_bind (Act.may_bind (Act.may_get_bind ?_))
  rw [if_neg (by simp [hpolicy])]
  refine Act.may_pure (Act.may_bind ?_)
  have hdone : ∀ count, May env harm A (Queue.enqueueEvicting cfg ram'.index.tail record count)
      (fun r s' w'' => r = .ok () ∧ s'.lockHeld = true ∧ s'.lockContents = s.lockContents ∧
        P s'.store w''.disk ∧ w''.disk.lookup kLockFileName = some s.lockContents)
      { store := ram', index := ram'.index, lockContents := s.lockContents, lockHeld := true }
      (w'.setDisk (w'.disk.insert kLockFileName s.lockContents)).tick := by
    intro count
    cases count with
    | zero =>
      rw [Queue.enqueueEvicting]
      exact Act.may_zoom (hcommit.mono fun _ _ _ h => ⟨h.1, rfl, rfl, h.2.1, h.2.2⟩)
    | succ count =>
      refine Act.may_bind (Act.may_attempt (Act.may_zoom (hcommit.mono ?_)))
      rintro _ ram'' w'' ⟨rfl, hp, hl⟩
      exact Act.may_pure ⟨rfl, rfl, rfl, hp, hl⟩
  refine (hdone _).mono ?_
  rintro _ s' w'' ⟨rfl, hheld', hcontents, hp, hl⟩
  exact ⟨_, _, _, ⟨rfl, rfl⟩, hl, hheld', hcontents, rfl, hP _ _ hp, trivial, AList.lookup_erase ..⟩

end Exhibit

/-- A queue without budgets, for records of up to 2 GiB. -/
def hugeQueue : QueueConfig where
  store := hugeSegments
  recordSizeBytes := 2 ^ 31
  fuel := 1

/-- The object with one segment, between two operations. -/
structure OneSegment (s : QueueState) (d : Disk) (bytes : ℕ) (data : Bytes)
    (rs : List SegmentRecord) : Prop where
  tail : TailIs s.store d 1 bytes data rs
  lockHeld : s.lockHeld = false
  unlocked : d.lookup kLockFileName = none

lemma TailIs.erase_lock {ram : Ram} {d : Disk} {gen bytes : ℕ} {data : Bytes}
    {rs : List SegmentRecord} (h : TailIs ram d gen bytes data rs) :
    TailIs ram (d.erase kLockFileName) gen bytes data rs :=
  { h with file := (AList.lookup_erase_ne (segmentName_ne_lock gen)).trans h.file }

lemma TailIs.insert_lock {ram : Ram} {d : Disk} {gen bytes : ℕ} {data contents : Bytes}
    {rs : List SegmentRecord} (h : TailIs ram d gen bytes data rs) :
    TailIs ram (d.insert kLockFileName contents) gen bytes data rs :=
  { h with file := (AList.lookup_insert_ne (segmentName_ne_lock gen)).trans h.file }

section HugeQueue

variable {harm : FsCall → Disk → Disk → Prop} {A : StoreMark → Disk → Prop} {record : Bytes}

/-- The first enqueue of a record. -/
lemma may_queueEnqueue_first (hok : PayloadOk hugeSegments record) (hgen : ∀ d, A (.allocate 1) d)
    (hpub : ∀ d, A (.publish 0 ⟨0, 2, [], 1⟩) d)
    (hA : ∀ d, A (.append 1 kSegmentHeaderBytes (kEnqueueOverheadBytes + record.length)) d) :
    May (plainEnv .posix) harm A ((QueueOp.enqueue record).method hugeQueue) (fun r s' w' =>
      r = .ok () ∧ OneSegment s' w'.disk
        (u32 (kSegmentHeaderBytes + u32 (kEnqueueOverheadBytes + record.length)))
        (overwrite (serializeSegmentHeader 1 0) kSegmentHeaderBytes
          (serializeEnqueueEvent 0 record))
        [⟨0, 1, kSegmentHeaderBytes + kEnqueueHeaderBytes, u32 record.length⟩]) {}
          ⟨∅, 0, false⟩ := by
  refine May.mono (may_queueEnqueue (P := fun ram d => TailIs ram d 1 _ _ _) rfl rfl hok.1 rfl
    (fun _ _ h => h.erase_lock) ?_) fun r s' w' ⟨hr, ht, hh, hl⟩ => ⟨hr, ht, hh, hl⟩
  refine (may_mount_empty rfl).mono ?_
  rintro _ ram' w' ⟨rfl, hb, hnext, hseq, hslot, hw⟩
  have htail : ram'.index.tail = 0 := by
    rw [Ram.index, hb.records]
    exact hseq
  refine ⟨rfl, hb.mounted, by rw [hw]; rfl, ?_⟩
  rw [htail]
  refine (may_commit_first hb hnext hslot (fun s => ?_) hok rfl rfl (by decide) hgen
    hpub hA).mono ?_
  · refine (AList.lookup_insert_ne (slot_ne_lock s)).trans ?_
    rw [hw]
    rfl
  · rintro _ ram'' w'' ⟨hr, ht, hl⟩
    exact ⟨hr, ht, hl.trans (AList.lookup_insert _)⟩

/-- Another one. -/
lemma may_queueEnqueue_next {s : QueueState} {w : World} {bytes tail : ℕ} {data : Bytes}
    {rs : List SegmentRecord} {r : SegmentRecord} (h : OneSegment s w.disk bytes data (rs ++ [r]))
    (htail : u32 (r.sequence + 1) = tail) (hok : PayloadOk hugeSegments record) (hopen : bytes ≠ 0)
    (hroom : u32 (bytes + u32 (kEnqueueOverheadBytes + u32 record.length)) ≤ 2 ^ 32 - 1)
    (hseq : tail ≠ 2 ^ 32 - 1)
    (hA : ∀ d, A (.append 1 bytes (kEnqueueOverheadBytes + record.length)) d) :
    May (plainEnv .posix) harm A ((QueueOp.enqueue record).method hugeQueue) (fun r' s' w' =>
      r' = .ok () ∧ OneSegment s' w'.disk
        (u32 (bytes + u32 (kEnqueueOverheadBytes + record.length)))
        (overwrite data bytes (serializeEnqueueEvent tail record))
        (rs ++ [r] ++ [⟨tail, 1, u32 (bytes + kEnqueueHeaderBytes), u32 record.length⟩])) s w := by
  refine May.mono (may_queueEnqueue (P := fun ram d => TailIs ram d 1 _ _ _) rfl rfl
    hok.1 h.lockHeld
    (fun _ _ h => h.erase_lock) ?_) fun r s' w' ⟨hr, ht, hh, hl⟩ => ⟨hr, ht, hh, hl⟩
  refine Act.may_get_bind ?_
  rw [Store.when, if_neg (not_not.2 h.tail.mounted)]
  refine Act.may_pure ⟨rfl, h.tail.mounted, h.unlocked, ?_⟩
  rw [h.tail.index_tail, htail]
  refine (may_commit h.tail.insert_lock hok rfl rfl hopen hroom hseq (hA _)).mono ?_
  rintro _ ram'' w'' ⟨hr, ht, hsame⟩
  exact ⟨hr, ht, (hsame _ (segmentName_ne_lock 1).symm).trans (AList.lookup_insert _)⟩

end HugeQueue

/-! ### Calls that fail -/

/-- A queue with room for two small records in a segment. -/
def smallQueue : QueueConfig where
  store := smallSegments
  recordSizeBytes := 100
  fuel := 1

/-- The operations tried one after the other, each with the calls of it that fail. -/
def queueTrial (cfg : QueueConfig) (ops : List (QueueOp × (FsCall → World → Option World))) :
    Option (List QueueEvent × QueueState × World) :=
  ops.foldlM (fun (trace, s, w) (op, fails) =>
      (tryMethod (plainEnv .posix) fails NoOffsetWrap (op.method cfg) s w).map fun ((r, s'), w') =>
        (trace ++ [⟨op, r⟩], s', w'))
    ([], {}, ⟨∅, 0, false⟩)

/-- They are a run. -/
lemma queueRun_of_trial {cfg : QueueConfig} {harm : FsCall → Disk → Disk → Prop}
    {ops : List (QueueOp × (FsCall → World → Option World))}
    (hf : ∀ op ∈ ops, ∀ c w w', op.2 c w = some w' → harm c w.disk w'.disk)
    {trace : List QueueEvent} {s : QueueState} {w : World}
    (h : queueTrial cfg ops = some (trace, s, w)) :
    QueueRun (plainEnv .posix) cfg harm NoOffsetWrap trace s w := by
  refine foldlM_invariant (P := fun x : List QueueEvent × QueueState × World =>
    QueueRun (plainEnv .posix) cfg harm NoOffsetWrap x.1 x.2.1 x.2.2) ?_ (.start rfl) h
  rintro ⟨trace, s, w⟩ ⟨op, fails⟩ hmem x hx hstep
  obtain ⟨⟨⟨r, s'⟩, w'⟩, ht, rfl⟩ := Option.map_eq_some_iff.1 hstep
  exact hx.step (executes_of_tryMethod (hf _ hmem) ht)

/-- The third enqueue stops in the header of the segment that it opens; the fourth opens one, and
the front is popped. -/
theorem fifo_refinement_torn : ∃ trace s w L,
    queueTrial smallQueue [(.enqueue [7], allComplete), (.enqueue [8], allComplete),
      (.enqueue [9], writesStop 3), (.enqueue [10], allComplete), (.pop, allComplete)] =
        some (trace, s, w) ∧
      trace.map (fun event => event.2.toBool) = [true, true, false, true, true] ∧
      FifoRun .rejectNewest trace L ∧ Shows (plainEnv .posix) smallQueue s w L ∧
        L.map Prod.fst = [1, 2] := by
  have hrun : (queueTrial smallQueue [(.enqueue [7], allComplete), (.enqueue [8], allComplete),
      (.enqueue [9], writesStop 3), (.enqueue [10], allComplete), (.pop, allComplete)]).map
        (fun (trace, s, _) => (trace.map fun event => event.2.toBool,
          s.store.records.map (·.sequence))) = some ([true, true, false, true, true], [1, 2]) := by
    decide +kernel
  obtain ⟨⟨trace, s, w⟩, ht, hx⟩ := Option.map_eq_some_iff.1 hrun
  obtain ⟨hout, hseqs⟩ := Prod.mk.inj hx
  have hdone : QueueRun (plainEnv .posix) smallQueue damage NoOffsetWrap trace s w := by
    refine queueRun_of_trial ?_ ht
    simp only [List.mem_cons, List.not_mem_nil, or_false]
    rintro op (rfl | rfl | rfl | rfl | rfl) c w w' hw
    · cases hw
    · cases hw
    · exact damaging_partialWrite _ _ _ (partialWrite_of_torn hw)
    · cases hw
    · cases hw
  obtain ⟨L, hfifo, hshow⟩ := fifo_refinement hdone
  exact ⟨trace, s, w, L, ht, hout, hfifo, hshow, hshow.index ▸ hseqs⟩

/-! ### A record that is overwritten -/

/-- The abstract queue appends what `RejectNewest` accepts. -/
lemma FifoRun.enqueued {trace : List QueueEvent} {record : Bytes} {v : Unit} {L : List (ℕ × Bytes)}
    (h : FifoRun .rejectNewest (trace ++ [⟨.enqueue record, .ok v⟩]) L) :
    ∃ L₀ seq, FifoRun .rejectNewest trace L₀ ∧ L = L₀ ++ [(seq, record)] := by
  generalize ht : trace ++ [⟨.enqueue record, .ok v⟩] = trace' at h
  cases h with
  | start => exact absurd ht (List.append_ne_nil_of_right_ne_nil _ (List.cons_ne_nil _ _))
  | @step trace' L₀ op r L' h hs =>
    obtain ⟨rfl, hlast⟩ := List.append_inj' ht rfl
    obtain ⟨rfl, hr⟩ := Sigma.mk.inj (List.cons.inj hlast).1
    obtain rfl := eq_of_heq hr
    obtain ⟨kept, seq, ⟨evicted, rfl, hnone⟩, rfl⟩ := hs
    rw [hnone rfl, List.nil_append] at h
    exact ⟨kept, seq, h, rfl⟩

lemma FifoRun.nil {L : List (ℕ × Bytes)} (h : FifoRun .rejectNewest [] L) : L = [] := by
  generalize ht : ([] : List QueueEvent) = trace at h
  cases h with
  | start => rfl
  | step => exact absurd ht.symm (List.append_ne_nil_of_right_ne_nil _ (List.cons_ne_nil _ _))

/-- A record that is read back is what the file holds at its place. -/
lemma Shows.file {env : Env} {cfg : QueueConfig} {s : QueueState} {w : World}
    {L : List (ℕ × Bytes)} {sr : SegmentRecord} {rs : List SegmentRecord} {seq : ℕ} {data : Bytes}
    (h : Shows env cfg s w ((seq, data) :: L)) (hm : s.store.mounted = true)
    (hrec : s.store.records = sr :: rs) : data = (sr.view w.disk).2 := by
  obtain rfl : sr.sequence = seq := by
    have := h.index
    rw [hrec] at this
    exact (List.cons.inj this).1
  have he : Executes env damage (fun _ _ => True) (Store.readRecord cfg.store sr.sequence) s.store w
      (.ok data) s.store w := executes_of_run (h.read 0 _ _ rfl)
  obtain ⟨-, -, hdata⟩ := (wp_readRecord (J := fun _ => True) (fun _ _ _ => id) trivial hm).sound he
  obtain ⟨front, rest, sr', hrec', -, hget, hview⟩ := hdata data rfl
  obtain ⟨rfl, rfl⟩ := List.cons.inj (hrec.symm.trans hrec')
  rw [Nat.sub_self] at hget
  obtain rfl := Option.some.inj hget
  exact hview

/-- The first byte of what was written. -/
lemma getElem?_overwrite {old data : Bytes} {offset : ℕ} (h : offset ≤ old.length) {b : UInt8}
    {rest : Bytes} (hdata : data = b :: rest) : (overwrite old offset data)[offset]? = some b := by
  subst hdata
  rw [Sited.overwrite_eq h, List.getElem?_append_right (List.length_take_le ..),
    List.length_take,
    Nat.min_eq_left h, Nat.sub_self]
  rfl

/-- **Two records of 2 GiB and a third.**  The second passes the end of the 32-bit offsets; the
third is written into the payload of the first. -/
theorem fifo_refinement_wraps : ∃ trace s w,
    QueueRun (plainEnv .posix) hugeQueue damage (fun _ _ => True) trace s w ∧
      ¬∃ L, FifoRun .rejectNewest trace L ∧ Shows (plainEnv .posix) hugeQueue s w L := by
  obtain ⟨big, hbig⟩ : ∃ b : Bytes, b = List.replicate (2 ^ 31) 0 := ⟨_, rfl⟩
  have hlen : big.length = 2 ^ 31 := by rw [hbig, List.length_replicate]
  have hok : PayloadOk hugeSegments big := ⟨hlen.le, by rw [hlen]; decide⟩
  obtain ⟨data₁, h₁⟩ : ∃ data, May (plainEnv .posix) damage (fun _ _ => True)
      ((QueueOp.enqueue big).method hugeQueue) (fun r s w => r = .ok () ∧
        OneSegment s w.disk (2 ^ 31 + 44) data ([] ++ [⟨0, 1, 36, 2 ^ 31⟩])) {} ⟨∅, 0, false⟩ := by
    have := @may_queueEnqueue_first damage (fun _ _ => True) big hok (fun _ => trivial)
      (fun _ => trivial)
      fun _ => trivial
    rw [hlen] at this
    exact ⟨_, this⟩
  obtain ⟨_, s₁, w₁, he₁, rfl, ht₁⟩ := h₁.executes
  have h₂ : May (plainEnv .posix) damage (fun _ _ => True)
      ((QueueOp.enqueue big).method hugeQueue) (fun r s w => r = .ok () ∧
        OneSegment s w.disk 68 (overwrite data₁ (2 ^ 31 + 44) (serializeEnqueueEvent 1 big))
          ([⟨0, 1, 36, 2 ^ 31⟩] ++ [⟨1, 1, 2 ^ 31 + 60, 2 ^ 31⟩])) s₁ w₁ := by
    have := @may_queueEnqueue_next damage (fun _ _ => True) big s₁ w₁ _ 1 _ _ _ ht₁
      rfl hok (by decide)
      (by rw [hlen]; decide) (by decide) fun _ => trivial
    rw [hlen] at this
    exact this
  obtain ⟨_, s₂, w₂, he₂, rfl, ht₂⟩ := h₂.executes
  have h₃ := @may_queueEnqueue_next damage (fun _ _ => True) [0] s₂ w₂ _ 2 _ _ _ ht₂ rfl
    ⟨by decide, by decide⟩ (by decide) (by decide) (by decide) fun _ => trivial
  obtain ⟨_, s₃, w₃, he₃, rfl, ht₃⟩ := h₃.executes
  refine ⟨_, s₃, w₃, .step (.step (.step (.start rfl) he₁) he₂) he₃, ?_⟩
  rintro ⟨L, hrun, hshow⟩
  obtain ⟨L₂, c, hrun₂, rfl⟩ := hrun.enqueued
  obtain ⟨L₁, b, hrun₁, rfl⟩ := hrun₂.enqueued
  obtain ⟨L₀, a, hrun₀, rfl⟩ := hrun₁.enqueued
  obtain rfl := hrun₀.nil
  -- byte 32 of the first payload is the first byte of the third event
  have hview : big = _ := hshow.file ht₃.tail.mounted ht₃.tail.records
  rw [SegmentRecord.view, ht₃.tail.file] at hview
  have hzero : big[32]? = some 0 := by rw [hbig, List.getElem?_replicate_of_lt (by decide)]
  have hmagic := @getElem?_overwrite (overwrite data₁ (2 ^ 31 + 44) (serializeEnqueueEvent 1 big))
    (serializeEnqueueEvent 2 [0]) 68 ?_ 0x50 _ rfl
  · rw [hview, List.getElem?_take_of_lt (by decide), List.getElem?_drop] at hzero
    have := hmagic.symm.trans hzero
    revert this
    decide
  · rw [overwrite, List.length_append, List.length_append, List.length_append, List.length_take,
      List.length_replicate]
    omega

end Pqueue
