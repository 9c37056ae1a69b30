import Pqueue.Queue.Fifo

/-!
# Stored checksums are not read again

The checksum of an event is looked at by the mount scanner only.  A mounted object reads, compacts
and drops records by the offsets it has in memory, so bytes that change on disk after the mount are
handed out as they are: for no mounted store and no altered event do the stored checksums protect a
reader (`checksums_never_protect`).
-/

namespace Pqueue

open Effect LittleEndian

/-! ## Altered events -/

/-- The record that `readRecord` finds for a sequence. -/
def Ram.located (ram : Ram) (sequence : ℕ) : Option SegmentRecord :=
  match ram.records with
  | [] => none
  | front :: rest =>
    if sequence < front.sequence ∨ sequence ≥ u32 (front.sequence + u32 (front :: rest).length) then
      none
    else (front :: rest)[sequence - front.sequence]?

/-- The event of `r` was changed in its place, and the scanner does not accept it any more. -/
structure AlteredEvent (cfg : AppendLogConfig) (r : SegmentRecord) (d d' : Disk) : Prop where
  others : SameExcept (segmentName r.segmentGeneration) d d'
  inPlace : ∃ old new, d.lookup (segmentName r.segmentGeneration) = some old ∧
    d'.lookup (segmentName r.segmentGeneration) = some new ∧ r.stop ≤ old.length ∧
    new.length = old.length ∧ new.take r.start = old.take r.start ∧
    new.drop r.stop = old.drop r.stop ∧
    ∀ header payload rest, scanStep cfg.maxRecordBytes (new.drop r.start) ≠
      .payloadEvent header payload rest

/-- What the checksums are for: the bytes of the altered record `r` are not read, they are not
given a new checksum by a compaction, and at the front they can be dropped. -/
structure ChecksumsProtect (env : Env) (cfg : QueueConfig) (s : QueueState) (w : World)
    (r : SegmentRecord) : Prop where
  read : ∀ data ram' w', ¬Executes env noHarm (fun _ _ => True)
    (Store.readRecord cfg.store r.sequence) s.store w (.ok data) ram' w'
  compaction : ∀ range, range.Contains r.segmentGeneration → ∀ live ram' w',
    Executes env noHarm (fun _ _ => True) (Store.collectLiveRecords range) s.store w (.ok live)
      ram' w' → ⟨r.sequence, (r.view w.disk).2⟩ ∉ live
  drop : s.store.records.head? = some r → ∀ result s' w',
    Executes env noHarm (fun _ _ => True) (Queue.dropFrontIfCorrupt cfg) s w result s' w' →
      result = .ok ()

section

variable {env : Env} {cfg : AppendLogConfig} {ram : Ram} {r : SegmentRecord} {data : Bytes}

/-- The file of `r` reaches past its event. -/
def Reaches (r : SegmentRecord) (d : Disk) : Prop :=
  ∃ file, d.lookup (segmentName r.segmentGeneration) = some file ∧ r.stop ≤ file.length

lemma AlteredEvent.reaches {d d' : Disk} (h : AlteredEvent cfg r d d') : Reaches r d' := by
  obtain ⟨old, new, -, hnew, hstop, hlen, -⟩ := h.inPlace
  exact ⟨new, hnew, by rw [hlen]; exact hstop⟩

lemma Reaches.lock {d d' : Disk} (h : Reaches r d) (hs : SameExcept kLockFileName d d') :
    Reaches r d' ∧ r.view d' = r.view d := by
  obtain ⟨file, hfile, hle⟩ := h
  have hsame := hs _ (segmentName_ne_lock r.segmentGeneration)
  exact ⟨⟨file, hsame.trans hfile, hle⟩, by rw [SegmentRecord.view, SegmentRecord.view, hsame]⟩

/-! ## Reading -/

variable {harm : FsCall → Disk → Disk → Prop} {A : StoreMark → Disk → Prop} {d : Disk}

lemma reads_lookupRecord {sequence : ℕ} (h : ram.located sequence = some r) :
    Reads env harm A (fun _ => True) (Store.lookupRecord
      (fun front rs => u32 (front.sequence + u32 rs.length)) sequence) (· = r) ram d := by
  unfold Ram.located at h
  unfold Store.lookupRecord
  refine wp_get_bind ?_
  cases hrec : ram.records with
  | nil => simp [hrec] at h
  | cons front rest =>
    rw [hrec] at h
    dsimp only at h ⊢
    split at h
    · simp at h
    · next hin =>
      rw [if_neg hin, h]
      exact reads_pure rfl

/-- What is read is what is on disk now. -/
lemma reads_readRecord {sequence : ℕ} (hm : ram.mounted = true) (h : ram.located sequence = some r)
    (hr : Reaches r d) :
    Reads env noHarm A (fun _ => True) (Store.readRecord cfg sequence)
      (· = (r.view d).2) ram d := by
  refine (reads_ensureMounted hm).bind fun _ _ => (reads_lookupRecord h).bind fun sr hsr => ?_
  subst hsr
  obtain ⟨file, hfile, hle⟩ := hr
  have hread : ∀ w : World, w.disk = d → handle env
      (.readAt (segmentName sr.segmentGeneration) sr.payloadOffset sr.payloadBytes) w =
        (.ok (sr.view d).2, w) := by
    intro w hw
    rw [SegmentRecord.stop] at hle
    have hview : (sr.view d).2 = (file.drop sr.payloadOffset).take sr.payloadBytes := by
      simp [SegmentRecord.view, hfile]
    simp only [handle, hw, hfile]
    rw [if_pos (by omega), hview]
  refine wp_call trivial ?_ ?_ fun st d' hh => hh.elim
  · intro w hw v hv
    rw [hread w hw] at hv ⊢
    obtain rfl := Except.ok.inj hv
    exact ⟨rfl, hw, _, rfl, rfl⟩
  · intro w hw e he
    rw [hread w hw] at he
    cases he

/-! ## Under the lock -/

variable {α : Type} {s : QueueState} {I : Ram → Disk → Prop}

namespace Queue

section

variable {cfg : QueueConfig} (hd : Damaging harm)
  (hlock : ∀ ram d d', I ram d → SameExcept kLockFileName d d' → I ram d')

include hd hlock

/-- A call on the lock file. -/
lemma keeps_lock {c : FsCall} {contents : Bytes}
    (hc : c = .tryAcquireLockFile kLockFileName contents ∨
      c = .releaseLockFile kLockFileName contents) (h : I ram d) :
    Wp env harm A (fun _ => True) (Store.call c) (fun _ ram' d' => I ram' d') ram d := by
  refine wp_call trivial (fun w hw _ _ => hlock _ _ _ h (hw ▸ handle_lock hc w))
    (fun w hw _ _ => hlock _ _ _ h (hw ▸ handle_lock hc w)) fun st d' hh => ?_
  have hdamage := hd _ _ _ hh
  rcases hc with rfl | rfl
  · exact hlock _ _ _ h hdamage
  · exact hlock _ _ _ h hdamage

variable (hm : ∀ ram d, I ram d → ram.mounted = true)

include hm

lemma keeps_acquireLock (h : I s.store d) :
    Wp env harm A (fun _ => True) (acquireLock cfg) (fun _ s' d' => I s'.store d') s d := by
  have hattempts : ∀ (n : ℕ) {s : QueueState} {d : Disk}, I s.store d →
      Wp env harm A (fun _ => True) (acquireAttempts cfg n) (fun _ s' d' => I s'.store d') s d := by
    intro n
    induction n with
    | zero => exact fun h => wp_fail h
    | succ n ih =>
      intro s d h
      refine wp_get_bind (wp_bind (Q := fun _ s' d' => I s'.store d') (wp_attempt (wp_zoom ?_)) ?_
        fun _ _ _ hq => hq)
      · exact (reads_ensureMounted (hm _ _ h)).bind fun _ _ => keeps_lock hd hlock (.inl rfl) h
      · intro st s' d' hq
        cases st with
        | error e =>
          dsimp only
          split
          · exact wp_fail hq
          · exact ih hq
        | ok _ => exact wp_modify hq
  refine wp_get_bind ?_
  split
  · exact wp_pure h
  · exact hattempts _ h

omit hm in
lemma keeps_releaseLock (h : I s.store d) :
    Wp env harm A (fun _ => True) releaseLock (fun r s' d' => r = .ok () ∧ I s'.store d') s d := by
  refine wp_get_bind ?_
  split
  · refine wp_bind (Q := fun r s' d' => (∃ a, r = .ok a) ∧ I s'.store d')
      (wp_attempt (wp_zoom ?_)) (fun _ _ _ hq => wp_modify ⟨rfl, hq.2⟩) fun _ _ _ hq => nomatch hq.1
    exact (keeps_lock hd hlock (.inr rfl) h).mono fun _ _ _ hq => ⟨⟨_, rfl⟩, hq⟩
  · exact wp_pure ⟨rfl, h⟩

/-- What an operation does under the lock it does altogether. -/
lemma keeps_scopedLock {m : QueueM α} {P : Except Status α → Prop} (herr : ∀ st, P (.error st))
    (hbody : ∀ s d, I s.store d →
      Wp env harm A (fun _ => True) m (fun r s' d' => P r ∧ I s'.store d') s d)
    (h : I s.store d) :
    Wp env harm A (fun _ => True) (scopedLock cfg m) (fun r s' d' => P r ∧ I s'.store d') s d := by
  refine wp_bind (keeps_acquireLock hd hlock hm h) ?_ fun e _ _ hq => ⟨herr e, hq⟩
  intro _ s' d' hq
  refine wp_bind (Q := fun r s' d' => ∃ a, r = .ok a ∧ P a ∧ I s'.store d')
    (wp_attempt ((hbody _ _ hq).mono fun r _ _ ht => ⟨r, rfl, ht⟩)) ?_
    fun _ _ _ ⟨_, he, _⟩ => nomatch he
  rintro a s' d' ⟨_, ha, hP, hI⟩
  obtain rfl := Except.ok.inj ha
  refine wp_bind (keeps_releaseLock hd hlock hI) ?_ fun _ _ _ hq => nomatch hq.1
  intro _ s'' d'' hq
  cases a with
  | ok v => exact wp_pure ⟨hP, hq.2⟩
  | error e => exact wp_fail ⟨hP, hq.2⟩

end

end Queue

/-- The front record is not dropped. -/
lemma wp_dropFrontIfCorrupt {cfg : QueueConfig} (hm : s.store.mounted = true)
    (hfront : s.store.records.head? = some r) (hlocated : s.store.located r.sequence = some r)
    (hr : Reaches r d) :
    Wp env noHarm A (fun _ => True) (Queue.dropFrontIfCorrupt cfg)
      (fun result _ _ => result ≠ .ok ()) s d := by
  let I : Ram → Disk → Prop := fun ram d' => ram = s.store ∧ Reaches r d'
  have hlock : ∀ ram d d', I ram d → SameExcept kLockFileName d d' → I ram d' :=
    fun _ _ _ hI hs => ⟨hI.1, (hI.2.lock hs).1⟩
  refine (Queue.keeps_scopedLock (P := fun result => result ≠ .ok ()) damaging_noHarm hlock
    (fun ram d hI => hI.1 ▸ hm) (fun _ => by simp) (fun s' d' hI => ?_) ⟨rfl, hr⟩).mono
    fun _ _ _ hq => hq.1
  refine wp_bind (Q := fun _ s'' d'' => I s''.store d'' ∧ s''.index = s.store.index) ?_ ?_
    fun _ _ _ hq => ⟨by simp, hq.1⟩
  · refine wp_bind (Q := fun result s'' d'' => I s''.store d'' ∧ result = .ok s.store.index)
      (wp_zoom ?_) ?_ (by simp)
    · refine (reads_readIndex (hI.1 ▸ hm)).mono ?_
      rintro result ram' d'' ⟨rfl, rfl, index, rfl, rfl⟩
      exact ⟨hI, by rw [hI.1]⟩
    · intro index s'' d'' hq
      obtain rfl := Except.ok.inj hq.2
      exact wp_modify ⟨hq.1, rfl⟩
  · intro _ s'' d'' hq
    refine wp_get_bind ?_
    split
    · exact wp_fail ⟨by simp, hq.1⟩
    · have hhead : s''.index.head = r.sequence := by
        rw [hq.2, Ram.index]
        cases hrec : s.store.records with
        | nil => simp [hrec] at hfront
        | cons front rest =>
          rw [hrec] at hfront
          obtain rfl := Option.some.inj hfront
          have hlast := List.getLast?_eq_getLast_of_ne_nil (List.cons_ne_nil front rest)
          simp [hlast]
      rw [hhead]
      refine wp_bind (Q := fun st s₃ d₃ => I s₃.store d₃ ∧ ∃ data, st = .ok (.ok data))
        (wp_attempt (wp_zoom ?_)) ?_ (by simp)
      · refine (reads_readRecord (hq.1.1 ▸ hm) (hq.1.1 ▸ hlocated) hq.1.2).mono ?_
        rintro result ram' d₃ ⟨rfl, rfl, data, rfl, -⟩
        exact ⟨hq.1, data, rfl⟩
      · rintro st s₃ d₃ ⟨hI₃, data, hst⟩
        obtain rfl := Except.ok.inj hst
        exact wp_fail ⟨by simp, hI₃⟩

/-! ## Nothing is protected -/

/-- A read that does not fail exists. -/
lemma executes_readRecord {w : World} {sequence : ℕ} (hm : ram.mounted = true)
    (h : ram.located sequence = some r) (hr : Reaches r w.disk) :
    Executes env noHarm (fun _ _ => True) (Store.readRecord cfg sequence) ram w
      (.ok (r.view w.disk).2) ram w := by
  obtain ⟨file, hfile, hle⟩ := hr
  have hstop : r.payloadOffset + r.payloadBytes ≤ file.length := by
    rw [SegmentRecord.stop] at hle
    omega
  have hw : Wpc env (fun _ _ => True) False (fun _ => True) (Store.readRecord cfg sequence)
      (fun a ram' w' => a = .ok (r.view w.disk).2 ∧ ram' = ram ∧ w' = w) ram w := by
    rw [Store.readRecord, wpc_bind, Store.ensureMounted, wpc_bind, wpc_get, andThen_ok, wpc_when]
    refine ⟨fun hn => absurd hm hn, fun _ => ?_⟩
    rw [andThen_ok, wpc_bind, Store.lookupRecord, wpc_bind, wpc_get, andThen_ok]
    unfold Ram.located at h
    cases hrec : ram.records with
    | nil => simp [hrec] at h
    | cons front rest =>
      rw [hrec] at h
      dsimp only at h ⊢
      split at h
      · simp at h
      · next hin =>
        simp only [if_neg hin, h]
        rw [wpc_pure, andThen_ok, wpc_call, wpc_tryCall_readAt]
        simp only [handle, hfile]
        rw [if_pos (by omega)]
        simp only
        refine ⟨?_, trivial, trivial⟩
        rw [SegmentRecord.view, hfile]
        rfl
  obtain ⟨⟨a, ram'⟩, w', hrun, rfl, rfl, rfl⟩ := Prog.wpc_total hw (Prog.marksOk_true _ _ _)
  exact executes_of_run hrun

/-- What a compaction reads it writes, with a checksum of what it has read. -/
lemma collect_altered {range : CompactionRange} {live : List CompactionLiveRecord}
    (hmem : r ∈ ram.records) (hrange : range.Contains r.segmentGeneration)
    (h : ram.collect d range = some live) :
    ⟨r.sequence, (r.view d).2⟩ ∈ live ∧ ∃ seg ∈ compactionOutput cfg ram live,
      .enqueue r.sequence (r.view d).2 ∈ seg.log ∧
        seg.data = segmentData seg.gen seg.startSeq seg.log [] := by
  have hkeyed : (r.sequence, (r.view d).2) ∈ live.map CompactionLiveRecord.keyed :=
    (collect_perm h).mem_iff.mpr (List.mem_map.mpr ⟨r, mem_liveIn.mpr ⟨hmem, hrange⟩, rfl⟩)
  obtain ⟨lr, hlr, heq⟩ := List.mem_map.mp hkeyed
  obtain ⟨sequence, payload⟩ := lr
  obtain ⟨rfl, rfl⟩ := Prod.mk.inj heq
  refine ⟨hlr, ?_⟩
  have hpacked : ⟨r.sequence, (r.view d).2⟩ ∈
      (compactionOutput cfg ram live).flatMap OutputSeg.records := by
    unfold compactionOutput
    rw [if_neg (List.ne_nil_of_mem hlr), flatMap_packOutput]
    exact hlr
  obtain ⟨seg, hseg, hin⟩ := List.mem_flatMap.mp hpacked
  exact ⟨seg, hseg, List.mem_map.mpr ⟨_, hin, rfl⟩, seg.data_eq⟩

end

/-- **Checksums never protect.**  Whatever store is mounted and whatever event of a live record is
altered: the record is read as it is now on disk, a compaction of its segment writes these bytes
as a new event, and `dropFrontIfCorrupt` does not remove it. -/
theorem checksums_never_protect {env : Env} {cfg : QueueConfig} {s : QueueState} {w : World}
    {d : Disk} {r : SegmentRecord} (hm : s.store.mounted = true) (hmem : r ∈ s.store.records)
    (hr : s.store.located r.sequence = some r) (ha : AlteredEvent cfg.store r d w.disk) :
    Executes env noHarm (fun _ _ => True) (Store.readRecord cfg.store r.sequence) s.store w
      (.ok (r.view w.disk).2) s.store w ∧
    (∀ range, range.Contains r.segmentGeneration → ∀ live ram' w',
      Executes env noHarm (fun _ _ => True) (Store.collectLiveRecords range) s.store w (.ok live)
        ram' w' → ∃ seg ∈ compactionOutput cfg.store s.store live,
          .enqueue r.sequence (r.view w.disk).2 ∈ seg.log ∧
            seg.data = segmentData seg.gen seg.startSeq seg.log []) ∧
    (s.store.records.head? = some r → ∀ result s' w',
      Executes env noHarm (fun _ _ => True) (Queue.dropFrontIfCorrupt cfg) s w result s' w' →
        result ≠ .ok ()) ∧
    ¬ChecksumsProtect env cfg s w r := by
  have hread : Executes env noHarm (fun _ _ => True)
      (Store.readRecord cfg.store r.sequence) s.store w
      (.ok (r.view w.disk).2) s.store w := executes_readRecord hm hr ha.reaches
  refine ⟨hread, fun range hrange live ram' w' he => ?_, fun hfront result s' w' he => ?_,
    fun h => h.read _ _ _ hread⟩
  · have hcollect : Wp env noHarm (fun _ _ => True) (fun _ => True) (Store.collectLiveRecords range)
        (fun result ram' d' => ram' = s.store ∧ d' = w.disk ∧
          ∀ live, result = .ok live → s.store.collect w.disk range = some live) s.store w.disk :=
      wp_collectLiveRecords damaging_noHarm watched_true (Moves.refl : Moves cfg.store ..)
    obtain ⟨-, -, hlive⟩ := hcollect.sound he
    exact (collect_altered hmem hrange (hlive live rfl)).2
  · exact (wp_dropFrontIfCorrupt hm hfront hr ha.reaches).sound he

/-! ### One byte of the only record -/

/-- The segment with the record `[7]`. -/
def sevenSegment : Bytes :=
  overwrite (serializeSegmentHeader 1 0) kSegmentHeaderBytes (serializeEnqueueEvent 0 [7])

/-- A queue with the record `[7]`, whose byte on disk is then set to 8. -/
lemma exists_altered : ∃ s w d, QueueRun (plainEnv .posix) hugeQueue noHarm (fun _ _ => True)
    [⟨.enqueue [7], .ok ()⟩] s w ∧ s.store.mounted = true ∧ s.store.records = [⟨0, 1, 36, 1⟩] ∧
      AlteredEvent hugeSegments ⟨0, 1, 36, 1⟩ w.disk d ∧
        (SegmentRecord.view d ⟨0, 1, 36, 1⟩).2 = [8] := by
  have hfirst : May (plainEnv .posix) noHarm (fun _ _ => True)
      ((QueueOp.enqueue [7]).method hugeQueue) _ {} ⟨∅, 0, false⟩ :=
    may_queueEnqueue_first ⟨by decide, by decide⟩ (fun _ => trivial) (fun _ => trivial)
      fun _ => trivial
  obtain ⟨_, s, w, he, rfl, hs⟩ := hfirst.executes
  have hfile : w.disk.lookup (segmentName 1) = some sevenSegment := hs.tail.file
  have hnew : (w.disk.insert (segmentName 1) (sevenSegment.set 36 8)).lookup (segmentName 1) =
      some (sevenSegment.set 36 8) := AList.lookup_insert _
  refine ⟨s, w, w.disk.insert (segmentName 1) (sevenSegment.set 36 8), .step (.start rfl) he,
    hs.tail.mounted, hs.tail.records, ⟨sameExcept_insert _ _ _, _, _, hfile, hnew, ?_⟩, ?_⟩
  · have hstep : scanStep hugeSegments.maxRecordBytes
        ((sevenSegment.set 36 8).drop 20) = .corrupt := by
      decide +kernel
    refine ⟨by decide +kernel, by decide +kernel, by decide +kernel, by decide +kernel, ?_⟩
    intro header payload rest h
    exact nomatch hstep.symm.trans h
  · rw [SegmentRecord.view, hnew]
    decide +kernel

/-- The altered byte is read. -/
theorem altered_byte_read : ∃ s w d, QueueRun (plainEnv .posix) hugeQueue noHarm (fun _ _ => True)
    [⟨.enqueue [7], .ok ()⟩] s w ∧ AlteredEvent hugeSegments ⟨0, 1, 36, 1⟩ w.disk d ∧
      Executes (plainEnv .posix) noHarm (fun _ _ => True) (Store.readRecord hugeSegments 0) s.store
        (w.setDisk d) (.ok [8]) s.store (w.setDisk d) ∧
      ¬ChecksumsProtect (plainEnv .posix) hugeQueue s (w.setDisk d) ⟨0, 1, 36, 1⟩ := by
  obtain ⟨s, w, d, hrun, hm, hrec, ha, h8⟩ := exists_altered
  have hr : s.store.located 0 = some ⟨0, 1, 36, 1⟩ := by
    rw [Ram.located, hrec]
    rfl
  have hread : Executes (plainEnv .posix) noHarm (fun _ _ => True) (Store.readRecord hugeSegments 0)
      s.store (w.setDisk d) (.ok [8]) s.store (w.setDisk d) := by
    rw [← h8]
    exact executes_readRecord hm hr ha.reaches
  exact ⟨s, w, d, hrun, ha, hread, fun h => h.read _ _ _ hread⟩

/-- The record is at the front, and stays there. -/
theorem checksums_never_protect_seven : ∃ s w, s.store.records.head? = some ⟨0, 1, 36, 1⟩ ∧
    ¬ChecksumsProtect (plainEnv .posix) hugeQueue s w ⟨0, 1, 36, 1⟩ := by
  obtain ⟨s, w, d, -, hm, hrec, ha, -⟩ := exists_altered
  have hr : s.store.located 0 = some ⟨0, 1, 36, 1⟩ := by
    rw [Ram.located, hrec]
    rfl
  have hmem : (⟨0, 1, 36, 1⟩ : SegmentRecord) ∈ s.store.records := by
    rw [hrec]
    exact List.mem_singleton_self _
  have ha' : AlteredEvent hugeQueue.store ⟨0, 1, 36, 1⟩ w.disk (w.setDisk d).disk := ha
  obtain ⟨-, -, -, hnot⟩ := checksums_never_protect hm hmem hr ha'
  exact ⟨s, w.setDisk d, by rw [hrec]; rfl, hnot⟩

end Pqueue
