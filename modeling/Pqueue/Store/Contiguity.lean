import Pqueue.Store.Contents
import Pqueue.Store.SegmentCodec

/-!
# What a directory mounts to

A mount does not check that the records it replays follow one another.  Where the events stand in
the order in which the store appends them (`Disk.InOrder`) the records ascend, and they make up a
queue exactly when the sequences that were last written leave no gap (`mount_isQueue_iff`).
-/

namespace Pqueue

open Effect LittleEndian

/-! ## The events of a directory -/

namespace Disk

variable (cfg : AppendLogConfig) (d : Disk)

/-- The events of the active segments, in the order of the replay. -/
def history : List LogEvent := (Disk.gens d).flatMap (Disk.events cfg d)

/-- An ENQUEUE is above, and a POP is not above, every record replayed before it. -/
def InOrder : Prop := QueueLog.Ordered Prod.fst [] ((Disk.history cfg d).map LogEvent.keyed)

/-- The payload that the last event on a sequence wrote. -/
def written (sequence : ℕ) : Option Bytes :=
  (QueueLog.live Prod.fst ((Disk.history cfg d).map LogEvent.keyed) sequence none).map Prod.snd

/-- The sequences that were last written are those between two sequences. -/
def GapFree : Prop :=
  ∃ head tail, tail < 2 ^ 32 ∧
    ∀ sequence, (Disk.written cfg d sequence).isSome = true ↔ head ≤ sequence ∧ sequence < tail

/-- The mount does not cut the tail on LittleFS, which would fill it with zeros. -/
def TailKept (env : Env) : Prop :=
  env.backend = .posix ∨ ∀ g ∈ (Disk.gens d).getLast?, Disk.torn cfg d g = []

end Disk

/-- The index of the object is that of a queue with the records that `d` was last written with. -/
structure IsQueue (env : Env) (cfg : AppendLogConfig) (d : Disk) (ram : Ram) (w : World) :
    Prop where
  contiguous : ∃ first, ram.seqs = List.range' first ram.records.length
  count : ram.index.count = ram.records.length
  tail : ram.index.tail = ram.index.head + ram.index.count
  readable : ∀ sequence, ram.index.head ≤ sequence → sequence < ram.index.tail →
    ∃ data, Disk.written cfg d sequence = some data ∧
      Prog.run (handle env) (Store.readRecord cfg sequence ram) w = some ((.ok data, ram), w) ∧
      Prog.run (handle env) (Store.readRecordSize cfg sequence ram) w =
        some ((.ok data.length, ram), w)

/-! ## Mounting -/

lemma replayGens_records (seg : ℕ → List LogEvent) (gens : List ℕ) (st : Replay) :
    (replayGens seg gens st).records =
      QueueLog.replay SegmentRecord.sequence st.records (locatedLog seg gens) := by
  induction gens generalizing st with
  | nil => rfl
  | cons g gens ih =>
    rw [replayGens, ih, replayEvents_records, locatedLog_cons, QueueLog.replay_append]

section

variable {env : Env} {cfg : AppendLogConfig} {ram : Ram} {w w' : World} {F : FileName → Bool}
  {d : Disk} {gens : List ℕ} {g : ℕ}

lemma Disk.Scans.log (h : Disk.Scans cfg d gens) (hg : g ∈ gens) :
    ∃ torn, Disk.log cfg d g = some (Disk.events cfg d g, torn) ∧
      (gens.getLast? ≠ some g → torn = []) := by
  induction gens with
  | nil => simp at hg
  | cons g' gens ih =>
    obtain ⟨⟨evs, torn, hlog, htorn⟩, hrest⟩ := h
    by_cases hmem : g ∈ gens
    · obtain ⟨torn', hlog', htorn'⟩ := ih hrest hmem
      refine ⟨torn', hlog', fun hlast => htorn' fun h => hlast ?_⟩
      rw [List.getLast?_cons, h]
      rfl
    · obtain rfl : g = g' := (List.mem_cons.1 hg).resolve_right hmem
      refine ⟨torn, by rw [hlog, events_eq hlog], fun hlast => htorn.resolve_left ?_⟩
      rintro rfl
      exact hlast rfl

/-- After the mount the file of an active segment holds its log and nothing else. -/
lemma segmentFile_swept_recovered (hs : Disk.Scans cfg d (Disk.gens d)) (hg : g ∈ Disk.gens d)
    (hkept : Disk.TailKept cfg d env) (t : ℕ) :
    SegmentFile cfg (Disk.swept env F t (Disk.gens d)
      (Disk.recovered env cfg d (Disk.gens d))) g (Disk.events cfg d g) [] := by
  obtain ⟨torn, hlog, htorn⟩ := hs.log hg
  obtain ⟨⟨hlt, hfits, startSeq, hstart, hfile⟩, -, -⟩ := log_eq_some_iff.1 hlog
  have hrecovered : (Disk.recovered env cfg d (Disk.gens d)).lookup (segmentName g) =
      some (segmentData g startSeq (Disk.events cfg d g) []) := by
    unfold Disk.recovered Disk.afterScan
    cases hlast : (Disk.gens d).getLast? with
    | none =>
      rw [htorn (by simp [hlast])] at hfile
      exact hfile
    | some g' =>
      have hmem : g' ∈ Disk.gens d := List.mem_of_getLast? hlast
      rw [Option.map_some, Option.getD_some]
      dsimp only
      by_cases hg' : g = g'
      · subst hg'
        rw [torn_eq hlog]
        by_cases htail : torn = []
        · rw [Disk.recoverTail, if_pos htail, hfile, htail]
        · have hbackend : env.backend = .posix := by
            rcases hkept with h | h
            · exact h
            · exact absurd ((torn_eq hlog).symm.trans (h g hlast)) htail
          exact lookup_recoverTail (w := ⟨d, 0, false⟩) hbackend hfile
      · rw [htorn (by simpa [hlast] using Ne.symm hg')] at hfile
        obtain ⟨_, hlog', -⟩ := hs.log hmem
        have hlt' := (log_eq_some_iff.1 hlog').1.1
        rw [Disk.recoverTail]
        split
        · exact hfile
        · rw [Disk.resize, AList.lookup_insert_ne (segmentName_ne hlt hlt' hg')]
          exact hfile
  refine ⟨hlt, hfits, startSeq, hstart, ?_⟩
  unfold Disk.swept
  split
  · exact hrecovered
  · next name gen hdangling =>
    obtain ⟨-, hname, hactive⟩ := firstDangling_eq_some hdangling
    split
    · exact hrecovered
    · rw [AList.lookup_erase_ne, hrecovered]
      rintro rfl
      rw [isSegmentName_segmentName hlt] at hname
      exact hactive (Option.some.inj hname ▸ hg)

/-- What a mount of a new object leaves, as far as it concerns the records. -/
structure MountedFrom (cfg : AppendLogConfig) (d : Disk) (ram : Ram) (d' : Disk) : Prop where
  mounted : ram.mounted = true
  records : ram.records = QueueLog.replay SegmentRecord.sequence []
    (locatedLog (Disk.events cfg d) (Disk.gens d))
  files : ∀ g ∈ Disk.gens d, ∃ startSeq rest, d'.lookup (segmentName g) =
    some (segmentData g startSeq (Disk.events cfg d g) rest)

/-- The result of a mount that succeeded. -/
lemma mountResult_of_run
    (hrun : Prog.run (handle env) (Store.mount cfg {}) w = some ((.ok (), ram), w')) :
    Disk.Mounts cfg w.disk ∧ MountResult env cfg (fun _ => false) {} w (.ok ()) ram w' := by
  rw [← refusing_none env] at hrun
  have hwraps : ¬Disk.Wraps w.disk := by
    intro h
    have hnone : Act.Diverges (refusing env fun _ => false) (Store.mount cfg) {} w :=
      diverges_mount h
    exact nomatch hnone.symm.trans hrun
  have hresult := Act.Within.run (within_mount hwraps) hrun
  refine ⟨?_, hresult⟩
  by_contra hnot
  obtain ⟨st, hst, -⟩ := hresult.fails hnot
  simp at hst

/-- It holds the records of the segments in order. -/
lemma records_of_mount
    (hrun : Prog.run (handle env) (Store.mount cfg {}) w = some ((.ok (), ram), w')) :
    ram.records = QueueLog.replay SegmentRecord.sequence []
      (locatedLog (Disk.events cfg w.disk) (Disk.gens w.disk)) := by
  obtain ⟨hmounts, hresult⟩ := mountResult_of_run hrun
  have hgens : Disk.gens w.disk = ((Disk.elected w.disk).getD {}).gens := by
    unfold Disk.gens
    cases Disk.elected w.disk <;> rfl
  rw [(hresult.ram hmounts rfl).records, replayGens_records, ← hgens]

lemma mountedFrom_of_run (hkept : Disk.TailKept cfg w.disk env)
    (hrun : Prog.run (handle env) (Store.mount cfg {}) w = some ((.ok (), ram), w')) :
    MountedFrom cfg w.disk ram w'.disk := by
  obtain ⟨hmounts, hresult⟩ := mountResult_of_run hrun
  have hscans : Disk.Scans cfg w.disk (Disk.gens w.disk) := by
    unfold Disk.Mounts at hmounts
    unfold Disk.gens
    cases helect : Disk.elected w.disk with
    | none => trivial
    | some md =>
      rw [helect] at hmounts
      exact hmounts.2.2.1
  refine ⟨(hresult.ram hmounts rfl).mounted, records_of_mount hrun, fun g hg => ?_⟩
  rw [hresult.disk hmounts]
  obtain ⟨-, -, startSeq, -, hfile⟩ := segmentFile_swept_recovered (F := fun _ => false) hscans hg
    hkept (w.clock + 1)
  exact ⟨startSeq, [], hfile⟩

/-! ## The records and their sequences -/

variable {d' : Disk}

namespace MountedFrom

variable (h : MountedFrom cfg d ram d')
include h

/-- Looked up in the directory, the records are what the events replay to. -/
lemma contents : ram.records.map (SegmentRecord.view d') = logContents (Disk.history cfg d) := by
  rw [h.records]
  apply view_replay_locatedLog
  intro g hg
  obtain ⟨startSeq, rest, hfile⟩ := h.files g hg
  exact ⟨serializeSegmentHeader g startSeq, rest, length_serializeSegmentHeader _ _, hfile⟩

lemma seqs : ram.seqs = (logContents (Disk.history cfg d)).map Prod.fst := by
  rw [← h.contents, List.map_map]
  rfl

/-- The event of a record is in its file. -/
lemma file {r : SegmentRecord} (hr : r ∈ ram.records) :
    ∃ file, d'.lookup (segmentName r.segmentGeneration) = some file ∧ r.stop ≤ file.length := by
  rw [h.records] at hr
  have hwrites : ∃ e ∈ locatedLog (Disk.events cfg d) (Disk.gens d), e.Writes r := by
    rcases QueueLog.mem_replay hr with hr | hr | hr
    · simp at hr
    · exact ⟨_, hr, .inl rfl⟩
    · exact ⟨_, hr, .inr rfl⟩
  obtain ⟨e, he, hw⟩ := hwrites
  obtain ⟨g, hg, hmem⟩ := List.mem_flatMap.1 he
  obtain ⟨startSeq, rest, hfile⟩ := h.files g hg
  refine ⟨_, by rw [located_writes hmem hw, hfile], ?_⟩
  have hstop := (locate_bounds hmem hw).2
  rw [length_segmentData, logBytes]
  omega

end MountedFrom

end

section InOrder

variable {cfg : AppendLogConfig} {d : Disk}

lemma find_logContents (ho : Disk.InOrder cfg d) (sequence : ℕ) :
    (QueueLog.find Prod.fst (logContents (Disk.history cfg d)) sequence).map Prod.snd =
      Disk.written cfg d sequence := by
  unfold logContents Disk.written
  rw [QueueLog.find_replay ho]

/-- The records ascend. -/
lemma pairwise_keys (ho : Disk.InOrder cfg d) :
    ((logContents (Disk.history cfg d)).map Prod.fst).Pairwise (· < ·) :=
  List.pairwise_map.2 (QueueLog.sorted_replay ho)

lemma written_of_mem (ho : Disk.InOrder cfg d) {x : ℕ × Bytes}
    (hx : x ∈ logContents (Disk.history cfg d)) : Disk.written cfg d x.1 = some x.2 := by
  have hfind : QueueLog.find Prod.fst (logContents (Disk.history cfg d)) x.1 = some x :=
    (QueueLog.sorted_replay ho).find_mem hx
  rw [← find_logContents ho, hfind]
  rfl

lemma isSome_written_iff (ho : Disk.InOrder cfg d) (sequence : ℕ) :
    (Disk.written cfg d sequence).isSome = true ↔
      sequence ∈ (logContents (Disk.history cfg d)).map Prod.fst := by
  constructor
  · intro h
    rw [← find_logContents ho, Option.isSome_map] at h
    obtain ⟨x, hx⟩ := Option.isSome_iff_exists.1 h
    obtain ⟨hmem, rfl⟩ := QueueLog.find_some hx
    exact List.mem_map_of_mem hmem
  · intro h
    obtain ⟨x, hx, rfl⟩ := List.mem_map.1 h
    rw [written_of_mem ho hx]
    rfl

end InOrder

/-! ## Queues -/

/-- An ascending list of all numbers of an interval. -/
lemma eq_range'_of_mem_iff {l : List ℕ} {a b : ℕ} (hl : l.Pairwise (· < ·))
    (hmem : ∀ k, k ∈ l ↔ a ≤ k ∧ k < b) : l = List.range' a (b - a) := by
  have hperm : l.Perm (List.range' a (b - a)) := by
    refine (List.perm_ext_iff_of_nodup ?_ (List.nodup_range' ..)).2 fun k => ?_
    · exact hl.imp fun h => h.ne
    · rw [hmem, List.mem_range'_1]
      omega
  exact hperm.eq_of_pairwise (fun _ _ _ _ h h' => absurd h (Nat.lt_asymm h')) hl
    (List.pairwise_lt_range' ..)

section

variable {env : Env} {cfg : AppendLogConfig} {ram : Ram} {w' : World} {d : Disk}

/-- Without failures the size of a record of a contiguous index is told. -/
lemma run_readRecordSize_of_contiguous {head i : ℕ} {sr : SegmentRecord}
    (hm : ram.mounted = true) (hh : ram.seqs = List.range' head ram.records.length)
    (hsr : ram.records[i]? = some sr) :
    Prog.run (handle env) (Store.readRecordSize cfg sr.sequence ram) w' =
      some ((.ok sr.payloadBytes, ram), w') := by
  have hseq : sr.sequence = head + i := key_of_getElem? hh hsr
  have hw : Wpc env (fun _ _ => True) False (fun _ => True)
      (Store.readRecordSize cfg sr.sequence)
      (fun r ram' w'' => r = .ok sr.payloadBytes ∧ ram' = ram ∧ w'' = w') ram w' := by
    rw [Store.readRecordSize, wpc_bind, Store.ensureMounted, wpc_bind, wpc_get,
      andThen_ok, wpc_when]
    refine ⟨fun hn => absurd hm hn, fun _ => ?_⟩
    rw [andThen_ok, wpc_bind, Store.lookupRecord, wpc_bind, wpc_get, andThen_ok]
    cases hrec : ram.records with
    | nil =>
      rw [hrec] at hsr
      simp at hsr
    | cons front rest =>
      rw [Ram.seqs, hrec] at hh
      rw [hrec] at hsr
      have hfront : front.sequence = head + 0 := key_of_getElem? hh rfl
      have hilt : i < (front :: rest).length := (List.getElem?_eq_some_iff.1 hsr).1
      have hin : ¬(sr.sequence < front.sequence ∨
          sr.sequence ≥ front.sequence + (front :: rest).length) := by omega
      have hidx : sr.sequence - front.sequence = i := by omega
      simp only [if_neg hin, hidx, hsr]
      rw [wpc_pure, andThen_ok, wpc_pure]
      exact ⟨rfl, rfl, rfl⟩
  obtain ⟨⟨r, ram'⟩, w'', hrun, rfl, rfl, rfl⟩ := Prog.wpc_total hw (Prog.marksOk_true _ _ _)
  exact hrun

/-- The index of a contiguous list of records. -/
lemma index_of_range' {head n : ℕ} (hseqs : ram.seqs = List.range' head n) (hn : 0 < n) :
    ram.index = ⟨head, u32 (head + n), u32 n⟩ := by
  have hlen : ram.records.length = n := by
    have := congrArg List.length hseqs
    rwa [Ram.seqs, List.length_map, List.length_range'] at this
  have hfront : ram.records.head?.map (·.sequence) = some head := by
    rw [← List.head?_map, ← Ram.seqs, hseqs, List.head?_range', if_neg (by omega)]
  have hback : ram.records.getLast?.map (·.sequence) = some (head + n - 1) := by
    rw [← List.getLast?_map, ← Ram.seqs, hseqs, List.getLast?_range', if_neg (by omega)]
  obtain ⟨front, hf, rfl⟩ := Option.map_eq_some_iff.1 hfront
  obtain ⟨back, hb, hseq⟩ := Option.map_eq_some_iff.1 hback
  unfold Ram.index
  rw [hf, hb]
  simp only [hseq, hlen]
  rw [Nat.sub_add_cancel (by omega)]

lemma length_seqs (ram : Ram) : ram.seqs.length = ram.records.length := List.length_map _

/-- A queue has written sequences without a gap. -/
lemma IsQueue.gapFree (hm : MountedFrom cfg d ram w'.disk) (ho : Disk.InOrder cfg d)
    (hq : IsQueue env cfg d ram w') : Disk.GapFree cfg d := by
  obtain ⟨first, hfirst⟩ := hq.contiguous
  have hiff : ∀ sequence, (Disk.written cfg d sequence).isSome = true ↔
      first ≤ sequence ∧ sequence < first + ram.records.length := by
    intro sequence
    rw [isSome_written_iff ho, ← hm.seqs, hfirst, List.mem_range'_1]
  rcases Nat.eq_zero_or_pos ram.records.length with hzero | hpos
  · refine ⟨0, 0, by decide, fun sequence => ?_⟩
    rw [hiff, hzero]
    omega
  · refine ⟨first, first + ram.records.length, ?_, hiff⟩
    have hindex := index_of_range' hfirst hpos
    have htail := hq.tail
    have hcount := hq.count
    rw [hindex] at htail hcount
    simp only at htail hcount
    rw [← hcount, ← htail]
    exact u32_lt _

/-- Written sequences without a gap make a queue. -/
lemma isQueue_of_gapFree (hm : MountedFrom cfg d ram w'.disk) (ho : Disk.InOrder cfg d)
    (hg : Disk.GapFree cfg d) : IsQueue env cfg d ram w' := by
  obtain ⟨head, tail, htail, hiff⟩ := hg
  have hseqs : ram.seqs = List.range' head (tail - head) := by
    rw [hm.seqs]
    apply eq_range'_of_mem_iff (pairwise_keys ho)
    intro k
    rw [← isSome_written_iff ho, hiff]
  have hlen : ram.records.length = tail - head := by
    rw [← length_seqs, hseqs, List.length_range']
  rcases Nat.eq_zero_or_pos (tail - head) with hzero | hpos
  · have hnil : ram.records = [] := List.eq_nil_of_length_eq_zero (hlen.trans hzero)
    have hindex : ram.index = ⟨ram.nextSequence, ram.nextSequence, 0⟩ := by
      unfold Ram.index
      rw [hnil]
      rfl
    refine ⟨⟨head, by rw [hlen, hseqs]⟩, ?_, ?_, ?_⟩
    · rw [hindex, hnil]
      rfl
    · rw [hindex]
      rfl
    · intro sequence hle hlt
      rw [hindex] at hle hlt
      exact absurd hlt (Nat.not_lt.2 hle)
  · have hindex := index_of_range' hseqs hpos
    rw [u32_of_lt (by omega), u32_of_lt (by omega)] at hindex
    refine ⟨⟨head, by rw [hlen, hseqs]⟩, ?_, ?_, ?_⟩
    · rw [hindex, hlen]
    · rw [hindex]
    · intro sequence hle hlt
      rw [hindex] at hle hlt
      simp only at hle hlt
      -- the record at the distance from the head
      have hi : sequence - head < ram.records.length := by omega
      have hsr : ram.records[sequence - head]? = some ram.records[sequence - head] :=
        List.getElem?_eq_getElem hi
      have hmem := List.mem_of_getElem? hsr
      have hsequence : ram.records[sequence - head].sequence = sequence := by
        have := key_of_getElem? hseqs hsr
        omega
      generalize ram.records[sequence - head] = sr at hsr hmem hsequence
      obtain ⟨file, hfile, hstop⟩ := hm.file hmem
      have hview : sr.view w'.disk ∈ logContents (Disk.history cfg d) := by
        rw [← hm.contents]
        exact List.mem_map_of_mem hmem
      have hbytes : sr.payloadBytes = (sr.view w'.disk).2.length := by
        rw [SegmentRecord.stop] at hstop
        simp only [SegmentRecord.view, hfile, Option.getD_some, List.length_take, List.length_drop]
        omega
      have hrange : ram.seqs = List.range' head ram.records.length := by rw [hlen, hseqs]
      refine ⟨(sr.view w'.disk).2, ?_, ?_, ?_⟩
      · rw [← written_of_mem ho hview]
        exact congrArg _ hsequence.symm
      · rw [← hsequence]
        exact run_readRecord_of_contiguous hm.mounted hrange (by omega) hsr hfile hstop
      · rw [← hsequence, ← hbytes]
        exact run_readRecordSize_of_contiguous hm.mounted hrange hsr

/-- **What a mounted index is.**  The records of a directory whose events are in order ascend; they
are a queue exactly when the sequences that were last written leave no gap. -/
theorem mount_isQueue_iff {w : World} (ho : Disk.InOrder cfg w.disk)
    (hkept : Disk.TailKept cfg w.disk env)
    (hrun : Prog.run (handle env) (Store.mount cfg {}) w = some ((.ok (), ram), w')) :
    ram.seqs.Pairwise (· < ·) ∧ (IsQueue env cfg w.disk ram w' ↔ Disk.GapFree cfg w.disk) := by
  have hm := mountedFrom_of_run hkept hrun
  refine ⟨?_, fun hq => hq.gapFree hm ho, isQueue_of_gapFree hm ho⟩
  rw [hm.seqs]
  exact pairwise_keys ho

end

/-! ## Directories of one segment -/

/-- A directory with one segment, and a manifest that names it. -/
def onlySegment (evs : List LogEvent) (cut : Bytes) : World :=
  ⟨AList.insert (Slot.fileName .a) (serialiseManifest ⟨1, 2, [], 1⟩) (oneSegment 1 evs cut).disk,
    0, false⟩

/-- A log with a POP and a REWRITE. -/
def poppedLog : List LogEvent := [.enqueue 0 [7], .enqueue 1 [8], .pop 0, .rewrite 1 [9]]

theorem mount_isQueue_iff_popped : ∃ ram w',
    Prog.run (handle (plainEnv .posix)) (Store.mount bigRecords {}) (onlySegment poppedLog []) =
      some ((.ok (), ram), w') ∧ ram.seqs.Pairwise (· < ·) ∧
    (IsQueue (plainEnv .posix) bigRecords (onlySegment poppedLog []).disk ram w' ↔
      Disk.GapFree bigRecords (onlySegment poppedLog []).disk) := by
  have hok : ((Prog.run (handle (plainEnv .posix)) (Store.mount bigRecords {})
      (onlySegment poppedLog [])).map fun x => x.1.1.toBool) = some true := by decide +kernel
  have hlog : Disk.history bigRecords (onlySegment poppedLog []).disk = poppedLog := by
    decide +kernel
  obtain ⟨⟨⟨r, ram⟩, w'⟩, hrun, hr⟩ := Option.map_eq_some_iff.1 hok
  cases r with
  | error e => simp [Except.toBool] at hr
  | ok u =>
    refine ⟨ram, w', hrun, mount_isQueue_iff ?_ (.inl rfl) hrun⟩
    unfold Disk.InOrder
    rw [hlog]
    simp [poppedLog, QueueLog.Ordered, QueueLog.Admissible, QueueLog.step, LogEvent.keyed]

/-- What a mount and a read come to: the sequences, the index and the payload. -/
def mountAndRead (backend : StorageBackend) (w : World) (sequence : ℕ) :
    Option (Except Status Unit × List ℕ × QueueIndex × Option Bytes) :=
  (Prog.run (handle (plainEnv backend)) (Store.mount bigRecords {}) w).map fun x =>
    (x.1.1, x.1.2.seqs, x.1.2.index,
      (Prog.run (handle (plainEnv backend)) (Store.readRecord bigRecords sequence x.1.2) x.2).bind
        fun y => y.1.1.toOption)

lemma mountAndRead_eq_some (backend : StorageBackend) (w : World) (sequence : ℕ) (seqs : List ℕ)
    (index : QueueIndex) (data : Option Bytes)
    (h : (mountAndRead backend w sequence).map (fun x => (x.1.toBool, x.2)) =
      some (true, seqs, index, data)) :
    ∃ ram w', Prog.run (handle (plainEnv backend)) (Store.mount bigRecords {}) w =
        some ((.ok (), ram), w') ∧ ram.seqs = seqs ∧ ram.index = index ∧
      (Prog.run (handle (plainEnv backend)) (Store.readRecord bigRecords sequence ram) w').bind
        (fun y => y.1.1.toOption) = data := by
  unfold mountAndRead at h
  rw [Option.map_map] at h
  obtain ⟨⟨⟨r, ram⟩, w'⟩, hrun, hr⟩ := Option.map_eq_some_iff.1 h
  simp only [Function.comp_apply, Prod.mk.injEq] at hr
  cases r with
  | error e => simp [Except.toBool] at hr
  | ok u => exact ⟨ram, w', hrun, hr.2⟩

/-- Two ENQUEUEs with a gap between them mount, and the later record is read for a sequence in the
gap; two in the wrong order mount as they stand; and on LittleFS a record before a torn tail reads
as zeros. -/
theorem mount_not_isQueue :
    (∃ ram w', Prog.run (handle (plainEnv .posix)) (Store.mount bigRecords {})
        (onlySegment [.enqueue 0 [7], .enqueue 5 [8]] []) = some ((.ok (), ram), w') ∧
      ram.index = ⟨0, 6, 2⟩ ∧
      (Prog.run (handle (plainEnv .posix)) (Store.readRecord bigRecords 1 ram) w').bind
        (fun y => y.1.1.toOption) = some [8] ∧
      ¬IsQueue (plainEnv .posix) bigRecords
        (onlySegment [.enqueue 0 [7], .enqueue 5 [8]] []).disk ram w') ∧
    (∃ ram w', Prog.run (handle (plainEnv .posix)) (Store.mount bigRecords {})
        (onlySegment [.enqueue 5 [7], .enqueue 0 [8]] []) = some ((.ok (), ram), w') ∧
      ¬ram.seqs.Pairwise (· < ·)) ∧
    ∃ ram w', Prog.run (handle (plainEnv .littleFS)) (Store.mount bigRecords {})
        (onlySegment [.enqueue 0 [7]] [0]) = some ((.ok (), ram), w') ∧
      (Prog.run (handle (plainEnv .littleFS)) (Store.readRecord bigRecords 0 ram) w').bind
        (fun y => y.1.1.toOption) = some [0] ∧
      ¬IsQueue (plainEnv .littleFS) bigRecords (onlySegment [.enqueue 0 [7]] [0]).disk ram w' := by
  refine ⟨?_, ?_, ?_⟩
  · obtain ⟨ram, w', hrun, -, hindex, hread⟩ := mountAndRead_eq_some .posix
      (onlySegment [.enqueue 0 [7], .enqueue 5 [8]] []) 1 [0, 5] ⟨0, 6, 2⟩ (some [8])
      (by decide +kernel)
    refine ⟨ram, w', hrun, hindex, hread, fun hq => ?_⟩
    have htail := hq.tail
    rw [hindex] at htail
    simp at htail
  · obtain ⟨ram, w', hrun, hseqs, -, -⟩ := mountAndRead_eq_some .posix
      (onlySegment [.enqueue 5 [7], .enqueue 0 [8]] []) 0 [5, 0] ⟨5, 1, 2⟩ none (by decide +kernel)
    refine ⟨ram, w', hrun, ?_⟩
    rw [hseqs]
    decide
  · obtain ⟨ram, w', hrun, -, hindex, hread⟩ := mountAndRead_eq_some .littleFS
      (onlySegment [.enqueue 0 [7]] [0]) 0 [0] ⟨0, 1, 1⟩ (some [0]) (by decide +kernel)
    refine ⟨ram, w', hrun, hread, fun hq => ?_⟩
    have hwritten : Disk.written bigRecords (onlySegment [.enqueue 0 [7]] [0]).disk 0 =
        some [7] := by decide +kernel
    obtain ⟨data, hdata, hrecord, -⟩ := hq.readable 0 (by simp [hindex]) (by simp [hindex])
    obtain rfl := Option.some.inj (hwritten.symm.trans hdata)
    rw [hrecord] at hread
    simp [Except.toOption] at hread

end Pqueue
