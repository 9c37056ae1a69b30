import Pqueue.Store.Mounting

/-!
# Segments are read back as they were written

The scan of one segment file that holds a list of events, followed by nothing or by the beginning
of a further event.  `Agrees` is what should come of it; `segment_codec` says when it does, which
is whenever the file passes the read guard and the length of the further event is a 32-bit number.
-/

namespace Pqueue

open Effect LittleEndian

/-! ## Events within the limits -/

/-- The event has a 32-bit sequence and a payload within the limit. -/
def LogEvent.Allowed (maxRecordBytes : ℕ) : LogEvent → Prop
  | enqueue seq payload | rewrite seq payload => seq < 2 ^ 32 ∧ payload.length ≤ maxRecordBytes
  | pop seq => seq < 2 ^ 32

section

variable {m : ℕ} {e : LogEvent}

/-- The only other condition of `Fits` is that the length of the event is a 32-bit number. -/
lemma LogEvent.fits_of_allowed (h : e.Allowed m) (hlen : e.encode.length < 2 ^ 32) : e.Fits m := by
  cases e with
  | enqueue seq payload =>
    rw [encode, serializeEnqueueEvent, length_serializePayloadEvent] at hlen
    exact ⟨h.1, h.2, by omega⟩
  | rewrite seq payload =>
    rw [encode, serializeRewriteEvent, length_serializePayloadEvent] at hlen
    exact ⟨h.1, h.2, by omega⟩
  | pop seq => exact h

lemma length_encode_le {evs : List LogEvent} (h : e ∈ evs) :
    e.encode.length ≤ (encodeEvents evs).length := by
  obtain ⟨pre, post, rfl⟩ := List.append_of_mem h
  rw [encodeEvents_append, encodeEvents_cons, List.length_append, List.length_append]
  omega

/-- `cut` is the beginning of an event of which at least the last byte is missing. -/
def CutOf (m : ℕ) (cut : Bytes) (e : LogEvent) : Prop :=
  e.Allowed m ∧ cut ≠ [] ∧ cut.length < e.encode.length ∧ cut = e.encode.take cut.length

/-- The scanner stops at a cut event whose length it can count. -/
lemma stopsAt_cut {cut : Bytes} (h : CutOf m cut e) (hlen : e.encode.length < 2 ^ 32) :
    stopsAt m cut = some false := by
  obtain ⟨hallowed, hne, hlt, htake⟩ := h
  rw [stopsAt, if_neg hne, htake, scanStep_take (LogEvent.fits_of_allowed hallowed hlen) hlt]

end

/-! ## What the scan should do -/

section

variable {env : Env} {cfg : AppendLogConfig} {gen startSeq : ℕ} {evs : List LogEvent} {cut : Bytes}
  {last : Bool} {affected : List ℕ} {ram : Ram} {w : World}

/-- The scanner sees exactly `evs` and stops behind them.  As the tail the segment is accepted,
whatever follows; as a sealed segment it is accepted only when nothing does. -/
def Agrees (env : Env) (cfg : AppendLogConfig) (gen : ℕ) (evs : List LogEvent) (cut : Bytes)
    (last : Bool) (affected : List ℕ) (ram : Ram) (w : World) : Prop :=
  readLog cfg.maxRecordBytes (encodeEvents evs ++ cut).length (encodeEvents evs ++ cut) = evs ∧
    if last = true ∨ cut = [] then
      Prog.run (handle env) (Store.scanSegment cfg last gen affected ram) w =
        some ((.ok (ram.scanned last gen evs affected).tailAffectedGens,
          (ram.replayed gen (ram.scanned last gen evs affected)).setTailBytes (logBytes evs)),
          w.setDisk (Disk.recoverTail env w.disk gen evs cut))
    else ∃ message ram', Prog.run (handle env) (Store.scanSegment cfg last gen affected ram) w =
      some ((.error ⟨.dataCorrupt, message⟩, ram'), w)

/-- Bytes at which the scan stops without finding them corrupt end a sealed segment badly. -/
lemma wpc_scanSegment_sealed {A : StoreMark → Disk → Prop} {Z : Prop} {J : Disk → Prop}
    {Q : StorePost (List ℕ)} (hseg : SegmentFile cfg w.disk gen evs cut) (hne : cut ≠ [])
    (hstop : stopsAt cfg.maxRecordBytes cut = some false)
    (hsize : logBytes evs + cut.length ≤ kMaxReplaySegmentReadBytes)
    (hQ : ∀ message ram', Q (.error ⟨.dataCorrupt, message⟩) ram' w) :
    Wpc env A Z J (Store.scanSegment cfg false gen affected) Q ram w := by
  refine wpc_scanSegment_of hseg hstop hsize ?_
  rw [if_neg (by simp), if_pos ⟨List.length_pos_iff.2 hne, by simp⟩, wpc_failure]
  exact hQ _ _

/-- What the scan of a file that passes the guard comes to. -/
lemma wpc_agrees {A : StoreMark → Disk → Prop} {Z : Prop} {J : Disk → Prop}
    {Q : StorePost (List ℕ)} (hseg : SegmentFile cfg w.disk gen evs cut)
    (hstop : stopsAt cfg.maxRecordBytes cut = some false)
    (hsize : logBytes evs + cut.length ≤ kMaxReplaySegmentReadBytes) (hJ : J w.disk)
    (hkept : last = true ∨ cut = [] → Q (.ok (ram.scanned last gen evs affected).tailAffectedGens)
      ((ram.replayed gen (ram.scanned last gen evs affected)).setTailBytes (logBytes evs))
      (w.setDisk (Disk.recoverTail env w.disk gen evs cut)))
    (hrefused : ¬(last = true ∨ cut = []) →
      ∀ message ram', Q (.error ⟨.dataCorrupt, message⟩) ram' w) :
    Wpc env A Z J (Store.scanSegment cfg last gen affected) Q ram w := by
  by_cases h : last = true ∨ cut = []
  · refine wpc_scanSegment hseg (by rw [hstop]; rfl) (fun hl => ?_) hsize hJ (hkept h)
    simpa [hl] using h
  · obtain ⟨hlast, hne⟩ := not_or.1 h
    obtain rfl : last = false := by simpa using hlast
    exact wpc_scanSegment_sealed hseg hne hstop hsize (hrefused h)

/-- The rest of a file that was cut at the end of its log. -/
lemma lookup_recoverTail (hbackend : env.backend = .posix)
    (hfile : w.disk.lookup (segmentName gen) = some (segmentData gen startSeq evs cut)) :
    (Disk.recoverTail env w.disk gen evs cut).lookup (segmentName gen) =
      some (segmentData gen startSeq evs []) := by
  by_cases hcut : cut = []
  · rw [Disk.recoverTail, if_pos hcut, hfile, hcut]
  · have hkept : (segmentData gen startSeq evs []).length = logBytes evs := by
      rw [length_segmentData, List.length_nil, Nat.add_zero]
    have hsplit : segmentData gen startSeq evs cut = segmentData gen startSeq evs [] ++ cut := by
      simp only [segmentData, List.append_nil, List.append_assoc]
    rw [Disk.recoverTail, if_neg hcut, Disk.resize, AList.lookup_insert, hbackend, hfile,
      Option.getD_some, StorageBackend.resized, truncated, hsplit, ← hkept, List.take_left,
      List.length_append, Nat.sub_eq_zero_of_le (Nat.le_add_right ..), List.replicate_zero,
      List.append_nil]

/-- **Segment codec and scanner agree**, on every segment file that passes the read guard with what
follows its log: nothing, or the beginning of an event with a 32-bit length.  On POSIX the file of
the tail is then the log and nothing else. -/
theorem segment_codec (hgen : gen < 2 ^ 32) (hstart : startSeq < 2 ^ 32)
    (hevs : ∀ e ∈ evs, e.Allowed cfg.maxRecordBytes)
    (hcut : cut = [] ∨ ∃ e, CutOf cfg.maxRecordBytes cut e ∧ e.encode.length < 2 ^ 32)
    (hguard : (segmentData gen startSeq evs cut).length ≤ kMaxReplaySegmentReadBytes)
    (hfile : w.disk.lookup (segmentName gen) = some (segmentData gen startSeq evs cut)) :
    Agrees env cfg gen evs cut last affected ram w ∧ (env.backend = .posix →
      (Disk.recoverTail env w.disk gen evs cut).lookup (segmentName gen) =
        some (segmentData gen startSeq evs [])) := by
  rw [length_segmentData] at hguard
  have hlt : logBytes evs + cut.length < 2 ^ 32 := Nat.lt_of_le_of_lt hguard (by decide)
  have hfits : ∀ e ∈ evs, e.Fits cfg.maxRecordBytes := by
    intro e he
    have hle := length_encode_le he
    rw [logBytes] at hlt
    exact LogEvent.fits_of_allowed (hevs e he) (by omega)
  have hstop : stopsAt cfg.maxRecordBytes cut = some false := by
    rcases hcut with rfl | ⟨e, he, hlen⟩
    · exact if_pos rfl
    · exact stopsAt_cut he hlen
  refine ⟨⟨readLog_log hfits hstop le_rfl, ?_⟩, fun hbackend => lookup_recoverTail hbackend hfile⟩
  have hwpc : Wpc env (fun _ _ => True) False (fun _ => True)
      (Store.scanSegment cfg last gen affected) (fun r ram' w' =>
        if last = true ∨ cut = [] then
          r = .ok (ram.scanned last gen evs affected).tailAffectedGens ∧
            ram' = (ram.replayed gen (ram.scanned last gen evs affected)).setTailBytes
              (logBytes evs) ∧
            w' = w.setDisk (Disk.recoverTail env w.disk gen evs cut)
        else ∃ message, r = .error ⟨.dataCorrupt, message⟩ ∧ w' = w) ram w := by
    refine wpc_agrees ⟨hgen, hfits, startSeq, hstart, hfile⟩ hstop hguard trivial (fun h => ?_)
      fun h message ram' => ?_
    · rw [if_pos h]
      exact ⟨rfl, rfl, rfl⟩
    · rw [if_neg h]
      exact ⟨message, rfl, rfl⟩
  obtain ⟨⟨r, ram'⟩, w', hrun, hq⟩ := Prog.wpc_total hwpc (Prog.marksOk_true _ _ _)
  dsimp only at hq
  by_cases h : last = true ∨ cut = []
  · rw [if_pos h] at hq ⊢
    obtain ⟨rfl, rfl, rfl⟩ := hq
    exact hrun
  · rw [if_neg h] at hq ⊢
    obtain ⟨message, rfl, rfl⟩ := hq
    exact ⟨message, ram', hrun⟩

end

/-! ## Examples -/

/-- A configuration for records of 4 GiB. -/
def bigRecords : AppendLogConfig :=
  { AppendLogConfig.defaults with maxRecordBytes := 2 ^ 32 }

/-- A directory with one segment file. -/
def oneSegment (gen : ℕ) (evs : List LogEvent) (cut : Bytes) : World :=
  ⟨AList.insert (segmentName gen) (segmentData gen 0 evs cut) ∅, 0, false⟩

/-- A tail of one record that ends in the first byte of a POP. -/
theorem segment_codec_one : Agrees (plainEnv .posix) bigRecords 1 [.enqueue 0 [7]]
    ((LogEvent.pop 0).encode.take 1) true [] {}
    (oneSegment 1 [.enqueue 0 [7]] ((LogEvent.pop 0).encode.take 1)) := by
  refine (segment_codec (by decide) (by decide) ?_ (.inr ⟨.pop 0, ⟨?_, ?_, ?_, ?_⟩, ?_⟩) ?_
    (AList.lookup_insert _)).1
  · intro e he
    obtain rfl := List.mem_singleton.1 he
    exact ⟨by decide, by decide⟩
  · exact (by decide : 0 < 2 ^ 32)
  all_goals decide +kernel

/-- An event of more than 4 GiB that begins like an empty record. -/
def imitation (filler : Bytes) : LogEvent :=
  .enqueue 0 (le32 (enqueueEventCrc (payloadHeader kEnqueueMagic 0 []) []) ++
    (le32 kFooterMagic ++ filler))

lemma imitation_eq {filler : Bytes} (h : filler.length = 2 ^ 32 - 8) :
    ∃ rest, (imitation filler).encode = (LogEvent.enqueue 0 []).encode ++ (filler ++ rest) := by
  set payload := le32 (enqueueEventCrc (payloadHeader kEnqueueMagic 0 []) []) ++
    (le32 kFooterMagic ++ filler) with hpayload
  have hlen : payload.length = 4 + (4 + (2 ^ 32 - 8)) := by
    rw [hpayload, List.length_append, List.length_append, length_le32, length_le32, h]
  -- the length in the header has wrapped
  have hheader : ({ magic := kEnqueueMagic, sequence := 0, payloadBytes := u32 payload.length } :
      EnqueueHeader) = payloadHeader kEnqueueMagic 0 [] := by
    rw [hlen]
    rfl
  have hempty : (LogEvent.enqueue 0 []).encode = (payloadHeader kEnqueueMagic 0 []).bytes ++
      (le32 (enqueueEventCrc (payloadHeader kEnqueueMagic 0 []) []) ++ le32 kFooterMagic) := by
    rw [LogEvent.encode, serializeEnqueueEvent, serializePayloadEvent_eq (by decide),
      List.nil_append]
  refine ⟨le32 (enqueueEventCrc (payloadHeader kEnqueueMagic 0 []) payload) ++
    le32 kFooterMagic, ?_⟩
  show serializePayloadEvent kEnqueueMagic 0 payload = _
  unfold serializePayloadEvent
  dsimp only
  rw [hheader, hempty]
  simp only [hpayload, List.append_assoc]

/-- A segment file above the read guard is refused. -/
lemma not_agrees_above {cfg : AppendLogConfig} {evs : List LogEvent} {cut : Bytes}
    (h : kMaxReplaySegmentReadBytes < logBytes evs + cut.length) :
    ¬Agrees (plainEnv .posix) cfg 1 evs cut true [] {} (oneSegment 1 evs cut) := by
  rintro ⟨-, hrun⟩
  rw [if_pos (.inl rfl), ← refusing_none (plainEnv .posix)] at hrun
  have hlog : Disk.log cfg (oneSegment 1 evs cut).disk 1 = none := by
    cases hl : Disk.log cfg (oneSegment 1 evs cut).disk 1 with
    | none => rfl
    | some p =>
      obtain ⟨⟨-, -, s, -, hfile⟩, -, hsize⟩ := log_eq_some_iff.1 hl
      have hdata := Option.some.inj ((AList.lookup_insert _).symm.trans hfile)
      have hlen := congrArg List.length hdata
      rw [length_segmentData, length_segmentData] at hlen
      omega
  have hscan := Act.Within.run within_scanSegment hrun
  rw [hlog] at hscan
  obtain ⟨⟨st, hst, -⟩, -⟩ := hscan
  simp at hst

/-- A segment that fills the guard is not read when a byte follows; an event of more than 4 GiB can
begin like a whole one; and LittleFS loses the log when the tail is cut. -/
theorem segment_codec_disagrees :
    (∃ evs cut e, (∀ e ∈ evs, e.Allowed bigRecords.maxRecordBytes) ∧
      (segmentData 1 0 evs []).length ≤ kMaxReplaySegmentReadBytes ∧
      CutOf bigRecords.maxRecordBytes cut e ∧
      ¬Agrees (plainEnv .posix) bigRecords 1 evs cut true [] {} (oneSegment 1 evs cut)) ∧
    (∃ cut e, CutOf bigRecords.maxRecordBytes cut e ∧
      (segmentData 1 0 [] cut).length ≤ kMaxReplaySegmentReadBytes ∧
      ¬Agrees (plainEnv .posix) bigRecords 1 [] cut true [] {} (oneSegment 1 [] cut)) ∧
    ∃ evs cut e, (∀ e ∈ evs, e.Allowed bigRecords.maxRecordBytes) ∧
      CutOf bigRecords.maxRecordBytes cut e ∧ e.encode.length < 2 ^ 32 ∧
      (segmentData 1 0 evs cut).length ≤ kMaxReplaySegmentReadBytes ∧
      (Disk.recoverTail (plainEnv .littleFS) (oneSegment 1 evs cut).disk 1 evs cut).lookup
        (segmentName 1) ≠ some (segmentData 1 0 evs []) := by
  have hpop : CutOf bigRecords.maxRecordBytes ((LogEvent.pop 0).encode.take 1) (.pop 0) :=
    ⟨(by decide : 0 < 2 ^ 32), by decide +kernel, by decide +kernel, by decide +kernel⟩
  refine ⟨?_, ?_, [], (LogEvent.pop 0).encode.take 1, .pop 0, by simp, hpop, by decide +kernel,
    by decide +kernel, by decide +kernel⟩
  · obtain ⟨big, hbig⟩ : ∃ b : Bytes, b.length = kMaxReplaySegmentReadBytes - 44 :=
      ⟨List.replicate _ 0, List.length_replicate⟩
    have hlog : logBytes [.enqueue 0 big] = kMaxReplaySegmentReadBytes := by
      rw [logBytes, encodeEvents_cons, encodeEvents_nil, List.append_nil, LogEvent.encode,
        serializeEnqueueEvent, length_serializePayloadEvent, hbig]
      rfl
    refine ⟨[.enqueue 0 big], _, _, fun e he => ?_, ?_, hpop, not_agrees_above ?_⟩
    · obtain rfl := List.mem_singleton.1 he
      refine ⟨by decide, ?_⟩
      rw [hbig]
      decide
    · rw [length_segmentData, hlog]
      exact Nat.le_refl _
    · rw [hlog]
      decide +kernel
  · obtain ⟨filler, hfiller⟩ : ∃ b : Bytes, b.length = 2 ^ 32 - 8 :=
      ⟨List.replicate _ 0, List.length_replicate⟩
    obtain ⟨rest, himitation⟩ := imitation_eq hfiller
    have hlen : (LogEvent.enqueue 0 []).encode.length = 24 := by decide +kernel
    refine ⟨(LogEvent.enqueue 0 []).encode, imitation filler, ⟨⟨by decide, ?_⟩, ?_, ?_, ?_⟩, ?_, ?_⟩
    · rw [List.length_append, List.length_append, length_le32, length_le32, hfiller]
      decide
    · exact List.ne_nil_of_length_pos (by rw [hlen]; decide)
    · rw [himitation, List.length_append, List.length_append, hfiller]
      omega
    · rw [himitation, List.take_left]
    · rw [length_segmentData, hlen]
      decide
    · rintro ⟨hread, -⟩
      have hfits : ∀ e ∈ [LogEvent.enqueue 0 []], e.Fits bigRecords.maxRecordBytes := by
        intro e he
        obtain rfl := List.mem_singleton.1 he
        exact ⟨by decide, by decide, by decide⟩
      have hone : readLog bigRecords.maxRecordBytes
          (encodeEvents [LogEvent.enqueue 0 []] ++ []).length
          (encodeEvents [LogEvent.enqueue 0 []] ++ []) = [LogEvent.enqueue 0 []] :=
        readLog_log hfits (if_pos rfl) (Nat.le_refl _)
      rw [encodeEvents_cons, encodeEvents_nil, List.append_nil, List.append_nil] at hone
      rw [encodeEvents_nil, List.nil_append, hone] at hread
      simp at hread

end Pqueue
