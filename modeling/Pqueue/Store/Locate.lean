import Pqueue.Log.Compact
import Pqueue.Store.Scan

/-!
# Where the records of a log lie

Replaying the events of segments builds a list of locations.  `locate` gives each event the
location the replay gives it, so that the replay of the store is the replay of a keyed log of
locations (`replayEvents_records`), and looking the locations up in the directory gives the
replay of the keyed log of payloads (`view_replay_locatedLog`).
-/

namespace Pqueue

open LittleEndian

/-! ## Events with their payloads -/

/-- The event of the keyed log: sequence and payload. -/
def LogEvent.keyed : LogEvent → QueueLog.Event ℕ (ℕ × Bytes)
  | .enqueue seq payload => .push (seq, payload)
  | .rewrite seq payload => .put (seq, payload)
  | .pop seq => .pop seq

/-- What a log replays to: the live records, sequence and payload, the queue head first. -/
def logContents (evs : List LogEvent) : List (ℕ × Bytes) :=
  QueueLog.replay Prod.fst [] (evs.map LogEvent.keyed)

/-! ## Events with their locations -/

/-- The event at `offset` of segment `gen`, with the location of its payload. -/
def LogEvent.located (gen offset : ℕ) : LogEvent → QueueLog.Event ℕ SegmentRecord
  | .enqueue seq payload => .push ⟨seq, gen, offset + kEnqueueHeaderBytes, payload.length⟩
  | .rewrite seq payload => .put ⟨seq, gen, offset + kEnqueueHeaderBytes, payload.length⟩
  | .pop seq => .pop seq

/-- The events of segment `gen` from `offset` on, with their locations. -/
def locate (gen : ℕ) : ℕ → List LogEvent → List (QueueLog.Event ℕ SegmentRecord)
  | _, [] => []
  | offset, e :: evs => e.located gen offset :: locate gen (offset + e.encode.length) evs

lemma locate_append (gen offset : ℕ) (evs evs' : List LogEvent) :
    locate gen offset (evs ++ evs') =
      locate gen offset evs ++ locate gen (offset + (encodeEvents evs).length) evs' := by
  induction evs generalizing offset with
  | nil => rfl
  | cons e evs ih =>
    simp only [List.cons_append, locate, ih, encodeEvents_cons, List.length_append, Nat.add_assoc]

lemma event_records (last : Bool) (gen offset : ℕ) (e : LogEvent) (st : Replay) :
    (st.event last gen offset e).records =
      QueueLog.step SegmentRecord.sequence st.records (e.located gen offset) := by
  cases e with
  | enqueue seq payload =>
    simp only [Replay.event, Replay.payloadEvent, if_true]
    rfl
  | rewrite seq payload =>
    have hne : ¬kRewriteMagic = kEnqueueMagic := by decide
    simp only [Replay.event, Replay.payloadEvent, hne, if_false]
    rfl
  | pop seq =>
    obtain ⟨records, next, affected⟩ := st
    cases records with
    | nil => rfl
    | cons r rs =>
      simp only [Replay.event, Replay.popEvent, LogEvent.located, QueueLog.step,
        QueueLog.dropFront]
      by_cases h : r.sequence = seq
      · rw [if_pos h]
        exact congrArg Replay.records (if_pos h)
      · rw [if_neg h]
        exact congrArg Replay.records (if_neg h)

lemma replayEvents_records (last : Bool) (gen offset : ℕ) (evs : List LogEvent) (st : Replay) :
    (replayEvents last gen offset evs st).records =
      QueueLog.replay SegmentRecord.sequence st.records (locate gen offset evs) := by
  induction evs generalizing offset st with
  | nil => rfl
  | cons e evs ih => rw [replayEvents, ih, event_records, locate, QueueLog.replay_cons]

/-- The events of several segments, with their locations. -/
def locatedLog (seg : ℕ → List LogEvent) (gens : List ℕ) : List (QueueLog.Event ℕ SegmentRecord) :=
  gens.flatMap fun g => locate g kSegmentHeaderBytes (seg g)

@[simp] lemma locatedLog_nil (seg : ℕ → List LogEvent) : locatedLog seg [] = [] := rfl

lemma locatedLog_cons (seg : ℕ → List LogEvent) (g : ℕ) (gens : List ℕ) :
    locatedLog seg (g :: gens) = locate g kSegmentHeaderBytes (seg g) ++ locatedLog seg gens := rfl

lemma locatedLog_append (seg : ℕ → List LogEvent) (gens gens' : List ℕ) :
    locatedLog seg (gens ++ gens') = locatedLog seg gens ++ locatedLog seg gens' :=
  List.flatMap_append

lemma locatedLog_congr {seg seg' : ℕ → List LogEvent} {gens : List ℕ}
    (h : ∀ g ∈ gens, seg' g = seg g) : locatedLog seg' gens = locatedLog seg gens := by
  induction gens with
  | nil => rfl
  | cons g gens ih =>
    rw [locatedLog_cons, locatedLog_cons, h g (List.mem_cons_self ..),
      ih fun g' hg' => h g' (List.mem_cons_of_mem _ hg')]

/-- What a located event writes lies in the segment it was located in. -/
lemma located_writes {gen offset : ℕ} {evs : List LogEvent} {e : QueueLog.Event ℕ SegmentRecord}
    (he : e ∈ locate gen offset evs) {r : SegmentRecord} (hw : e.Writes r) :
    r.segmentGeneration = gen := by
  induction evs generalizing offset with
  | nil => cases he
  | cons ev evs ih =>
    rcases List.mem_cons.1 he with rfl | he
    · cases ev <;> rcases hw with hw | hw <;> cases hw <;> rfl
    · exact ih he

lemma locatedLog_writes {seg : ℕ → List LogEvent} {gens : List ℕ}
    {e : QueueLog.Event ℕ SegmentRecord} (he : e ∈ locatedLog seg gens) {r : SegmentRecord}
    (hw : e.Writes r) : r.segmentGeneration ∈ gens := by
  obtain ⟨g, hg, hmem⟩ := List.mem_flatMap.1 he
  rwa [located_writes hmem hw]

/-! ## Looking a location up -/

/-- The sequence of a record and its payload in the directory. -/
def SegmentRecord.view (d : Disk) (r : SegmentRecord) : ℕ × Bytes :=
  (r.sequence,
    (((d.lookup (segmentName r.segmentGeneration)).getD []).drop
      r.payloadOffset).take r.payloadBytes)

lemma view_enqueue {pre rest payload : Bytes} {magic seq : ℕ} :
    ((pre ++ (serializePayloadEvent magic seq payload ++ rest)).drop
      (pre.length + kEnqueueHeaderBytes)).take payload.length = payload := by
  rw [← List.drop_drop, List.drop_left, serializePayloadEvent]
  generalize hh : ({ magic := magic, sequence := seq, payloadBytes := u32 payload.length } :
    EnqueueHeader) = h
  rw [List.append_assoc, List.append_assoc, List.drop_left' (EnqueueHeader.length_bytes h),
    List.take_left]

/-- The locations of the events of a segment, looked up, are the events. -/
lemma view_locate {d : Disk} {gen : ℕ} {pre rest : Bytes} {evs : List LogEvent}
    (hl : d.lookup (segmentName gen) = some (pre ++ (encodeEvents evs ++ rest))) :
    (locate gen pre.length evs).map (QueueLog.Event.map (SegmentRecord.view d)) =
      evs.map LogEvent.keyed := by
  induction evs generalizing pre with
  | nil => rfl
  | cons e evs ih =>
    rw [encodeEvents_cons, List.append_assoc] at hl
    rw [← List.append_assoc] at hl
    have hnext := ih hl
    rw [List.length_append] at hnext
    rw [List.append_assoc] at hl
    rw [locate, List.map_cons, List.map_cons, hnext]
    congr 1
    cases e with
    | enqueue seq payload =>
      simp only [LogEvent.located, QueueLog.Event.map, SegmentRecord.view, hl, Option.getD_some,
        LogEvent.encode, serializeEnqueueEvent, view_enqueue, LogEvent.keyed]
    | rewrite seq payload =>
      simp only [LogEvent.located, QueueLog.Event.map, SegmentRecord.view, hl, Option.getD_some,
        LogEvent.encode, serializeRewriteEvent, view_enqueue, LogEvent.keyed]
    | pop seq => rfl

/-- The records a replay of several segments yields, looked up, are what the log replays to. -/
lemma view_replay_locatedLog {d : Disk} {seg : ℕ → List LogEvent} {gens : List ℕ}
    (h : ∀ g ∈ gens, ∃ pre rest : Bytes, pre.length = kSegmentHeaderBytes ∧
      d.lookup (segmentName g) = some (pre ++ (encodeEvents (seg g) ++ rest))) :
    (QueueLog.replay SegmentRecord.sequence [] (locatedLog seg gens)).map (SegmentRecord.view d) =
      logContents (gens.flatMap seg) := by
  have hmap : (locatedLog seg gens).map (QueueLog.Event.map (SegmentRecord.view d)) =
      (gens.flatMap seg).map LogEvent.keyed := by
    induction gens with
    | nil => rfl
    | cons g gens ih =>
      obtain ⟨pre, rest, hpre, hl⟩ := h g (List.mem_cons_self ..)
      rw [locatedLog_cons, List.map_append, List.flatMap_cons, List.map_append, ← hpre,
        view_locate hl, ih fun g' hg' => h g' (List.mem_cons_of_mem _ hg')]
  rw [logContents, ← hmap]
  have hkey : ∀ r, Prod.fst (SegmentRecord.view d r) = r.sequence := fun _ => rfl
  exact (QueueLog.replay_map hkey [] _).symm

end Pqueue
