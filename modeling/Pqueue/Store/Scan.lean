import Pqueue.Format.Codec
import Pqueue.Store.Mount

/-!
# The scanner reads back a log

A segment is, after its header, a list of events and what stopped the scan.  `scanStep` finds
an event exactly where one was serialised (`scanStep_encode`, `scanStep_cases`), a strict prefix
of an event is torn (`scanStep_take`), and the event loop replays the list of events it finds
(`scanEvents_log`).
-/

namespace Pqueue

open LittleEndian

/-! ## Events -/

/-- An event of the log. -/
inductive LogEvent
  | enqueue (sequence : ℕ) (payload : Bytes)
  | rewrite (sequence : ℕ) (payload : Bytes)
  | pop (sequence : ℕ)
  deriving DecidableEq

namespace LogEvent

/-- The bytes of an event. -/
def encode : LogEvent → Bytes
  | enqueue seq payload => serializeEnqueueEvent seq payload
  | rewrite seq payload => serializeRewriteEvent seq payload
  | pop seq => serializePopEvent seq

/-- The event can be written and is within the record limit of the reader. -/
def Fits (maxRecordBytes : ℕ) : LogEvent → Prop
  | enqueue seq payload | rewrite seq payload =>
    seq < 2 ^ 32 ∧ payload.length ≤ maxRecordBytes ∧ payload.length + kEnqueueOverheadBytes < 2 ^ 32
  | pop seq => seq < 2 ^ 32

/-- What the scanner reports for the event. -/
def found (rest : Bytes) : LogEvent → ScanStep
  | enqueue seq payload =>
    .payloadEvent { sequence := seq, payloadBytes := payload.length } payload rest
  | rewrite seq payload =>
    .payloadEvent { magic := kRewriteMagic, sequence := seq, payloadBytes := payload.length }
      payload rest
  | pop seq => .popEvent (popEventOf seq) rest

end LogEvent

/-- The bytes of a list of events. -/
def encodeEvents (evs : List LogEvent) : Bytes := evs.flatMap LogEvent.encode

@[simp] lemma encodeEvents_nil : encodeEvents [] = [] := rfl

@[simp] lemma encodeEvents_cons (e : LogEvent) (evs : List LogEvent) :
    encodeEvents (e :: evs) = e.encode ++ encodeEvents evs := rfl

lemma encodeEvents_append (evs evs' : List LogEvent) :
    encodeEvents (evs ++ evs') = encodeEvents evs ++ encodeEvents evs' := List.flatMap_append

lemma length_serializePayloadEvent (magic seq : ℕ) (payload : Bytes) :
    (serializePayloadEvent magic seq payload).length = kEnqueueOverheadBytes + payload.length := by
  simp only [serializePayloadEvent, List.length_append, EnqueueHeader.length_bytes, length_le32,
    kEnqueueOverheadBytes, kEnqueueHeaderBytes, kEventTrailerBytes]
  omega

lemma LogEvent.length_encode_pos (e : LogEvent) : kPopEventBytes ≤ e.encode.length := by
  cases e with
  | enqueue seq payload =>
    rw [encode, serializeEnqueueEvent, length_serializePayloadEvent]
    simp only [kPopEventBytes, kEnqueueOverheadBytes, kEnqueueHeaderBytes, kEventTrailerBytes]
    omega
  | rewrite seq payload =>
    rw [encode, serializeRewriteEvent, length_serializePayloadEvent]
    simp only [kPopEventBytes, kEnqueueOverheadBytes, kEnqueueHeaderBytes, kEventTrailerBytes]
    omega
  | pop seq => exact le_rfl

/-! ## One event -/

/-- The header of a payload event. -/
def payloadHeader (magic seq : ℕ) (payload : Bytes) : EnqueueHeader :=
  { magic := magic, sequence := seq, payloadBytes := payload.length }

lemma serializePayloadEvent_eq {magic seq : ℕ} {payload : Bytes}
    (hlen : payload.length + kEnqueueOverheadBytes < 2 ^ 32) :
    serializePayloadEvent magic seq payload = (payloadHeader magic seq payload).bytes ++ (payload ++
      (le32 (enqueueEventCrc (payloadHeader magic seq payload) payload) ++
        le32 kFooterMagic)) := by
  rw [serializePayloadEvent, u32_of_lt (Nat.lt_of_le_of_lt (Nat.le_add_right ..) hlen)]
  rfl

lemma totalEventBytes_payloadHeader {magic seq : ℕ} {payload : Bytes}
    (hlen : payload.length + kEnqueueOverheadBytes < 2 ^ 32) :
    (payloadHeader magic seq payload).totalEventBytes =
      kEnqueueOverheadBytes + payload.length := by
  simp only [EnqueueHeader.totalEventBytes, payloadHeader, kEnqueueOverheadBytes,
    kEnqueueHeaderBytes, kEventTrailerBytes] at hlen ⊢
  rw [u32_of_lt (by omega)]
  omega

lemma scanPayload_serialize {magic seq : ℕ} {payload : Bytes}
    (hlen : payload.length + kEnqueueOverheadBytes < 2 ^ 32) (rest : Bytes) :
    scanPayload (payloadHeader magic seq payload)
      (serializePayloadEvent magic seq payload ++ rest) =
        .payloadEvent (payloadHeader magic seq payload) payload rest := by
  set h := payloadHeader magic seq payload with hh
  have hpb : h.payloadBytes = payload.length := rfl
  have hu : u32 (payload.length + kEventTrailerBytes) = payload.length + kEventTrailerBytes := by
    simp only [kEnqueueOverheadBytes, kEnqueueHeaderBytes, kEventTrailerBytes] at hlen ⊢
    exact u32_of_lt (by omega)
  have htlen : (payload ++ (le32 (enqueueEventCrc h payload) ++ le32 kFooterMagic)).length =
      payload.length + kEventTrailerBytes := by
    simp only [List.length_append, length_le32, kEventTrailerBytes]
  have htrail : ((serializePayloadEvent magic seq payload ++ rest).drop kEnqueueHeaderBytes).take
      (payload.length + kEventTrailerBytes) =
        payload ++ (le32 (enqueueEventCrc h payload) ++ le32 kFooterMagic) := by
    rw [serializePayloadEvent_eq hlen, ← hh, List.append_assoc,
      List.drop_left' (EnqueueHeader.length_bytes h), List.take_left' htlen]
  have hdrop : (serializePayloadEvent magic seq payload ++ rest).drop h.totalEventBytes = rest := by
    rw [hh, totalEventBytes_payloadHeader hlen]
    exact List.drop_left' (length_serializePayloadEvent ..)
  have hfoot : read32 (le32 kFooterMagic) = some (kFooterMagic, []) :=
    read32_le32 (v := kFooterMagic) (by decide) []
  have hcrc : read32 (le32 (enqueueEventCrc h payload) ++ le32 kFooterMagic) =
      some (enqueueEventCrc h payload, le32 kFooterMagic) := read32_le32 (checksum_lt _) _
  simp only [scanPayload, hu, htrail, hdrop, htlen, lt_self_iff_false, if_false, hpb,
    List.drop_left, List.take_left, hcrc, hfoot, ne_eq, not_true_eq_false, or_self]

lemma scanStep_payloadEvent {m magic seq : ℕ} {payload : Bytes}
    (hmagic : magic = kEnqueueMagic ∨ magic = kRewriteMagic) (hseq : seq < 2 ^ 32)
    (hm : payload.length ≤ m) (hlen : payload.length + kEnqueueOverheadBytes < 2 ^ 32)
    (rest : Bytes) :
    scanStep m (serializePayloadEvent magic seq payload ++ rest) =
      .payloadEvent (payloadHeader magic seq payload) payload rest := by
  have hmag_lt : magic < 2 ^ 32 := by
    rcases hmagic with rfl | rfl
    · decide
    · decide
  set bytes := serializePayloadEvent magic seq payload ++ rest with hbytes
  have hlength : bytes.length = kEnqueueOverheadBytes + payload.length + rest.length := by
    rw [hbytes, List.length_append, length_serializePayloadEvent]
  have hsplit : bytes = (payloadHeader magic seq payload).bytes ++ (payload ++
      (le32 (enqueueEventCrc (payloadHeader magic seq payload) payload) ++ le32 kFooterMagic) ++
        rest) := by
    rw [hbytes, serializePayloadEvent_eq hlen, List.append_assoc]
  have hread : ∃ r, read32 bytes = some (magic, r) := by
    rw [hsplit]
    exact ⟨_, read32_le32 hmag_lt _⟩
  obtain ⟨r, hread⟩ := hread
  have hpay_lt : payload.length < 2 ^ 32 := Nat.lt_of_le_of_lt (Nat.le_add_right ..) hlen
  have hparse : parseEnqueueHeader (bytes.take kEnqueueHeaderBytes) =
      some (payloadHeader magic seq payload) := by
    rw [hsplit, List.take_left' (EnqueueHeader.length_bytes _), parseEnqueueHeader,
      ← List.append_nil (EnqueueHeader.bytes _),
      readEnqueueHeader_bytes ⟨hmag_lt, show kFormatVersion < 2 ^ 16 by decide,
        show kEnqueueHeaderBytes < 2 ^ 16 by decide, hseq, hpay_lt⟩]
    exact Option.filter_some_pos (decide_eq_true ⟨hmagic, rfl, rfl⟩)
  have h16 : ¬bytes.length < kEnqueueHeaderBytes := by
    rw [hlength]
    simp only [kEnqueueOverheadBytes]
    omega
  have htotal : ¬(payloadHeader magic seq payload).totalEventBytes > bytes.length := by
    rw [totalEventBytes_payloadHeader hlen, hlength]
    omega
  have hmax : ¬(payloadHeader magic seq payload).payloadBytes > m := not_lt.2 hm
  simp only [scanStep, hread, hmagic, if_true, h16, if_false, hparse, hmax, htotal]
  exact scanPayload_serialize hlen rest

lemma scanStep_pop {m seq : ℕ} (hseq : seq < 2 ^ 32) (rest : Bytes) :
    scanStep m (serializePopEvent seq ++ rest) = .popEvent (popEventOf seq) rest := by
  have hread : ∃ r, read32 (serializePopEvent seq ++ rest) = some (kPopMagic, r) :=
    ⟨_, read32_le32 (v := kPopMagic) (by decide) _⟩
  obtain ⟨r, hread⟩ := hread
  have h20 : ¬(serializePopEvent seq ++ rest).length < kPopEventBytes := by
    rw [List.length_append, length_serializePopEvent]
    omega
  have hparse : parsePopEvent ((serializePopEvent seq ++ rest).take kPopEventBytes) =
      some (popEventOf seq) := by
    rw [List.take_left' (length_serializePopEvent seq), ← List.append_nil (serializePopEvent seq),
      parsePopEvent_serialize hseq]
  have hne : ¬(kPopMagic = kEnqueueMagic ∨ kPopMagic = kRewriteMagic) := by decide
  simp only [scanStep, hread, hne, if_false, if_true, h20, hparse,
    List.drop_left' (length_serializePopEvent seq)]

/-- The scanner finds a serialised event. -/
lemma scanStep_encode {m : ℕ} {e : LogEvent} (he : e.Fits m) (rest : Bytes) :
    scanStep m (e.encode ++ rest) = e.found rest := by
  cases e with
  | enqueue seq payload => exact scanStep_payloadEvent (.inl rfl) he.1 he.2.1 he.2.2 rest
  | rewrite seq payload => exact scanStep_payloadEvent (.inr rfl) he.1 he.2.1 he.2.2 rest
  | pop seq => exact scanStep_pop he rest

/-- What a payload scan reports was serialised there. -/
lemma scanPayload_eq_event {eh h : EnqueueHeader} {bytes payload rest : Bytes}
    (hlen : bytes.length < 2 ^ 32) (hs : scanPayload eh bytes = .payloadEvent h payload rest) :
    h = eh ∧ payload.length = eh.payloadBytes ∧
      bytes.drop kEnqueueHeaderBytes = payload ++
        (le32 (enqueueEventCrc eh payload) ++ le32 kFooterMagic) ++ rest ∧
      payload.length + kEnqueueOverheadBytes + rest.length ≤ bytes.length := by
  simp only [scanPayload] at hs
  set trailer := (bytes.drop kEnqueueHeaderBytes).take (u32 (eh.payloadBytes + kEventTrailerBytes))
    with htrailer
  split at hs
  · cases hs
  next hfull =>
  split at hs
  · cases hs
  next storedCrc r hcrc =>
  split at hs
  · cases hs
  next storedFooter r' hfoot =>
  split at hs
  · cases hs
  next hok =>
  simp only [not_or, not_not, ne_eq] at hok
  obtain ⟨rfl, rfl⟩ := hok
  obtain ⟨hcrc, -⟩ := read32_eq_some hcrc
  obtain ⟨hfoot, -⟩ := read32_eq_some hfoot
  simp only [ScanStep.payloadEvent.injEq] at hs
  obtain ⟨rfl, rfl, rfl⟩ := hs
  -- the two words are there, so the 32-bit count has not wrapped
  have hcount : u32 (eh.payloadBytes + kEventTrailerBytes) ≤ eh.payloadBytes + kEventTrailerBytes :=
    Nat.mod_le _ _
  have htl : trailer.length ≤ u32 (eh.payloadBytes + kEventTrailerBytes) := by
    rw [htrailer, List.length_take]
    exact Nat.min_le_left ..
  have htb : trailer.length ≤ bytes.length - kEnqueueHeaderBytes := by
    rw [htrailer, List.length_take, List.length_drop]
    exact Nat.min_le_right ..
  have hdl := congrArg List.length hcrc
  rw [hfoot, List.length_drop, List.length_append, List.length_append, length_le32,
    length_le32] at hdl
  have hr' : r' = [] := by
    refine List.eq_nil_of_length_eq_zero ?_
    simp only [kEventTrailerBytes] at hcount hfull htl hdl
    omega
  have hplen : (trailer.take eh.payloadBytes).length = eh.payloadBytes := by
    rw [List.length_take]
    simp only [kEventTrailerBytes] at hcount hfull htl hdl
    omega
  have hsum : u32 (eh.payloadBytes + kEventTrailerBytes) =
      eh.payloadBytes + kEventTrailerBytes := by
    rw [hr', List.length_nil] at hdl
    simp only [kEventTrailerBytes] at hcount hfull htl hdl ⊢
    omega
  have htotal : eh.totalEventBytes = kEnqueueHeaderBytes +
      (eh.payloadBytes + kEventTrailerBytes) := by
    rw [EnqueueHeader.totalEventBytes, u32_of_lt, Nat.add_assoc]
    rw [hr', List.length_nil] at hdl
    simp only [kEventTrailerBytes, kEnqueueHeaderBytes] at hdl htb ⊢
    omega
  have hsplit : trailer = trailer.take eh.payloadBytes ++
      (le32 (enqueueEventCrc eh (trailer.take eh.payloadBytes)) ++ le32 kFooterMagic) := by
    conv_lhs => rw [← List.take_append_drop eh.payloadBytes trailer, hcrc, hfoot, hr',
      List.append_nil]
  refine ⟨rfl, hplen, ?_, ?_⟩
  · rw [← hsplit, htotal, ← List.drop_drop, htrailer, hsum, List.take_append_drop]
  · rw [hplen, htotal, List.length_drop]
    rw [hr', List.length_nil] at hdl
    simp only [kEventTrailerBytes, kEnqueueHeaderBytes, kEnqueueOverheadBytes] at hdl htb ⊢
    omega

/-- The scanner stops at the bytes, or finds an event that was serialised there. -/
lemma scanStep_cases {m : ℕ} {bytes : Bytes} (hlen : bytes.length < 2 ^ 32) :
    scanStep m bytes = .torn ∨ scanStep m bytes = .corrupt ∨ scanStep m bytes = .pastEnd ∨
      ∃ e : LogEvent, ∃ rest, e.Fits m ∧ bytes = e.encode ++ rest ∧
        scanStep m bytes = e.found rest := by
  cases hs : scanStep m bytes with
  | torn => exact .inl rfl
  | corrupt => exact .inr (.inl rfl)
  | pastEnd => exact .inr (.inr (.inl rfl))
  | payloadEvent h payload rest =>
    refine .inr (.inr (.inr ?_))
    rw [← hs]
    simp only [scanStep] at hs
    split at hs
    · cases hs
    next magic r hread =>
    split at hs
    · next hmagic =>
      split at hs
      · cases hs
      next h16 =>
      split at hs
      · cases hs
      next eh hparse =>
      split at hs
      · cases hs
      next hmax =>
      split at hs
      · cases hs
      next htotal =>
      obtain ⟨rfl, hpl, hdrop, hle⟩ := scanPayload_eq_event hlen hs
      obtain ⟨tl, htake, hv, hb⟩ := parseEnqueueHeader_eq_some hparse
      have htl : tl = [] := by
        have := congrArg List.length htake
        rw [List.length_take, List.length_append, EnqueueHeader.length_bytes] at this
        exact List.eq_nil_of_length_eq_zero (by omega)
      have hfits : payload.length + kEnqueueOverheadBytes < 2 ^ 32 := by omega
      have hh : h = payloadHeader h.magic h.sequence payload := by
        obtain ⟨-, hv2, hv3⟩ := hv
        cases h
        simp only at hv2 hv3 hpl
        rw [payloadHeader, hpl, hv2, hv3]
      have hbytes : bytes = serializePayloadEvent h.magic h.sequence payload ++ rest := by
        rw [serializePayloadEvent_eq hfits, ← hh, List.append_assoc, ← hdrop,
          ← List.append_nil h.bytes, ← htl, ← htake, List.take_append_drop]
      rcases hv.1 with hm | hm
      · refine ⟨.enqueue h.sequence payload, rest, ⟨hb.2.2.2.1, hpl ▸ not_lt.1 hmax, hfits⟩, ?_, ?_⟩
        · rw [hbytes, hm]
          rfl
        · rw [hbytes, hm]
          exact scanStep_payloadEvent (.inl rfl) hb.2.2.2.1 (hpl ▸ not_lt.1 hmax) hfits rest
      · refine ⟨.rewrite h.sequence payload, rest, ⟨hb.2.2.2.1, hpl ▸ not_lt.1 hmax, hfits⟩, ?_, ?_⟩
        · rw [hbytes, hm]
          rfl
        · rw [hbytes, hm]
          exact scanStep_payloadEvent (.inr rfl) hb.2.2.2.1 (hpl ▸ not_lt.1 hmax) hfits rest
    · split at hs
      · split at hs
        · cases hs
        · split at hs <;> cases hs
      · cases hs
  | popEvent pe rest =>
    refine .inr (.inr (.inr ?_))
    rw [← hs]
    simp only [scanStep] at hs
    split at hs
    · cases hs
    split at hs
    · split at hs
      · cases hs
      split at hs
      · cases hs
      split at hs
      · cases hs
      split at hs
      · cases hs
      · simp only [scanPayload] at hs
        repeat (split at hs; · cases hs)
        cases hs
    split at hs
    · split at hs
      · cases hs
      next h20 =>
      split at hs
      · cases hs
      next e hparse =>
      obtain ⟨rfl, rfl⟩ := ScanStep.popEvent.inj hs
      obtain ⟨tl, htake, he, hseq⟩ := parsePopEvent_eq_some hparse
      have htl : tl = [] := by
        have := congrArg List.length htake
        rw [List.length_take, List.length_append, length_serializePopEvent] at this
        exact List.eq_nil_of_length_eq_zero (by omega)
      have hbytes : bytes = serializePopEvent e.sequence ++ bytes.drop kPopEventBytes := by
        conv_lhs => rw [← List.take_append_drop kPopEventBytes bytes, htake, htl, List.append_nil]
      refine ⟨.pop e.sequence, _, hseq, hbytes, ?_⟩
      conv_lhs => rw [hbytes]
      exact scanStep_pop hseq _
    · cases hs

/-! ## Torn events -/

lemma read32_short {bs : Bytes} (h : bs.length < 4) : read32 bs = none := by
  match bs, h with
  | [], _ => rfl
  | [_], _ => rfl
  | [_, _], _ => rfl
  | [_, _, _], _ => rfl

/-- A strict prefix of a payload event is torn. -/
lemma scanStep_take_payloadEvent {m magic seq : ℕ} {payload : Bytes}
    (hmagic : magic = kEnqueueMagic ∨ magic = kRewriteMagic) (hseq : seq < 2 ^ 32)
    (hm : payload.length ≤ m) (hlen : payload.length + kEnqueueOverheadBytes < 2 ^ 32) {n : ℕ}
    (hn : n < kEnqueueOverheadBytes + payload.length) :
    scanStep m ((serializePayloadEvent magic seq payload).take n) = .torn := by
  have hmag_lt : magic < 2 ^ 32 := by
    rcases hmagic with rfl | rfl
    · decide
    · decide
  have hlength : ((serializePayloadEvent magic seq payload).take n).length = n := by
    rw [List.length_take, length_serializePayloadEvent]
    exact Nat.min_eq_left hn.le
  rcases Nat.lt_or_ge n 4 with h4 | h4
  · rw [scanStep, read32_short (by rw [hlength]; exact h4)]
  · have hread : ∃ r, read32 ((serializePayloadEvent magic seq payload).take n) =
        some (magic, r) := by
      rw [serializePayloadEvent_eq hlen, EnqueueHeader.bytes, List.append_assoc,
        List.take_append, List.take_of_length_le (by rw [length_le32]; exact h4)]
      exact ⟨_, read32_le32 hmag_lt _⟩
    obtain ⟨r, hread⟩ := hread
    simp only [scanStep, hread, hmagic, if_true]
    rcases Nat.lt_or_ge n kEnqueueHeaderBytes with h16 | h16
    · rw [if_pos (by rw [hlength]; exact h16)]
    · have hparse : parseEnqueueHeader (((serializePayloadEvent magic seq payload).take n).take
          kEnqueueHeaderBytes) = some (payloadHeader magic seq payload) := by
        rw [List.take_take, Nat.min_eq_left h16, serializePayloadEvent_eq hlen,
          List.take_left' (EnqueueHeader.length_bytes _), parseEnqueueHeader,
          ← List.append_nil (EnqueueHeader.bytes _),
          readEnqueueHeader_bytes ⟨hmag_lt, show kFormatVersion < 2 ^ 16 by decide,
            show kEnqueueHeaderBytes < 2 ^ 16 by decide, hseq,
            Nat.lt_of_le_of_lt (Nat.le_add_right ..) hlen⟩]
        exact Option.filter_some_pos (decide_eq_true ⟨hmagic, rfl, rfl⟩)
      have htotal : (payloadHeader magic seq payload).totalEventBytes > n := by
        rw [totalEventBytes_payloadHeader hlen]
        exact hn
      have hmax : ¬(payloadHeader magic seq payload).payloadBytes > m := not_lt.2 hm
      rw [if_neg (by rw [hlength]; exact not_lt.2 h16), hparse]
      simp only [hmax, if_false, hlength, htotal, if_true]

/-- **A torn event is torn**: the scanner never takes a strict prefix of an event for an event,
nor for corruption. -/
lemma scanStep_take {m : ℕ} {e : LogEvent} (he : e.Fits m) {n : ℕ} (hn : n < e.encode.length) :
    scanStep m (e.encode.take n) = .torn := by
  cases e with
  | enqueue seq payload =>
    refine scanStep_take_payloadEvent (.inl rfl) he.1 he.2.1 he.2.2 ?_
    rwa [LogEvent.encode, serializeEnqueueEvent, length_serializePayloadEvent] at hn
  | rewrite seq payload =>
    refine scanStep_take_payloadEvent (.inr rfl) he.1 he.2.1 he.2.2 ?_
    rwa [LogEvent.encode, serializeRewriteEvent, length_serializePayloadEvent] at hn
  | pop seq =>
    rw [LogEvent.encode, length_serializePopEvent] at hn
    have hlength : ((serializePopEvent seq).take n).length = n := by
      rw [List.length_take, length_serializePopEvent]
      exact Nat.min_eq_left hn.le
    rw [LogEvent.encode]
    rcases Nat.lt_or_ge n 4 with h4 | h4
    · rw [scanStep, read32_short (by rw [hlength]; exact h4)]
    · have hread : ∃ r, read32 ((serializePopEvent seq).take n) = some (kPopMagic, r) := by
        rw [serializePopEvent, PopEvent.covered, List.append_assoc, List.take_append,
          List.take_of_length_le (by rw [length_le32]; exact h4)]
        exact ⟨_, read32_le32 (v := kPopMagic) (by decide) _⟩
      obtain ⟨r, hread⟩ := hread
      have hne : ¬(kPopMagic = kEnqueueMagic ∨ kPopMagic = kRewriteMagic) := by decide
      simp only [scanStep, hread, hne, if_false, if_true, hlength, hn]

/-! ## The event loop -/

/-- Why the scan stops at these bytes: `some true` on corruption, `some false` at the end or at
a torn event, `none` when an event follows. -/
def stopsAt (maxRecordBytes : ℕ) (bytes : Bytes) : Option Bool :=
  if bytes = [] then some false
  else match scanStep maxRecordBytes bytes with
    | .torn => some false
    | .corrupt => some true
    | .pastEnd => some true
    | _ => none

/-- The events at the front of the bytes, with fuel. -/
def readLog (maxRecordBytes : ℕ) : ℕ → Bytes → List LogEvent
  | 0, _ => []
  | fuel + 1, bytes =>
    match scanStep maxRecordBytes bytes with
    | .torn => []
    | .corrupt => []
    | .pastEnd => []
    | .payloadEvent eh payload rest =>
      (if eh.magic = kEnqueueMagic then .enqueue eh.sequence payload
        else .rewrite eh.sequence payload) :: readLog maxRecordBytes fuel rest
    | .popEvent pe rest => .pop pe.sequence :: readLog maxRecordBytes fuel rest

/-- Replay one event that lies at `offset` of segment `gen`. -/
def Replay.event (isLastSegment : Bool) (gen offset : ℕ) (st : Replay) : LogEvent → Replay
  | .enqueue seq payload =>
    st.payloadEvent isLastSegment gen offset { sequence := seq, payloadBytes := payload.length }
  | .rewrite seq payload =>
    st.payloadEvent isLastSegment gen offset
      { magic := kRewriteMagic, sequence := seq, payloadBytes := payload.length }
  | .pop seq => st.popEvent isLastSegment (popEventOf seq)

/-- Replay the events of segment `gen` from `offset` on. -/
def replayEvents (isLastSegment : Bool) (gen : ℕ) : ℕ → List LogEvent → Replay → Replay
  | _, [], st => st
  | offset, e :: evs, st =>
    replayEvents isLastSegment gen (offset + e.encode.length) evs
      (st.event isLastSegment gen offset e)

lemma scanStep_nil (m : ℕ) : scanStep m [] = .torn := rfl

/-- **The event loop** on serialised events followed by bytes at which it stops. -/
lemma scanEvents_log {m : ℕ} {isLast : Bool} {gen : ℕ} {evs : List LogEvent} {rest : Bytes}
    {corrupt : Bool} (hev : ∀ e ∈ evs, e.Fits m) (hrest : stopsAt m rest = some corrupt)
    {fuel offset : ℕ} (hfuel : (encodeEvents evs ++ rest).length ≤ fuel) (st : Replay) :
    scanEvents m isLast gen fuel offset (encodeEvents evs ++ rest) st =
      ⟨replayEvents isLast gen offset evs st, offset + (encodeEvents evs).length, corrupt⟩ := by
  induction evs generalizing fuel offset st with
  | nil =>
    rw [encodeEvents_nil, List.nil_append] at hfuel ⊢
    rw [stopsAt] at hrest
    cases fuel with
    | zero =>
      obtain rfl : rest = [] := List.eq_nil_of_length_eq_zero (Nat.le_zero.1 hfuel)
      obtain rfl := Option.some.inj hrest
      rfl
    | succ fuel =>
      rw [scanEvents]
      split at hrest
      · next h =>
        rw [if_pos h, ← Option.some.inj hrest]
        rfl
      · next h =>
        rw [if_neg h]
        cases hs : scanStep m rest with
        | torn =>
          rw [hs] at hrest
          rw [← Option.some.inj hrest]
          rfl
        | corrupt | pastEnd =>
          rw [hs] at hrest
          rw [← Option.some.inj hrest]
          rfl
        | payloadEvent eh p r => rw [hs] at hrest; cases hrest
        | popEvent pe r => rw [hs] at hrest; cases hrest
  | cons e evs ih =>
    have hpos := e.length_encode_pos
    rw [encodeEvents_cons, List.append_assoc] at hfuel ⊢
    rw [List.length_append] at hfuel
    have hne : e.encode ++ (encodeEvents evs ++ rest) ≠ [] := by
      intro h
      have := congrArg List.length h
      rw [List.length_append, List.length_nil] at this
      simp only [kPopEventBytes] at hpos
      omega
    cases fuel with
    | zero =>
      simp only [kPopEventBytes] at hpos
      omega
    | succ fuel =>
      have hfuel' : (encodeEvents evs ++ rest).length ≤ fuel := by
        simp only [kPopEventBytes] at hpos
        omega
      have hfit := hev e (List.mem_cons_self ..)
      rw [scanEvents, if_neg hne, scanStep_encode hfit]
      have hih := fun off st =>
        @ih (fun e' he' => hev e' (List.mem_cons_of_mem _ he')) fuel off hfuel' st
      rw [List.length_append, ← Nat.add_assoc, replayEvents]
      cases e with
      | enqueue seq payload =>
        have hsize : (payloadHeader kEnqueueMagic seq payload).totalEventBytes =
            (LogEvent.enqueue seq payload).encode.length := by
          rw [totalEventBytes_payloadHeader hfit.2.2]
          exact (length_serializePayloadEvent ..).symm
        rw [← hsize]
        exact hih _ _
      | rewrite seq payload =>
        have hsize : (payloadHeader kRewriteMagic seq payload).totalEventBytes =
            (LogEvent.rewrite seq payload).encode.length := by
          rw [totalEventBytes_payloadHeader hfit.2.2]
          exact (length_serializePayloadEvent ..).symm
        rw [← hsize]
        exact hih _ _
      | pop seq => exact hih _ _

/-- Every byte string is a list of events followed by bytes at which the scanner stops. -/
lemma exists_log (m : ℕ) (bytes : Bytes) (hlen : bytes.length < 2 ^ 32) :
    ∃ evs rest corrupt, bytes = encodeEvents evs ++ rest ∧ (∀ e ∈ evs, e.Fits m) ∧
      stopsAt m rest = some corrupt := by
  induction hn : bytes.length using Nat.strong_induction_on generalizing bytes with
  | _ n ih =>
    by_cases hnil : bytes = []
    · exact ⟨[], bytes, false, rfl, fun _ h => absurd h List.not_mem_nil, by
        rw [stopsAt, if_pos hnil]⟩
    · have hnone : ∀ e ∈ ([] : List LogEvent), e.Fits m := by simp
      rcases scanStep_cases (m := m) hlen with hs | hs | hs | ⟨e, rest, hfit, rfl, hs⟩
      · exact ⟨[], bytes, false, rfl, hnone, by rw [stopsAt, if_neg hnil, hs]⟩
      · exact ⟨[], bytes, true, rfl, hnone, by rw [stopsAt, if_neg hnil, hs]⟩
      · exact ⟨[], bytes, true, rfl, hnone, by rw [stopsAt, if_neg hnil, hs]⟩
      · have hpos := e.length_encode_pos
        rw [List.length_append] at hn hlen
        simp only [kPopEventBytes] at hpos
        obtain ⟨evs, r, c, rfl, hfits, hstop⟩ := ih rest.length (by omega) rest (by omega) rfl
        refine ⟨e :: evs, r, c, ?_, fun e' he' => ?_, hstop⟩
        · rw [encodeEvents_cons, List.append_assoc]
        · rcases List.mem_cons.1 he' with rfl | he'
          · exact hfit
          · exact hfits e' he'

/-- Such a decomposition is unique: `readLog` computes the events. -/
lemma readLog_log {m : ℕ} {evs : List LogEvent} {rest : Bytes} {corrupt : Bool}
    (hev : ∀ e ∈ evs, e.Fits m) (hrest : stopsAt m rest = some corrupt) {fuel : ℕ}
    (hfuel : (encodeEvents evs ++ rest).length ≤ fuel) :
    readLog m fuel (encodeEvents evs ++ rest) = evs := by
  induction evs generalizing fuel with
  | nil =>
    rw [encodeEvents_nil, List.nil_append]
    cases fuel with
    | zero => rfl
    | succ fuel =>
      rw [readLog]
      rw [stopsAt] at hrest
      split at hrest
      · next h => rw [h, scanStep_nil]
      · cases hs : scanStep m rest with
        | torn => rfl
        | corrupt => rfl
        | pastEnd => rfl
        | payloadEvent eh p r => rw [hs] at hrest; cases hrest
        | popEvent pe r => rw [hs] at hrest; cases hrest
  | cons e evs ih =>
    have hpos := e.length_encode_pos
    rw [encodeEvents_cons, List.append_assoc, List.length_append] at hfuel
    simp only [kPopEventBytes] at hpos
    cases fuel with
    | zero => omega
    | succ fuel =>
      have hfit := hev e (List.mem_cons_self ..)
      have hfuel' : (encodeEvents evs ++ rest).length ≤ fuel := by omega
      have hih := ih (fun e' he' => hev e' (List.mem_cons_of_mem _ he')) hfuel'
      rw [encodeEvents_cons, List.append_assoc, readLog, scanStep_encode hfit]
      cases e with
      | enqueue seq payload => exact congrArg (LogEvent.enqueue seq payload :: ·) hih
      | rewrite seq payload => exact congrArg (LogEvent.rewrite seq payload :: ·) hih
      | pop seq => exact congrArg (LogEvent.pop seq :: ·) hih

end Pqueue
