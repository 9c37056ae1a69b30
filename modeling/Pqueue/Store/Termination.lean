import Pqueue.Store.Mounting

/-!
# The loops of mount

The two loops whose number of turns the bytes on disk decide are here turn by turn: the expansion
of a range, with a 32-bit counter (`rangeTurn`), and the event loop of a segment (`eventTurn`).
The event loop takes at least 20 bytes with each turn.  The expansion does not stop when a range
reaches up to the largest generation, which neither the parser nor the span guard excludes, and the
event loop reads past its buffer when a payload is so long that `payloadBytes + 8` wraps, which a
large `maxRecordBytes` lets through.  Mounting ends exactly on the directories in which it meets
neither (`mount_ends_iff`).
-/

namespace Pqueue

open Effect LittleEndian

/-! ## Expanding a range -/

/-- One turn of `for (g = startGen; g <= endGen; ++g)`: the counter and the generations so far. -/
def rangeTurn (endGen : ℕ) : ℕ × List ℕ → Option (ℕ × List ℕ)
  | (g, gens) => if g ≤ endGen then some (u32 (g + 1), gens ++ [g]) else none

lemma rangeTurn_ends {s e : ℕ} (he : e < 2 ^ 32 - 1) (hs : s ≤ e + 1) (gens : List ℕ) :
    Ends (rangeTurn e) (s, gens) (e + 1 - s) (e + 1, gens ++ List.range' s (e + 1 - s)) := by
  induction hn : e + 1 - s generalizing s gens with
  | zero =>
    obtain rfl : s = e + 1 := by omega
    rw [List.range'_zero, List.append_nil]
    exact .stop (if_neg (by omega))
  | succ n ih =>
    have hturn : rangeTurn e (s, gens) = some (s + 1, gens ++ [s]) := by
      rw [rangeTurn, if_pos (by omega), u32_of_lt (by omega)]
    have hs' : s + 1 ≤ e + 1 := by omega
    have hrest := ih hs' (gens ++ [s]) (by omega)
    rw [List.append_assoc, List.singleton_append, ← List.range'_succ] at hrest
    exact .turn hturn hrest

/-- The counter never passes the largest generation. -/
lemma rangeTurn_never {s : ℕ} (hs : s < 2 ^ 32) (gens : List ℕ) :
    ¬∃ n u, Ends (rangeTurn (2 ^ 32 - 1)) (s, gens) n u := by
  rintro ⟨n, u, h⟩
  refine not_ends (P := fun p : ℕ × List ℕ => p.1 < 2 ^ 32) ?_ hs h
  rintro ⟨g, gens⟩ hg
  exact ⟨_, if_pos (Nat.le_sub_one_of_lt hg), u32_lt _⟩

/-- `generations` is the outcome of the loop. -/
lemma generations_eq_loop {s e : ℕ} (hse : s ≤ e) (he : e < 2 ^ 32) :
    (∀ n u, Ends (rangeTurn e) (s, []) n u → Store.generations s e = pure u.2) ∧
      ((¬∃ n u, Ends (rangeTurn e) (s, []) n u) → Store.generations s e = Act.spin) := by
  by_cases hmax : e = 2 ^ 32 - 1
  · subst hmax
    have hnever := rangeTurn_never (Nat.lt_of_le_of_lt hse he) []
    exact ⟨fun n u h => absurd ⟨n, u, h⟩ hnever, fun _ => if_pos ⟨hse, rfl⟩⟩
  · have hlt : e < 2 ^ 32 - 1 := by omega
    have hends := rangeTurn_ends hlt (Nat.le_succ_of_le hse) []
    refine ⟨fun n u h => ?_, fun hnot => absurd ⟨_, _, hends⟩ hnot⟩
    obtain ⟨-, rfl⟩ := hends.unique h
    exact if_neg fun hh => hmax hh.2

/-! ## The events of a segment -/

/-- One turn of the event loop: the offset, the bytes that are left and the replay so far.  A turn
that reads past the buffer is not taken to end the loop. -/
def eventTurn (maxRecordBytes : ℕ) (isLastSegment : Bool) (gen : ℕ) :
    ℕ × Bytes × Replay → Option (ℕ × Bytes × Replay)
  | (offset, bytes, st) =>
    if bytes = [] then none
    else match scanStep maxRecordBytes bytes with
      | .torn => none
      | .corrupt => none
      | .pastEnd => some (offset, bytes, st)
      | .payloadEvent eh _ rest =>
        some (offset + eh.totalEventBytes, rest, st.payloadEvent isLastSegment gen offset eh)
      | .popEvent pe rest => some (offset + kPopEventBytes, rest, st.popEvent isLastSegment pe)

lemma eventTurn_encode {m gen : ℕ} {last : Bool} {e : LogEvent} (he : e.Fits m) (offset : ℕ)
    (rest : Bytes) (st : Replay) : eventTurn m last gen (offset, e.encode ++ rest, st) =
      some (offset + e.encode.length, rest, st.event last gen offset e) := by
  have hpos := e.length_encode_pos
  have hne : e.encode ++ rest ≠ [] := by
    intro h
    rw [(List.append_eq_nil_iff.1 h).1] at hpos
    exact absurd hpos (by decide)
  rw [eventTurn, if_neg hne, scanStep_encode he]
  cases e with
  | enqueue seq payload =>
    have hsize : (payloadHeader kEnqueueMagic seq payload).totalEventBytes =
        (LogEvent.enqueue seq payload).encode.length :=
      (totalEventBytes_payloadHeader he.2.2).trans (length_serializePayloadEvent ..).symm
    rw [← hsize]
    rfl
  | rewrite seq payload =>
    have hsize : (payloadHeader kRewriteMagic seq payload).totalEventBytes =
        (LogEvent.rewrite seq payload).encode.length :=
      (totalEventBytes_payloadHeader he.2.2).trans (length_serializePayloadEvent ..).symm
    rw [← hsize]
    rfl
  | pop seq => rfl

/-- The bytes start with the header of a payload for which `payloadBytes + 8` wraps, and nothing the
scanner checks before it reads the checksum is wrong. -/
def OverlongHeader (maxRecordBytes : ℕ) (bytes : Bytes) : Prop :=
  ∃ (eh : EnqueueHeader) (rest : Bytes), bytes = eh.bytes ++ rest ∧ eh.Valid ∧ eh.InBounds ∧
    2 ^ 32 - kEventTrailerBytes ≤ eh.payloadBytes ∧ eh.payloadBytes ≤ maxRecordBytes ∧
      eh.payloadBytes + kEnqueueOverheadBytes ≤ bytes.length + 2 ^ 32

lemma scanPayload_eq_pastEnd {eh : EnqueueHeader} {bytes : Bytes} (hp : eh.payloadBytes < 2 ^ 32)
    (h : scanPayload eh bytes = .pastEnd) : 2 ^ 32 - kEventTrailerBytes ≤ eh.payloadBytes := by
  by_contra hlt
  have hcount : u32 (eh.payloadBytes + kEventTrailerBytes) = eh.payloadBytes + kEventTrailerBytes :=
    u32_of_lt (by omega)
  unfold scanPayload at h
  rw [hcount] at h
  simp only at h
  split at h
  · cases h
  next hfull =>
  have hdrop : kEventTrailerBytes ≤ (((bytes.drop kEnqueueHeaderBytes).take
      (eh.payloadBytes + kEventTrailerBytes)).drop eh.payloadBytes).length := by
    rw [List.length_drop]
    omega
  unfold kEventTrailerBytes at hdrop
  split at h
  · next hcrc =>
    have hsome := read32_isSome (le_trans (by simp) hdrop)
    rw [kEventTrailerBytes] at hcrc
    rw [hcrc] at hsome
    cases hsome
  · next storedCrc r hcrc =>
    obtain ⟨heq, -⟩ := read32_eq_some hcrc
    rw [kEventTrailerBytes] at heq
    rw [heq, List.length_append, length_le32] at hdrop
    split at h
    · next hfooter =>
      have hsome := @read32_isSome r (by omega)
      rw [hfooter] at hsome
      cases hsome
    · split at h <;> cases h

lemma scanStep_eq_pastEnd_iff {m : ℕ} {bytes : Bytes} :
    scanStep m bytes = .pastEnd ↔ OverlongHeader m bytes := by
  constructor
  · intro h
    unfold scanStep at h
    split at h
    · cases h
    split at h
    · split at h
      · cases h
      next hlen =>
      split at h
      · cases h
      next eh hparse =>
      split at h
      · cases h
      next hmax =>
      split at h
      · cases h
      next htotal =>
      obtain ⟨rest, htake, hvalid, hbounds⟩ := parseEnqueueHeader_eq_some hparse
      have hp : eh.payloadBytes < 2 ^ 32 := hbounds.2.2.2.2
      have hlong := scanPayload_eq_pastEnd hp h
      refine ⟨eh, rest ++ bytes.drop kEnqueueHeaderBytes, ?_, hvalid, hbounds, hlong,
        not_lt.1 hmax, ?_⟩
      · rw [← List.append_assoc, ← htake, List.take_append_drop]
      · unfold EnqueueHeader.totalEventBytes u32 at htotal
        simp only [kEventTrailerBytes, kEnqueueHeaderBytes, kEnqueueOverheadBytes]
          at htotal hlong ⊢
        omega
    · split at h
      · split at h
        · cases h
        · split at h <;> cases h
      · cases h
  · rintro ⟨eh, rest, rfl, hvalid, hbounds, hlong, hmax, htotal⟩
    have hp : eh.payloadBytes < 2 ^ 32 := hbounds.2.2.2.2
    have hread : ∃ r, read32 (eh.bytes ++ rest) = some (eh.magic, r) := by
      unfold EnqueueHeader.bytes
      rw [List.append_assoc]
      exact ⟨_, read32_le32 hbounds.1 _⟩
    obtain ⟨r, hread⟩ := hread
    have hparse : parseEnqueueHeader ((eh.bytes ++ rest).take kEnqueueHeaderBytes) = some eh := by
      rw [List.take_left' (EnqueueHeader.length_bytes _), parseEnqueueHeader,
        ← List.append_nil (EnqueueHeader.bytes _), readEnqueueHeader_bytes hbounds]
      exact Option.filter_some_pos (decide_eq_true hvalid)
    have hlen : (eh.bytes ++ rest).length = kEnqueueHeaderBytes + rest.length := by
      rw [List.length_append, EnqueueHeader.length_bytes]
    rw [hlen] at htotal
    have hcount : u32 (eh.payloadBytes + kEventTrailerBytes) =
        eh.payloadBytes + kEventTrailerBytes - 2 ^ 32 := by
      unfold u32
      simp only [kEventTrailerBytes] at hlong ⊢
      omega
    have hfits : eh.totalEventBytes ≤ kEnqueueHeaderBytes + rest.length := by
      unfold EnqueueHeader.totalEventBytes u32
      simp only [kEventTrailerBytes, kEnqueueHeaderBytes, kEnqueueOverheadBytes]
        at hlong htotal ⊢
      omega
    unfold scanStep
    rw [hread]
    simp only
    rw [if_pos hvalid.1, if_neg (by omega), hparse]
    simp only
    rw [if_neg (by omega), if_neg (by omega)]
    -- fewer than eight bytes are taken, so nothing is left behind the payload
    have htaken : eh.payloadBytes + kEventTrailerBytes - 2 ^ 32 ≤ rest.length ∧
        eh.payloadBytes + kEventTrailerBytes - 2 ^ 32 ≤ eh.payloadBytes := by
      simp only [kEventTrailerBytes, kEnqueueHeaderBytes, kEnqueueOverheadBytes] at hlong htotal ⊢
      omega
    unfold scanPayload
    rw [hcount, List.drop_left' (EnqueueHeader.length_bytes _)]
    generalize eh.payloadBytes + kEventTrailerBytes - 2 ^ 32 = n at htaken
    have hlength : (rest.take n).length = n := List.length_take_of_le htaken.1
    simp only
    rw [if_neg (by omega), List.drop_of_length_le (by omega)]
    rfl

lemma eventTurn_stop {m gen : ℕ} {last corrupt : Bool} {bytes : Bytes}
    (h : stopsAt m bytes = some corrupt) (hlong : ¬OverlongHeader m bytes) (offset : ℕ)
    (st : Replay) : eventTurn m last gen (offset, bytes, st) = none := by
  unfold stopsAt at h
  rw [eventTurn]
  split at h
  · next hnil => rw [if_pos hnil]
  · next hnil =>
    rw [if_neg hnil]
    cases hs : scanStep m bytes with
    | torn => rfl
    | corrupt => rfl
    | pastEnd => exact absurd (scanStep_eq_pastEnd_iff.1 hs) hlong
    | payloadEvent eh p r => simp [hs] at h
    | popEvent pe r => simp [hs] at h

/-- The events of the bytes are followed by such a header. -/
def ReadsPast (maxRecordBytes : ℕ) (bytes : Bytes) : Prop :=
  ∃ evs rest, bytes = encodeEvents evs ++ rest ∧ (∀ e ∈ evs, e.Fits maxRecordBytes) ∧
    OverlongHeader maxRecordBytes rest

/-- No payload within the limit is so long. -/
lemma not_readsPast {m : ℕ} {bytes : Bytes} (hm : m < 2 ^ 32 - kEventTrailerBytes) :
    ¬ReadsPast m bytes := by
  rintro ⟨evs, rest, -, -, eh, rest', -, -, -, hlong, hmax, -⟩
  omega

/-- Each turn takes an event of at least 20 bytes, and `scanEvents` is the outcome of the loop. -/
lemma eventTurn_ends {m gen : ℕ} {last : Bool} {bytes : Bytes} (hlen : bytes.length < 2 ^ 32)
    (hpast : ¬ReadsPast m bytes) (offset : ℕ) (st : Replay) :
    ∃ n u, Ends (eventTurn m last gen) (offset, bytes, st) n u ∧
      kPopEventBytes * n ≤ bytes.length ∧
        (scanEvents m last gen bytes.length offset bytes st).offset = u.1 ∧
          (scanEvents m last gen bytes.length offset bytes st).replay = u.2.2 := by
  obtain ⟨evs, rest, corrupt, rfl, hfits, hstop⟩ := exists_log m bytes hlen
  have hlong : ¬OverlongHeader m rest := fun h => hpast ⟨evs, rest, rfl, hfits, h⟩
  rw [scanEvents_log hfits hstop le_rfl]
  have hloop : ∀ (offset : ℕ) (st : Replay), Ends (eventTurn m last gen)
      (offset, encodeEvents evs ++ rest, st) evs.length
        (offset + (encodeEvents evs).length, rest, replayEvents last gen offset evs st) := by
    clear hlen hpast offset st
    induction evs with
    | nil => exact fun offset st => .stop (eventTurn_stop hstop hlong offset st)
    | cons e evs ih =>
      intro offset st
      have hturn : eventTurn m last gen (offset, e.encode ++ (encodeEvents evs ++ rest), st) = _ :=
        eventTurn_encode (hfits e (List.mem_cons_self ..)) offset _ st
      have hrest := ih (fun e' he' => hfits e' (List.mem_cons_of_mem _ he'))
        (offset + e.encode.length) (st.event last gen offset e)
      rw [encodeEvents_cons, List.append_assoc, List.length_append, ← Nat.add_assoc]
      exact .turn hturn hrest
  refine ⟨evs.length, _, hloop offset st, ?_, rfl, rfl⟩
  rw [List.length_append]
  refine Nat.le_add_right_of_le ?_
  clear hloop hfits hlen hpast
  induction evs with
  | nil => exact le_rfl
  | cons e evs ih =>
    have hpos := e.length_encode_pos
    rw [encodeEvents_cons, List.length_append, List.length_cons, Nat.mul_succ]
    omega

/-- Otherwise the loop comes to the header and goes no further. -/
lemma eventTurn_never {m gen : ℕ} {last : Bool} {bytes : Bytes} (hpast : ReadsPast m bytes)
    (offset : ℕ) (st : Replay) :
    ¬∃ n u, Ends (eventTurn m last gen) (offset, bytes, st) n u := by
  rintro ⟨n, u, h⟩
  refine not_ends (P := fun s : ℕ × Bytes × Replay => ReadsPast m s.2.1) ?_ hpast h
  rintro ⟨offset, bytes, st⟩ ⟨evs, rest, rfl, hfits, hlong⟩
  cases evs with
  | nil =>
    have hs := scanStep_eq_pastEnd_iff.2 hlong
    have hne : rest ≠ [] := by
      rintro rfl
      cases hs
    refine ⟨(offset, rest, st), ?_, [], rest, rfl, hfits, hlong⟩
    rw [encodeEvents_nil, List.nil_append, eventTurn, if_neg hne, hs]
  | cons e evs =>
    rw [encodeEvents_cons, List.append_assoc]
    exact ⟨_, eventTurn_encode (hfits e (List.mem_cons_self ..)) offset _ st, evs, rest, rfl,
      fun e' he' => hfits e' (List.mem_cons_of_mem _ he'), hlong⟩

/-! ## Mount -/

/-- Mount comes to the event loop of segment `gen`, with these bytes behind the header: the
manifest is within the span guard, and the segments before this one scan up to their ends. -/
def Disk.Reaches (cfg : AppendLogConfig) (d : Disk) (gen : ℕ) (body : Bytes) : Prop :=
  ∃ md before after data, Disk.elected d = some md ∧
    md.totalGens ≤ kManifestMaxTotalGenerations ∧ md.gens = before ++ gen :: after ∧
      (∀ g ∈ before, ∃ evs, Disk.log cfg d g = some (evs, [])) ∧
        Disk.segmentBytes d gen = some data ∧ headedBy gen data = true ∧
          body = data.drop kSegmentHeaderBytes

/-- Mount comes to a payload whose checksum it looks for past the end of its buffer. -/
def Disk.ReadsPast (cfg : AppendLogConfig) (d : Disk) : Prop :=
  ∃ gen body, Disk.Reaches cfg d gen body ∧ Pqueue.ReadsPast cfg.maxRecordBytes body

/-- Mounting returns, with no more calls than `mountCalls`; the range loops together take at most
`kManifestMaxTotalGenerations` turns, and the event loop of a segment at most one for every 20 of
its bytes. -/
structure MountEnds (env : Env) (cfg : AppendLogConfig) (ram : Ram) (w : World) : Prop where
  returns : Act.Within (handle env) (mountCalls w.disk) (Store.mount cfg) (fun _ _ _ => True) ram w
  ranges : ∀ md, Disk.elected w.disk = some md → md.totalGens ≤ kManifestMaxTotalGenerations →
    ∃ turns : ManifestRange → ℕ, (md.ranges.map turns).sum ≤ kManifestMaxTotalGenerations ∧
      ∀ r ∈ md.ranges, ∃ u, Ends (rangeTurn r.endGen) (r.startGen, []) (turns r) u
  events : ∀ gen body, Disk.Reaches cfg w.disk gen body → ∀ last st, ∃ n u,
    Ends (eventTurn cfg.maxRecordBytes last gen) (kSegmentHeaderBytes, body, st) n u ∧
      kPopEventBytes * n ≤ body.length

/-- **Termination of mount.**  Mounting a directory ends, within these bounds, if and only if the
elected manifest does not pass the span guard with a range up to the largest generation, and no
segment that the mount comes to has a payload behind its events whose `payloadBytes + 8` wraps
below `maxRecordBytes`. -/
theorem mount_ends_iff {env : Env} {cfg : AppendLogConfig} {ram : Ram} {w : World} :
    MountEnds env cfg ram w ↔ ¬Disk.Wraps w.disk ∧ ¬Disk.ReadsPast cfg w.disk := by
  constructor
  · intro h
    constructor
    · intro hwraps
      have hr := h.returns
      rw [← refusing_none] at hr
      exact (diverges_mount hwraps).not_within hr
    · rintro ⟨gen, body, hreach, hpast⟩
      obtain ⟨n, u, hends, -⟩ := h.events gen body hreach false {}
      exact eventTurn_never hpast _ _ ⟨n, u, hends⟩
  · rintro ⟨hwraps, hpast⟩
    refine ⟨?_, fun md helect hspan => ?_, fun gen body hreach last st => ?_⟩
    · rw [← refusing_none]
      exact (within_mount hwraps).mono le_rfl fun _ _ _ _ => trivial
    · refine ⟨fun r => r.endGen + 1 - r.startGen, (Nat.le_add_left ..).trans hspan, fun r hr => ?_⟩
      obtain ⟨-, hle, hlt⟩ := (elected_valid helect).ranges_valid r hr
      have hne : r.endGen ≠ 2 ^ 32 - 1 := fun he => hwraps ⟨md, helect, hspan, r, hr, he⟩
      exact ⟨_, rangeTurn_ends (by omega) (Nat.le_succ_of_le hle) []⟩
    · have hnot : ¬ReadsPast cfg.maxRecordBytes body := fun h => hpast ⟨gen, body, hreach, h⟩
      obtain ⟨md, before, after, data, -, -, -, -, hdata, -, rfl⟩ := hreach
      obtain ⟨-, hsize⟩ := Option.filter_eq_some_iff.1 hdata
      obtain ⟨-, hmax⟩ := of_decide_eq_true hsize
      have hlt : (data.drop kSegmentHeaderBytes).length < 2 ^ 32 := by
        rw [List.length_drop]
        exact Nat.lt_of_le_of_lt (Nat.sub_le ..) (Nat.lt_of_le_of_lt hmax (by decide))
      obtain ⟨n, u, hends, hn, -⟩ := eventTurn_ends hlt hnot kSegmentHeaderBytes st
      exact ⟨n, u, hends, hn⟩

/-! ### A manifest with such a range -/

/-- A manifest with one range, of the largest generation alone. -/
def lastGeneration : ManifestData where
  epoch := 1
  nextGeneration := 2
  ranges := [⟨2 ^ 32 - 1, 2 ^ 32 - 1⟩]
  tailGeneration := 1

/-- The directory with this manifest alone. -/
def lastGenerationDisk : Disk := AList.insert Slot.a.fileName (serialiseManifest lastGeneration) ∅

lemma elected_lastGeneration : Disk.elected lastGenerationDisk = some lastGeneration := by
  have hranges : ∀ r ∈ lastGeneration.ranges, r.Valid := by
    intro r hr
    obtain rfl := List.mem_singleton.1 hr
    exact ⟨by decide, by decide, by decide⟩
  have hvalid : lastGeneration.Valid :=
    ⟨by decide, by decide, by decide, by decide, hranges, fun _ => by decide⟩
  have ha : Disk.manifest lastGenerationDisk .a = some lastGeneration := by
    rw [Disk.manifest, lastGenerationDisk, AList.lookup_insert, Option.bind_some,
      parseManifest_serialise hvalid]
  have hb : Disk.manifest lastGenerationDisk .b = none := by
    rw [Disk.manifest, lastGenerationDisk, AList.lookup_insert_ne (by decide), AList.lookup_empty]
    rfl
  rw [Disk.elected, ha, hb]
  rfl

/-- The parser and the span guard accept the manifest, and the mount never returns. -/
theorem mount_never_returns : ¬MountEnds (plainEnv .posix) {} {} ⟨lastGenerationDisk, 0, false⟩ ∧
    Act.Diverges (handle (plainEnv .posix)) (Store.mount {}) {} ⟨lastGenerationDisk, 0, false⟩ := by
  have hd : Act.Diverges (refusing (plainEnv .posix) fun _ => false) (Store.mount {}) {}
      ⟨lastGenerationDisk, 0, false⟩ := diverges_mount
    ⟨lastGeneration, elected_lastGeneration, by decide, _, List.mem_singleton_self _, rfl⟩
  rw [refusing_none] at hd
  exact ⟨fun h => hd.not_within h.returns, hd⟩

/-! ### A payload of almost 4 GiB -/

/-- The header of a payload for which `payloadBytes + 8` wraps to zero. -/
def overlongHeader : EnqueueHeader where
  payloadBytes := 2 ^ 32 - 8

/-- A directory whose tail is this header. -/
def overlongDisk : Disk :=
  AList.insert (segmentName 1) (serializeSegmentHeader 1 0 ++ overlongHeader.bytes)
    (AList.insert Slot.a.fileName (serialiseManifest ⟨1, 2, [], 1⟩) ∅)

/-- With a limit that is large enough, the mount reads past its buffer. -/
theorem mount_reads_past :
    Disk.ReadsPast { AppendLogConfig.defaults with maxRecordBytes := 2 ^ 32 - 1 } overlongDisk := by
  have helect : Disk.elected overlongDisk = some ⟨1, 2, [], 1⟩ := by decide +kernel
  have hbytes : Disk.segmentBytes overlongDisk 1 =
      some (serializeSegmentHeader 1 0 ++ overlongHeader.bytes) := by decide +kernel
  refine ⟨1, overlongHeader.bytes, ⟨_, [], [], _, helect, by decide, rfl, by simp, hbytes,
    by decide +kernel, (List.drop_left' (length_serializeSegmentHeader 1 0)).symm⟩, [], _, rfl,
      by simp, overlongHeader, [], (List.append_nil _).symm, ?_⟩
  have hbounds : overlongHeader.InBounds := ⟨by decide, by decide, by decide, by decide, by decide⟩
  exact ⟨by decide, hbounds, by decide, by decide, by decide +kernel⟩

end Pqueue
