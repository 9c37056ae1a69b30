import Mathlib.Data.Option.Basic
import Pqueue.Format.Layout

/-!
# Serialisers and parsers agree

Each parser reads back what its serialiser wrote, and accepts nothing else.  A strict prefix of
a manifest is never accepted: the header states the length.
-/

namespace Pqueue

open LittleEndian

/-! ## Segment headers -/

lemma length_serializeSegmentHeader (g s : ℕ) :
    (serializeSegmentHeader g s).length = kSegmentHeaderBytes := rfl

/-- The header `serializeSegmentHeader` writes. -/
def segmentHeader (generation startSeq : ℕ) : SegmentHeader :=
  let h : SegmentHeader := { generation := generation, startSeq := startSeq }
  { h with headerCrc := segmentHeaderCrc h }

lemma readSegmentHeader_serialize {g s : ℕ} (hg : g < 2 ^ 32) (hs : s < 2 ^ 32) :
    readSegmentHeader (serializeSegmentHeader g s) = some (segmentHeader g s) := by
  have hcrc : segmentHeaderCrc { generation := g, startSeq := s } < 2 ^ 32 := checksum_lt _
  simp only [serializeSegmentHeader, SegmentHeader.covered, List.append_assoc, readSegmentHeader,
    read32_le32 (v := kSegmentMagic) (by decide), read16_le16 (v := kFormatVersion) (by decide),
    read16_le16 (v := kSegmentHeaderBytes) (by decide), read32_le32 hg, read32_le32 hs,
    Option.bind_eq_bind, Option.bind_some, Option.pure_def]
  rw [← List.append_nil (le32 (segmentHeaderCrc _)), read32_le32 hcrc]
  rfl

lemma parseSegmentHeader_serialize {g s : ℕ} (hg : g < 2 ^ 32) (hs : s < 2 ^ 32) :
    parseSegmentHeader (serializeSegmentHeader g s) = .ok (segmentHeader g s) := by
  rw [parseSegmentHeader, readSegmentHeader_serialize hg hs]
  exact if_pos ⟨rfl, rfl, rfl, rfl⟩

/-- What `parseSegmentHeader` accepts as generation `g` is a serialised header of it. -/
lemma parseSegmentHeader_eq_ok {bytes : Bytes} {h : SegmentHeader}
    (hp : parseSegmentHeader bytes = .ok h) :
    ∃ rest, bytes = serializeSegmentHeader h.generation h.startSeq ++ rest ∧
      h.generation < 2 ^ 32 ∧ h.startSeq < 2 ^ 32 := by
  rw [parseSegmentHeader] at hp
  cases hr : readSegmentHeader bytes with
  | none => rw [hr] at hp; cases hp
  | some h' =>
    rw [hr] at hp
    simp only at hp
    split at hp
    · next hv =>
      obtain rfl := Except.ok.inj hp
      simp only [readSegmentHeader, Option.bind_eq_bind, Option.pure_def, Option.bind_eq_some_iff,
        Prod.exists, Option.some.injEq] at hr
      obtain ⟨m, r1, h1, v, r2, h2, b, r3, h3, g, r4, h4, s, r5, h5, c, r6, h6, rfl⟩ := hr
      obtain ⟨rfl, -⟩ := read32_eq_some h1
      obtain ⟨rfl, -⟩ := read16_eq_some h2
      obtain ⟨rfl, -⟩ := read16_eq_some h3
      obtain ⟨rfl, hg⟩ := read32_eq_some h4
      obtain ⟨rfl, hs⟩ := read32_eq_some h5
      obtain ⟨rfl, -⟩ := read32_eq_some h6
      obtain ⟨rfl, rfl, rfl, hc⟩ := hv
      refine ⟨r6, ?_, hg, hs⟩
      rw [show c = segmentHeaderCrc { generation := g, startSeq := s } from hc]
      simp only [serializeSegmentHeader, SegmentHeader.covered, List.append_assoc]
    · cases hp

/-! ## Event headers -/

lemma EnqueueHeader.length_bytes (h : EnqueueHeader) : h.bytes.length = kEnqueueHeaderBytes := rfl

/-- The fields of a header fit their words. -/
def EnqueueHeader.InBounds (h : EnqueueHeader) : Prop :=
  h.magic < 2 ^ 32 ∧ h.version < 2 ^ 16 ∧ h.headerBytes < 2 ^ 16 ∧ h.sequence < 2 ^ 32 ∧
    h.payloadBytes < 2 ^ 32

lemma readEnqueueHeader_bytes {h : EnqueueHeader} (hb : h.InBounds) (rest : Bytes) :
    readEnqueueHeader (h.bytes ++ rest) = some h := by
  obtain ⟨h1, h2, h3, h4, h5⟩ := hb
  simp only [EnqueueHeader.bytes, List.append_assoc, readEnqueueHeader, read32_le32 h1,
    read16_le16 h2, read16_le16 h3, read32_le32 h4, read32_le32 h5, Option.bind_eq_bind,
    Option.bind_some, Option.pure_def]

lemma parseEnqueueHeader_eq_some {bytes : Bytes} {h : EnqueueHeader}
    (hp : parseEnqueueHeader bytes = some h) :
    ∃ rest, bytes = h.bytes ++ rest ∧ h.Valid ∧ h.InBounds := by
  obtain ⟨hr, hv⟩ := Option.filter_eq_some_iff.1 hp
  simp only [readEnqueueHeader, Option.bind_eq_bind, Option.pure_def, Option.bind_eq_some_iff,
    Prod.exists, Option.some.injEq] at hr
  obtain ⟨m, r1, h1, v, r2, h2, b, r3, h3, s, r4, h4, p, r5, h5, rfl⟩ := hr
  obtain ⟨rfl, hm⟩ := read32_eq_some h1
  obtain ⟨rfl, hv2⟩ := read16_eq_some h2
  obtain ⟨rfl, hb⟩ := read16_eq_some h3
  obtain ⟨rfl, hs⟩ := read32_eq_some h4
  obtain ⟨rfl, hpb⟩ := read32_eq_some h5
  refine ⟨r5, ?_, of_decide_eq_true hv, hm, hv2, hb, hs, hpb⟩
  simp only [EnqueueHeader.bytes, List.append_assoc]

/-! ## POP events -/

lemma length_serializePopEvent (seq : ℕ) : (serializePopEvent seq).length = kPopEventBytes := rfl

/-- The event `serializePopEvent` writes. -/
def popEventOf (sequence : ℕ) : PopEvent :=
  let p : PopEvent := { sequence := sequence }
  { p with eventCrc := popEventCrc p }

lemma parsePopEvent_serialize {seq : ℕ} (hs : seq < 2 ^ 32) (rest : Bytes) :
    parsePopEvent (serializePopEvent seq ++ rest) = some (popEventOf seq) := by
  have hcrc : popEventCrc { sequence := seq } < 2 ^ 32 := checksum_lt _
  have hread : readPopEvent (serializePopEvent seq ++ rest) = some (popEventOf seq) := by
    simp only [serializePopEvent, PopEvent.covered, List.append_assoc, readPopEvent,
      read32_le32 (v := kPopMagic) (by decide), read16_le16 (v := kFormatVersion) (by decide),
      read16_le16 (v := kPopEventBytes) (by decide), read32_le32 hs, read32_le32 hcrc,
      read32_le32 (v := kFooterMagic) (by decide), Option.bind_eq_bind, Option.bind_some,
      Option.pure_def]
    rfl
  rw [parsePopEvent, hread]
  exact Option.filter_some_pos (decide_eq_true ⟨rfl, rfl, rfl, rfl, rfl⟩)

lemma parsePopEvent_eq_some {bytes : Bytes} {e : PopEvent} (hp : parsePopEvent bytes = some e) :
    ∃ rest, bytes = serializePopEvent e.sequence ++ rest ∧ e = popEventOf e.sequence ∧
      e.sequence < 2 ^ 32 := by
  obtain ⟨hr, hv⟩ := Option.filter_eq_some_iff.1 hp
  simp only [readPopEvent, Option.bind_eq_bind, Option.pure_def, Option.bind_eq_some_iff,
    Prod.exists, Option.some.injEq] at hr
  obtain ⟨m, r1, h1, v, r2, h2, b, r3, h3, s, r4, h4, c, r5, h5, f, r6, h6, rfl⟩ := hr
  obtain ⟨rfl, -⟩ := read32_eq_some h1
  obtain ⟨rfl, -⟩ := read16_eq_some h2
  obtain ⟨rfl, -⟩ := read16_eq_some h3
  obtain ⟨rfl, hs⟩ := read32_eq_some h4
  obtain ⟨rfl, -⟩ := read32_eq_some h5
  obtain ⟨rfl, -⟩ := read32_eq_some h6
  obtain ⟨rfl, rfl, rfl, rfl, hc⟩ := of_decide_eq_true hv
  replace hc : c = popEventCrc { sequence := s } := hc
  refine ⟨r6, ?_, by rw [hc]; rfl, hs⟩
  rw [hc]
  simp only [serializePopEvent, PopEvent.covered, List.append_assoc]

/-! ## Manifests -/

/-- What `parseManifest` demands of a range. -/
def ManifestRange.Valid (r : ManifestRange) : Prop :=
  r.startGen ≠ 0 ∧ r.startGen ≤ r.endGen ∧ r.endGen < 2 ^ 32

instance : DecidablePred ManifestRange.Valid := fun r =>
  inferInstanceAs (Decidable (r.startGen ≠ 0 ∧ r.startGen ≤ r.endGen ∧ r.endGen < 2 ^ 32))

/-- The manifests that can be read back. -/
structure ManifestData.Valid (m : ManifestData) : Prop where
  epoch_lt : m.epoch < 2 ^ 32
  nextGeneration_lt : m.nextGeneration < 2 ^ 32
  tailGeneration_lt : m.tailGeneration < 2 ^ 32
  ranges_le : m.ranges.length ≤ kManifestMaxRanges
  ranges_valid : ∀ r ∈ m.ranges, r.Valid
  tail_ne : m.ranges ≠ [] → m.tailGeneration ≠ 0

lemma length_flatMap_ranges (rs : List ManifestRange) :
    (rs.flatMap ManifestRange.bytes).length = rs.length * 8 := by
  induction rs with
  | nil => rfl
  | cons r rs ih =>
    rw [List.flatMap_cons, List.length_append, ih]
    simp only [ManifestRange.bytes, List.length_append, length_le32, List.length_cons]
    omega

lemma length_serialiseManifest (m : ManifestData) :
    (serialiseManifest m).length = kManifestFixedBytes + m.ranges.length * 8 := by
  simp only [serialiseManifest, ManifestData.covered, List.length_append, length_le32, length_le16,
    length_flatMap_ranges, kManifestFixedBytes]
  omega

lemma readRanges_bytes {rs : List ManifestRange} (hv : ∀ r ∈ rs, r.Valid) (rest : Bytes) :
    readRanges rs.length (rs.flatMap ManifestRange.bytes ++ rest) = some (rs, rest) := by
  induction rs with
  | nil => rfl
  | cons r rs ih =>
    obtain ⟨h1, h2, h3⟩ := hv r (List.mem_cons_self ..)
    have hs : r.startGen < 2 ^ 32 := Nat.lt_of_le_of_lt h2 h3
    rw [List.flatMap_cons, List.length_cons]
    simp only [readRanges, ManifestRange.bytes, List.append_assoc, read32_le32 hs, read32_le32 h3,
      Option.bind_eq_bind, Option.bind_some, ne_eq, h1, not_false_eq_true, h2, guard_true,
      Option.pure_def, ih fun r' hr' => hv r' (List.mem_cons_of_mem _ hr')]

/-- **Manifest round trip.** -/
lemma parseManifest_serialise {m : ManifestData} (hv : m.Valid) :
    parseManifest (serialiseManifest m) = some m := by
  obtain ⟨he, hn, ht, hl, hr, htail⟩ := hv
  have hlen : m.ranges.length < 2 ^ 16 := Nat.lt_of_le_of_lt hl (by decide)
  have hhb_lt : kManifestFixedBytes + m.ranges.length * 8 < 2 ^ 16 := by
    simp only [kManifestFixedBytes, kManifestMaxRanges] at hl ⊢
    omega
  have hu16 : u16 m.ranges.length = m.ranges.length := u16_of_lt hlen
  have hhb : u16 (kManifestFixedBytes + m.ranges.length * 8) =
      kManifestFixedBytes + m.ranges.length * 8 := u16_of_lt hhb_lt
  have htail' : ¬(m.tailGeneration = 0 ∧ m.ranges.length ≠ 0) := by
    rintro ⟨h0, hne⟩
    exact htail (fun h => hne (by rw [h]; rfl)) h0
  -- name the bytes: the parser looks at them from the front and at their number
  obtain ⟨data, hdata⟩ : ∃ data, data = serialiseManifest m := ⟨_, rfl⟩
  have hlength : data.length = kManifestFixedBytes + m.ranges.length * 8 := by
    rw [hdata, length_serialiseManifest]
  have hsplit : data = le32 kManifestMagic ++ (le16 kManifestVersion ++
      (le16 (kManifestFixedBytes + m.ranges.length * 8) ++ (le32 m.epoch ++
        (le32 m.nextGeneration ++ (le16 m.ranges.length ++
          (m.ranges.flatMap ManifestRange.bytes ++ (le32 m.tailGeneration ++
            (le32 (checksum m.covered) ++ le32 kFooterMagic)))))))) := by
    rw [hdata, serialiseManifest]
    simp only [ManifestData.covered, hu16, hhb, List.append_assoc]
  have hcrc : data.take (data.length -
      (le32 (checksum m.covered) ++ le32 kFooterMagic).length) = m.covered := by
    rw [hdata, serialiseManifest, List.length_append, Nat.add_sub_cancel, List.take_left]
  have hread := read32_le32 (v := kManifestMagic) (by decide) (le16 kManifestVersion ++
      (le16 (kManifestFixedBytes + m.ranges.length * 8) ++ (le32 m.epoch ++
        (le32 m.nextGeneration ++ (le16 m.ranges.length ++
          (m.ranges.flatMap ManifestRange.bytes ++ (le32 m.tailGeneration ++
            (le32 (checksum m.covered) ++ le32 kFooterMagic))))))))
  rw [← hsplit] at hread
  have hfoot : read32 (le32 kFooterMagic) = some (kFooterMagic, []) :=
    read32_le32 (v := kFooterMagic) (by decide) []
  have hmin : kManifestFixedBytes ≤ kManifestFixedBytes + m.ranges.length * 8 :=
    Nat.le_add_right ..
  rw [← hdata]
  simp only [parseManifest, Option.bind_eq_bind, Option.bind_eq_some_iff, Prod.exists,
    Option.guard_eq_some', Option.pure_def]
  exact ⟨(), hlength ▸ hmin, _, _, hread, _, _, read16_le16 (by decide) _, _, _,
    read16_le16 hhb_lt _, (), rfl, (), rfl, _, _, read32_le32 he _, _, _, read32_le32 hn _, _, _,
    read16_le16 hlen _, (), hl, (), hhb.symm, (), hlength, _, _, readRanges_bytes hr _, _, _,
    read32_le32 ht _, (), htail', _, _, read32_le32 (checksum_lt m.covered) _, (),
    congrArg checksum hcrc.symm, _, _, hfoot, (), rfl, rfl⟩

lemma readRanges_valid {n : ℕ} {bs rest : Bytes} {rs : List ManifestRange}
    (h : readRanges n bs = some (rs, rest)) : rs.length = n ∧ ∀ r ∈ rs, r.Valid := by
  induction n generalizing bs rs rest with
  | zero =>
    obtain ⟨rfl, -⟩ := Prod.mk.inj (Option.some.inj h)
    exact ⟨rfl, fun r hr => absurd hr List.not_mem_nil⟩
  | succ n ih =>
    simp only [readRanges, Option.bind_eq_bind, Option.bind_eq_some_iff, Prod.exists,
      Option.guard_eq_some', Option.pure_def, Option.some.injEq, Prod.mk.injEq] at h
    obtain ⟨s, r1, -, e, r2, he, -, hs, -, hle, rs', r3, hrest, rfl, -⟩ := h
    obtain ⟨hlen, hv⟩ := ih hrest
    refine ⟨by rw [List.length_cons, hlen], fun r hr => ?_⟩
    rcases List.mem_cons.1 hr with rfl | hr
    · exact ⟨hs, hle, (read32_eq_some he).2⟩
    · exact hv r hr

lemma readRanges_eq_some {n : ℕ} {bs rest : Bytes} {rs : List ManifestRange}
    (h : readRanges n bs = some (rs, rest)) : bs = rs.flatMap ManifestRange.bytes ++ rest := by
  induction n generalizing bs rs rest with
  | zero =>
    obtain ⟨rfl, rfl⟩ := Prod.mk.inj (Option.some.inj h)
    rfl
  | succ n ih =>
    simp only [readRanges, Option.bind_eq_bind, Option.bind_eq_some_iff, Prod.exists,
      Option.guard_eq_some', Option.pure_def, Option.some.injEq, Prod.mk.injEq] at h
    obtain ⟨s, r1, hs, e, r2, he, -, -, -, -, rs', r3, hrest, rfl, rfl⟩ := h
    obtain ⟨rfl, -⟩ := read32_eq_some hs
    obtain ⟨rfl, -⟩ := read32_eq_some he
    rw [ih hrest, List.flatMap_cons, ManifestRange.bytes]
    simp only [List.append_assoc]

/-- **Nothing but a serialised manifest is accepted.** -/
lemma parseManifest_eq_some {bs : Bytes} {m : ManifestData} (h : parseManifest bs = some m) :
    m.Valid ∧ bs = serialiseManifest m := by
  simp only [parseManifest, Option.bind_eq_bind, Option.bind_eq_some_iff, Prod.exists,
    Option.guard_eq_some', Option.pure_def, Option.some.injEq] at h
  obtain ⟨-, -, magic, r1, hmagic, v, r2, hversion, b, r3, hbytes, -, rfl, -, rfl, e, r4, he, n, r5,
    hn, c, r6, hcount, -, hc, -, hb, -, hlen, rs, r7, hrs, t, r8, ht, -, htail, crc, r9, hcrc, -,
    hsum, footer, r10, hfooter, -, rfl, rfl⟩ := h
  obtain ⟨hmagic, -⟩ := read32_eq_some hmagic
  obtain ⟨hversion, -⟩ := read16_eq_some hversion
  obtain ⟨hbytes, -⟩ := read16_eq_some hbytes
  obtain ⟨he, he_lt⟩ := read32_eq_some he
  obtain ⟨hn, hn_lt⟩ := read32_eq_some hn
  obtain ⟨hcount, hc_lt⟩ := read16_eq_some hcount
  obtain ⟨ht, ht_lt⟩ := read32_eq_some ht
  obtain ⟨hcrc, -⟩ := read32_eq_some hcrc
  obtain ⟨hfooter, -⟩ := read32_eq_some hfooter
  obtain ⟨hrslen, hvalid⟩ := readRanges_valid hrs
  have hranges := readRanges_eq_some hrs
  refine ⟨⟨he_lt, hn_lt, ht_lt, hrslen ▸ hc, hvalid, fun hne h0 => htail ⟨h0, ?_⟩⟩, ?_⟩
  · rw [← hrslen]
    exact fun hz => hne (List.eq_nil_of_length_eq_zero hz)
  have hhb : b = kManifestFixedBytes + rs.length * 8 := by
    rw [hb, hrslen, u16_of_lt]
    simp only [kManifestFixedBytes, kManifestMaxRanges] at hc ⊢
    omega
  -- the words up to the tail are those the checksum covers
  set m : ManifestData := ⟨e, n, rs, t⟩ with hm
  have hcovered : bs = m.covered ++ r8 := by
    rw [hmagic, hversion, hbytes, he, hn, hcount, hranges, ht, hm]
    simp only [ManifestData.covered, List.append_assoc, hrslen, u16_of_lt hc_lt]
    rw [hb]
  have hrest : r10 = [] := by
    have hl := congrArg List.length hcovered
    rw [hcrc, hfooter, hlen, hhb] at hl
    simp only [ManifestData.covered, List.length_append, length_le32, length_le16,
      length_flatMap_ranges, kManifestFixedBytes, hm] at hl
    exact List.eq_nil_of_length_eq_zero (by omega)
  have hcheck : crc = checksum m.covered := by
    rw [hsum, hcovered, List.length_append, Nat.add_sub_cancel, List.take_left]
  rw [hcovered, serialiseManifest, hcrc, hfooter, hrest, hcheck, List.append_nil]

/-- What `parseManifest` accepts can be read back. -/
lemma parseManifest_valid {bs : Bytes} {m : ManifestData} (h : parseManifest bs = some m) :
    m.Valid := (parseManifest_eq_some h).1

/-- **Manifest codec.**  `parseManifest` accepts the serialised valid manifests, each as what it is,
and no other bytes. -/
theorem parseManifest_iff (bs : Bytes) (m : ManifestData) :
    parseManifest bs = some m ↔ m.Valid ∧ serialiseManifest m = bs := by
  constructor
  · intro h
    obtain ⟨hv, hbs⟩ := parseManifest_eq_some h
    exact ⟨hv, hbs.symm⟩
  · rintro ⟨hv, rfl⟩
    exact parseManifest_serialise hv

/-- The length a manifest header states. -/
def statedLength (bytes : Bytes) : Option ℕ := do
  let (_, r) ← read32 bytes
  let (_, r) ← read16 r
  let (headerBytes, _) ← read16 r
  return headerBytes

lemma read16_append {bs rest : Bytes} {v : ℕ} (h : read16 bs = some (v, rest)) (tl : Bytes) :
    read16 (bs ++ tl) = some (v, rest ++ tl) := by
  obtain ⟨rfl, hv⟩ := read16_eq_some h
  rw [List.append_assoc, read16_le16 hv]

lemma statedLength_append {bs : Bytes} {n : ℕ} (h : statedLength bs = some n) (tl : Bytes) :
    statedLength (bs ++ tl) = some n := by
  simp only [statedLength, Option.bind_eq_bind, Option.pure_def, Option.bind_eq_some_iff,
    Prod.exists, Option.some.injEq] at h ⊢
  obtain ⟨m, r1, h1, v, r2, h2, b, r3, h3, rfl⟩ := h
  exact ⟨m, _, read32_append h1 tl, v, _, read16_append h2 tl, b, _, read16_append h3 tl, rfl⟩

/-- An accepted manifest is as long as its header states. -/
lemma statedLength_of_parse {bs : Bytes} {m : ManifestData} (h : parseManifest bs = some m) :
    statedLength bs = some bs.length := by
  simp only [parseManifest, Option.bind_eq_bind, Option.bind_eq_some_iff, Prod.exists,
    Option.guard_eq_some'] at h
  obtain ⟨-, -, m, r1, h1, v, r2, h2, b, r3, h3, -, -, -, -, e, r4, h4, n, r5, h5, c, r6, h6, -, -,
    -, hb, -, hlen, -⟩ := h
  simp only [statedLength, h1, h2, h3, Option.bind_eq_bind, Option.bind_some, Option.pure_def, hlen]

/-- **A torn manifest is not a manifest**: no strict prefix of one is accepted. -/
lemma parseManifest_take {data : Bytes} {m : ManifestData} (hd : parseManifest data = some m)
    {n : ℕ} (hn : n < data.length) : parseManifest (data.take n) = none := by
  cases hp : parseManifest (data.take n) with
  | none => rfl
  | some m' =>
    have h1 := statedLength_append (statedLength_of_parse hp) (data.drop n)
    rw [List.take_append_drop, statedLength_of_parse hd] at h1
    have h2 := Option.some.inj h1
    rw [List.length_take] at h2
    omega

end Pqueue
