import Pqueue.Bytes.LittleEndian

/-!
# The on-disk format

`append_log_common.h` and `append_log_common.cpp`: the magic numbers and sizes, the CRC-32, and
the serialisers and parsers of segment headers, events and manifests.  Integers are natural
numbers; a field is cut to its width where it is written, and the parsers read words below
`2 ^ 32` and `2 ^ 16`.
-/

namespace Pqueue

open LittleEndian

/-! ## Constants -/

/-- `"PQSG"`. -/
def kSegmentMagic : ℕ := 0x47535150
/-- `"PQEQ"`. -/
def kEnqueueMagic : ℕ := 0x51455150
/-- `"PQPE"`. -/
def kPopMagic : ℕ := 0x45505150
/-- `"PQRE"`. -/
def kRewriteMagic : ℕ := 0x45525150
/-- `"POK!"`. -/
def kFooterMagic : ℕ := 0x214B4F50
/-- `"PQMF"`. -/
def kManifestMagic : ℕ := 0x464D5150

def kFormatVersion : ℕ := 1
def kManifestVersion : ℕ := 1

/-- Manifest bytes besides the ranges. -/
def kManifestFixedBytes : ℕ := 30
/-- Hard cap on the number of manifest ranges. -/
def kManifestMaxRanges : ℕ := 1024
/-- Ceiling on the generations a manifest spans, the tail included. -/
def kManifestMaxTotalGenerations : ℕ := kManifestMaxRanges + 1

def kSegmentHeaderBytes : ℕ := 20
def kEnqueueHeaderBytes : ℕ := 16
def kPopEventBytes : ℕ := 20
def kEventTrailerBytes : ℕ := 8
/-- Bytes of an ENQUEUE or REWRITE event besides its payload. -/
def kEnqueueOverheadBytes : ℕ := kEnqueueHeaderBytes + kEventTrailerBytes
def kManifestRangeEntryBytes : ℕ := 8

/-! ## CRC-32 -/

/-- Entry `i` of `kTable`: eight shifts of the reflected polynomial. -/
def crcTable (i : BitVec 32) : BitVec 32 :=
  (List.range 8).foldl
    (fun c _ => (c >>> 1) ^^^ (if c &&& 1#32 = 0#32 then 0#32 else 0xEDB88320#32)) i

/-- One byte of the running CRC. -/
def crcStep (crc : BitVec 32) (b : UInt8) : BitVec 32 :=
  crcTable ((crc ^^^ BitVec.ofNat 32 b.toNat) &&& 0xFF#32) ^^^ (crc >>> 8)

/-- `crc32`, continuing from `crc`. -/
def crc32 (crc : BitVec 32) (data : Bytes) : BitVec 32 := ~~~(data.foldl crcStep (~~~crc))

/-- The checksum of a whole byte string, as the word that is stored. -/
def checksum (data : Bytes) : ℕ := (crc32 0#32 data).toNat

lemma checksum_lt (data : Bytes) : checksum data < 2 ^ 32 := (crc32 0#32 data).isLt

/-! ## Segment headers -/

/-- The header at offset 0 of a segment file. -/
structure SegmentHeader where
  magic : ℕ := kSegmentMagic
  version : ℕ := kFormatVersion
  headerBytes : ℕ := kSegmentHeaderBytes
  generation : ℕ := 0
  /-- First enqueue sequence expected; informational. -/
  startSeq : ℕ := 0
  headerCrc : ℕ := 0
  deriving DecidableEq, Repr

/-- The header fields a segment's CRC covers. -/
def SegmentHeader.covered (h : SegmentHeader) : Bytes :=
  le32 h.magic ++ (le16 h.version ++ (le16 h.headerBytes ++ (le32 h.generation ++ le32 h.startSeq)))

def segmentHeaderCrc (h : SegmentHeader) : ℕ := checksum h.covered

def serializeSegmentHeader (generation startSeq : ℕ) : Bytes :=
  let h : SegmentHeader := { generation := generation, startSeq := startSeq }
  h.covered ++ le32 (segmentHeaderCrc h)

/-- The six words of a segment header, unchecked. -/
def readSegmentHeader (bytes : Bytes) : Option SegmentHeader := do
  let (magic, r) ← read32 bytes
  let (version, r) ← read16 r
  let (headerBytes, r) ← read16 r
  let (generation, r) ← read32 r
  let (startSeq, r) ← read32 r
  let (headerCrc, _) ← read32 r
  return ⟨magic, version, headerBytes, generation, startSeq, headerCrc⟩

def SegmentHeader.Valid (h : SegmentHeader) : Prop :=
  h.magic = kSegmentMagic ∧ h.version = kFormatVersion ∧ h.headerBytes = kSegmentHeaderBytes ∧
    h.headerCrc = segmentHeaderCrc h

instance (h : SegmentHeader) : Decidable h.Valid := inferInstanceAs (Decidable (_ ∧ _))

/-- `parseSegmentHeader`: the header, or on failure the version word that was read. -/
def parseSegmentHeader (bytes : Bytes) : Except ℕ SegmentHeader :=
  match readSegmentHeader bytes with
  | none => .error kFormatVersion
  | some h => if h.Valid then .ok h else .error h.version

/-! ## Events -/

/-- The fixed prefix of ENQUEUE and REWRITE events. -/
structure EnqueueHeader where
  magic : ℕ := kEnqueueMagic
  version : ℕ := kFormatVersion
  headerBytes : ℕ := kEnqueueHeaderBytes
  sequence : ℕ := 0
  payloadBytes : ℕ := 0
  deriving DecidableEq, Repr

/-- The bytes of an ENQUEUE or REWRITE header. -/
def EnqueueHeader.bytes (h : EnqueueHeader) : Bytes :=
  le32 h.magic ++ (le16 h.version ++ (le16 h.headerBytes ++
    (le32 h.sequence ++ le32 h.payloadBytes)))

def enqueueEventCrc (h : EnqueueHeader) (payload : Bytes) : ℕ := checksum (h.bytes ++ payload)

/-- The common body of `serializeEnqueueEvent` and `serializeRewriteEvent`. -/
def serializePayloadEvent (magic sequence : ℕ) (payload : Bytes) : Bytes :=
  let h : EnqueueHeader :=
    { magic := magic, sequence := sequence, payloadBytes := u32 payload.length }
  h.bytes ++ (payload ++ (le32 (enqueueEventCrc h payload) ++ le32 kFooterMagic))

def serializeEnqueueEvent (sequence : ℕ) (payload : Bytes) : Bytes :=
  serializePayloadEvent kEnqueueMagic sequence payload

def serializeRewriteEvent (sequence : ℕ) (payload : Bytes) : Bytes :=
  serializePayloadEvent kRewriteMagic sequence payload

/-- The five words of an ENQUEUE or REWRITE header, unchecked. -/
def readEnqueueHeader (bytes : Bytes) : Option EnqueueHeader := do
  let (magic, r) ← read32 bytes
  let (version, r) ← read16 r
  let (headerBytes, r) ← read16 r
  let (sequence, r) ← read32 r
  let (payloadBytes, _) ← read32 r
  return ⟨magic, version, headerBytes, sequence, payloadBytes⟩

def EnqueueHeader.Valid (h : EnqueueHeader) : Prop :=
  (h.magic = kEnqueueMagic ∨ h.magic = kRewriteMagic) ∧ h.version = kFormatVersion ∧
    h.headerBytes = kEnqueueHeaderBytes

instance (h : EnqueueHeader) : Decidable h.Valid := inferInstanceAs (Decidable (_ ∧ _))

def parseEnqueueHeader (bytes : Bytes) : Option EnqueueHeader :=
  (readEnqueueHeader bytes).filter fun h => h.Valid

/-- A complete POP event. -/
structure PopEvent where
  magic : ℕ := kPopMagic
  version : ℕ := kFormatVersion
  headerBytes : ℕ := kPopEventBytes
  sequence : ℕ := 0
  eventCrc : ℕ := 0
  footer : ℕ := kFooterMagic
  deriving DecidableEq, Repr

/-- The fields a POP event's CRC covers. -/
def PopEvent.covered (e : PopEvent) : Bytes :=
  le32 e.magic ++ (le16 e.version ++ (le16 e.headerBytes ++ le32 e.sequence))

def popEventCrc (e : PopEvent) : ℕ := checksum e.covered

def serializePopEvent (sequence : ℕ) : Bytes :=
  let p : PopEvent := { sequence := sequence }
  p.covered ++ (le32 (popEventCrc p) ++ le32 p.footer)

/-- The six words of a POP event, unchecked. -/
def readPopEvent (bytes : Bytes) : Option PopEvent := do
  let (magic, r) ← read32 bytes
  let (version, r) ← read16 r
  let (headerBytes, r) ← read16 r
  let (sequence, r) ← read32 r
  let (eventCrc, r) ← read32 r
  let (footer, _) ← read32 r
  return ⟨magic, version, headerBytes, sequence, eventCrc, footer⟩

def PopEvent.Valid (e : PopEvent) : Prop :=
  e.magic = kPopMagic ∧ e.version = kFormatVersion ∧ e.headerBytes = kPopEventBytes ∧
    e.footer = kFooterMagic ∧ e.eventCrc = popEventCrc e

instance (e : PopEvent) : Decidable e.Valid := inferInstanceAs (Decidable (_ ∧ _))

def parsePopEvent (bytes : Bytes) : Option PopEvent :=
  (readPopEvent bytes).filter fun e => e.Valid

/-! ## Manifests -/

/-- A run of consecutive sealed generations. -/
structure ManifestRange where
  startGen : ℕ
  endGen : ℕ
  deriving DecidableEq, Repr

structure ManifestData where
  epoch : ℕ := 0
  nextGeneration : ℕ := 1
  ranges : List ManifestRange := []
  /-- `0` when there is no tail. -/
  tailGeneration : ℕ := 0
  deriving DecidableEq, Repr

def ManifestRange.bytes (r : ManifestRange) : Bytes := le32 r.startGen ++ le32 r.endGen

/-- The manifest bytes its CRC covers. -/
def ManifestData.covered (m : ManifestData) : Bytes :=
  le32 kManifestMagic ++ (le16 kManifestVersion ++
    (le16 (u16 (kManifestFixedBytes + u16 m.ranges.length * 8)) ++ (le32 m.epoch ++
      (le32 m.nextGeneration ++ (le16 (u16 m.ranges.length) ++
        (m.ranges.flatMap ManifestRange.bytes ++ le32 m.tailGeneration))))))

def serialiseManifest (m : ManifestData) : Bytes :=
  m.covered ++ (le32 (checksum m.covered) ++ le32 kFooterMagic)

/-- The range loop of `parseManifest`. -/
def readRanges : ℕ → Bytes → Option (List ManifestRange × Bytes)
  | 0, bytes => some ([], bytes)
  | n + 1, bytes => do
    let (startGen, r) ← read32 bytes
    let (endGen, r) ← read32 r
    guard (startGen ≠ 0)
    guard (startGen ≤ endGen)
    let (rs, r) ← readRanges n r
    return (⟨startGen, endGen⟩ :: rs, r)

def parseManifest (data : Bytes) : Option ManifestData := do
  guard (kManifestFixedBytes ≤ data.length)
  let (magic, r) ← read32 data
  let (version, r) ← read16 r
  let (headerBytes, r) ← read16 r
  guard (magic = kManifestMagic)
  guard (version = kManifestVersion)
  let (epoch, r) ← read32 r
  let (nextGeneration, r) ← read32 r
  let (rangeCount, r) ← read16 r
  guard (rangeCount ≤ kManifestMaxRanges)
  guard (headerBytes = u16 (kManifestFixedBytes + rangeCount * 8))
  guard (data.length = headerBytes)
  let (ranges, r) ← readRanges rangeCount r
  let (tailGeneration, r) ← read32 r
  guard (¬(tailGeneration = 0 ∧ rangeCount ≠ 0))
  -- the CRC covers everything read so far
  let computedCrc := checksum (data.take (data.length - r.length))
  let (storedCrc, r) ← read32 r
  guard (storedCrc = computedCrc)
  let (footer, _) ← read32 r
  guard (footer = kFooterMagic)
  return ⟨epoch, nextGeneration, ranges, tailGeneration⟩

end Pqueue
