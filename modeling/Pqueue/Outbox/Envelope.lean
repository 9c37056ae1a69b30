import Pqueue.Bytes.LittleEndian

/-!
# The outbox envelope

`envelope.cpp`: what the outbox stores in the queue for a payload, which is the payload with a
header and a checksum of its own.
-/

namespace Pqueue

open LittleEndian

namespace Envelope

/-- `"PQOB"`. -/
def kOutboxEnvelopeMagic : ℕ := 0x50514f42
def kOutboxEnvelopeVersion : UInt8 := 1
def kOutboxEnvelopeHeaderSize : ℕ := 10
def kChecksumSize : ℕ := 4

/-- Entry `i` of `crc32Table`. -/
def crc32Table (i : BitVec 32) : BitVec 32 :=
  (List.range 8).foldl
    (fun value _ => (value >>> 1) ^^^ (0xEDB88320#32 &&& (0#32 - (value &&& 1#32)))) i

def crc32 (bytes : Bytes) : BitVec 32 :=
  ~~~(bytes.foldl (fun checksum b => (checksum >>> 8) ^^^
    crc32Table ((checksum ^^^ BitVec.ofNat 32 b.toNat) &&& 0xFF#32)) 0xFFFFFFFF#32)

/-- The header of an envelope. -/
def header (attempts payloadLength : ℕ) : Bytes :=
  le32 kOutboxEnvelopeMagic ++
    (kOutboxEnvelopeVersion :: UInt8.ofNat attempts :: le32 payloadLength)

def encodeEnvelope (attempts : ℕ) (payload : Bytes) : Option Bytes :=
  if payload.length > 2 ^ 32 - 1 then none
  else
    let encoded := header attempts payload.length ++ payload
    some (encoded ++ le32 (crc32 encoded).toNat)

/-- The stored checksum is that of the bytes in front of it. -/
def hasValidChecksum (encoded : Bytes) : Bool :=
  if encoded.length < kOutboxEnvelopeHeaderSize + kChecksumSize then false
  else
    let checksumOffset := encoded.length - kChecksumSize
    match read32 (encoded.drop checksumOffset) with
    | some (storedChecksum, _) => storedChecksum = (crc32 (encoded.take checksumOffset)).toNat
    | none => false

/-- Consume a byte. -/
def readByte : Bytes → Option (UInt8 × Bytes)
  | [] => none
  | b :: rest => some (b, rest)

/-- The attempts byte and the payload; `sizeBits` is the width of `std::size_t`, in which the
length is checked. -/
def decodeEnvelope (sizeBits : ℕ) (encoded : Bytes) : Option (ℕ × Bytes) := do
  if hasValidChecksum encoded then
    let payloadEnd := encoded.length - kChecksumSize
    let (magic, r) ← read32 encoded
    let (version, r) ← readByte r
    let (attempts, r) ← readByte r
    let (payloadLength, r) ← read32 r
    if magic ≠ kOutboxEnvelopeMagic ∨ version ≠ kOutboxEnvelopeVersion then none
    else if (kOutboxEnvelopeHeaderSize + payloadLength) % 2 ^ sizeBits ≠ payloadEnd then none
    else return (attempts.toNat, r.take payloadLength)
  else none

lemma length_header (attempts n : ℕ) : (header attempts n).length = kOutboxEnvelopeHeaderSize := rfl

/-- Decoding, field by field. -/
lemma decodeEnvelope_fields {sizeBits payloadLength : ℕ} {attempts : UInt8} {encoded r r' : Bytes}
    (hcrc : hasValidChecksum encoded = true)
    (hhead : read32 encoded =
      some (kOutboxEnvelopeMagic, kOutboxEnvelopeVersion :: attempts :: r))
    (hlength : read32 r = some (payloadLength, r'))
    (hfits : (kOutboxEnvelopeHeaderSize + payloadLength) % 2 ^ sizeBits =
      encoded.length - kChecksumSize) :
    decodeEnvelope sizeBits encoded = some (attempts.toNat, r'.take payloadLength) := by
  unfold decodeEnvelope
  rw [if_pos hcrc]
  simp [hhead, readByte, hlength, hfits]

/-- The payload comes back, on a platform whose sizes hold the length of the envelope. -/
lemma decodeEnvelope_encode {sizeBits attempts : ℕ} {payload encoded : Bytes} (ha : attempts < 256)
    (h : encodeEnvelope attempts payload = some encoded) (hsize : encoded.length < 2 ^ sizeBits) :
    decodeEnvelope sizeBits encoded = some (attempts, payload) := by
  unfold encodeEnvelope at h
  split at h
  · simp at h
  next hlen =>
  obtain rfl := Option.some.inj h
  set body := header attempts payload.length ++ payload with hbody
  have hbodylen : body.length = kOutboxEnvelopeHeaderSize + payload.length := by
    rw [hbody, List.length_append, length_header]
  have htotal : (body ++ le32 (crc32 body).toNat).length = body.length + kChecksumSize := by
    rw [List.length_append, length_le32]
    rfl
  have hend : (body ++ le32 (crc32 body).toNat).length - kChecksumSize = body.length := by
    rw [htotal, Nat.add_sub_cancel]
  have hcrc : hasValidChecksum (body ++ le32 (crc32 body).toNat) = true := by
    unfold hasValidChecksum
    rw [if_neg (by rw [htotal, hbodylen]; omega), hend]
    dsimp only
    rw [List.drop_left, List.take_left]
    have hread := read32_le32 (crc32 body).isLt []
    rw [List.append_nil] at hread
    rw [hread]
    exact decide_eq_true rfl
  have hmagic := read32_le32 (show kOutboxEnvelopeMagic < 2 ^ 32 by decide)
    (kOutboxEnvelopeVersion :: UInt8.ofNat attempts ::
      (le32 payload.length ++ (payload ++ le32 (crc32 body).toNat)))
  have hlength := read32_le32 (show payload.length < 2 ^ 32 by omega)
    (payload ++ le32 (crc32 body).toNat)
  have hsplit : ∀ tl, body ++ tl = le32 kOutboxEnvelopeMagic ++
      (kOutboxEnvelopeVersion :: UInt8.ofNat attempts ::
        (le32 payload.length ++ (payload ++ tl))) := by
    intro tl
    rw [hbody, header]
    simp only [List.append_assoc, List.cons_append]
  have hfits : (kOutboxEnvelopeHeaderSize + payload.length) % 2 ^ sizeBits = body.length := by
    rw [hbodylen, Nat.mod_eq_of_lt]
    rw [htotal, hbodylen] at hsize
    omega
  have hdecoded := decodeEnvelope_fields hcrc ((congrArg read32 (hsplit _)).trans hmagic) hlength
    (hfits.trans hend.symm)
  rw [hdecoded, List.take_left]
  simp [Nat.mod_eq_of_lt ha]

lemma exists_encodeEnvelope (attempts : ℕ) (payload : Bytes) (h : payload.length ≤ 2 ^ 32 - 1) :
    ∃ encoded, encodeEnvelope attempts payload = some encoded := by
  unfold encodeEnvelope
  rw [if_neg (by omega)]
  exact ⟨_, rfl⟩

/-- An envelope fits a 64-bit size. -/
lemma length_encode_lt {attempts : ℕ} {payload encoded : Bytes}
    (h : encodeEnvelope attempts payload = some encoded) : encoded.length < 2 ^ 64 := by
  unfold encodeEnvelope at h
  split at h
  · simp at h
  next hlen =>
  obtain rfl := Option.some.inj h
  have hchecksum := length_le32 (crc32 (header attempts payload.length ++ payload)).toNat
  have hheader := length_header attempts payload.length
  simp only [List.length_append, hchecksum, hheader, kOutboxEnvelopeHeaderSize]
  omega

/-- What `hasValidChecksum` accepts ends in the checksum of the rest. -/
lemma eq_of_hasValidChecksum {encoded : Bytes} (h : hasValidChecksum encoded = true) :
    kOutboxEnvelopeHeaderSize + kChecksumSize ≤ encoded.length ∧
      encoded = encoded.take (encoded.length - kChecksumSize) ++
        le32 (crc32 (encoded.take (encoded.length - kChecksumSize))).toNat := by
  unfold hasValidChecksum at h
  split at h
  · simp at h
  next hlen =>
  dsimp only at h
  split at h
  · next stored rest hread =>
    obtain rfl : stored = _ := of_decide_eq_true h
    obtain ⟨hdrop, -⟩ := read32_eq_some hread
    have hrest : rest = [] := by
      have hl := congrArg List.length hdrop
      rw [List.length_drop, List.length_append, length_le32, kChecksumSize] at hl
      exact List.eq_nil_of_length_eq_zero (by omega)
    rw [hrest, List.append_nil] at hdrop
    refine ⟨Nat.not_lt.1 hlen, ?_⟩
    conv_lhs => rw [← List.take_append_drop (encoded.length - kChecksumSize) encoded, hdrop]
  · simp at h

lemma readByte_eq_some {bs rest : Bytes} {b : UInt8} (h : readByte bs = some (b, rest)) :
    bs = b :: rest := by
  cases bs with
  | nil => simp [readByte] at h
  | cons c cs =>
    obtain ⟨rfl, rfl⟩ := Prod.mk.inj (Option.some.inj h)
    rfl

/-- What is accepted was encoded.  The sum of header and payload length cannot wrap, as the envelope
is longer than its header. -/
lemma decodeEnvelope_eq_some {sizeBits attempts : ℕ} {payload encoded : Bytes}
    (hbits : 32 ≤ sizeBits) (h : decodeEnvelope sizeBits encoded = some (attempts, payload)) :
    attempts < 256 ∧ encodeEnvelope attempts payload = some encoded := by
  unfold decodeEnvelope at h
  split at h
  · next hvalid =>
    obtain ⟨hmin, hsplit⟩ := eq_of_hasValidChecksum hvalid
    simp only [Option.bind_eq_bind, Option.bind_eq_some_iff, Prod.exists] at h
    obtain ⟨magic, r1, hmagic, version, r2, hversion, a, r3, ha, n, r4, hn, h⟩ := h
    split at h
    · simp at h
    next hok =>
    split at h
    · simp at h
    next hlength =>
    simp only [not_or, not_not] at hok hlength
    obtain ⟨rfl, rfl⟩ := hok
    obtain ⟨rfl, rfl⟩ := Prod.mk.inj (Option.some.inj h)
    obtain ⟨hmagic, -⟩ := read32_eq_some hmagic
    obtain rfl := readByte_eq_some hversion
    obtain rfl := readByte_eq_some ha
    obtain ⟨hn, hn_lt⟩ := read32_eq_some hn
    set m := encoded.length - kChecksumSize with hm
    have hpow : 2 ^ 32 ≤ 2 ^ sizeBits := Nat.pow_le_pow_right (by decide) hbits
    have hexact : kOutboxEnvelopeHeaderSize + n = m := by
      by_cases hlt : kOutboxEnvelopeHeaderSize + n < 2 ^ sizeBits
      · rwa [Nat.mod_eq_of_lt hlt] at hlength
      · -- a wrapped sum is smaller than a header
        have hsub : kOutboxEnvelopeHeaderSize + n - 2 ^ sizeBits < kOutboxEnvelopeHeaderSize := by
          omega
        have hmod := Nat.mod_eq_sub_mod (Nat.not_lt.1 hlt)
        rw [hlength] at hmod
        have hle := Nat.mod_le (kOutboxEnvelopeHeaderSize + n - 2 ^ sizeBits) (2 ^ sizeBits)
        omega
    have hencoded : encoded = header a.toNat n ++ r4 := by
      rw [hmagic, hn, header, UInt8.ofNat_toNat, List.append_assoc]
      rfl
    have hbody : encoded.take m = header a.toNat n ++ r4.take n := by
      rw [hencoded, ← hexact, ← length_header a.toNat n, List.take_length_add_append]
    have htaken : (r4.take n).length = n := by
      have hl := congrArg List.length hbody
      rw [List.length_append, length_header, List.length_take_of_le (by omega)] at hl
      omega
    refine ⟨a.toNat_lt, ?_⟩
    unfold encodeEnvelope
    rw [htaken, if_neg (by omega)]
    dsimp only
    rw [← hbody, ← hsplit]
  · simp at h

/-- **Envelope codec**, for sizes of at least 32 bits.  Every payload of less than 2³² bytes can be
encoded; the strings of the platform that decode to something are those that it encodes to. -/
theorem decodeEnvelope_iff {sizeBits : ℕ} (hbits : 32 ≤ sizeBits) :
    (∀ (attempts : ℕ) (payload : Bytes), payload.length < 2 ^ 32 →
      ∃ encoded, encodeEnvelope attempts payload = some encoded) ∧
    ∀ (attempts : ℕ) (payload encoded : Bytes), encoded.length < 2 ^ sizeBits →
      (decodeEnvelope sizeBits encoded = some (attempts, payload) ↔
        attempts < 256 ∧ encodeEnvelope attempts payload = some encoded) := by
  refine ⟨fun attempts payload h => ?_, fun attempts payload encoded hsize => ?_⟩
  · exact exists_encodeEnvelope attempts payload (Nat.le_sub_one_of_lt h)
  · constructor
    · exact decodeEnvelope_eq_some hbits
    · rintro ⟨ha, h⟩
      exact decodeEnvelope_encode ha h hsize

/-- An envelope with three attempts, on both platforms. -/
theorem decodeEnvelope_iff_platforms : ∃ encoded, encodeEnvelope 3 [7] = some encoded ∧
    decodeEnvelope 32 encoded = some (3, [7]) ∧ decodeEnvelope 64 encoded = some (3, [7]) := by
  obtain ⟨hencodes, hdecodes⟩ := decodeEnvelope_iff (Nat.le_refl 32)
  obtain ⟨encoded, h⟩ := hencodes 3 [7] (by decide)
  have hlength : (encodeEnvelope 3 [7]).map List.length = some 15 := by decide +kernel
  rw [h] at hlength
  have hlength : encoded.length = 15 := Option.some.inj hlength
  refine ⟨encoded, h, (hdecodes 3 [7] encoded (by omega)).2 ⟨by decide, h⟩, ?_⟩
  exact ((decodeEnvelope_iff (by decide : 32 ≤ 64)).2 3 [7] encoded (by omega)).2 ⟨by decide, h⟩

end Envelope

end Pqueue
