import Pqueue.Bytes.Crc
import Pqueue.Doctor.Dump
import Pqueue.Format.Codec
import Pqueue.Outbox.Envelope

/-!
# The checksums of the formats

The tables of `append_log_common.cpp`, `envelope.cpp` and `dump.h` give the bitwise CRC of `Crc`.
What the serialisers write is a body with the checksum of the body behind it, so that nothing else
that a parser accepts differs from it in one byte.
-/

namespace Pqueue

open LittleEndian

/-- The reflected polynomial of CRC-32. -/
def crcPolynomial : BitVec 32 := 0xEDB88320#32

/-! ## Tables -/

/-- The lowest bit, as the programs test it. -/
lemma and_one_eq_zero_iff (c : BitVec 32) : c &&& 1#32 = 0#32 ↔ c.getLsbD 0 = false := by
  rw [BitVec.and_one_eq_setWidth_ofBool_getLsbD]
  cases c.getLsbD 0
  · simp
  · simp

lemma crcTable_eq (c : BitVec 32) : crcTable c = Crc.shifts crcPolynomial 8 c := by
  have hstep : (fun (c : BitVec 32) (_ : ℕ) => (c >>> 1) ^^^
      (if c &&& 1#32 = 0#32 then 0#32 else 0xEDB88320#32)) =
        fun c _ => Crc.shift crcPolynomial c := by
    funext c _
    unfold Crc.shift
    simp only [and_one_eq_zero_iff]
    cases c.getLsbD 0 <;> rfl
  unfold crcTable
  rw [hstep]
  rfl

/-- The mask of both programs keeps a byte. -/
lemma getLsbD_byteMask : ∀ i < 32, (0xFF#32).getLsbD i = decide (i < 8) := by decide

lemma crcStep_eq : crcStep = Crc.byteStep crcPolynomial := by
  funext crc b
  rw [crcStep, crcTable_eq, Crc.byteStep_eq_table crcPolynomial crc b getLsbD_byteMask]

/-- **The table gives the bitwise CRC.** -/
lemma crc32_eq_crc (crc : BitVec 32) (data : Bytes) :
    crc32 crc data = Crc.crc crcPolynomial crc data := by
  rw [crc32, crcStep_eq, Crc.crc]

lemma crc32_append (crc : BitVec 32) (a b : Bytes) :
    crc32 (crc32 crc a) b = crc32 crc (a ++ b) := by
  simp only [crc32_eq_crc, Crc.crc_append]

namespace Doctor

lemma crc32Update_eq_crc (crc : BitVec 32) (data : Bytes) :
    crc32Update crc data = Crc.crc crcPolynomial crc data := crc32_eq_crc crc data

lemma crc32Update_append (crc : BitVec 32) (a b : Bytes) :
    crc32Update (crc32Update crc a) b = crc32Update crc (a ++ b) := crc32_append crc a b

end Doctor

lemma crcPolynomial_top : crcPolynomial.getLsbD (32 - 1) = true := by decide

lemma crc_ne_of_replaced {c : BitVec 32} {a a' : Bytes} (h : Crc.Replaced a a') :
    Crc.crc crcPolynomial c a' ≠ Crc.crc crcPolynomial c a :=
  Crc.crc_ne_of_replaced crcPolynomial_top (by simp) c h

namespace Envelope

lemma crc32Table_eq (c : BitVec 32) : crc32Table c = Crc.shifts crcPolynomial 8 c := by
  have hstep : (fun (value : BitVec 32) (_ : ℕ) => (value >>> 1) ^^^
      (0xEDB88320#32 &&& (0#32 - (value &&& 1#32)))) =
        fun c _ => Crc.shift crcPolynomial c := by
    funext c _
    unfold Crc.shift
    rw [BitVec.and_one_eq_setWidth_ofBool_getLsbD]
    cases c.getLsbD 0 <;> rfl
  unfold crc32Table
  rw [hstep]
  rfl

/-- **The table gives the bitwise CRC.** -/
lemma crc32_eq_crc (data : Bytes) : crc32 data = Crc.crc crcPolynomial 0#32 data := by
  have hstep : (fun (checksum : BitVec 32) (b : UInt8) => (checksum >>> 8) ^^^
      crc32Table ((checksum ^^^ BitVec.ofNat 32 b.toNat) &&& 0xFF#32)) =
        Crc.byteStep crcPolynomial := by
    funext checksum b
    rw [crc32Table_eq, Crc.byteStep_eq_table crcPolynomial checksum b getLsbD_byteMask,
      BitVec.xor_comm]
  rw [crc32, hstep, Crc.crc]
  rfl

end Envelope

/-! ## Sealed bodies -/

lemma le32_injective {v v' : ℕ} (hv : v < 2 ^ 32) (hv' : v' < 2 ^ 32) (h : le32 v = le32 v') :
    v = v' := by
  have hread := read32_le32 hv []
  rw [h, read32_le32 hv' []] at hread
  exact (Prod.mk.inj (Option.some.inj hread)).1.symm

/-- A body with its checksum, and something constant behind it. -/
lemma not_replaced_checksum {a a' tail : Bytes} (hlen : a'.length = a.length) :
    ¬Crc.Replaced (a ++ (le32 (checksum a) ++ tail)) (a' ++ (le32 (checksum a') ++ tail)) := by
  refine Crc.not_replaced_sealed (f := fun a => le32 (checksum a) ++ tail) ?_ hlen
  intro a a' h heq
  have hword := le32_injective (checksum_lt a') (checksum_lt a) (List.append_cancel_right heq)
  have hcrc := BitVec.eq_of_toNat_eq hword
  rw [crc32_eq_crc, crc32_eq_crc] at hcrc
  exact crc_ne_of_replaced h hcrc

lemma not_replaced_checksum_last {a a' : Bytes} (hlen : a'.length = a.length) :
    ¬Crc.Replaced (a ++ le32 (checksum a)) (a' ++ le32 (checksum a')) := by
  intro h
  rw [← List.append_nil (le32 (checksum a)), ← List.append_nil (le32 (checksum a'))] at h
  exact not_replaced_checksum hlen h

lemma Envelope.not_replaced_checksum {a a' : Bytes} (hlen : a'.length = a.length) :
    ¬Crc.Replaced (a ++ le32 (Envelope.crc32 a).toNat) (a' ++ le32 (Envelope.crc32 a').toNat) := by
  refine Crc.not_replaced_sealed (f := fun a => le32 (Envelope.crc32 a).toNat) ?_ hlen
  intro a a' h heq
  have hcrc := BitVec.eq_of_toNat_eq
    (le32_injective (Envelope.crc32 a').isLt (Envelope.crc32 a).isLt heq)
  rw [Envelope.crc32_eq_crc, Envelope.crc32_eq_crc] at hcrc
  exact crc_ne_of_replaced h hcrc

/-! ## Damaged files -/

section

variable {bytes : Bytes}

lemma parseManifest_replaced {m : ManifestData} (h : Crc.Replaced (serialiseManifest m) bytes) :
    parseManifest bytes = none := by
  cases hp : parseManifest bytes with
  | none => rfl
  | some m' =>
    obtain ⟨-, rfl⟩ := parseManifest_eq_some hp
    have hlen := h.length_eq
    simp only [serialiseManifest, List.length_append, length_le32] at hlen
    exact absurd h (not_replaced_checksum (by omega))

lemma parseSegmentHeader_replaced {g s : ℕ} (h : Crc.Replaced (serializeSegmentHeader g s) bytes)
    (rest : Bytes) (header : SegmentHeader) : parseSegmentHeader (bytes ++ rest) ≠ .ok header := by
  intro hp
  obtain ⟨rest', hbytes, -, -⟩ := parseSegmentHeader_eq_ok hp
  have hlen : bytes.length = (serializeSegmentHeader header.generation header.startSeq).length := by
    rw [h.length_eq, length_serializeSegmentHeader, length_serializeSegmentHeader]
  obtain ⟨rfl, -⟩ := List.append_inj hbytes hlen
  exact absurd h (not_replaced_checksum_last rfl)

lemma parsePopEvent_replaced {seq : ℕ} (h : Crc.Replaced (serializePopEvent seq) bytes)
    (rest : Bytes) : parsePopEvent (bytes ++ rest) = none := by
  cases hp : parsePopEvent (bytes ++ rest) with
  | none => rfl
  | some e =>
    obtain ⟨rest', hbytes, -, -⟩ := parsePopEvent_eq_some hp
    have hlen : bytes.length = (serializePopEvent e.sequence).length := by
      rw [h.length_eq, length_serializePopEvent, length_serializePopEvent]
    obtain ⟨rfl, -⟩ := List.append_inj hbytes hlen
    exact absurd h (not_replaced_checksum rfl)

lemma Envelope.decodeEnvelope_replaced {sizeBits attempts : ℕ} {payload encoded : Bytes}
    (hbits : 32 ≤ sizeBits) (hencoded : encodeEnvelope attempts payload = some encoded)
    (h : Crc.Replaced encoded bytes) : decodeEnvelope sizeBits bytes = none := by
  have hshape : ∀ {attempts payload encoded}, encodeEnvelope attempts payload = some encoded →
      ∃ body, encoded = body ++ le32 (Envelope.crc32 body).toNat := by
    intro attempts payload encoded he
    unfold encodeEnvelope at he
    split at he
    · simp at he
    · exact ⟨_, (Option.some.inj he).symm⟩
  cases hp : decodeEnvelope sizeBits bytes with
  | none => rfl
  | some decoded =>
    obtain ⟨-, hencoded'⟩ := decodeEnvelope_eq_some hbits hp
    obtain ⟨body, rfl⟩ := hshape hencoded
    obtain ⟨body', rfl⟩ := hshape hencoded'
    have hlen := h.length_eq
    simp only [List.length_append, length_le32] at hlen
    exact absurd h (Envelope.not_replaced_checksum (by omega))

end

/-- **The checksums.**  The three table-driven routines compute the bitwise CRC, of which two can be
continued; and what is serialised is not accepted any more when one byte is replaced, wherever it
stands. -/
theorem crc32_bitwise_and_detects :
    (∀ crc data, crc32 crc data = Crc.crc crcPolynomial crc data ∧
      Doctor.crc32Update crc data = Crc.crc crcPolynomial crc data) ∧
    (∀ data, Envelope.crc32 data = Crc.crc crcPolynomial 0#32 data) ∧
    (∀ crc a b, crc32 (crc32 crc a) b = crc32 crc (a ++ b) ∧
      Doctor.crc32Update (Doctor.crc32Update crc a) b = Doctor.crc32Update crc (a ++ b)) ∧
    (∀ m bytes, Crc.Replaced (serialiseManifest m) bytes → parseManifest bytes = none) ∧
    (∀ g s bytes, Crc.Replaced (serializeSegmentHeader g s) bytes →
      ∀ rest header, parseSegmentHeader (bytes ++ rest) ≠ .ok header) ∧
    (∀ seq bytes, Crc.Replaced (serializePopEvent seq) bytes →
      ∀ rest, parsePopEvent (bytes ++ rest) = none) ∧
    ∀ sizeBits attempts payload encoded bytes, 32 ≤ sizeBits →
      Envelope.encodeEnvelope attempts payload = some encoded → Crc.Replaced encoded bytes →
        Envelope.decodeEnvelope sizeBits bytes = none := by
  refine ⟨?_, Envelope.crc32_eq_crc, ?_, ?_, ?_, ?_, ?_⟩
  · intro crc data
    exact ⟨crc32_eq_crc crc data, Doctor.crc32Update_eq_crc crc data⟩
  · intro crc a b
    exact ⟨crc32_append crc a b, Doctor.crc32Update_append crc a b⟩
  · intro m bytes h
    exact parseManifest_replaced h
  · intro g s bytes h rest header
    exact parseSegmentHeader_replaced h rest header
  · intro seq bytes h rest
    exact parsePopEvent_replaced h rest
  · intro sizeBits attempts payload encoded bytes hbits hencoded h
    exact Envelope.decodeEnvelope_replaced hbits hencoded h

lemma replaced_head {b b' : UInt8} {rest : Bytes} (h : b ≠ b') :
    Crc.Replaced (b :: rest) (b' :: rest) := ⟨[], b, b', rest, h, rfl, rfl⟩

/-- Each format with its first byte zeroed. -/
theorem crc32_bitwise_and_detects_first_byte :
    parseManifest (0 :: (serialiseManifest {}).tail) = none ∧
      (∀ header, parseSegmentHeader (0 :: (serializeSegmentHeader 1 0).tail ++ []) ≠ .ok header) ∧
      parsePopEvent (0 :: (serializePopEvent 7).tail ++ []) = none ∧
      ∃ encoded, Envelope.encodeEnvelope 0 [] = some (0x42 :: encoded) ∧
        Envelope.decodeEnvelope 64 (0 :: encoded) = none := by
  obtain ⟨-, -, -, hmanifest, hheader, hpop, henvelope⟩ := crc32_bitwise_and_detects
  refine ⟨?_, ?_, ?_, ?_⟩
  · exact hmanifest {} _ (replaced_head (by decide))
  · exact hheader 1 0 _ (replaced_head (by decide)) []
  · exact hpop 7 _ (replaced_head (by decide)) []
  · exact ⟨_, rfl, henvelope 64 0 [] _ _ (by simp) rfl (replaced_head (by decide))⟩

end Pqueue
