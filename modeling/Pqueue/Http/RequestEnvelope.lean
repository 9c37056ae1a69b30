import Pqueue.Outbox.Envelope

/-!
# The request envelope

`http/request_envelope.cpp`: the payload that the HTTP outbox hands to the outbox, which is a
request with the lengths of its path and body in front.  There are two versions; the first has no
byte for the encoding of the body, and only the second is written.
-/

namespace Pqueue

open LittleEndian

namespace Http

open Envelope (readByte readByte_eq_some)

/-! ## Requests -/

/-- `Method`: an enumeration over a byte, which can hold every byte. -/
abbrev Method := UInt8

def Method.Post : Method := 1

/-- `BodyEncoding`, an enumeration over a byte. -/
abbrev BodyEncoding := UInt8

def BodyEncoding.Raw : BodyEncoding := 0
def BodyEncoding.Compact : BodyEncoding := 1

structure RequestEnvelope where
  method : Method := .Post
  encoding : BodyEncoding := .Raw
  path : Bytes
  body : Bytes
  deriving DecidableEq

/-- `"PQHR"`. -/
def kHttpRequestEnvelopeMagic : ℕ := 0x50514852
def kHttpRequestEnvelopeVersion : UInt8 := 2
def kHttpRequestEnvelopeV1 : UInt8 := 1

def methodIsSupported (method : UInt8) : Bool := method = Method.Post

def encodingIsSupported (encoding : UInt8) : Bool :=
  encoding = BodyEncoding.Raw ∨ encoding = BodyEncoding.Compact

/-! ## The codec -/

/-- What follows the version, method and encoding: the lengths, the path and the body. -/
def tail (request : RequestEnvelope) : Bytes :=
  le16 request.path.length ++ (le32 request.body.length ++ (request.path ++ request.body))

/-- The bytes that are written for a request. -/
def envelopeV2 (request : RequestEnvelope) : Bytes :=
  le32 kHttpRequestEnvelopeMagic ++
    (kHttpRequestEnvelopeVersion :: request.method :: request.encoding :: tail request)

def encodeRequestEnvelope (request : RequestEnvelope) : Option Bytes :=
  if request.method ≠ .Post then none
  else if encodingIsSupported request.encoding = false then none
  else if request.path.length > 2 ^ 16 - 1 then none
  else if request.body.length > 2 ^ 32 - 1 then none
  else some (envelopeV2 request)

/-- The encoding byte, which version 1 does not have. -/
def readEncoding (version : UInt8) (r : Bytes) : Option (BodyEncoding × Bytes) :=
  if version = kHttpRequestEnvelopeV1 then some (.Raw, r)
  else if version = kHttpRequestEnvelopeVersion then do
    let (encodingByte, r) ← readByte r
    if encodingIsSupported encodingByte = false then none else some (encodingByte, r)
  else none

/-- `r` is what stands behind the offset of the source, so that `r.length` is
`encoded.size() - offset`. -/
def decodeRequestEnvelope (encoded : Bytes) : Option RequestEnvelope := do
  let (magic, r) ← read32 encoded
  let (version, r) ← readByte r
  let (method, r) ← readByte r
  if magic ≠ kHttpRequestEnvelopeMagic ∨ methodIsSupported method = false then none
  else
    let (encodingByte, r) ← readEncoding version r
    let (pathLength, r) ← read16 r
    let (bodyLength, r) ← read32 r
    if pathLength > r.length then none
    else
      let path := r.take pathLength
      let r := r.drop pathLength
      if bodyLength > r.length then none
      else
        let body := r.take bodyLength
        let r := r.drop bodyLength
        if r.length = 0 then some ⟨method, encodingByte, path, body⟩ else none

/-! ## What the strings mean -/

/-- The envelope of the first version, which older firmware wrote. -/
def envelopeV1 (request : RequestEnvelope) : Bytes :=
  le32 kHttpRequestEnvelopeMagic ++
    (kHttpRequestEnvelopeV1 :: request.method :: tail request)

/-- The requests that can be written down. -/
structure RequestEnvelope.Encodable (request : RequestEnvelope) : Prop where
  post : request.method = .Post
  encoding : encodingIsSupported request.encoding = true
  path : request.path.length ≤ 65535
  body : request.body.length < 2 ^ 32

/-- The string is the version 1 or version 2 envelope of a request, and nothing else. -/
inductive IsEnvelope (request : RequestEnvelope) : Bytes → Prop
  | v1 (raw : request.encoding = .Raw) : IsEnvelope request (envelopeV1 request)
  | v2 : IsEnvelope request (envelopeV2 request)

/-- The version byte of a string. -/
def versionOf (encoded : Bytes) : Option UInt8 := encoded[4]?

@[simp] lemma versionOf_envelopeV1 (request : RequestEnvelope) :
    versionOf (envelopeV1 request) = some kHttpRequestEnvelopeV1 := rfl

@[simp] lemma versionOf_envelopeV2 (request : RequestEnvelope) :
    versionOf (envelopeV2 request) = some kHttpRequestEnvelopeVersion := rfl

section

variable {request : RequestEnvelope} {encoded : Bytes}

lemma encodeRequestEnvelope_eq (h : request.Encodable) :
    encodeRequestEnvelope request = some (envelopeV2 request) := by
  obtain ⟨hpost, hencoding, hpath, hbody⟩ := h
  unfold encodeRequestEnvelope
  rw [if_neg (by simp [hpost]), if_neg (by simp [hencoding]), if_neg (by omega),
    if_neg (by omega)]

/-! ## Decoding an envelope -/

/-- Decoding up to the lengths leaves what the encoding byte is followed by. -/
lemma decode_head {version : UInt8} {method : Method} {encoding : BodyEncoding} {r r' : Bytes}
    (hmethod : method = .Post)
    (hencoding : readEncoding version r = some (encoding, tail ⟨method, encoding, request.path,
      request.body⟩))
    (hr' : r' = le32 kHttpRequestEnvelopeMagic ++ (version :: method :: r))
    (hpath : request.path.length ≤ 65535) (hbody : request.body.length < 2 ^ 32) :
    decodeRequestEnvelope r' = some ⟨method, encoding, request.path, request.body⟩ := by
  have hmagic := read32_le32 (show kHttpRequestEnvelopeMagic < 2 ^ 32 by decide)
    (version :: method :: r)
  have hpathLength := read16_le16 (show request.path.length < 2 ^ 16 by omega)
    (le32 request.body.length ++ (request.path ++ request.body))
  have hbodyLength := read32_le32 hbody (request.path ++ request.body)
  have hsupported : methodIsSupported method = true := by simp [methodIsSupported, hmethod]
  unfold decodeRequestEnvelope
  simp [hr', hmagic, readByte, hsupported, hencoding, tail, hpathLength, hbodyLength]

/-- Both versions are read back. -/
lemma decodeRequestEnvelope_of_isEnvelope (h : request.Encodable)
    (henvelope : IsEnvelope request encoded) : decodeRequestEnvelope encoded = some request := by
  obtain ⟨hpost, hencoding, hpath, hbody⟩ := h
  cases henvelope with
  | v1 raw =>
    refine decode_head hpost ?_ rfl hpath hbody
    unfold readEncoding
    rw [if_pos rfl, raw]
    rfl
  | v2 =>
    refine decode_head hpost ?_ rfl hpath hbody
    unfold readEncoding
    rw [if_neg (by decide), if_pos rfl]
    simp [readByte, hencoding]

/-! ## What is accepted -/

/-- The encoding byte that is read is supported, and stands in version 2 only. -/
lemma readEncoding_eq_some {version : UInt8} {encoding : BodyEncoding} {r r' : Bytes}
    (h : readEncoding version r = some (encoding, r')) :
    encodingIsSupported encoding = true ∧
      (version = kHttpRequestEnvelopeV1 ∧ encoding = .Raw ∧ r = r' ∨
        version = kHttpRequestEnvelopeVersion ∧ r = encoding :: r') := by
  unfold readEncoding at h
  split at h
  · next hversion =>
    simp only [Option.some.injEq, Prod.mk.injEq] at h
    obtain ⟨rfl, rfl⟩ := h
    exact ⟨by decide, .inl ⟨hversion, rfl, rfl⟩⟩
  split at h
  · next hversion =>
    simp only [Option.bind_eq_bind, Option.bind_eq_some_iff, Prod.exists] at h
    obtain ⟨e, r₁, hread, h⟩ := h
    split at h
    · simp at h
    next hsupported =>
    simp only [Option.some.injEq, Prod.mk.injEq] at h
    obtain ⟨rfl, rfl⟩ := h
    exact ⟨by simpa using hsupported, .inr ⟨hversion, readByte_eq_some hread⟩⟩
  · simp at h

/-- What is accepted is an envelope of the request, no byte more or less. -/
lemma decodeRequestEnvelope_eq_some (h : decodeRequestEnvelope encoded = some request) :
    request.Encodable ∧ IsEnvelope request encoded := by
  unfold decodeRequestEnvelope at h
  simp only [Option.bind_eq_bind, Option.bind_eq_some_iff, Prod.exists] at h
  obtain ⟨magic, r₁, hmagic, version, r₂, hversion, method, r₃, hmethod, h⟩ := h
  split at h
  · simp at h
  next hhead =>
  simp only [Option.bind_eq_some_iff, Prod.exists] at h
  obtain ⟨encoding, r₄, hencoding, pathLength, r₅, hpath, bodyLength, r₆, hbody, h⟩ := h
  split at h
  · simp at h
  next hpathLength =>
  split at h
  · simp at h
  next hbodyLength =>
  split at h
  · next hend =>
    obtain rfl := Option.some.inj h
    simp only [not_or, not_not, Bool.not_eq_false, methodIsSupported, decide_eq_true_eq] at hhead
    obtain ⟨rfl, hpost⟩ := hhead
    obtain ⟨hmagic, -⟩ := read32_eq_some hmagic
    obtain rfl := readByte_eq_some hversion
    obtain rfl := readByte_eq_some hmethod
    obtain ⟨hsupported, hversions⟩ := readEncoding_eq_some hencoding
    obtain ⟨hpath, hpath_lt⟩ := read16_eq_some hpath
    obtain ⟨hbody, hbody_lt⟩ := read32_eq_some hbody
    have hpathLen : (r₆.take pathLength).length = pathLength :=
      List.length_take_of_le (Nat.not_lt.1 hpathLength)
    have hbodyLen : ((r₆.drop pathLength).take bodyLength).length = bodyLength :=
      List.length_take_of_le (Nat.not_lt.1 hbodyLength)
    -- the body is all that follows the path
    have hrest : (r₆.drop pathLength).take bodyLength = r₆.drop pathLength := by
      have hdone := List.eq_nil_of_length_eq_zero hend
      conv_rhs => rw [← List.take_append_drop bodyLength (r₆.drop pathLength), hdone,
        List.append_nil]
    have htail : r₄ = tail ⟨method, encoding, r₆.take pathLength,
        (r₆.drop pathLength).take bodyLength⟩ := by
      rw [tail]
      dsimp only
      rw [hpathLen, hbodyLen, hrest, List.take_append_drop, hpath, hbody]
    refine ⟨⟨hpost, hsupported, by dsimp only; omega, by dsimp only; omega⟩, ?_⟩
    rcases hversions with ⟨rfl, rfl, rfl⟩ | ⟨rfl, rfl⟩
    · rw [hmagic, htail]
      exact .v1 rfl
    · rw [hmagic, htail]
      exact .v2
  · simp at h

end

/-- **Request envelope codec.**  What is encoded is decoded again; the accepted strings are the
envelopes of the decoded request; encoding the request again gives back a string of version 2, and
turns one of version 1 into one of version 2 for the same request. -/
theorem decodeRequestEnvelope_iff :
    (∀ request : RequestEnvelope, request.Encodable →
      ∃ encoded, encodeRequestEnvelope request = some encoded ∧
        decodeRequestEnvelope encoded = some request) ∧
    (∀ (encoded : Bytes) (request : RequestEnvelope),
      decodeRequestEnvelope encoded = some request ↔
        request.Encodable ∧ IsEnvelope request encoded) ∧
    ∀ (encoded : Bytes) (request : RequestEnvelope),
      decodeRequestEnvelope encoded = some request →
        (versionOf encoded = some kHttpRequestEnvelopeVersion →
          encodeRequestEnvelope request = some encoded) ∧
        (versionOf encoded = some kHttpRequestEnvelopeV1 →
          request.encoding = .Raw ∧ ∃ encoded', encodeRequestEnvelope request = some encoded' ∧
            versionOf encoded' = some kHttpRequestEnvelopeVersion ∧
            decodeRequestEnvelope encoded' = some request) := by
  refine ⟨fun request h => ?_, fun encoded request => ⟨decodeRequestEnvelope_eq_some, fun h => ?_⟩,
    fun encoded request h => ?_⟩
  · exact ⟨_, encodeRequestEnvelope_eq h, decodeRequestEnvelope_of_isEnvelope h .v2⟩
  · exact decodeRequestEnvelope_of_isEnvelope h.1 h.2
  obtain ⟨hencodable, henvelope⟩ := decodeRequestEnvelope_eq_some h
  have hencode := encodeRequestEnvelope_eq hencodable
  cases henvelope with
  | v1 raw =>
    refine ⟨fun hversion => ?_, fun _ => ⟨raw, _, hencode, rfl, ?_⟩⟩
    · simp [kHttpRequestEnvelopeV1, kHttpRequestEnvelopeVersion] at hversion
    · exact decodeRequestEnvelope_of_isEnvelope hencodable .v2
  | v2 =>
    refine ⟨fun _ => hencode, fun hversion => ?_⟩
    simp [kHttpRequestEnvelopeV1, kHttpRequestEnvelopeVersion] at hversion

/-- A compact request to `/a`, and the string of the first version for a request without a body. -/
theorem decodeRequestEnvelope_iff_examples :
    (∃ encoded, encodeRequestEnvelope ⟨.Post, .Compact, [47, 97], [1, 2, 3]⟩ = some encoded ∧
      decodeRequestEnvelope encoded = some ⟨.Post, .Compact, [47, 97], [1, 2, 3]⟩) ∧
    (RequestEnvelope.encoding ⟨.Post, .Raw, [47], []⟩ = .Raw ∧
      ∃ encoded', encodeRequestEnvelope ⟨.Post, .Raw, [47], []⟩ = some encoded' ∧
        versionOf encoded' = some kHttpRequestEnvelopeVersion ∧
        decodeRequestEnvelope encoded' = some ⟨.Post, .Raw, [47], []⟩) :=
  ⟨decodeRequestEnvelope_iff.1 _ ⟨rfl, rfl, by decide, by decide⟩,
    (decodeRequestEnvelope_iff.2.2
      [0x52, 0x48, 0x51, 0x50, 1, 1, 1, 0, 0, 0, 0, 0, 47] _ (by decide)).2 rfl⟩

end Http

end Pqueue
