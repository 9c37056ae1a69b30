import Pqueue.Store.Locate
import Pqueue.Store.MountSpec

/-!
# Directory images

`Image` says what a directory holds that a store has written: one slot with the newest manifest,
the logs of the generations this manifest names, of which the last may end in a torn event, and
no segment file under a name the store would not use.  Everything else (files of generations
that no manifest names, the other slot) is arbitrary.
-/

namespace Pqueue

open Effect LittleEndian

/-! ## Generations of a manifest -/

lemma ManifestRange.mem_gens {r : ManifestRange} {g : ℕ} :
    g ∈ r.gens ↔ r.startGen ≤ g ∧ g ≤ r.endGen := by
  rw [ManifestRange.gens, List.mem_range'_1]
  omega

lemma mem_rangeGens {ranges : List ManifestRange} {g : ℕ} :
    g ∈ rangeGens ranges ↔ ∃ r ∈ ranges, r.startGen ≤ g ∧ g ≤ r.endGen := by
  simp only [rangeGens, List.mem_flatMap, ManifestRange.mem_gens]

lemma length_rangeGens (ranges : List ManifestRange) :
    (rangeGens ranges).length = (ranges.map fun r => r.endGen + 1 - r.startGen).sum := by
  rw [rangeGens, List.length_flatMap]
  refine congrArg List.sum (List.map_congr_left fun r _ => ?_)
  rw [ManifestRange.gens, List.length_range']

namespace ManifestData

lemma gens_eq {md : ManifestData} (h : md.tailGeneration ≠ 0) :
    md.gens = rangeGens md.ranges ++ [md.tailGeneration] := by
  rw [gens, tailList, if_pos h]

/-- The span that mount checks is the number of generations. -/
lemma totalGens_eq (md : ManifestData) : md.totalGens = md.gens.length := by
  rw [totalGens, gens, List.length_append, length_rangeGens, tailList]
  split <;> simp only [List.length_cons, List.length_nil] <;> omega

lemma getLast?_gens {md : ManifestData} (h : md.tailGeneration ≠ 0) :
    md.gens.getLast? = some md.tailGeneration := by
  rw [gens_eq h, List.getLast?_concat]

lemma mem_gens {md : ManifestData} (h : md.tailGeneration ≠ 0) {g : ℕ} :
    g ∈ md.gens ↔ g ∈ rangeGens md.ranges ∨ g = md.tailGeneration := by
  rw [gens_eq h, List.mem_append, List.mem_singleton]

end ManifestData

/-! ## The published manifest -/

/-- Slot `slot` holds the manifest `md`, and the other slot nothing newer. -/
structure Published (d : Disk) (slot : Slot) (md : ManifestData) : Prop where
  valid : md.Valid
  holds : d.lookup slot.fileName = some (serialiseManifest md)
  newest : ∀ md', Disk.manifest d slot.other = some md' → md'.epoch < md.epoch

lemma Slot.fileName_other_ne (s : Slot) : s.fileName ≠ s.other.fileName := fun h =>
  s.other_ne (slot_fileName_injective h).symm

namespace Published

variable {d d' : Disk} {slot : Slot} {md md' : ManifestData}

lemma manifest (h : Published d slot md) : Disk.manifest d slot = some md := by
  rw [Disk.manifest, h.holds]
  exact parseManifest_serialise h.valid

lemma elected (h : Published d slot md) : Disk.elected d = some md := by
  have hm := h.manifest
  have hnew := h.newest
  rw [Disk.elected]
  cases slot with
  | a =>
    rw [hm]
    cases hb : Disk.manifest d .b with
    | none => rfl
    | some mdB => exact if_neg (not_lt.2 (hnew mdB hb).le)
  | b =>
    rw [hm]
    cases ha : Disk.manifest d .a with
    | none => rfl
    | some mdA => exact if_pos (hnew mdA ha)

lemma congr (h : Published d slot md)
    (hs : ∀ s : Slot, d'.lookup s.fileName = d.lookup s.fileName) : Published d' slot md where
  valid := h.valid
  holds := (hs slot).trans h.holds
  newest md' hm := h.newest md' (by rwa [Disk.manifest, ← hs])

/-- Writing to the other slot what is no manifest changes nothing. -/
lemma insert_torn (h : Published d slot md) {data : Bytes} (hd : parseManifest data = none) :
    Published (d.insert slot.other.fileName data) slot md where
  valid := h.valid
  holds := by rw [AList.lookup_insert_ne slot.fileName_other_ne, h.holds]
  newest md' hm := by
    rw [Disk.manifest, AList.lookup_insert, Option.bind_some, hd] at hm
    cases hm

/-- Writing the next manifest to the other slot publishes it. -/
lemma publish (h : Published d slot md) (hv : md'.Valid) (he : md.epoch < md'.epoch) :
    Published (d.insert slot.other.fileName (serialiseManifest md')) slot.other md' where
  valid := hv
  holds := AList.lookup_insert _
  newest md'' hm := by
    rw [Slot.other_other, Disk.manifest, AList.lookup_insert_ne slot.fileName_other_ne, h.holds,
      Option.bind_some, parseManifest_serialise h.valid] at hm
    rwa [← Option.some.inj hm]

end Published

/-! ## Names of segments -/

/-- Every segment file has the name the store gives it. -/
def Canonical (d : Disk) : Prop :=
  ∀ name ∈ d.keys, ∀ g, isSegmentName name = some g → name = segmentName g

namespace Canonical

variable {d : Disk} {name : FileName}

lemma namesOk (h : Canonical d) : NamesOk d := fun name hname g hg =>
  AList.lookup_isSome.2 (h name hname g hg ▸ hname)

lemma empty : Canonical ∅ := fun _ h => absurd h List.not_mem_nil

lemma insert {data : Bytes} (h : Canonical d)
    (hname : ∀ g, isSegmentName name = some g → name = segmentName g) :
    Canonical (d.insert name data) := by
  intro other hother g hg
  rcases (AList.mem_insert d).1 (AList.mem_keys.2 hother) with rfl | ho
  · exact hname g hg
  · exact h other ho g hg

lemma insert_segment {g : ℕ} {data : Bytes} (h : Canonical d) (hg : g < 2 ^ 32) :
    Canonical (d.insert (segmentName g) data) := h.insert fun g' hg' => by
  rw [isSegmentName_segmentName hg] at hg'
  rw [Option.some.inj hg']

lemma insert_slot {s : Slot} {data : Bytes} (h : Canonical d) :
    Canonical (d.insert s.fileName data) := h.insert fun g hg => by
  rw [isSegmentName_slot] at hg
  cases hg

lemma erase (h : Canonical d) : Canonical (d.erase name) := fun other hother g hg =>
  h other (AList.mem_erase.1 (AList.mem_keys.2 hother)).2 g hg

end Canonical

/-! ## Images -/

/-- Bounds on segment sizes and on the span of a manifest. -/
structure Limits where
  segment : ℕ
  header_le : kSegmentHeaderBytes ≤ segment
  segment_lt : segment < 2 ^ 32
  span : ℕ → Prop

/-- The guards of mount. -/
def guards : Limits where
  segment := kMaxReplaySegmentReadBytes
  header_le := by decide
  segment_lt := by decide
  span n := n ≤ kManifestMaxTotalGenerations

instance : DecidablePred guards.span := fun n =>
  inferInstanceAs (Decidable (n ≤ kManifestMaxTotalGenerations))

/-- The bounds the integer types of the store set. -/
def unbounded : Limits where
  segment := 2 ^ 32 - 1
  header_le := by decide
  segment_lt := AppendLogConfig.unlimited.maxSegmentBytes_lt
  span _ := True

instance : DecidablePred unbounded.span := fun _ => .isTrue trivial

/-! ### Conditions at the marks -/

/-- The marked points are within the limits: no counter wraps, no segment grows too large and no
manifest spans too much. -/
def Within (lim : Limits) : StoreMark → Prop
  | .compactRange .. => True
  | .allocate gen => gen + 1 < 2 ^ 32
  | .publish epoch manifest => epoch + 1 < 2 ^ 32 ∧ lim.span manifest.totalGens
  | .append _ offset n => offset + n ≤ lim.segment
  | .pack size => size ≤ lim.segment

/-- No 32-bit generation, offset or segment size wraps. -/
def OffsetsFit : StoreMark → Prop
  | .compactRange .. | .publish .. => True
  | .allocate gen => gen + 1 < 2 ^ 32
  | .append _ offset n => offset + n ≤ 2 ^ 32 - 1
  | .pack size => size ≤ 2 ^ 32 - 1

instance (lim : Limits) [DecidablePred lim.span] : DecidablePred (Within lim)
  | .compactRange .. => .isTrue trivial
  | .allocate gen => inferInstanceAs (Decidable (gen + 1 < 2 ^ 32))
  | .publish epoch manifest =>
    inferInstanceAs (Decidable (epoch + 1 < 2 ^ 32 ∧ lim.span manifest.totalGens))
  | .append _ offset n => inferInstanceAs (Decidable (offset + n ≤ lim.segment))
  | .pack size => inferInstanceAs (Decidable (size ≤ lim.segment))

instance : DecidablePred OffsetsFit
  | .compactRange .. | .publish .. => .isTrue trivial
  | .allocate gen => inferInstanceAs (Decidable (gen + 1 < 2 ^ 32))
  | .append _ offset n => inferInstanceAs (Decidable (offset + n ≤ 2 ^ 32 - 1))
  | .pack size => inferInstanceAs (Decidable (size ≤ 2 ^ 32 - 1))

lemma Within.offsets {mk : StoreMark} (h : Within unbounded mk) : OffsetsFit mk := by
  cases mk with
  | compactRange | publish => exact trivial
  | allocate | append | pack => exact h

/-! ### Directories -/

/-- The directory of a store with manifest `md` in slot `slot`: segment `g` holds the log
`seg g`, and the tail ends in `torn`. -/
structure Image (cfg : AppendLogConfig) (lim : Limits) (d : Disk) (slot : Slot)
    (md : ManifestData) (seg : ℕ → List LogEvent) (torn : Bytes) : Prop where
  published : Published d slot md
  span : lim.span md.totalGens
  tail_ne : md.tailGeneration ≠ 0
  nodup : md.gens.Nodup
  below : ∀ g ∈ md.gens, g < md.nextGeneration
  sealed : ∀ g ∈ rangeGens md.ranges,
    SegmentFile cfg d g (seg g) [] ∧ logBytes (seg g) ≤ lim.segment
  tail : SegmentFile cfg d md.tailGeneration (seg md.tailGeneration) torn
  tail_le : logBytes (seg md.tailGeneration) + torn.length ≤ lim.segment
  stop : (stopsAt cfg.maxRecordBytes torn).isSome
  canonical : Canonical d

lemma SegmentFile.congr {cfg : AppendLogConfig} {d d' : Disk} {g : ℕ} {evs : List LogEvent}
    {torn : Bytes} (h : SegmentFile cfg d g evs torn)
    (hd : d'.lookup (segmentName g) = d.lookup (segmentName g)) :
    SegmentFile cfg d' g evs torn := by
  obtain ⟨hg, hf, s, hs, hl⟩ := h
  exact ⟨hg, hf, s, hs, hd.trans hl⟩

lemma segmentName_ne {g g' : ℕ} (hg : g < 2 ^ 32) (hg' : g' < 2 ^ 32) (h : g ≠ g') :
    segmentName g ≠ segmentName g' := fun he => h (segmentName_injOn hg hg' he)

namespace Image

variable {cfg : AppendLogConfig} {lim : Limits} {d : Disk} {slot : Slot} {md : ManifestData}
  {seg : ℕ → List LogEvent} {torn : Bytes}

/-- No range ends at the largest generation. -/
lemma ends (h : Image cfg lim d slot md seg torn) : ∀ r ∈ md.ranges, r.endGen ≠ 2 ^ 32 - 1 := by
  intro r hr
  have hmem : r.endGen ∈ md.gens := (ManifestData.mem_gens h.tail_ne).2
    (.inl (mem_rangeGens.2 ⟨r, hr, (h.published.valid.ranges_valid r hr).2.1, le_rfl⟩))
  have h1 := h.below _ hmem
  have h2 := h.published.valid.nextGeneration_lt
  omega

lemma tail_not_sealed (h : Image cfg lim d slot md seg torn) :
    md.tailGeneration ∉ rangeGens md.ranges := by
  have hn := h.nodup
  rw [ManifestData.gens_eq h.tail_ne, List.nodup_append] at hn
  exact fun hm => hn.2.2 _ hm _ (List.mem_singleton_self _) rfl

/-! ## Mounting an image -/

lemma scannable_of {cfg : AppendLogConfig} {d : Disk} {seg : ℕ → List LogEvent} {torn : Bytes}
    {gens : List ℕ} {tail : ℕ}
    (hs : ∀ g ∈ gens, SegmentFile cfg d g (seg g) [] ∧
      logBytes (seg g) ≤ kMaxReplaySegmentReadBytes)
    (ht : SegmentFile cfg d tail (seg tail) torn)
    (hle : logBytes (seg tail) + torn.length ≤ kMaxReplaySegmentReadBytes) :
    Scannable cfg d seg torn (gens ++ [tail]) := by
  induction gens with
  | nil => exact ⟨ht, hle, trivial⟩
  | cons g gens ih =>
    have hg := hs g (List.mem_cons_self ..)
    have hne : gens ++ [tail] ≠ [] := List.append_ne_nil_of_right_ne_nil _ (List.cons_ne_nil _ _)
    rw [List.cons_append, Scannable, if_neg hne, if_neg hne]
    exact ⟨hg.1, hg.2, ih fun g' hg' => hs g' (List.mem_cons_of_mem _ hg')⟩

/-- An image within mount's guards mounts. -/
lemma mountable (h : Image cfg lim d slot md seg torn)
    (hspan : md.totalGens ≤ kManifestMaxTotalGenerations)
    (hsealed : ∀ g ∈ rangeGens md.ranges, logBytes (seg g) ≤ kMaxReplaySegmentReadBytes)
    (htail : logBytes (seg md.tailGeneration) + torn.length ≤ kMaxReplaySegmentReadBytes) :
    Mountable cfg d md seg torn where
  elected := h.published.elected
  span := hspan
  ends := h.ends
  scannable := by
    rw [ManifestData.gens_eq h.tail_ne]
    exact scannable_of (fun g hg => ⟨(h.sealed g hg).1, hsealed g hg⟩) h.tail htail
  stop := h.stop
  names := h.canonical.namesOk

lemma mountable_guards (h : Image cfg guards d slot md seg torn) : Mountable cfg d md seg torn :=
  h.mountable h.span (fun g hg => (h.sealed g hg).2) h.tail_le

end Image

end Pqueue
