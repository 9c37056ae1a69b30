import Pqueue.Store.Publish

/-!
# The tail

What sealing the tail does to the ranges, and what appending does to its file.
-/

namespace Pqueue

open Effect LittleEndian

/-! ## Records and segments -/

/-- A record the store could have written. -/
def SegmentRecord.Fits (cfg : AppendLogConfig) (r : SegmentRecord) : Prop :=
  r.sequence < 2 ^ 32 ∧ r.payloadBytes ≤ cfg.maxRecordBytes ∧
    r.payloadBytes + kEnqueueOverheadBytes < 2 ^ 32

/-- A header-only segment. -/
lemma SegmentFile.create {cfg : AppendLogConfig} {d : Disk} {gen startSeq : ℕ}
    (hg : gen < 2 ^ 32) (hs : startSeq < 2 ^ 32) :
    SegmentFile cfg (Disk.create d gen startSeq) gen [] [] := by
  refine ⟨hg, fun e he => absurd he List.not_mem_nil, startSeq, hs, ?_⟩
  rw [Disk.create, AList.lookup_insert, segmentData, encodeEvents_nil, List.append_nil,
    List.append_nil]

/-! ## Sealing the tail -/

/-- A range and the range that follows it. -/
lemma ManifestRange.gens_append {s m e : ℕ} (h : s ≤ m + 1) (he : m ≤ e) :
    (⟨s, m⟩ : ManifestRange).gens ++ (⟨m + 1, e⟩ : ManifestRange).gens =
      (⟨s, e⟩ : ManifestRange).gens := by
  have h1 : s + (m + 1 - s) = m + 1 := by omega
  have h2 : m + 1 - s + (e + 1 - (m + 1)) = e + 1 - s := by omega
  have happ := @List.range'_append_1 s (m + 1 - s) (e + 1 - (m + 1))
  rw [h1, h2] at happ
  exact happ

lemma rangeGens_append (rs rs' : List ManifestRange) :
    rangeGens (rs ++ rs') = rangeGens rs ++ rangeGens rs' := List.flatMap_append

lemma rangeGens_singleton (r : ManifestRange) : rangeGens [r] = r.gens :=
  List.flatMap_singleton ..

lemma ManifestRange.gens_single (g : ℕ) : (⟨g, g⟩ : ManifestRange).gens = [g] := by
  simp only [gens, Nat.add_sub_cancel_left, List.range'_one]

section SealTail

variable {ram : Ram}

/-- The sealed tail is the last generation of the ranges. -/
lemma rangeGens_sealTail (hv : ∀ r ∈ ram.manifestRanges, r.startGen ≤ r.endGen)
    (he : ∀ r ∈ ram.manifestRanges, r.endGen + 1 < 2 ^ 32) (ha : ram.activeGeneration ≠ 0) :
    rangeGens ram.sealTail = rangeGens ram.manifestRanges ++ [ram.activeGeneration] := by
  rw [Ram.sealTail, if_pos ha]
  cases hl : ram.manifestRanges.getLast? with
  | none =>
    have hnil : ram.manifestRanges = [] := List.getLast?_eq_none_iff.1 hl
    simp only [hnil, rangeGens_singleton, ManifestRange.gens_single]
    rfl
  | some last =>
    obtain ⟨pre, hpre⟩ := List.getLast?_eq_some_iff.1 hl
    have hmem : last ∈ ram.manifestRanges := List.mem_of_getLast? hl
    simp only
    split
    · next hext =>
      rw [u32_of_lt (he last hmem)] at hext
      have hstart : last.startGen ≤ last.endGen + 1 := (hv last hmem).trans (Nat.le_succ _)
      rw [hpre, List.dropLast_concat, rangeGens_append, rangeGens_append, rangeGens_singleton,
        rangeGens_singleton, ← hext, ← ManifestRange.gens_append hstart (Nat.le_succ _),
        ManifestRange.gens_single, List.append_assoc]
    · rw [rangeGens_append, rangeGens_singleton, ManifestRange.gens_single]

lemma valid_sealTail (hv : ∀ r ∈ ram.manifestRanges, r.Valid) (ha : ram.activeGeneration ≠ 0)
    (hlt : ram.activeGeneration < 2 ^ 32)
    (he : ∀ r ∈ ram.manifestRanges, r.endGen + 1 < 2 ^ 32) : ∀ r ∈ ram.sealTail, r.Valid := by
  have hsingle : (⟨ram.activeGeneration, ram.activeGeneration⟩ : ManifestRange).Valid :=
    ⟨ha, le_rfl, hlt⟩
  intro r hr
  rw [Ram.sealTail, if_pos ha] at hr
  cases hl : ram.manifestRanges.getLast? with
  | none =>
    rw [hl] at hr
    rw [List.mem_singleton.1 hr]
    exact hsingle
  | some last =>
    rw [hl] at hr
    have hmem : last ∈ ram.manifestRanges := List.mem_of_getLast? hl
    simp only at hr
    split at hr
    · next hext =>
      rw [u32_of_lt (he last hmem)] at hext
      rcases List.mem_append.1 hr with hr | hr
      · exact hv r (List.dropLast_subset _ hr)
      · obtain ⟨h0, hle, -⟩ := hv last hmem
        rw [List.mem_singleton.1 hr]
        exact ⟨h0, by simp only; omega, hlt⟩
    · rcases List.mem_append.1 hr with hr | hr
      · exact hv r hr
      · rw [List.mem_singleton.1 hr]
        exact hsingle

end SealTail

/-! ## Appending -/

section Appending

variable {cfg : AppendLogConfig}

/-- The directory after `data` was appended to segment `gen`. -/
def Disk.append (d : Disk) (gen : ℕ) (data : Bytes) : Disk :=
  d.insert (segmentName gen) (((d.lookup (segmentName gen)).getD []) ++ data)

lemma overwrite_end (old data : Bytes) : overwrite old old.length data = old ++ data := by
  rw [overwrite, List.take_length, Nat.sub_self, List.replicate_zero, List.nil_append,
    List.drop_eq_nil_of_le (Nat.le_add_right _ _), List.append_nil]

/-- A segment file after bytes were appended to it. -/
lemma SegmentFile.append {d : Disk} {gen : ℕ} {evs evs' : List LogEvent}
    (h : SegmentFile cfg d gen evs []) (torn : Bytes)
    (hfits : ∀ e ∈ evs', e.Fits cfg.maxRecordBytes) :
    SegmentFile cfg (Disk.append d gen (encodeEvents evs' ++ torn)) gen (evs ++ evs') torn := by
  obtain ⟨hg, hf, s, hs, hl⟩ := h
  refine ⟨hg, fun e he => (List.mem_append.1 he).elim (hf e) (hfits e), s, hs, ?_⟩
  rw [Disk.append, AList.lookup_insert, hl, Option.getD_some, segmentData, segmentData,
    encodeEvents_append, List.append_nil, List.append_assoc, List.append_assoc]

lemma logBytes_append (evs evs' : List LogEvent) :
    logBytes (evs ++ evs') = logBytes evs + (encodeEvents evs').length := by
  rw [logBytes, logBytes, encodeEvents_append, List.length_append, Nat.add_assoc]

end Appending

end Pqueue
