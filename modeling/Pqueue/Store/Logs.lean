import Pqueue.Store.Winner

/-!
# The logs of a store

When no call fails, an object knows its directory: every segment in use holds a log that ends
where the object takes it to end, and nothing follows it (`Stored`).  `Stored.move` says that each
move keeps this, within limits on the sizes and the span, and the lemmas before it say what the
move does to the logs: a segment that is opened has none, an event goes to the end of the tail's,
and a compaction replaces the logs of its input by those of its output.
-/

namespace Pqueue

open Effect LittleEndian

/-! ## Limits -/

/-- What the limits allow, 32-bit numbers can hold. -/
lemma Within.unbounded {lim : Limits} {mk : StoreMark} (h : Within lim mk) :
    Within unbounded mk := by
  have hle := Nat.le_sub_one_of_lt lim.segment_lt
  cases mk with
  | compactRange | allocate => exact h
  | publish => exact ⟨h.1, trivial⟩
  | append | pack => exact Nat.le_trans h hle

/-- Without failures every file is removed. -/
lemma reliable_noHarm (c : FsCall) : Reliable noHarm c := fun _ _ h => h

lemma tearsSlots_noHarm : TearsSlots noHarm := fun _ _ _ _ _ h => h.elim

/-! ## Names of segments -/

namespace Canonical

variable {d d' : Disk} {name : FileName}

/-- A file whose name is not that of a segment may come, go and change. -/
lemma of_sameExcept (h : Canonical d) (hs : SameExcept name d d')
    (hname : isSegmentName name = none) :
    Canonical d' := by
  intro other hother g hg
  by_cases hne : other = name
  · rw [hne, hname] at hg
    cases hg
  · refine h other ?_ g hg
    rw [← AList.mem_keys, ← AList.lookup_isSome, ← hs other hne, AList.lookup_isSome]
    exact hother

lemma writeAll (h : Canonical d) {out : List OutputSeg} (hlt : ∀ o ∈ out, o.gen < 2 ^ 32) :
    Canonical (Disk.writeAll d out) := by
  induction out generalizing d with
  | nil => exact h
  | cons o out ih =>
    exact ih (h.insert_segment (hlt o (List.mem_cons_self ..)))
      fun o' ho' => hlt o' (List.mem_cons_of_mem _ ho')

lemma removed {harm : FsCall → Disk → Disk → Prop} {gens : List ℕ} {ram ram' : Ram}
    (h : Canonical d) (hr : Removed harm gens ram d ram' d') : Canonical d' := by
  induction hr with
  | nil => exact h
  | gone _ ih => exact ih h.erase
  | kept _ _ ih => exact ih h

end Canonical

/-! ## The manifest that is published -/

/-- The manifest of the object is published; its next generation may be below the object's. -/
structure Announces (ram : Ram) (d : Disk) (slot : Slot) (md : ManifestData) : Prop where
  published : Published d slot md
  cache : CacheOk ram slot md
  ranges : md.ranges = ram.manifestRanges
  tail : md.tailGeneration = ram.activeGeneration
  below : ∀ g ∈ ram.gens, g < md.nextGeneration

def Announced (ram : Ram) (d : Disk) : Prop := ∃ slot md, Announces ram d slot md

lemma Elects.announced {ram : Ram} {d : Disk} (h : Elects ram d) (hg : Generations ram) :
    Announced ram d := by
  obtain ⟨slot, hslot, hp⟩ := h
  refine ⟨slot, ram.manifest, hp, ?_, rfl, rfl, hg.below⟩
  intro s hs
  exact ⟨Option.some.inj (hs.symm.trans hslot), rfl⟩

namespace Announced

variable {ram ram' : Ram} {d d' : Disk} {slot : Slot} {epoch : ℕ}

lemma congr (h : Announced ram d) (hc : ram'.core = ram.core)
    (hs : ∀ s : Slot, d'.lookup s.fileName = d.lookup s.fileName) : Announced ram' d' := by
  obtain ⟨slot, md, h⟩ := h
  have hcore := SameCore.of_core hc
  refine ⟨slot, md, h.published.congr hs, ?_, h.ranges.trans hcore.ranges.symm,
    h.tail.trans hcore.active.symm, ?_⟩
  · intro s hs
    rw [hcore.slot] at hs
    rw [hcore.epoch]
    exact h.cache s hs
  · rw [Ram.gens_congr hcore.ranges hcore.active]
    exact h.below

/-- A manifest that counts from the published one is published. -/
lemma publish (h : Announced ram d) (ht : ram.Targets noHarm d slot epoch)
    (hs : ∀ s : Slot, d'.lookup s.fileName = d.lookup s.fileName) (he : epoch + 1 < 2 ^ 32)
    (hslot : ram'.cachedWrittenSlot = some slot)
    (hepoch : ram'.cachedWrittenEpoch = u32 (epoch + 1)) (hv : ram'.manifest.Valid) :
    Elects ram' (Disk.publish d' slot ram'.manifest) := by
  obtain ⟨slot₀, md, h⟩ := h
  have htarget := ht.eq (fun _ => reliable_noHarm _) fun _ => reliable_noHarm _
  rw [h.published.target h.cache] at htarget
  obtain ⟨rfl, rfl⟩ := Prod.mk.inj (Option.some.inj htarget)
  refine ⟨_, hslot, (h.published.congr hs).publish hv ?_⟩
  show md.epoch < ram'.cachedWrittenEpoch
  rw [hepoch, u32_of_lt he]
  exact Nat.lt_succ_self _

end Announced

/-! ## Objects that know their directory -/

/-- A mounted object with a tail whose directory holds, for every generation in use, the log `seg`
and nothing after it. -/
structure Stored (cfg : AppendLogConfig) (lim : Limits) (ram : Ram) (d : Disk)
    (seg : ℕ → List LogEvent) : Prop where
  sited : Sited cfg ram d
  announced : Announced ram d
  file : ∀ g ∈ ram.gens, SegmentFile cfg d g (seg g) []
  extent : ∀ g ∈ ram.gens, ram.extent g = logBytes (seg g)
  size : ∀ g ∈ ram.gens, logBytes (seg g) ≤ lim.segment
  span : lim.span ram.manifest.totalGens
  canonical : Canonical d

lemma Sited.manifest_gens {cfg : AppendLogConfig} {ram : Ram} {d : Disk}
    (h : Sited cfg ram d) :
    ram.manifest.gens = ram.gens :=
  ManifestData.gens_eq h.generations.tail_ne

namespace Stored

variable {cfg : AppendLogConfig} {lim : Limits} {A : StoreMark → Disk → Prop} {ram ram' : Ram}
  {d d' : Disk} {seg : ℕ → List LogEvent}

/-- The directory is an image of the published manifest and the logs. -/
lemma image (h : Stored cfg lim ram d seg) : ∃ slot md, Image cfg lim d slot md seg [] ∧
    md.gens = ram.gens := by
  obtain ⟨slot, md, ha⟩ := h.announced
  have htail := ram.tail_mem_gens
  have hne : md.tailGeneration ≠ 0 := ha.tail ▸ h.sited.generations.tail_ne
  have hgens : md.gens = ram.gens := by
    rw [ManifestData.gens_eq hne, ha.ranges, ha.tail]
    rfl
  have htotal : md.totalGens = ram.manifest.totalGens := by
    rw [ManifestData.totalGens_eq, ManifestData.totalGens_eq, hgens, h.sited.manifest_gens]
  refine ⟨slot, md,
    ⟨ha.published, htotal ▸ h.span, hne, ?_, ?_, ?_, ?_, ?_, rfl, h.canonical⟩, hgens⟩
  · rw [hgens]
    exact h.sited.generations.nodup
  · rw [hgens]
    exact ha.below
  · intro g hg
    have hm : g ∈ ram.gens := hgens ▸ (ManifestData.mem_gens hne).2 (.inl hg)
    exact ⟨h.file g hm, h.size g hm⟩
  · rw [ha.tail]
    exact h.file _ htail
  · rw [ha.tail]
    exact h.size _ htail

/-- The bytes of the tail are those of its log. -/
lemma bytes (h : Stored cfg lim ram d seg) :
    ram.activeSegmentBytes = logBytes (seg ram.activeGeneration) := by
  rw [← h.extent _ ram.tail_mem_gens, Ram.extent_tail]

/-- What touches neither the members but for sizes, nor the segments in use, keeps the logs; the
slots still have to announce the manifest. -/
lemma reframe (h : Stored cfg lim ram d seg) (hc : ram'.core = ram.core)
    (hsealed : ∀ g ∈ ram.gens, g ≠ ram.activeGeneration →
      ram'.sealedSegmentBytes g = ram.sealedSegmentBytes g)
    (hd : ∀ g ∈ ram.gens, d'.lookup (segmentName g) = d.lookup (segmentName g))
    (ha : Announced ram' d') (hcan : Canonical d') : Stored cfg lim ram' d' seg := by
  have hcore := SameCore.of_core hc
  have hgens : ram'.gens = ram.gens := Ram.gens_congr hcore.ranges hcore.active
  refine ⟨(h.sited.frame hc hsealed (Keeps.of_lookup hd)).1, ha,
    fun g hg => ?_, fun g hg => ?_, fun g hg => ?_, ?_, hcan⟩
  · rw [hgens] at hg
    exact (h.file g hg).congr (hd g hg)
  · rw [hgens] at hg
    rw [← h.extent g hg, Ram.extent, Ram.extent, hcore.active, hcore.bytes]
    by_cases hne : g = ram.activeGeneration
    · rw [if_pos hne, if_pos hne]
    · rw [if_neg hne, if_neg hne, hsealed g hg hne]
  · rw [hgens] at hg
    exact h.size g hg
  · rw [manifest_of_core hc]
    exact h.span

/-- What leaves the slots alone too keeps everything. -/
lemma frame (h : Stored cfg lim ram d seg) (hc : ram'.core = ram.core)
    (hsealed : ∀ g ∈ ram.gens, g ≠ ram.activeGeneration →
      ram'.sealedSegmentBytes g = ram.sealedSegmentBytes g)
    (hd : ∀ g ∈ ram.gens, d'.lookup (segmentName g) = d.lookup (segmentName g))
    (hs : ∀ s : Slot, d'.lookup s.fileName = d.lookup s.fileName) (hcan : Canonical d') :
    Stored cfg lim ram' d' seg :=
  h.reframe hc hsealed hd (h.announced.congr hc hs) hcan

/-- The lock file is taken or left. -/
lemma lock (h : Stored cfg lim ram d seg) (hlock : SameExcept kLockFileName d d') :
    Stored cfg lim ram d' seg :=
  h.frame rfl (fun _ _ _ => rfl) (fun g _ => hlock _ (segmentName_ne_lock g))
    (SameExcept.slots hlock slot_ne_lock) (h.canonical.of_sameExcept hlock isSegmentName_lock)

/-- A segment file is written that no manifest names. -/
lemma wrote (h : Stored cfg lim ram d seg) {gen : ℕ} (hg : ram.nextGeneration ≤ gen)
    (hlt : gen < 2 ^ 32) (data : Bytes) (n m : ℕ) :
    Stored cfg lim (ram.trackWrite (segmentName gen) n m)
      (d.insert (segmentName gen) data) seg := by
  apply h.frame (core_trackWrite ..) _ _ (slots_insert d _ _) (h.canonical.insert_segment hlt)
  · intro g hg' _
    rw [sealed_trackWrite_segment ram hlt, Function.update_of_ne (h.sited.gen_ne hg' hg)]
  · intro g hg'
    exact AList.lookup_insert_ne (h.sited.name_ne hg' hg hlt)

/-! ## Opening a segment -/

section Opening

variable {ranges : List ManifestRange} {startSeq epoch : ℕ} {slot : Slot}

/-- The new tail has an empty log. -/
lemma opened (h : Stored cfg lim ram d seg) (hA : ∀ mk d, A mk d → Within lim mk)
    (ho : Opens noHarm A ram d ranges startSeq slot epoch) (n : ℕ) :
    Stored cfg lim (ram.opened ranges slot epoch n) (Disk.opened d ram ranges startSeq slot epoch)
        (Function.update seg ram.nextGeneration []) ∧
      (ram.opened ranges slot epoch n).gens = ram.gens ++ [ram.nextGeneration] := by
  have hco := (h.sited.opened ho n).1
  have hel : Elects (ram.opened ranges slot epoch n)
      (Disk.opened d ram ranges startSeq slot epoch) :=
    h.announced.publish ho.target (slots_insert d _ _) (hA _ _ ho.publish).1 rfl rfl
      (hco.generations.valid (u32_lt _))
  obtain ⟨hranges, hlen, -⟩ := ho.shape.resolve_right fun hs => h.sited.bytes_ne hs.2
  obtain ⟨-, hgens⟩ := h.sited.generations.opened hranges hlen ho.gen_lt slot epoch n
  have hlt := Nat.lt_of_succ_lt ho.gen_lt
  have hne : ∀ g ∈ ram.gens, g ≠ ram.nextGeneration := fun g hg => h.sited.gen_ne hg le_rfl
  refine ⟨⟨hco, hel.announced hco.generations, fun g hg => ?_, fun g hg => ?_, fun g hg => ?_,
    (hA _ _ ho.publish).2, (h.canonical.insert_segment hlt).insert_slot⟩, hgens⟩
  · rw [hgens] at hg
    rcases List.mem_append.1 hg with hg | hg
    · rw [Function.update_of_ne (hne g hg)]
      exact (h.file g hg).congr (Sited.lookup_opened (h.sited.name_ne hg le_rfl hlt))
    · rw [List.mem_singleton.1 hg, Function.update_self]
      exact (SegmentFile.create hlt ho.startSeq_lt).congr
        (AList.lookup_insert_ne (segmentName_ne_slot _ slot))
  · rw [hgens] at hg
    rcases List.mem_append.1 hg with hg | hg
    · rw [Function.update_of_ne (hne g hg), ← h.extent g hg]
      exact h.sited.extent_opened ho n hg
    · rw [List.mem_singleton.1 hg, Function.update_self]
      exact Sited.extent_opened_self
  · rw [hgens] at hg
    rcases List.mem_append.1 hg with hg | hg
    · rw [Function.update_of_ne (hne g hg)]
      exact h.size g hg
    · rw [List.mem_singleton.1 hg, Function.update_self]
      exact lim.header_le

lemma noteSealed (h : Stored cfg lim ram d seg) : Stored cfg lim ram.noteSealed d seg := by
  refine h.frame rfl (fun g _ hne => ?_) (fun _ _ => rfl) (fun _ => rfl) h.canonical
  rw [Ram.noteSealed]
  simp only
  rw [if_pos h.sited.generations.tail_ne, Function.update_of_ne hne]

end Opening

/-- The first segment is opened. -/
lemma first {ranges : List ManifestRange} {startSeq epoch : ℕ} {slot : Slot} (hb : Blank ram)
    (hu : Unpublished ram d) (hcan : Canonical d) (hA : ∀ mk d, A mk d → Within lim mk)
    (ho : Opens noHarm A ram d ranges startSeq slot epoch) (n : ℕ) :
    Stored cfg lim (ram.opened ranges slot epoch n) (Disk.opened d ram ranges startSeq slot epoch)
        (fun _ => []) ∧
      (ram.opened ranges slot epoch n).gens = [ram.nextGeneration] := by
  have hs : Settled cfg ram d := .inl ⟨hb, hu⟩
  obtain ⟨hco, hel⟩ := (hs.opened (fun mk d hmk => (hA mk d hmk).unbounded) ho n).resolve_left
    fun hb => absurd hb.1.bytes (by decide : kSegmentHeaderBytes ≠ 0)
  have hranges : ranges = ram.manifestRanges := by
    rcases ho.shape with ⟨hr, -⟩ | ⟨hr, -⟩
    · rw [hr, hb.sealTail]
    · exact hr
  subst hranges
  have hlt := Nat.lt_of_succ_lt ho.gen_lt
  obtain ⟨-, hgens⟩ := Generations.first hb.ranges hb.next_ne ho.gen_lt slot epoch n
  refine ⟨⟨hco.toSited, hel.announced hco.generations, fun g hg => ?_, fun g hg => ?_,
    fun g _ => lim.header_le, (hA _ _ ho.publish).2, (hcan.insert_segment hlt).insert_slot⟩, hgens⟩
  · rw [hgens] at hg
    rw [List.mem_singleton.1 hg]
    exact (SegmentFile.create hlt ho.startSeq_lt).congr
      (AList.lookup_insert_ne (segmentName_ne_slot _ slot))
  · rw [hgens] at hg
    rw [List.mem_singleton.1 hg]
    exact Sited.extent_opened_self

/-! ## Logging -/

/-- The members that an event does not change. -/
lemma logged_fields (ram : Ram) (e : LogEvent) :
    (ram.logged e).gens = ram.gens ∧ (ram.logged e).activeGeneration = ram.activeGeneration := by
  cases e <;> exact ⟨rfl, rfl⟩

/-- The file of the tail ends where its log ends, so the event is written behind it. -/
lemma overwrite_tail (h : Stored cfg lim ram d seg) {old : Bytes}
    (hold : d.lookup (segmentName ram.activeGeneration) = some old) (data : Bytes) :
    d.insert (segmentName ram.activeGeneration) (overwrite old ram.activeSegmentBytes data) =
      Disk.append d ram.activeGeneration data := by
  obtain ⟨-, -, s, -, hfile⟩ := h.file _ ram.tail_mem_gens
  obtain rfl := Option.some.inj (hfile.symm.trans hold)
  have hlen := length_segmentData ram.activeGeneration s (seg ram.activeGeneration) []
  rw [List.length_nil, Nat.add_zero, ← h.bytes] at hlen
  rw [← hlen, overwrite_end, Disk.append, hold, Option.getD_some]

/-- The event goes to the end of the log of the tail. -/
lemma logged (h : Stored cfg lim ram d seg) {e : LogEvent}
    (hl : Loggable cfg ram e) (hle : ram.activeSegmentBytes + e.encode.length ≤ lim.segment)
    {old : Bytes} (hold : d.lookup (segmentName ram.activeGeneration) = some old)
    (hram : ram' = ram.logged e) (hd : d' = d.insert (segmentName ram.activeGeneration)
      (overwrite old ram.activeSegmentBytes e.encode)) :
    Stored cfg lim ram' d' (Function.update seg ram.activeGeneration
      (seg ram.activeGeneration ++ [e])) := by
  subst hram hd
  obtain ⟨hgens, hactive⟩ := logged_fields ram e
  have hbytes : logBytes (seg ram.activeGeneration ++ [e]) =
      ram.activeSegmentBytes + e.encode.length := by
    rw [logBytes_append, encodeEvents_cons, encodeEvents_nil, List.append_nil, h.bytes]
  have hlt := lim.segment_lt
  have hco := (h.sited.logged hl (by omega) hold).1
  rw [h.overwrite_tail hold] at hco ⊢
  have han : Announced (ram.logged e) (Disk.append d ram.activeGeneration e.encode) := by
    obtain ⟨slot, md, ha⟩ := h.announced
    have hp : Published (Disk.append d ram.activeGeneration e.encode) slot md :=
      ha.published.congr (slots_insert d _ _)
    cases e with
    | _ => exact ⟨slot, md, hp, ha.cache, ha.ranges, ha.tail, ha.below⟩
  have hother : ∀ g ∈ ram.gens, g ≠ ram.activeGeneration →
      (Disk.append d ram.activeGeneration e.encode).lookup (segmentName g) =
        d.lookup (segmentName g) := fun g hg hne =>
    AList.lookup_insert_ne (segmentName_ne (h.sited.generations.gen_lt hg)
      (h.sited.generations.gen_lt ram.tail_mem_gens) hne)
  refine ⟨hco, han, fun g hg => ?_, fun g hg => ?_, fun g hg => ?_, ?_, ?_⟩
  · rw [hgens] at hg
    by_cases hne : g = ram.activeGeneration
    · subst hne
      have hfit := hl.fits h.sited.enclosed.fits
      have happend := (h.file _ hg).append [] fun e' (he' : e' ∈ [e]) => by
        rwa [List.mem_singleton.1 he']
      rw [encodeEvents_cons, encodeEvents_nil, List.append_nil, List.append_nil] at happend
      rwa [Function.update_self]
    · rw [Function.update_of_ne hne]
      exact (h.file g hg).congr (hother g hg hne)
  · rw [hgens] at hg
    rw [Sited.extent_logged g (by omega)]
    by_cases hne : g = ram.activeGeneration
    · rw [if_pos hne, hne, Function.update_self, hbytes]
    · rw [if_neg hne, Function.update_of_ne hne, h.extent g hg]
  · rw [hgens] at hg
    by_cases hne : g = ram.activeGeneration
    · rw [hne, Function.update_self, hbytes]
      exact hle
    · rw [Function.update_of_ne hne]
      exact h.size g hg
  · rw [manifest_logged]
    exact h.span
  · exact h.canonical.insert_segment (h.sited.generations.gen_lt ram.tail_mem_gens)

/-! ## Compacting -/

section Compacting

variable {ram₀ : Ram} {d₀ : Disk} {plan : CompactionPlan} {idx : ℕ} {parent : ManifestRange}
  {input : CompactionRange} {live : List CompactionLiveRecord} {out : List OutputSeg} {slot : Slot}
  {epoch n : ℕ}

/-- What a compaction reads is an object that knows its directory, with the same log. -/
lemma prepared (h : Stored cfg lim ram₀ d₀ seg) (hA : ∀ mk d, A mk d → Within lim mk)
    (hp : Prepared cfg noHarm A ram₀ d₀ plan ram d) : ∃ seg',
      Stored cfg lim ram d seg' ∧ ∀ g ∈ ram₀.gens, seg' g = seg g := by
  cases hp with
  | asIs => exact ⟨seg, h, fun _ _ => rfl⟩
  | rotated _ ho hn =>
    refine ⟨_, (h.noteSealed.opened hA ho _).1, fun g hg => Function.update_of_ne ?_ _ _⟩
    exact h.sited.gen_ne hg le_rfl

end Compacting

end Stored

/-- A compaction publishes its manifest. -/
lemma Announced.compacted {cfg : AppendLogConfig} {harm : FsCall → Disk → Disk → Prop}
    {A : StoreMark → Disk → Prop}
    {ram₀ ram ram' : Ram} {d₀ d d' : Disk} {plan : CompactionPlan} {idx : ℕ}
    {parent : ManifestRange} {input : CompactionRange} {live : List CompactionLiveRecord}
    {out : List OutputSeg} {slot : Slot} {epoch n : ℕ} (h : Announced ram d)
    (h₀ : Sited cfg ram₀ d₀)
    (hc : Compacts cfg harm A ram₀ d₀ plan ram d idx parent input live out)
    (ht : ram.Targets noHarm d slot epoch) (he : epoch + 1 < 2 ^ 32)
    (hr : Removed harm input.gens
      ((ram.wroteAll out).published slot
        (ram.compactionAt (u32 (epoch + 1)) idx parent input out) n)
      (Disk.publish (Disk.writeAll d out) slot
        (ram.compactionAt (u32 (epoch + 1)) idx parent input out)) ram' d') :
    Elects ((ram'.forgetInput input).moveRecords input (out.flatMap OutputSeg.locations)) d' := by
  have hcore := SameCore.of_core hr.core
  have hm := Settled.manifest_compacted hr
  have hpub : Elects ram' (Disk.publish (Disk.writeAll d out) slot ram'.manifest) := by
    apply h.publish ht (slots_writeAll _ _) he hcore.slot hcore.epoch
    rw [hm]
    exact Settled.compactionAt_valid h₀ hc (u32_lt _)
  rw [hm] at hpub
  exact hpub.congr (fun s => hr.lookup fun g _ => (segmentName_ne_slot g s).symm) rfl rfl

/-- Each output segment was marked with its size. -/
lemma OutputMarks.pack {A : StoreMark → Disk → Prop} {out : List OutputSeg} {d : Disk}
    (h : OutputMarks A out d) : ∀ o ∈ out, ∃ d', A (.pack o.data.length) d' := by
  induction out generalizing d with
  | nil => exact fun _ ho => absurd ho List.not_mem_nil
  | cons x xs ih =>
    intro o ho
    rcases List.mem_cons.1 ho with rfl | ho
    · exact ⟨d, h.2.1⟩
    · exact ih h.2.2 o ho

namespace Stored

variable {cfg : AppendLogConfig} {lim : Limits} {harm : FsCall → Disk → Disk → Prop}
  {A : StoreMark → Disk → Prop} {ram ram' : Ram}
  {d d' : Disk} {seg : ℕ → List LogEvent} {ram₀ : Ram} {d₀ : Disk} {plan : CompactionPlan} {idx : ℕ}
  {parent : ManifestRange} {input : CompactionRange} {live : List CompactionLiveRecord}
  {out : List OutputSeg} {slot : Slot} {epoch n : ℕ}

/-- The output takes the place of the input, with its own logs. -/
lemma compacted (h₀ : Sited cfg ram₀ d₀) (h : Stored cfg lim ram d seg)
    (hA : ∀ mk d, A mk d → Within lim mk)
    (hc : Compacts cfg harm A ram₀ d₀ plan ram d idx parent input live out)
    (hpub : A (.publish epoch (ram.compactionAt 0 idx parent input out)) (Disk.writeAll d out))
    (hr : Removed harm input.gens
      ((ram.wroteAll out).published slot
        (ram.compactionAt (u32 (epoch + 1)) idx parent input out) n)
      (Disk.publish (Disk.writeAll d out) slot
        (ram.compactionAt (u32 (epoch + 1)) idx parent input out)) ram' d')
    (ht : ram.Targets noHarm d slot epoch) :
    Stored cfg lim ((ram'.forgetInput input).moveRecords input (out.flatMap OutputSeg.locations)) d'
        (outputLogs out seg) ∧
      Rewritten ram d input out
        ((ram'.forgetInput input).moveRecords input (out.flatMap OutputSeg.locations)) d' := by
  have hwithin := fun mk d hmk => (hA mk d hmk).unbounded
  have hoff := fun mk d hmk => (hwithin mk d hmk).offsets
  obtain ⟨hepoch, hspan⟩ : epoch + 1 < 2 ^ 32 ∧ lim.span _ := hA _ _ hpub
  have hw := h.sited.generations.rewritten h₀.generations hc hoff hr
  have hco := (h₀.compacted hc hoff hr).1
  have hel := h.announced.compacted h₀ hc ht hepoch hr
  have hlt := hc.gen_lt
  have hfits := h.sited.enclosed.fits
  have hkeep : ∀ {g}, g ∈ input.before ram.gens ++ input.after ram.gens →
      outputLogs out seg g = seg g := fun hg => outputLogs_of_not_mem (hw.kept hg).2.2
  have hnew : ∀ o ∈ out, outputLogs out seg o.gen = o.log := fun o ho =>
    outputLogs_of_mem hc.nodup ho
  have hdata : ∀ o ∈ out, o.data.length ≤ lim.segment := by
    intro o ho
    obtain ⟨_, hmk⟩ := hc.marks.pack o ho
    exact hA _ _ hmk
  refine ⟨⟨hco, hel.announced hco.generations, fun g hg => ?_, fun g hg => ?_,
    fun g hg => ?_, ?_, ?_⟩,
    hw⟩
  · rcases hw.cases hg with hk | ⟨o, ho, rfl⟩
    · rw [hkeep hk]
      exact (h.file g (hw.kept hk).1).congr (hw.lookup_kept hk)
    · rw [hnew o ho]
      have hfit := hc.output_fits hfits o ho
      refine ⟨hlt o ho, fun e he => ?_, o.startSeq, o.startSeq_lt hfit,
        (hw.lookup_out o ho).trans ?_⟩
      · obtain ⟨lr, hlr, rfl⟩ := List.mem_map.1 he
        exact hfit lr hlr
      · rw [o.data_eq]
  · rcases hw.cases hg with hk | ⟨o, ho, rfl⟩
    · rw [hkeep hk, hw.extent_kept hk, h.extent g (hw.kept hk).1]
    · rw [hnew o ho, hw.extent_out o ho, o.length_data]
  · rcases hw.cases hg with hk | ⟨o, ho, rfl⟩
    · rw [hkeep hk]
      exact h.size g (hw.kept hk).1
    · rw [hnew o ho, ← o.length_data]
      exact hdata o ho
  · have hm := Settled.manifest_compacted hr
    show lim.span ram'.manifest.totalGens
    rw [hm]
    exact hspan
  · exact ((h.canonical.writeAll hlt).insert_slot).removed hr

/-- **One move** keeps the knowledge of the directory. -/
theorem move {evs : List LogEvent} (hA : ∀ mk d, A mk d → Within lim mk)
    (h : Stored cfg lim ram d seg) (hm : Move cfg noHarm A ram d evs ram' d') :
    ∃ seg', Stored cfg lim ram' d' seg' := by
  cases hm with
  | lock hlock => exact ⟨seg, h.lock hlock⟩
  | noteSealed => exact ⟨seg, h.noteSealed⟩
  | wrote hg hlt hmark => exact ⟨seg, h.wrote hg hlt _ _ _⟩
  | opened ho hn => exact ⟨_, (h.opened hA ho _).1⟩
  | logged hl hopen hmark hold => exact ⟨_, h.logged hl (hA _ _ hmark) hold rfl rfl⟩
  | compacted hc ht hn hmark hr =>
    obtain ⟨seg', h', -⟩ := h.prepared hA hc.prepared
    exact ⟨_, (h'.compacted h.sited hA hc hmark hr ht).1⟩
  | writeFailed _ _ hharm => exact hharm.elim
  | openFailed _ hharm => exact hharm.elim
  | logFailed _ _ _ hharm => exact hharm.elim
  | compactFailed _ _ _ hharm => exact hharm.elim

/-- **Any sequence of moves** does. -/
theorem moves {evs : List LogEvent} (hA : ∀ mk d, A mk d → Within lim mk)
    (h : Stored cfg lim ram d seg) (hm : Moves cfg noHarm A ram d evs ram' d') :
    ∃ seg', Stored cfg lim ram' d' seg' :=
  hm.invariant (P := fun _ ram d => ∃ seg, Stored cfg lim ram d seg)
    (fun _ _ _ _ _ _ ⟨_, hp⟩ hmove => hp.move hA hmove) ⟨seg, h⟩

end Stored

end Pqueue
