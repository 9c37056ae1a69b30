import Pqueue.Store.Coherent

/-!
# The manifest in memory and the winning slot

Once an object has published a manifest, the winning slot on disk holds exactly the ranges, the
tail and the next generation the object has in memory (`Elects`).  A publication writes the other
slot, so one that fails leaves the winner; every move keeps the agreement as long as the epoch
does not wrap (`Settled.move`).
-/

namespace Pqueue

open Effect LittleEndian

/-- The manifest an object has in memory. -/
def Ram.manifest (ram : Ram) : ManifestData :=
  ⟨ram.cachedWrittenEpoch, ram.nextGeneration, ram.manifestRanges, ram.activeGeneration⟩

/-- The manifest in memory is published, in the slot written last. -/
def Elects (ram : Ram) (d : Disk) : Prop :=
  ∃ slot, ram.cachedWrittenSlot = some slot ∧ Published d slot ram.manifest

/-- A failed write of a manifest leaves its slot unreadable, or as it was. -/
def TearsSlots (harm : FsCall → Disk → Disk → Prop) : Prop :=
  ∀ (s : Slot) (md : ManifestData) d d', md.Valid →
    harm (.writeFile s.fileName (serialiseManifest md)) d d' →
      Disk.manifest d' s = none ∨ d'.lookup s.fileName = d.lookup s.fileName

lemma manifest_of_core {ram ram' : Ram} (hc : ram'.core = ram.core) :
    ram'.manifest = ram.manifest := by
  have hc := SameCore.of_core hc
  rw [Ram.manifest, Ram.manifest, hc.epoch, hc.next, hc.ranges, hc.active]

lemma manifest_logged (ram : Ram) (e : LogEvent) : (ram.logged e).manifest = ram.manifest := by
  cases e <;> rfl

lemma slot_logged (ram : Ram) (e : LogEvent) :
    (ram.logged e).cachedWrittenSlot = ram.cachedWrittenSlot := by
  cases e <;> rfl

lemma Generations.valid {ram : Ram} (h : Generations ram) (he : ram.cachedWrittenEpoch < 2 ^ 32) :
    ram.manifest.Valid where
  epoch_lt := he
  nextGeneration_lt := h.next_lt
  tailGeneration_lt := h.gen_lt ram.tail_mem_gens
  ranges_le := h.count
  ranges_valid := h.ranges_valid
  tail_ne _ := h.tail_ne

/-- The other slot is damaged. -/
lemma Published.damaged {d d' : Disk} {slot : Slot} {md : ManifestData} (h : Published d slot md)
    (hd : SameExcept slot.other.fileName d d')
    (hs : Disk.manifest d' slot.other = none ∨
      d'.lookup slot.other.fileName = d.lookup slot.other.fileName) : Published d' slot md where
  valid := h.valid
  holds := (hd _ slot.fileName_other_ne).trans h.holds
  newest md' hm := by
    rcases hs with hs | hs
    · rw [hs] at hm
      cases hm
    · rw [Disk.manifest, hs] at hm
      exact h.newest md' hm

namespace Elects

variable {harm : FsCall → Disk → Disk → Prop} {A : StoreMark → Disk → Prop} {ram ram' : Ram}
  {d d' : Disk} {slot : Slot} {epoch : ℕ}

lemma congr (h : Elects ram d) (hs : ∀ s : Slot, d'.lookup s.fileName = d.lookup s.fileName)
    (hslot : ram'.cachedWrittenSlot = ram.cachedWrittenSlot)
    (hm : ram'.manifest = ram.manifest) : Elects ram' d' := by
  obtain ⟨slot, hs', hp⟩ := h
  exact ⟨slot, hslot.trans hs', hm ▸ hp.congr hs⟩

/-- Which slot the next publication writes. -/
lemma target (h : Elects ram d) (ht : ram.Targets harm d' slot epoch) :
    ram.cachedWrittenSlot = some slot.other ∧ epoch = ram.cachedWrittenEpoch ∧
      Published d slot.other ram.manifest := by
  obtain ⟨s, hs, hp⟩ := h
  rw [Ram.Targets] at ht
  simp only [hs] at ht
  obtain ⟨rfl, rfl⟩ := ht
  exact ⟨by rw [Slot.other_other]; exact hs, rfl, by rw [Slot.other_other]; exact hp⟩

/-- A manifest that counts from the winner is published. -/
lemma publish (h : Elects ram d) (ht : ram.Targets harm d slot epoch)
    (hs : ∀ s : Slot, d'.lookup s.fileName = d.lookup s.fileName)
    (he : epoch + 1 < 2 ^ 32) (hslot : ram'.cachedWrittenSlot = some slot)
    (hepoch : ram'.cachedWrittenEpoch = u32 (epoch + 1)) (hv : ram'.manifest.Valid) :
    Elects ram' (Disk.publish d' slot ram'.manifest) := by
  obtain ⟨-, rfl, hp⟩ := h.target ht
  refine ⟨slot, hslot, ?_⟩
  have hlt : ram.manifest.epoch < ram'.manifest.epoch := by
    show ram.cachedWrittenEpoch < ram'.cachedWrittenEpoch
    rw [hepoch, u32_of_lt he]
    exact Nat.lt_succ_self _
  have := (hp.congr hs).publish hv hlt
  rwa [Slot.other_other] at this

/-- A publication fails. -/
lemma publishFailed (h : Elects ram d) (ht : ram.Targets harm d slot epoch)
    (hd : Damaging harm) (htear : TearsSlots harm) {d₁ : Disk} {md : ManifestData} (hv : md.Valid)
    (hs : ∀ s : Slot, d₁.lookup s.fileName = d.lookup s.fileName)
    (hw : harm (.writeFile slot.fileName (serialiseManifest md)) d₁ d')
    (hc : ram'.core = ram.core) : Elects ram' d' := by
  obtain ⟨hslot, -, hp⟩ := h.target ht
  have hp' : Published d' slot.other ram.manifest := by
    refine (hp.congr hs).damaged ?_ ?_
    · rw [Slot.other_other]
      exact hd _ _ _ hw
    · rw [Slot.other_other]
      exact htear _ _ _ _ hv hw
  exact ⟨slot.other, (SameCore.of_core hc).slot.trans hslot, manifest_of_core hc ▸ hp'⟩

end Elects

/-- The slots of a directory in which nothing was published. -/
def Unpublished (ram : Ram) (d : Disk) : Prop :=
  ram.cachedWrittenSlot = none ∧ ∀ s, Disk.manifest d s = none

namespace Unpublished

variable {harm : FsCall → Disk → Disk → Prop} {ram ram' : Ram} {d d' : Disk}
  {slot : Slot} {epoch : ℕ}

lemma congr (h : Unpublished ram d) (hs : ∀ s : Slot, d'.lookup s.fileName = d.lookup s.fileName)
    (hc : ram'.core = ram.core) : Unpublished ram' d' :=
  ⟨(SameCore.of_core hc).slot.trans h.1, fun s => by rw [Disk.manifest, hs s]; exact h.2 s⟩

lemma publish (h : Unpublished ram d) (hs : ∀ s : Slot, d'.lookup s.fileName = d.lookup s.fileName)
    (hslot : ram'.cachedWrittenSlot = some slot) (hv : ram'.manifest.Valid) :
    Elects ram' (Disk.publish d' slot ram'.manifest) := by
  refine ⟨slot, hslot, hv, AList.lookup_insert _, fun md' hm => ?_⟩
  have hne := slot.fileName_other_ne
  rw [Disk.manifest, Disk.publish, AList.lookup_insert_ne hne.symm, hs, ← Disk.manifest,
    h.2] at hm
  cases hm

lemma publishFailed (h : Unpublished ram d) (hd : Damaging harm) (htear : TearsSlots harm)
    {d₁ : Disk} {md : ManifestData} (hv : md.Valid)
    (hs : ∀ s : Slot, d₁.lookup s.fileName = d.lookup s.fileName)
    (hw : harm (.writeFile slot.fileName (serialiseManifest md)) d₁ d')
    (hc : ram'.core = ram.core) : Unpublished ram' d' := by
  refine ⟨(SameCore.of_core hc).slot.trans h.1, fun s => ?_⟩
  have hsame : SameExcept slot.fileName d₁ d' := hd _ _ _ hw
  have hold : d'.lookup s.fileName = d₁.lookup s.fileName →
      Disk.manifest d' s = none := fun he => by
    rw [Disk.manifest, he, hs, ← Disk.manifest, h.2]
  by_cases he : s = slot
  · subst he
    exact (htear _ _ _ _ hv hw).elim id hold
  · exact hold (hsame _ fun hn => he (slot_fileName_injective hn))

end Unpublished

/-! ## Moves -/

/-- A mounted object that agrees with its directory and with the winning slot. -/
def Settled (cfg : AppendLogConfig) (ram : Ram) (d : Disk) : Prop :=
  Blank ram ∧ Unpublished ram d ∨ Coherent cfg ram d ∧ Elects ram d

/-- The slots are not touched by what is done to another file. -/
lemma SameExcept.slots {d d' : Disk} {name : FileName} (h : SameExcept name d d')
    (hne : ∀ s : Slot, s.fileName ≠ name) (s : Slot) : d'.lookup s.fileName = d.lookup s.fileName :=
  h _ (hne s)

lemma sameExcept_insert (d : Disk) (name : FileName) (data : Bytes) :
    SameExcept name d (d.insert name data) := fun _ hne => AList.lookup_insert_ne hne

/-- Writing a segment does not touch the slots. -/
lemma slots_insert (d : Disk) (gen : ℕ) (data : Bytes) (s : Slot) :
    (d.insert (segmentName gen) data).lookup s.fileName = d.lookup s.fileName :=
  AList.lookup_insert_ne (segmentName_ne_slot gen s).symm

lemma slots_writeAll (d : Disk) (out : List OutputSeg) (s : Slot) :
    (Disk.writeAll d out).lookup s.fileName = d.lookup s.fileName :=
  lookup_writeAll_of_ne fun o _ => (segmentName_ne_slot o.gen s).symm

namespace Settled

variable {cfg : AppendLogConfig} {harm : FsCall → Disk → Disk → Prop} {A : StoreMark → Disk → Prop}
  {ram ram' ram₀ : Ram} {d d' d₀ : Disk} {evs : List LogEvent}

lemma coherent (h : Settled cfg ram d) : Blank ram ∨ Coherent cfg ram d :=
  h.imp And.left And.left

/-- A segment is opened. -/
lemma opened (h : Settled cfg ram d) (hA : ∀ mk d, A mk d → Within unbounded mk)
    {ranges : List ManifestRange} {startSeq epoch : ℕ} {slot : Slot}
    (ho : Opens harm A ram d ranges startSeq slot epoch) (n : ℕ) :
    Settled cfg (ram.opened ranges slot epoch n)
      (Disk.opened d ram ranges startSeq slot epoch) := by
  have he : epoch + 1 < 2 ^ 32 := (hA _ _ ho.publish).1
  have hslots : ∀ s : Slot, (Disk.create d ram.nextGeneration startSeq).lookup s.fileName =
      d.lookup s.fileName := slots_insert d _ _
  have hlt : (ram.opened ranges slot epoch n).cachedWrittenEpoch < 2 ^ 32 := u32_lt _
  rcases h with ⟨h, hu⟩ | ⟨h, hel⟩
  · have hc : Coherent cfg _ _ := (h.opened ho n).1
    exact .inr ⟨hc, hu.publish hslots rfl (hc.generations.valid hlt)⟩
  · have hc := h.of_sited (h.toSited.opened ho n).1 rfl
    exact .inr ⟨hc, hel.publish ho.target hslots he rfl rfl (hc.generations.valid hlt)⟩

lemma noteSealed (h : Settled cfg ram d) : Settled cfg ram.noteSealed d :=
  h.imp (fun h => ⟨h.1.of_core rfl, h.2.congr (fun _ => rfl) rfl⟩)
    fun h => ⟨h.1.of_sited h.1.toSited.noteSealed.1 rfl, h.2.congr (fun _ => rfl) rfl rfl⟩

lemma prepared (h : Settled cfg ram₀ d₀) (hA : ∀ mk d, A mk d → Within unbounded mk)
    {plan : CompactionPlan} (hp : Prepared cfg harm A ram₀ d₀ plan ram d) : Settled cfg ram d := by
  cases hp with
  | asIs => exact h
  | rotated _ ho hn => exact h.noteSealed.opened hA ho _

/-- A compaction is made by an object with a tail. -/
lemma of_compacts (h : Settled cfg ram₀ d₀) {plan : CompactionPlan} {idx : ℕ}
    {parent : ManifestRange} {input : CompactionRange} {live : List CompactionLiveRecord}
    {out : List OutputSeg}
    (hc : Compacts cfg harm A ram₀ d₀ plan ram d idx parent input live out) :
    Coherent cfg ram₀ d₀ := by
  refine h.coherent.resolve_left fun hb => ?_
  obtain ⟨range, fallback, -, hplan⟩ := hc.planned
  rw [hb.not_planned] at hplan
  cases hplan

/-- The manifest that a compaction publishes can be stored. -/
lemma compactionAt_valid (h : Sited cfg ram₀ d₀) {plan : CompactionPlan} {idx : ℕ}
    {parent : ManifestRange} {input : CompactionRange} {live : List CompactionLiveRecord}
    {out : List OutputSeg}
    (hc : Compacts cfg harm A ram₀ d₀ plan ram d idx parent input live out) {epoch : ℕ}
    (he : epoch < 2 ^ 32) : (ram.compactionAt epoch idx parent input out).Valid := by
  have hg := (h.prepared hc.prepared).1.generations
  -- the object as it would be with every input file removed
  have hall : ∀ (gens : List ℕ) (ram : Ram) (d : Disk), ∃ ram' d',
      Removed harm gens ram d ram' d' := by
    intro gens
    induction gens with
    | nil => exact fun ram d => ⟨ram, d, .nil⟩
    | cons g gens ih =>
      intro ram d
      obtain ⟨ram', d', hr⟩ := ih _ _
      exact ⟨ram', d', .gone hr⟩
  obtain ⟨ram', d', hr⟩ := hall input.gens
    ((ram.wroteAll out).published .a (ram.compactionAt epoch idx parent input out) 0) d
  have ha := hr.afterCompaction
  obtain ⟨hG, -⟩ := hg.compacted hc.part hc.gens hc.gens_lt (hc.count h.generations) ha
  exact {
    epoch_lt := he
    nextGeneration_lt := (hg.outputRange_valid hc.gens hc.gens_lt).1
    tailGeneration_lt := hg.gen_lt ram.tail_mem_gens
    ranges_le := hc.count h.generations
    ranges_valid := fun r hm => hG.ranges_valid r (ha.ranges ▸ hm)
    tail_ne := fun _ => hg.tail_ne }

/-- The manifest a compaction leaves in memory is the one it published. -/
lemma manifest_compacted {idx : ℕ} {parent : ManifestRange} {input : CompactionRange}
    {out : List OutputSeg} {slot : Slot} {epoch n : ℕ} {gens : List ℕ}
    (hr : Removed harm gens
      ((ram.wroteAll out).published slot
        (ram.compactionAt epoch idx parent input out) n) d ram' d') :
    ram'.manifest = ram.compactionAt epoch idx parent input out := by
  have hcore := SameCore.of_core hr.core
  rw [Ram.manifest, hcore.epoch, hcore.next, hcore.ranges, hcore.active]
  exact congrArg (ManifestData.mk _ _ _) (SameCore.of_core (core_wroteAll ram out)).active

/-- A compaction elects the manifest it published. -/
lemma elects_compacted (hel : Elects ram d) (h₀ : Coherent cfg ram₀ d₀) {plan : CompactionPlan}
    {idx : ℕ} {parent : ManifestRange} {input : CompactionRange} {live : List CompactionLiveRecord}
    {out : List OutputSeg}
    (hc : Compacts cfg harm A ram₀ d₀ plan ram d idx parent input live out)
    {slot : Slot} {epoch n : ℕ} (ht : ram.Targets harm d slot epoch) (he : epoch + 1 < 2 ^ 32)
    (hr : Removed harm input.gens
      ((ram.wroteAll out).published slot
        (ram.compactionAt (u32 (epoch + 1)) idx parent input out) n)
      (Disk.publish (Disk.writeAll d out) slot
        (ram.compactionAt (u32 (epoch + 1)) idx parent input out)) ram' d') :
    Elects ((ram'.forgetInput input).moveRecords input (out.flatMap OutputSeg.locations)) d' := by
  have hcore := SameCore.of_core hr.core
  have hm := manifest_compacted hr
  have hpub : Elects ram' (Disk.publish (Disk.writeAll d out) slot ram'.manifest) := by
    refine hel.publish ht (slots_writeAll _ _) he hcore.slot hcore.epoch ?_
    rw [hm]
    exact compactionAt_valid h₀.toSited hc (u32_lt _)
  rw [hm] at hpub
  exact hpub.congr (fun s => hr.lookup fun g _ => (segmentName_ne_slot g s).symm) rfl rfl

/-- **One move** keeps the agreement with the winning slot. -/
theorem move (hd : Damaging harm) (htear : TearsSlots harm)
    (hA : ∀ mk d, A mk d → Within unbounded mk) (h : Settled cfg ram d)
    (hm : Move cfg harm A ram d evs ram' d') : Settled cfg ram' d' := by
  have quiet : ∀ {ram' : Ram} {d' : Disk}, ram'.core = ram.core →
      (∀ s : Slot, d'.lookup s.fileName = d.lookup s.fileName) →
        (Sited cfg ram d → Sited cfg ram' d') → Settled cfg ram' d' := fun hc hs hsited =>
    h.imp (fun h => ⟨h.1.of_core hc, h.2.congr hs hc⟩)
      fun h => ⟨h.1.of_sited (hsited h.1.toSited) (SameCore.of_core hc).records,
        h.2.congr hs (SameCore.of_core hc).slot (manifest_of_core hc)⟩
  cases hm with
  | lock hlock =>
    exact quiet rfl (SameExcept.slots hlock slot_ne_lock)
      fun h => (h.keep (hlock.keeps fun g _ => segmentName_ne_lock g)).1
  | noteSealed => exact h.noteSealed
  | wrote hg hlt hA =>
    exact quiet (core_trackWrite ..) (slots_insert d _ _)
      fun h => (h.wrote hg hlt (sameExcept_insert d _ _) _ _).1
  | writeFailed hg hlt hw =>
    have hsame : SameExcept _ d d' := hd _ _ _ hw
    exact quiet rfl (SameExcept.slots hsame fun s => (segmentName_ne_slot _ s).symm)
      fun h => (h.keep (hsame.keeps fun g hg' => h.name_ne hg' hg hlt)).1
  | opened ho hn => exact h.opened hA ho _
  | openFailed ho hw =>
    have hslots : ∀ (startSeq : ℕ) (s : Slot), (Disk.create d ram.nextGeneration startSeq).lookup
        s.fileName = d.lookup s.fileName := fun startSeq => slots_insert d _ _
    rcases h with ⟨h, hu⟩ | ⟨h, hel⟩
    · have hc : Coherent cfg _ _ := (h.opened ho 0).1
      have hv := hc.generations.valid (u32_lt _)
      exact .inl ⟨h.of_core (core_trackWrite ..),
        hu.publishFailed hd htear hv (hslots _) hw (core_trackWrite ..)⟩
    · have hv := (h.toSited.opened ho 0).1.generations.valid (u32_lt _)
      have hs := (h.toSited.openFailed (Nat.lt_of_succ_lt ho.gen_lt) (hd _ _ _ hw)).1
      exact .inr ⟨h.of_sited hs rfl,
        hel.publishFailed ho.target hd htear hv (hslots _) hw (core_trackWrite ..)⟩
  | logged hl hopen hmark hold =>
    rcases h with ⟨h, -⟩ | ⟨h, hel⟩
    · exact absurd h.bytes hopen
    · have hle : _ + _ ≤ 2 ^ 32 - 1 := hA _ _ hmark
      exact .inr ⟨h.logged hl (by omega) hold,
        hel.congr (slots_insert d _ _) (slot_logged ..) (manifest_logged ..)⟩
  | logFailed hl hopen hmark hw =>
    have hdam := hd _ _ _ hw
    exact quiet rfl (SameExcept.slots hdam.1 fun s => (segmentName_ne_slot _ s).symm)
      fun h => (h.logFailed hdam).1
  | compacted hc ht hn hmark hr =>
    have h₀ := h.of_compacts hc
    have hel : Elects _ _ := ((h.prepared hA hc.prepared).resolve_left fun hb =>
      (h₀.prepared hc.prepared).bytes_ne hb.1.bytes).2
    exact .inr ⟨(h₀.compacted hc (fun mk d hmk => (hA mk d hmk).offsets) hr).1,
      elects_compacted hel h₀ hc ht (hA _ _ hmark).1 hr⟩
  | compactFailed hc ht hmark hw =>
    have h₀ := h.of_compacts hc
    have hel : Elects _ _ := ((h.prepared hA hc.prepared).resolve_left fun hb =>
      (h₀.prepared hc.prepared).bytes_ne hb.1.bytes).2
    have hs := (h₀.toSited.compactFailed hc (hd _ _ _ hw)).1
    exact .inr ⟨(h₀.prepared hc.prepared).of_sited hs (SameCore.of_core (core_wroteAll ..)).records,
      hel.publishFailed ht hd htear (compactionAt_valid h₀.toSited hc (u32_lt _))
        (slots_writeAll _ _) hw (core_wroteAll ..)⟩

/-- Any sequence of moves does. -/
theorem moves (hd : Damaging harm) (htear : TearsSlots harm)
    (hA : ∀ mk d, A mk d → Within unbounded mk) (h₀ : Settled cfg ram₀ d₀)
    (h : Moves cfg harm A ram₀ d₀ evs ram d) : Settled cfg ram d :=
  h.invariant (P := fun _ ram d => Settled cfg ram d)
    (fun _ _ _ _ _ _ hs hm => hs.move hd htear hA hm) h₀

end Settled

end Pqueue
