import Pqueue.Store.Image

/-!
# Rules for the writes of the store

Which slot a publication writes is a function of the object and the slots (`Ram.target`).  With
it, publishing a manifest and opening a segment are one and two writes whose effect is written
out here, with what a crash inside them leaves.
-/

namespace Pqueue

open Effect LittleEndian

/-! ## The slot that is written -/

/-- What `probeSlots` finds: the slot to write and the winning epoch. -/
def Disk.probe (d : Disk) : Option (Slot × ℕ) :=
  (chooseInactiveSlot (d.lookup Slot.a.fileName).isSome (d.lookup Slot.b.fileName).isSome
    (Disk.manifest d .a) (Disk.manifest d .b)).map fun slot =>
      (slot, ((Disk.elected d).map (·.epoch)).getD 0)

/-- The slot the next publication writes and the epoch it counts from. -/
def Ram.target (d : Disk) (ram : Ram) : Option (Slot × ℕ) :=
  match ram.cachedWrittenSlot with
  | some slot => some (slot.other, ram.cachedWrittenEpoch)
  | none => Disk.probe d

lemma Disk.probe_congr {d d' : Disk}
    (h : ∀ s : Slot, d'.lookup s.fileName = d.lookup s.fileName) :
    Disk.probe d' = Disk.probe d := by
  simp only [Disk.probe, Disk.elected, Disk.manifest, h]

lemma Ram.target_congr {d d' : Disk} {ram ram' : Ram}
    (h : ∀ s : Slot, d'.lookup s.fileName = d.lookup s.fileName)
    (hs : ram'.cachedWrittenSlot = ram.cachedWrittenSlot)
    (he : ram'.cachedWrittenEpoch = ram.cachedWrittenEpoch) : ram'.target d' = ram.target d := by
  rw [target, target, hs, he, Disk.probe_congr h]

/-- With nothing cached the store finds the published manifest. -/
lemma Published.probe {d : Disk} {slot : Slot} {md : ManifestData} (h : Published d slot md) :
    Disk.probe d = some (slot.other, md.epoch) := by
  have hm := h.manifest
  have hl := h.holds
  have hnew := h.newest
  rw [Disk.probe, h.elected, Option.map_some, Option.getD_some]
  cases slot with
  | a =>
    rw [hm, hl]
    cases hb : Disk.manifest d .b with
    | none => rfl
    | some mdB =>
      have hle : mdB.epoch ≤ md.epoch := (hnew mdB hb).le
      simp [chooseInactiveSlot, hle, Slot.other]
  | b =>
    rw [hm, hl]
    cases ha : Disk.manifest d .a with
    | none => simp [chooseInactiveSlot, Slot.other]
    | some mdA =>
      have hlt : ¬md.epoch ≤ mdA.epoch := not_le.2 (hnew mdA ha)
      simp [chooseInactiveSlot, hlt, Slot.other]

/-- What the object remembers of its last publication is true. -/
def CacheOk (ram : Ram) (slot : Slot) (md : ManifestData) : Prop :=
  ∀ s, ram.cachedWrittenSlot = some s → s = slot ∧ ram.cachedWrittenEpoch = md.epoch

lemma Published.target {d : Disk} {slot : Slot} {md : ManifestData} {ram : Ram}
    (h : Published d slot md) (hc : CacheOk ram slot md) :
    ram.target d = some (slot.other, md.epoch) := by
  rw [Ram.target]
  cases hs : ram.cachedWrittenSlot with
  | none => exact h.probe
  | some s =>
    obtain ⟨rfl, he⟩ := hc s hs
    rw [he]

/-! ## Members after a write -/

/-- The members after manifest `md` was written to `slot`, which had `oldSize` bytes. -/
def Ram.published (ram : Ram) (slot : Slot) (md : ManifestData) (oldSize : ℕ) : Ram :=
  ((ram.trackWrite slot.fileName (serialiseManifest md).length oldSize).applyManifest md
    (rangeGens md.ranges)).noteSlot slot md.epoch (serialiseManifest md).length

/-- The members after segment `gen` was created. -/
def Ram.created (ram : Ram) (gen : ℕ) : Ram :=
  ram.trackWrite (segmentName gen) kSegmentHeaderBytes 0

/-- The members after segment `gen` was created and published as the tail. -/
def Ram.started (ram : Ram) (slot : Slot) (md : ManifestData) (oldSize : ℕ) : Ram :=
  ((ram.created md.tailGeneration).published slot md oldSize).openTail md.tailGeneration

/-- The directory after segment `gen` was created. -/
def Disk.create (d : Disk) (gen startSeq : ℕ) : Disk :=
  d.insert (segmentName gen) (serializeSegmentHeader gen startSeq)

/-- The directory after manifest `md` was written to `slot`. -/
def Disk.publish (d : Disk) (slot : Slot) (md : ManifestData) : Disk :=
  d.insert slot.fileName (serialiseManifest md)

section Rules

variable {env : Env} {A : StoreMark → Disk → Prop} {Z : Prop} {J : Disk → Prop}
  {cfg : AppendLogConfig} {ram : Ram} {w : World}

/-! ## Rules -/

lemma wpc_probeSlots {Q : StorePost (Slot × ℕ)} {s : Slot} {epoch : ℕ}
    (h : Disk.probe w.disk = some (s, epoch)) (hQ : Q (.ok (s, epoch)) ram w) :
    Wpc env A Z J Store.probeSlots Q ram w := by
  have hread : ∀ (slot : Slot) {P : StorePost (Option ManifestData)},
      P (.ok (Disk.manifest w.disk slot)) ram w →
      Wpc env A Z J (if (w.disk.lookup slot.fileName).isSome = true then Store.tryReadSlot slot
        else pure none) P ram w := by
    intro slot P hP
    split
    · exact (wpc_tryReadSlot slot P).2 hP
    · next hne =>
      have hnone : w.disk.lookup slot.fileName = none := by simpa using hne
      rw [Disk.manifest, hnone] at hP
      exact hP
  rw [Store.probeSlots, wpc_bind, wpc_slotExists, andThen_ok, wpc_bind, wpc_slotExists, andThen_ok,
    wpc_bind]
  refine hread .a ?_
  rw [andThen_ok, wpc_bind]
  refine hread .b ?_
  rw [andThen_ok]
  rw [Disk.probe] at h
  obtain ⟨slot, hslot, hp⟩ := Option.map_eq_some_iff.1 h
  obtain ⟨rfl, rfl⟩ := Prod.mk.inj hp
  rw [hslot]
  exact hQ

lemma wpc_writeTarget {Q : StorePost (Slot × ℕ)} {s : Slot} {epoch : ℕ}
    (h : ram.target w.disk = some (s, epoch)) (hQ : Q (.ok (s, epoch)) ram w) :
    Wpc env A Z J Store.writeTarget Q ram w := by
  rw [Store.writeTarget, wpc_bind, wpc_get, andThen_ok]
  rw [Ram.target] at h
  cases hs : ram.cachedWrittenSlot with
  | none =>
    rw [hs] at h
    exact wpc_probeSlots h hQ
  | some slot =>
    rw [hs] at h
    obtain ⟨rfl, rfl⟩ := Prod.mk.inj (Option.some.inj h)
    exact hQ

lemma wpc_writeTracked_new {name : FileName} {data : Bytes} {Q : StorePost Unit} (hJ : J w.disk)
    (htorn : ∀ n < data.length, J (w.disk.insert name (data.take n)))
    (hQ : Q (.ok ()) (ram.trackWrite name data.length 0) (w.setDisk (w.disk.insert name data))) :
    Wpc env A Z J (Store.writeSegmentFileTracked name data .mustBeNew) Q ram w := by
  rw [Store.writeSegmentFileTracked, wpc_bind]
  refine (wpc_pure (0 : ℕ) _).2 ?_
  rw [andThen_ok, wpc_bind]
  exact wpc_writeFile hJ htorn hQ

lemma wpc_writeTracked_over {name : FileName} {data : Bytes} {Q : StorePost Unit} (hJ : J w.disk)
    (htorn : ∀ n < data.length, J (w.disk.insert name (data.take n)))
    (hQ : Q (.ok ()) (ram.trackWrite name data.length (Disk.size w.disk name))
      (w.setDisk (w.disk.insert name data))) :
    Wpc env A Z J (Store.writeSegmentFileTracked name data .mayOverwrite) Q ram w := by
  rw [Store.writeSegmentFileTracked, wpc_bind]
  refine (wpc_sizeOrZero name _).2 ?_
  rw [andThen_ok, wpc_bind]
  exact wpc_writeFile hJ htorn hQ

lemma wpc_createSegment {gen startSeq : ℕ} {Q : StorePost Unit} (hJ : J w.disk)
    (htorn : ∀ n < kSegmentHeaderBytes,
      J (w.disk.insert (segmentName gen) ((serializeSegmentHeader gen startSeq).take n)))
    (hQ : Q (.ok ()) (ram.created gen) (w.setDisk (Disk.create w.disk gen startSeq))) :
    Wpc env A Z J (Store.createSegment gen startSeq) Q ram w := by
  refine wpc_writeTracked_new hJ (fun n hn => htorn n ?_) ?_
  · rwa [length_serializeSegmentHeader] at hn
  · rw [length_serializeSegmentHeader]
    exact hQ

end Rules

end Pqueue
