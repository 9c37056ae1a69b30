import Pqueue.Store.Trial

/-!
# The two manifest slots

Every publication writes the slot that does not hold the winner, so a publication that is torn
leaves the winner in place.  `SlotRun` is any sequence of publications (completed, failed, or cut
off by a crash), remounts and other work of the store; `slot_protocol` says what holds after it.
-/

namespace Pqueue

open Effect LittleEndian

/-- What a write that fails leaves: a strict prefix of the data, or no file.  Other calls do not
fail. -/
def tornWrite : FsCall → Disk → Disk → Prop
  | .writeFile name data, d, d' =>
    d' = d.erase name ∨ ∃ n < data.length, d' = d.insert name (data.take n)
  | _, _, _ => False

/-- A manifest that the format can hold; the epoch is chosen when it is published. -/
def ManifestData.Storable (m : ManifestData) : Prop := { m with epoch := 0 }.Valid

lemma ManifestData.Storable.valid {m : ManifestData} (h : m.Storable) {epoch : ℕ}
    (he : epoch < 2 ^ 32) : { m with epoch := epoch }.Valid where
  epoch_lt := he
  nextGeneration_lt := h.nextGeneration_lt
  tailGeneration_lt := h.tailGeneration_lt
  ranges_le := h.ranges_le
  ranges_valid := h.ranges_valid
  tail_ne := h.tail_ne

/-- An attempt to publish `m`: it completes, or its write fails. -/
abbrev Publishes (env : Env) (m : ManifestData) (ram : Ram) (w : World) (r : Except Status Unit)
    (ram' : Ram) (w' : World) : Prop :=
  Executes env tornWrite (fun _ _ => True) (Store.publishManifest m) ram w r ram' w'

/-- The runs of the slot protocol, with the manifests whose publication has completed, the last
one first. -/
inductive SlotRun (env : Env) : List ManifestData → Ram → World → Prop
  /-- The first publication, on a directory without slots, completes. -/
  | first {ram w m ram' w'} (hslots : ∀ s : Slot, w.disk.lookup s.fileName = none)
      (hcache : ram.cachedWrittenSlot = none) (hm : m.Storable)
      (hp : Publishes env m ram w (.ok ()) ram' w') :
      SlotRun env [{ m with epoch := ram'.cachedWrittenEpoch }] ram' w'
  /-- A publication completes. -/
  | publish {done ram w m ram' w'} (h : SlotRun env done ram w) (hm : m.Storable)
      (hp : Publishes env m ram w (.ok ()) ram' w') :
      SlotRun env ({ m with epoch := ram'.cachedWrittenEpoch } :: done) ram' w'
  /-- The write of a publication fails, and the object goes on. -/
  | fail {done ram w m st ram' w'} (h : SlotRun env done ram w) (hm : m.Storable)
      (hp : Publishes env m ram w (.error st) ram' w') : SlotRun env done ram' w'
  /-- A crash cuts off the write of a publication; another object goes on. -/
  | crash {done ram w m st ram' w'} (h : SlotRun env done ram w) (hm : m.Storable)
      (hp : Publishes env m ram w (.error st) ram' w') (fresh : Ram)
      (hcache : fresh.cachedWrittenSlot = none) : SlotRun env done fresh w'
  /-- The store is mounted again. -/
  | remount {done ram w} (h : SlotRun env done ram w) (fresh : Ram)
      (hcache : fresh.cachedWrittenSlot = none) : SlotRun env done fresh w
  /-- Work that touches neither the slots nor what is remembered of them. -/
  | other {done ram w} (h : SlotRun env done ram w) {ram' : Ram} {w' : World}
      (hslots : ∀ s : Slot, w'.disk.lookup s.fileName = w.disk.lookup s.fileName)
      (hslot : ram'.cachedWrittenSlot = ram.cachedWrittenSlot)
      (hepoch : ram'.cachedWrittenEpoch = ram.cachedWrittenEpoch) : SlotRun env done ram' w'

/-- What the protocol promises: epochs increase, the manifest that is read is the last one
published, and no attempt to publish touches the slot that holds it. -/
def SlotProtocol (env : Env) (done : List ManifestData) (ram : Ram) (w : World) : Prop :=
  done.Pairwise (fun newer older => older.epoch < newer.epoch) ∧
    ∃ md rest winner, done = md :: rest ∧
      (∀ reader : Ram, Prog.run (handle env) (Store.readManifest reader) w =
        some ((.ok (some md), reader), w)) ∧
      Disk.manifest w.disk winner = some md ∧
      ∀ m r ram' w', m.Storable → Publishes env m ram w r ram' w' →
        w'.disk.lookup winner.fileName = w.disk.lookup winner.fileName

/-! ## One attempt -/

/-- The invariant of a run: the last manifest is published and remembered rightly, and there
have been as many publications as its epoch says. -/
structure SlotInv (done : List ManifestData) (ram : Ram) (d : Disk) (slot : Slot)
    (md : ManifestData) : Prop where
  last : ∃ rest, done = md :: rest
  epoch : md.epoch = done.length
  increasing : done.Pairwise fun newer older => older.epoch < newer.epoch
  published : Published d slot md
  cache : CacheOk ram slot md

section Attempt

variable {env : Env} {ram ram' : Ram} {w w' : World} {m : ManifestData} {s : Slot} {epoch : ℕ}
  {r : Except Status Unit}

lemma damaging_tornWrite : Damaging tornWrite := by
  intro c d d' h
  cases c with
  | writeFile name data =>
    intro other hne
    rcases h with rfl | ⟨n, -, rfl⟩
    · exact AList.lookup_erase_ne hne
    · exact AList.lookup_insert_ne hne
  | _ => exact h.elim

/-- What an attempt does: it writes the target slot, wholly or in part, or nothing. -/
lemma publishes_cases (ht : ram.target w.disk = some (s, epoch))
    (hp : Publishes env m ram w r ram' w') :
    (r = .ok () ∧ ram'.cachedWrittenSlot = some s ∧
      ram'.cachedWrittenEpoch = u32 (epoch + 1) ∧
        w'.disk = Disk.publish w.disk s { m with epoch := u32 (epoch + 1) }) ∨
    ((∃ st, r = .error st) ∧ ram' = ram ∧ (w'.disk = w.disk ∨ w'.disk = w.disk.erase s.fileName ∨
      ∃ n < (serialiseManifest { m with epoch := u32 (epoch + 1) }).length, w'.disk =
        w.disk.insert s.fileName
          ((serialiseManifest { m with epoch := u32 (epoch + 1) }).take n))) := by
  have hwp : Wp env tornWrite (fun _ _ => True) (fun _ => True) (Store.publishManifest m)
      (fun r ram' d' =>
        (r = .ok () ∧ ram'.cachedWrittenSlot = some s ∧
          ram'.cachedWrittenEpoch = u32 (epoch + 1) ∧
            d' = Disk.publish w.disk s { m with epoch := u32 (epoch + 1) }) ∨
        ((∃ st, r = .error st) ∧ ram' = ram ∧ (d' = w.disk ∨ d' = w.disk.erase s.fileName ∨
          ∃ n < (serialiseManifest { m with epoch := u32 (epoch + 1) }).length, d' =
            w.disk.insert s.fileName
              ((serialiseManifest { m with epoch := u32 (epoch + 1) }).take n)))) ram w.disk := by
    refine wp_publishManifest damaging_tornWrite trivial
      (fun st _ => .inr ⟨⟨st, rfl⟩, rfl, .inl rfl⟩) fun slot e hte _ md hmd => ?_
    have hte := hte.eq (fun _ _ _ h => h) fun _ _ _ h => h
    obtain ⟨rfl, rfl⟩ := Prod.mk.inj (Option.some.inj (ht.symm.trans hte))
    subst hmd
    refine ⟨fun st d' hh => .inr ⟨⟨st, rfl⟩, rfl, .inr hh⟩, fun n _ => ⟨trivial, ?_⟩⟩
    exact .inl ⟨rfl, rfl, rfl, rfl⟩
  exact hwp.sound hp

end Attempt

namespace SlotInv

variable {env : Env} {done : List ManifestData} {ram ram' : Ram} {w w' : World} {slot : Slot}
  {md m : ManifestData} {r : Except Status Unit}

/-- An attempt leaves the slot of the winner alone. -/
lemma winner_kept (h : SlotInv done ram w.disk slot md) (hp : Publishes env m ram w r ram' w') :
    w'.disk.lookup slot.fileName = w.disk.lookup slot.fileName := by
  have hne := slot.fileName_other_ne
  rcases publishes_cases (h.published.target h.cache) hp with ⟨-, -, -, hd⟩ |
    ⟨-, -, hd | hd | ⟨n, -, hd⟩⟩
  · rw [hd, Disk.publish, AList.lookup_insert_ne hne]
  · rw [hd]
  · rw [hd, AList.lookup_erase_ne hne]
  · rw [hd, AList.lookup_insert_ne hne]

/-- A completed attempt publishes its manifest with the next epoch. -/
lemma publish (h : SlotInv done ram w.disk slot md) (hlen : done.length + 1 < 2 ^ 32)
    (hm : m.Storable) (hp : Publishes env m ram w (.ok ()) ram' w') :
    SlotInv ({ m with epoch := ram'.cachedWrittenEpoch } :: done) ram' w'.disk slot.other
      { m with epoch := ram'.cachedWrittenEpoch } := by
  rcases publishes_cases (h.published.target h.cache) hp with
    ⟨-, hs, he, hd⟩ | ⟨⟨st, hr⟩, -⟩
  swap
  · cases hr
  have hu : u32 (md.epoch + 1) = done.length + 1 := by
    rw [h.epoch]
    exact u32_of_lt hlen
  have hlt : ∀ old ∈ done, old.epoch < done.length + 1 := by
    intro old hold
    obtain ⟨rest, hdone⟩ := h.last
    have hepoch := h.epoch
    have hinc := h.increasing
    rw [hdone] at hold hinc
    rcases List.mem_cons.1 hold with rfl | hold
    · omega
    · have := (List.pairwise_cons.1 hinc).1 old hold
      omega
  rw [hu] at he hd
  rw [he]
  refine ⟨⟨done, rfl⟩, rfl, List.pairwise_cons.2 ⟨hlt, h.increasing⟩, ?_, fun s hs' => ?_⟩
  · rw [hd]
    refine h.published.publish (hm.valid hlen) ?_
    rw [h.epoch]
    exact Nat.lt_succ_self _
  · rw [hs] at hs'
    exact ⟨(Option.some.inj hs').symm, he⟩

/-- A failed attempt leaves the winner elected. -/
lemma fail (h : SlotInv done ram w.disk slot md) (hlen : done.length + 1 < 2 ^ 32)
    (hm : m.Storable) {st : Status} (hp : Publishes env m ram w (.error st) ram' w') :
    SlotInv done ram' w'.disk slot md := by
  rcases publishes_cases (h.published.target h.cache) hp with ⟨hr, -⟩ | ⟨-, rfl, hd⟩
  · cases hr
  have hu : u32 (md.epoch + 1) = done.length + 1 := by
    rw [h.epoch]
    exact u32_of_lt hlen
  refine ⟨h.last, h.epoch, h.increasing, ?_, h.cache⟩
  rcases hd with hd | hd | ⟨n, hn, hd⟩
  · rw [hd]
    exact h.published
  · rw [hd]
    refine ⟨h.published.valid, ?_, fun md' hmd' => ?_⟩
    · rw [AList.lookup_erase_ne slot.fileName_other_ne, h.published.holds]
    · rw [Disk.manifest, AList.lookup_erase] at hmd'
      cases hmd'
  · rw [hd]
    rw [hu] at hn ⊢
    exact h.published.insert_torn (parseManifest_take (parseManifest_serialise (hm.valid hlen)) hn)

/-- A fresh object remembers nothing. -/
lemma fresh {d : Disk} (h : SlotInv done ram d slot md) {ram' : Ram}
    (hc : ram'.cachedWrittenSlot = none) : SlotInv done ram' d slot md :=
  ⟨h.last, h.epoch, h.increasing, h.published, fun s hs => by rw [hc] at hs; cases hs⟩

end SlotInv

/-! ## Runs -/

/-- The first publication goes to slot A, with epoch 1. -/
lemma slotInv_first {env : Env} {ram ram' : Ram} {w w' : World} {m : ManifestData}
    (hslots : ∀ s : Slot, w.disk.lookup s.fileName = none) (hcache : ram.cachedWrittenSlot = none)
    (hm : m.Storable) (hp : Publishes env m ram w (.ok ()) ram' w') :
    SlotInv [{ m with epoch := ram'.cachedWrittenEpoch }] ram' w'.disk .a
      { m with epoch := ram'.cachedWrittenEpoch } := by
  have htarget : ram.target w.disk = some (.a, 0) := by
    simp only [Ram.target, hcache, Disk.probe, Disk.elected, Disk.manifest, hslots]
    rfl
  rcases publishes_cases htarget hp with ⟨-, hs, he, hd⟩ | ⟨⟨st, hr⟩, -⟩
  swap
  · cases hr
  rw [he, hd]
  refine ⟨⟨[], rfl⟩, rfl, List.pairwise_singleton _ _,
    ⟨hm.valid (by decide), AList.lookup_insert _, fun md' hmd' => ?_⟩, fun s hs' => ?_⟩
  · rw [Disk.manifest, Disk.publish, AList.lookup_insert_ne (by decide), hslots] at hmd'
    cases hmd'
  · rw [hs] at hs'
    exact ⟨(Option.some.inj hs').symm, he⟩

/-- The run lemma: after any run with few enough publications the invariant holds. -/
lemma slotInv_run {env : Env} {done : List ManifestData} {ram : Ram} {w : World}
    (h : SlotRun env done ram w) (hlen : done.length + 1 < 2 ^ 32) :
    ∃ slot md, SlotInv done ram w.disk slot md := by
  induction h with
  | first hslots hcache hm hp => exact ⟨.a, _, slotInv_first hslots hcache hm hp⟩
  | publish _ hm hp ih =>
    rw [List.length_cons] at hlen
    obtain ⟨slot, md, hi⟩ := ih (by omega)
    exact ⟨slot.other, _, hi.publish (by omega) hm hp⟩
  | fail _ hm hp ih =>
    obtain ⟨slot, md, hi⟩ := ih hlen
    exact ⟨slot, md, hi.fail hlen hm hp⟩
  | crash _ hm hp fresh hcache ih =>
    obtain ⟨slot, md, hi⟩ := ih hlen
    exact ⟨slot, md, (hi.fail hlen hm hp).fresh hcache⟩
  | remount _ fresh hcache ih =>
    obtain ⟨slot, md, hi⟩ := ih hlen
    exact ⟨slot, md, hi.fresh hcache⟩
  | other _ hslots hslot hepoch ih =>
    obtain ⟨slot, md, hi⟩ := ih hlen
    refine ⟨slot, md, hi.last, hi.epoch, hi.increasing, hi.published.congr hslots, fun s hs => ?_⟩
    rw [hepoch]
    exact hi.cache s (hslot ▸ hs)

/-- `readManifest` reads the elected manifest and changes nothing. -/
lemma run_readManifest (env : Env) (ram : Ram) (w : World) :
    Prog.run (handle env) (Store.readManifest ram) w =
      some ((.ok (Disk.elected w.disk), ram), w) := by
  have hwpc : Wpc env (fun _ _ => True) False (fun _ => True) Store.readManifest
      (fun r ram' w' => r = .ok (Disk.elected w.disk) ∧ ram' = ram ∧ w' = w) ram w :=
    (wpc_readManifest _).2 ⟨rfl, rfl, rfl⟩
  obtain ⟨⟨r, ram'⟩, w', hrun, rfl, rfl, rfl⟩ := Prog.wpc_total hwpc
    (Prog.marksOk_true _ _ _)
  exact hrun

/-- **The slot protocol.**  After any run with fewer than `2 ^ 32 - 1` completed publications,
epochs have increased, a reader gets the last manifest published, and no attempt to publish
touches the slot that holds it. -/
theorem slot_protocol {env : Env} {done : List ManifestData} {ram : Ram} {w : World}
    (h : SlotRun env done ram w) (hlen : done.length < 2 ^ 32 - 1) :
    SlotProtocol env done ram w := by
  obtain ⟨slot, md, hi⟩ := slotInv_run h (by omega)
  obtain ⟨rest, hdone⟩ := hi.last
  refine ⟨hi.increasing, md, rest, slot, hdone, fun reader => ?_, hi.published.manifest,
    fun m r ram' w' _ hp => hi.winner_kept hp⟩
  rw [run_readManifest, hi.published.elected]

/-! ### A publication that is cut off -/

/-- The write of a file stops after `n` bytes, if it has more. -/
def slotStops (n : ℕ) : FsCall → World → Option World
  | .writeFile name data, w => torn (.writeFile name data) n w
  | _, _ => none

lemma tornWrite_of_slotStops {n : ℕ} {c : FsCall} {w w' : World} (h : slotStops n c w = some w') :
    tornWrite c w.disk w'.disk := by
  cases c with
  | writeFile name data =>
    simp only [slotStops, torn] at h
    split at h
    · next hn =>
      obtain rfl := Option.some.inj h
      exact .inr ⟨n, hn, rfl⟩
    · cases h
  | _ => cases h

/-- What an attempt to publish leads to. -/
def tryPublish (fails : FsCall → World → Option World) (m : ManifestData) (ram : Ram) (w : World) :
    Option ((Except Status Unit × Ram) × World) :=
  tryMethod (plainEnv .posix) fails (fun _ _ => True) (Store.publishManifest m) ram w

/-- The second publication is cut off after ten bytes; another object publishes the third. -/
theorem slot_protocol_torn : ∃ ram w,
    SlotRun (plainEnv .posix) [⟨2, 4, [⟨1, 2⟩], 3⟩, ⟨1, 2, [], 1⟩] ram w ∧
      SlotProtocol (plainEnv .posix) [⟨2, 4, [⟨1, 2⟩], 3⟩, ⟨1, 2, [], 1⟩] ram w := by
  have hrun : ((do
      let a ← tryPublish allComplete ⟨0, 2, [], 1⟩ {} ⟨∅, 0, false⟩
      let b ← tryPublish (slotStops 10) ⟨0, 3, [⟨1, 1⟩], 2⟩ a.1.2 a.2
      let c ← tryPublish allComplete ⟨0, 4, [⟨1, 2⟩], 3⟩ {} b.2
      pure (a.1.1.toBool, a.1.2.cachedWrittenEpoch, b.1.1.toBool, c.1.1.toBool,
        c.1.2.cachedWrittenEpoch)) : Option _) = some (true, 1, false, true, 2) := by
    decide +kernel
  obtain ⟨⟨⟨r₁, ram₁⟩, w₁⟩, h₁, hrun⟩ := Option.bind_eq_some_iff.1 hrun
  obtain ⟨⟨⟨r₂, ram₂⟩, w₂⟩, h₂, hrun⟩ := Option.bind_eq_some_iff.1 hrun
  obtain ⟨⟨⟨r₃, ram₃⟩, w₃⟩, h₃, hrun⟩ := Option.bind_eq_some_iff.1 hrun
  simp only [pure, Option.some.injEq, Prod.mk.injEq] at hrun
  obtain ⟨hr₁, he₁, hr₂, hr₃, he₃⟩ := hrun
  obtain rfl := eq_ok_of_toBool hr₁
  obtain ⟨e, rfl⟩ := exists_error_of_toBool hr₂
  obtain rfl := eq_ok_of_toBool hr₃
  have hm₁ : (⟨0, 2, [], 1⟩ : ManifestData).Storable :=
    ⟨by decide, by decide, by decide, by decide, by decide, by decide⟩
  have hfirst := SlotRun.first (fun s => by cases s <;> rfl) rfl hm₁ (executes_of_complete h₁)
  have hm₂ : (⟨0, 3, [⟨1, 1⟩], 2⟩ : ManifestData).Storable :=
    ⟨by decide, by decide, by decide, by decide, by decide, by decide⟩
  have hstops : ∀ c w w', slotStops 10 c w = some w' → tornWrite c w.disk w'.disk :=
    fun _ _ _ => tornWrite_of_slotStops
  have hcrashed := hfirst.crash hm₂ (executes_of_tryMethod hstops h₂) {} rfl
  have hm₃ : (⟨0, 4, [⟨1, 2⟩], 3⟩ : ManifestData).Storable :=
    ⟨by decide, by decide, by decide, by decide, by decide, by decide⟩
  have hlast := hcrashed.publish hm₃ (executes_of_complete h₃)
  rw [he₁, he₃] at hlast
  exact ⟨ram₃, w₃, hlast, slot_protocol hlast (by decide)⟩

end Pqueue
