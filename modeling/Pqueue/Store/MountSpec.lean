import Pqueue.Store.Rules
import Pqueue.Store.Scan

/-!
# What mount does with a directory

`Mountable` describes a directory that mounts: an elected manifest within the guards, and a log
for each generation it names, the last of which may end in bytes that are no event.
`wpc_mount` says that mounting it replays these logs, cuts the tail off where the log ends and
removes at most one segment file that no manifest names.  `wpc_mount_empty` is the directory
without segments and manifests.
-/

namespace Pqueue

open Effect LittleEndian

/-! ## Segment files -/

/-- The contents of a segment file: header, events, and what follows them. -/
def segmentData (gen startSeq : ℕ) (evs : List LogEvent) (torn : Bytes) : Bytes :=
  serializeSegmentHeader gen startSeq ++ (encodeEvents evs ++ torn)

/-- Segment `gen` of the directory holds the events `evs`, followed by `torn`. -/
def SegmentFile (cfg : AppendLogConfig) (d : Disk) (gen : ℕ) (evs : List LogEvent)
    (torn : Bytes) : Prop :=
  gen < 2 ^ 32 ∧ (∀ e ∈ evs, e.Fits cfg.maxRecordBytes) ∧
    ∃ startSeq < 2 ^ 32, d.lookup (segmentName gen) = some (segmentData gen startSeq evs torn)

/-- The bytes of the valid prefix of a segment. -/
def logBytes (evs : List LogEvent) : ℕ := kSegmentHeaderBytes + (encodeEvents evs).length

lemma length_segmentData (gen startSeq : ℕ) (evs : List LogEvent) (torn : Bytes) :
    (segmentData gen startSeq evs torn).length = logBytes evs + torn.length := by
  simp only [segmentData, List.length_append, length_serializeSegmentHeader, logBytes]
  omega

section Rules

variable {env : Env} {A : StoreMark → Disk → Prop} {Z : Prop} {J : Disk → Prop}
  {cfg : AppendLogConfig} {ram : Ram} {w : World}

/-! ## One segment -/

lemma wpc_readSegment {gen : ℕ} {data : Bytes} {Q : StorePost Bytes}
    (hl : w.disk.lookup (segmentName gen) = some data) (hmin : kSegmentHeaderBytes ≤ data.length)
    (hmax : data.length ≤ kMaxReplaySegmentReadBytes) (hQ : Q (.ok data) ram w) :
    Wpc env A Z J (Store.readSegment (segmentName gen)) Q ram w := by
  rw [Store.readSegment, wpc_bind, wpc_tryCall_fileSize]
  simp only [handle, hl, andThen_ok]
  rw [if_neg (not_or.2 ⟨not_lt.2 hmin, not_lt.2 hmax⟩), wpc_bind, wpc_tryCall_readFile]
  simp only [handle, hl, andThen_ok, ne_eq, not_true_eq_false, if_false, wpc_pure]
  exact hQ

/-- The replay state after segment `gen` with events `evs`. -/
def Ram.scanned (ram : Ram) (last : Bool) (gen : ℕ) (evs : List LogEvent) (affected : List ℕ) :
    Replay :=
  replayEvents last gen kSegmentHeaderBytes evs ⟨ram.records, ram.nextSequence, affected⟩

/-- The directory after the tail `gen` was cut to `size` bytes. -/
def Disk.resize (env : Env) (d : Disk) (gen size : ℕ) : Disk :=
  d.insert (segmentName gen) (env.backend.resized ((d.lookup (segmentName gen)).getD []) size)

/-- The directory after the recovery of a tail that ends in `torn`. -/
def Disk.recoverTail (env : Env) (d : Disk) (gen : ℕ) (evs : List LogEvent) (torn : Bytes) : Disk :=
  if torn = [] then d else Disk.resize env d gen (logBytes evs)

lemma when_congr {c c' : Prop} [Decidable c] [Decidable c'] (h : c ↔ c') (m : Store Unit) :
    Store.when c m = Store.when c' m := by
  unfold Store.when
  exact if_congr h rfl rfl

/-- The scan of a log, up to the decision about what follows it. -/
lemma wpc_scanSegment_of {last corrupt : Bool} {gen : ℕ} {evs : List LogEvent} {torn : Bytes}
    {affected : List ℕ} {Q : StorePost (List ℕ)} (hseg : SegmentFile cfg w.disk gen evs torn)
    (hstop : stopsAt cfg.maxRecordBytes torn = some corrupt)
    (hsize : logBytes evs + torn.length ≤ kMaxReplaySegmentReadBytes)
    (hQ : Wpc env A Z J
      (if corrupt = true ∧ ¬last = true then
        Store.failure .dataCorrupt "corrupt event data in segment"
      else if 0 < torn.length ∧ ¬last = true then
        Store.failure .dataCorrupt "incomplete event in non-active segment"
      else do
        Store.when (0 < torn.length) (Store.ignore (.resizeFile (segmentName gen) (logBytes evs)))
        Store.modify fun ram => ram.setTailBytes (logBytes evs)
        pure (ram.scanned last gen evs affected).tailAffectedGens)
      Q (ram.replayed gen (ram.scanned last gen evs affected)) w) :
    Wpc env A Z J (Store.scanSegment cfg last gen affected) Q ram w := by
  obtain ⟨hgen, hfits, s, hs, hl⟩ := hseg
  have hlen := length_segmentData gen s evs torn
  rw [Store.scanSegment, wpc_bind]
  refine wpc_readSegment hl (by rw [hlen, logBytes]; omega) (by rw [hlen]; exact hsize) ?_
  have htake : (segmentData gen s evs torn).take kSegmentHeaderBytes =
      serializeSegmentHeader gen s := List.take_left' (length_serializeSegmentHeader gen s)
  have hdrop : (segmentData gen s evs torn).drop kSegmentHeaderBytes = encodeEvents evs ++ torn :=
    List.drop_left' (length_serializeSegmentHeader gen s)
  rw [andThen_ok, wpc_bind, Store.checkHeader, htake, parseSegmentHeader_serialize hgen hs]
  have hgen' : ¬(segmentHeader gen s).generation ≠ gen := fun h => h rfl
  simp only [hgen', if_false, wpc_pure, andThen_ok, wpc_bind, wpc_get, wpc_modify]
  rw [hdrop, scanEvents_log hfits hstop le_rfl]
  have hrest : kSegmentHeaderBytes + (encodeEvents evs).length <
      (segmentData gen s evs torn).length ↔ 0 < torn.length := by
    rw [hlen, logBytes]
    omega
  rw [when_congr hrest]
  simp only [hrest]
  exact hQ

lemma wpc_scanSegment {last : Bool} {gen : ℕ} {evs : List LogEvent} {torn : Bytes}
    {affected : List ℕ} {Q : StorePost (List ℕ)} (hseg : SegmentFile cfg w.disk gen evs torn)
    (hstop : (stopsAt cfg.maxRecordBytes torn).isSome) (hlast : last = false → torn = [])
    (hsize : logBytes evs + torn.length ≤ kMaxReplaySegmentReadBytes) (hJ : J w.disk)
    (hQ : Q (.ok (ram.scanned last gen evs affected).tailAffectedGens)
      ((ram.replayed gen (ram.scanned last gen evs affected)).setTailBytes (logBytes evs))
      (w.setDisk (Disk.recoverTail env w.disk gen evs torn))) :
    Wpc env A Z J (Store.scanSegment cfg last gen affected) Q ram w := by
  obtain ⟨corrupt, hstop⟩ := Option.isSome_iff_exists.1 hstop
  refine wpc_scanSegment_of hseg hstop hsize ?_
  have hcorrupt : ¬(corrupt = true ∧ ¬last = true) := by
    rintro ⟨hc, hl⟩
    rw [hlast (Bool.eq_false_of_not_eq_true hl)] at hstop
    rw [← Option.some.inj hstop] at hc
    cases hc
  rw [if_neg hcorrupt]
  by_cases ht : torn = []
  · have hlt : ¬0 < torn.length := by simp [ht]
    rw [if_neg fun h => hlt h.1, wpc_bind]
    rw [Disk.recoverTail, if_pos ht] at hQ
    exact wpc_when.2 ⟨fun h => absurd h hlt, fun _ => hQ⟩
  · have hlt : 0 < torn.length := List.length_pos_iff.2 ht
    have hl' : ¬¬last = true := fun h => ht (hlast (Bool.eq_false_of_not_eq_true h))
    rw [if_neg fun h => hl' h.2, wpc_bind]
    rw [Disk.recoverTail, if_neg ht] at hQ
    exact wpc_when.2 ⟨fun _ => wpc_resizeFile hJ hQ, fun h => absurd hlt h⟩

/-! ## All segments -/

/-- The logs of the generations in `gens` are in the directory; only the last may end in bytes
that are no event. -/
def Scannable (cfg : AppendLogConfig) (d : Disk) (seg : ℕ → List LogEvent) (torn : Bytes) :
    List ℕ → Prop
  | [] => True
  | g :: gs => SegmentFile cfg d g (seg g) (if gs = [] then torn else []) ∧
      logBytes (seg g) + (if gs = [] then torn.length else 0) ≤ kMaxReplaySegmentReadBytes ∧
      Scannable cfg d seg torn gs

/-- Replay the logs of the generations, the last of which is the active segment. -/
def replayGens (seg : ℕ → List LogEvent) : List ℕ → Replay → Replay
  | [], st => st
  | g :: gs, st => replayGens seg gs (replayEvents gs.isEmpty g kSegmentHeaderBytes (seg g) st)

/-- The RAM after the segment loop over `gens`. -/
def Ram.afterScan (seg : ℕ → List LogEvent) (gens : List ℕ) (affected : List ℕ) (ram : Ram) : Ram :=
  { ram with
    records := (replayGens seg gens ⟨ram.records, ram.nextSequence, affected⟩).records
    nextSequence := (replayGens seg gens ⟨ram.records, ram.nextSequence, affected⟩).nextSequence
    activeGeneration := (gens.getLast?).getD ram.activeGeneration
    activeSegmentBytes :=
      (gens.getLast?.map fun g => logBytes (seg g)).getD ram.activeSegmentBytes }

/-- The directory after the segment loop over `gens`. -/
def Disk.afterScan (env : Env) (d : Disk) (seg : ℕ → List LogEvent) (gens : List ℕ)
    (torn : Bytes) : Disk :=
  match gens.getLast? with
  | none => d
  | some g => Disk.recoverTail env d g (seg g) torn

lemma stopsAt_nil (m : ℕ) : stopsAt m [] = some false := rfl

lemma wpc_scanActive {seg : ℕ → List LogEvent} {torn : Bytes} {gens affected : List ℕ}
    {Q : StorePost (List ℕ)} (hscan : Scannable cfg w.disk seg torn gens)
    (hstop : (stopsAt cfg.maxRecordBytes torn).isSome) (hJ : J w.disk)
    (hQ : Q (.ok (replayGens seg gens ⟨ram.records, ram.nextSequence, affected⟩).tailAffectedGens)
      (ram.afterScan seg gens affected)
      (w.setDisk (Disk.afterScan env w.disk seg gens torn))) :
    Wpc env A Z J (Store.scanActive cfg gens affected) Q ram w := by
  induction gens generalizing ram affected with
  | nil => exact hQ
  | cons g gs ih =>
    obtain ⟨hseg, hsize, hrest⟩ := hscan
    rw [Store.scanActive, wpc_bind]
    cases gs with
    | nil =>
      exact wpc_scanSegment hseg hstop (fun h => by cases h) hsize hJ hQ
    | cons g' gs =>
      refine wpc_scanSegment hseg rfl (fun _ => rfl) hsize hJ ?_
      rw [andThen_ok, Disk.recoverTail, if_pos (if_neg (List.cons_ne_nil _ _)), World.setDisk_self]
      refine ih hrest ?_
      have hlast : (g :: g' :: gs).getLast? = (g' :: gs).getLast? := List.getLast?_cons_cons
      simp only [Ram.afterScan, Disk.afterScan, hlast] at hQ ⊢
      obtain ⟨x, hx⟩ : ∃ x, (g' :: gs).getLast? = some x :=
        ⟨_, List.getLast?_eq_getLast_of_ne_nil (List.cons_ne_nil _ _)⟩
      rw [hx] at hQ ⊢
      exact hQ

/-! ## Accounting -/

/-- The members that are not about sizes of files. -/
def Ram.core (ram : Ram) : Ram :=
  { ram with
    totalOnDiskBytes := 0
    sealedSegmentBytes := fun _ => none
    manifestSlotBytes := fun _ => 0 }

/-- Every listed segment name has its canonical file. -/
def NamesOk (d : Disk) : Prop :=
  ∀ name ∈ d.keys, ∀ g, isSegmentName name = some g → (d.lookup (segmentName g)).isSome

/-- The RAM after the sizes of the segment files were added up. -/
def Ram.accounted (d : Disk) (gens : List ℕ) (ram : Ram) : Ram :=
  gens.foldl (fun ram gen => ram.addSegment gen (Disk.size d (segmentName gen))) ram

@[simp] lemma core_accounted (d : Disk) (gens : List ℕ) (ram : Ram) :
    (ram.accounted d gens).core = ram.core := by
  induction gens generalizing ram with
  | nil => rfl
  | cons g gs ih => exact ih _

lemma wpc_accountSegments {gens : List ℕ} {Q : StorePost Unit}
    (h : ∀ g ∈ gens, (w.disk.lookup (segmentName g)).isSome)
    (hQ : Q (.ok ()) (ram.accounted w.disk gens) w) :
    Wpc env A Z J (Store.accountSegments gens) Q ram w := by
  induction gens generalizing ram with
  | nil => exact hQ
  | cons g gs ih =>
    obtain ⟨data, hd⟩ := Option.isSome_iff_exists.1 (h g (List.mem_cons_self ..))
    rw [Store.accountSegments, Act.forEach, ← Store.accountSegments, wpc_bind, wpc_bind, wpc_call,
      wpc_tryCall_fileSize]
    simp only [handle, hd, andThen_ok, wpc_modify]
    refine ih (fun g' hg' => h g' (List.mem_cons_of_mem _ hg')) ?_
    rw [Ram.accounted, List.foldl_cons, Disk.size, hd] at hQ
    exact hQ

/-- The RAM after a slot was added to the footprint. -/
def Ram.accountedSlot (d : Disk) (slot : Slot) (ram : Ram) : Ram :=
  match d.lookup slot.fileName with
  | none => ram
  | some data => ram.addSlot slot data.length

@[simp] lemma core_accountedSlot (d : Disk) (slot : Slot) (ram : Ram) :
    (ram.accountedSlot d slot).core = ram.core := by
  rw [Ram.accountedSlot]
  cases d.lookup slot.fileName <;> rfl

@[simp] lemma wpc_accountSlot {slot : Slot} {Q : StorePost Unit} :
    Wpc env A Z J (Store.accountSlot slot) Q ram w ↔
      Q (.ok ()) (ram.accountedSlot w.disk slot) w := by
  rw [Store.accountSlot, wpc_bind, wpc_tryCall_fileSize, Ram.accountedSlot]
  simp only [handle]
  cases w.disk.lookup slot.fileName <;> rfl

/-! ## Removing a dangling segment -/

@[simp] lemma core_dropSegment (ram : Ram) (gen size : ℕ) :
    (ram.dropSegment gen size).core = ram.core := by
  -- on the members, so that the kernel does not compare the totals
  obtain ⟨⟩ := ram
  simp only [Ram.core, Ram.dropSegment]

lemma firstDangling_eq_some {active : List ℕ} {files : List FileName} {name : FileName} {gen : ℕ}
    (h : firstDangling active files = some (name, gen)) :
    name ∈ files ∧ isSegmentName name = some gen ∧ gen ∉ active := by
  obtain ⟨x, hx, hf⟩ := List.exists_of_findSome?_eq_some h
  obtain ⟨g, hg, hite⟩ := Option.bind_eq_some_iff.1 hf
  split at hite
  · cases hite
  · next hmem =>
    obtain ⟨rfl, rfl⟩ := Prod.mk.inj (Option.some.inj hite)
    exact ⟨hx, hg, hmem⟩

/-- The directory after the cleanup that a listing at time `t` leads to. -/
def Disk.cleaned (env : Env) (t : ℕ) (active : List ℕ) (d : Disk) : Disk :=
  match firstDangling active (env.order t d.keys) with
  | none => d
  | some (name, _) => d.erase name

lemma wpc_cleanupOneDanglingSegment {Q : StorePost Unit} (hJ : J w.disk)
    (hQ : ∀ ram' w', ram'.core = ram.core →
      w'.disk = Disk.cleaned env w.clock ram.activeGenerations w.disk → Q (.ok ()) ram' w') :
    Wpc env A Z J Store.cleanupOneDanglingSegment Q ram w := by
  rw [Store.cleanupOneDanglingSegment, wpc_bind, wpc_tryCall_listFiles]
  simp only [andThen_ok]
  rw [wpc_bind, wpc_get, andThen_ok]
  cases hf : firstDangling ram.activeGenerations (env.order w.clock w.disk.keys) with
  | none => exact hQ _ _ rfl (by rw [Disk.cleaned, hf]; rfl)
  | some p =>
    obtain ⟨name, gen⟩ := p
    have hmem : name ∈ w.disk.keys :=
      (env.order_perm _ _).mem_iff.1 (firstDangling_eq_some hf).1
    obtain ⟨data, hd⟩ := Option.isSome_iff_exists.1 (AList.lookup_isSome.2 hmem)
    rw [wpc_bind, wpc_sizeOrZero, andThen_ok, wpc_bind]
    refine wpc_removeFile hJ ?_
    have hrm : handle env (.removeFile name) w.tick =
        (.ok (), w.tick.setDisk (w.disk.erase name)) := by
      simp only [handle, World.tick_disk, hd]
      exact if_neg fun h => by cases h.2
    rw [hrm]
    rw [andThen_ok, wpc_modify]
    refine hQ _ _ (core_dropSegment ..) ?_
    rw [Disk.cleaned, hf, World.setDisk_disk]

lemma core_trackTail {ram ram' : Ram} (h : ram.core = ram'.core) (affected : List ℕ) :
    (ram.trackTail affected).core = (ram'.trackTail affected).core := by
  obtain ⟨⟩ := ram
  obtain ⟨⟩ := ram'
  simp only [Ram.core, Ram.trackTail, Ram.mk.injEq] at h ⊢
  tauto

/-- What two objects with the same core have in common. -/
structure SameCore (ram ram' : Ram) : Prop where
  mounted : ram.mounted = ram'.mounted
  active : ram.activeGeneration = ram'.activeGeneration
  bytes : ram.activeSegmentBytes = ram'.activeSegmentBytes
  next : ram.nextGeneration = ram'.nextGeneration
  slot : ram.cachedWrittenSlot = ram'.cachedWrittenSlot
  epoch : ram.cachedWrittenEpoch = ram'.cachedWrittenEpoch
  gens : ram.activeGenerations = ram'.activeGenerations
  ranges : ram.manifestRanges = ram'.manifestRanges
  records : ram.records = ram'.records
  tracked : ram.activeTailDependenciesTracked = ram'.activeTailDependenciesTracked
  affected : ram.activeTailAffectedGenerations = ram'.activeTailAffectedGenerations
  sequence : ram.nextSequence = ram'.nextSequence

lemma SameCore.of_core {ram ram' : Ram} (h : ram.core = ram'.core) : SameCore ram ram' := by
  obtain ⟨⟩ := ram
  obtain ⟨⟩ := ram'
  simp only [Ram.core, Ram.mk.injEq] at h
  obtain ⟨h1, h2, h3, -, h4, -, h5, h6, -, h7, h8, h9, h10, h11, h12⟩ := h
  exact ⟨h1, h2, h3, h4, h5, h6, h7, h8, h9, h10, h11, h12⟩

lemma wpc_accountFiles {gens affected : List ℕ} {Q : StorePost Unit}
    (h : ∀ g ∈ gens, (w.disk.lookup (segmentName g)).isSome) (hJ : J w.disk)
    (hQ : ∀ ram' w', ram'.core = (ram.trackTail affected).core →
      w'.disk = Disk.cleaned env w.clock ram.activeGenerations w.disk → Q (.ok ()) ram' w') :
    Wpc env A Z J (Store.accountFiles gens affected) Q ram w := by
  rw [Store.accountFiles, wpc_bind, wpc_modify, andThen_ok, wpc_bind]
  refine wpc_accountSegments h ?_
  rw [andThen_ok, wpc_bind, wpc_accountSlot, andThen_ok, wpc_bind, wpc_accountSlot, andThen_ok,
    wpc_bind, wpc_modify, andThen_ok]
  generalize hX : (((Ram.accounted w.disk gens ram.clearFootprint).accountedSlot
    w.disk .a).accountedSlot w.disk .b) = X
  have hcore : X.core = ram.core := by
    rw [← hX, core_accountedSlot, core_accountedSlot, core_accounted]
    rfl
  have hgens : X.activeGenerations = ram.activeGenerations := (SameCore.of_core hcore).gens
  refine wpc_cleanupOneDanglingSegment hJ fun ram' w' hram hw => hQ ram' w' ?_ (hgens ▸ hw)
  rw [hram, core_trackTail hcore]

/-! ## Mount -/

/-- A directory that mounts with manifest `md`, the logs `seg` and `torn` after the last. -/
structure Mountable (cfg : AppendLogConfig) (d : Disk) (md : ManifestData)
    (seg : ℕ → List LogEvent) (torn : Bytes) : Prop where
  elected : Disk.elected d = some md
  span : md.totalGens ≤ kManifestMaxTotalGenerations
  ends : ∀ r ∈ md.ranges, r.endGen ≠ 2 ^ 32 - 1
  scannable : Scannable cfg d seg torn md.gens
  stop : (stopsAt cfg.maxRecordBytes torn).isSome
  names : NamesOk d

/-- The generations of the segment files, in order. -/
def listedGens (files : List FileName) : List ℕ :=
  (files.filterMap isSegmentName).insertionSort (· ≤ ·)

lemma mem_listedGens {files : List FileName} {g : ℕ} :
    g ∈ listedGens files ↔ ∃ name ∈ files, isSegmentName name = some g := by
  rw [listedGens, List.mem_insertionSort, List.mem_filterMap]

/-- What is known of an object after it has mounted: the manifest, the replayed logs, and that
nothing was written in this session. -/
structure MountedAs (files : List FileName) (md : ManifestData) (seg : ℕ → List LogEvent)
    (ram : Ram) : Prop where
  mounted : ram.mounted = true
  ranges : ram.manifestRanges = md.ranges
  gens : ram.activeGenerations = md.gens
  active : ram.activeGeneration = (md.gens.getLast?).getD 0
  bytes : ram.activeSegmentBytes = (md.gens.getLast?.map fun g => logBytes (seg g)).getD 0
  records : ram.records = (replayGens seg md.gens {}).records
  nextSequence : ram.nextSequence = (replayGens seg md.gens {}).nextSequence
  nextGeneration : ram.nextGeneration = advanceGeneration md.nextGeneration (listedGens files)
  cache : ram.cachedWrittenSlot = none
  tracked : ram.activeTailDependenciesTracked = true

lemma lookup_afterScan_isSome {d : Disk} {seg : ℕ → List LogEvent} {gens : List ℕ} {torn : Bytes}
    {name : FileName} (h : (d.lookup name).isSome) :
    ((Disk.afterScan env d seg gens torn).lookup name).isSome := by
  rw [Disk.afterScan]
  split
  · exact h
  · next g _ =>
    rw [Disk.recoverTail]
    split
    · exact h
    · rw [Disk.resize]
      by_cases hn : name = segmentName g
      · rw [hn, AList.lookup_insert]
        rfl
      · rwa [AList.lookup_insert_ne hn]

/-- Mounting a directory, with the segments that the tail's events reach into. -/
lemma wpc_mount_tracking {md : ManifestData} {seg : ℕ → List LogEvent} {torn : Bytes}
    {Q : StorePost Unit} (h : Mountable cfg w.disk md seg torn) (hJ : J w.disk)
    (hJ' : J (Disk.afterScan env w.disk seg md.gens torn))
    (hQ : ∀ ram' w', MountedAs (env.order w.clock w.disk.keys) md seg ram' →
      ram'.activeTailAffectedGenerations = (replayGens seg md.gens {}).tailAffectedGens →
      w'.disk = Disk.cleaned env (w.clock + 1) md.gens
        (Disk.afterScan env w.disk seg md.gens torn) → Q (.ok ()) ram' w') :
    Wpc env A Z J (Store.mount cfg) Q ram w := by
  rw [Store.mount, wpc_bind, wpc_call, wpc_tryCall_mount]
  simp only [andThen_ok]
  rw [wpc_bind, Store.scanSegments, wpc_bind, wpc_call, wpc_tryCall_listFiles]
  simp only [andThen_ok]
  have hlisted : (List.filterMap isSegmentName (env.order w.clock w.disk.keys)).insertionSort
      (· ≤ ·) = listedGens (env.order w.clock w.disk.keys) := rfl
  rw [hlisted, wpc_bind, wpc_modify, andThen_ok, wpc_bind, Store.adoptManifest, wpc_bind,
    wpc_readManifest, andThen_ok, World.tick_disk, h.elected]
  simp only
  rw [if_neg (not_lt.2 h.span)]
  refine wpc_applyManifestToRam (fun r hr hends => h.ends r hr hends.2) ?_
  rw [andThen_ok, wpc_bind, wpc_modify, andThen_ok, wpc_bind, wpc_get, andThen_ok, wpc_bind]
  refine wpc_scanActive (w := w.tick) h.scannable h.stop hJ ?_
  rw [andThen_ok]
  refine wpc_accountFiles (fun g hg => ?_) hJ' fun ram' w' hcore hw => ?_
  · obtain ⟨name, hname, hseg⟩ := mem_listedGens.1 hg
    exact lookup_afterScan_isSome
      (h.names name ((env.order_perm _ _).mem_iff.1 hname) g hseg)
  · rw [andThen_ok, wpc_modify]
    have hs := SameCore.of_core hcore
    exact hQ _ _ ⟨rfl, hs.ranges, hs.gens, hs.active, hs.bytes, hs.records, hs.sequence, hs.next,
      hs.slot, hs.tracked⟩ hs.affected hw

/-- Mounting a directory without segment files and without a readable manifest changes nothing
and yields no record; the ranges stay what they were. -/
lemma wpc_mount_empty {Q : StorePost Unit} (helect : Disk.elected w.disk = none)
    (hnames : ∀ name ∈ w.disk.keys, isSegmentName name = none) (hJ : J w.disk)
    (hQ : ∀ ram' w', ram'.mounted = true →
      { ram' with mounted := ram.mounted }.core = (ram.reset.trackTail []).core →
      w'.disk = w.disk → Q (.ok ()) ram' w') :
    Wpc env A Z J (Store.mount cfg) Q ram w := by
  have hlisted : ∀ t, (env.order t w.disk.keys).filterMap isSegmentName = [] := fun t =>
    List.filterMap_eq_nil_iff.2 fun name hname => hnames name ((env.order_perm _ _).mem_iff.1 hname)
  have hdang : ∀ t, Disk.cleaned env t [] w.disk = w.disk := fun t => by
    rw [Disk.cleaned, firstDangling, List.findSome?_eq_none_iff.2]
    intro name hname
    rw [hnames name ((env.order_perm _ _).mem_iff.1 hname)]
    rfl
  rw [Store.mount, wpc_bind, wpc_call, wpc_tryCall_mount]
  simp only [andThen_ok]
  rw [wpc_bind, Store.scanSegments, wpc_bind, wpc_call, wpc_tryCall_listFiles]
  simp only [andThen_ok, hlisted, List.insertionSort_nil]
  rw [wpc_bind, wpc_modify, andThen_ok, wpc_bind, Store.adoptManifest, wpc_bind, wpc_readManifest,
    andThen_ok, World.tick_disk, helect]
  simp only [ne_eq, not_true_eq_false, if_false, wpc_pure]
  rw [andThen_ok, wpc_bind, wpc_modify, andThen_ok, wpc_bind, wpc_get, andThen_ok, wpc_bind]
  have hscan : Scannable cfg w.tick.disk (fun _ => []) [] [] := trivial
  refine wpc_scanActive hscan rfl hJ ?_
  rw [andThen_ok]
  refine wpc_accountFiles (fun g hg => absurd hg List.not_mem_nil) hJ fun ram' w' hcore hw => ?_
  rw [andThen_ok, wpc_modify]
  refine hQ _ _ rfl ?_ (hw.trans (hdang _))
  have hm : ram'.mounted = ram.mounted := (SameCore.of_core hcore).mounted
  rw [← hm]
  exact hcore

end Rules

end Pqueue
