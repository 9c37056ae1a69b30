import Pqueue.Store.Footprint
import Pqueue.Store.Mounting
import Pqueue.Store.Runs

/-!
# What a mount counts

A mount asks for the size of each segment file under the name made from the generation that the
listed name was read as, and for the sizes of the two slots.  Where every segment file has the name
the store gives it, the counters it starts with are the sizes of the files (`Counts`).  In any
directory the files are at least as large as the counters say (`Sized`).
-/

namespace Pqueue

open Effect LittleEndian

/-- The counters are the sizes of the files. -/
structure Counts (ram : Ram) (d : Disk) : Prop where
  segments : ∀ g < 2 ^ 32,
    ram.sealedSegmentBytes g = (d.lookup (segmentName g)).map fun data => u32 data.length
  slots : ∀ s, ram.manifestSlotBytes s = u32 (Disk.size d s.fileName)
  total : ram.totalOnDiskBytes = u32 (Disk.footprint d)

/-- The tail, if it is there, and the slots are at least as large as the object takes them to be,
and no segment that is still to be written has the name of the tail. -/
structure Sized (ram : Ram) (d : Disk) : Prop where
  tail : ∀ data, d.lookup (segmentName ram.activeGeneration) = some data →
    ram.activeSegmentBytes ≤ data.length
  slots : ∀ s, ram.manifestSlotBytes s ≤ Disk.size d s.fileName
  active_lt : ram.activeGeneration < 2 ^ 32
  /-- `advanceGeneration` does not pass the last generation. -/
  next : ram.activeSegmentBytes ≠ 0 →
    ram.activeGeneration < ram.nextGeneration ∨ ram.activeGeneration + 1 = 2 ^ 32

/-! ## Calls that do not fail -/

section Rules

variable {env : Env} {cfg : AppendLogConfig} {A : StoreMark → Disk → Prop} {ram ram' : Ram}
  {d d' : Disk} {gens : List ℕ}

/-- A call that only reads. -/
lemma wp_read {c : FsCall} {Q : DiskPost Ram (Except Status c.Val)} (hc : c.mutates = false)
    (h : ∀ w : World, w.disk = d → Q (.ok (handle env c w).1) ram d) :
    Wp env noHarm A (fun _ => True) (Store.tryCall c) Q ram d := by
  apply wp_tryCall trivial
  · intro w hw
    rw [handle_disk hc, hw]
    exact h w hw
  · intro st d' hharm
    exact hharm.elim

/-- A call that only reads and whose failure ends the method. -/
lemma wp_ask {c : FsCall} {Q : DiskPost Ram c.Val} (hc : c.mutates = false)
    (hok : ∀ w : World, w.disk = d → ∀ v, (handle env c w).1 = .ok v → Q (.ok v) ram d)
    (hfail : ∀ e, Q (.error e) ram d) :
    Wp env noHarm A (fun _ => True) (Store.call c) Q ram d := by
  apply wp_call trivial
  · intro w hw v hv
    rw [handle_disk hc, hw]
    exact hok w hw v hv
  · intro w hw e _
    rw [handle_disk hc, hw]
    exact hfail e
  · intro st d' hharm
    exact hharm.elim

lemma lookup_of_fileSize {name : FileName} {w : World} {n : ℕ}
    (h : (handle env (.fileSize name) w).1 = .ok n) :
    (w.disk.lookup name).isSome = true ∧ n = Disk.size w.disk name := by
  simp only [handle, Disk.size] at h ⊢
  cases hl : w.disk.lookup name with
  | none => simp [hl] at h
  | some data =>
    rw [hl] at h
    exact ⟨rfl, (Except.ok.inj h).symm⟩

/-! ## Scanning -/

/-- What scanning segments leaves alone, and the length of the tail. -/
structure Scanned (gens : List ℕ) (ram : Ram) (d : Disk) (ram' : Ram) (d' : Disk) : Prop where
  sealed : ram'.sealedSegmentBytes = ram.sealedSegmentBytes
  slotBytes : ram'.manifestSlotBytes = ram.manifestSlotBytes
  ranges : ram'.manifestRanges = ram.manifestRanges
  active : ram'.activeGenerations = ram.activeGenerations
  next : ram'.nextGeneration = ram.nextGeneration
  sequence : ram.nextSequence < 2 ^ 32 → ram'.nextSequence < 2 ^ 32
  names : ∀ name, (d'.lookup name).isSome = (d.lookup name).isSome
  slots : ∀ s : Slot, d'.lookup s.fileName = d.lookup s.fileName
  none : gens = [] → ram' = ram ∧ d' = d
  tail : ∀ g, gens.getLast? = some g → ram'.activeGeneration = g ∧
    ∃ data, d'.lookup (segmentName g) = some data ∧ ram'.activeSegmentBytes ≤ data.length

lemma wp_readSegment {name : FileName} :
    Wp env noHarm A (fun _ => True) (Store.readSegment name) (fun r ram' d' => ram' = ram ∧ d' = d ∧
      ∀ data, r = .ok data → d.lookup name = some data ∧
        kSegmentHeaderBytes ≤ data.length ∧ data.length ≤ kMaxReplaySegmentReadBytes) ram d := by
  have hfail : ∀ {ram : Ram} {d : Disk} {code : StatusCode} {message : String},
      Wp env noHarm A (fun _ => True) (Store.failure code message) (fun r ram' d' => ram' = ram ∧
        d' = d ∧ ∀ data, r = .ok data → d.lookup name = some data ∧
          kSegmentHeaderBytes ≤ data.length ∧ data.length ≤ kMaxReplaySegmentReadBytes) ram d :=
    wp_fail ⟨rfl, rfl, by simp⟩
  unfold Store.readSegment
  apply wp_bind (Q := fun r ram' d' => ram' = ram ∧ d' = d ∧ ∃ a, r = .ok a) (wp_read rfl ?_)
  · rintro (e | sz) ram' d' ⟨rfl, rfl, -⟩
    · exact hfail
    · dsimp only
      split
      · exact hfail
      · next hsize =>
        apply wp_bind (Q := fun r ram'' d'' => ram'' = ram' ∧ d'' = d' ∧ ∃ a, r = .ok a ∧
          ∀ data, a = .ok data → d'.lookup name = some data) (wp_read rfl ?_)
        · rintro (e | data) ram'' d'' ⟨rfl, rfl, a, ha, hdata⟩
          · exact hfail
          · obtain rfl := Except.ok.inj ha
            dsimp only
            split
            · exact hfail
            · next hlen =>
              refine wp_pure ⟨rfl, rfl, fun data' h => ?_⟩
              obtain rfl := Except.ok.inj h
              rw [not_or, not_lt, not_lt] at hsize
              rw [ne_eq, not_not] at hlen
              exact ⟨hdata _ rfl, hlen ▸ hsize⟩
        · rintro e ram'' d'' ⟨-, -, a, ha, -⟩
          simp at ha
        · rintro w rfl
          refine ⟨rfl, rfl, _, rfl, fun data hdata => ?_⟩
          simp only [handle] at hdata
          cases hl : w.disk.lookup name with
          | none => simp [hl] at hdata
          | some data' =>
            rw [hl] at hdata
            exact congrArg some (Except.ok.inj hdata)
  · rintro e ram' d' ⟨-, -, a, ha⟩
    simp at ha
  · rintro w -
    exact ⟨rfl, rfl, _, rfl⟩

/-- The scan stops within the file. -/
lemma scanEvents_offset_le {m : ℕ} {last : Bool} {gen : ℕ} {bytes : Bytes}
    (hlen : bytes.length < 2 ^ 32) (offset : ℕ) (st : Replay) :
    (scanEvents m last gen bytes.length offset bytes st).offset ≤ offset + bytes.length := by
  obtain ⟨evs, rest, corrupt, rfl, hfits, hstop⟩ := exists_log m bytes hlen
  rw [scanEvents_log hfits hstop le_rfl, List.length_append]
  dsimp only
  omega

lemma bumpSequence_lt {nextSequence : ℕ} (h : nextSequence < 2 ^ 32) (sequence : ℕ) :
    bumpSequence nextSequence sequence < 2 ^ 32 := by
  unfold bumpSequence
  split
  · exact u32_lt _
  · exact h

/-- The next sequence stays a word. -/
lemma scanEvents_nextSequence_lt {m : ℕ} {last : Bool} {gen : ℕ} (fuel offset : ℕ) (bytes : Bytes)
    {st : Replay} (h : st.nextSequence < 2 ^ 32) :
    (scanEvents m last gen fuel offset bytes st).replay.nextSequence < 2 ^ 32 := by
  induction fuel generalizing offset bytes st with
  | zero => exact h
  | succ fuel ih =>
    unfold scanEvents
    split
    · exact h
    split
    · exact h
    · exact h
    · exact h
    · apply ih
      unfold Replay.payloadEvent
      split
      · exact bumpSequence_lt h _
      · exact bumpSequence_lt h _
    · apply ih
      unfold Replay.popEvent
      split
      · split
        · exact bumpSequence_lt h _
        · exact bumpSequence_lt h _
      · exact bumpSequence_lt h _

lemma length_resized (b : StorageBackend) (old : Bytes) {size : ℕ} (h : size < old.length) :
    (b.resized old size).length = size := by
  cases b with
  | posix => simp [StorageBackend.resized, truncated]; omega
  | littleFS => simp [StorageBackend.resized, refilled, h]

lemma wp_resizeFile {name : FileName} {size : ℕ} {Q : DiskPost Ram Unit}
    (hQ : Q (.ok ()) ram (d.insert name (env.backend.resized ((d.lookup name).getD []) size))) :
    Wp env noHarm A (fun _ => True) (Store.ignore (.resizeFile name size)) Q ram d := by
  apply wp_bind (Q := fun r ram' d' => r = .ok (.ok ()) ∧ ram' = ram ∧
    d' = d.insert name (env.backend.resized ((d.lookup name).getD []) size))
  · apply wp_tryCall trivial
    · rintro w rfl
      exact ⟨rfl, rfl, rfl⟩
    · intro st d' hharm
      exact hharm.elim
  · rintro a ram' d' ⟨-, rfl, rfl⟩
    exact wp_pure hQ
  · rintro e ram' d' ⟨h, -⟩
    exact nomatch h

lemma wp_checkHeader {gen : ℕ} {segBuf : Bytes} :
    Wp env noHarm A (fun _ => True) (Store.checkHeader gen segBuf)
      (fun _ ram' d' => ram' = ram ∧ d' = d) ram d := by
  unfold Store.checkHeader
  cases parseSegmentHeader (segBuf.take kSegmentHeaderBytes) with
  | error version =>
    dsimp only
    split
    · exact wp_fail ⟨rfl, rfl⟩
    · exact wp_fail ⟨rfl, rfl⟩
  | ok header =>
    dsimp only
    split
    · exact wp_fail ⟨rfl, rfl⟩
    · exact wp_pure ⟨rfl, rfl⟩

/-- **One segment** is scanned. -/
lemma wp_scanSegment {last : Bool} {gen : ℕ} {affected : List ℕ} :
    Wp env noHarm A (fun _ => True) (Store.scanSegment cfg last gen affected)
      (fun r ram' d' => ∀ affected', r = .ok affected' → Scanned [gen] ram d ram' d') ram d := by
  have hfail : ∀ {ram₁ : Ram} {d₁ : Disk} {code : StatusCode} {message : String},
      Wp env noHarm A (fun _ => True) (Store.failure code message) (fun r ram' d' =>
        ∀ affected' : List ℕ, r = .ok affected' → Scanned [gen] ram d ram' d') ram₁ d₁ :=
    wp_fail (by simp)
  unfold Store.scanSegment
  apply wp_bind wp_readSegment
  swap
  · simp
  rintro segBuf ram₁ d₁ ⟨rfl, rfl, hread⟩
  obtain ⟨hfile, hheader, hguard⟩ := hread segBuf rfl
  apply wp_bind wp_checkHeader
  swap
  · simp
  rintro _ ram₁ d₁ ⟨rfl, rfl⟩
  apply wp_get_bind
  apply wp_modify_bind
  have hbody : (segBuf.drop kSegmentHeaderBytes).length < 2 ^ 32 := by
    rw [List.length_drop]
    exact Nat.lt_of_le_of_lt (Nat.sub_le ..) (Nat.lt_of_le_of_lt hguard (by decide))
  have hoffset := @scanEvents_offset_le cfg.maxRecordBytes last gen _ hbody kSegmentHeaderBytes
    ⟨ram₁.records, ram₁.nextSequence, affected⟩
  have hsequence := @scanEvents_nextSequence_lt cfg.maxRecordBytes last gen
    (segBuf.drop kSegmentHeaderBytes).length kSegmentHeaderBytes (segBuf.drop kSegmentHeaderBytes)
    ⟨ram₁.records, ram₁.nextSequence, affected⟩
  generalize scanEvents cfg.maxRecordBytes last gen _ _ _ _ = scan at hoffset hsequence ⊢
  split
  · exact hfail
  split
  · exact hfail
  apply wp_bind (Q := fun r ram' d' => r = .ok () ∧ ram' = ram₁.replayed gen scan.replay ∧
    SameExcept (segmentName gen) d₁ d' ∧
      ∃ data, d'.lookup (segmentName gen) = some data ∧ scan.offset ≤ data.length)
  · apply wp_when
    · intro hcut
      apply wp_resizeFile
      refine ⟨rfl, rfl, sameExcept_insert _ _ _, _, AList.lookup_insert _, ?_⟩
      rw [hfile, Option.getD_some, length_resized _ _ hcut]
    · intro hfull
      refine ⟨rfl, rfl, fun _ _ => rfl, segBuf, hfile, ?_⟩
      rw [List.length_drop] at hoffset
      omega
  · rintro _ ram' d' ⟨-, rfl, hsame, data, hdata, hle⟩
    apply wp_modify_bind
    refine wp_pure fun affected' _ =>
      ⟨rfl, rfl, rfl, rfl, rfl, hsequence, fun name => ?_, fun s => ?_, ?_, ?_⟩
    · by_cases hname : name = segmentName gen
      · rw [hname, hdata, hfile]
        rfl
      · rw [hsame name hname]
    · exact hsame _ (segmentName_ne_slot gen s).symm
    · simp
    · intro g hg
      obtain rfl : gen = g := by simpa using hg
      exact ⟨rfl, data, hdata, hle⟩
  · rintro e ram' d' ⟨h, -⟩
    simp at h

/-- **All segments.** -/
lemma wp_scanActive {affected : List ℕ} :
    Wp env noHarm A (fun _ => True) (Store.scanActive cfg gens affected)
      (fun r ram' d' => ∀ affected', r = .ok affected' → Scanned gens ram d ram' d') ram d := by
  induction gens generalizing ram d affected with
  | nil =>
    refine wp_pure fun _ _ => ⟨rfl, rfl, rfl, rfl, rfl, id, fun _ => rfl, fun _ => rfl, ?_, by simp⟩
    exact fun _ => ⟨rfl, rfl⟩
  | cons g gs ih =>
    rw [Store.scanActive]
    apply wp_bind wp_scanSegment
    · intro affected' ram₁ d₁ h₁
      have h₁ := h₁ affected' rfl
      apply ih.mono
      intro r ram₂ d₂ h₂ affected'' hr
      have h₂ := h₂ affected'' hr
      refine ⟨h₂.sealed.trans h₁.sealed, h₂.slotBytes.trans h₁.slotBytes,
        h₂.ranges.trans h₁.ranges, h₂.active.trans h₁.active, h₂.next.trans h₁.next,
        fun hlt => h₂.sequence (h₁.sequence hlt), fun name => (h₂.names name).trans (h₁.names name),
        fun s => (h₂.slots s).trans (h₁.slots s), by simp, fun g' hg' => ?_⟩
      cases gs with
      | nil =>
        obtain ⟨rfl, rfl⟩ := h₂.none rfl
        exact h₁.tail g' hg'
      | cons g₂ gs => exact h₂.tail g' (by rwa [List.getLast?_cons_cons] at hg')
    · simp

/-! ## Counting -/

lemma wp_accountSegments :
    Wp env noHarm A (fun _ => True) (Store.accountSegments gens)
      (fun r ram' d' => d' = d ∧ (r = .ok () → ram' = ram.accounted d gens)) ram d := by
  induction gens generalizing ram with
  | nil => exact wp_pure ⟨rfl, fun _ => rfl⟩
  | cons g gs ih =>
    rw [Store.accountSegments, Act.forEach, ← Store.accountSegments]
    apply wp_bind (Q := fun r ram' d' => d' = d ∧
      (r = .ok () → ram' = ram.addSegment g (Disk.size d (segmentName g))))
    · apply wp_bind (Q := fun r ram' d' => ram' = ram ∧ d' = d ∧
        ∀ n, r = .ok n → n = Disk.size d (segmentName g))
      · apply wp_ask rfl
        · rintro w rfl n hn
          refine ⟨rfl, rfl, fun n' h => ?_⟩
          obtain rfl := Except.ok.inj h
          exact (lookup_of_fileSize hn).2
        · intro e
          exact ⟨rfl, rfl, by simp⟩
      · rintro n ram' d' ⟨rfl, rfl, hn⟩
        obtain rfl := hn n rfl
        exact wp_modify ⟨rfl, fun _ => rfl⟩
      · rintro e ram' d' ⟨-, rfl, -⟩
        exact ⟨rfl, by simp⟩
    · rintro _ ram' d' ⟨rfl, hram⟩
      obtain rfl := hram rfl
      exact ih
    · rintro e ram' d' ⟨rfl, -⟩
      exact ⟨rfl, by simp⟩

lemma wp_accountSlot {s : Slot} :
    Wp env noHarm A (fun _ => True) (Store.accountSlot s)
      (fun r ram' d' => r = .ok () ∧ ram' = ram.accountedSlot d s ∧ d' = d) ram d := by
  apply wp_bind (Q := fun r ram' d' => ram' = ram ∧ d' = d ∧
    ∃ w : World, w.disk = d ∧ r = .ok (handle env (.fileSize s.fileName) w).1)
  · exact wp_read rfl fun w hw => ⟨rfl, rfl, w, hw, rfl⟩
  · rintro a ram' d' ⟨rfl, rfl, w, rfl, ha⟩
    obtain rfl := Except.ok.inj ha
    simp only [handle, Ram.accountedSlot]
    cases w.disk.lookup s.fileName with
    | none => exact wp_pure ⟨rfl, rfl, rfl⟩
    | some data => exact wp_modify ⟨rfl, rfl, rfl⟩
  · rintro e ram' d' ⟨-, -, w, -, h⟩
    simp at h

/-- Nothing is removed, or a segment that is not active, by the name it was listed under. -/
def Cleaned (ram : Ram) (d : Disk) (ram' : Ram) (d' : Disk) : Prop :=
  ram' = ram ∧ d' = d ∨ ∃ name ∈ d.keys, ∃ g, isSegmentName name = some g ∧
    g ∉ ram.activeGenerations ∧ ram' = ram.dropSegment g (Disk.size d name) ∧ d' = d.erase name

lemma wp_cleanupOneDanglingSegment :
    Wp env noHarm A (fun _ => True) Store.cleanupOneDanglingSegment
      (fun r ram' d' => r = .ok () ∧ Cleaned ram d ram' d') ram d := by
  apply wp_bind (Q := fun r ram' d' => ram' = ram ∧ d' = d ∧
    ∃ files, r = .ok (.ok files) ∧ files.Perm d.keys)
  · exact wp_read rfl fun w hw => ⟨rfl, rfl, _, rfl, hw ▸ env.order_perm ..⟩
  swap
  · rintro e ram' d' ⟨-, -, files, h, -⟩
    exact nomatch h
  rintro _ ram' d' ⟨rfl, rfl, files, hfiles, hperm⟩
  obtain rfl := Except.ok.inj hfiles
  apply wp_get_bind
  cases hf : firstDangling ram'.activeGenerations files with
  | none => exact wp_pure ⟨rfl, .inl ⟨rfl, rfl⟩⟩
  | some p =>
    obtain ⟨name, g⟩ := p
    obtain ⟨hmem, hseg, hg⟩ := firstDangling_eq_some hf
    refine (reads_sizeOrZero name damaging_noHarm trivial).bind fun n hn => ?_
    obtain rfl := hn.resolve_right fun h => h.2 fun _ _ h => h
    apply wp_bind (Q := fun r ram'' d'' => ram'' = ram' ∧
      (r = .ok (.ok ()) ∧ d'' = d'.erase name ∨ (∃ st, r = .ok (.error st)) ∧ d'' = d'))
    · apply wp_removeFile trivial
      · exact ⟨rfl, .inl ⟨rfl, rfl⟩⟩
      · exact fun st _ => ⟨rfl, .inr ⟨⟨st, rfl⟩, rfl⟩⟩
      · intro st d'' hharm
        exact hharm.elim
    · rintro a ram'' d'' ⟨rfl, ⟨ha, rfl⟩ | ⟨⟨st, ha⟩, rfl⟩⟩
      · obtain rfl := Except.ok.inj ha
        exact wp_modify ⟨rfl, .inr ⟨name, hperm.mem_iff.1 hmem, g, hseg, hg, rfl, rfl⟩⟩
      · obtain rfl := Except.ok.inj ha
        exact wp_pure ⟨rfl, .inl ⟨rfl, rfl⟩⟩
    · rintro e ram'' d'' ⟨-, ⟨h, -⟩ | ⟨⟨st, h⟩, -⟩⟩
      · exact nomatch h
      · exact nomatch h

/-- **All files** are counted, and one is removed. -/
lemma wp_accountFiles {affected : List ℕ} :
    Wp env noHarm A (fun _ => True) (Store.accountFiles gens affected)
      (fun r ram' d' => r = .ok () →
      Cleaned ((((ram.clearFootprint.accounted d gens).accountedSlot d .a).accountedSlot
        d .b).trackTail affected) d ram' d') ram d := by
  apply wp_modify_bind
  apply wp_bind wp_accountSegments
  swap
  · rintro e ram' d' - h
    exact nomatch h
  rintro _ ram' d' ⟨rfl, hram⟩
  obtain rfl := hram rfl
  apply wp_bind wp_accountSlot
  swap
  · rintro e ram' d' - h
    exact nomatch h
  rintro _ ram' d' ⟨-, rfl, rfl⟩
  apply wp_bind wp_accountSlot
  swap
  · rintro e ram' d' - h
    exact nomatch h
  rintro _ ram' d' ⟨-, rfl, rfl⟩
  apply wp_modify_bind
  exact wp_cleanupOneDanglingSegment.mono fun r ram'' d'' h _ => h.2

end Rules

/-! ## The counters -/

section Counters

variable {ram ram' : Ram} {d d' : Disk} {gens : List ℕ} {g : ℕ} {s : Slot}

lemma sealed_accounted (d : Disk) (gens : List ℕ) (ram : Ram) (g : ℕ) :
    (ram.accounted d gens).sealedSegmentBytes g =
      if g ∈ gens then some (u32 (Disk.size d (segmentName g))) else ram.sealedSegmentBytes g := by
  induction gens generalizing ram with
  | nil => rfl
  | cons g' gs ih =>
    rw [Ram.accounted, List.foldl_cons, ← Ram.accounted, ih]
    by_cases hmem : g ∈ gs
    · simp [hmem]
    · by_cases hg : g = g'
      · subst hg
        simp [hmem, Ram.addSegment]
      · simp [hmem, hg, Ram.addSegment]

@[simp] lemma slotBytes_accounted (d : Disk) (gens : List ℕ) (ram : Ram) :
    (ram.accounted d gens).manifestSlotBytes = ram.manifestSlotBytes := by
  induction gens generalizing ram with
  | nil => rfl
  | cons g' gs ih => exact ih _

lemma u32_add_u32 (n m : ℕ) : u32 (u32 n + u32 m) = u32 (n + m) := (Nat.add_mod ..).symm

lemma total_accounted (d : Disk) (gens : List ℕ) {t : ℕ} (h : ram.totalOnDiskBytes = u32 t) :
    (ram.accounted d gens).totalOnDiskBytes =
      u32 (t + (gens.map fun g => Disk.size d (segmentName g)).sum) := by
  induction gens generalizing ram t with
  | nil => simpa [Ram.accounted] using h
  | cons g gs ih =>
    have hadd : (ram.addSegment g (Disk.size d (segmentName g))).totalOnDiskBytes =
        u32 (t + Disk.size d (segmentName g)) := by
      rw [← u32_add_u32, ← h]
      rfl
    rw [Ram.accounted, List.foldl_cons, ← Ram.accounted, ih hadd, List.map_cons, List.sum_cons,
      Nat.add_assoc]

lemma total_accountedSlot (s : Slot) {t : ℕ} (h : ram.totalOnDiskBytes = u32 t) :
    (ram.accountedSlot d s).totalOnDiskBytes = u32 (t + Disk.size d s.fileName) := by
  unfold Ram.accountedSlot Disk.size
  cases d.lookup s.fileName with
  | none => exact h
  | some data =>
    rw [Option.getD_some, ← u32_add_u32, ← h]
    rfl

@[simp] lemma sealed_accountedSlot (d : Disk) (s : Slot) (ram : Ram) :
    (ram.accountedSlot d s).sealedSegmentBytes = ram.sealedSegmentBytes := by
  unfold Ram.accountedSlot
  cases d.lookup s.fileName <;> rfl

lemma slotBytes_accountedSlot_of_ne {s s' : Slot} (h : s' ≠ s) :
    (ram.accountedSlot d s).manifestSlotBytes s' = ram.manifestSlotBytes s' := by
  unfold Ram.accountedSlot
  cases d.lookup s.fileName with
  | none => rfl
  | some data => exact Function.update_of_ne h ..

lemma slotBytes_accountedSlot (h : ram.manifestSlotBytes s = 0) :
    (ram.accountedSlot d s).manifestSlotBytes s = u32 (Disk.size d s.fileName) := by
  unfold Ram.accountedSlot Disk.size
  cases d.lookup s.fileName with
  | none => exact h
  | some data => exact Function.update_self ..

/-- Both slots are counted. -/
lemma slotBytes_accounted_slots (h : ∀ s, ram.manifestSlotBytes s = 0) (s : Slot) :
    ((ram.accountedSlot d .a).accountedSlot d .b).manifestSlotBytes s =
      u32 (Disk.size d s.fileName) := by
  cases s with
  | a =>
    rw [slotBytes_accountedSlot_of_ne (by decide)]
    exact slotBytes_accountedSlot (h .a)
  | b =>
    apply slotBytes_accountedSlot
    rw [slotBytes_accountedSlot_of_ne (by decide)]
    exact h .b

/-- The footprint is the slots and the segments. -/
lemma footprint_eq (d : Disk) : Disk.footprint d =
    Disk.total (fun n => (isSegmentName n).isSome) d +
      Disk.size d (Slot.fileName .a) + Disk.size d (Slot.fileName .b) := by
  have hb : (isStoreFile (Slot.fileName .b) &&
      decide (Slot.fileName .b ≠ Slot.fileName .a)) = true := by
    decide
  have hrest : (fun n => (isStoreFile n && decide (n ≠ Slot.fileName .a)) &&
      decide (n ≠ Slot.fileName .b)) = fun n => (isSegmentName n).isSome := by
    funext n
    unfold isStoreFile
    by_cases ha : n = Slot.fileName .a
    · simp [ha]
    · by_cases hb : n = Slot.fileName .b
      · simp [hb]
      · simp [ha, hb]
  rw [Disk.footprint, Disk.total_eq (isStoreFile_slot .a), Disk.total_eq hb, hrest]
  omega

/-- Where the names are those the store gives, the listed generations name the segment files. -/
lemma map_segmentName_filterMap {names : List FileName}
    (h : ∀ name ∈ names, ∀ g, isSegmentName name = some g → name = segmentName g) :
    (names.filterMap isSegmentName).map segmentName =
      names.filter fun n => (isSegmentName n).isSome := by
  induction names with
  | nil => rfl
  | cons name names ih =>
    have hrest := ih fun n hn => h n (List.mem_cons_of_mem _ hn)
    cases hseg : isSegmentName name with
    | none => simp [hseg, hrest]
    | some g =>
      have hname := h name (List.mem_cons_self ..) g hseg
      simp only [List.filterMap_cons, hseg, List.map_cons, hrest, ← hname, Option.isSome_some,
        List.filter_cons_of_pos]

lemma sum_listedGens (hc : Canonical d) {files : List FileName} (hperm : files.Perm d.keys) :
    ((listedGens files).map fun g => Disk.size d (segmentName g)).sum =
      Disk.total (fun n => (isSegmentName n).isSome) d := by
  have hnames : ∀ name ∈ files, ∀ g, isSegmentName name = some g → name = segmentName g :=
    fun name hname => hc name (hperm.mem_iff.1 hname)
  have hlisted : (listedGens files).Perm (files.filterMap isSegmentName) :=
    List.perm_insertionSort ..
  calc ((listedGens files).map fun g => Disk.size d (segmentName g)).sum
      = ((files.filterMap isSegmentName).map fun g => Disk.size d (segmentName g)).sum :=
        (hlisted.map _).sum_eq
    _ = (((files.filterMap isSegmentName).map segmentName).map (Disk.size d)).sum := by
        rw [List.map_map]
        rfl
    _ = ((files.filter fun n => (isSegmentName n).isSome).map (Disk.size d)).sum := by
        rw [map_segmentName_filterMap hnames]
    _ = Disk.total (fun n => (isSegmentName n).isSome) d := ((hperm.filter _).map _).sum_eq

/-- **The counters of a directory** with the names the store gives. -/
lemma counts_accounted (hc : Canonical d) {files : List FileName} (hperm : files.Perm d.keys)
    (hsealed : ∀ g, ram.sealedSegmentBytes g = none) (hslots : ∀ s, ram.manifestSlotBytes s = 0) :
    Counts (((ram.clearFootprint.accounted d (listedGens files)).accountedSlot d .a).accountedSlot
      d .b) d where
  segments g hg := by
    rw [sealed_accountedSlot, sealed_accountedSlot, sealed_accounted]
    by_cases hmem : g ∈ listedGens files
    · obtain ⟨name, hname, hseg⟩ := mem_listedGens.1 hmem
      have hkey := hperm.mem_iff.1 hname
      obtain rfl := hc name hkey g hseg
      obtain ⟨data, hdata⟩ := Option.isSome_iff_exists.1 (AList.lookup_isSome.2 hkey)
      rw [if_pos hmem, hdata, Option.map_some, Disk.size_of_lookup hdata]
    · have hnone : d.lookup (segmentName g) = none := by
        rw [AList.lookup_eq_none]
        intro hkey
        exact hmem (mem_listedGens.2 ⟨_, hperm.mem_iff.2 hkey, isSegmentName_segmentName hg⟩)
      rw [if_neg hmem, hnone]
      exact hsealed g
  slots s := by
    apply slotBytes_accounted_slots
    intro s
    rw [slotBytes_accounted]
    exact hslots s
  total := by
    have h0 : ram.clearFootprint.totalOnDiskBytes = u32 0 := rfl
    rw [total_accountedSlot .b (total_accountedSlot .a (total_accounted d _ h0)),
      sum_listedGens hc hperm, footprint_eq, Nat.zero_add]

/-- Removing one file of a canonical directory. -/
lemma Counts.cleaned (h : Counts ram d) (hc : Canonical d) (hclean : Cleaned ram d ram' d') :
    Counts ram' d' ∧ Canonical d' := by
  rcases hclean with ⟨rfl, rfl⟩ | ⟨name, hmem, g, hseg, -, rfl, rfl⟩
  · exact ⟨h, hc⟩
  obtain rfl := hc name hmem g hseg
  refine ⟨⟨fun g' hg' => ?_, fun s => ?_, ?_⟩, hc.erase⟩
  · by_cases hg : g' = g
    · subst hg
      simp [Ram.dropSegment]
    · have hne : segmentName g' ≠ segmentName g := by
        intro he
        rw [← he, isSegmentName_segmentName hg'] at hseg
        exact hg (Option.some.inj hseg)
      rw [AList.lookup_erase_ne hne, ← h.segments g' hg']
      exact Function.update_of_ne hg ..
  · rw [Disk.size_congr (AList.lookup_erase_ne (segmentName_ne_slot g s).symm)]
    exact h.slots s
  · have hstore : isStoreFile (segmentName g) = true := by
      rw [isStoreFile, hseg]
      rfl
    have hchange := Disk.total_change hstore (sameExcept_erase d (segmentName g))
    rw [Disk.size_erase, Nat.add_zero] at hchange
    calc (ram.dropSegment g (Disk.size d (segmentName g))).totalOnDiskBytes
        = subU32 (u32 (Disk.footprint d)) (u32 (Disk.size d (segmentName g))) := by
          rw [← h.total]
          rfl
      _ = u32 (Disk.footprint (d.erase (segmentName g))) := subU32_eq hchange

end Counters

section Rules

variable {env : Env} {cfg : AppendLogConfig} {A : StoreMark → Disk → Prop} {ram ram' : Ram}
  {d d' : Disk} {gens : List ℕ}

/-! ## Mounting -/

/-- What the elected manifest leaves of the object. -/
lemma wp_adoptManifest :
    Wp env noHarm A (fun _ => True) (Store.adoptManifest gens) (fun r ram' d' => r = .ok () →
      d' = d ∧ (ram' = ram ∨ ∃ md, md.Valid ∧ ram' = ram.applyManifest md (rangeGens md.ranges)))
      ram d := by
  unfold Store.adoptManifest
  have hslot : ∀ {s : Slot} {md : Option ManifestData}, SlotRead noHarm d s md →
      md = Disk.manifest d s :=
        fun h => h.resolve_right fun h => h.2 ⟨fun _ _ h => h, fun _ _ h => h⟩
  have hread : Reads env noHarm A (fun _ => True) Store.readManifest
      (· = Disk.elected d) ram d := by
    refine (reads_tryReadSlot .a damaging_noHarm trivial).bind fun mdA hA => ?_
    refine (reads_tryReadSlot .b damaging_noHarm trivial).bind fun mdB hB => ?_
    rw [hslot hA, hslot hB]
    exact reads_pure rfl
  refine hread.bind fun md hmd => ?_
  subst hmd
  cases helect : Disk.elected d with
  | none =>
    dsimp only
    split
    · exact wp_fail fun h => nomatch h
    · exact wp_pure fun _ => ⟨rfl, .inl rfl⟩
  | some md =>
    dsimp only
    split
    · exact wp_fail fun h => nomatch h
    · exact wp_applyManifestToRam trivial fun _ => ⟨rfl, .inr ⟨md, elected_valid helect, rfl⟩⟩

/-- The object has adopted a manifest, or found none. -/
structure Adopted (ram : Ram) : Prop where
  sealed : ∀ g, ram.sealedSegmentBytes g = none
  slots : ∀ s, ram.manifestSlotBytes s = 0
  active : ram.activeGeneration = 0
  bytes : ram.activeSegmentBytes = 0
  sequence : ram.nextSequence = 0
  gens : ∀ g ∈ ram.activeGenerations, g < 2 ^ 32

lemma Adopted.reset (ram : Ram) : Adopted ram.reset where
  sealed _ := rfl
  slots _ := rfl
  active := rfl
  bytes := rfl
  sequence := rfl
  gens _ h := absurd h List.not_mem_nil

lemma Adopted.applied {md : ManifestData} (h : Adopted ram) (hv : md.Valid) :
    Adopted (ram.applyManifest md (rangeGens md.ranges)) where
  sealed := h.sealed
  slots := h.slots
  active := h.active
  bytes := h.bytes
  sequence := h.sequence
  gens g hg := by
    rcases List.mem_append.1 hg with hg | hg
    · obtain ⟨r, hr, -, hle⟩ := mem_rangeGens.1 hg
      exact Nat.lt_of_le_of_lt hle (hv.ranges_valid r hr).2.2
    · unfold ManifestData.tailList at hg
      split at hg
      · rw [List.mem_singleton.1 hg]
        exact hv.tailGeneration_lt
      · exact absurd hg List.not_mem_nil

/-- What the counters and the tail are after a mount of `d`. -/
structure Mounted (d : Disk) (ram' : Ram) (d' : Disk) : Prop where
  mounted : ram'.mounted = true
  counts : Canonical d → Counts ram' d' ∧ Canonical d'
  sized : Sized ram' d'
  sequence_lt : ram'.nextSequence < 2 ^ 32

lemma slotBytes_dropSegment (ram : Ram) (g n : ℕ) :
    (ram.dropSegment g n).manifestSlotBytes = ram.manifestSlotBytes := by
  -- on the members, so that the kernel does not compare the totals
  obtain ⟨⟩ := ram
  simp only [Ram.dropSegment]

/-- What keeps the sizes: the tail does not become shorter, unless it is gone, and neither do the
slots. -/
lemma Sized.frame (h : Sized ram d) (hc : ram'.core = ram.core)
    (hcounts : ram'.manifestSlotBytes = ram.manifestSlotBytes)
    (htail : ram.activeSegmentBytes ≠ 0 → ∀ data,
      d'.lookup (segmentName ram.activeGeneration) = some data →
      ∃ old, d.lookup (segmentName ram.activeGeneration) = some old ∧ old.length ≤ data.length)
    (hslots : ∀ s : Slot, d'.lookup s.fileName = d.lookup s.fileName) : Sized ram' d' := by
  have hs := SameCore.of_core hc
  refine ⟨fun data hdata => ?_, fun s => ?_, ?_, fun hne => ?_⟩
  · rw [hs.active] at hdata
    rw [hs.bytes]
    by_cases hopen : ram.activeSegmentBytes = 0
    · rw [hopen]
      exact Nat.zero_le _
    · obtain ⟨old, hold, hle⟩ := htail hopen data hdata
      exact (h.tail old hold).trans hle
  · rw [hcounts, Disk.size_congr (hslots s)]
    exact h.slots s
  · rw [hs.active]
    exact h.active_lt
  · rw [hs.bytes] at hne
    rw [hs.active, hs.next]
    exact h.next hne

/-- The tail and the slots are the same. -/
lemma Sized.keep (h : Sized ram d) (hc : ram'.core = ram.core)
    (hcounts : ram'.manifestSlotBytes = ram.manifestSlotBytes)
    (htail : d'.lookup (segmentName ram.activeGeneration) =
      d.lookup (segmentName ram.activeGeneration))
    (hslots : ∀ s : Slot, d'.lookup s.fileName = d.lookup s.fileName) : Sized ram' d' := by
  apply h.frame hc hcounts _ hslots
  intro _ data hdata
  exact ⟨data, htail ▸ hdata, le_rfl⟩

/-- A segment is removed. -/
lemma Sized.erased (h : Sized ram d) (hc : ram'.core = ram.core)
    (hcounts : ram'.manifestSlotBytes = ram.manifestSlotBytes) {name : FileName}
    (hname : ∀ s : Slot, s.fileName ≠ name) : Sized ram' (d.erase name) := by
  apply h.frame hc hcounts
  · intro _ data hdata
    by_cases hn : segmentName ram.activeGeneration = name
    · rw [hn, AList.lookup_erase] at hdata
      exact nomatch hdata
    · rw [AList.lookup_erase_ne hn] at hdata
      exact ⟨data, hdata, le_rfl⟩
  · intro s
    exact AList.lookup_erase_ne (hname s)

/-- The cleanup leaves the slots. -/
lemma Sized.cleaned (h : Sized ram d) (hclean : Cleaned ram d ram' d') : Sized ram' d' := by
  rcases hclean with ⟨rfl, rfl⟩ | ⟨name, -, g, hseg, -, rfl, rfl⟩
  · exact h
  · apply h.erased (core_dropSegment ..) (slotBytes_dropSegment ..)
    rintro s rfl
    rw [isSegmentName_slot] at hseg
    exact nomatch hseg

/-- The next generation is past every listed one but the last there is. -/
lemma le_advanceGeneration (next : ℕ) (gens : List ℕ) :
    next ≤ advanceGeneration next gens ∧
      ∀ g ∈ gens, u32 (g + 1) ≤ advanceGeneration next gens := by
  induction gens generalizing next with
  | nil => simp [advanceGeneration]
  | cons g gs ih =>
    rw [advanceGeneration, List.foldl_cons, ← advanceGeneration]
    obtain ⟨hle, hgs⟩ := ih (if u32 (g + 1) > next then u32 (g + 1) else next)
    have hmax : next ≤ (if u32 (g + 1) > next then u32 (g + 1) else next) ∧
        u32 (g + 1) ≤ (if u32 (g + 1) > next then u32 (g + 1) else next) := by
      split
      · next h => exact ⟨h.le, le_rfl⟩
      · next h => exact ⟨le_rfl, not_lt.1 h⟩
    refine ⟨hmax.1.trans hle, fun g' hg' => ?_⟩
    rcases List.mem_cons.1 hg' with rfl | hg'
    · exact hmax.2.trans hle
    · exact hgs g' hg'

/-- From the manifest that was adopted to the counters. -/
lemma Adopted.mounted (h : Adopted ram) {files : List FileName} (hperm : files.Perm d.keys)
    {ram₁ ram₂ : Ram} {d₁ d₂ : Disk} {affected : List ℕ}
    (hscan : Scanned ram.activeGenerations (ram.advance (listedGens files)) d ram₁ d₁)
    (hclean : Cleaned ((((ram₁.clearFootprint.accounted d₁ (listedGens files)).accountedSlot
      d₁ .a).accountedSlot d₁ .b).trackTail affected) d₁ ram₂ d₂) :
    Mounted d ram₂.setMounted d₂ := by
  have hsealed : ∀ g, ram₁.sealedSegmentBytes g = none := fun g => by
    rw [hscan.sealed]
    exact h.sealed g
  have hslots : ∀ s, ram₁.manifestSlotBytes s = 0 := fun s => by
    rw [hscan.slotBytes]
    exact h.slots s
  have hkeys : ∀ name, name ∈ d₁.keys ↔ name ∈ d.keys := fun name => by
    rw [← AList.mem_keys, ← AList.mem_keys, ← AList.lookup_isSome, ← AList.lookup_isSome,
      hscan.names]
  have hperm₁ : files.Perm d₁.keys := hperm.trans
    ((List.perm_ext_iff_of_nodup d.keys_nodup d₁.keys_nodup).2 fun name => (hkeys name).symm)
  generalize hX : ((ram₁.clearFootprint.accounted d₁ (listedGens files)).accountedSlot
    d₁ .a).accountedSlot d₁ .b = X at hclean
  have hcore : SameCore X ram₁ := by
    apply SameCore.of_core
    rw [← hX, core_accountedSlot, core_accountedSlot, core_accounted]
    rfl
  have hslotX : ∀ s, X.manifestSlotBytes s = u32 (Disk.size d₁ s.fileName) := by
    rw [← hX]
    apply slotBytes_accounted_slots
    intro s
    rw [slotBytes_accounted]
    exact hslots s
  refine ⟨rfl, fun hc => ?_, ?_, ?_⟩
  · have hc₁ : Canonical d₁ := fun name hname => hc name ((hkeys name).1 hname)
    have hcounts : Counts X d₁ := hX ▸ counts_accounted hc₁ hperm₁ hsealed hslots
    have htracked : Counts (X.trackTail affected) d₁ :=
      ⟨hcounts.segments, hcounts.slots, hcounts.total⟩
    obtain ⟨hcounts₂, hc₂⟩ := htracked.cleaned hc₁ hclean
    exact ⟨⟨hcounts₂.segments, hcounts₂.slots, hcounts₂.total⟩, hc₂⟩
  · have hslots' : ∀ s, X.manifestSlotBytes s ≤ Disk.size d₁ s.fileName := fun s =>
      (hslotX s).trans_le (Nat.mod_le _ _)
    have hsized : Sized (X.trackTail affected) d₁ := by
      cases hlast : ram.activeGenerations.getLast? with
      | none =>
        obtain ⟨rfl, -⟩ := hscan.none (List.getLast?_eq_none_iff.1 hlast)
        have hbytes : X.activeSegmentBytes = 0 := hcore.bytes.trans h.bytes
        have hactive : X.activeGeneration = 0 := hcore.active.trans h.active
        refine ⟨fun data _ => hbytes.le.trans (Nat.zero_le _), hslots', ?_, fun hne =>
          absurd hbytes hne⟩
        exact hactive.trans_lt (by decide)
      | some g =>
        obtain ⟨hactive, data, hdata, hle⟩ := hscan.tail g hlast
        have hlt : g < 2 ^ 32 := h.gens g (List.mem_of_getLast? hlast)
        have hX : X.activeGeneration = g := hcore.active.trans hactive
        refine ⟨fun data' hdata' => ?_, hslots', hX.trans_lt hlt, fun _ => ?_⟩
        · obtain rfl : data = data' := by
            have : d₁.lookup (segmentName X.activeGeneration) = some data' := hdata'
            rw [hX, hdata] at this
            exact Option.some.inj this
          exact hcore.bytes.trans_le hle
        · -- the tail is listed, so the next generation is past it
          have hmem : g ∈ listedGens files := by
            refine mem_listedGens.2 ⟨_, hperm₁.mem_iff.2 ?_, isSegmentName_segmentName hlt⟩
            rw [← AList.mem_keys, ← AList.lookup_isSome, hdata]
            rfl
          have hnext : X.nextGeneration = advanceGeneration ram.nextGeneration (listedGens files) :=
            hcore.next.trans hscan.next
          have hle := (le_advanceGeneration ram.nextGeneration (listedGens files)).2 g hmem
          show X.activeGeneration < X.nextGeneration ∨ X.activeGeneration + 1 = 2 ^ 32
          rw [hX, hnext]
          by_cases hmax : g + 1 = 2 ^ 32
          · exact .inr hmax
          · rw [u32_of_lt (by omega)] at hle
            exact .inl hle
    obtain ⟨htail, hslots₂, hlt, hnext⟩ := hsized.cleaned hclean
    exact ⟨htail, hslots₂, hlt, hnext⟩
  · have hlt : ram₁.nextSequence < 2 ^ 32 :=
      hscan.sequence (h.sequence.trans_lt (Nat.two_pow_pos 32))
    have hcore₂ : ram₂.nextSequence = X.nextSequence := by
      rcases hclean with ⟨rfl, -⟩ | ⟨name, -, g, -, -, rfl, -⟩
      · rfl
      · exact (SameCore.of_core (core_dropSegment ..)).sequence
    show ram₂.nextSequence < 2 ^ 32
    rw [hcore₂, hcore.sequence]
    exact hlt

/-- **Mounting** counts the files. -/
lemma wp_mount_counts :
    Wp env noHarm A (fun _ => True) (Store.mount cfg)
      (fun r ram' d' => r = .ok () → Mounted d ram' d') ram d := by
  unfold Store.mount
  apply wp_bind (Q := fun r ram' d' => ram' = ram ∧ d' = d)
    (wp_ask rfl (fun _ _ _ _ => ⟨rfl, rfl⟩) fun _ => ⟨rfl, rfl⟩)
  swap
  · rintro e ram' d' - h
    exact nomatch h
  rintro _ ram₁ d₁ ⟨rfl, rfl⟩
  apply wp_bind (Q := fun r ram' d' => r = .ok () → Mounted d₁ ram'.setMounted d')
  swap
  · rintro _ ram' d' h
    exact wp_modify fun _ => h rfl
  swap
  · rintro e ram' d' - h
    exact nomatch h
  unfold Store.scanSegments
  apply wp_bind (Q := fun r ram' d' => ram' = ram₁ ∧ d' = d₁ ∧
    ∀ files, r = .ok files → files.Perm d₁.keys)
  · apply wp_ask rfl
    · rintro w rfl files hfiles
      refine ⟨rfl, rfl, fun files' h => ?_⟩
      obtain rfl := Except.ok.inj h
      obtain rfl : env.order w.clock w.disk.keys = files := Except.ok.inj hfiles
      exact env.order_perm ..
    · intro e
      exact ⟨rfl, rfl, fun _ h => nomatch h⟩
  swap
  · rintro e ram' d' - h
    exact nomatch h
  rintro files ram' d' ⟨rfl, rfl, hperm⟩
  have hperm := hperm files rfl
  have hlisted : (files.filterMap isSegmentName).insertionSort (· ≤ ·) = listedGens files := rfl
  rw [hlisted]
  apply wp_modify_bind
  apply wp_bind wp_adoptManifest
  swap
  · rintro e ram' d' - h
    exact nomatch h
  rintro _ ram₂ d₂ hadopt
  obtain ⟨rfl, hram⟩ := hadopt rfl
  have hadopted : Adopted ram₂ := by
    rcases hram with rfl | ⟨md, hv, rfl⟩
    · exact .reset ram'
    · exact (Adopted.reset ram').applied hv
  apply wp_modify_bind
  apply wp_get_bind
  apply wp_bind wp_scanActive
  swap
  · rintro e ram' d' - h
    exact nomatch h
  rintro affected ram₃ d₃ hscan
  apply wp_accountFiles.mono
  rintro r ram₄ d₄ hclean hr
  exact hadopted.mounted hperm (hscan affected rfl) (hclean hr)

end Rules

end Pqueue
