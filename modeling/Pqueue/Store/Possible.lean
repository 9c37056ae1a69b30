import Pqueue.Store.Coherent

/-!
# Executions that exist

`May` says that a method has an execution with an outcome in `Q`.  It is how runs are exhibited
whose arguments are too large to compute with, or in which calls fail on purpose: each call
answers as the file system does (`may_call`), or fails (`may_call_fail`), and each marked point has
to meet its condition.
-/

namespace Pqueue

open Effect LittleEndian

/-- Some execution of `m` has an outcome in `Q`. -/
def May (env : Env) (harm : FsCall → Disk → Disk → Prop) (A : StoreMark → Disk → Prop) {σ α : Type}
    (m : Act (Fs StoreMark) σ Status α) (Q : Act.Post σ Status World α) (s : σ)
    (w : World) : Prop :=
  Act.may (faulty env harm) (fun mk w => A mk w.disk) m Q s w

section Rules

variable {env : Env} {harm : FsCall → Disk → Disk → Prop} {A : StoreMark → Disk → Prop}
  {σ α β : Type} {s : σ} {w : World} {ram : Ram}

lemma May.executes {m : Act (Fs StoreMark) σ Status α} {Q : Act.Post σ Status World α}
    (h : May env harm A m Q s w) :
    ∃ r s' w', Executes env harm A m s w r s' w' ∧ Q r s' w' := h

lemma May.mono {m : Act (Fs StoreMark) σ Status α} {Q Q' : Act.Post σ Status World α}
    (h : May env harm A m Q s w) (hQ : ∀ r s' w', Q r s' w' → Q' r s' w') :
    May env harm A m Q' s w := Act.may_mono h hQ

/-- A method without marked points that completes without failures. -/
lemma may_of_wpc {m : Store α} {J : Disk → Prop} {Q : StorePost α} (hm : m.MarksIn fun _ => False)
    (h : Wpc env (fun _ _ => True) False J m Q ram w) : May env harm A m Q ram w := by
  obtain ⟨⟨r, ram'⟩, w', hrun, hQ⟩ := Prog.wpc_total h (Prog.marksOk_true _ _ _)
  have hexec := (Prog.exec_outcomes_iff (crashing env).handler (fun mk w => A mk w.disk) (m ram) w
    (r, ram') w').2 ⟨hrun, (hm ram).marksOk _ (fun _ _ hf => hf.elim) _⟩
  exact ⟨r, ram', w', Prog.exec_mono (fun c v a v' ha => .inl ha) hexec, hQ⟩

/-- A call completes. -/
lemma may_call {c : FsCall} {Q : StorePost c.Val} {v : c.Val} {w' : World}
    (hc : handle env c w = (.ok v, w')) (h : Q (.ok v) ram w') :
    May env harm A (Store.call c) Q ram w :=
  Act.may_bind (Act.may_perform (.inl hc) (Act.may_pure h))

end Rules

/-! ## The marked points of methods -/

section MarksIn

variable {M : StoreMark → Prop}

lemma marksIn_tryCall (c : FsCall) : (Store.tryCall c).MarksIn M := Act.MarksIn.perform

lemma marksIn_call (c : FsCall) : (Store.call c).MarksIn M :=
  (marksIn_tryCall c).bind fun _ => Act.MarksIn.check

lemma marksIn_ignore (c : FsCall) : (Store.ignore c).MarksIn M :=
  (marksIn_tryCall c).bind fun _ => Act.MarksIn.pure

lemma marksIn_when {c : Prop} [Decidable c] {m : Store Unit} (h : m.MarksIn M) :
    (Store.when c m).MarksIn M := by
  rw [Store.when]
  split
  · exact h
  · exact Act.MarksIn.pure

lemma marksIn_sizeOrZero (name : FileName) : (Store.sizeOrZero name).MarksIn M :=
  (marksIn_tryCall _).bind fun r => by cases r <;> exact Act.MarksIn.pure

lemma marksIn_slotExists (slot : Slot) : (Store.slotExists slot).MarksIn M :=
  (marksIn_tryCall _).bind fun r => by cases r <;> exact Act.MarksIn.pure

lemma marksIn_tryReadSlot (slot : Slot) : (Store.tryReadSlot slot).MarksIn M :=
  (marksIn_tryCall _).bind fun r => by cases r <;> exact Act.MarksIn.pure

lemma marksIn_readManifest : Store.readManifest.MarksIn M :=
  (marksIn_tryReadSlot _).bind fun _ => (marksIn_tryReadSlot _).bind fun _ => Act.MarksIn.pure

lemma marksIn_writeTarget : Store.writeTarget.MarksIn M := by
  refine Act.MarksIn.get.bind fun ram => ?_
  split
  · exact Act.MarksIn.pure
  · refine (marksIn_slotExists _).bind fun eA => (marksIn_slotExists _).bind fun eB => ?_
    have hread : ∀ (b : Bool) (slot : Slot),
        (if b = true then Store.tryReadSlot slot else (pure none : Store _)).MarksIn M := by
      intro b slot
      split
      · exact marksIn_tryReadSlot slot
      · exact Act.MarksIn.pure
    refine (hread eA .a).bind fun mdA => (hread eB .b).bind fun mdB => ?_
    split
    · exact Act.MarksIn.fail
    · exact Act.MarksIn.pure

lemma marksIn_writeSegmentFileTracked (name : FileName) (data : Bytes)
    (disposition : Store.SegmentWriteDisposition) :
    (Store.writeSegmentFileTracked name data disposition).MarksIn M := by
  have hsize : (if disposition = .mayOverwrite then Store.sizeOrZero name else
      (pure 0 : Store ℕ)).MarksIn M := by
    split
    · exact marksIn_sizeOrZero name
    · exact Act.MarksIn.pure
  exact hsize.bind fun _ => (marksIn_call _).bind fun _ => Act.MarksIn.modify

lemma marksIn_generations (s e : ℕ) : (Store.generations s e).MarksIn M := by
  rw [Store.generations]
  split
  · exact Act.MarksIn.spin
  · exact Act.MarksIn.pure

lemma marksIn_applyManifestToRam (md : ManifestData) : (Store.applyManifestToRam md).MarksIn M := by
  have hexpand : ∀ ranges : List ManifestRange, (Store.expandRanges ranges).MarksIn M := by
    intro ranges
    induction ranges with
    | nil => exact Act.MarksIn.pure
    | cons r rs ih => exact (marksIn_generations _ _).bind fun _ => ih.bind fun _ =>
      Act.MarksIn.pure
  exact (hexpand _).bind fun _ => Act.MarksIn.modify

lemma marksIn_mount (cfg : AppendLogConfig) : (Store.mount cfg).MarksIn M := by
  have hfail : ∀ {α : Type} (code : StatusCode) (message : String),
      (Store.failure code message : Store α).MarksIn M := fun _ _ => Act.MarksIn.fail
  have hread : ∀ name, (Store.readSegment name).MarksIn M := fun name => by
    refine (marksIn_tryCall _).bind fun r => ?_
    split
    · exact hfail _ _
    · split
      · exact hfail _ _
      · refine (marksIn_tryCall _).bind fun r => ?_
        split
        · exact hfail _ _
        · split
          · exact hfail _ _
          · exact Act.MarksIn.pure
  have hheader : ∀ gen buf, (Store.checkHeader gen buf).MarksIn M := fun gen buf => by
    rw [Store.checkHeader]
    split
    · split <;> exact hfail _ _
    · split
      · exact hfail _ _
      · exact Act.MarksIn.pure
  have hscan : ∀ last gen affected, (Store.scanSegment cfg last gen affected).MarksIn M :=
    fun last gen affected => by
      refine (hread _).bind fun buf => (hheader _ _).bind fun _ => Act.MarksIn.get.bind fun ram =>
        Act.MarksIn.modify.bind fun _ => ?_
      split
      · exact hfail _ _
      · split
        · exact hfail _ _
        · exact (marksIn_when (marksIn_ignore _)).bind fun _ =>
            Act.MarksIn.modify.bind fun _ => Act.MarksIn.pure
  have hactive : ∀ gens affected, (Store.scanActive cfg gens affected).MarksIn M := fun gens => by
    induction gens with
    | nil => exact fun _ => Act.MarksIn.pure
    | cons gen gens ih => exact fun _ => (hscan _ _ _).bind fun affected => ih affected
  have hslot : ∀ slot, (Store.accountSlot slot).MarksIn M := fun slot =>
    (marksIn_tryCall _).bind fun r => by
      cases r
      · exact Act.MarksIn.pure
      · exact Act.MarksIn.modify
  have hcleanup : Store.cleanupOneDanglingSegment.MarksIn M :=
    (marksIn_tryCall _).bind fun r => by
      cases r
      · exact Act.MarksIn.pure
      · refine Act.MarksIn.get.bind fun ram => ?_
        split
        · exact Act.MarksIn.pure
        · refine (marksIn_sizeOrZero _).bind fun _ => (marksIn_tryCall _).bind fun r => ?_
          cases r
          · exact Act.MarksIn.pure
          · exact Act.MarksIn.modify
  have hadopt : ∀ gens, (Store.adoptManifest gens).MarksIn M := fun gens => by
    refine marksIn_readManifest.bind fun md => ?_
    split
    · split
      · exact hfail _ _
      · exact marksIn_applyManifestToRam _
    · split
      · exact hfail _ _
      · exact Act.MarksIn.pure
  refine (marksIn_call _).bind fun _ => Act.MarksIn.bind ?_ fun _ => Act.MarksIn.modify
  refine (marksIn_call _).bind fun files => Act.MarksIn.modify.bind fun _ =>
    (hadopt _).bind fun _ => Act.MarksIn.modify.bind fun _ => Act.MarksIn.get.bind fun ram =>
      (hactive _ _).bind fun affected => Act.MarksIn.modify.bind fun _ =>
        (Act.MarksIn.forEach (fun _ => (marksIn_call _).bind fun _ => Act.MarksIn.modify) _).bind
          fun _ => (hslot _).bind fun _ => (hslot _).bind fun _ =>
            Act.MarksIn.modify.bind fun _ => hcleanup

end MarksIn

/-! ## Opening a segment and logging an event -/

section Commit

variable {env : Env} {harm : FsCall → Disk → Disk → Prop} {A : StoreMark → Disk → Prop}
  {cfg : AppendLogConfig} {w : World} {ram : Ram}

lemma may_publishManifest {manifest md : ManifestData} {slot : Slot} {epoch : ℕ}
    {Q : StorePost Unit} (ht : ram.target w.disk = some (slot, epoch))
    (hmd : md = { manifest with epoch := u32 (epoch + 1) })
    (hends : ∀ r ∈ manifest.ranges, ¬Endless r.startGen r.endGen)
    (hA : A (.publish epoch manifest) w.disk)
    (hQ : Q (.ok ()) (ram.published slot md (Disk.size w.disk slot.fileName))
      (w.setDisk (Disk.publish w.disk slot md))) :
    May env harm A (Store.publishManifest manifest) Q ram w := by
  subst hmd
  refine Act.may_bind (may_of_wpc (J := fun _ => True) marksIn_writeTarget (wpc_writeTarget ht ?_))
  refine Act.may_mark_bind hA (may_of_wpc (J := fun _ => True) ?_ ?_)
  · exact (marksIn_writeSegmentFileTracked _ _ _).bind fun _ =>
      (marksIn_applyManifestToRam _).bind fun _ => Act.MarksIn.modify
  · refine wpc_bind.2 (wpc_writeTracked_over trivial (fun _ _ => trivial) ?_)
    rw [andThen_ok]
    refine wpc_bind.2 (wpc_applyManifestToRam hends ?_)
    exact hQ

lemma may_startSegment {ranges : List ManifestRange} {gen startSeq : ℕ} {slot : Slot} {epoch : ℕ}
    {md : ManifestData} {Q : StorePost Unit} (ht : ram.target w.disk = some (slot, epoch))
    (hmd : md = ⟨u32 (epoch + 1), u32 (gen + 1), ranges, gen⟩)
    (hends : ∀ r ∈ ranges, ¬Endless r.startGen r.endGen) (hgen : A (.allocate gen) w.disk)
    (hpub : A (.publish epoch ⟨0, u32 (gen + 1), ranges, gen⟩) (Disk.create w.disk gen startSeq))
    (hQ : Q (.ok ()) (ram.started slot md (Disk.size w.disk slot.fileName))
      (w.setDisk (Disk.publish (Disk.create w.disk gen startSeq) slot md))) :
    May env harm A (Store.startSegment ranges gen startSeq) Q ram w := by
  have hslots : ∀ s : Slot, (Disk.create w.disk gen startSeq).lookup s.fileName =
      w.disk.lookup s.fileName := fun s => AList.lookup_insert_ne (segmentName_ne_slot gen s).symm
  refine Act.may_mark_bind hgen (Act.may_bind (may_of_wpc (J := fun _ => True)
    (marksIn_writeSegmentFileTracked _ _ _) (wpc_createSegment trivial (fun _ _ => trivial) ?_)))
  refine Act.may_bind (may_publishManifest ((Ram.target_congr hslots rfl rfl).trans ht) hmd hends
    hpub ?_)
  have hsize : Disk.size (Disk.create w.disk gen startSeq) slot.fileName =
      Disk.size w.disk slot.fileName := by rw [Disk.size, Disk.size, hslots]
  have htail : md.tailGeneration = gen := by rw [hmd]
  rw [Ram.started, htail] at hQ
  rw [World.setDisk_disk, hsize]
  exact ⟨_, _, _, ⟨rfl, rfl⟩, hQ⟩

/-- A mounted object without budgets commits an event at the end of its tail. -/
lemma may_append {e : LogEvent} {f : Ram → Ram} {old : Bytes} {Q : StorePost Unit}
    (hold : w.disk.lookup (segmentName ram.activeGeneration) = some old)
    (hA : A (.append ram.activeGeneration ram.activeSegmentBytes e.encode.length) w.disk)
    (hf : f (ram.extendTail e.encode.length) = ram.logged e)
    (hQ : Q (.ok ()) (ram.logged e) (w.setDisk (w.disk.insert (segmentName ram.activeGeneration)
      (overwrite old ram.activeSegmentBytes e.encode)))) :
    May env harm A (Store.appendBytes e.encode >>= fun _ => Store.modify f) Q ram w := by
  refine Act.may_bind (Act.may_get_bind (Act.may_mark_bind hA (Act.may_bind ?_)))
  have hwrite : handle env (.writeAt (segmentName ram.activeGeneration) ram.activeSegmentBytes
      e.encode) w = (.ok (), w.setDisk (w.disk.insert (segmentName ram.activeGeneration)
        (overwrite old ram.activeSegmentBytes e.encode))) := by
    simp only [handle, hold]
  refine may_call hwrite ⟨_, _, _, ⟨rfl, rfl⟩, _, _, _, ⟨rfl, rfl⟩, ?_⟩
  rw [hf]
  exact hQ

/-- An enqueue without budgets: room is made, and the event is logged. -/
lemma may_commitEnqueue {fuel sequence : ℕ} {record : Bytes} {Q : StorePost Unit}
    (hm : ram.mounted = true) (hok : PayloadOk cfg record) (hseq : sequence ≠ 2 ^ 32 - 1)
    (htotal : cfg.maxTotalBytes = 0) (hfree : cfg.minFreeBytes = 0)
    (h : May env harm A
      (Store.makeRoom cfg (u32 (kEnqueueOverheadBytes + u32 record.length)) sequence)
      (fun r ram' w' => r = .ok () ∧ (∃ old,
        w'.disk.lookup (segmentName ram'.activeGeneration) = some old ∧
        A (.append ram'.activeGeneration ram'.activeSegmentBytes
          (LogEvent.enqueue sequence record).encode.length) w'.disk ∧
        Q (.ok ()) (ram'.logged (.enqueue sequence record))
          (w'.setDisk (w'.disk.insert (segmentName ram'.activeGeneration)
            (overwrite old ram'.activeSegmentBytes (LogEvent.enqueue sequence record).encode)))))
      ram w) :
    May env harm A (Store.commitEnqueue cfg fuel sequence record) Q ram w := by
  refine Act.may_bind (Act.may_get_bind ?_)
  rw [Store.when, if_neg (not_not.2 hm)]
  refine Act.may_pure (Act.may_bind ?_)
  rw [Store.checkRecordSize, if_neg (not_lt.2 hok.1), if_neg (not_lt.2 hok.2)]
  refine Act.may_pure ?_
  simp only [Act.andThen, if_neg hseq]
  refine Act.may_bind (Act.may_bind ?_)
  rw [Store.when, if_neg (by omega)]
  refine Act.may_pure (Act.may_get_bind ?_)
  rw [Store.when, if_neg (by omega)]
  refine Act.may_pure (Act.may_bind (h.mono ?_))
  rintro _ ram' w' ⟨rfl, old, hold, hA, hQ⟩
  exact Act.may_get_bind (may_append hold hA rfl hQ)

/-- Nothing is needed to make room. -/
lemma may_makeRoom_stay {eventBytes baseSeq : ℕ} {Q : StorePost Unit}
    (hstay : ¬ram.needsRotation cfg eventBytes) (hopen : ram.activeSegmentBytes ≠ 0)
    (hQ : Q (.ok ()) ram w) : May env harm A (Store.makeRoom cfg eventBytes baseSeq) Q ram w := by
  refine Act.may_get_bind (Act.may_bind ?_)
  rw [Store.when, if_neg hstay]
  refine Act.may_pure (Act.may_get_bind ?_)
  rw [Store.when, if_neg hopen]
  exact Act.may_pure hQ

/-- The first segment is opened to make room. -/
lemma may_makeRoom_first {eventBytes baseSeq : ℕ} {slot : Slot} {epoch : ℕ} {md : ManifestData}
    {Q : StorePost Unit} (hb : Blank ram) (ht : ram.target w.disk = some (slot, epoch))
    (hmd : md = ⟨u32 (epoch + 1), u32 (ram.nextGeneration + 1), [], ram.nextGeneration⟩)
    (hgen : A (.allocate ram.nextGeneration) w.disk)
    (hpub : A (.publish epoch ⟨0, u32 (ram.nextGeneration + 1), [], ram.nextGeneration⟩)
      (Disk.create w.disk ram.nextGeneration baseSeq))
    (hQ : Q (.ok ()) (ram.started slot md (Disk.size w.disk slot.fileName))
      (w.setDisk (Disk.publish (Disk.create w.disk ram.nextGeneration baseSeq) slot md))) :
    May env harm A (Store.makeRoom cfg eventBytes baseSeq) Q ram w := by
  have hstay : ¬ram.needsRotation cfg eventBytes := fun h => by
    have := h.1
    rw [hb.bytes] at this
    exact absurd this (Nat.not_lt_zero _)
  refine Act.may_get_bind (Act.may_bind ?_)
  rw [Store.when, if_neg hstay]
  refine Act.may_pure (Act.may_get_bind ?_)
  rw [Store.when, if_pos hb.bytes, hb.ranges]
  exact may_startSegment ht hmd (fun r hr => absurd hr List.not_mem_nil) hgen hpub hQ

end Commit

end Pqueue
