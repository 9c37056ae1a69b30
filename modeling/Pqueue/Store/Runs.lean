import Pqueue.Store.Execution
import Pqueue.Store.Possible
import Pqueue.Store.Trial
import Pqueue.Store.Winner

/-!
# Runs of one store object

`StoreOp` lists the methods a caller can make on a store object, `StoreRun` the states that
sequences of them lead to from an empty directory, whatever calls fail.  The object mounts the
directory in its first method that needs it; until then it is `Fresh`.

A caller enqueues at the tail of the index, as `Queue::enqueue` does, and locks the lock file.
-/

namespace Pqueue

open Effect LittleEndian

/-! ## Operations -/

/-- The methods of the store, with the arguments a caller chooses. -/
inductive StoreOp
  | readIndex
  | enqueue (fuel : ℕ) (record : Bytes)
  | pop (expectedSequence : ℕ)
  | rewrite (fuel sequence : ℕ) (record : Bytes)
  | readRecord (sequence : ℕ)
  | readRecordSize (sequence : ℕ)
  | pressure (recordSize : ℕ)
  | compactRange (range : CompactionRange) (fallback : AllowFullRangeFallback)
  | compactOneSegment (fallback : AllowFullRangeFallback)
  | reclaimDeadFrontSegment
  | compactIdle (maxSteps : ℕ)
  | compactFull (fuel : ℕ)
  | acquireLock (contents : Bytes)
  | releaseLock (contents : Bytes)
  | format

namespace StoreOp

/-- The method, its value discarded.  Sequences are words. -/
def method (cfg : AppendLogConfig) : StoreOp → Store Unit
  | readIndex => Store.readIndex cfg >>= fun _ => pure ()
  | enqueue fuel record => Store.readIndex cfg >>= fun index =>
      Store.commitEnqueue cfg fuel index.tail record
  | pop expectedSequence => Store.commitPop cfg (u32 expectedSequence)
  | rewrite fuel sequence record => Store.rewriteRecord cfg fuel (u32 sequence) record
  | readRecord sequence => Store.readRecord cfg (u32 sequence) >>= fun _ => pure ()
  | readRecordSize sequence => Store.readRecordSize cfg (u32 sequence) >>= fun _ => pure ()
  | pressure recordSize =>
      Store.appendWouldHitAdmissionPressure cfg (u32 recordSize) >>= fun _ => pure ()
  | compactRange range fallback => Store.compactRange cfg range fallback >>= fun _ => pure ()
  | compactOneSegment fallback => Store.compactOneSegment cfg fallback >>= fun _ => pure ()
  | reclaimDeadFrontSegment => Store.reclaimDeadFrontSegment cfg >>= fun _ => pure ()
  | compactIdle maxSteps => Store.compactIdle cfg maxSteps >>= fun _ => pure ()
  | compactFull fuel => Store.compactFull cfg fuel
  | acquireLock contents => Store.tryAcquireLockFile cfg kLockFileName contents
  | releaseLock contents => Store.releaseLockFile kLockFileName contents
  | format => Store.format

end StoreOp

/-- The states of one object that sequences of operations lead to from an empty directory.  Calls
fail as `harm` allows, the marked points meet `A`, and `F` holds of each operation and of the
directory it leaves. -/
inductive StoreRun (env : Env) (cfg : AppendLogConfig) (harm : FsCall → Disk → Disk → Prop)
    (A : StoreMark → Disk → Prop) (F : StoreOp → Disk → Prop) : Ram → World → Prop
  /-- The object is constructed. -/
  | start {w} (h : w.disk = ∅) : StoreRun env cfg harm A F {} w
  /-- An operation is carried out, or fails. -/
  | step {ram w op r ram' w'} (h : StoreRun env cfg harm A F ram w)
      (he : Executes env harm A (op.method cfg) ram w r ram' w') (hF : F op w'.disk) :
      StoreRun env cfg harm A F ram' w'

/-- Operations tried one after the other, each with the calls of it that fail. -/
def storeTrial (cfg : AppendLogConfig) (A : StoreMark → Disk → Prop) [∀ mk d, Decidable (A mk d)]
    (ops : List (StoreOp × (FsCall → World → Option World))) (ram : Ram) (w : World) :
    Option (Ram × World) :=
  ops.foldlM (fun (ram, w) (op, fails) =>
    (tryMethod (plainEnv .posix) fails A (op.method cfg) ram w).map fun ((_, ram'), w') =>
      (ram', w')) (ram, w)

/-- What holds after every operation holds after them. -/
lemma storeTrial_invariant {cfg : AppendLogConfig} {A : StoreMark → Disk → Prop}
    [∀ mk d, Decidable (A mk d)] {harm : FsCall → Disk → Disk → Prop} {P : Ram → World → Prop}
    {ops : List (StoreOp × (FsCall → World → Option World))}
    (hf : ∀ op ∈ ops, ∀ c w w', op.2 c w = some w' → harm c w.disk w'.disk)
    (hP : ∀ op ∈ ops, ∀ ram w r ram' w', P ram w →
      Executes (plainEnv .posix) harm A (op.1.method cfg) ram w r ram' w' → P ram' w')
    {ram ram' : Ram} {w w' : World} (h : P ram w)
    (ht : storeTrial cfg A ops ram w = some (ram', w')) : P ram' w' := by
  refine foldlM_invariant (P := fun x : Ram × World => P x.1 x.2) ?_ h ht
  rintro ⟨ram, w⟩ ⟨op, fails⟩ hmem x hx hstep
  obtain ⟨⟨⟨r, ram'⟩, w'⟩, htry, rfl⟩ := Option.map_eq_some_iff.1 hstep
  exact hP _ hmem _ _ _ _ _ hx (executes_of_tryMethod (hf _ hmem) htry)

/-- Operations tried one after the other without failing calls, as long as they succeed. -/
def successes (cfg : AppendLogConfig) (A : StoreMark → Disk → Prop) [∀ mk d, Decidable (A mk d)]
    (ops : List StoreOp) (ram : Ram) (w : World) : Option (Ram × World) :=
  ops.foldlM (fun (ram, w) op =>
    (tryMethod (plainEnv .posix) allComplete A (op.method cfg) ram w).bind fun ((r, ram'), w') =>
      if r.toBool then some (ram', w') else none) (ram, w)

/-- What every operation that succeeds keeps of those before it holds after them. -/
lemma successes_invariant {cfg : AppendLogConfig} {A : StoreMark → Disk → Prop}
    [∀ mk d, Decidable (A mk d)] (harm : FsCall → Disk → Disk → Prop)
    {P : List StoreOp → Ram → World → Prop}
    (hP : ∀ done op ram w ram' w', P done ram w →
      Executes (plainEnv .posix) harm A (op.method cfg) ram w (.ok ()) ram' w' →
        P (done ++ [op]) ram' w')
    {done ops : List StoreOp} {ram ram' : Ram} {w w' : World} (h : P done ram w)
    (ht : successes cfg A ops ram w = some (ram', w')) : P (done ++ ops) ram' w' := by
  induction ops generalizing done ram w with
  | nil =>
    obtain ⟨rfl, rfl⟩ := Prod.mk.inj (Option.some.inj ht)
    rw [List.append_nil]
    exact h
  | cons op ops ih =>
    unfold successes at ht
    rw [List.foldlM_cons] at ht
    obtain ⟨⟨ram₁, w₁⟩, hop, hops⟩ := Option.bind_eq_some_iff.1 ht
    obtain ⟨⟨⟨r, ram₁'⟩, w₁'⟩, htry, hok⟩ := Option.bind_eq_some_iff.1 hop
    simp only [Option.ite_none_right_eq_some, Option.some.injEq, Prod.mk.injEq] at hok
    obtain ⟨hr, rfl, rfl⟩ := hok
    obtain rfl := eq_ok_of_toBool hr
    rw [List.append_cons]
    exact ih (hP _ _ _ _ _ _ h (executes_of_complete htry)) hops

/-- What a write that fails leaves: a strict prefix of its data in the place it writes, the place
as it was, or no file.  Other calls that fail do the damage they may do. -/
def partialWrite : FsCall → Disk → Disk → Prop
  | .writeFile name data, d, d' =>
    d' = d ∨ d' = d.erase name ∨ ∃ n < data.length, d' = d.insert name (data.take n)
  | .writeAt name offset data, d, d' =>
    d' = d ∨ ∃ old n, d.lookup name = some old ∧ n < data.length ∧
      d' = d.insert name (overwrite old offset (data.take n))
  | c, d, d' => damage c d d'

/-- What a call leaves that is cut off, or that fails to remove a file. -/
def cutOff : FsCall → Disk → Disk → Prop
  | .writeFile name data, d, d' => ∃ n < data.length, d' = d.insert name (data.take n)
  | .writeAt name offset data, d, d' => ∃ old n, d.lookup name = some old ∧ n < data.length ∧
      d' = d.insert name (overwrite old offset (data.take n))
  | .removeFile _, d, d' => d' = d
  | _, _, _ => False

/-- A format has removed both manifest slots. -/
def SlotsRemoved : StoreOp → Disk → Prop
  | .format, d => ∀ s : Slot, d.lookup s.fileName = none
  | _, _ => True

lemma sameExcept_self (name : FileName) (d : Disk) : SameExcept name d d := fun _ _ => rfl

lemma sameExcept_erase (d : Disk) (name : FileName) : SameExcept name d (d.erase name) :=
  fun _ hne => AList.lookup_erase_ne hne

lemma cutOff_of_torn {c : FsCall} {n : ℕ} {w w' : World} (h : torn c n w = some w') :
    cutOff c w.disk w'.disk := by
  cases c with
  | writeFile name data =>
    simp only [torn] at h
    split at h
    · next hn =>
      obtain rfl := Option.some.inj h
      exact ⟨n, hn, rfl⟩
    · cases h
  | writeAt name offset data =>
    simp only [torn] at h
    split at h
    · next old hold =>
      split at h
      · next hn =>
        obtain rfl := Option.some.inj h
        exact ⟨old, n, hold, hn, rfl⟩
      · cases h
    · cases h
  | _ => cases h

/-- It is damage that a failing call may do. -/
lemma partialWrite_of_cutOff {c : FsCall} {d d' : Disk} (h : cutOff c d d') :
    partialWrite c d d' := by
  cases c with
  | writeFile => exact .inr (.inr h)
  | writeAt => exact .inr h
  | removeFile => exact h
  | _ => exact h.elim

/-- What a write that stops leaves. -/
lemma partialWrite_of_torn {c : FsCall} {n : ℕ} {w w' : World} (h : torn c n w = some w') :
    partialWrite c w.disk w'.disk := partialWrite_of_cutOff (cutOff_of_torn h)

lemma damaging_partialWrite : Damaging partialWrite := by
  intro c d d' h
  cases c with
  | writeFile name data =>
    rcases h with rfl | rfl | ⟨n, -, rfl⟩
    · exact sameExcept_self name d'
    · exact sameExcept_erase d name
    · exact sameExcept_insert d name _
  | writeAt name offset data =>
    rcases h with rfl | ⟨old, n, hold, hn, rfl⟩
    · exact ⟨sameExcept_self name d', fun old hold =>
        ⟨old, hold, List.take_eq_take_iff.2 (by omega)⟩⟩
    · refine ⟨sameExcept_insert d name _, fun old' hold' => ⟨_, AList.lookup_insert _, ?_⟩⟩
      obtain rfl := Option.some.inj (hold.symm.trans hold')
      rw [overwrite, List.take_append_of_le_length (by rw [List.length_take]), List.take_take]
      exact List.take_eq_take_iff.2 (by omega)
  | _ => exact h

lemma tearsSlots_partialWrite : TearsSlots partialWrite := by
  rintro s md d d' hv (rfl | rfl | ⟨n, hn, rfl⟩)
  · exact .inr rfl
  · left
    rw [Disk.manifest, AList.lookup_erase]
    rfl
  · left
    rw [Disk.manifest, AList.lookup_insert]
    exact parseManifest_take (parseManifest_serialise hv) hn

/-! ## Before the mount -/

/-- An object that has not mounted its directory, which is empty but for the lock file. -/
structure Fresh (ram : Ram) (d : Disk) : Prop where
  mounted : ram.mounted = false
  active : ram.activeGeneration = 0
  bytes : ram.activeSegmentBytes = 0
  ranges : ram.manifestRanges = []
  gens : ram.activeGenerations = []
  records : ram.records = []
  empty : ∀ name, name ≠ kLockFileName → d.lookup name = none

namespace Fresh

variable {env : Env} {cfg : AppendLogConfig} {harm : FsCall → Disk → Disk → Prop}
  {A : StoreMark → Disk → Prop} {J : Disk → Prop} {ram : Ram} {d d' : Disk} {α : Type}

lemma manifest (h : Fresh ram d) (s : Slot) : Disk.manifest d s = none := by
  rw [Disk.manifest, h.empty _ (slot_ne_lock s)]
  rfl

/-- The lock file is all that is listed. -/
lemma not_segment (h : Fresh ram d) {name : FileName} (hname : name ∈ d.keys) :
    isSegmentName name = none := by
  have hlock : name = kLockFileName := by
    by_contra hne
    have hsome := AList.lookup_isSome.2 (AList.mem_keys.2 hname)
    rw [h.empty name hne] at hsome
    cases hsome
  rw [hlock]
  decide

/-- A listing fails, or it names no segment. -/
lemma reads_listFiles (h : Fresh ram d) (hd : Damaging harm) (hJ : J d) {ram : Ram} :
    Reads env harm A J (Store.tryCall .listFiles)
      (fun a => ∀ files, a = .ok files → ∀ name ∈ files, isSegmentName name = none) ram d := by
  refine reads_tryCall hd hJ rfl (fun w hw files hf name hname => ?_)
    fun _ st files hf => nomatch hf
  obtain rfl : env.order w.clock w.disk.keys = files := Except.ok.inj hf
  rw [(env.order_perm _ _).mem_iff, hw] at hname
  exact h.not_segment hname

/-- There is no slot to account for. -/
lemma reads_accountSlot (h : Fresh ram d) (hd : Damaging harm) (hJ : J d) (s : Slot) {ram : Ram} :
    Reads env harm A J (Store.accountSlot s) (fun _ => True) ram d := by
  refine Reads.bind (P := fun a => ∃ st, a = .error st)
    (reads_tryCall hd hJ rfl (fun w hw => ?_) fun _ st => ⟨st, rfl⟩) ?_
  · simp only [handle, hw, h.empty _ (slot_ne_lock s)]
    exact ⟨_, rfl⟩
  · rintro _ ⟨st, rfl⟩
    exact reads_pure trivial

lemma reads_cleanup (h : Fresh ram d) (hd : Damaging harm) (hJ : J d) {ram : Ram} :
    Reads env harm A J Store.cleanupOneDanglingSegment (fun _ => True) ram d := by
  refine (h.reads_listFiles hd hJ).bind fun a ha => ?_
  cases a with
  | error st => exact reads_pure trivial
  | ok files =>
    refine wp_get_bind ?_
    have hnone : firstDangling ram.activeGenerations files = none := by
      refine List.findSome?_eq_none_iff.2 fun name hname => ?_
      rw [ha files rfl name hname]
      rfl
    rw [hnone]
    exact reads_pure trivial

/-- The directory is scanned, or it cannot be listed. -/
lemma wp_scanSegments (h : Fresh ram d) (hd : Damaging harm) (hJ : J d) {ram : Ram} :
    Wp env harm A J (Store.scanSegments cfg) (fun r ram' d' => d' = d ∧
      (r = .ok () → ram' = ((ram.reset.advance []).clearFootprint).trackTail []) ∧
        ∀ st, r = .error st → ram' = ram) ram d := by
  refine wp_bind (Q := fun r ram' d' => ram' = ram ∧ d' = d ∧
    ∀ files, r = .ok files → ∀ name ∈ files, isSegmentName name = none)
    ((h.reads_listFiles hd hJ).bind fun a ha => ?_) ?_ ?_
  · cases a with
    | error st => exact wp_fail ⟨rfl, rfl, fun _ he => nomatch he⟩
    | ok files =>
      refine wp_pure ⟨rfl, rfl, fun files' he => ?_⟩
      obtain rfl := Except.ok.inj he
      exact ha _ rfl
  swap
  · rintro e ram' d' ⟨rfl, rfl, -⟩
    exact ⟨rfl, fun he => (nomatch he), fun _ _ => rfl⟩
  rintro files ram' d' ⟨rfl, rfl, hfiles⟩
  have hnil : (files.filterMap isSegmentName).insertionSort (· ≤ ·) = [] := by
    rw [List.filterMap_eq_nil_iff.2 (hfiles files rfl)]
    rfl
  simp only [hnil]
  refine wp_modify_bind ?_
  -- no slot can be read
  have hslot : ∀ {s : Slot} {md : Option ManifestData}, SlotRead harm d' s md → md = none := by
    rintro s md (rfl | ⟨rfl, -⟩)
    · exact h.manifest s
    · rfl
  have helect : Reads env harm A J Store.readManifest (· = none) ram'.reset d' := by
    refine (reads_tryReadSlot .a hd hJ).bind fun mdA hA => (reads_tryReadSlot .b hd hJ).bind
      fun mdB hB => ?_
    rw [hslot hA, hslot hB]
    exact reads_pure rfl
  have hadopt : Reads env harm A J (Store.adoptManifest []) (fun _ => True) ram'.reset d' := by
    refine helect.bind fun md hmd => ?_
    subst hmd
    exact reads_pure trivial
  refine hadopt.bind fun _ _ => wp_modify_bind (wp_get_bind ?_)
  refine (reads_pure (P := (· = ([] : List ℕ))) rfl).bind fun affected haff => ?_
  subst haff
  refine wp_modify_bind ((reads_pure (P := fun _ => True) trivial).bind fun _ _ => ?_)
  refine (h.reads_accountSlot hd hJ .a).bind fun _ _ => ?_
  refine (h.reads_accountSlot hd hJ .b).bind fun _ _ => wp_modify_bind ?_
  refine (h.reads_cleanup hd hJ).mono ?_
  rintro r ram'' d'' ⟨rfl, rfl, a, rfl, -⟩
  exact ⟨rfl, fun _ => rfl, fun _ he => nomatch he⟩

/-- The mount succeeds, and there is nothing, or it fails and has done nothing. -/
lemma wp_mount (h : Fresh ram d) (hd : Damaging harm) (hJ : J d) :
    Wp env harm A J (Store.mount cfg) (fun r ram' d' => d' = d ∧
      (r = .ok () → Blank ram' ∧ Unpublished ram' d ∧ ram'.nextSequence = 0) ∧
        ∀ st, r = .error st → ram' = ram) ram d := by
  refine wp_bind (Q := fun _ ram' d' => ram' = ram ∧ d' = d) ?_ ?_ ?_
  · exact wp_call hJ (fun w hw _ _ => ⟨rfl, hw⟩) (fun w hw _ _ => ⟨rfl, hw⟩)
      fun st d' hh => ⟨rfl, hd _ _ _ hh⟩
  swap
  · rintro e ram' d' ⟨rfl, rfl⟩
    exact ⟨rfl, fun he => (nomatch he), fun _ _ => rfl⟩
  rintro _ ram' d' ⟨rfl, rfl⟩
  refine wp_bind (h.wp_scanSegments hd hJ) ?_ ?_
  swap
  · rintro e ram'' d'' ⟨rfl, -, he⟩
    exact ⟨rfl, fun he => (nomatch he), fun _ _ => he e rfl⟩
  rintro _ ram'' d'' ⟨rfl, hok, -⟩
  obtain rfl := hok rfl
  refine wp_modify ⟨rfl, fun _ => ⟨?_, ⟨rfl, h.manifest⟩, rfl⟩, fun _ he => nomatch he⟩
  exact ⟨rfl, rfl, rfl, h.ranges, rfl, rfl, one_ne_zero⟩

/-- What comes after the mount is carried out on a mounted object. -/
lemma wp_ensureMounted {k : Unit → Store α} {Q : DiskPost Ram α} (h : Fresh ram d)
    (hd : Damaging harm) (hJ : J d)
    (hok : ∀ ram', Blank ram' → Unpublished ram' d → ram'.nextSequence = 0 →
      Wp env harm A J (k ()) Q ram' d) (herr : ∀ st, Q (.error st) ram d) :
    Wp env harm A J (Store.ensureMounted cfg >>= k) Q ram d := by
  refine wp_bind (Q := fun r ram' d' => d' = d ∧
    (r = .ok () → Blank ram' ∧ Unpublished ram' d ∧ ram'.nextSequence = 0) ∧
      ∀ st, r = .error st → ram' = ram) (wp_get_bind (wp_when (fun _ => h.wp_mount hd hJ) ?_)) ?_ ?_
  · intro hm
    rw [h.mounted] at hm
    exact absurd Bool.false_ne_true hm
  · rintro _ ram' d' ⟨rfl, hm, -⟩
    obtain ⟨hb, hu, hn⟩ := hm rfl
    exact hok ram' hb hu hn
  · rintro e ram' d' ⟨rfl, -, he⟩
    rw [he e rfl]
    exact herr e

end Fresh

/-! ## One operation -/

/-- What runs keep: the object has not mounted the directory yet, or it is mounted and agrees with
it, and every sequence leaves room for the next one. -/
def Kept (cfg : AppendLogConfig) (ram : Ram) (d : Disk) : Prop :=
  Fresh ram d ∨ Settled cfg ram d ∧ ram.nextSequence = 0 ∧ ∀ s ∈ ram.seqs, s < 2 ^ 32 - 1

/-- A completed call on the lock file touches no other file. -/
lemma handle_lock {env : Env} {c : FsCall} {contents : Bytes}
    (hc : c = .tryAcquireLockFile kLockFileName contents ∨
      c = .releaseLockFile kLockFileName contents) (w : World) :
    SameExcept kLockFileName w.disk (handle env c w).2.disk := by
  rcases hc with rfl | rfl
  · simp only [handle, acquireLock]
    repeat' split
    all_goals first | exact sameExcept_self _ _ | exact sameExcept_insert _ _ _
  · simp only [handle, releaseLock]
    repeat' split
    all_goals first | exact sameExcept_self _ _ | exact sameExcept_erase _ _

/-- The tail of the index follows the last record. -/
lemma index_tail {ram : Ram} (hn : ram.nextSequence = 0) (hlt : ∀ s ∈ ram.seqs, s < 2 ^ 32 - 1) :
    ram.index.tail < 2 ^ 32 ∧ ∀ back, ram.seqs.getLast? = some back →
      ram.index.tail = back + 1 := by
  rw [Ram.seqs] at hlt ⊢
  rw [Ram.index]
  cases hrec : ram.records with
  | nil =>
    simp only [List.head?_nil, hn]
    exact ⟨by decide, by simp⟩
  | cons r rs =>
    have hlast : (r :: rs).getLast? = some ((r :: rs).getLast (List.cons_ne_nil _ _)) :=
      List.getLast?_eq_getLast_of_ne_nil _
    have hmem : ((r :: rs).getLast (List.cons_ne_nil _ _)).sequence < 2 ^ 32 - 1 := by
      refine hlt _ ?_
      rw [hrec]
      exact List.mem_map_of_mem (List.getLast_mem _)
    simp only [List.head?_cons, hlast, List.getLast?_map, Option.map_some, Option.some.injEq]
    rw [u32_of_lt (by omega)]
    exact ⟨by omega, fun back he => by omega⟩

section Method

variable {env : Env} {cfg : AppendLogConfig} {harm : FsCall → Disk → Disk → Prop}
  {A : StoreMark → Disk → Prop} {ram : Ram} {d : Disk} {α : Type}

lemma watched_true {evs : List LogEvent} : Watched cfg harm A ram d evs fun _ => True :=
  ⟨fun _ => trivial, .inl fun _ => trivial⟩

/-- The value of a method is not looked at. -/
lemma wp_discard {J : Disk → Prop} {m : Store α} {P : Ram → Disk → Prop}
    (h : Wp env harm A J m (fun _ ram' d' => P ram' d') ram d) :
    Wp env harm A J (m >>= fun _ => (pure () : Store Unit)) (fun _ ram' d' => P ram' d') ram d :=
  wp_bind h (fun _ _ _ hp => wp_pure hp) fun _ _ _ hp => hp

lemma reads_readIndex {J : Disk → Prop} (hm : ram.mounted = true) :
    Reads env harm A J (Store.readIndex cfg) (· = ram.index) ram d :=
  (reads_ensureMounted hm).bind fun _ _ => wp_get_bind (reads_pure rfl)

lemma wp_readRecordSize {J : Disk → Prop} {sequence : ℕ} (hm : ram.mounted = true) :
    Wp env harm A J (Store.readRecordSize cfg sequence)
      (fun _ ram' d' => ram' = ram ∧ d' = d ∧ True) ram d := by
  refine (reads_ensureMounted hm).bind fun _ _ => wp_bind wp_lookupRecord ?_ ?_
  · rintro sr ram' d' ⟨rfl, rfl, -⟩
    exact wp_pure ⟨rfl, rfl, trivial⟩
  · rintro e ram' d' ⟨rfl, rfl, -⟩
    exact ⟨rfl, rfl, trivial⟩

lemma reads_freeBytes {J : Disk → Prop} (hd : Damaging harm) (hJ : J d) :
    Reads env harm A J Store.freeBytes (fun _ => True) ram d := by
  refine (reads_tryCall (P := fun _ => True) hd hJ rfl (fun _ _ => trivial)
    fun _ _ => trivial).bind fun a _ => ?_
  cases a <;> exact reads_pure trivial

lemma reads_pressure {J : Disk → Prop} {recordSize : ℕ} (hd : Damaging harm) (hJ : J d) :
    Reads env harm A J (Store.appendWouldHitAdmissionPressure cfg recordSize) (fun _ => True) ram
      d := by
  refine wp_get_bind ?_
  dsimp only
  repeat' split
  · exact reads_pure trivial
  · exact (reads_freeBytes hd hJ).bind fun _ _ => reads_pure trivial
  · exact reads_pure trivial

/-- The events an operation may log. -/
def StoreOp.Logs : StoreOp → LogEvent → Prop
  | .enqueue .., .enqueue .. | .pop _, .pop _ | .rewrite .., .rewrite .. => True
  | _, _ => False

/-- What a commit does is a sequence of moves. -/
lemma wp_moves_of_commits {J : Disk → Prop} {m : Store Unit} {P : Ram → Prop} {n : ℕ} {e : LogEvent}
    {E : LogEvent → Prop}
    (h : Wp env harm A J m (Commits cfg harm A ram d [] P n e) ram d) (he : E e) :
    Wp env harm A J m (fun _ ram' d' => ∃ evs, (∀ e ∈ evs, E e) ∧
      Moves cfg harm A ram d evs ram' d') ram d := by
  apply h.mono
  intro r ram' d' hq
  cases r with
  | ok _ => exact ⟨_, by simpa using he, (hq.1 rfl).1⟩
  | error e => exact ⟨[], by simp, hq.2 e rfl⟩

/-- What an operation other than `enqueue` and `format` does to a mounted object is a sequence of
moves. -/
lemma wp_method_of_ne {J : Disk → Prop} (hd : Damaging harm)
    (hgen : ∀ g d, A (.allocate g) d → g + 1 < 2 ^ 32) (hJ : Watched cfg harm A ram d [] J)
    (hm : ram.mounted = true) {op : StoreOp} (hop : op ≠ .format)
    (henqueue : ∀ fuel record, op ≠ .enqueue fuel record) :
    Wp env harm A J (op.method cfg)
      (fun _ ram' d' => ∃ evs, (∀ e ∈ evs, op.Logs e) ∧ Moves cfg harm A ram d evs ram' d')
      ram d := by
  have h0 : Moves cfg harm A ram d [] ram d := .refl
  have quiet : ∀ {α : Type} {m : Store α}, Wp env harm A J m
      (fun _ ram' d' => Moves cfg harm A ram d [] ram' d') ram d →
      Wp env harm A J m (fun _ ram' d' => ∃ evs, (∀ e ∈ evs, op.Logs e) ∧
        Moves cfg harm A ram d evs ram' d') ram d := fun h => h.mono fun _ _ _ hq =>
    ⟨[], by simp, hq⟩
  have same : ∀ {α : Type} {m : Store α} {P : Except Status α → Prop},
      Wp env harm A J m (fun r ram' d' => ram' = ram ∧ d' = d ∧ P r) ram d →
      Wp env harm A J m (fun _ ram' d' => ∃ evs, (∀ e ∈ evs, op.Logs e) ∧
        Moves cfg harm A ram d evs ram' d') ram d := fun h => h.mono fun _ _ _ hq =>
    ⟨[], by simp, by rw [hq.1, hq.2.1]; exact .refl⟩
  have lock : ∀ {c : FsCall} {contents : Bytes}, (c = .tryAcquireLockFile kLockFileName contents ∨
      c = .releaseLockFile kLockFileName contents) → Wp env harm A J (Store.call c)
        (fun _ ram' d' => ∃ evs, (∀ e ∈ evs, op.Logs e) ∧ Moves cfg harm A ram d evs ram' d')
        ram d := by
    intro c contents hc
    refine wp_call (hJ.reached h0) (fun w hw _ _ => ⟨[], by simp, ?_⟩)
      (fun w hw _ _ => ⟨[], by simp, ?_⟩)
      fun st d' hh => ⟨[], by simp, h0.quiet (.lock ?_)⟩
    · exact h0.quiet (.lock (hw ▸ handle_lock hc w))
    · exact h0.quiet (.lock (hw ▸ handle_lock hc w))
    · have := hd _ _ _ hh
      rcases hc with rfl | rfl <;> exact this
  cases op with
  | readIndex => exact wp_discard (same (P := fun _ => True) ((reads_readIndex hm).mono
      fun _ _ _ hq => ⟨hq.1, hq.2.1, trivial⟩))
  | enqueue fuel record => exact absurd rfl (henqueue fuel record)
  | pop expectedSequence =>
    exact wp_moves_of_commits (wp_commitPop hd hgen hJ h0 hm (u32_lt _)) trivial
  | rewrite fuel sequence record =>
    exact wp_moves_of_commits (wp_rewriteRecord hd hgen hJ h0 hm (u32_lt _)) trivial
  | readRecord sequence => exact wp_discard (same (wp_readRecord hd (hJ.reached h0) hm))
  | readRecordSize sequence => exact wp_discard (same (P := fun _ => True) (wp_readRecordSize hm))
  | pressure recordSize => exact wp_discard (same (P := fun _ => True)
      ((reads_pressure hd (hJ.reached h0)).mono fun _ _ _ hq => ⟨hq.1, hq.2.1, trivial⟩))
  | compactRange range fallback => exact wp_discard (quiet (wp_compactRange hd hgen hJ h0))
  | compactOneSegment fallback => exact wp_discard (quiet (wp_compactOneSegment hd hgen hJ h0))
  | reclaimDeadFrontSegment => exact wp_discard (quiet (wp_reclaimDeadFrontSegment hd hgen hJ h0))
  | compactIdle maxSteps => exact wp_discard (quiet (wp_compactIdle hd hgen hJ h0))
  | compactFull fuel => exact quiet (wp_compactFull hd hgen hJ fuel h0)
  | acquireLock contents => exact (reads_ensureMounted hm).bind fun _ _ => lock (.inl rfl)
  | releaseLock contents => exact lock (.inr rfl)
  | format => exact absurd rfl hop

/-- What an operation other than `format` does to a mounted object is a sequence of moves. -/
lemma wp_method (hd : Damaging harm) (hgen : ∀ g d, A (.allocate g) d → g + 1 < 2 ^ 32)
    (hm : ram.mounted = true) (hn : ram.nextSequence = 0) (hlt : ∀ s ∈ ram.seqs, s < 2 ^ 32 - 1)
    {op : StoreOp} (hop : op ≠ .format) :
    Wp env harm A (fun _ => True) (op.method cfg)
      (fun _ ram' d' => ∃ evs, (∀ e ∈ evs, op.Logs e) ∧ Moves cfg harm A ram d evs ram' d')
      ram d := by
  by_cases henqueue : ∃ fuel record, op = .enqueue fuel record
  · obtain ⟨fuel, record, rfl⟩ := henqueue
    obtain ⟨htail, hback⟩ := index_tail hn hlt
    refine (reads_readIndex hm).bind fun index hindex => ?_
    rw [hindex]
    exact wp_moves_of_commits (wp_commitEnqueue hd hgen watched_true .refl hm htail hback) trivial
  · exact wp_method_of_ne hd hgen watched_true hm hop fun fuel record he =>
      henqueue ⟨fuel, record, he⟩

/-! ## One operation of an object that has mounted nothing -/

/-- The operations that begin by mounting the directory. -/
def StoreOp.Mounts : StoreOp → Prop
  | .readIndex | .enqueue .. | .pop _ | .rewrite .. => True
  | .readRecord _ | .readRecordSize _ | .acquireLock _ => True
  | _ => False

lemma StoreOp.Mounts.method {op : StoreOp} (h : op.Mounts) :
    ∃ k, op.method cfg = Store.ensureMounted cfg >>= k := by
  cases op with
  | readIndex | enqueue _ _ | readRecord _ | readRecordSize _ => exact ⟨_, Act.bind_assoc _ _ _⟩
  | pop _ | rewrite _ _ _ | acquireLock _ => exact ⟨_, rfl⟩
  | _ => exact h.elim

lemma wp_of_mounted (cfg : AppendLogConfig) {J : Disk → Prop} {k : Unit → Store α}
    {Q : DiskPost Ram α}
    (hm : ram.mounted = true) (h : Wp env harm A J (Store.ensureMounted cfg >>= k) Q ram d) :
    Wp env harm A J (k ()) Q ram d := by
  have heq : (Store.ensureMounted cfg >>= k) ram = k () ram := by
    show ((Store.when (¬ram.mounted = true) (Store.mount cfg)) ram).bind (Act.step k) = k () ram
    rw [Store.when, if_neg (not_not.2 hm)]
    rfl
  intro w hw
  have := h w hw
  rw [Act.wp, heq] at this
  exact this

/-! ### Nothing to compact -/

section NoRanges

variable {J : Disk → Prop} (hr : ram.manifestRanges = [])

include hr

lemma reads_compactRange (hJ : J d) {range : CompactionRange}
    {fallback : AllowFullRangeFallback} :
    Reads env harm A J (Store.compactRange cfg range fallback) (· = .noOp) ram d := by
  have hnone : ram.planCompaction cfg range fallback = none := by
    have hidx : findParentRangeIdx ram.manifestRanges range = none := by
      rw [findParentRangeIdx, hr]
      split <;> rfl
    rw [Ram.planCompaction, hidx]
    rfl
  refine wp_get_bind (wp_mark_bind hJ fun _ => ?_)
  rw [hnone]
  exact reads_pure rfl

lemma reads_compactOneSegment {fallback : AllowFullRangeFallback} :
    Reads env harm A J (Store.compactOneSegment cfg fallback) (· = .noOp) ram d := by
  refine wp_get_bind ?_
  have hnone : ram.chooseCompactionRange = none := by
    rw [Ram.chooseCompactionRange, hr]
    rfl
  rw [hnone]
  exact reads_pure rfl

lemma reads_reclaimDeadFrontSegment :
    Reads env harm A J (Store.reclaimDeadFrontSegment cfg) (· = .noOp) ram d := by
  refine wp_get_bind ?_
  rw [hr]
  exact reads_pure rfl

lemma reads_compactIdle {maxSteps : ℕ} :
    Reads env harm A J (Store.compactIdle cfg maxSteps)
      (fun res => res.compactions = 0) ram d := by
  refine wp_get_bind (Reads.bind (P := fun res => res.compactions = 0) ?_ fun res hres =>
    wp_get_bind (reads_pure hres))
  cases maxSteps with
  | zero => exact reads_pure rfl
  | succ n =>
    have hone : Reads env harm A J (Act.attempt (Store.compactOneSegment cfg .yes))
        (· = .ok .noOp) ram d := by
      refine wp_attempt ((reads_compactOneSegment hr).mono ?_)
      rintro r ram' d' ⟨rfl, rfl, a, rfl, rfl⟩
      exact ⟨rfl, rfl, _, rfl, rfl⟩
    refine hone.bind fun st hst => ?_
    subst hst
    exact reads_pure rfl

lemma reads_compactFull (hJ : J d) {fuel : ℕ} :
    Wp env harm A J (Store.compactFull cfg fuel) (fun _ ram' d' => ram' = ram ∧ d' = d) ram d := by
  cases fuel with
  | zero => exact wp_spin hJ
  | succ fuel =>
    refine (reads_compactIdle hr).bind fun res hres => ?_
    split
    · exact wp_fail ⟨rfl, rfl⟩
    · rw [if_neg (by omega)]
      exact wp_pure ⟨rfl, rfl⟩

end NoRanges

/-- A format empties the object, or it cannot list the directory. -/
lemma wp_format (hd : Damaging harm) :
    Wp env harm A (fun _ => True) Store.format (fun r ram' d' =>
      r = .ok () ∧ ram' = ram.formatted ∨ (∃ st, r = .error st) ∧ ram' = ram ∧ d' = d) ram d := by
  have hskip : ∀ {c : FsCall} {d : Disk}, Wp env harm A (fun _ => True) (Store.ignore c)
      (fun r ram' _ => r = .ok () ∧ ram' = ram) ram d := fun {c d} =>
    wp_bind (Q := fun r ram' _ => (∃ a, r = .ok a) ∧ ram' = ram)
      (wp_tryCall trivial (fun _ _ => ⟨⟨_, rfl⟩, rfl⟩) fun _ _ _ => ⟨⟨_, rfl⟩, rfl⟩)
      (fun _ _ _ hq => wp_pure ⟨rfl, hq.2⟩) fun _ _ _ hq => nomatch hq.1
  have hloop : ∀ (files : List FileName) (d : Disk), Wp env harm A (fun _ => True)
      (Act.forEach (fun name => Store.when (isSegmentName name).isSome
        (Store.ignore (.removeFile name))) files) (fun r ram' _ => r = .ok () ∧
          ram' = ram) ram d := by
    intro files
    induction files with
    | nil => exact fun d => wp_pure ⟨rfl, rfl⟩
    | cons name files ih =>
      intro d
      refine wp_bind (Q := fun r ram' _ => r = .ok () ∧ ram' = ram)
        (wp_when (fun _ => hskip) fun _ => ⟨rfl, rfl⟩) ?_ fun _ _ _ hq => nomatch hq.1
      rintro _ ram' d' ⟨-, rfl⟩
      exact ih d'
  have hread : ∀ {c : FsCall}, c.mutates = false → Wp env harm A (fun _ => True) (Store.call c)
      (fun _ ram' d' => ram' = ram ∧ d' = d) ram d := fun hc =>
    wp_call trivial (fun w hw _ _ => ⟨rfl, (handle_disk hc w).trans hw⟩)
      (fun w hw _ _ => ⟨rfl, (handle_disk hc w).trans hw⟩)
      fun st d' hh => ⟨rfl, damage_of_not_mutates hc (hd _ _ _ hh)⟩
  refine wp_bind (hread rfl) ?_ fun st _ _ hq => .inr ⟨⟨st, rfl⟩, hq⟩
  rintro _ ram' d' ⟨rfl, rfl⟩
  refine wp_bind (hread rfl) ?_ fun st _ _ hq => .inr ⟨⟨st, rfl⟩, hq⟩
  rintro files ram' d' ⟨rfl, rfl⟩
  refine wp_bind (hloop files d') ?_ fun _ _ _ hq => nomatch hq.1
  rintro _ ram' d' ⟨-, rfl⟩
  refine wp_bind hskip ?_ fun _ _ _ hq => nomatch hq.1
  rintro _ ram' d' ⟨-, rfl⟩
  refine wp_bind hskip ?_ fun _ _ _ hq => nomatch hq.1
  rintro _ ram' d' ⟨-, rfl⟩
  exact wp_modify (.inl ⟨rfl, rfl⟩)

lemma Fresh.release (h : Fresh ram d) (hd : Damaging harm) {contents : Bytes} :
    Wp env harm A (fun _ => True) (Store.releaseLockFile kLockFileName contents)
      (fun _ ram' d' => Fresh ram' d') ram d := by
  have hkeep : ∀ {d' : Disk}, SameExcept kLockFileName d d' → Fresh ram d' := fun hs =>
    { h with empty := fun name hne => (hs name hne).trans (h.empty name hne) }
  exact wp_call trivial (fun w hw _ _ => hkeep (hw ▸ handle_lock (.inr rfl) w))
    (fun w hw _ _ => hkeep (hw ▸ handle_lock (.inr rfl) w)) fun st d' hh => hkeep (hd _ _ _ hh)

namespace Kept

lemma of_moves {ram' : Ram} {d' : Disk} {evs : List LogEvent} (hd : Damaging harm)
    (htear : TearsSlots harm) (hA : ∀ mk d, A mk d → Within unbounded mk)
    (h : Settled cfg ram d) (hn : ram.nextSequence = 0) (hlt : ∀ s ∈ ram.seqs, s < 2 ^ 32 - 1)
    (hm : Moves cfg harm A ram d evs ram' d') : Kept cfg ram' d' :=
  .inr ⟨h.moves hd htear hA hm, hm.nextSequence.trans hn, hm.seqs_lt hlt⟩

lemma formatted (hs : ∀ s : Slot, d.lookup s.fileName = none) : Kept cfg ram.formatted d := by
  refine .inr ⟨.inl ⟨⟨rfl, rfl, rfl, rfl, rfl, rfl, one_ne_zero⟩, rfl, fun s => ?_⟩, rfl,
    fun s hs => absurd hs List.not_mem_nil⟩
  rw [Disk.manifest, hs]
  rfl

/-- **One operation** keeps the state. -/
theorem step (hd : Damaging harm) (htear : TearsSlots harm)
    (hA : ∀ mk d, A mk d → Within unbounded mk) (h : Kept cfg ram d) (op : StoreOp) :
    Wp env harm A (fun _ => True) (op.method cfg)
      (fun _ ram' d' => SlotsRemoved op d' → Kept cfg ram' d') ram d := by
  have hgen : ∀ g d, A (.allocate g) d → g + 1 < 2 ^ 32 := fun g d => hA (.allocate g) d
  have hmounted : ∀ {ram : Ram}, Settled cfg ram d → ram.nextSequence = 0 →
      (∀ s ∈ ram.seqs, s < 2 ^ 32 - 1) → op ≠ .format →
      Wp env harm A (fun _ => True) (op.method cfg) (fun _ ram' d' => SlotsRemoved op d' →
        Kept cfg ram' d') ram d := fun hs hn hlt hop =>
    (wp_method hd hgen (hs.coherent.elim (·.mounted) (·.mounted)) hn hlt hop).mono
      fun _ _ _ ⟨_, _, hm⟩ _ => of_moves hd htear hA hs hn hlt hm
  have hformat : ∀ {ram : Ram}, Kept cfg ram d → Wp env harm A (fun _ => True) Store.format
      (fun _ ram' d' => SlotsRemoved .format d' → Kept cfg ram' d') ram d := fun h =>
    (wp_format hd).mono fun _ _ _ hq hs => by
      rcases hq with ⟨-, rfl⟩ | ⟨-, rfl, rfl⟩
      · exact formatted hs
      · exact h
  rcases h with h | ⟨hs, hn, hlt⟩
  swap
  · by_cases hop : op = .format
    · subst hop
      exact hformat (.inr ⟨hs, hn, hlt⟩)
    · exact hmounted hs hn hlt hop
  have same : ∀ {β : Type} {m : Store β}, Wp env harm A (fun _ => True) m
      (fun _ ram' d' => ram' = ram ∧ d' = d) ram d → Wp env harm A (fun _ => True) m
        (fun _ ram' d' => SlotsRemoved op d' → Kept cfg ram' d') ram d := fun hw =>
    hw.mono fun _ _ _ hq _ => by rw [hq.1, hq.2]; exact .inl h
  have quiet : ∀ {β : Type} {m : Store β} {P : β → Prop},
    Reads env harm A (fun _ => True) m P ram d →
      Wp env harm A (fun _ => True) m (fun _ ram' d' => SlotsRemoved op d' → Kept cfg ram' d')
        ram d := fun hr => same (hr.mono fun _ _ _ hq => ⟨hq.1, hq.2.1⟩)
  by_cases hmounts : op.Mounts
  · obtain ⟨k, hk⟩ : ∃ k, op.method cfg = Store.ensureMounted cfg >>= k := hmounts.method
    have hop : op ≠ .format := by
      rintro rfl
      exact hmounts
    rw [hk]
    refine h.wp_ensureMounted hd trivial (fun ram' hb hu hn => ?_) fun st _ => .inl h
    refine wp_of_mounted cfg hb.mounted ?_
    rw [← hk]
    refine hmounted (.inl ⟨hb, hu⟩) hn (fun s hs => ?_) hop
    rw [Ram.seqs, hb.records] at hs
    exact absurd hs List.not_mem_nil
  · cases op with
    | pressure => exact wp_discard (quiet (reads_pressure hd trivial))
    | compactRange => exact wp_discard (quiet (reads_compactRange h.ranges trivial))
    | compactOneSegment => exact wp_discard (quiet (reads_compactOneSegment h.ranges))
    | reclaimDeadFrontSegment => exact wp_discard (quiet (reads_reclaimDeadFrontSegment h.ranges))
    | compactIdle => exact wp_discard (quiet (reads_compactIdle h.ranges))
    | compactFull => exact same (reads_compactFull h.ranges trivial)
    | releaseLock => exact (h.release hd).mono fun _ _ _ hq _ => .inl hq
    | format => exact hformat (.inl h)
    | _ => exact absurd trivial hmounts

end Kept

/-- **Any run** keeps the state. -/
theorem StoreRun.kept {w : World} (hd : Damaging harm) (htear : TearsSlots harm)
    (hA : ∀ mk d, A mk d → Within unbounded mk)
    (h : StoreRun env cfg harm A SlotsRemoved ram w) : Kept cfg ram w.disk := by
  induction h with
  | start hw =>
    refine .inl ⟨rfl, rfl, rfl, rfl, rfl, rfl, fun name _ => ?_⟩
    rw [hw]
    rfl
  | @step ram w op r ram' w' _ he hF ih => exact (ih.step hd htear hA op).sound he hF

end Method

/-! ## Runs that exist

Objects without budgets: the records go into one segment, for as long as the code finds that they
fit. -/

/-- A mounted object whose tail is segment `gen`, with the contents `data` and a log that it
takes to be `bytes` bytes long. -/
structure TailIs (ram : Ram) (d : Disk) (gen bytes : ℕ) (data : Bytes) (rs : List SegmentRecord) :
    Prop where
  mounted : ram.mounted = true
  active : ram.activeGeneration = gen
  bytes_eq : ram.activeSegmentBytes = bytes
  records : ram.records = rs
  file : d.lookup (segmentName gen) = some data

section Exhibit

variable {env : Env} {cfg : AppendLogConfig} {harm : FsCall → Disk → Disk → Prop}
  {A : StoreMark → Disk → Prop} {ram : Ram} {w : World} {rs : List SegmentRecord} {gen bytes : ℕ}
  {data : Bytes}

/-- The tail after an enqueue. -/
lemma TailIs.enqueued {d : Disk} (h : TailIs ram d gen bytes data rs) (sequence : ℕ)
    (record data' : Bytes) :
    TailIs (ram.logged (.enqueue sequence record)) (d.insert (segmentName gen) data') gen
      (u32 (bytes + u32 (kEnqueueOverheadBytes + record.length))) data'
      (rs ++ [⟨sequence, gen, u32 (bytes + kEnqueueHeaderBytes), u32 record.length⟩]) where
  mounted := h.mounted
  active := h.active
  bytes_eq := by
    rw [← h.bytes_eq]
    show u32 (ram.activeSegmentBytes + u32 (serializePayloadEvent _ _ _).length) = _
    rw [length_serializePayloadEvent]
  records := by
    rw [← h.bytes_eq, ← h.records, ← h.active]
    rfl
  file := AList.lookup_insert _

/-- A commit into a tail in which the code finds room. -/
lemma may_commit {fuel sequence : ℕ} {record : Bytes} (h : TailIs ram w.disk gen bytes data rs)
    (hok : PayloadOk cfg record) (htotal : cfg.maxTotalBytes = 0) (hfree : cfg.minFreeBytes = 0)
    (hopen : bytes ≠ 0) (hroom : u32 (bytes + u32 (kEnqueueOverheadBytes + u32 record.length)) ≤
      cfg.maxSegmentBytes) (hseq : sequence ≠ 2 ^ 32 - 1)
    (hA : A (.append gen bytes (kEnqueueOverheadBytes + record.length)) w.disk) :
    May env harm A (Store.commitEnqueue cfg fuel sequence record) (fun r ram' w' => r = .ok () ∧
      TailIs ram' w'.disk gen (u32 (bytes + u32 (kEnqueueOverheadBytes + record.length)))
        (overwrite data bytes (serializeEnqueueEvent sequence record))
        (rs ++ [⟨sequence, gen, u32 (bytes + kEnqueueHeaderBytes), u32 record.length⟩]) ∧
      SameExcept (segmentName gen) w.disk w'.disk) ram w := by
  have hstay : ¬ram.needsRotation cfg (u32 (kEnqueueOverheadBytes + u32 record.length)) :=
    fun hr => by
    have := hr.2
    rw [h.bytes_eq] at this
    omega
  refine may_commitEnqueue h.mounted hok hseq htotal hfree
    (may_makeRoom_stay hstay (h.bytes_eq ▸ hopen) ⟨rfl, data, ?_, ?_, rfl, ?_, ?_⟩)
  · rw [h.active]
    exact h.file
  · rw [h.active, h.bytes_eq]
    show A (.append _ _ (serializePayloadEvent _ _ _).length) _
    rw [length_serializePayloadEvent]
    exact hA
  · rw [h.active, h.bytes_eq]
    exact h.enqueued ..
  · rw [h.active]
    exact sameExcept_insert _ _ _

/-- An enqueue into a tail in which the code finds room. -/
lemma may_enqueue {fuel : ℕ} {record : Bytes} (h : TailIs ram w.disk gen bytes data rs)
    (hok : PayloadOk cfg record) (htotal : cfg.maxTotalBytes = 0) (hfree : cfg.minFreeBytes = 0)
    (hopen : bytes ≠ 0) (hroom : u32 (bytes + u32 (kEnqueueOverheadBytes + u32 record.length)) ≤
      cfg.maxSegmentBytes) {tail : ℕ} (htail : ram.index.tail = tail) (hseq : tail ≠ 2 ^ 32 - 1)
    (hA : A (.append gen bytes (kEnqueueOverheadBytes + record.length)) w.disk) :
    May env harm A ((StoreOp.enqueue fuel record).method cfg) (fun r ram' w' => r = .ok () ∧
      TailIs ram' w'.disk gen (u32 (bytes + u32 (kEnqueueOverheadBytes + record.length)))
        (overwrite data bytes (serializeEnqueueEvent tail record))
        (rs ++ [⟨tail, gen, u32 (bytes + kEnqueueHeaderBytes), u32 record.length⟩])) ram w := by
  refine Act.may_bind (Act.may_bind (Act.may_get_bind ?_))
  rw [Store.when, if_neg (not_not.2 h.mounted)]
  refine Act.may_pure (Act.may_get_bind (Act.may_pure ?_))
  simp only [Act.andThen, htail]
  exact (may_commit h hok htotal hfree hopen hroom hseq hA).mono fun _ _ _ hq => ⟨hq.1, hq.2.1⟩

/-- A directory with no files. -/
lemma elected_empty {d : Disk} (h : d = ∅) (name : FileName) :
    d.lookup name = none ∧ Disk.elected d = none := by
  subst h
  exact ⟨rfl, rfl⟩

/-- An empty directory is mounted. -/
lemma may_mount (h : w.disk = ∅) :
    May env harm A (Store.mount cfg) (fun r ram' w' => r = .ok () ∧ Blank ram' ∧
      ram'.nextGeneration = 1 ∧ ram'.nextSequence = 0 ∧ ram'.cachedWrittenSlot = none ∧
        w'.disk = w.disk) {} w := by
  refine may_of_wpc (marksIn_mount cfg) (wpc_mount_empty (J := fun _ => True)
    (elected_empty h Slot.a.fileName).2 (fun name hname => ?_) trivial
      fun ram' w' hm hcore hw => ?_)
  · have := AList.lookup_isSome.2 (AList.mem_keys.2 hname)
    rw [(elected_empty h name).1] at this
    cases this
  · have hs := SameCore.of_core hcore
    have hnext : ram'.nextGeneration = 1 := hs.next
    exact ⟨rfl, ⟨hm, hs.bytes, hs.active, hs.ranges, hs.gens, hs.records,
      fun h0 => one_ne_zero (hnext.symm.trans h0)⟩, hnext, hs.sequence, hs.slot, hw⟩

/-- A new object mounts it when it has to. -/
lemma may_mount_empty (h : w.disk = ∅) :
    May env harm A (Store.ensureMounted cfg) (fun r ram' w' => r = .ok () ∧ Blank ram' ∧
      ram'.nextGeneration = 1 ∧ ram'.nextSequence = 0 ∧ ram'.cachedWrittenSlot = none ∧
        w'.disk = w.disk) {} w := by
  refine Act.may_get_bind ?_
  rw [Store.when, if_pos Bool.false_ne_true]
  exact may_mount h

/-- The first commit of an object, on a directory without manifest slots. -/
lemma may_commit_first {fuel sequence : ℕ} {record : Bytes} (hb : Blank ram)
    (hnext : ram.nextGeneration = 1) (hslot : ram.cachedWrittenSlot = none)
    (hempty : ∀ s : Slot, w.disk.lookup s.fileName = none) (hok : PayloadOk cfg record)
    (htotal : cfg.maxTotalBytes = 0) (hfree : cfg.minFreeBytes = 0) (hseq : sequence ≠ 2 ^ 32 - 1)
    (hgen : ∀ d, A (.allocate 1) d) (hpub : ∀ d, A (.publish 0 ⟨0, 2, [], 1⟩) d)
    (hA : ∀ d, A (.append 1 kSegmentHeaderBytes (kEnqueueOverheadBytes + record.length)) d) :
    May env harm A (Store.commitEnqueue cfg fuel sequence record) (fun r ram' w' => r = .ok () ∧
      TailIs ram' w'.disk 1
        (u32 (kSegmentHeaderBytes + u32 (kEnqueueOverheadBytes + record.length)))
        (overwrite (serializeSegmentHeader 1 sequence) kSegmentHeaderBytes
          (serializeEnqueueEvent sequence record))
        [⟨sequence, 1, kSegmentHeaderBytes + kEnqueueHeaderBytes, u32 record.length⟩] ∧
      w'.disk.lookup kLockFileName = w.disk.lookup kLockFileName) ram w := by
  have hprobe : ram.target w.disk = some (.a, 0) := by
    have helect : Disk.elected w.disk = none := by
      rw [Disk.elected, Disk.manifest, Disk.manifest, hempty, hempty]
      rfl
    simp only [Ram.target, hslot, Disk.probe, helect, hempty, Disk.manifest]
    rfl
  refine may_commitEnqueue hb.mounted hok hseq htotal hfree
    (may_makeRoom_first hb hprobe rfl (by rw [hnext]; exact hgen _)
      (by rw [hnext]; exact hpub _) ⟨rfl, ?_⟩)
  have hstart : ∀ md : ManifestData, md.tailGeneration = 1 → ∀ n,
      TailIs (ram.started .a md n) (Disk.publish (Disk.create w.disk 1 sequence) .a md) 1
        kSegmentHeaderBytes (serializeSegmentHeader 1 sequence) [] := fun md hmd n =>
    ⟨hb.mounted, hmd, rfl, hb.records, (AList.lookup_insert_ne (segmentName_ne_slot 1 .a)).trans
      (AList.lookup_insert _)⟩
  rw [hnext]
  have ht := hstart ⟨u32 (0 + 1), u32 (1 + 1), [], 1⟩ rfl (Disk.size w.disk Slot.a.fileName)
  refine ⟨serializeSegmentHeader 1 sequence, ?_, ?_, rfl, ?_, ?_⟩
  · rw [ht.active]
    exact ht.file
  · rw [ht.active, ht.bytes_eq]
    show A (.append _ _ (serializePayloadEvent _ _ _).length) _
    rw [length_serializePayloadEvent]
    exact hA _
  · rw [ht.active, ht.bytes_eq]
    exact ht.enqueued ..
  · rw [ht.active]
    exact ((AList.lookup_insert_ne (segmentName_ne_lock 1).symm).trans
      (AList.lookup_insert_ne (slot_ne_lock .a).symm)).trans
        (AList.lookup_insert_ne (segmentName_ne_lock 1).symm)

/-- The first enqueue of an object, on an empty directory. -/
lemma may_enqueue_first {fuel : ℕ} {record : Bytes} (h : w.disk = ∅) (hok : PayloadOk cfg record)
    (htotal : cfg.maxTotalBytes = 0) (hfree : cfg.minFreeBytes = 0)
    (hgen : ∀ d, A (.allocate 1) d) (hpub : ∀ d, A (.publish 0 ⟨0, 2, [], 1⟩) d)
    (hA : ∀ d, A (.append 1 kSegmentHeaderBytes (kEnqueueOverheadBytes + record.length)) d) :
    May env harm A ((StoreOp.enqueue fuel record).method cfg) (fun r ram' w' => r = .ok () ∧
      TailIs ram' w'.disk 1
        (u32 (kSegmentHeaderBytes + u32 (kEnqueueOverheadBytes + record.length)))
        (overwrite (serializeSegmentHeader 1 0) kSegmentHeaderBytes
          (serializeEnqueueEvent 0 record))
        [⟨0, 1, kSegmentHeaderBytes + kEnqueueHeaderBytes, u32 record.length⟩]) {} w := by
  refine Act.may_bind (Act.may_bind ((may_mount_empty h).mono ?_))
  rintro _ ram' w' ⟨rfl, hb, hnext, hseq, hslot, hw⟩
  refine Act.may_get_bind (Act.may_pure ?_)
  have htail : ram'.index.tail = 0 := by
    rw [Ram.index, hb.records]
    exact hseq
  simp only [Act.andThen, htail]
  have hempty : ∀ s : Slot, w'.disk.lookup s.fileName = none := fun s => by
    rw [hw]
    exact (elected_empty h _).1
  exact (may_commit_first hb hnext hslot hempty hok htotal hfree (by decide) hgen hpub hA).mono
    fun _ _ _ hq => ⟨hq.1, hq.2.1⟩

end Exhibit

end Pqueue
