import Pqueue.Store.Crashes
import Pqueue.Store.Invariant

/-!
# Stores over several lifetimes

An object is left without ado, or it is cut off by a crash inside an operation; the next one mounts
its directory in the first operation that has to.  `Lifetimes` are the runs of one object after the
other.  `lifetimes_refine` says that they are runs of a list, and that a directory with a manifest
can be mounted at any point.

No call fails in these runs, they keep within what a mount accepts, and every compaction they plan
is `Clear` (`Guarded`).  The last is nothing that the code checks: a compaction of a part of the log
may drop the POP of a record whose ENQUEUE it leaves behind, and the record is back after the next
mount.
-/

namespace Pqueue

open Effect LittleEndian

/-! ## Runs -/

/-- The states that operations without failing calls lead to, on a directory that is empty at
first.  Once a manifest is published, the object may be replaced by a new one, and where a file can
be cut at its end it may crash, except while it formats the directory. -/
inductive Lifetimes (env : Env) (cfg : AppendLogConfig) (A : StoreMark → Disk → Prop) :
    List StoreEvent → Ram → World → Prop
  | start {w} (h : w.disk = ∅) : Lifetimes env cfg A [] {} w
  | operation {trace ram w op r ram' w'} (h : Lifetimes env cfg A trace ram w)
      (he : Executes env noHarm A (op.method cfg) ram w r ram' w') :
      Lifetimes env cfg A (trace ++ [.operation op r]) ram' w'
  | reopened {trace ram w} (h : Lifetimes env cfg A trace ram w)
      (hpublished : (Disk.elected w.disk).isSome) :
      Lifetimes env cfg A (trace ++ [.reopened]) {} w
  | crashed {trace ram w op w'} (h : Lifetimes env cfg A trace ram w)
      (hb : env.backend = .posix) (hpublished : (Disk.elected w.disk).isSome) (hop : op ≠ .format)
      (hc : Crashes env A (op.method cfg) ram w w') :
      Lifetimes env cfg A (trace ++ [.crashed op]) {} w'

/-! ## Directories that retain records -/

/-- The marked points are within the guards of a mount, and the inputs of compactions are clear. -/
def Guarded (cfg : AppendLogConfig) (mk : StoreMark) (d : Disk) : Prop :=
  Within guards mk ∧ ClearAt cfg mk d

instance (cfg : AppendLogConfig) (mk : StoreMark) (d : Disk) : Decidable (Guarded cfg mk d) :=
  inferInstanceAs (Decidable (_ ∧ _))

/-- **One move** of an object whose index is what its logs say, when calls fail as a crash
interrupts them: the index stays so, or the write of an event has left a part of it. -/
theorem Synced.move_cut {cfg : AppendLogConfig} {harm : FsCall → Disk → Disk → Prop}
    {A : StoreMark → Disk → Prop} {ram ram' : Ram} {d d' : Disk} {seg : ℕ → List LogEvent}
    {evs : List LogEvent} (hi : Interrupts harm) (hA : ∀ mk d, A mk d → Guarded cfg mk d)
    (h : Synced cfg guards ram d seg) (hm : Move cfg harm A ram d evs ram' d') :
    (∃ seg', Synced cfg guards ram' d' seg') ∨ evs = [] ∧ ram' = ram ∧ Tears cfg harm ram d d' := by
  have hwithin : ∀ mk d, A mk d → Within guards mk := fun mk d hmk => (hA mk d hmk).1
  cases hm with
  | lock hlock => exact .inl ⟨seg, h.frame (h.toStored.lock hlock) rfl⟩
  | noteSealed => exact .inl ⟨seg, h.frame h.toStored.noteSealed rfl⟩
  | wrote hg hlt hmark =>
    exact .inl ⟨seg, h.frame (h.toStored.wrote hg hlt _ _ _) (core_trackWrite ..)⟩
  | writeFailed hg hlt hharm =>
    obtain ⟨n, -, rfl⟩ | ⟨-, rfl⟩ := hi _ _ _ hharm
    · exact .inl ⟨seg, h.frame (h.toStored.stray hg hlt _) rfl⟩
    · exact .inl ⟨seg, h⟩
  | opened ho hn => exact .inl ⟨_, h.opened hwithin (hi.opens ho) _⟩
  | openFailed ho hharm =>
    exact .inl ⟨seg, h.frame (h.toStored.openCut hi ho hharm) (core_trackWrite ..)⟩
  | logged hl hopen hmark hold => exact .inl ⟨_, h.logged hl (hwithin _ _ hmark) hold rfl rfl⟩
  | @logFailed e _ hl hopen hmark hharm =>
    obtain ⟨old, n, hold, hn, hd'⟩ | ⟨-, rfl⟩ := hi _ _ _ hharm
    · have hf := h.toStored.tornTail hl (hwithin _ _ hmark) hold hn
      rw [← hd'] at hf
      by_cases hnil : e.encode.take n = []
      · rw [hnil] at hf
        exact .inl ⟨seg, h.frame (h.toStored.of_frayed_nil hf) rfl⟩
      · exact .inr ⟨rfl, rfl, _, _, _, _, hharm, hnil, hf⟩
    · exact .inl ⟨seg, h⟩
  | compacted hc ht hn hmark hr =>
    obtain ⟨seg', h', hkeep, hrecords⟩ := h.prepared hwithin (hi.prepared hc.prepared)
    have hdet := h.detached h'.toIndexed hkeep hrecords (fun mk d hmk => (hA mk d hmk).2) hc
    exact .inl ⟨_, h'.compacted h.coherent hwithin hdet hc hmark hr (hi.targets ht)⟩
  | compactFailed hc ht hmark hharm =>
    obtain ⟨seg', h', -, -⟩ := h.prepared hwithin (hi.prepared hc.prepared)
    exact .inl ⟨seg', h'.frame (h'.toStored.compactCut h.sited hi hc ht hharm)
      (core_wroteAll ..)⟩

/-- A mounted object with the records `L`, whose index is what its logs say. -/
structure Holding (cfg : AppendLogConfig) (L : List (ℕ × Bytes)) (ram : Ram) (d : Disk) : Prop where
  synced : ∃ seg, Synced cfg guards ram d seg
  contents : ram.contents d = L
  seqs_lt : ∀ s ∈ ram.seqs, s < 2 ^ 32 - 1

/-- A directory that such an object may have left. -/
def Retains (env : Env) (cfg : AppendLogConfig) (d : Disk) (L : List (ℕ × Bytes)) : Prop :=
  Leaves env cfg (Holding cfg L) d

section Holding

variable {cfg : AppendLogConfig} {A : StoreMark → Disk → Prop} {ram : Ram} {d : Disk}
  {L : List (ℕ × Bytes)}

lemma lasting_holding (L : List (ℕ × Bytes)) : Lasting cfg (Holding cfg L) where
  stored h := by
    obtain ⟨seg, hs⟩ := h.synced
    exact ⟨seg, hs.toStored⟩
  congr h hslots hfiles hcan := by
    obtain ⟨⟨seg, hs⟩, hcontents, hlt⟩ := h
    have hstored := hs.toStored.frame rfl (fun _ _ _ => rfl) hfiles hslots hcan
    exact ⟨⟨seg, hs.frame hstored rfl⟩,
      (hs.sited.keep (Keeps.of_lookup hfiles)).2.trans hcontents, hlt⟩

lemma Holding.ready (h : Holding cfg L ram d) : Ready cfg ram d L := by
  obtain ⟨seg, hs⟩ := h.synced
  exact .inr ⟨hs.coherent, h.contents⟩

/-- The records are those before with the events applied. -/
lemma withstands_holding (hA : ∀ mk d, A mk d → Guarded cfg mk d) (L : List (ℕ × Bytes)) :
    Withstands cfg A fun evs => Holding cfg (afterEvents L evs) where
  guarded mk d hmk := (hA mk d hmk).1
  lasting evs := lasting_holding _
  move {harm B evs ram d evs' ram' d'} hi hB h hm := by
    have hA' : ∀ mk d, B mk d → Guarded cfg mk d := fun mk d hmk => hA mk d (hB mk d hmk)
    obtain ⟨seg, hs⟩ := h.synced
    obtain hs' | htears := hs.move_cut hi hA' hm
    · left
      rw [afterEvents_append]
      have hmoves : Moves cfg harm B ram d ([] ++ evs') ram' d' := Moves.refl.step hm
      exact ⟨hs', (h.ready.move hi.damaging
        (fun mk d hmk => (hA' mk d hmk).1.unbounded.offsets) hm).contents, hmoves.seqs_lt h.seqs_lt⟩
    · exact .inr htears

end Holding

/-! ## A mounted object -/

lemma upheld_guarded {cfg : AppendLogConfig} {A : StoreMark → Disk → Prop}
    (hA : ∀ mk d, A mk d → Guarded cfg mk d) : Upheld cfg A (SyncedWith cfg guards) :=
  upheld_synced (fun mk d hmk => (hA mk d hmk).1) fun mk d hmk => (hA mk d hmk).2

lemma Holding.standing {cfg : AppendLogConfig} {ram : Ram} {d : Disk} {L : List (ℕ × Bytes)}
    (h : Holding cfg L ram d) (hn : ram.nextSequence < 2 ^ 32) :
    Standing (SyncedWith cfg guards) ram d L :=
  ⟨.inr h.synced, h.contents, hn, h.seqs_lt⟩

lemma Standing.holding {cfg : AppendLogConfig} {ram : Ram} {d : Disk} {L : List (ℕ × Bytes)}
    (h : Standing (SyncedWith cfg guards) ram d L) (hp : (Disk.elected d).isSome) :
    Holding cfg L ram d := by
  obtain ⟨⟨-, -, hbare⟩ | hs, hcontents, -, hlt⟩ := h
  · rw [hbare.elected] at hp
    simp at hp
  · exact ⟨hs, hcontents, hlt⟩

section Crash

variable {env : Env} {cfg : AppendLogConfig} {A : StoreMark → Disk → Prop} {ram : Ram}
  {w w' : World} {L : List (ℕ × Bytes)} {op : StoreOp}

/-- **One crash** of a mounted object: the operation has happened, or it has not. -/
theorem Standing.crash (hb : env.backend = .posix) (hA : ∀ mk d, A mk d → Guarded cfg mk d)
    (h : Standing (SyncedWith cfg guards) ram w.disk L) (hp : (Disk.elected w.disk).isSome)
    (hop : op ≠ .format) (hc : Crashes env A (op.method cfg) ram w w') :
    ∃ L', Retains env cfg w'.disk L' ∧ (L' = L ∨ ListStep op L (.ok ()) L') := by
  have hstart : Holding cfg (afterEvents L []) ram w.disk := h.holding hp
  obtain ⟨evs, hevs, hleaves⟩ := (withstands_holding hA L).crash hb hstart
    (fun harm B J hd hgen hJ => h.wp_method hd hgen hJ (h.ready (upheld_guarded hA)).mounted hop) hc
  refine ⟨afterEvents L evs, hleaves, ?_⟩
  rcases hevs with rfl | ⟨_ | _, hs⟩
  · exact .inl rfl
  · exact .inl (listStep_error.1 hs)
  · exact .inr hs

/-- The mount finds the records that the directory retains. -/
lemma Retains.mount {ram' : Ram} {r : Except Status Unit} (h : Retains env cfg w.disk L)
    (he : Executes env noHarm A (Store.mount cfg) ram w r ram' w') :
    r = .ok () ∧ Holding cfg L ram' w'.disk ∧ ram'.nextSequence < 2 ^ 32 := by
  obtain ⟨ram₀, d₀, torn, hh, hf, hb⟩ := h
  obtain ⟨seg, hs⟩ := hh.synced
  obtain ⟨hr, hsynced, hseqs, hnext, hkept⟩ := hs.mount hf hb he
  refine ⟨hr, ⟨⟨seg, hsynced⟩, hkept.trans hh.contents, ?_⟩, hnext⟩
  rw [hseqs]
  exact hh.seqs_lt

lemma remounts_retains : Remounts env cfg A (SyncedWith cfg guards) (Retains env cfg) where
  mount w L r ram' w' h he := by
    obtain ⟨hr, hh, hn⟩ := h.mount he
    exact ⟨hr, hh.standing hn⟩
  lock d d' L h hlock := Leaves.lock h hlock

/-- **One crash** of an object that has mounted nothing. -/
theorem Retains.crash (hb : env.backend = .posix)
    (hA : ∀ mk d, A mk d → Guarded cfg mk d) (h : Retains env cfg w.disk L) (hop : op ≠ .format)
    (hc : Crashes env A (op.method cfg) {} w w') :
    ∃ L', Retains env cfg w'.disk L' ∧ (L' = L ∨ ListStep op L (.ok ()) L') := by
  by_cases hmounts : op.Mounts
  · obtain hc | ⟨ram₁, w₁, he, hc⟩ | ⟨e, ram', he⟩ := hmounts.crashes rfl hc
    · exact ⟨L, Leaves.crash_mount (lasting_holding L) h hc, .inl rfl⟩
    · obtain ⟨-, hh, hn⟩ := h.mount he
      obtain ⟨seg, hs⟩ := hh.synced
      exact (hh.standing hn).crash hb hA (hs.toStored.elected hs.toStored.frayed) hop
        (hc hh.ready.mounted)
    · obtain ⟨hr, -⟩ := h.mount he
      cases hr
  · have hwp : Wp env interrupted A (fun d => Retains env cfg d L) (op.method cfg) _ {} w.disk :=
      wp_unmounted interrupts_interrupted.damaging rfl hmounts hop h
    refine ⟨L, hc.sound hwp ?_, .inl rfl⟩
    rintro r ram' d' ⟨-, hs⟩
    exact Leaves.lock h hs

end Crash

/-! ## What a directory holds -/

/-- The object has the records `L`, whose sequences follow one another, and reads each back. -/
structure Serves (env : Env) (cfg : AppendLogConfig) (ram : Ram) (w : World)
    (L : List (ℕ × Bytes)) : Prop where
  contents : ram.contents w.disk = L
  contiguous : ∃ head, L.map Prod.fst = List.range' head L.length
  read : ∀ (i : ℕ) sequence data, L[i]? = some (sequence, data) →
    Prog.run (handle env) (Store.readRecord cfg sequence ram) w = some ((.ok data, ram), w)

/-- A new object can mount the directory, and then has the records `L`. -/
def Durable (backend : StorageBackend) (cfg : AppendLogConfig) (d : Disk)
    (L : List (ℕ × Bytes)) : Prop :=
  ∀ (env : Env) (w : World), env.backend = backend → w.disk = d → ∃ ram' w',
    Prog.run (handle env) (Store.mount cfg {}) w = some ((.ok (), ram'), w') ∧
      Serves env cfg ram' w' L

section Durable

variable {env : Env} {cfg : AppendLogConfig} {ram : Ram} {d : Disk} {w : World}
  {L : List (ℕ × Bytes)}

lemma Standing.serves (h : Standing (SyncedWith cfg guards) ram w.disk L) :
    Serves env cfg ram w L := by
  have hcoherent : ∀ ram d, SyncedWith cfg guards ram d → Coherent cfg ram d := by
    rintro ram d ⟨seg, hs⟩
    exact hs.coherent
  refine ⟨h.contents, h.contiguous hcoherent, fun i sequence data hi => ?_⟩
  rw [← h.contents, Ram.contents, List.getElem?_map] at hi
  obtain ⟨sr, hsr, hview⟩ := Option.map_eq_some_iff.1 hi
  obtain ⟨rfl, rfl⟩ := Prod.mk.inj hview
  have hmem := List.mem_of_getElem? hsr
  rcases h.inStep with ⟨hb, -⟩ | hs
  · rw [hb.records] at hmem
    cases hmem
  · have hc := hcoherent _ _ hs
    obtain ⟨head, hh⟩ := hc.placed.contiguous
    obtain ⟨file, hfile, hle⟩ := hc.held _ (hc.enclosed.mem sr hmem)
    have hilt : i < ram.records.length := (List.getElem?_eq_some_iff.1 hsr).1
    have hlast : head + (ram.records.length - 1) < 2 ^ 32 - 1 := by
      apply h.seqs_lt
      rw [Ram.seqs, hh]
      exact List.mem_range'_1.2 (by omega)
    exact run_readRecord_of_contiguous hc.mounted hh (by omega) hsr hfile
      ((hc.enclosed sr hmem).stop_le.trans hle)

lemma Waiting.retains (h : Waiting (Retains env cfg) ram d L) (hp : (Disk.elected d).isSome) :
    Retains env cfg d L := by
  rcases h with ⟨h, -⟩ | ⟨-, h⟩
  · rw [elected_eq_none h.manifest] at hp
    simp at hp
  · exact h

/-- A directory without a manifest has no records. -/
lemma Standing.eq_nil (h : Standing (SyncedWith cfg guards) ram d L) (hp : Disk.elected d = none) :
    L = [] := by
  obtain ⟨⟨hb, -⟩ | ⟨seg, hs⟩, rfl, -, -⟩ := h
  · unfold Ram.contents
    rw [hb.records]
    rfl
  · have helected := hs.toStored.elected hs.toStored.frayed
    simp [hp] at helected

lemma Waiting.eq_nil (h : Waiting (Retains env cfg) ram d L) (hp : Disk.elected d = none) :
    L = [] := by
  rcases h with ⟨-, rfl⟩ | ⟨rfl, h⟩
  · rfl
  · have helected := Leaves.elected (lasting_holding _) h
    simp [hp] at helected

lemma Retains.durable (h : Retains env cfg d L) : Durable env.backend cfg d L := by
  rintro env' w hb rfl
  obtain ⟨ram₀, d₀, torn, hh, hf, hrec⟩ := h
  have hrec : TailRecoverable env' torn := by
    unfold TailRecoverable
    rw [hb]
    exact hrec
  obtain ⟨seg, hs⟩ := hh.synced
  obtain ⟨ram', w', hrun, -⟩ := @Synced.run_mount env' cfg ram₀ {} _ w seg _ hs hf hrec
  have h : Retains env' cfg w.disk L := ⟨ram₀, d₀, torn, hh, hf, hrec⟩
  obtain ⟨-, hholding, hn⟩ := h.mount (executes_of_run hrun)
  exact ⟨ram', w', hrun, (hholding.standing hn).serves⟩

end Durable

/-! ## Every run -/

/-- **Any number of lifetimes.**  What the objects answer, one list answers, which no change of
object is felt by; a mounted object has the records of the list, and once a manifest is published, a
new object can mount the directory and finds them. -/
theorem lifetimes_refine {env : Env} {cfg : AppendLogConfig} {trace : List StoreEvent} {ram : Ram}
    {w : World} (h : Lifetimes env cfg (Guarded cfg) trace ram w) :
    ∃ L, ListRun trace L ∧ (ram.mounted = true → Serves env cfg ram w L) ∧
      ((Disk.elected w.disk).isSome → Durable env.backend cfg w.disk L) ∧
        (Disk.elected w.disk = none → L = []) := by
  have hinv : ∃ L, ListRun trace L ∧
      (Standing (SyncedWith cfg guards) ram w.disk L ∨ Waiting (Retains env cfg) ram w.disk L) := by
    induction h with
    | start hw => exact ⟨[], .start, .inr (waiting_empty hw)⟩
    | operation _ he ih =>
      obtain ⟨L, hrun, hs | hw⟩ := ih
      · obtain ⟨L', hL', hstep⟩ := hs.step (upheld_guarded fun _ _ => id) he
        exact ⟨L', .operation hrun hstep, .inl hL'⟩
      · obtain ⟨L', hL', hstep⟩ := hw.step (upheld_guarded fun _ _ => id) remounts_retains he
        exact ⟨L', .operation hrun hstep, hL'⟩
    | reopened _ hp ih =>
      obtain ⟨L, hrun, hs | hw⟩ := ih
      · exact ⟨L, .reopened hrun, .inr (.inr ⟨rfl, (lasting_holding L).leaves (hs.holding hp)⟩)⟩
      · exact ⟨L, .reopened hrun, .inr (.inr ⟨rfl, hw.retains hp⟩)⟩
    | @crashed trace ram w op w' _ hb hp hop hc ih =>
      obtain ⟨L, hrun, hstate⟩ := ih
      have hcrash : ∃ L', Retains env cfg w'.disk L' ∧ (L' = L ∨ ListStep op L (.ok ()) L') := by
        rcases hstate with hs | hw
        · exact hs.crash hb (fun _ _ => id) hp hop hc
        · have hretains := hw.retains hp
          rcases hw with ⟨hfresh, -⟩ | ⟨rfl, -⟩
          · rw [elected_eq_none hfresh.manifest] at hp
            simp at hp
          · exact hretains.crash hb (fun _ _ => id) hop hc
      obtain ⟨L', hretains, hstep⟩ := hcrash
      exact ⟨L', .crashed hrun hstep, .inr (.inr ⟨rfl, hretains⟩)⟩
  obtain ⟨L, hrun, hs | hw⟩ := hinv
  · exact ⟨L, hrun, fun _ => hs.serves,
      fun hp => Retains.durable ((lasting_holding L).leaves (hs.holding hp)), hs.eq_nil⟩
  · refine ⟨L, hrun, ?_, fun hp => (hw.retains hp).durable, hw.eq_nil⟩
    simp [hw.unmounted.1]

lemma Lifetimes.successes {cfg : AppendLogConfig} {A : StoreMark → Disk → Prop}
    [∀ mk d, Decidable (A mk d)] {trace : List StoreEvent} {ops : List StoreOp} {ram ram' : Ram}
    {w w' : World} (h : Lifetimes (plainEnv .posix) cfg A trace ram w)
    (ht : Pqueue.successes cfg A ops ram w = some (ram', w')) :
    Lifetimes (plainEnv .posix) cfg A (trace ++ ops.map fun op => .operation op (.ok ())) ram'
      w' := by
  let P : List StoreOp → Ram → World → Prop := fun done =>
    Lifetimes (plainEnv .posix) cfg A (trace ++ done.map fun op => .operation op (.ok ()))
  have hstart : P [] ram w := by
    unfold P
    rw [List.map_nil, List.append_nil]
    exact h
  have hdone : P ([] ++ ops) ram' w' := by
    refine successes_invariant noHarm ?_ hstart ht
    intro done op ram w ram' w' hrun he
    unfold P
    rw [List.map_append, ← List.append_assoc]
    exact hrun.operation he
  exact hdone

/-- Of three records one is popped; a fourth opens another segment, and the compaction seals it and
moves what is left. -/
def compactedRun : List StoreOp :=
  [.enqueue 1 [7], .enqueue 1 [8, 9], .enqueue 1 [5], .pop 0, .enqueue 1 [4],
    .compactOneSegment .no]

/-- After a compaction an enqueue is cut off inside its event; the next object finds the records
without it and pops one. -/
theorem lifetimes_refine_crashed : ∃ ram w, Lifetimes (plainEnv .posix) smallSegments
    (Guarded smallSegments) (compactedRun.map (fun op => .operation op (.ok ())) ++
      [.crashed (.enqueue 1 [6]), .operation (.pop 1) (.ok ())]) ram w ∧
    Serves (plainEnv .posix) smallSegments ram w [(2, [5]), (3, [4])] ∧
      Durable .posix smallSegments w.disk [(2, [5]), (3, [4])] := by
  have hrun : ((do
      let a ← Pqueue.successes smallSegments (Guarded smallSegments) compactedRun {} ⟨∅, 0, false⟩
      let b ← Prog.crashTrial (crashing (plainEnv .posix))
        (fun mk w => Guarded smallSegments mk w.disk)
        ((StoreOp.enqueue 1 [6]).method smallSegments a.1) a.2 0 (some 9)
      let c ← Pqueue.successes smallSegments (Guarded smallSegments) [.pop 1] {} b
      pure ((Disk.elected a.2.disk).isSome && (Disk.elected c.2.disk).isSome && c.1.mounted,
        c.1.contents c.2.disk)) : Option _) = some (true, [(2, [5]), (3, [4])]) := by
    decide +kernel
  obtain ⟨⟨ram₁, w₁⟩, h₁, hrun⟩ := Option.bind_eq_some_iff.1 hrun
  obtain ⟨w₂, h₂, hrun⟩ := Option.bind_eq_some_iff.1 hrun
  obtain ⟨⟨ram, w⟩, h₃, hrun⟩ := Option.bind_eq_some_iff.1 hrun
  simp only [pure, Option.some.injEq, Prod.mk.injEq, Bool.and_eq_true] at hrun
  obtain ⟨⟨⟨hpublished₁, hpublished⟩, hmounted⟩, hcontents⟩ := hrun
  have hcrash : Crashes (plainEnv .posix) (Guarded smallSegments)
      ((StoreOp.enqueue 1 [6]).method smallSegments) ram₁ w₁ w₂ := ⟨_, _, Prog.marksBefore_crash h₂⟩
  have hlives := ((Lifetimes.start rfl).successes h₁ |>.crashed rfl hpublished₁ (by simp)
    hcrash).successes h₃
  rw [List.append_assoc] at hlives
  obtain ⟨L, -, hserves, hdurable, -⟩ := lifetimes_refine hlives
  have hL : [(2, [5]), (3, [4])] = L := hcontents.symm.trans (hserves hmounted).contents
  subst hL
  exact ⟨ram, w, hlives, hserves hmounted, hdurable hpublished⟩

end Pqueue
