import Pqueue.Store.Remount
import Pqueue.Store.Standing

/-!
# Crashes

A crash cuts a method off between two calls or inside one, after a strict prefix of what the call
writes.  Up to there the method has made moves, and what the interrupted call leaves is one of three
things: a file that nothing refers to, a slot that cannot be read, or bytes after the log of the
tail that are no event.  So whatever the moves keep (`Withstands`) is left by the crash, but for the
end of the tail (`Leaves`), and a mount that can cut the tail finds it.
-/

namespace Pqueue

open Effect LittleEndian

/-! ## Methods that are cut off -/

/-- A crash inside a method leaves the world `w'`; the marked points before it meet `A`. -/
def Crashes (env : Env) (A : StoreMark → Disk → Prop) {α : Type} (m : Store α) (ram : Ram)
    (w w' : World) : Prop :=
  ∃ k j, Prog.MarksBefore (crashing env) (fun mk w => A mk w.disk) (m ram) w k ∧
    Prog.crash (crashing env) (m ram) w k j = some w'

/-- A file stays that was to be removed. -/
def stays : FsCall → Disk → Disk → Prop
  | .removeFile _, d, d' => d' = d
  | _, _, _ => False

/-- The calls that a crash can cut in two. -/
def FsCall.divisible : FsCall → Bool
  | .writeFile .. | .writeAt .. => true
  | _ => false

/-- What a call leaves that is cut off, or that could be and fails without effect. -/
def interrupted (c : FsCall) (d d' : Disk) : Prop := cutOff c d d' ∨ c.divisible = true ∧ d' = d

lemma interrupted_of_torn {c : FsCall} {n : ℕ} {w w' : World} (h : torn c n w = some w') :
    interrupted c w.disk w'.disk ∧ interrupted c w.disk w.disk := by
  refine ⟨.inl (cutOff_of_torn h), .inr ⟨?_, rfl⟩⟩
  cases c with
  | writeFile | writeAt => rfl
  | _ => cases h

section Rules

variable {env : Env} {harm : FsCall → Disk → Disk → Prop} {A : StoreMark → Disk → Prop} {Z : Prop}
  {J : Disk → Prop} {α β : Type} {m : Store α} {ram : Ram} {w w' : World}

/-- A crash is a call that fails half way. -/
lemma Crashes.sound {Q : DiskPost Ram α} (hc : Crashes env A m ram w w')
    (h : Wp env interrupted A J m Q ram w.disk) (hQ : ∀ r ram' d', Q r ram' d' → J d') :
    J w'.disk := by
  obtain ⟨k, j, hm, hcrash⟩ := hc
  apply Prog.wp_crash (C := crashing env) (fun _ _ => .inl rfl) _ (h w rfl) _ hm hcrash
  · intro c n s s' ht
    exact ⟨.error ⟨.writeFailed, ""⟩, .inr ⟨⟨_, rfl⟩, (interrupted_of_torn ht).1⟩⟩
  · intro a s' hq
    exact hQ _ _ _ hq

/-- Where the method knows what it does when it succeeds, a crash leaves a directory on the way or
that of the whole method. -/
lemma Crashes.cases {F : α → Ram → Disk → Prop} (hc : Crashes env A m ram w w')
    (h : Wp env interrupted A J m (fun r ram' d' => (∀ a, r = .ok a → F a ram' d') ∧
      ∀ st, r = .error st → J d') ram w.disk)
    (hF : ∀ a ram' d d', J d → F a ram' d → F a ram' d' → J d') :
    J w'.disk ∨ ∃ a ram', Executes env noHarm A m ram w (.ok a) ram' w' := by
  obtain ⟨k, j, hm, hcrash⟩ := hc
  have ht : ∀ (c : FsCall) n s s', torn c n s = some s' → ∃ r : Except Status c.Val,
      @faulty StoreMark env interrupted c s r s' ∧
        @faulty StoreMark env interrupted c s r s := by
    intro c n s s' ht
    obtain ⟨hcut, hfailed⟩ := interrupted_of_torn ht
    exact ⟨.error ⟨.writeFailed, ""⟩, .inr ⟨⟨_, rfl⟩, hcut⟩, .inr ⟨⟨_, rfl⟩, hfailed⟩⟩
  obtain hJ | ⟨⟨r, ram'⟩, he⟩ | ⟨⟨r, ram'⟩, s, hs, ⟨hok, -⟩, hok', herr'⟩ :=
    Prog.wp_crash_cases (C := crashing env) (fun _ _ => .inl rfl) ht (h w rfl) hm hcrash
  · exact .inl hJ
  · have he : Executes env noHarm A m ram w r ram' w' :=
      Prog.exec_mono (fun _ _ _ _ ha => .inl ha) he
    cases r with
    | ok a => exact .inr ⟨a, ram', he⟩
    | error st =>
      have hpost := h.sound (Prog.exec_mono (fun _ _ _ _ ha => ha.imp_right fun hf => hf.2.elim) he)
      exact .inl (hpost.2 st rfl)
  · cases r with
    | ok a => exact .inl (hF a ram' _ _ hs (hok a rfl) (hok' a rfl))
    | error st => exact .inl (herr' st rfl)

/-- The marked points before a crash lie on the way. -/
lemma Crashes.watched {Q : DiskPost Ram α} (hc : Crashes env A m ram w w')
    (h : Wp env harm A J m Q ram w.disk) : Crashes env (fun mk d => A mk d ∧ J d) m ram w w' := by
  obtain ⟨k, j, hm, hcrash⟩ := hc
  exact ⟨k, j, Prog.wp_marksBefore (C := crashing env) (fun _ _ => .inl rfl) (h w rfl) hm, hcrash⟩

/-- A crash is on the way of the whole execution. -/
lemma Crashes.of_executes {r : Except Status α} {ram₁ : Ram} {w₁ : World}
    (hc : Crashes env (fun _ _ => True) m ram w w')
    (he : Executes env noHarm A m ram w r ram₁ w₁) : Crashes env A m ram w w' := by
  obtain ⟨k, j, -, hcrash⟩ := hc
  exact ⟨k, j, he.run.2.before k, hcrash⟩

lemma Crashes.of_wpc {Q : StorePost α} (hc : Crashes env A m ram w w')
    (h : Wpc env A Z J m Q ram w) (hQ : ∀ r ram' w', Q r ram' w' → J w'.disk) : J w'.disk := by
  obtain ⟨k, j, hm, hcrash⟩ := hc
  exact Prog.wpc_crash h (fun a s' hq => hQ _ _ _ hq) hm hcrash

/-- A crash of a sequence is one of its first part, or of what follows it. -/
lemma crashes_bind {f : α → Store β} (hc : Crashes env A (m >>= f) ram w w') :
    Crashes env A m ram w w' ∨
      (∃ a ram₁ w₁, Executes env noHarm A m ram w (.ok a) ram₁ w₁ ∧
        Crashes env A (f a) ram₁ w₁ w') ∨
      ∃ e ram', Executes env noHarm A m ram w (.error e) ram' w' := by
  obtain ⟨k, j, hm, hcrash⟩ := hc
  obtain hl | ⟨⟨r, ram₁⟩, w₁, k₁, he, hmarks, hcrash⟩ := Prog.crash_bind hm hcrash
  · exact .inl ⟨k, j, hl⟩
  · have he : Executes env noHarm A m ram w r ram₁ w₁ :=
      Prog.exec_mono (fun _ _ _ _ ha => .inl ha) he
    cases r with
    | ok a => exact .inr (.inl ⟨a, ram₁, w₁, he, k₁, j, hmarks, hcrash⟩)
    | error e =>
      simp only [Act.step, Prog.crash] at hcrash
      split at hcrash
      · obtain rfl := Option.some.inj hcrash
        exact .inr (.inr ⟨e, ram₁, he⟩)
      · cases hcrash

/-- A crash of an operation that mounts first, on an object that has not. -/
lemma StoreOp.Mounts.crashes {cfg : AppendLogConfig} {op : StoreOp} (h : op.Mounts)
    (hm : ram.mounted = false) (hc : Crashes env A (op.method cfg) ram w w') :
    Crashes env A (Store.mount cfg) ram w w' ∨
      (∃ ram₁ w₁, Executes env noHarm A (Store.mount cfg) ram w (.ok ()) ram₁ w₁ ∧
        (ram₁.mounted = true → Crashes env A (op.method cfg) ram₁ w₁ w')) ∨
      ∃ e ram', Executes env noHarm A (Store.mount cfg) ram w (.error e) ram' w' := by
  obtain ⟨k, hk⟩ : ∃ k, op.method cfg = Store.ensureMounted cfg >>= k := h.method
  rw [hk] at hc ⊢
  obtain hc | ⟨_, ram₁, w₁, he, hc⟩ | ⟨e, ram', he⟩ := crashes_bind hc
  · unfold Crashes at hc
    rw [ensureMounted_of_not hm] at hc
    exact .inl hc
  · unfold Executes at he
    rw [ensureMounted_of_not hm] at he
    refine .inr (.inl ⟨ram₁, w₁, he, fun hm₁ => ?_⟩)
    unfold Crashes
    rw [bind_ensureMounted hm₁]
    exact hc
  · unfold Executes at he
    rw [ensureMounted_of_not hm] at he
    exact .inr (.inr ⟨e, ram', he⟩)

end Rules

/-! ## What interrupted calls leave -/

/-- The calls that fail are those a crash interrupts. -/
def Interrupts (harm : FsCall → Disk → Disk → Prop) : Prop :=
  ∀ c d d', harm c d d' → interrupted c d d'

lemma interrupts_interrupted : Interrupts interrupted := fun _ _ _ h => h

lemma interrupts_stays : Interrupts stays := by
  intro c d d' h
  cases c with
  | removeFile => exact .inl h
  | _ => exact h.elim

section Plain

variable {cfg : AppendLogConfig} {harm : FsCall → Disk → Disk → Prop} {A : StoreMark → Disk → Prop}
  {ram ram₀ : Ram} {d d₀ : Disk} {slot : Slot} {epoch : ℕ}

lemma Interrupts.damaging (hi : Interrupts harm) : Damaging harm := by
  intro c d d' hh
  rcases hi c d d' hh with hcut | ⟨hdiv, rfl⟩
  · exact damaging_partialWrite c d d' (partialWrite_of_cutOff hcut)
  · apply damaging_partialWrite c d' d'
    cases c with
    | writeFile | writeAt => exact .inl rfl
    | _ => cases hdiv

/-- Sizes are told. -/
lemma Interrupts.fileSize (hi : Interrupts harm) (name : FileName) :
    Reliable harm (.fileSize name) := by
  intro d d' hh
  rcases hi _ _ _ hh with hcut | ⟨hdiv, -⟩
  · exact hcut
  · cases hdiv

/-- Files are read. -/
lemma Interrupts.readFile (hi : Interrupts harm) (name : FileName) :
    Reliable harm (.readFile name) := by
  intro d d' hh
  rcases hi _ _ _ hh with hcut | ⟨hdiv, -⟩
  · exact hcut
  · cases hdiv

/-- The slots are read without failures. -/
lemma Interrupts.target (hi : Interrupts harm) (ht : ram.Targets harm d slot epoch) :
    ram.target d = some (slot, epoch) := ht.eq (fun _ => hi.fileSize _) fun _ => hi.readFile _

lemma Interrupts.targets (hi : Interrupts harm) (ht : ram.Targets harm d slot epoch) :
    ram.Targets noHarm d slot epoch := by
  have heq := hi.target ht
  unfold Ram.target at heq
  unfold Ram.Targets
  cases hs : ram.cachedWrittenSlot with
  | some cached =>
    rw [hs] at heq
    obtain ⟨rfl, rfl⟩ := Prod.mk.inj (Option.some.inj heq)
    exact ⟨rfl, rfl⟩
  | none =>
    rw [hs] at heq
    obtain ⟨s, hslot, hs⟩ := Option.map_eq_some_iff.1 heq
    obtain ⟨rfl, rfl⟩ := Prod.mk.inj hs
    exact ⟨_, _, _, _, .inl rfl, .inl rfl, .inl rfl, .inl rfl, hslot, rfl⟩

lemma Interrupts.opens (hi : Interrupts harm) {ranges : List ManifestRange} {startSeq : ℕ}
    (ho : Opens harm A ram d ranges startSeq slot epoch) :
    Opens noHarm A ram d ranges startSeq slot epoch :=
  { ho with target := hi.targets ho.target }

lemma Interrupts.sizeRead (hi : Interrupts harm) {name : FileName} {n : ℕ}
    (hn : SizeRead harm d name n) : SizeRead noHarm d name n :=
  .inl (hn.resolve_right fun hh => hh.2 (hi.fileSize _))

lemma Interrupts.prepared (hi : Interrupts harm) {plan : CompactionPlan}
    (hp : Prepared cfg harm A ram₀ d₀ plan ram d) : Prepared cfg noHarm A ram₀ d₀ plan ram d := by
  cases hp with
  | asIs h => exact .asIs h
  | rotated h ho hn => exact .rotated h (hi.opens ho) (hi.sizeRead hn)

end Plain

/-- The write of an event has left a part of it after the log of the tail. -/
def Tears (cfg : AppendLogConfig) (harm : FsCall → Disk → Disk → Prop) (ram : Ram) (d d' : Disk) :
    Prop :=
  ∃ name offset data torn, harm (.writeAt name offset data) d d' ∧ torn ≠ [] ∧
    Frayed cfg ram d torn d'

namespace Stored

variable {cfg : AppendLogConfig} {harm : FsCall → Disk → Disk → Prop} {A : StoreMark → Disk → Prop}
  {ram ram' : Ram} {d d' : Disk} {seg : ℕ → List LogEvent} {slot : Slot} {epoch : ℕ}

/-- A file is left that nothing refers to. -/
lemma stray (h : Stored cfg guards ram d seg) {gen : ℕ} (hg : ram.nextGeneration ≤ gen)
    (hlt : gen < 2 ^ 32) (data : Bytes) :
    Stored cfg guards ram (d.insert (segmentName gen) data) seg :=
  h.frame rfl (fun _ _ _ => rfl) (fun _ hg' => AList.lookup_insert_ne (h.sited.name_ne hg' hg hlt))
    (slots_insert d _ _) (h.canonical.insert_segment hlt)

/-- A slot is left that cannot be read. -/
lemma tornSlot (h : Stored cfg guards ram d seg) (ht : ram.target d = some (slot, epoch))
    {md : ManifestData} (hv : md.Valid) {n : ℕ} (hn : n < (serialiseManifest md).length) :
    Stored cfg guards ram (d.insert slot.fileName ((serialiseManifest md).take n)) seg := by
  refine h.reframe rfl (fun _ _ _ => rfl)
    (fun g _ => AList.lookup_insert_ne (segmentName_ne_slot g slot)) ?_ h.canonical.insert_slot
  obtain ⟨slot₀, md₀, ha⟩ := h.announced
  rw [ha.published.target ha.cache] at ht
  obtain ⟨rfl, rfl⟩ := Prod.mk.inj (Option.some.inj ht)
  exact ⟨slot₀, md₀, { ha with
    published := ha.published.insert_torn (parseManifest_take (parseManifest_serialise hv) hn) }⟩

/-- Bytes are left after the log of the tail. -/
lemma tornTail (h : Stored cfg guards ram d seg) {e : LogEvent} (hl : Loggable cfg ram e)
    (hle : ram.activeSegmentBytes + e.encode.length ≤ guards.segment) {old : Bytes}
    (hold : d.lookup (segmentName ram.activeGeneration) = some old) {n : ℕ}
    (hn : n < e.encode.length) :
    Frayed cfg ram d (e.encode.take n) (d.insert (segmentName ram.activeGeneration)
      (overwrite old ram.activeSegmentBytes (e.encode.take n))) := by
  have hlt := fun g (hg : g ∈ ram.gens) => h.sited.generations.gen_lt hg
  have htail := hlt _ ram.tail_mem_gens
  rw [h.overwrite_tail hold, Disk.append]
  refine ⟨slots_insert d _ _, fun g hg hne =>
    AList.lookup_insert_ne (segmentName_ne (hlt g hg) htail hne), ?_, ?_, ?_,
    h.canonical.insert_segment htail⟩
  · rw [AList.lookup_insert, hold]
    rfl
  · unfold stopsAt
    split
    · rfl
    · rw [scanStep_take (hl.fits h.sited.enclosed.fits) hn]
      rfl
  · rw [List.length_take]
    omega

/-- Where nothing was left after all, the files are as they were. -/
lemma lookup_of_frayed_nil (h : Stored cfg guards ram d seg) (hf : Frayed cfg ram d [] d') :
    ∀ g ∈ ram.gens, d'.lookup (segmentName g) = d.lookup (segmentName g) := by
  intro g hg
  by_cases hne : g = ram.activeGeneration
  · obtain ⟨-, -, startSeq, -, hfile⟩ := h.file _ ram.tail_mem_gens
    rw [hne, hf.tail, hfile]
    simp
  · exact hf.sealed g hg hne

lemma of_frayed_nil (h : Stored cfg guards ram d seg) (hf : Frayed cfg ram d [] d') :
    Stored cfg guards ram d' seg :=
  h.frame rfl (fun _ _ _ => rfl) (h.lookup_of_frayed_nil hf) hf.slots hf.canonical

/-- The output of a compaction is written before anything refers to it. -/
lemma wroteAll (h : Stored cfg guards ram d seg) {out : List OutputSeg}
    (hg : ∀ o ∈ out, ram.nextGeneration ≤ o.gen) (hlt : ∀ o ∈ out, o.gen < 2 ^ 32) :
    Stored cfg guards (ram.wroteAll out) (Disk.writeAll d out) seg := by
  induction out generalizing ram d with
  | nil => exact h
  | cons o out ih =>
    have hwrote := h.wrote (hg o (List.mem_cons_self ..)) (hlt o (List.mem_cons_self ..)) o.data
      o.data.length 0
    exact ih hwrote (fun o' ho' => hg o' (List.mem_cons_of_mem _ ho'))
      fun o' ho' => hlt o' (List.mem_cons_of_mem _ ho')

/-- The segment is created, and the slot of its manifest cannot be read. -/
lemma openCut (h : Stored cfg guards ram d seg) (hi : Interrupts harm)
    {ranges : List ManifestRange} {startSeq : ℕ}
    (ho : Opens harm A ram d ranges startSeq slot epoch)
    (hharm : harm (.writeFile slot.fileName
      (serialiseManifest (ram.opening ranges (u32 (epoch + 1)))))
      (Disk.create d ram.nextGeneration startSeq) d') :
    Stored cfg guards (ram.created ram.nextGeneration) d' seg := by
  have hcreated : Stored cfg guards (ram.created ram.nextGeneration)
      (Disk.create d ram.nextGeneration startSeq) seg :=
    h.wrote le_rfl (Nat.lt_of_succ_lt ho.gen_lt) _ _ _
  obtain ⟨n, hn, rfl⟩ | ⟨-, rfl⟩ := hi _ _ _ hharm
  · have hv := (h.sited.opened ho 0).1.generations.valid (u32_lt _)
    exact hcreated.tornSlot ((Ram.target_congr (slots_insert d _ _) rfl rfl).trans
      (hi.target ho.target)) hv hn
  · exact hcreated

/-- The output is written, and the slot of the manifest cannot be read. -/
lemma compactCut {ram₀ : Ram} {d₀ : Disk} {plan : CompactionPlan} {idx : ℕ}
    {parent : ManifestRange} {input : CompactionRange} {live : List CompactionLiveRecord}
    {out : List OutputSeg} (h₀ : Sited cfg ram₀ d₀) (h : Stored cfg guards ram d seg)
    (hi : Interrupts harm) (hc : Compacts cfg harm A ram₀ d₀ plan ram d idx parent input live out)
    (ht : ram.Targets harm d slot epoch)
    (hharm : harm (.writeFile slot.fileName (serialiseManifest
      (ram.compactionAt (u32 (epoch + 1)) idx parent input out))) (Disk.writeAll d out) d') :
    Stored cfg guards (ram.wroteAll out) d' seg := by
  have hwritten := h.wroteAll (fun o ho => (Generations.output_fresh hc.gens
    (List.mem_map_of_mem ho)).1) hc.gen_lt
  obtain ⟨n, hn, rfl⟩ | ⟨-, rfl⟩ := hi _ _ _ hharm
  · have hcore := SameCore.of_core (core_wroteAll ram out)
    exact hwritten.tornSlot ((Ram.target_congr (slots_writeAll _ _) hcore.slot hcore.epoch).trans
      (hi.target ht)) (Settled.compactionAt_valid h₀ hc (u32_lt _)) hn
  · exact hwritten

end Stored

/-! ## What a mount replays -/

/-- The events of the segments in use, in the order of a replay. -/
def Disk.replayed (cfg : AppendLogConfig) (d : Disk) : List LogEvent :=
  (Disk.gens d).flatMap (Disk.events cfg d)

/-- No bytes follow the log of the active segment. -/
def Tidy (cfg : AppendLogConfig) (d : Disk) : Prop :=
  ∀ g ∈ (Disk.gens d).getLast?, Disk.torn cfg d g = []

section Frayed

variable {cfg : AppendLogConfig} {ram : Ram} {d d' d'' : Disk} {torn : Bytes}
  {seg : ℕ → List LogEvent}

/-- Other files may change. -/
lemma Frayed.congr (hf : Frayed cfg ram d torn d')
    (hs : ∀ s : Slot, d''.lookup s.fileName = d'.lookup s.fileName)
    (hg : ∀ g ∈ ram.gens, d''.lookup (segmentName g) = d'.lookup (segmentName g))
    (hcan : Canonical d'') : Frayed cfg ram d torn d'' where
  slots s := (hs s).trans (hf.slots s)
  sealed g hg' hne := (hg g hg').trans (hf.sealed g hg' hne)
  tail := (hg _ ram.tail_mem_gens).trans hf.tail
  stop := hf.stop
  size := hf.size
  canonical := hcan

lemma Frayed.lock (hf : Frayed cfg ram d torn d') (hlock : SameExcept kLockFileName d' d'') :
    Frayed cfg ram d torn d'' :=
  hf.congr (SameExcept.slots hlock slot_ne_lock) (fun g _ => hlock _ (segmentName_ne_lock g))
    (hf.canonical.of_sameExcept hlock isSegmentName_lock)

/-- A manifest is published, and the logs are found in the directory. -/
lemma Stored.found (h : Stored cfg guards ram d seg) (hf : Frayed cfg ram d torn d') :
    ∃ md, Disk.elected d' = some md ∧ Disk.gens d' = ram.gens ∧
      (∀ g ∈ ram.gens, g ≠ ram.activeGeneration → Disk.log cfg d' g = some (seg g, [])) ∧
        Disk.log cfg d' ram.activeGeneration = some (seg ram.activeGeneration, torn) := by
  obtain ⟨slot, md, himage, hgens⟩ := h.image_frayed hf
  have helect := himage.published.elected
  have htail : md.tailGeneration = ram.activeGeneration := by
    have hlast := ManifestData.getLast?_gens himage.tail_ne
    rw [hgens, Ram.gens, List.getLast?_concat] at hlast
    exact (Option.some.inj hlast).symm
  refine ⟨md, helect, ?_, fun g hg hne => ?_, ?_⟩
  · unfold Disk.gens
    rw [helect]
    exact hgens
  · rw [← hgens, ManifestData.mem_gens himage.tail_ne] at hg
    obtain ⟨hfile, hsize⟩ := himage.sealed g (hg.resolve_right fun he => hne (he.trans htail))
    refine log_eq_some_iff.2 ⟨hfile, by simp [stopsAt_nil], ?_⟩
    rw [List.length_nil, Nat.add_zero]
    exact hsize
  · rw [← htail]
    exact log_eq_some_iff.2 ⟨himage.tail, himage.stop, himage.tail_le⟩

lemma Stored.elected (h : Stored cfg guards ram d seg) (hf : Frayed cfg ram d torn d') :
    (Disk.elected d').isSome := by
  obtain ⟨md, helect, -⟩ := h.found hf
  rw [helect]
  rfl

lemma Stored.replayed (h : Stored cfg guards ram d seg) (hf : Frayed cfg ram d torn d') :
    Disk.replayed cfg d' = ram.gens.flatMap seg := by
  obtain ⟨md, -, hgens, hsealed, htail⟩ := h.found hf
  unfold Disk.replayed
  rw [hgens]
  apply List.flatMap_congr
  intro g hg
  by_cases hne : g = ram.activeGeneration
  · rw [hne]
    exact events_eq htail
  · exact events_eq (hsealed g hg hne)

/-- The bytes after the log are found in the directory. -/
lemma Stored.tornBytes (h : Stored cfg guards ram d seg) (hf : Frayed cfg ram d torn d') :
    ∀ g ∈ (Disk.gens d').getLast?, Disk.torn cfg d' g = torn := by
  obtain ⟨md, -, hgens, -, htail⟩ := h.found hf
  intro g hg
  rw [hgens, Ram.gens, List.getLast?_concat] at hg
  obtain rfl := Option.some.inj hg
  exact torn_eq htail

lemma Stored.tidy_iff (h : Stored cfg guards ram d seg) (hf : Frayed cfg ram d torn d') :
    Tidy cfg d' ↔ torn = [] := by
  constructor
  · intro ht
    obtain ⟨md, -, hgens, -⟩ := h.found hf
    have hlast : ram.activeGeneration ∈ (Disk.gens d').getLast? := by
      rw [hgens, Ram.gens, List.getLast?_concat]
      rfl
    rw [← h.tornBytes hf _ hlast]
    exact ht _ hlast
  · rintro rfl
    exact h.tornBytes hf

end Frayed

/-! ## Directories that are left -/

/-- `P` holds of objects that know their directory, whatever other files there are. -/
structure Lasting (cfg : AppendLogConfig) (P : Ram → Disk → Prop) : Prop where
  stored : ∀ {ram d}, P ram d → ∃ seg, Stored cfg guards ram d seg
  congr : ∀ {ram d d'}, P ram d → (∀ s : Slot, d'.lookup s.fileName = d.lookup s.fileName) →
    (∀ g ∈ ram.gens, d'.lookup (segmentName g) = d.lookup (segmentName g)) → Canonical d' →
      P ram d'

/-- An object with `P` may have left the directory, in which a crash has torn its tail; the torn
bytes can be recovered. -/
def Leaves (env : Env) (cfg : AppendLogConfig) (P : Ram → Disk → Prop) (d : Disk) : Prop :=
  ∃ ram₀ d₀ torn, P ram₀ d₀ ∧ Frayed cfg ram₀ d₀ torn d ∧ TailRecoverable env torn

section Lasting

variable {env : Env} {cfg : AppendLogConfig} {A : StoreMark → Disk → Prop} {P : Ram → Disk → Prop}
  {ram : Ram} {d d' : Disk} {w w' : World}

lemma Lasting.leaves (hp : Lasting cfg P) (h : P ram d) : Leaves env cfg P d := by
  obtain ⟨seg, hs⟩ := hp.stored h
  exact ⟨ram, d, [], h, hs.frayed, .inl rfl⟩

/-- The lock file is not about the records. -/
lemma Leaves.lock (h : Leaves env cfg P d) (hlock : SameExcept kLockFileName d d') :
    Leaves env cfg P d' := by
  obtain ⟨ram₀, d₀, torn, hp, hf, hb⟩ := h
  exact ⟨ram₀, d₀, torn, hp, hf.lock hlock, hb⟩

lemma Leaves.elected (hp : Lasting cfg P) (h : Leaves env cfg P d) : (Disk.elected d).isSome := by
  obtain ⟨ram₀, d₀, torn, h, hf, -⟩ := h
  obtain ⟨seg, hs⟩ := hp.stored h
  exact hs.elected hf

/-- **A crash of a mount**, which may have cut the tail or have removed a file. -/
lemma Leaves.crash_mount (hp : Lasting cfg P) (h : Leaves env cfg P w.disk)
    (hc : Crashes env A (Store.mount cfg) ram w w') : Leaves env cfg P w'.disk := by
  have hleaves := h
  obtain ⟨ram₀, d₀, torn, h, hf, hb⟩ := h
  obtain ⟨seg, hs⟩ := hp.stored h
  obtain ⟨hback, -, hslots, hfiles⟩ := hs.recovered hf hb
  have hcut : P ram₀ (Disk.recoverTail env w.disk ram₀.activeGeneration
      (seg ram₀.activeGeneration) torn) :=
    hp.congr h (fun s => (hslots s).trans (hf.slots s)) hfiles hback.canonical
  apply hc.of_wpc (hs.wpc_mount hf (Z := True) (J := Leaves env cfg P) hleaves (hp.leaves hcut))
  rintro r ram' w' ⟨-, md, -, hgens, -, -, hdisk⟩
  obtain ⟨hcleaned, -, hslots, hfiles⟩ := hback.cleaned hgens
  rw [hdisk]
  exact hp.leaves (hp.congr hcut hslots hfiles hcleaned.canonical)

end Lasting

/-! ## Methods that are cut off keep what their moves keep -/

/-- What the moves keep whose calls are interrupted, but for bytes after the log of the tail, when
the events `evs` have been logged. -/
structure Withstands (cfg : AppendLogConfig) (A : StoreMark → Disk → Prop)
    (P : List LogEvent → Ram → Disk → Prop) : Prop where
  guarded : ∀ mk d, A mk d → Within guards mk
  lasting : ∀ evs, Lasting cfg (P evs)
  move : ∀ {harm B evs ram d evs' ram' d'}, Interrupts harm → (∀ mk d, B mk d → A mk d) →
    P evs ram d → Move cfg harm B ram d evs' ram' d' → P (evs ++ evs') ram' d' ∨
      evs' = [] ∧ ram' = ram ∧ Tears cfg harm ram d d'

/-- What is known of a method whatever calls fail, once `J` holds of all that the moves lead to. -/
def Performs (env : Env) (cfg : AppendLogConfig) (ram : Ram) (d : Disk) {α : Type} (m : Store α)
    (Q : (FsCall → Disk → Disk → Prop) → (StoreMark → Disk → Prop) → DiskPost Ram α) : Prop :=
  ∀ harm B J, Damaging harm → (∀ g d, B (.allocate g) d → g + 1 < 2 ^ 32) →
    Watched cfg harm B ram d [] J → Wp env harm B J m (Q harm B) ram d

namespace Withstands

variable {env : Env} {cfg : AppendLogConfig} {A B : StoreMark → Disk → Prop}
  {P : List LogEvent → Ram → Disk → Prop} {harm : FsCall → Disk → Disk → Prop}
  {ram ram' : Ram} {d d' : Disk} {evs evs' : List LogEvent} {α : Type} {m : Store α} {w w' : World}

/-- Where only removals fail, the tail stays whole. -/
lemma moves_stays (hp : Withstands cfg A P) (hB : ∀ mk d, B mk d → A mk d) (h : P [] ram d)
    (hm : Moves cfg stays B ram d evs ram' d') : P evs ram' d' := by
  apply hm.invariant _ h
  intro evs ram d evs' ram' d' h hmove
  obtain h | ⟨-, -, _, _, _, _, hharm, -⟩ := hp.move interrupts_stays hB h hmove
  · exact h
  · exact hharm.elim

/-- A torn tail stays as it is, since a method that has torn it reaches no marked point. -/
lemma move_torn {d₀ : Disk} {torn : Bytes} (hp : Withstands cfg A P) (hi : Interrupts harm)
    (hB : ∀ mk d, B mk d → A mk d ∧ Tidy cfg d) (h : P evs ram d₀)
    (hf : Frayed cfg ram d₀ torn d) (hne : torn ≠ []) (hm : Move cfg harm B ram d evs' ram' d') :
    evs' = [] ∧ P evs ram' d₀ ∧ Frayed cfg ram' d₀ torn d' := by
  obtain ⟨seg, hs⟩ := (hp.lasting evs).stored h
  have hmarks : ∀ mk, ¬B mk d := fun mk hmk => hne ((hs.tidy_iff hf).1 (hB mk d hmk).2)
  cases hm with
  | lock hlock => exact ⟨rfl, h, hf.lock hlock⟩
  | noteSealed =>
    have hnoted : P evs ram.noteSealed d₀ := by
      obtain h' | ⟨-, -, _, _, _, _, hharm, -⟩ :=
        hp.move interrupts_stays (B := A) (fun _ _ => id) h (.noteSealed (d := d₀))
      · rwa [List.append_nil] at h'
      · exact hharm.elim
    exact ⟨rfl, hnoted, ⟨hf.slots, hf.sealed, hf.tail, hf.stop, hf.size, hf.canonical⟩⟩
  | writeFailed hg hlt hharm =>
    obtain ⟨n, -, rfl⟩ | ⟨-, rfl⟩ := hi _ _ _ hharm
    · exact ⟨rfl, h, hf.congr (slots_insert d _ _)
        (fun g hg' => AList.lookup_insert_ne (hs.sited.name_ne hg' hg hlt))
        (hf.canonical.insert_segment hlt)⟩
    · exact ⟨rfl, h, hf⟩
  | wrote _ _ hmark => exact absurd hmark (hmarks _)
  | opened ho => exact absurd ho.allocate (hmarks _)
  | openFailed ho => exact absurd ho.allocate (hmarks _)
  | logged _ _ hmark => exact absurd hmark (hmarks _)
  | logFailed _ _ hmark => exact absurd hmark (hmarks _)
  | compacted hc =>
    obtain ⟨range, fallback, hmark, -⟩ := hc.planned
    exact absurd hmark (hmarks _)
  | compactFailed hc =>
    obtain ⟨range, fallback, hmark, -⟩ := hc.planned
    exact absurd hmark (hmarks _)

/-- **One move** of a method that is interrupted; once the tail is torn, it stays so. -/
lemma move_interrupted (evs : List LogEvent) {d₀ : Disk} {torn : Bytes} (hp : Withstands cfg A P)
    (hB : ∀ mk d, B mk d → A mk d ∧ Tidy cfg d) (h : P evs ram d₀) (hf : Frayed cfg ram d₀ torn d)
    (heq : torn = [] → d₀ = d) (hm : Move cfg interrupted B ram d evs' ram' d') :
    ∃ d₁ torn', P (evs ++ evs') ram' d₁ ∧ Frayed cfg ram' d₁ torn' d' ∧ (torn' = [] → d₁ = d') := by
  by_cases hnil : torn = []
  · obtain rfl := heq hnil
    obtain h' | ⟨rfl, rfl, _, _, _, torn', -, hne, hf'⟩ :=
      hp.move interrupts_interrupted (fun mk d hmk => (hB mk d hmk).1) h hm
    · obtain ⟨seg, hs⟩ := (hp.lasting _).stored h'
      exact ⟨d', [], h', hs.frayed, fun _ => rfl⟩
    · rw [List.append_nil]
      exact ⟨d₀, torn', h, hf', fun hn => absurd hn hne⟩
  · obtain ⟨rfl, h', hf'⟩ := hp.move_torn interrupts_interrupted hB h hf hnil hm
    rw [List.append_nil]
    exact ⟨d₀, torn, h', hf', fun hn => absurd hn hnil⟩

/-- Moves of a method that is interrupted. -/
lemma moves_interrupted (hp : Withstands cfg A P) (hb : env.backend = .posix)
    (hB : ∀ mk d, B mk d → A mk d ∧ Tidy cfg d) (h : P [] ram d)
    (hm : Moves cfg interrupted B ram d evs ram' d') : Leaves env cfg (P evs) d' := by
  have hinv : ∃ d₀ torn, P evs ram' d₀ ∧ Frayed cfg ram' d₀ torn d' ∧ (torn = [] → d₀ = d') := by
    apply hm.invariant (P := fun evs ram' d' => ∃ d₀ torn, P evs ram' d₀ ∧
      Frayed cfg ram' d₀ torn d' ∧ (torn = [] → d₀ = d'))
    · rintro evs ram d evs' ram' d' ⟨d₀, torn, h, hf, heq⟩ hmove
      exact hp.move_interrupted _ hB h hf heq hmove
    · obtain ⟨seg, hs⟩ := (hp.lasting []).stored h
      exact ⟨d, [], h, hs.frayed, fun _ => rfl⟩
  obtain ⟨d₀, torn, h, hf, -⟩ := hinv
  exact ⟨ram', d₀, torn, h, hf, .inr hb⟩

/-- When calls are interrupted, removals are not reliable. -/
lemma removal_unreliable (hh : ∀ name d, harm (.removeFile name) d d) (name : FileName) :
    ¬Reliable harm (.removeFile name) := fun hr => hr ∅ ∅ (hh name ∅)

lemma watched (hp : Withstands cfg A P) (hb : env.backend = .posix)
    (hB : ∀ mk d, B mk d → A mk d ∧ Tidy cfg d) (h : P [] ram d) :
    Watched cfg interrupted B ram d [] (Leaves env cfg (P [])) :=
  ⟨fun hmoves => hp.moves_interrupted hb hB h hmoves,
    .inr (removal_unreliable fun _ _ => .inl rfl)⟩

/-- The marked points before a crash are reached with a whole tail. -/
lemma tidy (hp : Withstands cfg A P) (h : P [] ram w.disk)
    {Q : (FsCall → Disk → Disk → Prop) → (StoreMark → Disk → Prop) → DiskPost Ram α}
    (hm : Performs env cfg ram w.disk m Q) (hc : Crashes env A m ram w w') :
    Crashes env (fun mk d => A mk d ∧ Tidy cfg d) m ram w w' := by
  have htidy : Watched cfg stays A ram w.disk [] (Tidy cfg) := by
    refine ⟨fun {ram' d'} hmoves => ?_, .inr (removal_unreliable fun _ _ => rfl)⟩
    obtain ⟨seg, hs⟩ := (hp.lasting []).stored (hp.moves_stays (fun _ _ => id) h hmoves)
    exact (hs.tidy_iff hs.frayed).2 rfl
  exact hc.watched (hm stays A _ interrupts_stays.damaging
    (fun g d hmk => hp.guarded (.allocate g) d hmk) htidy)

/-- **A crash.**  Where a method makes moves, whatever calls fail, a crash inside it leaves what
held before, or what holds after the events of the method. -/
theorem crash {S : Except Status α → List LogEvent → Prop} (hp : Withstands cfg A P)
    (hb : env.backend = .posix) (h : P [] ram w.disk)
    (hm : Performs env cfg ram w.disk m fun harm B r ram' d' => ∃ evs,
      Moves cfg harm B ram w.disk evs ram' d' ∧ S r evs) (hc : Crashes env A m ram w w') :
    ∃ evs, (evs = [] ∨ ∃ r, S r evs) ∧ Leaves env cfg (P evs) w'.disk := by
  have hwp := hm interrupted (fun mk d => A mk d ∧ Tidy cfg d) _ interrupts_interrupted.damaging
    (fun g d hmk => hp.guarded (.allocate g) d hmk.1) (hp.watched hb (fun _ _ => id) h)
  have hgoal : Wp env interrupted (fun mk d => A mk d ∧ Tidy cfg d)
      (fun d' => ∃ evs, (evs = [] ∨ ∃ r, S r evs) ∧ Leaves env cfg (P evs) d') m
      (fun r ram' d' => ∃ evs, Moves cfg interrupted (fun mk d => A mk d ∧ Tidy cfg d) ram w.disk
        evs ram' d' ∧ S r evs) ram w.disk := fun w₁ hw₁ =>
    Prog.wp_mono (hwp w₁ hw₁) (fun _ hJ => ⟨[], .inl rfl, hJ⟩) fun _ _ hq => hq
  apply (hp.tidy h hm hc).sound hgoal
  rintro r ram' d' ⟨evs, hmoves, hS⟩
  exact ⟨evs, .inr ⟨r, hS⟩, hp.moves_interrupted hb (fun _ _ => id) h hmoves⟩

/-- Where it logs `evs` if it succeeds, and a directory tells whether it has, a crash inside it
leaves what held before or comes after all it does. -/
theorem crash_cases (hp : Withstands cfg A P) (hb : env.backend = .posix) (h : P [] ram w.disk)
    (hm : Performs env cfg ram w.disk m fun harm B r ram' d' =>
      (∀ a, r = .ok a → Moves cfg harm B ram w.disk evs ram' d') ∧
        ∀ st, r = .error st → Moves cfg harm B ram w.disk [] ram' d')
    (htell : ∀ d, Leaves env cfg (P []) d → Leaves env cfg (P evs) d → evs = [])
    (hc : Crashes env A m ram w w') : Leaves env cfg (P []) w'.disk ∨
      ∃ a ram', Executes env noHarm A m ram w (.ok a) ram' w' := by
  have hwp := hm interrupted (fun mk d => A mk d ∧ Tidy cfg d) _ interrupts_interrupted.damaging
    (fun g d hmk => hp.guarded (.allocate g) d hmk.1) (hp.watched hb (fun _ _ => id) h)
  have hcases := (hp.tidy h hm hc).cases (F := fun _ _ d' => Leaves env cfg (P evs) d')
    (hwp.mono ?_) fun _ _ d d' hJ hF hF' => ?_
  · obtain hJ | ⟨a, ram', he⟩ := hcases
    · exact .inl hJ
    · exact .inr ⟨a, ram', Prog.exec_marks (fun _ _ hmk => hmk.1) he⟩
  · rintro r ram' d' ⟨hok, herr⟩
    exact ⟨fun a hr => hp.moves_interrupted hb (fun _ _ => id) h (hok a hr),
      fun st hr => hp.moves_interrupted hb (fun _ _ => id) h (herr st hr)⟩
  · rwa [htell d hJ hF] at hF'

end Withstands

end Pqueue
