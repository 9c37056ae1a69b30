import Pqueue.Store.Written

/-!
# Directories after crashes

A crash may come at any time, while the directory has no manifest yet or while it is formatted, too.
What it leaves need not mount.  Where it does, there is no manifest or the logs are those of an
object that has written them (`Inherited`), and every run with crashes keeps that
(`CrashRun.inherited`).
-/

namespace Pqueue

open Effect LittleEndian

/-! ## Objects without a segment -/

/-- A mounted object that has opened no segment, and no manifest can be read. -/
structure Unopened (ram : Ram) (d : Disk) : Prop where
  blank : Blank ram
  unpublished : Unpublished ram d
  canonical : Canonical d

/-- A mounted object that has opened no segment, or knows what it has written. -/
def Running (cfg : AppendLogConfig) (ram : Ram) (d : Disk) : Prop :=
  Unopened ram d ∨ Written cfg ram d

section Running

variable {env : Env} {cfg : AppendLogConfig} {harm : FsCall → Disk → Disk → Prop}
  {A B : StoreMark → Disk → Prop} {ram ram' : Ram} {d d' : Disk} {w w' : World}
  {evs : List LogEvent}

/-- **One move** of an object without a segment. -/
lemma Unopened.move (hi : Interrupts harm) (hA : ∀ mk d, A mk d → Within guards mk)
    (h : Unopened ram d) (hm : Move cfg harm A ram d evs ram' d') : Running cfg ram' d' := by
  obtain ⟨hb, hu, hcan⟩ := h
  have hplans : ∀ {plan ram₁ d₁ idx parent input live out},
      ¬Compacts cfg harm A ram d plan ram₁ d₁ idx parent input live out := by
    intro plan ram₁ d₁ idx parent input live out hc
    obtain ⟨range, fallback, -, hplan⟩ := hc.planned
    rw [hb.not_planned] at hplan
    cases hplan
  cases hm with
  | lock hlock =>
    exact .inl ⟨hb, hu.congr (SameExcept.slots hlock slot_ne_lock) rfl,
      hcan.of_sameExcept hlock isSegmentName_lock⟩
  | noteSealed =>
    rw [hb.noteSealed]
    exact .inl ⟨hb, hu, hcan⟩
  | wrote hg hlt =>
    exact .inl ⟨hb.of_core (core_trackWrite ..), hu.congr (slots_insert d _ _) (core_trackWrite ..),
      hcan.insert_segment hlt⟩
  | writeFailed hg hlt hharm =>
    obtain ⟨n, -, rfl⟩ | ⟨-, rfl⟩ := hi _ _ _ hharm
    · exact .inl ⟨hb, hu.congr (slots_insert d _ _) rfl, hcan.insert_segment hlt⟩
    · exact .inl ⟨hb, hu, hcan⟩
  | opened ho hn => exact .inr ((carried_written hA).first _ _ _ _ _ _ _ hb hu hcan (hi.opens ho))
  | openFailed ho hharm =>
    have hc : Coherent cfg _ _ := (hb.opened ho 0).1
    have hlt := Nat.lt_of_succ_lt ho.gen_lt
    refine .inl ⟨hb.of_core (core_trackWrite ..), hu.publishFailed hi.damaging hi.tearsSlots
      (hc.generations.valid (u32_lt _)) (slots_insert d _ _) hharm (core_trackWrite ..), ?_⟩
    obtain ⟨n, -, rfl⟩ | ⟨-, rfl⟩ := hi _ _ _ hharm
    · exact (hcan.insert_segment hlt).insert_slot
    · exact hcan.insert_segment hlt
  | logged _ hopen => exact absurd hb.bytes hopen
  | logFailed _ hopen => exact absurd hb.bytes hopen
  | compacted hc => exact absurd hc hplans
  | compactFailed hc => exact absurd hc hplans

/-- **One move** of a running object. -/
lemma Running.move (hi : Interrupts harm) (hA : ∀ mk d, A mk d → Within guards mk)
    (h : Running cfg ram d) (hm : Move cfg harm A ram d evs ram' d') :
    Running cfg ram' d' ∨ ram' = ram ∧ Tears cfg harm ram d d' := by
  rcases h with h | h
  · exact .inl (h.move hi hA hm)
  · obtain ⟨h', -⟩ | ⟨-, htears⟩ := h.move_cut hi hA hm
    · exact .inl (.inr h')
    · exact .inr htears

lemma Running.moves (hA : ∀ mk d, A mk d → Within guards mk) (h : Running cfg ram d)
    (hm : Moves cfg noHarm A ram d evs ram' d') : Running cfg ram' d' := by
  apply hm.invariant (P := fun _ ram d => Running cfg ram d) _ h
  intro evs ram d evs' ram' d' h hmove
  obtain h' | ⟨-, htears⟩ := h.move interrupts_noHarm hA hmove
  · exact h'
  · exact absurd htears not_tears_noHarm

/-- Where there is no manifest, no log is torn. -/
lemma Running.tidy (h : Running cfg ram d) : Tidy cfg d := by
  rcases h with h | h
  · intro g hg
    have hnone : Disk.elected d = none := elected_eq_none h.unpublished.2
    unfold Disk.gens at hg
    rw [hnone] at hg
    cases hg
  · obtain ⟨seg, hs⟩ := h.stored
    exact (hs.tidy_iff hs.frayed).2 rfl

lemma Running.mounted (h : Running cfg ram d) : ram.mounted = true := by
  rcases h with h | h
  · exact h.blank.mounted
  · obtain ⟨seg, hs⟩ := h.stored
    exact hs.sited.mounted

end Running

/-! ## Directories -/

/-- A directory that objects have left, in whatever state: where it mounts, there is no manifest in
it, or an object that knew the logs may have left it. -/
structure Inherited (env : Env) (cfg : AppendLogConfig) (d : Disk) : Prop where
  canonical : Canonical d
  tailed : Disk.Tailed d
  mounts : Disk.Mounts cfg d → Disk.elected d = none ∨ Leaves env cfg (Written cfg) d

section Inherited

variable {env : Env} {cfg : AppendLogConfig} {A : StoreMark → Disk → Prop} {ram ram' : Ram}
  {d d' : Disk} {w w' : World} {gens : List ℕ}

lemma Leaves.inherited (h : Leaves env cfg (Written cfg) d) : Inherited env cfg d := by
  have hleaves := h
  obtain ⟨ram₀, d₀, torn, hw, hf, -⟩ := h
  exact ⟨hf.canonical, hw.tailed.congr hf.slots, fun _ => .inr hleaves⟩

lemma inherited_of_none (hcan : Canonical d) (h : ∀ s, Disk.manifest d s = none) :
    Inherited env cfg d := ⟨hcan, tailed_of_none h, fun _ => .inl (elected_eq_none h)⟩

lemma Running.inherited (h : Running cfg ram d) : Inherited env cfg d := by
  rcases h with h | h
  · exact inherited_of_none h.canonical h.unpublished.2
  · exact (lasting_written.leaves h).inherited

/-- A segment that scans is there. -/
lemma Disk.Scans.isSome (h : Disk.Scans cfg d gens) {g : ℕ} (hg : g ∈ gens) :
    (d.lookup (segmentName g)).isSome := by
  obtain ⟨torn, hlog, -⟩ := h.log hg
  obtain ⟨⟨-, -, startSeq, -, hfile⟩, -⟩ := log_eq_some_iff.1 hlog
  rw [hfile]
  rfl

lemma Disk.Scans.congr (h : Disk.Scans cfg d gens)
    (hg : ∀ g ∈ gens, d'.lookup (segmentName g) = d.lookup (segmentName g)) :
    Disk.Scans cfg d' gens := by
  induction gens with
  | nil => exact trivial
  | cons g gens ih =>
    obtain ⟨⟨evs, torn, hlog, hlast⟩, hrest⟩ := h
    refine ⟨⟨evs, torn, ?_, hlast⟩, ih hrest fun g' hg' => hg g' (List.mem_cons_of_mem _ hg')⟩
    rw [← hlog]
    unfold Disk.log Disk.segmentBytes
    rw [hg g (List.mem_cons_self ..)]

/-- Segments go, and the manifests stay. -/
lemma Inherited.kept (h : Inherited env cfg d) (hcan : Canonical d')
    (hs : ∀ s : Slot, d'.lookup s.fileName = d.lookup s.fileName)
    (hkept : ∀ g, (d'.lookup (segmentName g)).isSome →
      d'.lookup (segmentName g) = d.lookup (segmentName g)) : Inherited env cfg d' := by
  refine ⟨hcan, h.tailed.congr hs, fun hm => ?_⟩
  have helected : Disk.elected d' = Disk.elected d := by
    unfold Disk.elected Disk.manifest
    rw [hs, hs]
  unfold Disk.Mounts at hm
  cases hmd : Disk.elected d' with
  | none => exact .inl rfl
  | some md =>
    right
    rw [hmd] at hm helected
    obtain ⟨hspan, hends, hscans, -⟩ := hm
    have hsame : ∀ g ∈ md.gens, d'.lookup (segmentName g) = d.lookup (segmentName g) :=
      fun g hg => hkept g (hscans.isSome hg)
    have hmounts : Disk.Mounts cfg d := by
      unfold Disk.Mounts
      rw [← helected]
      exact ⟨hspan, hends, hscans.congr fun g hg => (hsame g hg).symm, h.canonical.namesOk⟩
    obtain hnone | ⟨ram₀, d₀, torn, hw, hf, hrec⟩ := h.mounts hmounts
    · rw [hnone] at helected
      cases helected
    · obtain ⟨seg, hstored⟩ := hw.stored
      obtain ⟨md', -, hgens, -⟩ := hstored.found hf
      have hgens : md.gens = ram₀.gens := by
        rw [← hgens, Disk.gens, ← helected]
        rfl
      exact ⟨ram₀, d₀, torn, hw, hf.congr hs (fun g hg => hsame g (hgens ▸ hg)) hcan, hrec⟩

lemma Inherited.lock (h : Inherited env cfg d) (hlock : SameExcept kLockFileName d d') :
    Inherited env cfg d' :=
  h.kept (h.canonical.of_sameExcept hlock isSegmentName_lock)
    (SameExcept.slots hlock slot_ne_lock) fun g _ => hlock _ (segmentName_ne_lock g)

/-- **A format that is cut off** has removed manifests only after all segments, so what mounts then
has no manifest. -/
lemma Inherited.shrunk (h : Inherited env cfg d) (hs : Shrunk d d') : Inherited env cfg d' := by
  have hcan : Canonical d' := by
    intro name hname
    apply h.canonical
    obtain hsame | hnone := hs.files name
    · rwa [← AList.mem_keys, ← AList.lookup_isSome, ← hsame, AList.lookup_isSome, AList.mem_keys]
    · rw [← AList.mem_keys, ← AList.lookup_isSome, hnone] at hname
      cases hname
  rcases hs.order with hslots | hgone
  · apply h.kept hcan hslots
    intro g hg
    apply (hs.files _).resolve_right
    intro hnone
    rw [hnone] at hg
    cases hg
  · have htailed : Disk.Tailed d' := by
      intro s md hmd
      obtain hsame | hnone := hs.files s.fileName
      · unfold Disk.manifest at hmd
        rw [hsame] at hmd
        exact h.tailed s md hmd
      · unfold Disk.manifest at hmd
        rw [hnone] at hmd
        cases hmd
    refine ⟨hcan, htailed, fun hm => .inl ?_⟩
    unfold Disk.Mounts at hm
    cases hmd : Disk.elected d' with
    | none => rfl
    | some md =>
      -- the tail of the manifest is gone
      rw [hmd] at hm
      obtain ⟨slot, hslot⟩ := exists_slot_of_elected hmd
      have htail : md.tailGeneration ∈ md.gens :=
        (ManifestData.mem_gens (htailed slot md hslot)).2 (.inr rfl)
      have hname := isSegmentName_segmentName (elected_valid hmd).tailGeneration_lt
      have hsome := hm.2.2.1.isSome htail
      rw [hgone _ (by rw [hname]; rfl)] at hsome
      cases hsome

end Inherited

/-! ## Objects in inherited directories -/

/-- A running object, with the sequences that it may have. -/
def Live (cfg : AppendLogConfig) (ram : Ram) (d : Disk) : Prop :=
  Standing (Running cfg) ram d (ram.contents d)

section Live

variable {env : Env} {cfg : AppendLogConfig} {A : StoreMark → Disk → Prop} {ram ram' : Ram}
  {d d' : Disk} {w w' : World} {op : StoreOp} {r : Except Status Unit}

lemma Live.running (h : Live cfg ram d) : Running cfg ram d := by
  rcases h.inStep with ⟨hb, hslot, hbare⟩ | h
  · exact .inl ⟨hb, ⟨hslot, hbare.manifest⟩, hbare.canonical⟩
  · exact h

lemma live_of_running (h : Running cfg ram d) (hn : ram.nextSequence < 2 ^ 32)
    (hs : ∀ s ∈ ram.seqs, s < 2 ^ 32 - 1) : Live cfg ram d := ⟨.inr h, rfl, hn, hs⟩

lemma live_formatted (h : Bare d d') : Live cfg ram.formatted d' :=
  live_of_running (.inl ⟨Blank.formatted ram, ⟨rfl, h.bare.manifest⟩, h.bare.canonical⟩)
    (Standing.formatted (P := Running cfg) h).sequence_lt
    (Standing.formatted (P := Running cfg) h).seqs_lt

/-- A directory without segments and manifests. -/
lemma wpc_mount_unpublished {J : Disk → Prop} {Z : Prop} (hcan : Canonical w.disk)
    (hm : Disk.Mounts cfg w.disk) (hnone : Disk.elected w.disk = none) (hJ : J w.disk) :
    Wpc env A Z J (Store.mount cfg) (fun r ram' w' => r = .ok () ∧ w'.disk = w.disk ∧
      Live cfg ram' w'.disk) {} w := by
  have hnames : ∀ name ∈ w.disk.keys, isSegmentName name = none := by
    unfold Disk.Mounts at hm
    rwa [hnone] at hm
  apply wpc_mount_empty hnone hnames hJ
  intro ram' w' hmounted hcore hdisk
  have hs := SameCore.of_core hcore
  have hb : Blank ram' := {
    mounted := hmounted
    bytes := hs.bytes
    active := hs.active
    ranges := hs.ranges
    gens := hs.gens
    records := hs.records
    next_ne := fun hn => one_ne_zero (hs.next.symm.trans hn) }
  have hrecords : ram'.records = [] := hb.records
  have hnext : ram'.nextSequence = 0 := hs.sequence
  refine ⟨rfl, hdisk, live_of_running (.inl ⟨hb, ⟨hs.slot, ?_⟩, hdisk ▸ hcan⟩) ?_ ?_⟩
  · rw [hdisk]
    exact manifest_eq_none hnone
  · rw [hnext]
    simp
  · simp [Ram.seqs, hrecords]

/-- **A mount** of what was inherited. -/
theorem Inherited.mount (h : Inherited env cfg w.disk) (hm : Disk.Mounts cfg w.disk)
    (he : Executes env noHarm A (Store.mount cfg) {} w r ram' w') :
    r = .ok () ∧ Live cfg ram' w'.disk := by
  obtain hnone | hleaves := h.mounts hm
  · obtain ⟨hr, -, hlive⟩ := (wpc_mount_unpublished (J := fun _ => True) (Z := True) h.canonical hm
      hnone trivial).executes he
    exact ⟨hr, hlive⟩
  · obtain ⟨hr, hw, hn⟩ := hleaves.mount he
    exact ⟨hr, live_of_running (.inr hw.1) hn hw.1.seqs_lt⟩

/-- **A mount that is cut off.** -/
lemma Inherited.crash_mount (h : Inherited env cfg w.disk) (hm : Disk.Mounts cfg w.disk)
    (hc : Crashes env A (Store.mount cfg) {} w w') : Inherited env cfg w'.disk := by
  obtain hnone | hleaves := h.mounts hm
  · apply hc.of_wpc (wpc_mount_unpublished (J := Inherited env cfg) (Z := True) h.canonical hm
      hnone h)
    rintro r ram' w' ⟨-, hdisk, -⟩
    rw [hdisk]
    exact h
  · exact (Leaves.crash_mount lasting_written hleaves hc).inherited

/-- **A format that is cut off.** -/
lemma Inherited.crash_format (h : Inherited env cfg w.disk)
    (hc : Crashes env A Store.format ram w w') : Inherited env cfg w'.disk := by
  apply hc.of_wpc (Z := True) (J := Inherited env cfg) (Q := fun _ _ w' => Bare w.disk w'.disk)
  · exact wpc_format (fun d' hs => h.shrunk hs) fun w' hbare => hbare
  · intro r ram' w' hbare
    exact inherited_of_none hbare.canonical hbare.manifest

/-- **Moves of a running object that is cut off.** -/
lemma Running.moves_interrupted {B : StoreMark → Disk → Prop} {evs : List LogEvent}
    (hb : env.backend = .posix) (hA : ∀ mk d, A mk d → Within guards mk)
    (hB : ∀ mk d, B mk d → A mk d ∧ Tidy cfg d) (h : Running cfg ram d)
    (hm : Moves cfg interrupted B ram d evs ram' d') : Inherited env cfg d' := by
  have hinv : Running cfg ram' d' ∨ ∃ d₀ torn, Written cfg ram' d₀ ∧ Frayed cfg ram' d₀ torn d' ∧
      (torn = [] → d₀ = d') := by
    apply hm.invariant (P := fun _ ram d => Running cfg ram d ∨ ∃ d₀ torn, Written cfg ram d₀ ∧
      Frayed cfg ram d₀ torn d ∧ (torn = [] → d₀ = d)) _ (.inl h)
    have hkept : ∀ {evs : List LogEvent} {ram d d₀ torn ram' d'}, Written cfg ram d₀ →
        Frayed cfg ram d₀ torn d → (torn = [] → d₀ = d) →
        Move cfg interrupted B ram d evs ram' d' →
          ∃ d₁ torn', Written cfg ram' d₁ ∧ Frayed cfg ram' d₁ torn' d' ∧ (torn' = [] → d₁ = d') :=
      (withstands_written hA).move_interrupted [] hB
    rintro evs ram d evs' ram' d' (h | ⟨d₀, torn, hw, hf, heq⟩) hmove
    · rcases h with h | h
      · exact .inl (h.move interrupts_interrupted (fun mk d hmk => hA mk d (hB mk d hmk).1) hmove)
      · obtain ⟨seg, hs⟩ := h.stored
        exact .inr (hkept h hs.frayed (fun _ => rfl) hmove)
    · exact .inr (hkept hw hf heq hmove)
  obtain h | ⟨d₀, torn, hw, hf, -⟩ := hinv
  · exact h.inherited
  · exact Leaves.inherited ⟨ram', d₀, torn, hw, hf, .inr hb⟩

/-- **A running object that is cut off.** -/
theorem Running.crash {α : Type} {m : Store α} {S : Except Status α → List LogEvent → Prop}
    (hb : env.backend = .posix) (hA : ∀ mk d, A mk d → Within guards mk)
    (h : Running cfg ram w.disk)
    (hm : Performs env cfg ram w.disk m fun harm B r ram' d' => ∃ evs,
      Moves cfg harm B ram w.disk evs ram' d' ∧ S r evs) (hc : Crashes env A m ram w w') :
    Inherited env cfg w'.disk := by
  -- the marked points before the crash are reached with a whole tail
  have hstays : Watched cfg stays A ram w.disk [] (Tidy cfg) := by
    refine ⟨fun {ram' d'} hmoves => ?_, .inr (Withstands.removal_unreliable fun _ _ => rfl)⟩
    suffices hrun : Running cfg ram' d' from hrun.tidy
    apply hmoves.invariant (P := fun _ ram d => Running cfg ram d) _ h
    intro evs ram d evs' ram' d' h hmove
    obtain h' | ⟨-, _, _, _, _, hharm, -⟩ := h.move interrupts_stays hA hmove
    · exact h'
    · exact hharm.elim
  have hc := hc.watched (hm stays A _ interrupts_stays.damaging
    (fun g d hmk => hA (.allocate g) d hmk) hstays)
  apply hc.sound (hm interrupted (fun mk d => A mk d ∧ Tidy cfg d) (Inherited env cfg)
    interrupts_interrupted.damaging (fun g d hmk => hA (.allocate g) d hmk.1)
    ⟨fun hmoves => h.moves_interrupted hb hA (fun _ _ => id) hmoves,
      .inr (Withstands.removal_unreliable fun _ _ => .inl rfl)⟩)
  rintro r ram' d' ⟨evs, hmoves, -⟩
  exact h.moves_interrupted hb hA (fun _ _ => id) hmoves

/-- **One operation** of a running object. -/
lemma Live.step (hA : ∀ mk d, A mk d → Within guards mk) (h : Live cfg ram w.disk)
    (he : Executes env noHarm A (op.method cfg) ram w r ram' w') : Live cfg ram' w'.disk := by
  by_cases hop : op = .format
  · subst hop
    have hwpc : Wpc env A True (fun _ => True) Store.format
        (fun r ram' w' => Live cfg ram' w'.disk) ram w :=
      wpc_format (fun _ _ => trivial) fun w' hbare => live_formatted hbare
    exact hwpc.executes he
  · obtain ⟨evs, hm, -⟩ := (h.wp_method damaging_noHarm (fun g d hmk => hA (.allocate g) d hmk)
      watched_true h.running.mounted hop).sound he
    apply live_of_running (h.running.moves hA hm)
    · rw [hm.nextSequence]
      exact h.sequence_lt
    · exact hm.seqs_lt h.seqs_lt

/-- **One operation that is cut off.** -/
lemma Live.crash (hb : env.backend = .posix) (hA : ∀ mk d, A mk d → Within guards mk)
    (h : Live cfg ram w.disk) (hc : Crashes env A (op.method cfg) ram w w') :
    Inherited env cfg w'.disk := by
  by_cases hop : op = .format
  · subst hop
    exact h.running.inherited.crash_format hc
  · exact h.running.crash hb hA (fun harm B J hd hgen hJ =>
      h.wp_method hd hgen hJ h.running.mounted hop) hc

end Live

/-! ## Runs with crashes -/

/-- An object can be used once it is mounted.  A new one mounts the directory, or formats one that
does not mount. -/
def Usable (cfg : AppendLogConfig) (op : StoreOp) (ram : Ram) (w : World) : Prop :=
  ram.mounted = true ∨ Disk.Mounts cfg w.disk ∨ op = .format

/-- The states that operations without failing calls lead to, on a directory that is empty at
first, when the object may be left at any time and any operation may be cut off. -/
inductive CrashRun (env : Env) (cfg : AppendLogConfig) (A : StoreMark → Disk → Prop) :
    Ram → World → Prop
  | start {w} (h : w.disk = ∅) : CrashRun env cfg A {} w
  | operation {ram w op r ram' w'} (h : CrashRun env cfg A ram w) (hu : Usable cfg op ram w)
      (he : Executes env noHarm A (op.method cfg) ram w r ram' w') : CrashRun env cfg A ram' w'
  | reopened {ram w} (h : CrashRun env cfg A ram w) : CrashRun env cfg A {} w
  | crashed {ram w op w'} (h : CrashRun env cfg A ram w) (hu : Usable cfg op ram w)
      (hc : Crashes env A (op.method cfg) ram w w') : CrashRun env cfg A {} w'

section Runs

variable {env : Env} {cfg : AppendLogConfig} {A : StoreMark → Disk → Prop} {ram ram' : Ram}
  {w w' : World} {op : StoreOp} {r : Except Status Unit}

/-- **One operation** of a new object. -/
lemma Inherited.step (h : Inherited env cfg w.disk) (hA : ∀ mk d, A mk d → Within guards mk)
    (hu : Usable cfg op {} w) (he : Executes env noHarm A (op.method cfg) {} w r ram' w') :
    Inherited env cfg w'.disk ∧ (ram' = {} ∧ ¬op.Mounts ∨ Live cfg ram' w'.disk) := by
  have hlive : Live cfg ram' w'.disk →
      Inherited env cfg w'.disk ∧ (ram' = {} ∧ ¬op.Mounts ∨ Live cfg ram' w'.disk) :=
    fun hl => ⟨hl.running.inherited, .inr hl⟩
  by_cases hop : op = .format
  · subst hop
    have hwpc : Wpc env A True (fun _ => True) Store.format
        (fun r ram' w' => Live cfg ram' w'.disk) {} w :=
      wpc_format (fun _ _ => trivial) fun w' hbare => live_formatted hbare
    exact hlive (hwpc.executes he)
  · have hm : Disk.Mounts cfg w.disk := (hu.resolve_left (by simp)).resolve_right hop
    by_cases hmounts : op.Mounts
    · rcases hmounts.executes rfl he with ⟨ram₁, w₁, hmount, hrest⟩ | ⟨e, rfl, hmount⟩
      · obtain ⟨-, hl⟩ := h.mount hm hmount
        exact hlive (hl.step hA (hrest hl.running.mounted))
      · obtain ⟨hr, -⟩ := h.mount hm hmount
        cases hr
    · obtain ⟨rfl, hs⟩ :=
        (wp_unmounted damaging_noHarm rfl hmounts hop (J := fun _ => True) trivial).sound he
      exact ⟨h.lock hs, .inl ⟨rfl, hmounts⟩⟩

/-- **One operation** of a new object **that is cut off.** -/
lemma Inherited.crash (hb : env.backend = .posix) (h : Inherited env cfg w.disk)
    (hA : ∀ mk d, A mk d → Within guards mk) (hu : Usable cfg op {} w)
    (hc : Crashes env A (op.method cfg) {} w w') : Inherited env cfg w'.disk := by
  by_cases hop : op = .format
  · subst hop
    exact h.crash_format hc
  · have hm : Disk.Mounts cfg w.disk := (hu.resolve_left (by simp)).resolve_right hop
    by_cases hmounts : op.Mounts
    · obtain hc | ⟨ram₁, w₁, he, hc⟩ | ⟨e, ram', he⟩ := hmounts.crashes rfl hc
      · exact h.crash_mount hm hc
      · obtain ⟨-, hl⟩ := h.mount hm he
        exact hl.crash hb hA (hc hl.running.mounted)
      · obtain ⟨hr, -⟩ := h.mount hm he
        cases hr
    · have hwp : Wp env interrupted A (Inherited env cfg) (op.method cfg) _ {} w.disk :=
        wp_unmounted interrupts_interrupted.damaging rfl hmounts hop h
      apply hc.sound hwp
      rintro r ram' d' ⟨-, hs⟩
      exact h.lock hs

/-- **Every run with crashes.** -/
theorem CrashRun.inherited (hb : env.backend = .posix) (hA : ∀ mk d, A mk d → Within guards mk)
    (h : CrashRun env cfg A ram w) :
    Inherited env cfg w.disk ∧ (ram = {} ∨ Live cfg ram w.disk) := by
  induction h with
  | start hw =>
    refine ⟨inherited_of_none ?_ ?_, .inl rfl⟩
    · rw [hw]
      exact Canonical.empty
    · intro s
      rw [hw]
      rfl
  | operation _ hu he ih =>
    obtain ⟨hi, rfl | hl⟩ := ih
    · obtain ⟨hi', hram⟩ := hi.step hA hu he
      exact ⟨hi', hram.imp_left And.left⟩
    · have hl' := hl.step hA he
      exact ⟨hl'.running.inherited, .inr hl'⟩
  | reopened _ ih => exact ⟨ih.1, .inl rfl⟩
  | crashed _ hu hc ih =>
    obtain ⟨hi, rfl | hl⟩ := ih
    · exact ⟨hi.crash hb hA hu hc, .inl rfl⟩
    · exact ⟨hl.crash hb hA hc, .inl rfl⟩

/-- An operation that mounts leaves a mounted object. -/
lemma CrashRun.live (hb : env.backend = .posix) (hA : ∀ mk d, A mk d → Within guards mk)
    (h : CrashRun env cfg A ram w) (hop : op.Mounts) (hu : Usable cfg op ram w)
    (he : Executes env noHarm A (op.method cfg) ram w r ram' w') : Live cfg ram' w'.disk := by
  obtain ⟨hi, rfl | hl⟩ := h.inherited hb hA
  · exact (hi.step hA hu he).2.resolve_left fun hnot => hnot.2 hop
  · exact hl.step hA he

end Runs

end Pqueue
