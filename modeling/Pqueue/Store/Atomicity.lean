import Pqueue.Store.Aftermath
import Pqueue.Store.Replaying

/-!
# Appends are atomic

An append that is cut off leaves the logs as they were, or with its event, so that the next mount
finds the records from before the append or those from after it (`appends_atomic`).  That holds in
every run with crashes, where the directory mounts at all.  After a crash inside a format it need
not: the segments go before the manifests, and a manifest whose segments are gone is refused
(`appends_atomic_lost`).
-/

namespace Pqueue

open Effect LittleEndian

/-! ## Appends that are cut off -/

/-- The operations that append an event. -/
def StoreOp.Appends : StoreOp → Prop
  | .enqueue .. | .pop _ | .rewrite .. => True
  | _ => False

/-- What a crash has left mounts to what was there before, or to what the whole operation leaves. -/
def EitherWay (backend : StorageBackend) (cfg : AppendLogConfig) (before after left : Disk) :
    Prop :=
  ∃ L L', MountsTo backend cfg before L ∧ MountsTo backend cfg after L' ∧
    (MountsTo backend cfg left L ∨ MountsTo backend cfg left L')

section Appends

variable {env : Env} {cfg : AppendLogConfig} {A : StoreMark → Disk → Prop} {P : Ram → Disk → Prop}
  {ram ram' ram₁ : Ram} {d : Disk} {w w' w₁ : World} {L : List (ℕ × Bytes)} {E : List LogEvent}
  {op : StoreOp} {r : Except Status Unit}

lemma StoreOp.Appends.mounts (h : op.Appends) : op.Mounts := by
  cases op with
  | enqueue | pop | rewrite => trivial
  | _ => exact h.elim

/-- An append logs one event when it succeeds, and none when it fails. -/
lemma Standing.appends (env : Env) (cfg : AppendLogConfig) (h : Standing P ram d L)
    (hm : ram.mounted = true) (hop : op.Appends) :
    ∃ e, Performs env cfg ram d (op.method cfg) fun harm B r ram' d' =>
      (∀ a, r = .ok a → Moves cfg harm B ram d [e] ram' d') ∧
        ∀ st, r = .error st → Moves cfg harm B ram d [] ram' d' := by
  have hcommits : ∀ {harm B J} {m : Store Unit} {R : Ram → Prop} {n : ℕ} {e : LogEvent},
      Wp env harm B J m (Commits cfg harm B ram d [] R n e) ram d →
      Wp env harm B J m (fun r ram' d' => (∀ a, r = .ok a → Moves cfg harm B ram d [e] ram' d') ∧
        ∀ st, r = .error st → Moves cfg harm B ram d [] ram' d') ram d := by
    intro harm B J m R n e hw
    apply hw.mono
    rintro r ram' d' ⟨hok, herr⟩
    exact ⟨fun a hr => (hok hr).1, herr⟩
  cases op with
  | enqueue fuel record =>
    obtain ⟨htail, hback⟩ := h.tail
    refine ⟨.enqueue ram.index.tail record, fun harm B J hd hgen hJ => ?_⟩
    apply (reads_readIndex hm).bind
    intro index hindex
    rw [hindex]
    exact hcommits (wp_commitEnqueue hd hgen hJ .refl hm htail hback)
  | pop expectedSequence =>
    exact ⟨.pop (u32 expectedSequence), fun harm B J hd hgen hJ =>
      hcommits (wp_commitPop hd hgen hJ .refl hm (u32_lt _))⟩
  | rewrite fuel sequence record =>
    exact ⟨.rewrite (u32 sequence) record, fun harm B J hd hgen hJ =>
      hcommits (wp_rewriteRecord hd hgen hJ .refl hm (u32_lt _))⟩
  | _ => exact hop.elim

lemma WrittenAs.mountsTo (h : WrittenAs cfg E ram d) : MountsTo env.backend cfg d (logContents E) :=
  ((lasting_writtenAs E).leaves h).mountsTo

lemma WrittenAs.standing (h : WrittenAs cfg E ram d) (hn : ram.nextSequence < 2 ^ 32) :
    Standing (Written cfg) ram d (ram.contents d) := ⟨.inr h.1, rfl, hn, h.1.seqs_lt⟩

/-- **One append** of a mounted object. -/
lemma WrittenAs.append (hA : ∀ mk d, A mk d → Within guards mk)
    (hplans : ∀ ram d, ¬Plans cfg A ram d)
    (h : WrittenAs cfg E ram w.disk) (hn : ram.nextSequence < 2 ^ 32) (hop : op.Appends)
    (he : Executes env noHarm A (op.method cfg) ram w r ram₁ w₁) :
    ∃ evs, WrittenAs cfg (E ++ evs) ram₁ w₁.disk := by
  obtain ⟨seg, hs⟩ := h.1.stored
  obtain ⟨e, hperforms⟩ := (h.standing hn).appends env cfg hs.sited.mounted hop
  obtain ⟨hok, herr⟩ := (hperforms noHarm A _ damaging_noHarm
    (fun g d hmk => hA (.allocate g) d hmk) watched_true).sound he
  obtain ⟨evs, hmoves⟩ : ∃ evs, Moves cfg noHarm A ram w.disk evs ram₁ w₁.disk := by
    cases r with
    | ok a => exact ⟨_, hok a rfl⟩
    | error st => exact ⟨_, herr st rfl⟩
  have hstart : WrittenAs cfg (E ++ []) ram w.disk := by
    rw [List.append_nil]
    exact h
  refine ⟨evs, hmoves.invariant (P := fun evs => WrittenAs cfg (E ++ evs)) ?_ hstart⟩
  intro evs ram d evs' ram' d' hw hmove
  obtain hw | ⟨-, -, htears⟩ := (withstands_writtenAs hA hplans E).move interrupts_noHarm
    (fun _ _ => id) hw hmove
  · exact hw
  · exact absurd htears not_tears_noHarm

/-- **One append** of a mounted object **that is cut off.** -/
theorem WrittenAs.append_cut (hb : env.backend = .posix) (hA : ∀ mk d, A mk d → Within guards mk)
    (hplans : ∀ ram d, ¬Plans cfg A ram d) (h : WrittenAs cfg E ram w.disk)
    (hn : ram.nextSequence < 2 ^ 32) (hop : op.Appends)
    (he : Executes env noHarm A (op.method cfg) ram w r ram₁ w₁)
    (hc : Crashes env (fun _ _ => True) (op.method cfg) ram w w') :
    Leaves env cfg (WrittenAs cfg E) w'.disk ∨ w'.disk = w₁.disk := by
  have hp := withstands_writtenAs hA hplans E
  have hstart : WrittenAs cfg (E ++ []) ram w.disk := by
    rw [List.append_nil]
    exact h
  obtain ⟨seg, hs⟩ := h.1.stored
  obtain ⟨e, hperforms⟩ := (h.standing hn).appends env cfg hs.sited.mounted hop
  have htell : ∀ d, Leaves env cfg (WrittenAs cfg (E ++ [])) d →
      Leaves env cfg (WrittenAs cfg (E ++ [e])) d → [e] = [] := by
    intro d hl hl'
    have heq := hl.replayed.symm.trans hl'.replayed
    exact (List.append_cancel_left heq).symm
  obtain hl | ⟨a, ram', he'⟩ := hp.crash_cases hb hstart hperforms htell (hc.of_executes he)
  · rw [List.append_nil] at hl
    exact .inl hl
  · obtain ⟨-, -, rfl⟩ := he.unique he'
    exact .inr rfl

/-- **One append** of a new object that mounts what is left **and is cut off**, in the mount or
after it. -/
theorem Leaves.append_cut (hb : env.backend = .posix) (hA : ∀ mk d, A mk d → Within guards mk)
    (hplans : ∀ ram d, ¬Plans cfg A ram d) (h : Leaves env cfg (WrittenAs cfg E) w.disk)
    (hop : op.Appends) (he : Executes env noHarm A (op.method cfg) {} w r ram₁ w₁)
    (hc : Crashes env (fun _ _ => True) (op.method cfg) {} w w') :
    (∃ evs, WrittenAs cfg (E ++ evs) ram₁ w₁.disk) ∧
      (Leaves env cfg (WrittenAs cfg E) w'.disk ∨ w'.disk = w₁.disk) := by
  have hmount : ∀ {A : StoreMark → Disk → Prop} {r ram' w'},
      Executes env noHarm A (Store.mount cfg) {} w r ram' w' →
        r = .ok () ∧ WrittenAs cfg E ram' w'.disk ∧ ram'.nextSequence < 2 ^ 32 := by
    intro A r ram' w' he
    have hleaves : Leaves env cfg (Written cfg) w.disk := by
      obtain ⟨ram₀, d₀, torn, hw, hf⟩ := h
      exact ⟨ram₀, d₀, torn, hw.1, hf⟩
    rw [← h.replayed]
    exact hleaves.mount he
  obtain ⟨ram₂, w₂, hexec, hrest⟩ | ⟨e, -, hexec⟩ := hop.mounts.executes rfl he
  · obtain ⟨-, hw, hn⟩ := hmount hexec
    obtain ⟨seg, hs⟩ := hw.1.stored
    refine ⟨hw.append hA hplans hn hop (hrest hs.sited.mounted), ?_⟩
    obtain hc | ⟨ram₃, w₃, hexec', hc⟩ | ⟨e, ram', hexec'⟩ := hop.mounts.crashes rfl hc
    · exact .inl (Leaves.crash_mount (lasting_writtenAs E) h hc)
    · obtain ⟨-, rfl, rfl⟩ := hexec.unique hexec'
      exact hw.append_cut hb hA hplans hn hop (hrest hs.sited.mounted) (hc hs.sited.mounted)
    · obtain ⟨hr, -⟩ := hmount hexec'
      cases hr
  · obtain ⟨hr, -⟩ := hmount hexec
    cases hr

end Appends

/-! ## Every run -/

/-- No compaction is planned. -/
def Unplanned (cfg : AppendLogConfig) : StoreMark → Prop
  | .compactRange ram range fallback => ram.planCompaction cfg range fallback = none
  | _ => True

instance (cfg : AppendLogConfig) : DecidablePred (Unplanned cfg)
  | .compactRange .. => inferInstanceAs (Decidable (_ = none))
  | .allocate _ | .publish .. | .append .. | .pack _ => .isTrue trivial

/-- Nothing is written that passes a guard of the mount, no number wraps, and no compaction is
planned. -/
def Uncompacted (cfg : AppendLogConfig) (mk : StoreMark) (_ : Disk) : Prop :=
  Within guards mk ∧ Unplanned cfg mk

instance (cfg : AppendLogConfig) (mk : StoreMark) (d : Disk) : Decidable (Uncompacted cfg mk d) :=
  inferInstanceAs (Decidable (_ ∧ _))

lemma not_plans_uncompacted {cfg : AppendLogConfig} (ram : Ram) (d : Disk) :
    ¬Plans cfg (Uncompacted cfg) ram d := by
  rintro ⟨range, fallback, plan, ⟨-, hnone⟩, hplan⟩
  have hnone : ram.planCompaction cfg range fallback = none := hnone
  rw [hnone] at hplan
  cases hplan

/-- **Appends are atomic.**  In every run with crashes whose writes stay within the guards of a
mount, an append in a directory that has a manifest and mounts, and that does not compact, may be
cut off at any point: a mount finds what it would have found before, or what it finds after the
append. -/
theorem appends_atomic {env : Env} {cfg : AppendLogConfig} {ram ram₁ : Ram} {w w₁ w' : World}
    {op : StoreOp} {r : Except Status Unit} (hb : env.backend = .posix)
    (h : CrashRun env cfg GuardedRun ram w) (hpublished : (Disk.elected w.disk).isSome)
    (hm : Disk.Mounts cfg w.disk) (hop : op.Appends)
    (he : Executes env noHarm (Uncompacted cfg) (op.method cfg) ram w r ram₁ w₁)
    (hc : Crashes env (fun _ _ => True) (op.method cfg) ram w w') :
    EitherWay env.backend cfg w.disk w₁.disk w'.disk := by
  have hA : ∀ mk d, Uncompacted cfg mk d → Within guards mk := fun _ _ hmk => hmk.1
  have hfinish : ∀ {E evs}, MountsTo env.backend cfg w.disk (logContents E) →
      WrittenAs cfg (E ++ evs) ram₁ w₁.disk →
      (Leaves env cfg (WrittenAs cfg E) w'.disk ∨ w'.disk = w₁.disk) →
        EitherWay env.backend cfg w.disk w₁.disk w'.disk := by
    rintro E evs hbefore hw hleft
    refine ⟨_, _, hbefore, hw.mountsTo, ?_⟩
    rcases hleft with hl | heq
    · exact .inl hl.mountsTo
    · rw [heq]
      exact .inr hw.mountsTo
  obtain ⟨hi, rfl | hl⟩ := h.inherited hb fun _ _ => id
  · obtain hnone | ⟨ram₀, d₀, torn, hw, hf⟩ := hi.mounts hm
    · rw [hnone] at hpublished
      cases hpublished
    · have hleaves : Leaves env cfg (WrittenAs cfg (Disk.replayed cfg d₀)) w.disk :=
        ⟨ram₀, d₀, torn, ⟨hw, rfl⟩, hf⟩
      obtain ⟨⟨evs, hwritten⟩, hleft⟩ :=
        hleaves.append_cut hb hA not_plans_uncompacted hop he hc
      exact hfinish hleaves.mountsTo hwritten hleft
  · obtain hu | hw := hl.running
    · rw [elected_eq_none hu.unpublished.2] at hpublished
      cases hpublished
    · have hw : WrittenAs cfg (Disk.replayed cfg w.disk) ram w.disk := ⟨hw, rfl⟩
      obtain ⟨evs, hwritten⟩ := hw.append hA not_plans_uncompacted hl.sequence_lt hop he
      exact hfinish hw.mountsTo hwritten
        (hw.append_cut hb hA not_plans_uncompacted hl.sequence_lt hop he hc)

lemma MountsTo.mounted {cfg : AppendLogConfig} {w : World} {L : List (ℕ × Bytes)}
    (h : MountsTo .posix cfg w.disk L) : mountedContents cfg w = some L := by
  obtain ⟨ram', w', hrun, hL⟩ := h (plainEnv .posix) w rfl rfl
  unfold mountedContents
  rw [hrun, ← hL]
  rfl

lemma mounts_of_mountedContents {cfg : AppendLogConfig} {w : World} {L : List (ℕ × Bytes)}
    (h : mountedContents cfg w = some L) : Disk.Mounts cfg w.disk := by
  unfold mountedContents at h
  obtain ⟨⟨⟨r, ram⟩, w'⟩, hrun, h⟩ := Option.bind_eq_some_iff.1 h
  cases r with
  | ok => exact mounts_of_run hrun
  | error => cases h

lemma mounts_empty (cfg : AppendLogConfig) : Disk.Mounts cfg ∅ := by
  unfold Disk.Mounts
  exact fun name hname => absurd hname List.not_mem_nil

lemma CrashRun.successes {cfg : AppendLogConfig} {ops : List StoreOp} {ram ram' : Ram}
    {w w' : World}
    (h : CrashRun (plainEnv .posix) cfg GuardedRun ram w)
    (hu : ram.mounted = true ∨ Disk.Mounts cfg w.disk)
    (ht : Pqueue.successes cfg GuardedRun ops ram w = some (ram', w'))
    (hops : ∀ op ∈ ops, op.Mounts) :
    CrashRun (plainEnv .posix) cfg GuardedRun ram' w' ∧
      (ram'.mounted = true ∨ Disk.Mounts cfg w'.disk) := by
  let P : List StoreOp → Ram → World → Prop := fun done ram w => (∀ op ∈ done, op.Mounts) →
    CrashRun (plainEnv .posix) cfg GuardedRun ram w ∧
      (ram.mounted = true ∨ Disk.Mounts cfg w.disk)
  have hdone : P ([] ++ ops) ram' w' := by
    refine successes_invariant noHarm ?_ (fun _ => ⟨h, hu⟩) ht
    intro done op ram w ram' w' hrun he hall
    obtain ⟨hrun, hu⟩ := hrun fun op' hmem => hall op' (List.mem_append_left _ hmem)
    have hu : Usable cfg op ram w := hu.imp_right .inl
    have hop := hall op (List.mem_append_right _ (List.mem_singleton_self op))
    exact ⟨hrun.operation hu he, .inl (hrun.live rfl (fun _ _ => id) hop hu he).running.mounted⟩
  exact hdone hops

/-- An enqueue is cut off inside its event, and the next object repeats it.  A third object opens
another segment for its record, and is cut off inside the manifest. -/
theorem appends_atomic_rotating : ∃ w ram₁ w₁ w',
    CrashRun (plainEnv .posix) smallSegments GuardedRun {} w ∧
    Executes (plainEnv .posix) noHarm (Uncompacted smallSegments)
      ((StoreOp.enqueue 1 [5]).method smallSegments) {} w (.ok ()) ram₁ w₁ ∧
    Crashes (plainEnv .posix) (fun _ _ => True) ((StoreOp.enqueue 1 [5]).method smallSegments) {}
      w w' ∧
    mountedContents smallSegments w' = some [(0, [7]), (1, [8, 9])] ∧
    mountedContents smallSegments w₁ = some [(0, [7]), (1, [8, 9]), (2, [5])] ∧
      EitherWay .posix smallSegments w.disk w₁.disk w'.disk := by
  have hrun : ((do
      let a ← Pqueue.successes smallSegments GuardedRun [.enqueue 1 [7]] {} ⟨∅, 0, false⟩
      let b ← Prog.crashTrial (crashing (plainEnv .posix)) (fun mk w => GuardedRun mk w.disk)
        ((StoreOp.enqueue 1 [8, 9]).method smallSegments a.1) a.2 0 (some 9)
      let c ← Pqueue.successes smallSegments GuardedRun [.enqueue 1 [8, 9]] {} b
      let d ← tryMethod (plainEnv .posix) allComplete (Uncompacted smallSegments)
        ((StoreOp.enqueue 1 [5]).method smallSegments) {} c.2
      let e ← Prog.crashTrial (crashing (plainEnv .posix)) (fun _ _ => True)
        ((StoreOp.enqueue 1 [5]).method smallSegments {}) c.2 1 (some 9)
      pure (decide (a.1.mounted = true ∧ mountedContents smallSegments b = some [(0, [7])] ∧
        mountedContents smallSegments c.2 = some [(0, [7]), (1, [8, 9])] ∧
        (Disk.elected c.2.disk).isSome ∧ d.1.1.toBool = true ∧
        mountedContents smallSegments d.2 = some [(0, [7]), (1, [8, 9]), (2, [5])] ∧
        mountedContents smallSegments e = some [(0, [7]), (1, [8, 9])]))) : Option _) =
          some true := by
    decide +kernel
  obtain ⟨⟨ram₁, w₁⟩, h₁, hrun⟩ := Option.bind_eq_some_iff.1 hrun
  obtain ⟨w₂, h₂, hrun⟩ := Option.bind_eq_some_iff.1 hrun
  obtain ⟨⟨ram₃, w₃⟩, h₃, hrun⟩ := Option.bind_eq_some_iff.1 hrun
  obtain ⟨⟨⟨r, ram₄⟩, w₄⟩, h₄, hrun⟩ := Option.bind_eq_some_iff.1 hrun
  obtain ⟨w₅, h₅, hrun⟩ := Option.bind_eq_some_iff.1 hrun
  obtain ⟨hmounted, hleft, hbefore, hpublished, hr, hafter, hcut⟩ :=
    of_decide_eq_true (Option.some.inj hrun)
  obtain rfl : r = .ok () := by
    cases r with
    | ok => rfl
    | error => cases hr
  obtain ⟨hfirst, -⟩ := (CrashRun.start rfl).successes (.inr (mounts_empty _)) h₁
    (by simp [StoreOp.Mounts])
  have hcrashed : CrashRun (plainEnv .posix) smallSegments GuardedRun {} w₂ :=
    .crashed hfirst (.inl hmounted) ⟨_, _, Prog.marksBefore_crash h₂⟩
  obtain ⟨hthird, -⟩ := hcrashed.successes (.inr (mounts_of_mountedContents hleft)) h₃
    (by simp [StoreOp.Mounts])
  have he : Executes (plainEnv .posix) noHarm (Uncompacted smallSegments)
      ((StoreOp.enqueue 1 [5]).method smallSegments) {} w₃ (.ok ()) ram₄ w₄ := 
    executes_of_tryMethod (by simp [allComplete]) h₄
  have hc : Crashes (plainEnv .posix) (fun _ _ => True)
      ((StoreOp.enqueue 1 [5]).method smallSegments) {} w₃ w₅ := ⟨_, _, Prog.marksBefore_crash h₅⟩
  exact ⟨w₃, ram₄, w₄, w₅, hthird.reopened, he, hc, hcut, hafter, appends_atomic rfl hthird.reopened
    hpublished (mounts_of_mountedContents hbefore) (by trivial) he hc⟩

/-- A format is cut off when it has removed the segment: the manifest that is left names it, and
nothing mounts any more. -/
theorem appends_atomic_lost : ∃ w e ram₁ w₁ w',
    CrashRun (plainEnv .posix) smallSegments GuardedRun {} w ∧ (Disk.elected w.disk).isSome ∧
    Executes (plainEnv .posix) noHarm (Uncompacted smallSegments)
      ((StoreOp.enqueue 1 [8]).method smallSegments) {} w (.error e) ram₁ w₁ ∧
    Crashes (plainEnv .posix) (fun _ _ => True) ((StoreOp.enqueue 1 [8]).method smallSegments) {}
      w w' ∧ ¬EitherWay .posix smallSegments w.disk w₁.disk w'.disk := by
  have hrun : ((do
      let a ← Pqueue.successes smallSegments GuardedRun [.enqueue 1 [7]] {} ⟨∅, 0, false⟩
      let b ← Prog.crashTrial (crashing (plainEnv .posix)) (fun mk w => GuardedRun mk w.disk)
        (StoreOp.format.method smallSegments a.1) a.2 1 none
      let c ← tryMethod (plainEnv .posix) allComplete (Uncompacted smallSegments)
        ((StoreOp.enqueue 1 [8]).method smallSegments) {} b
      let d ← Prog.crashTrial (crashing (plainEnv .posix)) (fun _ _ => True)
        ((StoreOp.enqueue 1 [8]).method smallSegments {}) b 0 none
      pure (decide (a.1.mounted = true ∧ (Disk.elected b.disk).isSome ∧ c.1.1.toBool = false ∧
        mountedContents smallSegments b = none ∧
          mountedContents smallSegments d = none))) : Option _) = some true := by
    decide +kernel
  obtain ⟨⟨ram₁, w₁⟩, h₁, hrun⟩ := Option.bind_eq_some_iff.1 hrun
  obtain ⟨w₂, h₂, hrun⟩ := Option.bind_eq_some_iff.1 hrun
  obtain ⟨⟨⟨r, ram₃⟩, w₃⟩, h₃, hrun⟩ := Option.bind_eq_some_iff.1 hrun
  obtain ⟨w₄, h₄, hrun⟩ := Option.bind_eq_some_iff.1 hrun
  obtain ⟨hmounted, hpublished, hr, hlost, -⟩ := of_decide_eq_true (Option.some.inj hrun)
  obtain ⟨e, rfl⟩ : ∃ e, r = .error e := by
    cases r with
    | ok => cases hr
    | error e => exact ⟨e, rfl⟩
  obtain ⟨hfirst, -⟩ := (CrashRun.start rfl).successes (.inr (mounts_empty _)) h₁
    (by simp [StoreOp.Mounts])
  have hcrashed : CrashRun (plainEnv .posix) smallSegments GuardedRun {} w₂ :=
    .crashed hfirst (.inl hmounted) ⟨_, _, Prog.marksBefore_crash h₂⟩
  refine ⟨w₂, e, ram₃, w₃, w₄, hcrashed, hpublished,
    executes_of_tryMethod (by simp [allComplete]) h₃, ⟨_, _, Prog.marksBefore_crash h₄⟩, ?_⟩
  rintro ⟨L, L', hbefore, -⟩
  have hnone := hbefore.mounted
  rw [hlost] at hnone
  cases hnone

end Pqueue
