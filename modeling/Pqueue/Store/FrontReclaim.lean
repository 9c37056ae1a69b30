import Pqueue.Store.Replaying

/-!
# Reclaiming the front

`reclaimDeadFrontSegment` hands the first generation, when no record of it is live, to the general
`compactRange`.  The comment at the method says that this writes no output and advances the first
range alone (`FrontReclaimed`).  It does so unless `compactRange` seals the tail first: when the
front is the last sealed segment, the tail follows it and depends on nothing before it, and a
record of the tail is live (`Ram.SealsTail`), the tail is sealed into the range and its records are
moved.
-/

namespace Pqueue

open Effect LittleEndian

/-! ## The promise -/

/-- What is left of a range without its first generation. -/
def ManifestRange.dropFirst (r : ManifestRange) : List ManifestRange :=
  if r.startGen = r.endGen then [] else [⟨r.startGen + 1, r.endGen⟩]

/-- The first generation of the first range is dropped: its file is gone, the new manifest is in one
of the slots, and no other file was written.  The tail and the live records are where they were. -/
structure FrontDropped (ram : Ram) (d : Disk) (front : ManifestRange) (rest : List ManifestRange)
    (ram' : Ram) (d' : Disk) : Prop where
  ranges : ram'.manifestRanges = front.dropFirst ++ rest
  active : ram'.activeGeneration = ram.activeGeneration
  bytes : ram'.activeSegmentBytes = ram.activeSegmentBytes
  next : ram'.nextGeneration = ram.nextGeneration
  records : ram'.records = ram.records
  removed : d'.lookup (segmentName front.startGen) = none
  files : ∃ slot : Slot, d'.lookup slot.fileName = some (serialiseManifest ram'.manifest) ∧
    ∀ name, name ≠ slot.fileName → name ≠ segmentName front.startGen →
      d'.lookup name = d.lookup name

/-- What `reclaimDeadFrontSegment` may do: nothing, or drop the front. -/
inductive FrontReclaimed (ram : Ram) (d : Disk) : Except Status CompactionResult → Ram → Disk → Prop
  | noOp : FrontReclaimed ram d (.ok .noOp) ram d
  | dropped {front rest ram' d'} (h : ram.manifestRanges = front :: rest)
      (hd : FrontDropped ram d front rest ram' d') :
      FrontReclaimed ram d (.ok (.compacted 1 0)) ram' d'

/-! ## The condition -/

/-- Compacting generation `gen` alone would seal the tail: `gen` is the last sealed generation and
the tail comes next, it has events, none of them reaches before `gen`, and there are live records
up to the tail. -/
def Ram.SealsTail (ram : Ram) (gen : ℕ) : Prop :=
  ram.wouldRotate ⟨gen, gen⟩ = true ∧ ram.liveIn ⟨gen, ram.activeGeneration⟩ ≠ []

/-- What keeps a compaction of the first generation to it: the tail is not sealed, the range is not
upside down, there is a slot to write, and the loops over generations end. -/
structure Ram.KeepsToFront (ram : Ram) (d : Disk) (front : ManifestRange) : Prop where
  stays : ¬ram.SealsTail front.startGen
  ordered : front.startGen ≤ front.endGen
  slot : ram.target d ≠ none
  first : front.startGen ≠ 2 ^ 32 - 1
  ranges : ∀ r ∈ ram.manifestRanges, ¬Endless r.startGen r.endGen
  tail : ram.wouldRotate ⟨front.startGen, front.startGen⟩ = true →
    ¬Endless front.startGen ram.activeGeneration

/-! ## The plan -/

section Plan

variable {cfg : AppendLogConfig} {ram : Ram} {gen : ℕ} {plan : CompactionPlan}

/-- What the preflight of a compaction of one generation decides. -/
lemma plan_single (h : ram.planCompaction cfg ⟨gen, gen⟩ .no = some plan) :
    ∃ idx parent, findParentRangeIdx ram.manifestRanges ⟨gen, gen⟩ = some idx ∧
      ram.manifestRanges[idx]? = some parent ∧ plan.input = ⟨gen, gen⟩ ∧
      plan.hypo = ram.hypoRange ⟨gen, gen⟩ (ram.wouldRotate ⟨gen, gen⟩) ∧
      (plan.rotates = true ↔ ram.SealsTail gen) := by
  simp only [Ram.planCompaction, Option.bind_eq_bind, Option.bind_eq_some_iff] at h
  obtain ⟨idx, hidx, parent, hparent, gated, hgated, input, hinput, hplan⟩ := h
  have hgated : gated = ⟨gen, gen⟩ := by
    unfold Ram.gatedRange at hgated
    split at hgated
    · cases hgated
    · exact (Option.some.inj hgated).symm
  subst hgated
  have hinput : input = ⟨gen, gen⟩ := by
    unfold Ram.rotationGate at hinput
    split at hinput
    · cases hinput
    · exact (Option.some.inj hinput).symm
  subst hinput
  split at hplan
  swap
  · cases hplan
  obtain rfl := Option.some.inj hplan
  refine ⟨idx, parent, hidx, hparent, rfl, rfl, ?_⟩
  simp only [Bool.and_eq_true, Bool.not_eq_true', List.isEmpty_eq_false_iff, Ram.SealsTail]
  refine and_congr_right fun hrot => ?_
  rw [hrot]
  rfl

end Plan

/-! ## A compaction that does not seal the tail -/

/-- What a compaction of generation `gen` gathers when no record of it is live. -/
def Ram.deadFront (ram : Ram) (idx : ℕ) (parent : ManifestRange) (gen : ℕ) : Gathered :=
  ⟨⟨gen, gen⟩, [], spliceRanges ram.manifestRanges idx parent ⟨gen, gen⟩ none, ram.nextGeneration⟩

section Dead

variable {env : Env} {cfg : AppendLogConfig} {A : StoreMark → Disk → Prop} {ram : Ram} {w : World}
  {gen idx : ℕ} {plan : CompactionPlan} {parent : ManifestRange}

lemma executes_congr {α : Type} {m m' : Store α} (h : m ram = m' ram) {r : Except Status α}
    {ram' : Ram} {w' : World} (he : Executes env noHarm A m ram w r ram' w') :
    Executes env noHarm A m' ram w r ram' w' := by
  unfold Executes at he ⊢
  rwa [← h]

lemma may_congr {α : Type} {m m' : Store α} (h : m ram = m' ram) {Q : StorePost α}
    (hm : May env noHarm A m' Q ram w) : May env noHarm A m Q ram w := by
  obtain ⟨r, ram', w', he, hq⟩ := hm
  exact ⟨r, ram', w', h ▸ he, hq⟩

lemma pure_bind_apply {α β : Type} (a : α) (f : α → Store β) :
    ((pure a : Store α) >>= f) ram = f a ram := rfl

lemma get_bind_apply {β : Type} (f : Ram → Store β) : (Store.get >>= f) ram = f ram ram := rfl

lemma collectLiveRecords_dead {range : CompactionRange} (h : ram.liveIn range = []) :
    Store.collectLiveRecords range ram = (pure [] : Store _) ram := by
  show (Store.collectFrom (ram.liveIn range) _ >>= _ : Store _) ram = _
  rw [h]
  rfl

/-- Nothing is read and nothing written before the manifest. -/
lemma gatherCompaction_dead (hidx : findParentRangeIdx ram.manifestRanges ⟨gen, gen⟩ = some idx)
    (hparent : ram.manifestRanges[idx]? = some parent) (hinput : plan.input = ⟨gen, gen⟩)
    (hrot : plan.rotates = false) (hdead : ram.liveIn ⟨gen, gen⟩ = []) :
    Store.gatherCompaction cfg plan ram =
      (Store.generations plan.hypo.startGen plan.hypo.endGen >>= fun _ =>
        pure (some (ram.deadFront idx parent gen)) : Store _) ram := by
  have hinto : Store.gatherInto cfg idx parent ⟨gen, gen⟩ ram =
      (pure (ram.deadFront idx parent gen) : Store _) ram := by
    show (Store.collectLiveRecords ⟨gen, gen⟩ ram).bind _ = _
    rw [collectLiveRecords_dead hdead]
    rfl
  unfold Store.gatherCompaction Store.generations
  split
  · rfl
  · simp only [hrot, hinput, Store.when, Bool.false_eq_true, if_false, pure_bind_apply,
      get_bind_apply, hidx, hparent]
    show (Store.gatherInto cfg idx parent ⟨gen, gen⟩ ram).bind _ = _
    rw [hinto]
    rfl

lemma compaction_dead (hidx : findParentRangeIdx ram.manifestRanges ⟨gen, gen⟩ = some idx)
    (hparent : ram.manifestRanges[idx]? = some parent) (hinput : plan.input = ⟨gen, gen⟩)
    (hrot : plan.rotates = false) (hdead : ram.liveIn ⟨gen, gen⟩ = []) :
    (Store.gatherCompaction cfg plan >>= Store.finishCompaction) ram =
      (Store.generations plan.hypo.startGen plan.hypo.endGen >>= fun _ =>
        Store.finishCompaction (some (ram.deadFront idx parent gen))) ram := by
  show (Store.gatherCompaction cfg plan ram).bind _ = _
  rw [gatherCompaction_dead hidx hparent hinput hrot hdead]
  exact congrFun (Act.bind_assoc (Store.generations _ _) _ _) ram

/-! ## What such a compaction has gone through -/

lemma executes_generations {s e : ℕ} {gens : List ℕ} {ram' : Ram} {w' : World}
    (he : Executes env noHarm A (Store.generations s e) ram w (.ok gens) ram' w') :
    ¬Endless s e ∧ ram' = ram ∧ w' = w := by
  unfold Store.generations at he
  split at he
  · exact he.elim
  · next h =>
    obtain ⟨-, rfl, rfl⟩ := executes_pure.1 he
    exact ⟨h, rfl, rfl⟩

lemma executes_expandRanges {ranges : List ManifestRange} {gens : List ℕ} {ram' : Ram} {w' : World}
    (he : Executes env noHarm A (Store.expandRanges ranges) ram w (.ok gens) ram' w') :
    ∀ r ∈ ranges, ¬Endless r.startGen r.endGen := by
  induction ranges generalizing gens ram w ram' w' with
  | nil => simp
  | cons r rs ih =>
    rcases executes_bind.1 he with ⟨_, ram₁, w₁, h₁, he⟩ | ⟨_, hr, -⟩
    swap
    · cases hr
    rcases executes_bind.1 he with ⟨_, ram₂, w₂, h₂, -⟩ | ⟨_, hr, -⟩
    swap
    · cases hr
    exact List.forall_mem_cons.2 ⟨(executes_generations h₁).1, ih h₂⟩

/-- A publication that succeeds found a slot, and its loops ended. -/
lemma executes_publishManifest {md : ManifestData} {ram' : Ram} {w' : World}
    (he : Executes env noHarm (fun _ _ => True) (Store.publishManifest md) ram w (.ok ()) ram' w') :
    (∀ r ∈ md.ranges, ¬Endless r.startGen r.endGen) ∧ ram.target w.disk ≠ none ∧
      ram'.manifestRanges = md.ranges ∧ ram'.records = ram.records := by
  have hends : ∀ r ∈ md.ranges, ¬Endless r.startGen r.endGen := by
    rcases executes_bind.1 he with ⟨_, _, _, -, he⟩ | ⟨_, hr, -⟩
    swap
    · cases hr
    rcases executes_bind.1 he with ⟨_, _, _, -, he⟩ | ⟨_, hr, -⟩
    swap
    · cases hr
    rcases executes_bind.1 he with ⟨_, _, _, -, he⟩ | ⟨_, hr, -⟩
    swap
    · cases hr
    rcases executes_bind.1 he with ⟨_, _, _, he, -⟩ | ⟨_, hr, -⟩
    swap
    · cases hr
    rcases executes_bind.1 he with ⟨_, _, _, he, -⟩ | ⟨_, hr, -⟩
    swap
    · cases hr
    exact executes_expandRanges he
  have hwp : Wp env noHarm (fun _ _ => True) (fun _ => True) (Store.publishManifest md)
      (fun r ram' _ => r = .ok () → ram.target w.disk ≠ none ∧ ram'.manifestRanges = md.ranges ∧
        ram'.records = ram.records) ram w.disk := by
    refine wp_publishManifest damaging_noHarm trivial (fun st _ hr => nomatch hr) ?_
    rintro slot epoch ht - _ rfl
    refine ⟨fun _ _ hh => hh.elim, fun n _ => ⟨trivial, fun _ => ⟨?_, rfl, rfl⟩⟩⟩
    rw [ht.eq (fun _ _ _ hh => hh.elim) (fun _ _ _ hh => hh.elim)]
    exact Option.some_ne_none _
  exact ⟨hends, hwp.sound he rfl⟩

lemma executes_finish_dead {a : CompactionResult} {ram' : Ram} {w' : World}
    (he : Executes env noHarm (fun _ _ => True)
      (Store.finishCompaction (some (ram.deadFront idx parent gen))) ram w (.ok a) ram' w') :
    (∀ r ∈ spliceRanges ram.manifestRanges idx parent ⟨gen, gen⟩ none,
      ¬Endless r.startGen r.endGen) ∧ gen ≠ 2 ^ 32 - 1 ∧ ram.target w.disk ≠ none ∧ a ≠ .noOp ∧
      ram'.manifestRanges = spliceRanges ram.manifestRanges idx parent ⟨gen, gen⟩ none := by
  rcases executes_bind.1 he with ⟨_, ram₁, w₁, hpub, he⟩ | ⟨_, hr, -⟩
  swap
  · cases hr
  obtain ⟨hends, htarget, hranges, -⟩ := executes_publishManifest (executes_get_bind.1 hpub)
  obtain ⟨ram₂, hremoved, rfl, _, _, ha⟩ := (wp_retireGathered (J := fun _ => True)
    damaging_noHarm (.inl fun _ => trivial) fun _ _ _ => trivial).sound he
  obtain rfl := Except.ok.inj ha
  rcases executes_bind.1 he with ⟨_, _, _, hclean, -⟩ | ⟨_, hr, -⟩
  swap
  · cases hr
  rcases executes_bind.1 hclean with ⟨_, _, _, hgens, -⟩ | ⟨_, hr, -⟩
  swap
  · cases hr
  refine ⟨hends, fun heq => (executes_generations hgens).1 ⟨le_rfl, heq⟩, htarget,
    CompactionResult.noConfusion, ?_⟩
  exact (SameCore.of_core hremoved.core).ranges.trans hranges

end Dead

/-! ## A compaction that seals the tail -/

section Seals

variable {env : Env} {cfg : AppendLogConfig} {ram : Ram} {d : Disk} {n : ℕ}

/-- The length of the tail, after a method without failing calls. -/
abbrev TailBytes (n : ℕ) {α : Type} : DiskPost Ram α := fun _ ram' _ => ram'.activeSegmentBytes = n

lemma tailBytes_publishManifest {md : ManifestData} :
    Wp env noHarm (fun _ _ => True) (fun _ => True) (Store.publishManifest md)
      (TailBytes ram.activeSegmentBytes) ram d :=
  wp_publishManifest damaging_noHarm trivial (fun _ _ => rfl) fun _ _ _ _ _ _ =>
    ⟨fun _ _ _ => rfl, fun _ _ => ⟨trivial, rfl⟩⟩

/-- A sealed tail is followed by one without events. -/
lemma tailBytes_rotateSegment : Wp env noHarm (fun _ _ => True) (fun _ => True) Store.rotateSegment
    (fun r ram' _ => r = .ok () → ram'.activeSegmentBytes = kSegmentHeaderBytes) ram d := by
  refine wp_get_bind ?_
  split
  · exact wp_fail fun hr => nomatch hr
  · refine wp_modify_bind (wp_mark_bind trivial fun _ => ?_)
    refine wp_bind (Q := fun _ _ _ => True)
      (wp_writeTracked_new trivial trivial fun _ _ _ => trivial) (fun _ ram₁ d₁ _ => ?_)
      fun _ _ _ _ hr => nomatch hr
    exact wp_bind tailBytes_publishManifest (fun _ _ _ _ => wp_modify fun _ => rfl)
      fun _ _ _ _ hr => nomatch hr

lemma tailBytes_writeOutput (out : List OutputSeg) :
    Wp env noHarm (fun _ _ => True) (fun _ => True) (Store.writeOutput out)
      (TailBytes ram.activeSegmentBytes) ram d := by
  induction out generalizing ram d with
  | nil => exact wp_pure rfl
  | cons o out ih =>
    refine wp_bind (Q := TailBytes ram.activeSegmentBytes) ?_ (fun _ ram' d' hb => ?_)
      fun _ _ _ hb => hb
    · exact wp_mark_bind trivial fun _ => wp_mark_bind trivial fun _ =>
        wp_writeTracked_new trivial rfl fun _ _ _ => rfl
    · exact (@ih ram' d').mono fun _ _ _ hq => hq.trans hb

lemma tailBytes_gatherInto {idx : ℕ} {parent : ManifestRange} {input : CompactionRange} :
    Wp env noHarm (fun _ _ => True) (fun _ => True) (Store.gatherInto cfg idx parent input)
      (TailBytes ram.activeSegmentBytes) ram d := by
  refine wp_bind (wp_collectLiveRecords damaging_noHarm watched_true
    (Moves.refl : Moves cfg ..)) (fun live ram' d' hq => ?_) fun _ _ _ hq => congrArg _ hq.1
  obtain ⟨rfl, rfl, -⟩ := hq
  refine wp_get_bind ?_
  split
  · exact wp_pure rfl
  · exact wp_bind (tailBytes_writeOutput _) (fun _ _ _ hb => wp_pure hb) fun _ _ _ hb => hb

lemma tailBytes_finishCompaction (g : Option Gathered) :
    Wp env noHarm (fun _ _ => True) (fun _ => True) (Store.finishCompaction g)
      (TailBytes ram.activeSegmentBytes) ram d := by
  cases g with
  | none => exact wp_pure rfl
  | some g =>
    refine wp_bind (Q := TailBytes ram.activeSegmentBytes) (wp_get_bind tailBytes_publishManifest)
      (fun _ ram₁ d₁ hb => ?_) fun _ _ _ hb => hb
    refine (wp_retireGathered damaging_noHarm (.inl fun _ => trivial)
      fun _ _ _ => trivial).mono ?_
    rintro _ _ d₂ ⟨ram₂, hr, rfl, -⟩
    exact (SameCore.of_core hr.core).bytes.trans hb

/-- A compaction that succeeds and seals the tail leaves one without events. -/
lemma tailBytes_sealed {plan : CompactionPlan} (hrot : plan.rotates = true) :
    Wp env noHarm (fun _ _ => True) (fun _ => True)
      (Store.gatherCompaction cfg plan >>= Store.finishCompaction)
      (fun r ram' _ => ∀ a, r = .ok a → ram'.activeSegmentBytes = kSegmentHeaderBytes) ram d := by
  have hgather : Wp env noHarm (fun _ _ => True) (fun _ => True) (Store.gatherCompaction cfg plan)
      (fun r ram' _ => ∀ a, r = .ok a → ram'.activeSegmentBytes = kSegmentHeaderBytes) ram d := by
    refine (reads_generations trivial).bind fun _ _ => ?_
    refine wp_bind (Q := fun r ram' _ => r = .ok () → ram'.activeSegmentBytes = kSegmentHeaderBytes)
      (wp_when (fun _ => tailBytes_rotateSegment) fun h => absurd hrot h) (fun _ ram₁ d₁ hb => ?_)
      fun _ _ _ _ _ hr => nomatch hr
    have hb := hb rfl
    refine wp_get_bind ?_
    split
    · exact wp_pure fun _ _ => hb
    · split
      · exact wp_pure fun _ _ => hb
      · exact wp_bind tailBytes_gatherInto (fun _ _ _ hq => wp_pure fun _ _ => hq.trans hb)
          fun _ _ _ _ _ hr => nomatch hr
  refine wp_bind hgather (fun g ram₁ d₁ hb => ?_) fun _ _ _ _ _ hr => nomatch hr
  exact (tailBytes_finishCompaction g).mono fun _ _ _ hq _ _ => hq.trans (hb g rfl)

end Seals

/-! ## The front is dropped -/

section Drops

variable {env : Env} {cfg : AppendLogConfig} {ram : Ram} {w : World} {front : ManifestRange}
  {rest : List ManifestRange}

lemma findParentRangeIdx_front (h : front.startGen ≤ front.endGen) :
    findParentRangeIdx (front :: rest) ⟨front.startGen, front.startGen⟩ = some 0 := by
  simp [findParentRangeIdx, List.findIdx?_cons, h]

lemma spliceRanges_front (h : front.startGen ≤ front.endGen) :
    spliceRanges (front :: rest) 0 front ⟨front.startGen, front.startGen⟩ none =
      front.dropFirst ++ rest := by
  have hright : hasRight front ⟨front.startGen, front.startGen⟩ =
      decide (front.startGen ≠ front.endGen) := by
    simp only [hasRight, decide_eq_decide]
    omega
  simp only [spliceRanges, leftRemainder, rightRemainder, hasLeft, hright, ManifestRange.dropFirst,
    lt_irrefl, decide_false, Bool.false_eq_true, if_false, List.take_zero, List.nil_append]
  by_cases heq : front.startGen = front.endGen <;> simp [heq]

/-- The file of one generation is gone, and nothing else has changed that a caller can see. -/
def GenerationRetired (gen : ℕ) (ram : Ram) (d : Disk) : StorePost CompactionResult :=
  fun r ram' w' => r = .ok (.compacted 1 0) ∧ ram'.manifest = ram.manifest ∧
    ram'.activeSegmentBytes = ram.activeSegmentBytes ∧ ram'.records = ram.records ∧
    w'.disk.lookup (segmentName gen) = none ∧
    ∀ name, name ≠ segmentName gen → w'.disk.lookup name = d.lookup name

lemma may_retireGathered {gen next : ℕ} {ranges : List ManifestRange} (hgen : gen ≠ 2 ^ 32 - 1) :
    May env noHarm (fun _ _ => True) (Store.retireGathered ⟨⟨gen, gen⟩, [], ranges, next⟩)
      (GenerationRetired gen ram w.disk) ram w := by
  have hgens : Store.generations gen gen = pure [gen] := by
    rw [Store.generations, if_neg fun h => hgen h.2, Nat.add_sub_cancel_left]
    rfl
  have hend : ∀ {ram₁ : Ram} {w₁ : World}, ram₁.core = ram.core →
      w₁.disk.lookup (segmentName gen) = none →
      (∀ name, name ≠ segmentName gen → w₁.disk.lookup name = w.disk.lookup name) →
      May env noHarm (fun _ _ => True)
        (Store.modify (fun ram => ram.forgetInput ⟨gen, gen⟩) >>= fun _ =>
          Store.modify (fun ram => ram.moveRecords ⟨gen, gen⟩ []) >>= fun _ =>
            pure (CompactionResult.compacted (u32 (gen - gen + 1)) (u32 0)))
        (GenerationRetired gen ram w.disk) ram₁ w₁ := by
    intro ram₁ w₁ hcore hnone hother
    refine Act.may_modify_bind (Act.may_modify_bind (Act.may_pure ?_))
    have hc := SameCore.of_core hcore
    rw [moveRecords_nil, Nat.sub_self]
    have hmanifest : ram₁.manifest = ram.manifest := manifest_of_core hcore
    exact ⟨rfl, hmanifest, hc.bytes, hc.records, hnone, hother⟩
  have hcall : handle env (.removeFile (segmentName gen)) w =
        (.ok (), w.setDisk (w.disk.erase (segmentName gen))) ∨
      w.disk.lookup (segmentName gen) = none ∧
        ∃ st, handle env (.removeFile (segmentName gen)) w = (.error st, w) := by
    simp only [handle]
    split
    · next h => exact .inr ⟨h.2, _, rfl⟩
    · exact .inl rfl
  refine Act.may_bind (Act.may_bind ?_)
  rw [hgens]
  refine Act.may_pure (Act.may_bind (Act.may_bind ?_))
  rcases hcall with hcall | ⟨hnone, st, hcall⟩
  · refine Act.may_perform (I := Fs StoreMark) (.inl hcall) ⟨_, _, _, ⟨rfl, rfl⟩, Act.may_pure ?_⟩
    exact hend (core_dropSegment ..) (AList.lookup_erase _ _) fun name hne =>
      AList.lookup_erase_ne hne
  · refine Act.may_perform (I := Fs StoreMark) (.inl hcall) (Act.may_pure (Act.may_pure ?_))
    exact hend rfl hnone fun _ _ => rfl

/-- There is nothing to reclaim. -/
lemma reclaimDeadFrontSegment_live
    (h : ∀ front rest, ram.manifestRanges = front :: rest →
      ∃ r ∈ ram.records, r.segmentGeneration = front.startGen) :
    Store.reclaimDeadFrontSegment cfg ram = (pure .noOp : Store _) ram := by
  rw [Store.reclaimDeadFrontSegment, get_bind_apply]
  cases hranges : ram.manifestRanges with
  | nil => rfl
  | cons front rest =>
    have hany : (ram.records.any fun sr => sr.segmentGeneration = front.startGen) = true := by
      rw [List.any_eq_true]
      simpa using h front rest hranges
    simp only [hany, if_true]

/-- The method up to the plan. -/
lemma reclaimDeadFrontSegment_dead (hranges : ram.manifestRanges = front :: rest)
    (hdead : ∀ r ∈ ram.records, r.segmentGeneration ≠ front.startGen) :
    Store.reclaimDeadFrontSegment cfg ram =
      .mark (.compactRange ram ⟨front.startGen, front.startGen⟩ .no)
        (((ram.planCompaction cfg ⟨front.startGen, front.startGen⟩ .no).elim
          (pure .noOp : Store CompactionResult)
          fun plan => Store.gatherCompaction cfg plan >>= Store.finishCompaction) ram) := by
  have hany : (ram.records.any fun sr => sr.segmentGeneration = front.startGen) = false := by
    rw [List.any_eq_false]
    simpa using hdead
  rw [Store.reclaimDeadFrontSegment, get_bind_apply]
  simp only [hranges, hany, Bool.false_eq_true, if_false, compactRange_eq, get_bind_apply]
  cases ram.planCompaction cfg ⟨front.startGen, front.startGen⟩ .no <;> rfl

lemma liveIn_dead {gen : ℕ} (hdead : ∀ r ∈ ram.records, r.segmentGeneration ≠ gen) :
    ram.liveIn ⟨gen, gen⟩ = [] := by
  refine List.filter_eq_nil_iff.2 fun r hr hin => hdead r hr ?_
  obtain ⟨h1, h2⟩ := of_decide_eq_true hin
  exact Nat.le_antisymm h2 h1

lemma FrontReclaimed.bytes {d d' : Disk} {r : Except Status CompactionResult} {ram' : Ram}
    (h : FrontReclaimed ram d r ram' d') :
    (∃ a, r = .ok a) ∧ ram'.activeSegmentBytes = ram.activeSegmentBytes := by
  cases h with
  | noOp => exact ⟨⟨_, rfl⟩, rfl⟩
  | dropped _ hd => exact ⟨⟨_, rfl⟩, hd.bytes⟩

lemma FrontReclaimed.records {d d' : Disk} {r : Except Status CompactionResult} {ram' : Ram}
    (h : FrontReclaimed ram d r ram' d') : ram'.records = ram.records := by
  cases h with
  | noOp => rfl
  | dropped _ hd => exact hd.records

lemma FrontReclaimed.ranges {d d' : Disk} {a : CompactionResult} {ram' : Ram}
    (h : FrontReclaimed ram d (.ok a) ram' d') (hne : a ≠ .noOp)
    (hranges : ram.manifestRanges = front :: rest) :
    ram'.manifestRanges = front.dropFirst ++ rest := by
  cases h with
  | noOp => exact absurd rfl hne
  | dropped hr hd =>
    obtain ⟨rfl, rfl⟩ := List.cons_eq_cons.1 (hr.symm.trans hranges)
    exact hd.ranges

/-- The loops over the ranges end when they end for what is left of them. -/
lemma not_endless_dropFirst (hfirst : front.startGen ≠ 2 ^ 32 - 1)
    (h : ∀ r ∈ front.dropFirst ++ rest, ¬Endless r.startGen r.endGen) :
    ∀ r ∈ front :: rest, ¬Endless r.startGen r.endGen := by
  intro r hr
  rcases List.mem_cons.1 hr with rfl | hr
  · rintro ⟨hle, hend⟩
    by_cases heq : r.startGen = r.endGen
    · exact hfirst (heq.trans hend)
    · refine h ⟨r.startGen + 1, r.endGen⟩ (List.mem_append_left _ ?_) ⟨by simp only; omega, hend⟩
      rw [ManifestRange.dropFirst, if_neg heq]
      exact List.mem_singleton_self _
  · exact h r (List.mem_append_right _ hr)

/-- A compaction of the front that keeps its promise keeps to the front. -/
lemma FrontReclaimed.keeps {plan : CompactionPlan} {r : Except Status CompactionResult} {ram' : Ram}
    {w' : World} (h : FrontReclaimed ram w.disk r ram' w'.disk)
    (hranges : ram.manifestRanges = front :: rest)
    (hdead : ∀ r ∈ ram.records, r.segmentGeneration ≠ front.startGen)
    (hplan : ram.planCompaction cfg ⟨front.startGen, front.startGen⟩ .no = some plan)
    (he : Executes env noHarm (fun _ _ => True)
      (Store.gatherCompaction cfg plan >>= Store.finishCompaction) ram w r ram' w') :
    ram.KeepsToFront w.disk front := by
  obtain ⟨⟨a, rfl⟩, hbytes⟩ := h.bytes
  obtain ⟨idx, parent, hidx, hparent, hinput, hhypo, hrot⟩ := plan_single hplan
  have hstays : ¬ram.SealsTail front.startGen := by
    intro hseals
    have hsealed := (tailBytes_sealed (hrot.2 hseals)).sound he a rfl
    have hwritten := hseals.1
    unfold Ram.wouldRotate at hwritten
    split at hwritten
    · cases hwritten
    · simp only [Bool.and_eq_true, decide_eq_true_eq] at hwritten
      omega
  have hnot : plan.rotates = false := Bool.eq_false_iff.2 fun hr => hstays (hrot.1 hr)
  have he := executes_congr (compaction_dead hidx hparent hinput hnot (liveIn_dead hdead)) he
  rcases executes_bind.1 he with ⟨_, _, _, hgens, hfinish⟩ | ⟨_, hr, -⟩
  swap
  · cases hr
  obtain ⟨hhypoEnds, rfl, rfl⟩ := executes_generations hgens
  obtain ⟨hends, hfirst, hslot, hne, hsplice⟩ := executes_finish_dead hfinish
  have hdropped := h.ranges hne hranges
  have hordered : front.startGen ≤ front.endGen := by
    by_contra hover
    cases idx with
    | zero =>
      obtain ⟨parent', hget, hstart, -, hend⟩ := findParentRangeIdx_eq_some hidx
      rw [hranges] at hget
      obtain rfl := Option.some.inj hget
      exact hover hend
    | succ idx =>
      rw [hranges] at hsplice
      have hhead := hdropped.symm.trans hsplice
      have hlast : front.startGen ≠ front.endGen := fun heq => hover heq.le
      rw [ManifestRange.dropFirst, if_neg hlast] at hhead
      simp only [spliceRanges, List.take_succ_cons, List.cons_append, List.cons.injEq] at hhead
      have := congrArg ManifestRange.startGen hhead.1
      exact absurd this (Nat.succ_ne_self _)
  refine ⟨hstays, hordered, hslot, hfirst, ?_, fun hwould => ?_⟩
  · rw [hsplice.symm.trans hdropped] at hends
    rw [hranges]
    exact not_endless_dropFirst hfirst hends
  · rw [hhypo, hwould] at hhypoEnds
    exact hhypoEnds

/-- A compaction that keeps to the front drops it. -/
lemma Ram.KeepsToFront.may (h : ram.KeepsToFront w.disk front) {plan : CompactionPlan}
    (hranges : ram.manifestRanges = front :: rest)
    (hdead : ∀ r ∈ ram.records, r.segmentGeneration ≠ front.startGen)
    (hplan : ram.planCompaction cfg ⟨front.startGen, front.startGen⟩ .no = some plan) :
    May env noHarm (fun _ _ => True) (Store.gatherCompaction cfg plan >>= Store.finishCompaction)
      (fun r ram' w' => FrontReclaimed ram w.disk r ram' w'.disk) ram w := by
  obtain ⟨idx, parent, hidx, hparent, hinput, hhypo, hrot⟩ := plan_single hplan
  have hnot : plan.rotates = false := Bool.eq_false_iff.2 fun hr => h.stays (hrot.1 hr)
  obtain rfl : idx = 0 := by
    rw [hranges, findParentRangeIdx_front h.ordered] at hidx
    exact (Option.some.inj hidx).symm
  obtain rfl : parent = front := by
    rw [hranges] at hparent
    exact (Option.some.inj hparent).symm
  have hhypoEnds : ¬Endless plan.hypo.startGen plan.hypo.endGen := by
    rw [hhypo]
    cases hwould : ram.wouldRotate ⟨parent.startGen, parent.startGen⟩ with
    | true => exact h.tail hwould
    | false => exact fun he => h.first he.2
  have hends : ∀ r ∈ parent.dropFirst ++ rest, ¬Endless r.startGen r.endGen := by
    intro r hr
    have hold := h.ranges
    rw [hranges] at hold
    rcases List.mem_append.1 hr with hr | hr
    · rw [ManifestRange.dropFirst] at hr
      split at hr
      · exact absurd hr List.not_mem_nil
      · obtain rfl := List.mem_singleton.1 hr
        exact fun he => hold parent (List.mem_cons_self ..) ⟨h.ordered, he.2⟩
    · exact hold r (List.mem_cons_of_mem _ hr)
  obtain ⟨⟨slot, epoch⟩, ht⟩ := Option.ne_none_iff_exists'.1 h.slot
  have hsplice : ram.deadFront 0 parent parent.startGen =
      ⟨⟨parent.startGen, parent.startGen⟩, [], parent.dropFirst ++ rest, ram.nextGeneration⟩ := by
    rw [Ram.deadFront, hranges, spliceRanges_front h.ordered]
  refine may_congr (compaction_dead hidx hparent hinput hnot (liveIn_dead hdead)) ?_
  rw [hsplice]
  have hgens : May env noHarm (fun _ _ => True)
      (Store.generations plan.hypo.startGen plan.hypo.endGen)
      (fun r ram' w' => (∃ gens, r = .ok gens) ∧ ram' = ram ∧ w' = w) ram w :=
    may_of_wpc (J := fun _ => True) (marksIn_generations _ _)
      (wpc_generations hhypoEnds ⟨⟨_, rfl⟩, rfl, rfl⟩)
  refine Act.may_bind (hgens.mono ?_)
  rintro _ _ _ ⟨⟨gens, rfl⟩, rfl, rfl⟩
  refine Act.may_bind (Act.may_get_bind (may_publishManifest
    (A := fun _ _ => True) ht rfl hends trivial ?_))
  refine (may_retireGathered h.first).mono ?_
  rintro _ ram' w' ⟨rfl, hmanifest, hbytes, hrecords, hgone, hother⟩
  refine .dropped hranges ⟨congrArg ManifestData.ranges hmanifest,
    congrArg ManifestData.tailGeneration hmanifest, hbytes,
    congrArg ManifestData.nextGeneration hmanifest, hrecords, hgone, slot, ?_, ?_⟩
  · rw [hother _ (segmentName_ne_slot _ slot).symm, hmanifest]
    exact AList.lookup_insert _
  · intro name hslot hname
    rw [hother name hname]
    exact AList.lookup_insert_ne hslot

/-- **Front reclaim.**  On every object and directory, when no call fails, reclaiming the front
returns and does what it promises if and only if the compaction that it plans, if any, keeps to the
front. -/
theorem reclaim_front_iff : (∃ r ram' w',
      Prog.run (handle env) (Store.reclaimDeadFrontSegment cfg ram) w = some ((r, ram'), w') ∧
        FrontReclaimed ram w.disk r ram' w'.disk) ↔
    ∀ front rest plan, ram.manifestRanges = front :: rest →
      (∀ r ∈ ram.records, r.segmentGeneration ≠ front.startGen) →
      ram.planCompaction cfg ⟨front.startGen, front.startGen⟩ .no = some plan →
      ram.KeepsToFront w.disk front := by
  constructor
  · rintro ⟨r, ram', w', hrun, hrec⟩ front rest plan hranges hdead hplan
    have he : Executes env noHarm (fun _ _ => True) (Store.reclaimDeadFrontSegment cfg) ram w r ram'
        w' := executes_of_run hrun
    unfold Executes at he
    rw [reclaimDeadFrontSegment_dead hranges hdead, hplan] at he
    exact hrec.keeps hranges hdead hplan he.2
  · intro hkeeps
    by_cases hlive : ∀ front rest, ram.manifestRanges = front :: rest →
        ∃ r ∈ ram.records, r.segmentGeneration = front.startGen
    · rw [reclaimDeadFrontSegment_live hlive]
      exact ⟨_, _, _, rfl, .noOp⟩
    · push Not at hlive
      obtain ⟨front, rest, hranges, hdead⟩ := hlive
      rw [reclaimDeadFrontSegment_dead hranges hdead]
      cases hplan : ram.planCompaction cfg ⟨front.startGen, front.startGen⟩ .no with
      | none => exact ⟨_, _, _, rfl, .noOp⟩
      | some plan =>
        have hmay : May env noHarm (fun _ _ => True)
            (Store.gatherCompaction cfg plan >>= Store.finishCompaction)
            (fun r ram' w' => FrontReclaimed ram w.disk r ram' w'.disk) ram w :=
          (hkeeps front rest plan hranges hdead hplan).may hranges hdead hplan
        obtain ⟨r, ram', w', he, hrec⟩ := hmay.executes
        exact ⟨r, ram', w', (Executes.run he).1, hrec⟩

end Drops

/-! ## Runs -/

/-- In the states that runs reach when nothing wraps, only a sealed tail stands in the way. -/
lemma Kept.keepsToFront_iff {cfg : AppendLogConfig} {ram : Ram} {d : Disk} {front : ManifestRange}
    {rest : List ManifestRange} (h : Kept cfg ram d)
    (hranges : ram.manifestRanges = front :: rest) :
    ram.KeepsToFront d front ↔ ¬ram.SealsTail front.startGen := by
  refine ⟨fun hk => hk.stays, fun hstays => ?_⟩
  rcases h with h | ⟨⟨h, -⟩ | ⟨h, hel⟩, -⟩
  · exact nomatch h.ranges.symm.trans hranges
  · exact nomatch h.ranges.symm.trans hranges
  have hlast : ∀ g ∈ ram.gens, g < 2 ^ 32 - 1 := fun g hg => by
    have := h.generations.below g hg
    have := h.generations.next_lt
    omega
  have hends : ∀ r ∈ ram.manifestRanges, r.endGen < 2 ^ 32 - 1 := by
    intro r hr
    obtain ⟨-, hle, -⟩ := h.generations.ranges_valid r hr
    refine hlast _ (Ram.mem_gens.2 (.inl (List.mem_flatMap.2 ⟨r, hr, ?_⟩)))
    rw [ManifestRange.gens, List.mem_range'_1]
    omega
  have hfront : front ∈ ram.manifestRanges := hranges ▸ List.mem_cons_self ..
  obtain ⟨-, hordered, -⟩ := h.generations.ranges_valid front hfront
  refine ⟨hstays, hordered, ?_, ?_, fun r hr he => (hends r hr).ne he.2,
    fun _ he => (hlast _ ram.tail_mem_gens).ne he.2⟩
  · obtain ⟨slot, hslot, -⟩ := hel
    rw [Ram.target, hslot]
    exact Option.some_ne_none _
  · have := hends front hfront
    omega

/-- A record that fills the first segment, one of the next, and the first is popped. -/
def poppedFrontOps : List StoreOp := [.enqueue 1 (List.replicate 20 7), .enqueue 1 [5], .pop 0]

/-- Reclaiming the front then seals the tail and moves the record there. -/
theorem reclaim_front_seals : ∃ ram w, StoreRun (plainEnv .posix) smallSegments noHarm NoWrap
    (fun op _ => op.Plain) ram w ∧ ram.manifestRanges = [⟨1, 1⟩] ∧
      ram.records = [⟨1, 2, 36, 1⟩] ∧ ¬∃ r ram' w', Prog.run (handle (plainEnv .posix))
        (Store.reclaimDeadFrontSegment smallSegments ram) w = some ((r, ram'), w') ∧
          FrontReclaimed ram w.disk r ram' w'.disk := by
  have hrun : (successes smallSegments NoWrap poppedFrontOps {} ⟨∅, 0, false⟩).map
      (fun x => decide (x.1.manifestRanges = [⟨1, 1⟩] ∧ x.1.records = [⟨1, 2, 36, 1⟩] ∧
        (Prog.run (handle (plainEnv .posix)) (Store.reclaimDeadFrontSegment smallSegments x.1)
          x.2).map (fun y => (y.1.2.manifestRanges, y.1.2.records)) =
            some ([⟨4, 4⟩], [⟨1, 4, 36, 1⟩]))) = some true := by
    decide +kernel
  obtain ⟨⟨ram, w⟩, ht, hx⟩ := Option.map_eq_some_iff.1 hrun
  obtain ⟨hranges, hrecords, hreclaim⟩ := of_decide_eq_true hx
  refine ⟨ram, w, storeRun_of_successes ht (by simp [poppedFrontOps, StoreOp.Plain]), hranges,
    hrecords, ?_⟩
  rintro ⟨r, ram', w', hrun, hrec⟩
  rw [hrun] at hreclaim
  obtain ⟨-, hmoved⟩ := Prod.mk.inj (Option.some.inj hreclaim)
  have hsame := hrec.records
  rw [hrecords] at hsame
  exact absurd (hsame.symm.trans hmoved) (by decide)

end Pqueue
