import Pqueue.Store.Crashes

/-!
# Objects that know what they have written

What a mount finds is what the logs say (`Disk.replayed`), whether or not the index of the object
that wrote them says the same.  An object that is `Written` knows the logs; what it logs goes to
their end (`withstands_writtenAs`), and whatever else it does leaves them to be found
(`withstands_written`), calls that a crash interrupts included.
-/

namespace Pqueue

open Effect LittleEndian

/-! ## What moves do to the logs -/

lemma Interrupts.tearsSlots {harm : FsCall → Disk → Disk → Prop} (hi : Interrupts harm) :
    TearsSlots harm := by
  intro slot md d d' hv hw
  obtain ⟨n, hn, rfl⟩ | ⟨-, rfl⟩ := hi _ _ _ hw
  · left
    rw [Disk.manifest, AList.lookup_insert]
    exact parseManifest_take (parseManifest_serialise hv) hn
  · exact .inr rfl

/-- The sequence of the record that an event is about. -/
def LogEvent.sequence : LogEvent → ℕ
  | .enqueue sequence _ | .rewrite sequence _ | .pop sequence => sequence

/-- A compaction is planned on `ram` and `d`, and is marked so. -/
def Plans (cfg : AppendLogConfig) (A : StoreMark → Disk → Prop) (ram : Ram) (d : Disk) : Prop :=
  ∃ range fallback plan, A (.compactRange ram range fallback) d ∧
    ram.planCompaction cfg range fallback = some plan

section Logs

variable {cfg : AppendLogConfig} {lim : Limits} {harm : FsCall → Disk → Disk → Prop}
  {A : StoreMark → Disk → Prop} {ram ram' ram₀ : Ram} {d d' d₀ : Disk} {seg : ℕ → List LogEvent}
  {evs : List LogEvent}

lemma Compacts.plans {plan : CompactionPlan} {idx : ℕ} {parent : ManifestRange}
    {input : CompactionRange} {live : List CompactionLiveRecord} {out : List OutputSeg}
    (h : Compacts cfg harm A ram₀ d₀ plan ram d idx parent input live out) :
    Plans cfg A ram₀ d₀ := by
  obtain ⟨range, fallback, hmark, hplan⟩ := h.planned
  exact ⟨range, fallback, plan, hmark, hplan⟩

/-- A segment is opened with an empty log. -/
lemma Sited.flatMap_opened (h : Sited cfg ram d) (seg : ℕ → List LogEvent) :
    (ram.gens ++ [ram.nextGeneration]).flatMap (Function.update seg ram.nextGeneration []) =
      ram.gens.flatMap seg := by
  rw [List.flatMap_append, List.flatMap_singleton, Function.update_self, List.append_nil]
  apply List.flatMap_congr
  intro g hg
  exact Function.update_of_ne (h.gen_ne hg le_rfl) _ _

/-- An event comes last, since the tail is replayed last. -/
lemma Generations.flatMap_logged (h : Generations ram) (seg : ℕ → List LogEvent) (e : LogEvent) :
    ram.gens.flatMap (Function.update seg ram.activeGeneration
      (seg ram.activeGeneration ++ [e])) = ram.gens.flatMap seg ++ [e] := by
  unfold Ram.gens
  rw [List.flatMap_append, List.flatMap_append, List.flatMap_singleton, List.flatMap_singleton,
    Function.update_self, List.append_assoc]
  congr 1
  apply List.flatMap_congr
  intro g hg
  apply Function.update_of_ne
  rintro rfl
  exact h.tail_not_sealed hg

/-- What a compaction reads has the same log. -/
lemma Stored.flatMap_prepared {plan : CompactionPlan} (h : Stored cfg lim ram₀ d₀ seg)
    (hA : ∀ mk d, A mk d → Within lim mk) (hp : Prepared cfg noHarm A ram₀ d₀ plan ram d) :
    ∃ seg', Stored cfg lim ram d seg' ∧ ram.gens.flatMap seg' = ram₀.gens.flatMap seg := by
  cases hp with
  | asIs => exact ⟨seg, h, rfl⟩
  | rotated _ ho hn =>
    obtain ⟨hs, hgens⟩ := h.noteSealed.opened hA ho _
    refine ⟨_, hs, ?_⟩
    rw [hgens]
    exact h.noteSealed.sited.flatMap_opened seg

/-- The output holds the records of the input. -/
lemma Compacts.sequence_mem {plan : CompactionPlan} {idx : ℕ} {parent : ManifestRange}
    {input : CompactionRange} {live : List CompactionLiveRecord} {out : List OutputSeg}
    (h : Compacts cfg harm A ram₀ d₀ plan ram d idx parent input live out) {o : OutputSeg}
    (ho : o ∈ out) {e : LogEvent} (he : e ∈ o.log) : e.sequence ∈ ram₀.seqs := by
  obtain ⟨lr, hlr, rfl⟩ := List.mem_map.1 he
  have hlive : lr ∈ live := by
    rw [← h.output_records]
    exact List.mem_flatMap.2 ⟨o, ho, hlr⟩
  obtain ⟨r, hr, hview⟩ := List.mem_map.1
    ((collect_perm h.collected).mem_iff.1 (List.mem_map_of_mem hlive))
  have hseq : r.sequence = lr.sequence := congrArg Prod.fst hview
  rw [← h.prepared.seqs, show lr.event.sequence = r.sequence from hseq.symm]
  exact List.mem_map_of_mem (mem_liveIn.1 hr).1

/-- The logs after a compaction. -/
lemma Rewritten.flatMap_outputLogs {input : CompactionRange} {out : List OutputSeg}
    (hw : Rewritten ram d input out ram' d') (hn : (out.map OutputSeg.gen).Nodup)
    (seg : ℕ → List LogEvent) : ram'.gens.flatMap (outputLogs out seg) =
      (input.before ram.gens).flatMap seg ++ out.flatMap OutputSeg.log ++
        (input.after ram.gens).flatMap seg := by
  have hkept : ∀ gens : List ℕ, (∀ g ∈ gens, g ∈ input.before ram.gens ++ input.after ram.gens) →
      gens.flatMap (outputLogs out seg) = gens.flatMap seg := fun gens hsub =>
    List.flatMap_congr fun g hg => outputLogs_of_not_mem (hw.kept (hsub g hg)).2.2
  rw [hw.gens, List.flatMap_append, List.flatMap_append, hkept _ fun g => List.mem_append_left _,
    hkept _ fun g => List.mem_append_right _, List.flatMap_map]
  congr 2
  exact List.flatMap_congr fun o ho => outputLogs_of_mem hn ho

/-- **One move** of an object that knows its directory, when calls fail as a crash interrupts them.
The events go to the end of the logs, unless a compaction replaces some; or the write of an event
has left a part of it. -/
theorem Stored.move_cut (hi : Interrupts harm) (hA : ∀ mk d, A mk d → Within guards mk)
    (h : Stored cfg guards ram d seg) (hm : Move cfg harm A ram d evs ram' d') :
    (∃ seg', Stored cfg guards ram' d' seg' ∧
      (ram'.gens.flatMap seg' = ram.gens.flatMap seg ++ evs ∨
        Plans cfg A ram d ∧ ∀ e ∈ ram'.gens.flatMap seg',
          e ∈ ram.gens.flatMap seg ∨ e.sequence ∈ ram.seqs)) ∨
      evs = [] ∧ ram' = ram ∧ Tears cfg harm ram d d' := by
  have hsame : evs = [] → ram'.gens = ram.gens → Stored cfg guards ram' d' seg →
      ∃ seg', Stored cfg guards ram' d' seg' ∧
        (ram'.gens.flatMap seg' = ram.gens.flatMap seg ++ evs ∨
          Plans cfg A ram d ∧ ∀ e ∈ ram'.gens.flatMap seg',
            e ∈ ram.gens.flatMap seg ∨ e.sequence ∈ ram.seqs) := by
    rintro rfl hgens hs
    exact ⟨seg, hs, .inl (by rw [hgens, List.append_nil])⟩
  cases hm with
  | lock hlock => exact .inl (hsame rfl rfl (h.lock hlock))
  | noteSealed => exact .inl (hsame rfl rfl h.noteSealed)
  | wrote hg hlt hmark => exact .inl (hsame rfl rfl (h.wrote hg hlt _ _ _))
  | writeFailed hg hlt hharm =>
    obtain ⟨n, -, rfl⟩ | ⟨-, rfl⟩ := hi _ _ _ hharm
    · exact .inl (hsame rfl rfl (h.stray hg hlt _))
    · exact .inl (hsame rfl rfl h)
  | opened ho hn =>
    obtain ⟨hs, hgens⟩ := h.opened hA (hi.opens ho) _
    refine .inl ⟨_, hs, .inl ?_⟩
    rw [hgens, h.sited.flatMap_opened, List.append_nil]
  | openFailed ho hharm => exact .inl (hsame rfl rfl (h.openCut hi ho hharm))
  | @logged e _ hl hopen hmark hold =>
    refine .inl ⟨_, h.logged hl (hA _ _ hmark) hold rfl rfl, .inl ?_⟩
    obtain ⟨hgens, -⟩ := logged_fields ram e
    rw [hgens]
    exact h.sited.generations.flatMap_logged seg e
  | @logFailed e _ hl hopen hmark hharm =>
    obtain ⟨old, n, hold, hn, hd'⟩ | ⟨-, rfl⟩ := hi _ _ _ hharm
    · have hf := h.tornTail hl (hA _ _ hmark) hold hn
      rw [← hd'] at hf
      by_cases hnil : e.encode.take n = []
      · rw [hnil] at hf
        exact .inl (hsame rfl rfl (h.of_frayed_nil hf))
      · exact .inr ⟨rfl, rfl, _, _, _, _, hharm, hnil, hf⟩
    · exact .inl (hsame rfl rfl h)
  | compacted hc ht hn hmark hr =>
    obtain ⟨seg', h', hsame'⟩ := h.flatMap_prepared hA (hi.prepared hc.prepared)
    obtain ⟨hs, hw⟩ := h'.compacted h.sited hA hc hmark hr (hi.targets ht)
    refine .inl ⟨_, hs, .inr ⟨hc.plans, fun e he => ?_⟩⟩
    rw [hw.flatMap_outputLogs hc.nodup] at he
    rw [← hsame']
    rcases List.mem_append.1 he with he | he
    · rcases List.mem_append.1 he with he | he
      · obtain ⟨g, hg, he⟩ := List.mem_flatMap.1 he
        exact .inl (List.mem_flatMap.2 ⟨g, (hw.kept (List.mem_append_left _ hg)).1, he⟩)
      · obtain ⟨o, ho, he⟩ := List.mem_flatMap.1 he
        exact .inr (hc.sequence_mem ho he)
    · obtain ⟨g, hg, he⟩ := List.mem_flatMap.1 he
      exact .inl (List.mem_flatMap.2 ⟨g, (hw.kept (List.mem_append_right _ hg)).1, he⟩)
  | @compactFailed _ ram _ _ _ _ _ out _ _ _ hc ht hmark hharm =>
    obtain ⟨seg', h', hsame'⟩ := h.flatMap_prepared hA (hi.prepared hc.prepared)
    refine .inl ⟨seg', h'.compactCut h.sited hi hc ht hharm, .inl ?_⟩
    have hcore := SameCore.of_core (core_wroteAll ram out)
    rw [Ram.gens_congr hcore.ranges hcore.active, hsame', List.append_nil]

end Logs

/-! ## Manifests that name a tail -/

/-- Every manifest names a tail. -/
def Disk.Tailed (d : Disk) : Prop :=
  ∀ (s : Slot) md, Disk.manifest d s = some md → md.tailGeneration ≠ 0

section Tailed

variable {cfg : AppendLogConfig} {harm : FsCall → Disk → Disk → Prop} {A : StoreMark → Disk → Prop}
  {ram ram' : Ram} {d d' d₁ : Disk} {evs : List LogEvent} {slot : Slot} {md : ManifestData}

lemma tailed_of_none (h : ∀ s, Disk.manifest d s = none) : Disk.Tailed d := by
  intro s md hmd
  rw [h s] at hmd
  cases hmd

lemma Disk.Tailed.congr (h : Disk.Tailed d)
    (hs : ∀ s : Slot, d'.lookup s.fileName = d.lookup s.fileName) : Disk.Tailed d' := by
  intro s md hmd
  unfold Disk.manifest at hmd
  rw [hs] at hmd
  exact h s md hmd

/-- Only one slot changes. -/
lemma Disk.Tailed.sameExcept (h : Disk.Tailed d) (hd : SameExcept slot.fileName d d')
    (hslot : ∀ md, Disk.manifest d' slot = some md → md.tailGeneration ≠ 0) : Disk.Tailed d' := by
  intro s md hmd
  by_cases hs : s = slot
  · exact hslot md (hs ▸ hmd)
  · unfold Disk.manifest at hmd
    rw [hd _ fun hn => hs (slot_fileName_injective hn)] at hmd
    exact h s md hmd

/-- A manifest is published. -/
lemma Disk.Tailed.publish (h : Disk.Tailed d) (hv : md.Valid) (ht : md.tailGeneration ≠ 0) :
    Disk.Tailed (Disk.publish d slot md) := by
  refine @Disk.Tailed.sameExcept _ _ slot h (sameExcept_insert d slot.fileName _) ?_
  intro md' hmd'
  have hmd : Disk.manifest (Disk.publish d slot md) slot = some md := by
    rw [Disk.manifest, Disk.publish, AList.lookup_insert]
    exact parseManifest_serialise hv
  obtain rfl := Option.some.inj (hmd.symm.trans hmd')
  exact ht

/-- A publication fails. -/
lemma Disk.Tailed.publishFailed (h : Disk.Tailed d) (hd : Damaging harm) (htear : TearsSlots harm)
    (hv : md.Valid) (hw : harm (.writeFile slot.fileName (serialiseManifest md)) d d') :
    Disk.Tailed d' := by
  apply h.sameExcept (hd _ _ _ hw)
  intro md' hmd'
  obtain hnone | hsame := htear _ _ _ _ hv hw
  · rw [hnone] at hmd'
    cases hmd'
  · unfold Disk.manifest at hmd'
    rw [hsame] at hmd'
    exact h slot md' hmd'

/-- **One move** publishes no manifest without a tail. -/
theorem Disk.Tailed.move (hd : Damaging harm) (htear : TearsSlots harm) (h : Disk.Tailed d)
    (hs : Blank ram ∨ Sited cfg ram d) (hm : Move cfg harm A ram d evs ram' d') :
    Disk.Tailed d' := by
  have hopens : ∀ {ranges startSeq slot epoch}, Opens harm A ram d ranges startSeq slot epoch →
      (ram.opening ranges (u32 (epoch + 1))).Valid ∧ ram.nextGeneration ≠ 0 := by
    intro ranges startSeq slot epoch ho
    rcases hs with hb | hs
    · have hc : Coherent cfg _ _ := (hb.opened ho 0).1
      exact ⟨hc.generations.valid (u32_lt _), hb.next_ne⟩
    · exact ⟨(hs.opened ho 0).1.generations.valid (u32_lt _), hs.generations.next_ne⟩
  have hsited : ∀ {plan ram₁ d₁ idx parent input live out},
      Compacts cfg harm A ram d plan ram₁ d₁ idx parent input live out → Sited cfg ram d := by
    intro plan ram₁ d₁ idx parent input live out hc
    apply hs.resolve_left
    intro hb
    obtain ⟨range, fallback, -, hplan⟩ := hc.planned
    rw [hb.not_planned] at hplan
    cases hplan
  have hwritten : ∀ {plan ram₁ d₁ idx parent input live out},
      Compacts cfg harm A ram d plan ram₁ d₁ idx parent input live out →
        Disk.Tailed (Disk.writeAll d₁ out) := by
    intro plan ram₁ d₁ idx parent input live out hc
    have hprepared : Disk.Tailed d₁ := by
      have hnoted := (hsited hc).noteSealed.1
      cases hc.prepared with
      | asIs => exact h
      | rotated _ ho hn =>
        have hv := (hnoted.opened ho 0).1.generations.valid (u32_lt _)
        exact (h.congr (slots_insert d _ _)).publish hv hnoted.generations.next_ne
    exact hprepared.congr (slots_writeAll d₁ out)
  cases hm with
  | lock hlock => exact h.congr (SameExcept.slots hlock slot_ne_lock)
  | noteSealed => exact h
  | wrote => exact h.congr (slots_insert d _ _)
  | writeFailed hg hlt hw =>
    have hsame : SameExcept _ d d' := hd _ _ _ hw
    exact h.congr (SameExcept.slots hsame fun s => (segmentName_ne_slot _ s).symm)
  | opened ho =>
    obtain ⟨hv, hne⟩ := hopens ho
    exact (h.congr (slots_insert d _ _)).publish hv hne
  | openFailed ho hw =>
    exact (h.congr (slots_insert d _ _)).publishFailed hd htear (hopens ho).1 hw
  | logged => exact h.congr (slots_insert d _ _)
  | logFailed hl hopen hmark hw =>
    have hdam := hd _ _ _ hw
    exact h.congr (SameExcept.slots hdam.1 fun s => (segmentName_ne_slot _ s).symm)
  | compacted hc ht hn hmark hr =>
    refine Disk.Tailed.congr ?_ fun s => hr.lookup fun g _ => (segmentName_ne_slot g s).symm
    exact (hwritten hc).publish (Settled.compactionAt_valid (hsited hc) hc (u32_lt _))
      ((hsited hc).prepared hc.prepared).1.generations.tail_ne
  | compactFailed hc ht hmark hw =>
    exact (hwritten hc).publishFailed hd htear
      (Settled.compactionAt_valid (hsited hc) hc (u32_lt _)) hw

end Tailed

/-! ## Objects that know what they have written -/

/-- An object that knows the logs of its directory. -/
structure Written (cfg : AppendLogConfig) (ram : Ram) (d : Disk) : Prop where
  stored : ∃ seg, Stored cfg guards ram d seg
  tailed : Disk.Tailed d
  logged_lt : ∀ e ∈ Disk.replayed cfg d, e.sequence < 2 ^ 32 - 1
  seqs_lt : ∀ s ∈ ram.seqs, s < 2 ^ 32 - 1

section Written

variable {env : Env} {cfg : AppendLogConfig} {harm : FsCall → Disk → Disk → Prop}
  {A : StoreMark → Disk → Prop} {ram ram' : Ram} {d d' : Disk} {w w' : World}
  {evs E : List LogEvent}

/-- The sequences of events are those of records. -/
lemma Loggable.sequence_lt {e : LogEvent} (hl : Loggable cfg ram e)
    (h : ∀ s ∈ ram.seqs, s < 2 ^ 32 - 1) : e.sequence < 2 ^ 32 - 1 := by
  cases e with
  | enqueue => exact hl.1
  | rewrite =>
    obtain ⟨-, r, hr, hseq⟩ := hl
    exact h _ (hseq ▸ List.mem_map_of_mem hr)
  | pop =>
    obtain ⟨front, hfront, hseq⟩ := hl
    exact h _ (hseq ▸ List.mem_map_of_mem (List.mem_of_mem_head? hfront))

/-- **One move** of such an object. -/
lemma Written.move_cut (hi : Interrupts harm) (hA : ∀ mk d, A mk d → Within guards mk)
    (h : Written cfg ram d) (hm : Move cfg harm A ram d evs ram' d') :
    (Written cfg ram' d' ∧ (¬Plans cfg A ram d →
      Disk.replayed cfg d' = Disk.replayed cfg d ++ evs)) ∨
      evs = [] ∧ ram' = ram ∧ Tears cfg harm ram d d' := by
  obtain ⟨⟨seg, hs⟩, htailed, hlogged, hseqs⟩ := h
  rw [hs.replayed hs.frayed] at hlogged ⊢
  have htailed' : Disk.Tailed d' := htailed.move hi.damaging hi.tearsSlots (.inr hs.sited) hm
  have hevs : ∀ e ∈ evs, e.sequence < 2 ^ 32 - 1 := by
    obtain rfl | ⟨e, rfl, hl⟩ := hm.events
    · simp
    · intro e' he'
      rw [List.mem_singleton.1 he']
      exact hl.sequence_lt hseqs
  have hseqs' : ∀ s ∈ ram'.seqs, s < 2 ^ 32 - 1 := (Moves.refl.step hm).seqs_lt hseqs
  obtain ⟨seg', hs', hreplayed⟩ | htears := hs.move_cut hi hA hm
  · left
    rw [hs'.replayed hs'.frayed]
    refine ⟨⟨⟨seg', hs'⟩, htailed', ?_, hseqs'⟩,
      fun hplans => hreplayed.resolve_right fun hp => hplans hp.1⟩
    rw [hs'.replayed hs'.frayed]
    intro e he
    rcases hreplayed with heq | ⟨-, hsub⟩
    · rw [heq] at he
      exact (List.mem_append.1 he).elim (hlogged e) (hevs e)
    · exact (hsub e he).elim (hlogged e) (hseqs _)
  · exact .inr htears

lemma lasting_written : Lasting cfg (Written cfg) where
  stored h := h.stored
  congr {ram d d'} h hslots hfiles hcan := by
    obtain ⟨seg, hs⟩ := h.stored
    have hs' : Stored cfg guards ram d' seg := hs.frame rfl (fun _ _ _ => rfl) hfiles hslots hcan
    refine ⟨⟨seg, hs'⟩, h.tailed.congr hslots, ?_, h.seqs_lt⟩
    rw [hs'.replayed hs'.frayed, ← hs.replayed hs.frayed]
    exact h.logged_lt

/-- The logs of an object that has written `E`. -/
def WrittenAs (cfg : AppendLogConfig) (E : List LogEvent) (ram : Ram) (d : Disk) : Prop :=
  Written cfg ram d ∧ Disk.replayed cfg d = E

lemma lasting_writtenAs (E : List LogEvent) : Lasting cfg (WrittenAs cfg E) where
  stored h := h.1.stored
  congr {ram d d'} h hslots hfiles hcan := by
    obtain ⟨h, hE⟩ := h
    obtain ⟨seg, hs⟩ := h.stored
    have hs' : Stored cfg guards ram d' seg := hs.frame rfl (fun _ _ _ => rfl) hfiles hslots hcan
    refine ⟨lasting_written.congr h hslots hfiles hcan, ?_⟩
    rw [hs'.replayed hs'.frayed, ← hs.replayed hs.frayed]
    exact hE

/-- Whatever is marked. -/
lemma withstands_written (hA : ∀ mk d, A mk d → Within guards mk) :
    Withstands cfg A fun _ => Written cfg where
  guarded := hA
  lasting _ := lasting_written
  move {harm B evs ram d evs' ram' d'} hi hB h hm := by
    obtain ⟨h', -⟩ | htears := h.move_cut hi (fun mk d hmk => hA mk d (hB mk d hmk)) hm
    · exact .inl h'
    · exact .inr htears

/-- Where no compaction is planned, the events go to the end of the logs. -/
lemma withstands_writtenAs (hA : ∀ mk d, A mk d → Within guards mk)
    (hplans : ∀ ram d, ¬Plans cfg A ram d) (E : List LogEvent) :
    Withstands cfg A fun evs => WrittenAs cfg (E ++ evs) where
  guarded := hA
  lasting evs := lasting_writtenAs _
  move {harm B evs ram d evs' ram' d'} hi hB h hm := by
    obtain ⟨h, hE⟩ := h
    obtain ⟨h', hE'⟩ | htears := h.move_cut hi (fun mk d hmk => hA mk d (hB mk d hmk)) hm
    · have hnone : ¬Plans cfg B ram d := by
        rintro ⟨range, fallback, plan, hmk, hplan⟩
        exact hplans ram d ⟨range, fallback, plan, hB _ _ hmk, hplan⟩
      refine .inl ⟨h', ?_⟩
      rw [hE' hnone, hE, List.append_assoc]
    · exact .inr htears

lemma not_tears_noHarm : ¬Tears cfg noHarm ram d d' := by
  rintro ⟨_, _, _, _, hharm, -⟩
  exact hharm

lemma interrupts_noHarm : Interrupts noHarm := fun _ _ _ h => h.elim

lemma carried_written (hA : ∀ mk d, A mk d → Within guards mk) :
    Carried cfg A (Written cfg) where
  first ram d ranges startSeq slot epoch n hb hu hcan ho := by
    obtain ⟨hs, hgens⟩ := Stored.first hb hu hcan hA ho n
    refine ⟨⟨_, hs⟩, ?_, ?_, ?_⟩
    · exact (tailed_of_none hu.2).move damaging_noHarm tearsSlots_noHarm (.inl hb)
        (.opened ho (.inl rfl) : Move cfg _ A ram d [] _ _)
    · rw [hs.replayed hs.frayed]
      simp
    · have hseqs : (ram.opened ranges slot epoch n).seqs = [] := by
        show ram.records.map _ = []
        rw [hb.records]
        rfl
      simp [hseqs]
  move ram d evs ram' d' h hm := by
    obtain ⟨h', -⟩ | ⟨-, -, htears⟩ := h.move_cut interrupts_noHarm hA hm
    · exact h'
    · exact absurd htears not_tears_noHarm

end Written

/-! ## What a mount finds -/

/-- A new object on such a backend that mounts the directory succeeds, and then has the records
`L`. -/
def MountsTo (backend : StorageBackend) (cfg : AppendLogConfig) (d : Disk)
    (L : List (ℕ × Bytes)) : Prop :=
  ∀ (env : Env) (w : World), env.backend = backend → w.disk = d → ∃ ram' w',
    Prog.run (handle env) (Store.mount cfg {}) w = some ((.ok (), ram'), w') ∧
      ram'.contents w'.disk = L

section Mount

variable {env : Env} {cfg : AppendLogConfig} {A : StoreMark → Disk → Prop} {ram ram' : Ram}
  {d : Disk} {w w' : World} {E E' : List LogEvent}

lemma Leaves.replayed (h : Leaves env cfg (WrittenAs cfg E) d) : Disk.replayed cfg d = E := by
  obtain ⟨ram₀, d₀, torn, ⟨hw, hE⟩, hf, -⟩ := h
  obtain ⟨seg, hs⟩ := hw.stored
  rw [hs.replayed hf, ← hs.replayed hs.frayed]
  exact hE

lemma Leaves.mountsTo (h : Leaves env cfg (WrittenAs cfg E) d) :
    MountsTo env.backend cfg d (logContents E) := by
  rintro env' w hb rfl
  have hE := h.replayed
  obtain ⟨ram₀, d₀, torn, ⟨hw, -⟩, hf, hrec⟩ := h
  have hrec : TailRecoverable env' torn := by
    unfold TailRecoverable
    rw [hb]
    exact hrec
  obtain ⟨seg, hs⟩ := hw.stored
  rw [← hE, hs.replayed hf]
  exact hs.run_mount hf hrec

/-- The records of a replayed index are those of events. -/
lemma exists_sequence {seg : ℕ → List LogEvent} {gens : List ℕ} {r : SegmentRecord}
    (h : r ∈ QueueLog.replay SegmentRecord.sequence [] (locatedLog seg gens)) :
    ∃ e ∈ gens.flatMap seg, e.sequence = r.sequence := by
  have hmem : .push r ∈ locatedLog seg gens ∨ .put r ∈ locatedLog seg gens :=
    (QueueLog.mem_replay h).resolve_left List.not_mem_nil
  rcases hmem with hmem | hmem
  · obtain ⟨g, hg, e, he, offset, heq⟩ := exists_of_mem_locatedLog hmem
    refine ⟨e, List.mem_flatMap.2 ⟨g, hg, he⟩, ?_⟩
    cases e with
    | enqueue => rw [QueueLog.Event.push.inj heq]; rfl
    | rewrite | pop => cases heq
  · obtain ⟨g, hg, e, he, offset, heq⟩ := exists_of_mem_locatedLog hmem
    refine ⟨e, List.mem_flatMap.2 ⟨g, hg, he⟩, ?_⟩
    cases e with
    | rewrite => rw [QueueLog.Event.put.inj heq]; rfl
    | enqueue | pop => cases heq

/-- **Mounting again.**  The new object knows the logs. -/
lemma Leaves.mount (h : Leaves env cfg (Written cfg) w.disk) {r : Except Status Unit}
    (he : Executes env noHarm A (Store.mount cfg) ram w r ram' w') :
    r = .ok () ∧ WrittenAs cfg (Disk.replayed cfg w.disk) ram' w'.disk ∧
      ram'.nextSequence < 2 ^ 32 := by
  obtain ⟨ram₀, d₀, torn, hw, hf, hrec⟩ := h
  obtain ⟨seg, hs⟩ := hw.stored
  have hlogged := hw.logged_lt
  obtain ⟨hr, ht, hslots⟩ := hs.mount hf hrec he
  have htailed : Disk.Tailed w'.disk :=
    hw.tailed.congr fun s => (hslots s).trans (hf.slots s)
  have hgens : ram'.gens = ram₀.gens := Ram.gens_congr ht.ranges ht.active
  have hreplayed : Disk.replayed cfg w'.disk = Disk.replayed cfg w.disk := by
    rw [ht.stored.replayed ht.stored.frayed, hs.replayed hf, hgens]
  rw [hs.replayed hs.frayed, ← hs.replayed hf, ← hreplayed] at hlogged
  refine ⟨hr, ⟨⟨⟨seg, ht.stored⟩, htailed, hlogged, fun s hmem => ?_⟩, hreplayed⟩, ht.sequence_lt⟩
  obtain ⟨r, hr, rfl⟩ := List.mem_map.1 hmem
  rw [ht.records] at hr
  obtain ⟨e, he, hseq⟩ := exists_sequence hr
  rw [← hseq]
  apply hlogged
  rw [hreplayed, hs.replayed hf]
  exact he

end Mount

end Pqueue
