import Pqueue.Store.Accounting
import Pqueue.Store.Recovery
import Pqueue.Store.Synced

/-!
# Mounting again

A directory outlives the objects that mount it.
-/

namespace Pqueue

open Effect LittleEndian

/-! ## What a replay notes of the tail -/

section Affected

variable {gen offset s : ℕ} {evs : List LogEvent} {e : LogEvent} {st : Replay} {r : SegmentRecord}

/-- The replay of the tail forgets no segment it has noted. -/
lemma Replay.event_affected_subset {g : ℕ} (hg : g ∈ st.tailAffectedGens) :
    g ∈ (st.event true gen offset e).tailAffectedGens := by
  cases e with
  | enqueue => exact hg
  | rewrite => exact List.mem_union_iff.2 (.inr hg)
  | pop sequence =>
    simp only [Replay.event, Replay.popEvent]
    split
    · split
      · exact List.mem_union_iff.2 (.inr hg)
      · exact hg
    · exact hg

lemma mem_affectedBy (hr : QueueLog.find SegmentRecord.sequence st.records s = some r) :
    r.segmentGeneration ∈ affectedBy true s st.records := by
  have hfind : st.records.find? (fun r => r.sequence = s) = some r := hr
  simp [affectedBy, hfind]

/-- It notes the segment of a record that an event pops or rewrites. -/
lemma Replay.event_affected (hsorted : QueueLog.Sorted SegmentRecord.sequence st.records)
    (hadm : QueueLog.Admissible SegmentRecord.sequence st.records (e.located gen offset))
    (hs : e.touched = some s)
    (hr : QueueLog.find SegmentRecord.sequence st.records s = some r) :
    r.segmentGeneration ∈ (st.event true gen offset e).tailAffectedGens := by
  cases e with
  | enqueue => cases hs
  | rewrite sequence payload =>
    obtain rfl : sequence = s := Option.some.inj hs
    exact List.mem_union_iff.2 (.inl (mem_affectedBy hr))
  | pop sequence =>
    obtain rfl : sequence = s := Option.some.inj hs
    obtain ⟨records, next, affected⟩ := st
    obtain ⟨hmem, hseq⟩ := QueueLog.find_some hr
    cases records with
    | nil => cases hmem
    | cons front rs =>
      -- the record popped is the front one, since no sequence is below it
      have hfront : front.sequence = sequence := by
        have hle : sequence ≤ front.sequence := hadm front (List.mem_cons_self ..)
        rcases List.mem_cons.1 hmem with rfl | hmem
        · exact hseq
        · have hlt : front.sequence < r.sequence := hsorted.head_lt hmem
          omega
      have hfront : front.sequence = (popEventOf sequence).sequence := hfront
      simp only [Replay.event, Replay.popEvent, if_pos hfront]
      exact List.mem_union_iff.2 (.inl (mem_affectedBy hr))

/-- The replay of several events forgets none either. -/
lemma replayEvents_affected_subset {g : ℕ} (hg : g ∈ st.tailAffectedGens) :
    g ∈ (replayEvents true gen offset evs st).tailAffectedGens := by
  induction evs generalizing offset st with
  | nil => exact hg
  | cons e evs ih =>
    apply ih
    exact Replay.event_affected_subset hg

/-- An event that is not about a record that is there leaves it where it is. -/
lemma find_event_of_untouched (hsorted : QueueLog.Sorted SegmentRecord.sequence st.records)
    (hadm : QueueLog.Admissible SegmentRecord.sequence st.records (e.located gen offset))
    (hs : e.touched ≠ some s)
    (hr : QueueLog.find SegmentRecord.sequence st.records s = some r) :
    QueueLog.find SegmentRecord.sequence (st.event true gen offset e).records s = some r := by
  have heffect : (e.located gen offset).effect SegmentRecord.sequence s = none := by
    cases e with
    | enqueue sequence payload =>
      -- a record that is there has a smaller sequence
      obtain ⟨hmem, hseq⟩ := QueueLog.find_some hr
      have hlt : r.sequence < sequence := hadm r hmem
      exact if_neg fun he : sequence = s => by omega
    | rewrite sequence payload => exact if_neg fun he : sequence = s => hs (he ▸ rfl)
    | pop sequence => exact if_neg fun he : sequence = s => hs (he ▸ rfl)
  rw [event_records, QueueLog.find_step hsorted hadm, heffect]
  exact hr

/-- **What the tail reaches.**  The segment of every record that an event of the tail pops or
rewrites is noted. -/
lemma replayEvents_affected (hsorted : QueueLog.Sorted SegmentRecord.sequence st.records)
    (ho : QueueLog.Ordered SegmentRecord.sequence st.records (locate gen offset evs))
    (hr : QueueLog.find SegmentRecord.sequence st.records s = some r) (he : e ∈ evs)
    (hs : e.touched = some s) :
    r.segmentGeneration ∈ (replayEvents true gen offset evs st).tailAffectedGens := by
  induction evs generalizing offset st with
  | nil => cases he
  | cons e' evs ih =>
    obtain ⟨hadm, hrest⟩ := ho
    rw [replayEvents]
    by_cases htouched : e'.touched = some s
    · exact replayEvents_affected_subset (Replay.event_affected hsorted hadm htouched hr)
    · have hmem : e ∈ evs := by
        rcases List.mem_cons.1 he with rfl | he
        · exact absurd hs htouched
        · exact he
      rw [← event_records true] at hrest
      apply ih _ hrest (find_event_of_untouched hsorted hadm htouched hr) hmem
      rw [event_records]
      exact QueueLog.sorted_step hsorted hadm

lemma replayGens_append (seg : ℕ → List LogEvent) (gens : List ℕ) (tail : ℕ) (st : Replay) :
    ∃ st', st'.records =
        QueueLog.replay SegmentRecord.sequence st.records (locatedLog seg gens) ∧
      replayGens seg (gens ++ [tail]) st =
        replayEvents true tail kSegmentHeaderBytes (seg tail) st' := by
  induction gens generalizing st with
  | nil => exact ⟨st, rfl, rfl⟩
  | cons g gens ih =>
    obtain ⟨st', hrecords, hreplay⟩ :=
      ih (replayEvents (gens ++ [tail]).isEmpty g kSegmentHeaderBytes (seg g) st)
    refine ⟨st', ?_, hreplay⟩
    rw [hrecords, replayEvents_records, locatedLog_cons, QueueLog.replay_append]

/-- The same of a whole replay. -/
lemma replayGens_affected {seg : ℕ → List LogEvent} {gens : List ℕ} {tail : ℕ}
    (ho : QueueLog.Ordered SegmentRecord.sequence [] (locatedLog seg (gens ++ [tail])))
    (he : e ∈ seg tail) (hs : e.touched = some s)
    (hr : QueueLog.live SegmentRecord.sequence (locatedLog seg gens) s none = some r) :
    r.segmentGeneration ∈ (replayGens seg (gens ++ [tail]) {}).tailAffectedGens := by
  obtain ⟨st, hrecords, hreplay⟩ := replayGens_append seg gens tail {}
  have hrecords : st.records =
      QueueLog.replay SegmentRecord.sequence [] (locatedLog seg gens) := hrecords
  rw [locatedLog_append] at ho
  obtain ⟨hbefore, htail⟩ := QueueLog.ordered_append.1 ho
  rw [hreplay]
  apply replayEvents_affected _ _ _ he hs
  · rw [hrecords]
    exact QueueLog.sorted_replay hbefore
  · rw [hrecords]
    simpa [locatedLog] using htail
  · rw [hrecords, QueueLog.find_replay hbefore]
    exact hr

end Affected

/-! ## Methods that complete -/

section Completes

variable {env : Env} {A A' : StoreMark → Disk → Prop} {Z : Prop} {J : Disk → Prop} {α : Type}
  {m : Store α} {ram ram₁ ram₂ : Ram} {w w₁ w₂ : World} {r r₁ r₂ : Except Status α}

/-- Without failures an execution is what the method computes. -/
lemma Executes.run (he : Executes env noHarm A m ram w r ram₁ w₁) :
    Prog.run (crashing env).handler (m ram) w = some ((r, ram₁), w₁) ∧
      Prog.MarksOk (crashing env).handler (fun mk w => A mk w.disk) (m ram) w := by
  have hexec : Prog.Exec (crashing env).handler.outcomes (fun mk w => A mk w.disk) (m ram) w
      (r, ram₁) w₁ := Prog.exec_mono (fun c v a v' ha => ha.elim id fun hf => hf.2.elim) he
  exact (Prog.exec_outcomes_iff ..).1 hexec

/-- There is one at most. -/
lemma Executes.unique (he : Executes env noHarm A m ram w r₁ ram₁ w₁)
    (he' : Executes env noHarm A' m ram w r₂ ram₂ w₂) : r₁ = r₂ ∧ ram₁ = ram₂ ∧ w₁ = w₂ := by
  have heq := he.run.1.symm.trans he'.run.1
  simp only [Option.some.injEq, Prod.mk.injEq] at heq
  exact ⟨heq.1.1, heq.1.2, heq.2⟩

/-- Without failures, what is known of the outcome of a method is known of its executions. -/
lemma Wpc.executes {Q : StorePost α} (h : Wpc env A Z J m Q ram w)
    (he : Executes env noHarm A m ram w r ram₁ w₁) : Q r ram₁ w₁ :=
  Prog.wpc_run h he.run.2 he.run.1

end Completes

/-! ## Mounting -/

/-- The cleanup leaves the slots, and the segments in use. -/
lemma Canonical.cleaned {env : Env} {t : ℕ} {gens : List ℕ} {d : Disk} (h : Canonical d)
    (hlt : ∀ g ∈ gens, g < 2 ^ 32) : Canonical (Disk.cleaned env t gens d) ∧
      (∀ s : Slot, (Disk.cleaned env t gens d).lookup s.fileName = d.lookup s.fileName) ∧
      ∀ g ∈ gens, (Disk.cleaned env t gens d).lookup (segmentName g) =
        d.lookup (segmentName g) := by
  unfold Disk.cleaned
  split
  · exact ⟨h, fun _ => rfl, fun _ _ => rfl⟩
  · next name gen hdangling =>
    obtain ⟨-, hname, hactive⟩ := firstDangling_eq_some hdangling
    refine ⟨h.erase, fun s => AList.lookup_erase_ne ?_, fun g hg => AList.lookup_erase_ne ?_⟩
    · rintro rfl
      rw [isSegmentName_slot] at hname
      cases hname
    · rintro rfl
      rw [isSegmentName_segmentName (hlt g hg)] at hname
      exact hactive (Option.some.inj hname ▸ hg)

/-- The next generation stays a word. -/
lemma advanceGeneration_lt {next : ℕ} {gens : List ℕ} (h : next < 2 ^ 32) :
    advanceGeneration next gens < 2 ^ 32 := by
  induction gens generalizing next with
  | nil => exact h
  | cons g gens ih =>
    rw [advanceGeneration, List.foldl_cons, ← advanceGeneration]
    apply ih
    split
    · exact u32_lt _
    · exact h

/-- The files that the object knows, with `torn` after the log of its tail. -/
structure Frayed (cfg : AppendLogConfig) (ram : Ram) (d : Disk) (torn : Bytes)
    (d' : Disk) : Prop where
  slots : ∀ s : Slot, d'.lookup s.fileName = d.lookup s.fileName
  sealed : ∀ g ∈ ram.gens, g ≠ ram.activeGeneration →
    d'.lookup (segmentName g) = d.lookup (segmentName g)
  tail : d'.lookup (segmentName ram.activeGeneration) =
    (d.lookup (segmentName ram.activeGeneration)).map (· ++ torn)
  stop : (stopsAt cfg.maxRecordBytes torn).isSome
  size : ram.activeSegmentBytes + torn.length ≤ guards.segment
  canonical : Canonical d'

/-- Nothing has to be recovered, or a cut leaves the first bytes of the file. -/
def TailRecoverable (env : Env) (torn : Bytes) : Prop := torn = [] ∨ env.backend = .posix

namespace Stored

variable {env : Env} {cfg : AppendLogConfig} {A : StoreMark → Disk → Prop} {ram₀ ram ram' : Ram}
  {d d' : Disk} {w w' : World} {seg : ℕ → List LogEvent} {md : ManifestData}
  {files : List FileName} {torn : Bytes}

/-- Nothing is left after the log. -/
lemma frayed (h : Stored cfg guards ram d seg) : Frayed cfg ram d [] d where
  slots _ := rfl
  sealed _ _ _ := rfl
  tail := by simp
  stop := by simp [stopsAt_nil]
  size := by
    rw [h.bytes, List.length_nil, Nat.add_zero]
    exact h.size _ ram.tail_mem_gens
  canonical := h.canonical

/-- What is left is an image of the same logs. -/
lemma image_frayed (h : Stored cfg guards ram d seg) (hf : Frayed cfg ram d torn d') :
    ∃ slot md, Image cfg guards d' slot md seg torn ∧ md.gens = ram.gens := by
  obtain ⟨slot, md, himage, hgens⟩ := h.image
  have htail : md.tailGeneration = ram.activeGeneration := by
    have hlast := ManifestData.getLast?_gens himage.tail_ne
    rw [hgens, Ram.gens, List.getLast?_concat] at hlast
    exact (Option.some.inj hlast).symm
  refine ⟨slot, md, ⟨himage.published.congr hf.slots, himage.span, himage.tail_ne, himage.nodup,
    himage.below, fun g hg =>
      ⟨(himage.sealed g hg).1.congr (hf.sealed g ?_ ?_), (himage.sealed g hg).2⟩,
    ?_, ?_, hf.stop, hf.canonical⟩, hgens⟩
  · rw [← hgens]
    exact (ManifestData.mem_gens himage.tail_ne).2 (.inl hg)
  · intro he
    exact himage.tail_not_sealed (htail.trans he.symm ▸ hg)
  · obtain ⟨hlt, hfits, startSeq, hs, hfile⟩ := himage.tail
    refine ⟨hlt, hfits, startSeq, hs, ?_⟩
    rw [htail] at hfile ⊢
    rw [hf.tail, hfile]
    simp [segmentData]
  · rw [htail, ← h.bytes]
    exact hf.size

/-- The recovery of the tail gives back the directory. -/
lemma recovered (h : Stored cfg guards ram d seg) (hf : Frayed cfg ram d torn d')
    (hb : TailRecoverable env torn) :
    Stored cfg guards ram
        (Disk.recoverTail env d' ram.activeGeneration (seg ram.activeGeneration) torn) seg ∧
      ram.contents (Disk.recoverTail env d' ram.activeGeneration (seg ram.activeGeneration) torn) =
        ram.contents d ∧
      (∀ s : Slot, (Disk.recoverTail env d' ram.activeGeneration (seg ram.activeGeneration)
        torn).lookup s.fileName = d'.lookup s.fileName) ∧
      ∀ g ∈ ram.gens, (Disk.recoverTail env d' ram.activeGeneration (seg ram.activeGeneration)
        torn).lookup (segmentName g) = d.lookup (segmentName g) := by
  generalize hd₁ : Disk.recoverTail env d' ram.activeGeneration (seg ram.activeGeneration) torn = d₁
  have hlt := fun g (hg : g ∈ ram.gens) => h.sited.generations.gen_lt hg
  have htail := ram.tail_mem_gens
  obtain ⟨-, -, startSeq, -, hfile⟩ := h.file _ htail
  obtain ⟨hslots, hkept, hcan⟩ : (∀ s : Slot, d₁.lookup s.fileName = d'.lookup s.fileName) ∧
      (∀ g ∈ ram.gens, d₁.lookup (segmentName g) = d.lookup (segmentName g)) ∧ Canonical d₁ := by
    subst hd₁
    unfold Disk.recoverTail
    split
    · next hnil =>
      subst hnil
      refine ⟨fun _ => rfl, fun g hg => ?_, hf.canonical⟩
      by_cases hne : g = ram.activeGeneration
      · rw [hne, hf.tail, hfile]
        simp
      · exact hf.sealed g hg hne
    · next hne =>
      have hposix := hb.resolve_left hne
      refine ⟨fun s => AList.lookup_insert_ne (segmentName_ne_slot _ s).symm, fun g hg => ?_,
        hf.canonical.insert_segment (hlt _ htail)⟩
      unfold Disk.resize
      by_cases hg' : g = ram.activeGeneration
      · have hlen := length_segmentData ram.activeGeneration startSeq (seg ram.activeGeneration) []
        rw [List.length_nil, Nat.add_zero] at hlen
        rw [hg', AList.lookup_insert, hf.tail, hfile, hposix, ← hlen]
        simp [StorageBackend.resized, truncated]
      · rw [AList.lookup_insert_ne (segmentName_ne (hlt g hg) (hlt _ htail) hg')]
        exact hf.sealed g hg hg'
  have hstored : Stored cfg guards ram d₁ seg :=
    h.frame rfl (fun _ _ _ => rfl) hkept (fun s => (hslots s).trans (hf.slots s)) hcan
  exact ⟨hstored, (h.sited.keep (Keeps.of_lookup hkept)).2, hslots, hkept⟩

/-- The directory mounts, whatever object mounts it. -/
lemma wpc_mount {Z : Prop} {J : Disk → Prop} (h : Stored cfg guards ram₀ d seg)
    (hf : Frayed cfg ram₀ d torn w.disk) (hJ : J w.disk)
    (hJ' : J (Disk.recoverTail env w.disk ram₀.activeGeneration (seg ram₀.activeGeneration) torn)) :
    Wpc env A Z J (Store.mount cfg) (fun r ram' w' => r = .ok () ∧
      ∃ md, Disk.elected w.disk = some md ∧ md.gens = ram₀.gens ∧
        MountedAs (env.order w.clock w.disk.keys) md seg ram' ∧
        ram'.activeTailAffectedGenerations = (replayGens seg md.gens {}).tailAffectedGens ∧
        w'.disk = Disk.cleaned env (w.clock + 1) md.gens
          (Disk.recoverTail env w.disk ram₀.activeGeneration (seg ram₀.activeGeneration) torn))
      ram w := by
  obtain ⟨slot, md, himage, hgens⟩ := h.image_frayed hf
  have hscan : Disk.afterScan env w.disk seg md.gens torn =
      Disk.recoverTail env w.disk ram₀.activeGeneration (seg ram₀.activeGeneration) torn := by
    unfold Disk.afterScan
    rw [hgens, Ram.gens, List.getLast?_concat]
  apply wpc_mount_tracking himage.mountable_guards hJ
  · rw [hscan]
    exact hJ'
  · intro ram' w' hm haffected hdisk
    rw [hscan] at hdisk
    exact ⟨rfl, md, himage.published.elected, hgens, hm, haffected, hdisk⟩

/-- The cleanup removes nothing that matters. -/
lemma cleaned {t : ℕ} (h : Stored cfg guards ram d seg) (hgens : md.gens = ram.gens) :
    Stored cfg guards ram (Disk.cleaned env t md.gens d) seg ∧
      ram.contents (Disk.cleaned env t md.gens d) = ram.contents d ∧
      (∀ s : Slot, (Disk.cleaned env t md.gens d).lookup s.fileName = d.lookup s.fileName) ∧
      ∀ g ∈ ram.gens, (Disk.cleaned env t md.gens d).lookup (segmentName g) =
        d.lookup (segmentName g) := by
  have hlt : ∀ g ∈ md.gens, g < 2 ^ 32 := fun g hg =>
    h.sited.generations.gen_lt (hgens ▸ hg)
  obtain ⟨hcan, hslots, hkept⟩ := @Canonical.cleaned env t md.gens d h.canonical hlt
  rw [hgens] at hcan hslots hkept ⊢
  have hstored : Stored cfg guards ram (Disk.cleaned env t ram.gens d) seg :=
    h.frame rfl (fun _ _ _ => rfl) hkept hslots hcan
  exact ⟨hstored, (h.sited.keep (Keeps.of_lookup hkept)).2, hslots, hkept⟩

/-- **What a mount finds** are the records of the logs. -/
theorem run_mount (h : Stored cfg guards ram₀ d seg) (hf : Frayed cfg ram₀ d torn w.disk)
    (hb : TailRecoverable env torn) : ∃ ram' w',
    Prog.run (handle env) (Store.mount cfg ram) w = some ((.ok (), ram'), w') ∧
      ram'.contents w'.disk = logContents (ram₀.gens.flatMap seg) := by
  obtain ⟨⟨r, ram'⟩, w', hrun, rfl, md, -, hgens, hm, -, hdisk⟩ := Prog.wpc_total
    (h.wpc_mount hf (A := fun _ _ => True) (Z := False) (J := fun _ => True) trivial trivial)
    (Prog.marksOk_true _ _ _)
  refine ⟨ram', w', hrun, ?_⟩
  obtain ⟨hback, -⟩ := h.recovered hf hb
  obtain ⟨hcleaned, -⟩ :
      Stored cfg guards ram₀ (Disk.cleaned env (w.clock + 1) md.gens _) seg ∧ _ :=
    hback.cleaned hgens
  rw [← hdisk] at hcleaned
  unfold Ram.contents
  rw [hm.records, replayGens_records, hgens]
  apply view_replay_locatedLog
  intro g hg
  obtain ⟨-, -, startSeq, -, hfile⟩ := hcleaned.file g hg
  exact ⟨_, [], length_serializeSegmentHeader .., hfile⟩

/-- Each record of the replayed index lies in its segment. -/
lemma enclosed_replay (h : Stored cfg guards ram d seg) : Enclosed cfg ram.gens ram.extent
    (QueueLog.replay SegmentRecord.sequence [] (locatedLog seg ram.gens)) := by
  intro r hr
  have hwrites : ∃ e ∈ locatedLog seg ram.gens, e.Writes r := by
    rcases QueueLog.mem_replay hr with hr | hr | hr
    · simp at hr
    · exact ⟨_, hr, .inl rfl⟩
    · exact ⟨_, hr, .inr rfl⟩
  obtain ⟨e, he, hw⟩ := hwrites
  obtain ⟨g, hg, hmem⟩ := List.mem_flatMap.1 he
  obtain ⟨hheader, hstop⟩ := locate_bounds hmem hw
  have hgen := located_writes hmem hw
  obtain ⟨-, hfits, -⟩ := h.file g hg
  refine ⟨located_fits hfits hmem hw, hgen ▸ hg, hheader, ?_⟩
  rw [hgen, h.extent g hg]
  exact hstop

/-- An object that has read the manifest and the logs takes the place of the one that wrote
them. -/
lemma taken (h : Stored cfg guards ram₀ d seg) (helect : Disk.elected d = some md)
    (hm : MountedAs files md seg ram)
    (hcounts : ∀ g < 2 ^ 32,
      ram.sealedSegmentBytes g = (d.lookup (segmentName g)).map fun data => u32 data.length) :
    Stored cfg guards ram d seg ∧ ram.manifestRanges = ram₀.manifestRanges ∧
      ram.activeGeneration = ram₀.activeGeneration := by
  obtain ⟨slot, md', ha⟩ := h.announced
  obtain rfl : md = md' := Option.some.inj (helect.symm.trans ha.published.elected)
  have hne : md.tailGeneration ≠ 0 := ha.tail ▸ h.sited.generations.tail_ne
  have hmd : md.gens = ram₀.gens := by
    rw [ManifestData.gens_eq hne, ha.ranges, ha.tail]
    rfl
  have hlast : md.gens.getLast? = some ram₀.activeGeneration := by
    rw [hmd]
    exact List.getLast?_concat
  have hactive : ram.activeGeneration = ram₀.activeGeneration := by
    rw [hm.active, hlast]
    rfl
  have hranges : ram.manifestRanges = ram₀.manifestRanges := hm.ranges.trans ha.ranges
  have hgens : ram.gens = ram₀.gens := Ram.gens_congr hranges hactive
  have hbytes : ram.activeSegmentBytes = ram₀.activeSegmentBytes := by
    rw [hm.bytes, hlast, h.bytes]
    rfl
  have hrecords : ram.records =
      QueueLog.replay SegmentRecord.sequence [] (locatedLog seg ram₀.gens) := by
    rw [hm.records, replayGens_records, hmd]
  have hlt : ∀ g ∈ ram₀.gens, g < 2 ^ 32 := fun g hg => h.sited.generations.gen_lt hg
  have hextent : ∀ g ∈ ram₀.gens, ram.extent g = ram₀.extent g := by
    intro g hg
    unfold Ram.extent
    rw [hactive, hbytes]
    by_cases htail : g = ram₀.activeGeneration
    · rw [if_pos htail, if_pos htail]
    · have hsize := h.size g hg
      have hseg := guards.segment_lt
      obtain ⟨-, -, startSeq, -, hfile⟩ := h.file g hg
      have hlen := length_segmentData g startSeq (seg g) []
      rw [if_neg htail, if_neg htail, ← Ram.extent_of_ne htail, h.extent g hg, hcounts g (hlt g hg),
        hfile, Option.map_some, Option.getD_some, hlen, List.length_nil, Nat.add_zero,
        u32_of_lt (by omega)]
  have hnext : md.nextGeneration ≤ ram.nextGeneration := by
    rw [hm.nextGeneration]
    exact (le_advanceGeneration ..).1
  have hgenerations : Generations ram := by
    obtain ⟨hvalid, hcount, hnodup, -, -, htail⟩ := h.sited.generations
    refine ⟨hranges ▸ hvalid, hranges ▸ hcount, hgens ▸ hnodup, ?_, ?_, hactive ▸ htail⟩
    · intro g hg
      exact (ha.below g (hgens ▸ hg)).trans_le hnext
    · rw [hm.nextGeneration]
      exact advanceGeneration_lt ha.published.valid.nextGeneration_lt
  refine ⟨⟨⟨hm.mounted, hgenerations, ?_, ?_, ?_, ?_⟩, ?_, ?_, ?_, ?_, ?_, h.canonical⟩, hranges,
    hactive⟩
  · rw [hm.gens, hmd, hgens]
  · intro g hg
    rw [hgens] at hg
    rw [hextent g hg]
    exact h.sited.extents g hg
  · intro g hg
    rw [hgens] at hg
    rw [hextent g hg]
    exact h.sited.held g hg
  · rw [hgens, hrecords]
    exact h.enclosed_replay.mono h.enclosed_replay.mem fun g hg => (hextent g hg).ge
  · refine ⟨slot, md, ha.published, ?_, hm.ranges.symm, ha.tail.trans hactive.symm,
      hgens ▸ ha.below⟩
    intro s hs
    rw [hm.cache] at hs
    cases hs
  · rw [hgens]
    exact h.file
  · intro g hg
    rw [hgens] at hg
    rw [hextent g hg]
    exact h.extent g hg
  · rw [hgens]
    exact h.size
  · have htotal : ram.manifest.totalGens = ram₀.manifest.totalGens := by
      rw [ManifestData.totalGens_eq, ManifestData.totalGens_eq, h.sited.manifest_gens,
        ManifestData.gens_eq hgenerations.tail_ne]
      exact congrArg List.length hgens
    rw [htotal]
    exact h.span

/-- What a new object is that has mounted the directory: it stands where the last one stood, with
the index that the logs replay to. -/
structure Takes (cfg : AppendLogConfig) (seg : ℕ → List LogEvent) (ram₀ ram : Ram) (d : Disk) :
    Prop where
  stored : Stored cfg guards ram d seg
  ranges : ram.manifestRanges = ram₀.manifestRanges
  active : ram.activeGeneration = ram₀.activeGeneration
  records : ram.records = QueueLog.replay SegmentRecord.sequence [] (locatedLog seg ram₀.gens)
  sequence_lt : ram.nextSequence < 2 ^ 32
  affected : ram.activeTailAffectedGenerations =
    (replayGens seg ram₀.gens {}).tailAffectedGens
  contents : ram.contents d = logContents (ram₀.gens.flatMap seg)

/-- **Mounting again.**  Nothing stands in the way of a new object. -/
theorem mount (h : Stored cfg guards ram₀ d seg) (hf : Frayed cfg ram₀ d torn w.disk)
    (hb : TailRecoverable env torn) {r : Except Status Unit}
    (he : Executes env noHarm A (Store.mount cfg) ram w r ram' w') :
    r = .ok () ∧ Takes cfg seg ram₀ ram' w'.disk ∧
      ∀ s : Slot, w'.disk.lookup s.fileName = w.disk.lookup s.fileName := by
  obtain ⟨hr, md, helect, hgens, hm, haffected, hdisk⟩ :=
    (h.wpc_mount hf (Z := True) (J := fun _ => True) trivial trivial).executes he
  have hmounted : Mounted w.disk ram' w'.disk := wp_mount_counts.sound he hr
  obtain ⟨hback, -, hslots₁, -⟩ := h.recovered hf hb
  generalize Disk.recoverTail env w.disk ram₀.activeGeneration (seg ram₀.activeGeneration) torn = d₁
    at hback hslots₁ hdisk
  obtain ⟨hcleaned, -, hslots, -⟩ :
      Stored cfg guards ram₀ (Disk.cleaned env (w.clock + 1) md.gens d₁) seg ∧ _ :=
    hback.cleaned hgens
  rw [← hdisk] at hcleaned hslots
  have helect' : Disk.elected w'.disk = some md := by
    rw [← helect]
    unfold Disk.elected Disk.manifest
    rw [hslots, hslots, hslots₁, hslots₁]
  obtain ⟨hstored, hranges, hactive⟩ :=
    hcleaned.taken helect' hm (hmounted.counts hf.canonical).1.segments
  have hrecords : ram'.records =
      QueueLog.replay SegmentRecord.sequence [] (locatedLog seg ram₀.gens) := by
    rw [hm.records, replayGens_records, hgens]
  refine ⟨hr, ⟨hstored, hranges, hactive, hrecords, hmounted.sequence_lt, hgens ▸ haffected, ?_⟩,
    fun s => (hslots s).trans (hslots₁ s)⟩
  unfold Ram.contents
  rw [hrecords]
  apply view_replay_locatedLog
  intro g hg
  obtain ⟨-, -, startSeq, -, hfile⟩ := hcleaned.file g hg
  exact ⟨_, [], length_serializeSegmentHeader .., hfile⟩

end Stored

namespace Synced

variable {env : Env} {cfg : AppendLogConfig} {A : StoreMark → Disk → Prop} {ram₀ ram ram' : Ram}
  {d d' : Disk} {w w' : World} {seg : ℕ → List LogEvent} {torn : Bytes}

/-- What takes the place of an object whose index is what the logs say has the same index. -/
lemma taken (h : Synced cfg guards ram₀ d seg) (ht : Stored.Takes cfg seg ram₀ ram d') :
    Synced cfg guards ram d' seg ∧ ram.records = ram₀.records := by
  have hrecords : ram.records = ram₀.records := ht.records.trans h.records.symm
  have hgens : ram.gens = ram₀.gens := Ram.gens_congr ht.ranges ht.active
  refine ⟨⟨⟨ht.stored, ?_, ?_, ?_⟩, ?_⟩, hrecords⟩
  · have henclosed := ht.stored.sited.enclosed
    rw [hrecords] at henclosed ⊢
    exact h.placed.mono henclosed
  · rw [hgens, hrecords]
    exact h.records
  · rw [hgens]
    exact h.ordered
  · rintro - e he s hs r hr
    rw [ht.active] at he
    rw [ht.ranges] at hr
    rw [ht.affected]
    exact replayGens_affected h.ordered he hs hr

/-- **Mounting again.**  A new object finds the records of the last one. -/
theorem mount (h : Synced cfg guards ram₀ d seg) (hf : Frayed cfg ram₀ d torn w.disk)
    (hb : TailRecoverable env torn) {r : Except Status Unit}
    (he : Executes env noHarm A (Store.mount cfg) ram w r ram' w') :
    r = .ok () ∧ Synced cfg guards ram' w'.disk seg ∧ ram'.seqs = ram₀.seqs ∧
      ram'.nextSequence < 2 ^ 32 ∧ ram'.contents w'.disk = ram₀.contents d := by
  obtain ⟨hr, ht, -⟩ := h.toStored.mount hf hb he
  obtain ⟨hsynced, hrecords⟩ := h.taken ht
  refine ⟨hr, hsynced, congrArg (List.map _) hrecords, ht.sequence_lt, ?_⟩
  rw [ht.contents, Ram.contents, h.records]
  symm
  apply view_replay_locatedLog
  intro g hg
  obtain ⟨-, -, startSeq, -, hfile⟩ := h.file g hg
  exact ⟨_, [], length_serializeSegmentHeader .., hfile⟩

/-- It exists. -/
lemma run_mount (h : Synced cfg guards ram₀ d seg) (hf : Frayed cfg ram₀ d torn w.disk)
    (hb : TailRecoverable env torn) : ∃ ram' w',
    Prog.run (handle env) (Store.mount cfg ram) w = some ((.ok (), ram'), w') ∧
      Synced cfg guards ram' w'.disk seg ∧ ram'.seqs = ram₀.seqs ∧
        ram'.contents w'.disk = ram₀.contents d := by
  obtain ⟨ram', w', hrun, -⟩ := @Stored.run_mount _ _ _ ram _ _ _ _ h.toStored hf hb
  obtain ⟨-, hsynced, hseqs, -, hcontents⟩ := h.mount hf hb (executes_of_run hrun)
  exact ⟨ram', w', hrun, hsynced, hseqs, hcontents⟩

end Synced

end Pqueue
