import Pqueue.Store.Indexed

/-!
# The tail knows what it depends on

The tail-dependency guard lets a compaction seal the tail into its input only when the tail notes no
segment before the input.  For this the tail has to note every segment whose records its events pop
or rewrite (`Synced`).  Then a compaction whose input is `Clear` is separable: what no sealed
segment of the input does, the tail does not do either.
-/

namespace Pqueue

open Effect LittleEndian

/-- The sequence that an event pops or rewrites. -/
def LogEvent.touched (e : LogEvent) : Option ℕ := e.popped.or e.rewritten

lemma touched_located (gen offset : ℕ) (e : LogEvent) :
    (e.located gen offset).touched SegmentRecord.sequence = e.touched := by
  cases e <;> rfl

/-! ## Compactions whose input is clear -/

/-- The sealed segments of the input of a planned compaction are independent of the segments before
it: none has an event on a record that is open there. -/
structure Clear (cfg : AppendLogConfig) (d : Disk) (ram : Ram) (plan : CompactionPlan) : Prop where
  touched : ∀ g ∈ plan.input.gens, ∀ e ∈ Disk.logged cfg d g, ∀ s ∈ e.touched,
    s ∉ Disk.openBefore cfg d ram.gens plan.input
  rewritten : RewrittenAbove cfg d ram plan

instance (cfg : AppendLogConfig) (d : Disk) (ram : Ram) (plan : CompactionPlan) :
    Decidable (Clear cfg d ram plan) :=
  decidable_of_iff ((∀ g ∈ plan.input.gens, ∀ e ∈ Disk.logged cfg d g, ∀ s ∈ e.touched,
      s ∉ Disk.openBefore cfg d ram.gens plan.input) ∧ RewrittenAbove cfg d ram plan)
    ⟨fun h => ⟨h.1, h.2⟩, fun h => ⟨h.touched, h.rewritten⟩⟩

/-- What a compaction that is asked for plans, if anything, is clear. -/
def ClearAt (cfg : AppendLogConfig) : StoreMark → Disk → Prop
  | .compactRange ram range fallback, d =>
    ∀ plan ∈ ram.planCompaction cfg range fallback, Clear cfg d ram plan
  | _, _ => True

instance (cfg : AppendLogConfig) : (mk : StoreMark) → (d : Disk) → Decidable (ClearAt cfg mk d)
  | .compactRange .., _ => inferInstanceAs (Decidable (∀ plan ∈ _, _))
  | .allocate _, _ | .publish .., _ | .append .., _ | .pack _, _ => .isTrue trivial

/-- The tail-dependency guard: a tail is sealed into the input only when its events reach into no
segment before the input. -/
lemma guard_of_planCompaction {cfg : AppendLogConfig} {ram : Ram} {range : CompactionRange}
    {fallback : AllowFullRangeFallback} {plan : CompactionPlan}
    (h : ram.planCompaction cfg range fallback = some plan) (hrot : plan.rotates = true) :
    ram.activeTailDependenciesTracked = true ∧ ∀ gen ∈ ram.activeTailAffectedGenerations,
      plan.input.startGen ≤ gen ∧ gen ≤ ram.activeGeneration := by
  simp only [Ram.planCompaction, Option.bind_eq_bind, Option.bind_eq_some_iff] at h
  obtain ⟨idx, hidx, parent, hparent, gated, hgated, input, hinput, hplan⟩ := h
  obtain ⟨parent', hget, hstart, -⟩ := findParentRangeIdx_eq_some hidx
  obtain rfl : parent' = parent := Option.some.inj (hget.symm.trans hparent)
  split at hplan
  swap
  · cases hplan
  obtain rfl := Option.some.inj hplan
  simp only [Bool.and_eq_true] at hrot
  have hguard := hrot.1
  unfold Ram.wouldRotate at hguard
  split at hguard
  · cases hguard
  · simp only [Bool.and_eq_true, decide_eq_true_eq, List.all_eq_true] at hguard
    obtain ⟨⟨-, htracked⟩, hall⟩ := hguard
    refine ⟨htracked, fun gen hgen => ⟨?_, (hall gen hgen).2⟩⟩
    -- the gates keep the start of the range or widen it to the start of its parent
    have hgate : gated.startGen = range.startGen ∨ gated.startGen = parent'.startGen := by
      unfold Ram.gatedRange at hgated
      split at hgated
      · cases fallback with
        | no => cases hgated
        | yes =>
          obtain rfl := Option.some.inj hgated
          exact .inr rfl
      · obtain rfl := Option.some.inj hgated
        exact .inl rfl
    have hle := (hall gen hgen).1
    unfold Ram.rotationGate at hinput
    split at hinput
    · cases fallback with
      | no => cases hinput
      | yes =>
        obtain rfl := Option.some.inj hinput
        rcases hgate with hgate | hgate
        · exact hstart.trans (hgate ▸ hle)
        · exact hgate ▸ hle
    · obtain rfl := Option.some.inj hinput
      exact hle

/-! ## Objects whose tail knows its dependencies -/

/-- The index is the replay of the logs, and the tail knows the sealed segments whose records its
events popped or rewrote. -/
structure Synced (cfg : AppendLogConfig) (lim : Limits) (ram : Ram) (d : Disk)
    (seg : ℕ → List LogEvent) : Prop extends Indexed cfg lim ram d seg where
  affected : ram.activeTailDependenciesTracked = true → ∀ e ∈ seg ram.activeGeneration, ∀ s,
    e.touched = some s → ∀ r, QueueLog.live SegmentRecord.sequence
      (locatedLog seg (rangeGens ram.manifestRanges)) s none = some r →
        r.segmentGeneration ∈ ram.activeTailAffectedGenerations

namespace Synced

variable {cfg : AppendLogConfig} {lim : Limits} {harm : FsCall → Disk → Disk → Prop}
  {A : StoreMark → Disk → Prop} {ram ram' : Ram} {d d' : Disk} {seg : ℕ → List LogEvent}

/-- What leaves the members and the logs alone. -/
lemma frame (h : Synced cfg lim ram d seg) (hs : Stored cfg lim ram' d' seg)
    (hc : ram'.core = ram.core) : Synced cfg lim ram' d' seg := by
  have hcore := SameCore.of_core hc
  refine ⟨h.toIndexed.frame hs hc, ?_⟩
  rw [hcore.tracked, hcore.active, hcore.ranges, hcore.affected]
  exact h.affected

/-- A segment is opened: the new tail has no events. -/
lemma opened (h : Synced cfg lim ram d seg) (hA : ∀ mk d, A mk d → Within lim mk)
    {ranges : List ManifestRange} {startSeq epoch : ℕ} {slot : Slot}
    (ho : Opens noHarm A ram d ranges startSeq slot epoch) (n : ℕ) :
    Synced cfg lim (ram.opened ranges slot epoch n) (Disk.opened d ram ranges startSeq slot epoch)
      (Function.update seg ram.nextGeneration []) := by
  refine ⟨h.toIndexed.opened hA ho n, ?_⟩
  intro _ e he
  have hnil : Function.update seg ram.nextGeneration [] ram.nextGeneration = [] :=
    Function.update_self ..
  rw [show (ram.opened ranges slot epoch n).activeGeneration = ram.nextGeneration from rfl, hnil]
    at he
  cases he

/-! ### Logging -/

section Logging

variable {e : LogEvent}

lemma tracked_logged (ram : Ram) (e : LogEvent) :
    (ram.logged e).activeTailDependenciesTracked = ram.activeTailDependenciesTracked := by
  cases e <;> rfl

lemma affected_logged {g : ℕ} (hg : g ∈ ram.activeTailAffectedGenerations) :
    g ∈ (ram.logged e).activeTailAffectedGenerations := by
  have haffect : ∀ gen, g ∈ (ram.affect gen).activeTailAffectedGenerations := by
    intro gen
    unfold Ram.affect
    split
    · exact List.mem_insert_of_mem hg
    · exact hg
  cases e with
  | enqueue => exact hg
  | rewrite | pop => exact haffect _

/-- The tail notes the segment whose record an event pops or rewrites. -/
lemma noted (hl : Loggable cfg ram e) (htracked : ram.activeTailDependenciesTracked = true) {s : ℕ}
    (hs : e.touched = some s) {r : SegmentRecord}
    (hr : QueueLog.find SegmentRecord.sequence ram.records s = some r) :
    r.segmentGeneration ∈ (ram.logged e).activeTailAffectedGenerations := by
  have haffect : r.segmentGeneration ∈
      (ram.affect r.segmentGeneration).activeTailAffectedGenerations := by
    unfold Ram.affect
    rw [if_pos htracked]
    exact List.mem_insert_self
  cases e with
  | enqueue => cases hs
  | rewrite sequence payload =>
    obtain rfl : sequence = s := Option.some.inj hs
    have hfind : ram.records.find? (fun r => r.sequence = sequence) = some r := hr
    simp only [Ram.logged, hfind]
    exact haffect
  | pop sequence =>
    obtain rfl : sequence = s := Option.some.inj hs
    obtain ⟨front, hfront, hseq⟩ := hl
    have hrfront : r = front := by
      cases hrs : ram.records with
      | nil =>
        rw [hrs] at hfront
        cases hfront
      | cons x xs =>
        rw [hrs] at hfront hr
        obtain rfl := Option.some.inj hfront
        rw [QueueLog.find_cons, if_pos hseq] at hr
        exact (Option.some.inj hr).symm
    simp only [Ram.logged, hfront]
    rw [← hrfront]
    exact haffect

/-- An event is logged. -/
lemma logged (h : Synced cfg lim ram d seg) (hl : Loggable cfg ram e)
    (hle : ram.activeSegmentBytes + e.encode.length ≤ lim.segment) {old : Bytes}
    (hold : d.lookup (segmentName ram.activeGeneration) = some old) (hram : ram' = ram.logged e)
    (hd : d' = d.insert (segmentName ram.activeGeneration)
      (overwrite old ram.activeSegmentBytes e.encode)) :
    Synced cfg lim ram' d' (Function.update seg ram.activeGeneration
      (seg ram.activeGeneration ++ [e])) := by
  have hindexed := h.toIndexed.logged hl hle hold hram hd
  subst hram
  obtain ⟨-, hactive⟩ := Stored.logged_fields ram e
  have hranges : (ram.logged e).manifestRanges = ram.manifestRanges := by cases e <;> rfl
  refine ⟨hindexed, fun htracked e' he' s hs' r hr => ?_⟩
  rw [hactive, Function.update_self] at he'
  rw [tracked_logged] at htracked
  have hsealed : locatedLog (Function.update seg ram.activeGeneration
      (seg ram.activeGeneration ++ [e])) (rangeGens (ram.logged e).manifestRanges) =
        locatedLog seg (rangeGens ram.manifestRanges) := by
    rw [hranges]
    apply locatedLog_congr
    intro g hg
    apply Function.update_of_ne
    intro he
    exact h.coherent.generations.tail_not_sealed (he ▸ hg)
  rw [hsealed] at hr
  by_cases hbefore : ∃ e₀ ∈ seg ram.activeGeneration, e₀.touched = some s
  · obtain ⟨e₀, he₀, ht⟩ := hbefore
    exact affected_logged (h.affected htracked e₀ he₀ s ht r hr)
  · have heq : e' = e := (List.mem_append.1 he').elim
      (fun hm => absurd ⟨e', hm, hs'⟩ hbefore) List.mem_singleton.1
    subst heq
    -- the tail has no event on `s` yet, so the record is the live one
    have hall := h.ordered
    rw [Ram.gens, locatedLog_append] at hall
    have hnone := QueueLog.last_eq_none_of_untouched hall (k := s) (by rw [hr]; rfl) (by
      intro el hel ht
      obtain ⟨g, hg, ev, hev, offset, rfl⟩ := exists_of_mem_locatedLog hel
      obtain rfl := List.mem_singleton.1 hg
      rw [touched_located] at ht
      exact hbefore ⟨ev, hev, ht⟩)
    apply noted hl htracked hs'
    rw [h.records, QueueLog.find_replay h.ordered, Ram.gens, locatedLog_append,
      QueueLog.live_append, QueueLog.live, hnone]
    exact hr

end Logging

/-! ### Compacting -/

section Compacting

variable {ram₀ : Ram} {d₀ : Disk} {plan : CompactionPlan} {idx : ℕ} {parent : ManifestRange}
  {input : CompactionRange} {live : List CompactionLiveRecord} {out : List OutputSeg} {slot : Slot}
  {epoch n : ℕ} {seg' : ℕ → List LogEvent}

lemma prepared (h : Synced cfg lim ram₀ d₀ seg) (hA : ∀ mk d, A mk d → Within lim mk)
    (hp : Prepared cfg noHarm A ram₀ d₀ plan ram d) : ∃ seg', Synced cfg lim ram d seg' ∧
      (∀ g ∈ ram₀.gens, seg' g = seg g) ∧ ram.records = ram₀.records := by
  cases hp with
  | asIs => exact ⟨seg, h, fun _ _ => rfl, rfl⟩
  | rotated _ ho hn =>
    have hsealed := h.frame h.toStored.noteSealed rfl
    refine ⟨_, hsealed.opened hA ho _, fun g hg => Function.update_of_ne ?_ _ _, rfl⟩
    exact h.coherent.gen_ne hg le_rfl


/-- The events of a tail that is sealed into the input of a clear compaction are not about what is
open before the input either: the guard has looked where they reach. -/
lemma tail_apart (h : Synced cfg lim ram d seg) (hclear : Clear cfg d ram plan)
    (htracked : ram.activeTailDependenciesTracked = true)
    (hguard : ∀ gen ∈ ram.activeTailAffectedGenerations,
      gen ∉ plan.input.before ram.gens)
    (hsealed : rangeGens ram.manifestRanges = plan.input.before ram.gens ++ plan.input.gens)
    {e : LogEvent} (he : e ∈ seg ram.activeGeneration) {s : ℕ} (hs : e.touched = some s) :
    QueueLog.live SegmentRecord.sequence (locatedLog seg (plan.input.before ram.gens)) s none =
      none := by
  cases hr : QueueLog.live SegmentRecord.sequence
      (locatedLog seg (plan.input.before ram.gens)) s none with
  | none => rfl
  | some r =>
    have hsplit : plan.input.before ram.gens ++ (plan.input.gens ++ [ram.activeGeneration]) =
        ram.gens := by
      rw [← List.append_assoc, ← hsealed]
      rfl
    have hopen := (h.mem_open hsplit (s := s)).2 (by rw [hr]; rfl)
    have hordered := h.ordered
    rw [Ram.gens, locatedLog_append, hsealed, locatedLog_append] at hordered
    -- no sealed segment of the input has an event on the record, so it is still where it was
    have hnone := QueueLog.last_eq_none_of_untouched (QueueLog.ordered_append.1 hordered).1
      (k := s) (by rw [hr]; rfl) fun el hel ht => by
        obtain ⟨g, hg, ev, hev, offset, rfl⟩ := exists_of_mem_locatedLog hel
        rw [touched_located] at ht
        rw [← (h.file g (hsplit ▸
          List.mem_append_right _ (List.mem_append_left _ hg))).logged] at hev
        exact hclear.touched g hg ev hev s ht hopen
    have hreach := h.affected htracked e he s hs r (by
      rw [hsealed, locatedLog_append, QueueLog.live_append, QueueLog.live, hnone]
      exact hr)
    exact absurd (live_gen_mem hr) (hguard _ hreach)

/-- The input of a compaction that is clear is independent of the logs before it. -/
lemma detached (h₀ : Synced cfg lim ram₀ d₀ seg) (h : Indexed cfg lim ram d seg')
    (hkeep : ∀ g ∈ ram₀.gens, seg' g = seg g) (hrecords : ram.records = ram₀.records)
    (hclear : ∀ mk d, A mk d → ClearAt cfg mk d)
    (hc : Compacts cfg harm A ram₀ d₀ plan ram d idx parent input live out) :
    QueueLog.Detached SegmentRecord.sequence (locatedLog seg' (input.before ram.gens))
      (locatedLog seg' input.gens) (locatedLog seg' (input.after ram.gens)) := by
  have hg₀ := h₀.coherent.generations
  have hg := h.coherent.generations
  obtain ⟨range, fallback, hmark, hplan⟩ := hc.planned
  have hclear : Clear cfg d₀ ram₀ plan := hclear _ _ hmark plan hplan
  constructor
  · intro e he s hs
    obtain ⟨g, hmem, ev, hev, offset, rfl⟩ := exists_of_mem_locatedLog he
    rw [touched_located] at hs
    obtain ⟨hmem₀, hplanned | ⟨hrot, rfl⟩⟩ := hc.input_cases hg₀ hg hmem
    · rw [h₀.input_eq h hkeep hc hmem] at hev
      by_contra hne
      exact hclear.touched g hplanned ev hev s hs
        (h₀.mem_openBefore hkeep hc (Option.isSome_iff_ne_none.2 hne))
    · obtain ⟨htracked, hguard⟩ := guard_of_planCompaction hplan hrot
      rw [hkeep _ hmem₀] at hev
      rw [h₀.before_eq hkeep hc]
      apply h₀.tail_apart hclear htracked _ (hc.sealed_eq hg₀ hg hrot) hev hs
      intro gen hgen hbef
      obtain ⟨last, -, -, -, hparent, -⟩ := hc.rotated hg₀ hrot
      have hin : gen ∈ input.gens := by
        rw [CompactionRange.mem_gens, hc.input_eq, hrot, hparent]
        exact hguard gen hgen
      exact hg.input_not_kept hc.part hin (List.mem_append_left _ (hc.before_eq hg₀ ▸ hbef))
  · intro r hput hlast s hs
    exact h₀.above h hkeep hrecords hc hclear.rewritten hput hlast hs

/-- The output takes the place of an input that is independent of the logs before it. -/
lemma compacted (h₀ : Coherent cfg ram₀ d₀) (h : Synced cfg lim ram d seg)
    (hA : ∀ mk d, A mk d → Within lim mk)
    (hdet : QueueLog.Detached SegmentRecord.sequence (locatedLog seg (input.before ram.gens))
      (locatedLog seg input.gens) (locatedLog seg (input.after ram.gens)))
    (hc : Compacts cfg harm A ram₀ d₀ plan ram d idx parent input live out)
    (hpub : A (.publish epoch (ram.compactionAt 0 idx parent input out)) (Disk.writeAll d out))
    (hr : Removed harm input.gens
      ((ram.wroteAll out).published slot
        (ram.compactionAt (u32 (epoch + 1)) idx parent input out) n)
      (Disk.publish (Disk.writeAll d out) slot
        (ram.compactionAt (u32 (epoch + 1)) idx parent input out)) ram' d')
    (ht : ram.Targets noHarm d slot epoch) :
    Synced cfg lim ((ram'.forgetInput input).moveRecords input
      (out.flatMap OutputSeg.locations)) d' (outputLogs out seg) := by
  obtain ⟨-, hw⟩ := h.toStored.compacted h₀.toSited hA hc hpub hr ht
  obtain ⟨hcompact, -⟩ := h.compactable hdet.separable hc
  have ha := hr.afterCompaction
  have hg := h.coherent.generations
  have hkeep : ∀ gens, (∀ g ∈ gens, g ∈ input.before ram.gens ++ input.after ram.gens) →
      locatedLog (outputLogs out seg) gens = locatedLog seg gens := fun gens hsub =>
    locatedLog_congr fun g hg => outputLogs_of_not_mem (hw.kept (hsub g hg)).2.2
  have hnew := hc.locatedLog_output h.sited.enclosed.fits hw.size seg
  refine ⟨h.toIndexed.compacted h₀ hA hdet.separable hc hpub hr ht,
    fun htracked e he s hs r hr' => ?_⟩
  -- the tail's events are after the input, so their records have no new location
  have hcore := SameCore.of_core hr.core
  have hwrote := SameCore.of_core (core_wroteAll ram out)
  have hactive : ((ram'.forgetInput input).moveRecords input
      (out.flatMap OutputSeg.locations)).activeGeneration = ram.activeGeneration := ha.active
  have htail : ram.activeGeneration ∈ input.after ram.gens := by
    rw [hg.after_gens hc.part]
    exact List.mem_append_right _ (List.mem_singleton_self _)
  rw [hactive, outputLogs_of_not_mem (hw.kept (List.mem_append_right _ htail)).2.2] at he
  have hfind : QueueLog.find SegmentRecord.sequence
      (out.flatMap OutputSeg.locations) s = none := by
    obtain ⟨offset, hloc⟩ := exists_mem_locate ram.activeGeneration
      kSegmentHeaderBytes he
    have hmem : e.located ram.activeGeneration offset ∈ locatedLog seg (input.after ram.gens) :=
      List.mem_flatMap.2 ⟨_, htail, hloc⟩
    by_contra hne
    obtain ⟨-, -, hnone⟩ := (hcompact.keys s).1 (Option.isSome_iff_ne_none.2 hne)
    exact QueueLog.last_ne_none_of_touched hmem ((touched_located ..).trans hs) hnone
  have hsealed : rangeGens ((ram'.forgetInput input).moveRecords input
      (out.flatMap OutputSeg.locations)).manifestRanges = input.before ram.gens ++
        out.map OutputSeg.gen ++ rangeGens (rangesAfter ram.manifestRanges idx parent input) := by
    have hgens := hw.gens
    rw [Ram.gens, hactive, hg.after_gens hc.part, ← List.append_assoc] at hgens
    exact List.append_cancel_right hgens
  have hold : rangeGens ram.manifestRanges = input.before ram.gens ++ input.gens ++
      rangeGens (rangesAfter ram.manifestRanges idx parent input) := by
    rw [hg.before_gens hc.part, hc.part.gens_eq]
  have hsub : ∀ g ∈ rangeGens (rangesAfter ram.manifestRanges idx parent input),
      g ∈ input.after ram.gens := fun g hmem => by
    rw [hg.after_gens hc.part]
    exact List.mem_append_left _ hmem
  rw [hsealed, locatedLog_append, locatedLog_append, hnew,
    hkeep _ fun g hg => List.mem_append_left _ hg,
    hkeep _ fun g hg => List.mem_append_right _ (hsub g hg)] at hr'
  obtain ⟨hlive, el, hel, hwr⟩ :=
    hdet.live_kept hcompact.ordered_through hcompact.sorted hfind hr'
  have hmem : r.segmentGeneration ∈ ram.activeTailAffectedGenerations := by
    apply h.affected _ e he s hs r
    · rw [hold, locatedLog_append, locatedLog_append]
      exact hlive
    · exact (hcore.tracked.trans hwrote.tracked).symm.trans htracked
  have hout : r.segmentGeneration ∉ input.gens := by
    intro hin
    rcases List.mem_append.1 hel with hel | hel
    · exact hg.input_not_kept hc.part hin (List.mem_append_left _ (locatedLog_writes hel hwr))
    · exact hg.input_not_kept hc.part hin
        (List.mem_append_right _ (hsub _ (locatedLog_writes hel hwr)))
  apply List.mem_filter.2
  constructor
  · rw [hcore.affected]
    exact hwrote.affected ▸ hmem
  · simpa [CompactionRange.mem_gens] using hout

end Compacting

/-- The first segment is opened. -/
lemma first {ranges : List ManifestRange} {startSeq epoch : ℕ} {slot : Slot} (hb : Blank ram)
    (hu : Unpublished ram d) (hcan : Canonical d) (hA : ∀ mk d, A mk d → Within lim mk)
    (ho : Opens noHarm A ram d ranges startSeq slot epoch) (n : ℕ) :
    Synced cfg lim (ram.opened ranges slot epoch n) (Disk.opened d ram ranges startSeq slot epoch)
      fun _ => [] :=
  ⟨Indexed.first hb hu hcan hA ho n, fun _ _ he => absurd he List.not_mem_nil⟩

/-- **One move** without failures keeps the index and what the tail knows, when its compaction is
clear. -/
theorem move {evs : List LogEvent} (hA : ∀ mk d, A mk d → Within lim mk)
    (hclear : ∀ mk d, A mk d → ClearAt cfg mk d) (h : Synced cfg lim ram d seg)
    (hm : Move cfg noHarm A ram d evs ram' d') : ∃ seg', Synced cfg lim ram' d' seg' := by
  cases hm with
  | lock hlock => exact ⟨seg, h.frame (h.toStored.lock hlock) rfl⟩
  | noteSealed => exact ⟨seg, h.frame h.toStored.noteSealed rfl⟩
  | wrote hg hlt hmark =>
    exact ⟨seg, h.frame (h.toStored.wrote hg hlt _ _ _) (core_trackWrite ..)⟩
  | opened ho hn => exact ⟨_, h.opened hA ho _⟩
  | logged hl hopen hmark hold => exact ⟨_, h.logged hl (hA _ _ hmark) hold rfl rfl⟩
  | compacted hc ht hn hmark hr =>
    obtain ⟨seg', h', hkeep, hrecords⟩ := h.prepared hA hc.prepared
    exact ⟨_, h'.compacted h.coherent hA (h.detached h'.toIndexed hkeep hrecords hclear hc) hc hmark
      hr ht⟩
  | writeFailed _ _ hharm => exact hharm.elim
  | openFailed _ hharm => exact hharm.elim
  | logFailed _ _ _ hharm => exact hharm.elim
  | compactFailed _ _ _ hharm => exact hharm.elim

end Synced

end Pqueue
