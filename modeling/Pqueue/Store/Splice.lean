import Pqueue.Store.Tail

/-!
# What a compaction does to the ranges

Pure facts about `compaction.cpp`: replacing a range in the manifest replaces its generations
(`rangeGens_spliceRanges`), the range count stays within the format's limit
(`length_spliceRanges_le`), and the plan's gates are what that needs (`Planned`).
-/

namespace Pqueue

open LittleEndian

/-! ## Splitting a list of generations -/

namespace CompactionRange

/-- The generations before the range. -/
def before (r : CompactionRange) (gens : List ℕ) : List ℕ := gens.takeWhile (· ≠ r.startGen)

/-- The generations after the range. -/
def after (r : CompactionRange) (gens : List ℕ) : List ℕ :=
  gens.drop ((r.before gens).length + r.gens.length)

lemma mem_gens {r : CompactionRange} {g : ℕ} : g ∈ r.gens ↔ r.Contains g := by
  rw [gens, List.mem_range'_1, Contains]
  omega

lemma gens_eq_cons {r : CompactionRange} (h : r.startGen ≤ r.endGen) :
    ∃ rest, r.gens = r.startGen :: rest := by
  have hn : r.endGen + 1 - r.startGen = r.endGen - r.startGen + 1 := by omega
  exact ⟨_, by rw [gens, hn, List.range'_succ]⟩

variable {r : CompactionRange} {P S : List ℕ}

lemma before_eq (h : r.startGen ≤ r.endGen) (hn : (P ++ r.gens ++ S).Nodup) :
    r.before (P ++ r.gens ++ S) = P := by
  obtain ⟨rest, hr⟩ := gens_eq_cons h
  have hP : ∀ g ∈ P, decide (g ≠ r.startGen) = true := by
    intro g hg
    rw [List.append_assoc, List.nodup_append, hr] at hn
    exact decide_eq_true (hn.2.2 g hg _ (List.mem_append_left _ (List.mem_cons_self ..)))
  rw [before, List.append_assoc, List.takeWhile_append_of_pos hP, hr, List.cons_append,
    List.takeWhile_cons_of_neg (by simp), List.append_nil]

lemma after_eq (h : r.startGen ≤ r.endGen) (hn : (P ++ r.gens ++ S).Nodup) :
    r.after (P ++ r.gens ++ S) = S := by
  rw [after, before_eq h hn]
  exact List.drop_left' (List.length_append ..)

end CompactionRange

/-! ## The range that contains a generation -/

/-- The generations of the ranges are distinct, so a generation lies in one range only. -/
lemma range_unique {ranges : List ManifestRange} (hn : (rangeGens ranges).Nodup) {i j g : ℕ}
    {r r' : ManifestRange} (hi : ranges[i]? = some r) (hj : ranges[j]? = some r') (hg : g ∈ r.gens)
    (hg' : g ∈ r'.gens) : i = j := by
  obtain ⟨hil, rfl⟩ := List.getElem?_eq_some_iff.1 hi
  obtain ⟨hjl, rfl⟩ := List.getElem?_eq_some_iff.1 hj
  have hp := (List.nodup_flatMap.1 hn).2
  rw [List.pairwise_iff_getElem] at hp
  by_contra hne
  rcases Nat.lt_or_gt_of_ne hne with h | h
  · exact hp i j hil hjl h hg hg'
  · exact hp j i hjl hil h hg' hg

lemma findParentRangeIdx_eq_some {ranges : List ManifestRange} {range : CompactionRange} {i : ℕ}
    (h : findParentRangeIdx ranges range = some i) :
    ∃ parent, ranges[i]? = some parent ∧ parent.startGen ≤ range.startGen ∧
      range.startGen ≤ range.endGen ∧ range.endGen ≤ parent.endGen := by
  rw [findParentRangeIdx] at h
  split at h
  · cases h
  · next hle =>
    obtain ⟨hi, hp, -⟩ := List.findIdx?_eq_some_iff_getElem.1 h
    have hp := of_decide_eq_true hp
    exact ⟨ranges[i], List.getElem?_eq_getElem hi, hp.1, not_lt.1 hle, hp.2⟩

/-! ## Splicing -/

section Splice

variable {ranges : List ManifestRange} {idx : ℕ} {parent out : ManifestRange}
  {input : CompactionRange}

/-- The ranges before and after the input: the remainders of its parent and the other ranges. -/
def rangesBefore (ranges : List ManifestRange) (idx : ℕ) (parent : ManifestRange)
    (input : CompactionRange) : List ManifestRange := ranges.take idx ++ leftRemainder parent input

def rangesAfter (ranges : List ManifestRange) (idx : ℕ) (parent : ManifestRange)
    (input : CompactionRange) : List ManifestRange :=
  rightRemainder parent input ++ ranges.drop (idx + 1)

/-- `input` is a part of the range `parent`, which is number `idx` of `ranges`. -/
structure PartOf (ranges : List ManifestRange) (idx : ℕ) (parent : ManifestRange)
    (input : CompactionRange) : Prop where
  get : ranges[idx]? = some parent
  start_le : parent.startGen ≤ input.startGen
  le : input.startGen ≤ input.endGen
  end_le : input.endGen ≤ parent.endGen

lemma PartOf.ranges_ne {ranges : List ManifestRange} {idx : ℕ} {parent : ManifestRange}
    {input : CompactionRange} (h : PartOf ranges idx parent input) : ranges ≠ [] := by
  rintro rfl
  simpa using h.get

lemma gens_leftRemainder (h : parent.startGen ≤ input.startGen) :
    rangeGens (leftRemainder parent input) =
      List.range' parent.startGen (input.startGen - parent.startGen) := by
  rw [leftRemainder]
  by_cases hl : input.startGen > parent.startGen
  · have hsub : input.startGen - 1 + 1 = input.startGen := by omega
    rw [hasLeft, if_pos (decide_eq_true hl), rangeGens_singleton, ManifestRange.gens]
    simp only [hsub]
  · have hsub : input.startGen - parent.startGen = 0 := by omega
    have hf : hasLeft parent input = false := decide_eq_false hl
    rw [hf, hsub]
    rfl

lemma gens_rightRemainder (h : input.endGen ≤ parent.endGen) :
    rangeGens (rightRemainder parent input) =
      List.range' (input.endGen + 1) (parent.endGen - input.endGen) := by
  rw [rightRemainder]
  by_cases hr : input.endGen < parent.endGen
  · have hsub : parent.endGen + 1 - (input.endGen + 1) = parent.endGen - input.endGen := by omega
    rw [hasRight, if_pos (decide_eq_true hr), rangeGens_singleton, ManifestRange.gens]
    simp only [hsub]
  · have hsub : parent.endGen - input.endGen = 0 := by omega
    have hf : hasRight parent input = false := decide_eq_false hr
    rw [hf, hsub]
    rfl

namespace PartOf

variable (h : PartOf ranges idx parent input)

include h

lemma gens_parent : parent.gens = rangeGens (leftRemainder parent input) ++ input.gens ++
    rangeGens (rightRemainder parent input) := by
  have h1 := h.start_le
  have h2 := h.le
  have h3 := h.end_le
  have e1 : parent.startGen + (input.startGen - parent.startGen) = input.startGen := by omega
  have e2 : input.startGen - parent.startGen + (input.endGen + 1 - input.startGen) =
      input.endGen + 1 - parent.startGen := by omega
  have e3 : parent.startGen + (input.endGen + 1 - parent.startGen) = input.endGen + 1 := by omega
  have e4 : input.endGen + 1 - parent.startGen + (parent.endGen - input.endGen) =
      parent.endGen + 1 - parent.startGen := by omega
  have hleft := @List.range'_append_1 parent.startGen (input.startGen - parent.startGen)
    (input.endGen + 1 - input.startGen)
  rw [e1, e2] at hleft
  have hright := @List.range'_append_1 parent.startGen (input.endGen + 1 - parent.startGen)
    (parent.endGen - input.endGen)
  rw [e3, e4] at hright
  rw [gens_leftRemainder h1, gens_rightRemainder h3, CompactionRange.gens, hleft, hright,
    ManifestRange.gens]

lemma idx_lt : idx < ranges.length := (List.getElem?_eq_some_iff.1 h.get).1

/-- The generations of the ranges, split at the input. -/
lemma gens_eq : rangeGens ranges = rangeGens (rangesBefore ranges idx parent input) ++ input.gens ++
    rangeGens (rangesAfter ranges idx parent input) := by
  obtain ⟨hlt, hget⟩ := List.getElem?_eq_some_iff.1 h.get
  have hsplit : ranges = ranges.take idx ++ parent :: ranges.drop (idx + 1) := by
    rw [← hget, List.getElem_cons_drop, List.take_append_drop]
  have hcons : rangeGens (parent :: ranges.drop (idx + 1)) =
      parent.gens ++ rangeGens (ranges.drop (idx + 1)) := rfl
  conv_lhs => rw [hsplit, rangeGens_append, hcons, h.gens_parent]
  simp only [rangesBefore, rangesAfter, rangeGens_append, List.append_assoc]

lemma mem (hv : ∀ r ∈ ranges, r.Valid) : parent.Valid := hv _ (List.mem_of_getElem? h.get)

lemma before_valid (hv : ∀ r ∈ ranges, r.Valid) :
    ∀ r ∈ rangesBefore ranges idx parent input, r.Valid := by
  intro r hr
  rcases List.mem_append.1 hr with hr | hr
  · exact hv r (List.mem_of_mem_take hr)
  · rw [leftRemainder] at hr
    split at hr
    · next hl =>
      have hl : input.startGen > parent.startGen := of_decide_eq_true hl
      obtain ⟨h0, hle, hlt⟩ := h.mem hv
      have := h.end_le
      have := h.le
      rw [List.mem_singleton.1 hr]
      exact ⟨h0, by simp only; omega, by simp only; omega⟩
    · cases hr

lemma after_valid (hv : ∀ r ∈ ranges, r.Valid) :
    ∀ r ∈ rangesAfter ranges idx parent input, r.Valid := by
  intro r hr
  rcases List.mem_append.1 hr with hr | hr
  · rw [rightRemainder] at hr
    split at hr
    · next hl =>
      have hl : input.endGen < parent.endGen := of_decide_eq_true hl
      rw [List.mem_singleton.1 hr]
      exact ⟨Nat.succ_ne_zero _, by simp only; omega, (h.mem hv).2.2⟩
    · cases hr
  · exact hv r (List.mem_of_mem_drop hr)

end PartOf

/-! ### Merging -/

lemma rangeGens_mergeLeft {before : List ManifestRange} (hb : ∀ r ∈ before, r.Valid)
    (he : ∀ r ∈ before, r.endGen + 1 < 2 ^ 32) (hout : out.startGen ≤ out.endGen) :
    rangeGens (mergeLeft before out) = rangeGens before ++ out.gens := by
  rw [mergeLeft]
  cases hl : before.getLast? with
  | none => simp only [List.getLast?_eq_none_iff.1 hl, rangeGens_singleton]; rfl
  | some last =>
    obtain ⟨pre, hpre⟩ := List.getLast?_eq_some_iff.1 hl
    have hmem : last ∈ before := List.mem_of_getLast? hl
    simp only
    split
    · next hm =>
      rw [u32_of_lt (he last hmem)] at hm
      have hs : last.startGen ≤ last.endGen + 1 := (hb last hmem).2.1.trans (Nat.le_succ _)
      rw [hpre, List.dropLast_concat, rangeGens_append, rangeGens_append, rangeGens_singleton,
        rangeGens_singleton, ← ManifestRange.gens_append hs (by omega), List.append_assoc, hm]
    · rw [rangeGens_append, rangeGens_singleton]

lemma valid_mergeLeft {before : List ManifestRange} (hb : ∀ r ∈ before, r.Valid)
    (he : ∀ r ∈ before, r.endGen + 1 < 2 ^ 32) (hout : out.Valid) :
    ∀ r ∈ mergeLeft before out, r.Valid := by
  intro r hr
  rw [mergeLeft] at hr
  cases hl : before.getLast? with
  | none =>
    rw [hl] at hr
    rw [List.mem_singleton.1 hr]
    exact hout
  | some last =>
    rw [hl] at hr
    have hmem : last ∈ before := List.mem_of_getLast? hl
    simp only at hr
    split at hr
    · next hm =>
      rw [u32_of_lt (he last hmem)] at hm
      rcases List.mem_append.1 hr with hr | hr
      · exact hb r (List.dropLast_subset _ hr)
      · obtain ⟨h0, hle, -⟩ := hb last hmem
        obtain ⟨-, hole, holt⟩ := hout
        rw [List.mem_singleton.1 hr]
        exact ⟨h0, by simp only; omega, holt⟩
    · rcases List.mem_append.1 hr with hr | hr
      · exact hb r hr
      · rw [List.mem_singleton.1 hr]
        exact hout

lemma length_mergeLeft_le (before : List ManifestRange) (out : ManifestRange) :
    (mergeLeft before out).length ≤ before.length + 1 := by
  rw [mergeLeft]
  cases hl : before.getLast? with
  | none => simp
  | some last =>
    simp only
    split
    · simp
    · simp

/-! ### The spliced ranges -/

/-- The output as a list of ranges. -/
def outputGens : Option ManifestRange → List ℕ
  | none => []
  | some out => out.gens

lemma spliceRanges_eq (output : Option ManifestRange) :
    spliceRanges ranges idx parent input output =
      match output with
      | none => rangesBefore ranges idx parent input ++ rangesAfter ranges idx parent input
      | some out =>
        match rangesAfter ranges idx parent input with
        | next :: rest =>
          if u32 (out.endGen + 1) = next.startGen then
            mergeLeft (rangesBefore ranges idx parent input) ⟨out.startGen, next.endGen⟩ ++ rest
          else mergeLeft (rangesBefore ranges idx parent input) out ++ next :: rest
        | [] => mergeLeft (rangesBefore ranges idx parent input) out := by
  cases output with
  | none => rfl
  | some out =>
    cases hafter : rangesAfter ranges idx parent input with
    | nil =>
      rw [rangesAfter] at hafter
      simp only [spliceRanges, hafter]
      rfl
    | cons next rest =>
      rw [rangesAfter] at hafter
      simp only [spliceRanges, hafter]
      rfl

variable (h : PartOf ranges idx parent input) (hv : ∀ r ∈ ranges, r.Valid)
  (he : ∀ r ∈ ranges, r.endGen + 1 < 2 ^ 32)

include h he in
lemma PartOf.before_end : ∀ r ∈ rangesBefore ranges idx parent input, r.endGen + 1 < 2 ^ 32 := by
  intro r hr
  rcases List.mem_append.1 hr with hr | hr
  · exact he r (List.mem_of_mem_take hr)
  · rw [leftRemainder] at hr
    split at hr
    · have := he parent (List.mem_of_getElem? h.get)
      have := h.end_le
      have := h.le
      rw [List.mem_singleton.1 hr]
      simp only
      omega
    · cases hr

include h hv he

/-- **Splicing** replaces the generations of the input by those of the output. -/
theorem rangeGens_spliceRanges {output : Option ManifestRange}
    (hout : ∀ out ∈ output, out.Valid ∧ out.endGen + 1 < 2 ^ 32) :
    rangeGens (spliceRanges ranges idx parent input output) =
      rangeGens (rangesBefore ranges idx parent input) ++ outputGens output ++
        rangeGens (rangesAfter ranges idx parent input) := by
  have hb := h.before_valid hv
  have hbe := h.before_end he
  have ha := h.after_valid hv
  rw [spliceRanges_eq]
  cases output with
  | none =>
    rw [outputGens, List.append_nil]
    exact rangeGens_append ..
  | some out =>
    obtain ⟨⟨-, hle, -⟩, hlt⟩ := hout out rfl
    rw [outputGens]
    cases hafter : rangesAfter ranges idx parent input with
    | nil =>
      simp only [rangeGens_mergeLeft hb hbe hle]
      exact (List.append_nil _).symm
    | cons next rest =>
      have hnext := (ha next (hafter ▸ List.mem_cons_self ..)).2.1
      have hcons : rangeGens (next :: rest) = next.gens ++ rangeGens rest := rfl
      simp only
      split
      · next hm =>
        rw [u32_of_lt hlt] at hm
        have hle' : (⟨out.startGen, next.endGen⟩ : ManifestRange).startGen ≤
            (⟨out.startGen, next.endGen⟩ : ManifestRange).endGen := by
          simp only
          omega
        have hmerge := @ManifestRange.gens_append out.startGen out.endGen next.endGen (by omega)
          (by omega)
        rw [hm] at hmerge
        rw [rangeGens_append, rangeGens_mergeLeft hb hbe hle', ← hmerge, hcons]
        simp only [List.append_assoc]
      · rw [rangeGens_append, rangeGens_mergeLeft hb hbe hle]

lemma valid_spliceRanges {output : Option ManifestRange}
    (hout : ∀ out ∈ output, out.Valid ∧ out.endGen + 1 < 2 ^ 32) :
    ∀ r ∈ spliceRanges ranges idx parent input output, r.Valid := by
  have hb := h.before_valid hv
  have hbe := h.before_end he
  have ha := h.after_valid hv
  intro r hr
  rw [spliceRanges_eq] at hr
  cases output with
  | none => exact (List.mem_append.1 hr).elim (hb r) (ha r)
  | some out =>
    obtain ⟨hov, hlt⟩ := hout out rfl
    cases hafter : rangesAfter ranges idx parent input with
    | nil =>
      rw [hafter] at hr
      exact valid_mergeLeft hb hbe hov r hr
    | cons next rest =>
      rw [hafter] at hr ha
      simp only at hr
      split at hr
      · next hm =>
        rw [u32_of_lt hlt] at hm
        obtain ⟨-, hnle, hnlt⟩ := ha next (List.mem_cons_self ..)
        have hv' : (⟨out.startGen, next.endGen⟩ : ManifestRange).Valid :=
          ⟨hov.1, by have := hov.2.1; simp only; omega, hnlt⟩
        rcases List.mem_append.1 hr with hr | hr
        · exact valid_mergeLeft hb hbe hv' r hr
        · exact ha r (List.mem_cons_of_mem _ hr)
      · rcases List.mem_append.1 hr with hr | hr
        · exact valid_mergeLeft hb hbe hov r hr
        · exact ha r hr

omit hv he

/-- How many ranges the splice can leave. -/
lemma length_spliceRanges_le (output : Option ManifestRange) :
    (spliceRanges ranges idx parent input output).length + 1 ≤ ranges.length +
      (hasLeft parent input).toNat + (hasRight parent input).toNat + output.isSome.toNat := by
  have hidx := h.idx_lt
  have hleft : (leftRemainder parent input).length = (hasLeft parent input).toNat := by
    rw [leftRemainder]
    cases hasLeft parent input <;> rfl
  have hright : (rightRemainder parent input).length = (hasRight parent input).toNat := by
    rw [rightRemainder]
    cases hasRight parent input <;> rfl
  have hb : (rangesBefore ranges idx parent input).length =
      idx + (hasLeft parent input).toNat := by
    rw [rangesBefore, List.length_append, hleft, List.length_take, Nat.min_eq_left hidx.le]
  have ha : (rangesAfter ranges idx parent input).length =
      (hasRight parent input).toNat + (ranges.length - (idx + 1)) := by
    rw [rangesAfter, List.length_append, hright, List.length_drop]
  rw [spliceRanges_eq]
  cases output with
  | none =>
    simp only [List.length_append, hb, ha, Option.isSome_none, Bool.toNat_false]
    omega
  | some out =>
    simp only [Option.isSome_some, Bool.toNat_true]
    cases hafter : rangesAfter ranges idx parent input with
    | nil =>
      have := length_mergeLeft_le (rangesBefore ranges idx parent input) out
      simp only
      omega
    | cons next rest =>
      rw [hafter, List.length_cons] at ha
      simp only
      split
      · have := length_mergeLeft_le (rangesBefore ranges idx parent input)
          ⟨out.startGen, next.endGen⟩
        rw [List.length_append]
        omega
      · have := length_mergeLeft_le (rangesBefore ranges idx parent input) out
        rw [List.length_append, List.length_cons]
        omega

end Splice

/-! ## The plan -/

/-- The generations a plan takes as its input, the tail included when it is sealed first. -/
def CompactionPlan.effective (plan : CompactionPlan) : CompactionRange :=
  if plan.rotates then plan.hypo else plan.input

/-- Facts about a plan that the phases after it rest on. -/
structure Planned (ram : Ram) (plan : CompactionPlan) (idx : ℕ) (parent : ManifestRange) :
    Prop where
  part : PartOf ram.manifestRanges idx parent plan.input
  hypo_start : plan.hypo.startGen = plan.input.startGen
  hypo_end : plan.hypo.endGen = plan.input.endGen ∨ plan.hypo.endGen = ram.activeGeneration
  /-- Without a rotation the new ranges fit. -/
  gate : plan.rotates = false → ram.manifestRanges.length + (hasLeft parent plan.input).toNat +
    (hasRight parent plan.input).toNat + (!(ram.liveIn plan.input).isEmpty).toNat ≤
      kManifestMaxRanges + 1
  /-- With a rotation the tail follows the input, which is at the end of the last range. -/
  rotation : plan.rotates = true → plan.hypo.endGen = ram.activeGeneration ∧
    ram.manifestRanges.getLast? = some parent ∧ plan.input.endGen = parent.endGen ∧
      u32 (parent.endGen + 1) = ram.activeGeneration ∧
        ram.manifestRanges.length + (hasLeft parent plan.input).toNat ≤ kManifestMaxRanges

lemma wouldRotate_eq_true {ram : Ram} {input : CompactionRange}
    (h : ram.wouldRotate input = true) : ∃ last, ram.manifestRanges.getLast? = some last ∧
      input.endGen = last.endGen ∧ u32 (last.endGen + 1) = ram.activeGeneration := by
  rw [Ram.wouldRotate] at h
  cases hl : ram.manifestRanges.getLast? with
  | none => rw [hl] at h; cases h
  | some last =>
    rw [hl] at h
    simp only [Bool.and_eq_true, decide_eq_true_eq] at h
    exact ⟨last, rfl, h.1.1.1.1, h.1.1.2⟩

/-- The whole parent is a part of itself, without remainders. -/
lemma PartOf.whole {ranges : List ManifestRange} {idx : ℕ} {parent : ManifestRange}
    {input : CompactionRange} (h : PartOf ranges idx parent input) :
    PartOf ranges idx parent ⟨parent.startGen, parent.endGen⟩ :=
  ⟨h.get, le_rfl, h.start_le.trans (h.le.trans h.end_le), le_rfl⟩

lemma hasLeft_whole (parent : ManifestRange) :
    hasLeft parent ⟨parent.startGen, parent.endGen⟩ = false := decide_eq_false (lt_irrefl _)

lemma hasRight_whole (parent : ManifestRange) :
    hasRight parent ⟨parent.startGen, parent.endGen⟩ = false := decide_eq_false (lt_irrefl _)

/-- The range-count gate lets through a part of the parent whose compaction fits. -/
lemma gatedRange_eq_some {ram : Ram} {idx : ℕ} {parent : ManifestRange}
    {range gated : CompactionRange} {fb : AllowFullRangeFallback}
    (hp : PartOf ram.manifestRanges idx parent range)
    (hlen : ram.manifestRanges.length ≤ kManifestMaxRanges)
    (h : ram.gatedRange parent range fb = some gated) :
    PartOf ram.manifestRanges idx parent gated ∧ ram.manifestRanges.length +
      (hasLeft parent gated).toNat + (hasRight parent gated).toNat +
        (!(ram.liveIn gated).isEmpty).toNat ≤ kManifestMaxRanges + 1 := by
  unfold Ram.gatedRange at h
  split at h
  · cases fb with
    | no => cases h
    | yes =>
      obtain rfl := Option.some.inj h
      refine ⟨hp.whole, ?_⟩
      rw [hasLeft_whole, hasRight_whole]
      have := Bool.toNat_le (!(ram.liveIn ⟨parent.startGen, parent.endGen⟩).isEmpty)
      simp only [Bool.toNat_false]
      omega
  · next hgate =>
    obtain rfl := Option.some.inj h
    refine ⟨hp, ?_⟩
    rw [Ram.gateDelta] at hgate
    cases hlive : ram.liveIn range with
    | nil =>
      rw [hlive] at hgate
      cases hL : hasLeft parent range <;> cases hR : hasRight parent range <;>
        simp [hL, hR] at hgate ⊢ <;> omega
    | cons r rs =>
      rw [hlive] at hgate
      cases hL : hasLeft parent range <;> cases hR : hasRight parent range <;>
        simp [hL, hR] at hgate ⊢ <;> omega

/-- **What a plan promises.** -/
theorem planned_of_planCompaction {cfg : AppendLogConfig} {ram : Ram} {range : CompactionRange}
    {fb : AllowFullRangeFallback} {plan : CompactionPlan}
    (hn : (rangeGens ram.manifestRanges).Nodup) (hv : ∀ r ∈ ram.manifestRanges, r.Valid)
    (hlen : ram.manifestRanges.length ≤ kManifestMaxRanges)
    (h : ram.planCompaction cfg range fb = some plan) :
    ∃ idx parent, Planned ram plan idx parent := by
  simp only [Ram.planCompaction, Option.bind_eq_bind, Option.bind_eq_some_iff] at h
  obtain ⟨idx, hidx, parent, hparent, gated, hgated, input, hinput, hplan⟩ := h
  obtain ⟨parent', hget, h1, h2, h3⟩ := findParentRangeIdx_eq_some hidx
  obtain rfl : parent' = parent := Option.some.inj (hget.symm.trans hparent)
  obtain ⟨hpart, hgate⟩ := gatedRange_eq_some ⟨hget, h1, h2, h3⟩ hlen hgated
  rw [if_pos (by by_contra hw; rw [if_neg hw] at hplan; cases hplan)] at hplan
  obtain rfl := Option.some.inj hplan
  -- when the tail would be sealed, the parent is the last range
  have hlast : ram.wouldRotate gated = true → ram.manifestRanges.getLast? = some parent' ∧
      gated.endGen = parent'.endGen ∧ u32 (parent'.endGen + 1) = ram.activeGeneration := by
    intro hrot
    obtain ⟨last, hl, hend, hact⟩ := wouldRotate_eq_true hrot
    have hlget : ram.manifestRanges[ram.manifestRanges.length - 1]? = some last := by
      rw [← List.getLast?_eq_getElem?, hl]
    have hlmem := hv last (List.mem_of_getLast? hl)
    have heq := range_unique hn hget hlget (g := last.endGen)
      (ManifestRange.mem_gens.2 ⟨hend ▸ (hpart.start_le.trans hpart.le), hend ▸ hpart.end_le⟩)
      (ManifestRange.mem_gens.2 ⟨hlmem.2.1, le_rfl⟩)
    obtain rfl : parent' = last := Option.some.inj (hget.symm.trans (heq ▸ hlget))
    exact ⟨hl, hend, hact⟩
  have hhypo : (ram.hypoRange input (ram.wouldRotate gated)).endGen = input.endGen ∨
      (ram.hypoRange input (ram.wouldRotate gated)).endGen = ram.activeGeneration := by
    rw [Ram.hypoRange]
    cases ram.wouldRotate gated
    · exact .inl rfl
    · exact .inr rfl
  -- the second gate either keeps the range or takes the whole parent
  unfold Ram.rotationGate at hinput
  split at hinput
  · next hsecond =>
    simp only [Bool.and_eq_true] at hsecond
    cases fb with
    | no => cases hinput
    | yes =>
      obtain rfl := Option.some.inj hinput
      refine ⟨idx, parent', hpart.whole, rfl, hhypo, fun _ => ?_, fun hrot => ?_⟩
      · rw [hasLeft_whole, hasRight_whole]
        have := Bool.toNat_le (!(ram.liveIn ⟨parent'.startGen, parent'.endGen⟩).isEmpty)
        simp only [Bool.toNat_false]
        omega
      · simp only [Bool.and_eq_true] at hrot
        obtain ⟨hl, hend, hact⟩ := hlast hrot.1
        refine ⟨?_, hl, rfl, hact, ?_⟩
        · rw [Ram.hypoRange, if_pos hrot.1]
        · rw [hasLeft_whole]
          exact hlen
  · next hsecond =>
    obtain rfl := Option.some.inj hinput
    refine ⟨idx, parent', hpart, rfl, hhypo, fun _ => hgate, fun hrot => ?_⟩
    simp only [Bool.and_eq_true] at hrot
    obtain ⟨hl, hend, hact⟩ := hlast hrot.1
    refine ⟨?_, hl, hend, hact, ?_⟩
    · rw [Ram.hypoRange, if_pos hrot.1]
    · cases hL : hasLeft parent' gated with
      | false => exact hlen
      | true =>
        have hrot2 := hrot.2
        rw [hrot.1] at hsecond hrot2
        rw [hL, hrot2] at hsecond
        simpa using hsecond

end Pqueue
