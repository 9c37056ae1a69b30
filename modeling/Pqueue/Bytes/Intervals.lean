import Mathlib.Algebra.Ring.Nat
import Mathlib.Order.Interval.Finset.Nat
import Mathlib.Algebra.BigOperators.Group.List.Basic

/-!
# Intervals that do not overlap

Half-open intervals of natural numbers, given by their ends.  When no two of them overlap, their
lengths add up to no more than the length of the interval they lie in.
-/

namespace Intervals

/-- One interval ends before the other begins. -/
def Apart (i j : ℕ × ℕ) : Prop := i.2 ≤ j.1 ∨ j.2 ≤ i.1

/-- The numbers that lie in some interval of the list. -/
def cover : List (ℕ × ℕ) → Finset ℕ
  | [] => ∅
  | i :: is => Finset.Ico i.1 i.2 ∪ cover is

lemma mem_cover {is : List (ℕ × ℕ)} {x : ℕ} :
    x ∈ cover is ↔ ∃ i ∈ is, i.1 ≤ x ∧ x < i.2 := by
  induction is with
  | nil => simp [cover]
  | cons i is ih => simp [cover, ih]

lemma card_cover {is : List (ℕ × ℕ)} (h : is.Pairwise Apart) :
    (cover is).card = (is.map fun i => i.2 - i.1).sum := by
  induction is with
  | nil => rfl
  | cons i is ih =>
    obtain ⟨hi, hrest⟩ := List.pairwise_cons.1 h
    have hdis : Disjoint (Finset.Ico i.1 i.2) (cover is) := by
      refine Finset.disjoint_left.2 fun x hx hc => ?_
      obtain ⟨j, hj, h1, h2⟩ := mem_cover.1 hc
      have hx := Finset.mem_Ico.1 hx
      rcases hi j hj with h | h
      · omega
      · omega
    rw [cover, Finset.card_union_of_disjoint hdis, Nat.card_Ico, ih hrest, List.map_cons,
      List.sum_cons]

/-- The total length of intervals that lie apart in `[lo, hi)`. -/
theorem sum_length_le {is : List (ℕ × ℕ)} {lo hi : ℕ} (h : is.Pairwise Apart)
    (hin : ∀ i ∈ is, lo ≤ i.1 ∧ i.2 ≤ hi) : (is.map fun i => i.2 - i.1).sum ≤ hi - lo := by
  rw [← card_cover h, ← Nat.card_Ico]
  refine Finset.card_le_card fun x hx => ?_
  obtain ⟨i, hi, h1, h2⟩ := mem_cover.1 hx
  obtain ⟨hlo, hhi⟩ := hin i hi
  exact Finset.mem_Ico.2 ⟨hlo.trans h1, h2.trans_le hhi⟩

end Intervals
