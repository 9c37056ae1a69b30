import Mathlib.Algebra.Ring.Nat
import Mathlib.Algebra.Order.Floor.Div
import Mathlib.Algebra.Order.Group.Nat

/-!
# Restarting windows

A limiter that counts in windows.  A window begins with the first time admitted after the last
window is over and admits at most `cap` times; nothing says when windows begin, so an interval of
time can meet one more of them than its length suggests.
-/

namespace RateWindow

variable {width cap : ℕ}

/-- The times that have been admitted, in order, with the current window: where it begins and how
many times it holds. -/
inductive Admitted (width cap : ℕ) : List ℕ → Option (ℕ × ℕ) → Prop
  | none : Admitted width cap [] none
  /-- A window begins. -/
  | restart {times window now} (h : Admitted width cap times window) (hcap : 0 < cap)
      (hover : ∀ start count, window = some (start, count) → start + width ≤ now) :
      Admitted width cap (times ++ [now]) (some (now, 1))
  /-- The window goes on. -/
  | more {times start count now} (h : Admitted width cap times (some (start, count)))
      (hstart : start ≤ now) (hnow : now < start + width) (hcount : count < cap) :
      Admitted width cap (times ++ [now]) (some (start, count + 1))

/-- The times from `x` on, below `y`. -/
def within (x y : ℕ) (times : List ℕ) : ℕ := times.countP fun t => x ≤ t ∧ t < y

@[simp] lemma within_nil (x y : ℕ) : within x y [] = 0 := rfl

lemma within_snoc (x y now : ℕ) (times : List ℕ) :
    within x y (times ++ [now]) = within x y times + if x ≤ now ∧ now < y then 1 else 0 := by
  simp [within, List.countP_append, List.countP_singleton]

/-- A window later, the number of windows begun since `x` is one more. -/
lemma ceilDiv_succ_le (hwidth : 0 < width) {x start now : ℕ} (hx : x < start + width)
    (hnow : start + width ≤ now) :
    (start - x) ⌈/⌉ width + 1 ≤ (now - x) ⌈/⌉ width := by
  have hcover : now - x ≤ width * ((now - x) ⌈/⌉ width) := le_smul_ceilDiv hwidth
  have hpos : 0 < (now - x) ⌈/⌉ width := by
    by_contra hzero
    have hz : (now - x) ⌈/⌉ width = 0 := by omega
    rw [hz] at hcover
    omega
  have hprev : (start - x) ⌈/⌉ width ≤ (now - x) ⌈/⌉ width - 1 := by
    rw [ceilDiv_le_iff_le_mul hwidth, Nat.mul_sub, Nat.mul_one]
    omega
  omega

/-- Every window but the last is full at most, and begins at least a width before the next. -/
lemma Admitted.within_le {times : List ℕ} {start count : ℕ}
    (h : Admitted width cap times (some (start, count))) (hwidth : 0 < width) (x y : ℕ) :
    (x < start + width → within x y times ≤ cap * ((start - x) ⌈/⌉ width) + count) ∧
      (start + width ≤ x → within x y times = 0) ∧ count ≤ cap := by
  generalize hwindow : some (start, count) = window at h
  induction h generalizing start count with
  | none => simp at hwindow
  | @restart times window now h hcap hover ih =>
    simp only [Option.some.injEq, Prod.mk.injEq] at hwindow
    obtain ⟨rfl, rfl⟩ := hwindow
    rw [within_snoc]
    cases window with
    | none =>
      cases h
      refine ⟨fun _ => ?_, fun hx => ?_, hcap⟩
      · split <;> simp
      · simp
        omega
    | some last =>
      obtain ⟨s, k⟩ := last
      obtain ⟨hbefore, hnone, hk⟩ := ih rfl
      have hover := hover s k rfl
      refine ⟨fun _ => ?_, fun hx => ?_, hcap⟩
      · have hold : within x y times ≤ cap * ((start - x) ⌈/⌉ width) := by
          by_cases hx : x < s + width
          · calc within x y times ≤ cap * ((s - x) ⌈/⌉ width) + k := hbefore hx
              _ ≤ cap * ((s - x) ⌈/⌉ width + 1) := by rw [Nat.mul_add]; omega
              _ ≤ cap * ((start - x) ⌈/⌉ width) :=
                Nat.mul_le_mul_left cap (ceilDiv_succ_le hwidth hx hover)
          · rw [hnone (by omega)]
            exact Nat.zero_le _
        split <;> omega
      · rw [hnone (by omega), if_neg (by omega)]
  | @more times s k now h hs hnow hk ih =>
    simp only [Option.some.injEq, Prod.mk.injEq] at hwindow
    obtain ⟨rfl, rfl⟩ := hwindow
    obtain ⟨hbefore, hnone, -⟩ := ih rfl
    rw [within_snoc]
    refine ⟨fun hx => ?_, fun hx => ?_, hk⟩
    · have hold := hbefore hx
      split <;> omega
    · rw [hnone hx, if_neg (by omega)]

lemma mul_ceilDiv_add_le (hwidth : 0 < width) {elapsed length count : ℕ} (he : elapsed ≤ length)
    (hcount : count ≤ cap) :
    cap * (elapsed ⌈/⌉ width) + count ≤ cap * (length ⌈/⌉ width + 1) := by
  have hceil : elapsed ⌈/⌉ width ≤ length ⌈/⌉ width := by
    rw [ceilDiv_le_iff_le_mul hwidth]
    exact he.trans (le_smul_ceilDiv hwidth)
  calc cap * (elapsed ⌈/⌉ width) + count ≤ cap * (length ⌈/⌉ width) + cap :=
        Nat.add_le_add (Nat.mul_le_mul_left cap hceil) hcount
    _ = cap * (length ⌈/⌉ width + 1) := (Nat.mul_succ ..).symm

/-- In `length` units of time at most `cap` times for each window that fits, and for one more. -/
theorem Admitted.within_interval_le {times : List ℕ} {window : Option (ℕ × ℕ)}
    (h : Admitted width cap times window) (hwidth : 0 < width) (x length : ℕ) :
    within x (x + length) times ≤ cap * (length ⌈/⌉ width + 1) := by
  induction h with
  | none => simp
  | @restart times window now h hcap hover ih =>
    by_cases hin : x ≤ now ∧ now < x + length
    · have hall := ((Admitted.restart h hcap hover).within_le hwidth x (x + length)).1 (by omega)
      exact hall.trans (mul_ceilDiv_add_le hwidth (by omega) hcap)
    · rw [within_snoc, if_neg hin]
      exact ih
  | @more times start count now h hstart hnow hcount ih =>
    by_cases hin : x ≤ now ∧ now < x + length
    · have hall := ((Admitted.more h hstart hnow hcount).within_le hwidth x
        (x + length)).1 (by omega)
      exact hall.trans (mul_ceilDiv_add_le hwidth (by omega) hcount)
    · rw [within_snoc, if_neg hin]
      exact ih

end RateWindow
