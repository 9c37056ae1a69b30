import Pqueue.Bytes.Checked
import Pqueue.Outbox.Outbox
import Mathlib.Tactic.Ring
import Mathlib.Tactic.GCongr

/-!
# Retry delays

`computeRetryDelay` once more, in the arithmetic in which an operation that loses a bit has no
result.  It always has one, whatever the random callback answers, and it is what the program
computes.
-/

namespace Pqueue

open Effect LittleEndian

namespace Outbox

/-- The configured maximum and jitter are words of their widths.  Of the other members nothing is
needed. -/
structure DelayWords (cfg : OutboxConfig) : Prop where
  max : cfg.maxRetryDelayMs < 2 ^ 32
  pct : cfg.jitterPct < 2 ^ 8

/-! ## The checked computation -/

/-- The doubling loop, with the 8-bit counter `i` and the 64-bit `v`; `n` rounds are left. -/
def checkedDoubled (maxMs : ℕ) : ℕ → ℕ → ℕ → Option ℕ
  | 0, _, v => some v
  | n + 1, i, v =>
    if v < maxMs then do
      let v ← Checked.mul 64 v 2
      let i ← Checked.add 8 i 1
      checkedDoubled maxMs n i v
    else some v

def checkedBaseDelay (cfg : OutboxConfig) (exponent serverHintMs : ℕ) : Option ℕ :=
  if serverHintMs > 0 then
    some (if serverHintMs < cfg.maxRetryDelayMs then serverHintMs else cfg.maxRetryDelayMs)
  else do
    let v ← checkedDoubled cfg.maxRetryDelayMs exponent 0 cfg.initialRetryDelayMs
    if v < cfg.maxRetryDelayMs then Checked.fits 32 v else some cfg.maxRetryDelayMs

def checkedJittered (cfg : OutboxConfig) (base jitterRange sample : ℕ) : Option ℕ :=
  if sample < jitterRange then if sample < base then Checked.sub base sample else some 0
  else do
    let add ← Checked.sub sample jitterRange
    let room ← Checked.sub cfg.maxRetryDelayMs base
    if add ≤ room then Checked.add 32 base add else some cfg.maxRetryDelayMs

/-- The conversion to 32 bits that stops at the largest word. -/
def saturated (n : ℕ) : Option ℕ :=
  if n > 2 ^ 32 - 1 then some (2 ^ 32 - 1) else Checked.fits 32 n

/-- `rand` is the random callback at the time of the call; it is asked at most once. -/
def checkedRetryDelay (cfg : OutboxConfig) (exponent serverHintMs : ℕ) (rand : ℕ → ℕ) :
    Option ℕ := do
  let base ← checkedBaseDelay cfg exponent serverHintMs
  if cfg.hasRand = false ∨ cfg.jitterPct = 0 ∨ base = 0 then some base
  else
    let jitterRange64 := (← Checked.mul 64 base cfg.jitterPct) / 100
    if jitterRange64 = 0 then some base
    else
      let jitterRange ← saturated jitterRange64
      let randRange64 ← Checked.mul 64 jitterRange 2
      let randRange ← saturated randRange64
      checkedJittered cfg base jitterRange (rand randRange)

/-! ## The delay before jitter -/

section

variable {cfg : OutboxConfig} {exponent serverHintMs base jitterRange sample maxMs : ℕ}

/-- The loop never doubles a value of 2³² or more, and its counter stays below the exponent. -/
lemma checkedDoubled_eq (hmax : maxMs < 2 ^ 32) {n i v : ℕ} (hi : i + n < 2 ^ 8) :
    checkedDoubled maxMs n i v = some (doubled maxMs n v) := by
  induction n generalizing i v with
  | zero => rfl
  | succ n ih =>
    unfold checkedDoubled doubled
    by_cases hv : v < maxMs
    · rw [if_pos hv, if_pos hv, Checked.mul_eq (by omega), Checked.add_eq (by omega)]
      exact ih (by omega)
    · rw [if_neg hv, if_neg hv]

/-- Stopping early does not matter below the maximum. -/
lemma min_doubled (maxMs n v : ℕ) : min (doubled maxMs n v) maxMs = min (v * 2 ^ n) maxMs := by
  induction n generalizing v with
  | zero => simp [doubled]
  | succ n ih =>
    unfold doubled
    by_cases hv : v < maxMs
    · rw [if_pos hv, ih, Nat.pow_succ']
      ring_nf
    · have hle : v ≤ v * 2 ^ (n + 1) := Nat.le_mul_of_pos_right v (Nat.two_pow_pos (n + 1))
      rw [if_neg hv, Nat.min_eq_right (Nat.not_lt.1 hv),
        Nat.min_eq_right ((Nat.not_lt.1 hv).trans hle)]

/-- The delay before jitter, as the documentation has it. -/
lemma baseDelay_eq (cfg : OutboxConfig) (exponent serverHintMs : ℕ) :
    baseDelay cfg exponent serverHintMs =
      if 0 < serverHintMs then min cfg.maxRetryDelayMs serverHintMs
      else min cfg.maxRetryDelayMs (cfg.initialRetryDelayMs * 2 ^ exponent) := by
  unfold baseDelay
  by_cases hhint : 0 < serverHintMs
  · rw [if_pos hhint, if_pos hhint]
    split <;> omega
  · rw [if_neg hhint, if_neg hhint, Nat.min_comm cfg.maxRetryDelayMs, ← min_doubled]
    dsimp only
    split <;> omega

lemma baseDelay_le (cfg : OutboxConfig) (exponent serverHintMs : ℕ) :
    baseDelay cfg exponent serverHintMs ≤ cfg.maxRetryDelayMs := by
  rw [baseDelay_eq]
  split <;> omega

lemma baseDelay_mono (cfg : OutboxConfig) (serverHintMs : ℕ) :
    Monotone fun exponent => baseDelay cfg exponent serverHintMs := by
  intro e e' hle
  dsimp only
  rw [baseDelay_eq, baseDelay_eq]
  by_cases hhint : 0 < serverHintMs
  · rw [if_pos hhint, if_pos hhint]
  · rw [if_neg hhint, if_neg hhint]
    gcongr
    decide

lemma checkedBaseDelay_eq (hcfg : DelayWords cfg) (hexponent : exponent < 2 ^ 8) :
    checkedBaseDelay cfg exponent serverHintMs = some (baseDelay cfg exponent serverHintMs) := by
  have hmax := hcfg.max
  unfold checkedBaseDelay baseDelay
  by_cases hhint : serverHintMs > 0
  · rw [if_pos hhint, if_pos hhint]
  · rw [if_neg hhint, if_neg hhint, checkedDoubled_eq hmax (by omega)]
    dsimp only [Option.bind_eq_bind, Option.bind_some]
    split
    · exact Checked.fits_eq (by omega)
    · rfl

/-! ## Jitter -/

lemma saturated_eq (n : ℕ) : saturated n = some (min n (2 ^ 32 - 1)) := by
  unfold saturated
  split
  · rw [Nat.min_eq_right (by omega)]
  · rw [Checked.fits_eq (by omega), Nat.min_eq_left (by omega)]

/-- No operation on a sample wraps, even when it lies outside the range that was asked for. -/
lemma checkedJittered_eq (hcfg : DelayWords cfg) (hbase : base ≤ cfg.maxRetryDelayMs) :
    checkedJittered cfg base jitterRange sample = some (jittered cfg base jitterRange sample) := by
  have hmax := hcfg.max
  unfold checkedJittered jittered
  by_cases hsample : sample < jitterRange
  · rw [if_pos hsample, if_pos hsample]
    split
    · exact Checked.sub_eq (by omega)
    · rfl
  · have hroom : subU32 cfg.maxRetryDelayMs base = cfg.maxRetryDelayMs - base := by
      unfold subU32 u32
      omega
    rw [if_neg hsample, if_neg hsample, Checked.sub_eq (by omega), Checked.sub_eq hbase, hroom]
    dsimp only [Option.bind_eq_bind, Option.bind_some]
    split
    · rw [Checked.add_eq (by omega), u32_of_lt (by omega)]
    · rfl

lemma jittered_le (hcfg : DelayWords cfg) (hbase : base ≤ cfg.maxRetryDelayMs) :
    jittered cfg base jitterRange sample ≤ cfg.maxRetryDelayMs := by
  have hmax := hcfg.max
  unfold jittered
  dsimp only
  split
  · split <;> omega
  · unfold subU32 u32
    split <;> omega

/-- A sample of at most twice the jitter moves the delay by at most the jitter. -/
lemma jittered_near (hcfg : DelayWords cfg) (hbase : base ≤ cfg.maxRetryDelayMs)
    (hsample : sample ≤ jitterRange * 2) :
    jittered cfg base jitterRange sample ≤ base + jitterRange ∧
      base ≤ jittered cfg base jitterRange sample + jitterRange := by
  have hmax := hcfg.max
  unfold jittered
  dsimp only
  split
  · split <;> omega
  · unfold subU32 u32
    split <;> omega

end

/-! ## The program -/

section

variable {S : Type} (h : Prog.Handler OutboxIo S) {cfg : OutboxConfig} {exponent : ℕ}
  (serverHintMs : ℕ) (s : OutboxState) (w : S)

/-- The random callback of an environment. -/
def randOf (w : S) (range : ℕ) : ℕ := (h (.rand range) w).1

/-- The program computes the delay, and nothing is lost on the way. -/
lemma run_computeRetryDelay (hcfg : DelayWords cfg) (hexponent : exponent < 2 ^ 8) :
    ∃ delay w', checkedRetryDelay cfg exponent serverHintMs (randOf h w) = some delay ∧
      Prog.run h (computeRetryDelay cfg exponent serverHintMs s) w =
        some ((.ok delay, s), w') ∧
      (cfg.hasRand = false ∨ cfg.jitterPct = 0 → delay = baseDelay cfg exponent serverHintMs) ∧
      (delay = baseDelay cfg exponent serverHintMs ∨ ∃ jitterRange,
        jitterRange ≤ baseDelay cfg exponent serverHintMs * cfg.jitterPct / 100 ∧
        delay = jittered cfg (baseDelay cfg exponent serverHintMs) jitterRange
          (randOf h w (min (jitterRange * 2) (2 ^ 32 - 1)))) := by
  set base := baseDelay cfg exponent serverHintMs with hbase
  have hle : base ≤ cfg.maxRetryDelayMs := baseDelay_le cfg exponent serverHintMs
  have hmax := hcfg.max
  have hpct := hcfg.pct
  -- a 32-bit delay times an 8-bit share stays far below 64 bits
  have hproduct : base * cfg.jitterPct < 2 ^ 64 :=
    calc base * cfg.jitterPct ≤ 2 ^ 32 * 2 ^ 8 := Nat.mul_le_mul (by omega) (by omega)
      _ < 2 ^ 64 := by decide
  unfold checkedRetryDelay computeRetryDelay
  rw [checkedBaseDelay_eq hcfg hexponent, ← hbase]
  dsimp only [Option.bind_eq_bind, Option.bind_some]
  by_cases hoff : cfg.hasRand = false ∨ cfg.jitterPct = 0 ∨ base = 0
  · rw [if_pos hoff, if_pos hoff]
    exact ⟨base, w, rfl, rfl, fun _ => rfl, .inl rfl⟩
  rw [if_neg hoff, if_neg hoff, Checked.mul_eq hproduct]
  dsimp only [Option.bind_some]
  have hon : ¬(cfg.hasRand = false ∨ cfg.jitterPct = 0) := by
    simp only [not_or] at hoff ⊢
    exact ⟨hoff.1, hoff.2.1⟩
  set jitterRange64 := base * cfg.jitterPct / 100 with hrange
  by_cases hzero : jitterRange64 = 0
  · rw [if_pos hzero, if_pos hzero]
    exact ⟨base, w, rfl, rfl, fun _ => rfl, .inl rfl⟩
  rw [if_neg hzero, if_neg hzero]
  set jitterRange := min jitterRange64 (2 ^ 32 - 1) with hjitter
  rw [saturated_eq, ← hjitter]
  dsimp only [Option.bind_some]
  rw [Checked.mul_eq (by omega)]
  dsimp only [Option.bind_some]
  rw [saturated_eq]
  dsimp only [Option.bind_some]
  rw [checkedJittered_eq hcfg hle]
  exact ⟨_, _, rfl, rfl, fun hno => absurd hno hon, .inr ⟨jitterRange, by omega, rfl⟩⟩

/-- **Retry delay arithmetic.**  In every environment no operation wraps, the delay is at most the
maximum, without jitter it is the documented one and grows with the exponent, and a random value
in the requested range moves it by at most the configured share. -/
theorem computeRetryDelay_safe (hcfg : DelayWords cfg) (hexponent : exponent < 2 ^ 8) :
    ∃ delay w', Prog.run h (computeRetryDelay cfg exponent serverHintMs s) w =
        some ((.ok delay, s), w') ∧
      checkedRetryDelay cfg exponent serverHintMs (randOf h w) = some delay ∧
      delay ≤ cfg.maxRetryDelayMs ∧
      (cfg.hasRand = false ∨ cfg.jitterPct = 0 →
        (delay = if 0 < serverHintMs then min cfg.maxRetryDelayMs serverHintMs
          else min cfg.maxRetryDelayMs (cfg.initialRetryDelayMs * 2 ^ exponent)) ∧
        ∀ exponent' < 2 ^ 8, exponent ≤ exponent' → ∃ delay' w'',
          Prog.run h (computeRetryDelay cfg exponent' serverHintMs s) w =
            some ((.ok delay', s), w'') ∧ delay ≤ delay') ∧
      ((∀ range, randOf h w range ≤ range) →
        let base := baseDelay cfg exponent serverHintMs
        delay ≤ base + base * cfg.jitterPct / 100 ∧
          base ≤ delay + base * cfg.jitterPct / 100) := by
  have hle := baseDelay_le cfg exponent serverHintMs
  obtain ⟨delay, w', hchecked, hrun, hoff, hvalue⟩ :=
    run_computeRetryDelay h serverHintMs s w hcfg hexponent
  refine ⟨delay, w', hrun, hchecked, ?_, fun hno => ⟨?_, fun exponent' hexponent' hmono => ?_⟩,
    fun hrand => ?_⟩
  · rcases hvalue with rfl | ⟨jitterRange, -, rfl⟩
    · exact hle
    · exact jittered_le hcfg hle
  · rw [hoff hno, baseDelay_eq]
  · obtain ⟨delay', w'', -, hrun', hoff', -⟩ :=
      run_computeRetryDelay h serverHintMs s w hcfg hexponent'
    refine ⟨delay', w'', hrun', ?_⟩
    rw [hoff hno, hoff' hno]
    exact baseDelay_mono cfg serverHintMs hmono
  · dsimp only
    rcases hvalue with rfl | ⟨jitterRange, hshare, rfl⟩
    · omega
    · have hsample := (hrand (min (jitterRange * 2) (2 ^ 32 - 1))).trans (Nat.min_le_left _ _)
      obtain ⟨hhigh, hlow⟩ := jittered_near hcfg hle hsample
      omega

end

/-- Callbacks of which the random one answers with the end of the range it is asked for. -/
def lastOfRange : Prog.Handler OutboxIo Unit
  | .rand range, w => (range, w)
  | .statsResult, w | .clock, w => (default, w)
  | .peek, w => (.ok [], w)
  | .pop, w | .enqueue _, w => (.ok (), w)
  | .send _ _, w => ({}, w)
  | .emit _, w => ((), w)

/-- The largest words, where both ranges stop at 32 bits. -/
theorem computeRetryDelay_safe_largest :
    let cfg : OutboxConfig :=
      { initialRetryDelayMs := 2 ^ 32 - 1, maxRetryDelayMs := 2 ^ 32 - 1, jitterPct := 255,
        hasRand := true }
    ∃ delay, checkedRetryDelay cfg 255 0 (randOf lastOfRange ()) = some delay ∧
      delay ≤ 2 ^ 32 - 1 ∧ 2 ^ 32 - 1 ≤ delay + (2 ^ 32 - 1) * 255 / 100 := by
  intro cfg
  obtain ⟨delay, w', -, hchecked, hmax, -, hnear⟩ :=
    computeRetryDelay_safe lastOfRange 0 {} () (show DelayWords cfg from ⟨by decide, by decide⟩)
      (show 255 < 2 ^ 8 by decide)
  have hbase : baseDelay cfg 255 0 = 2 ^ 32 - 1 := by
    rw [baseDelay_eq]
    decide
  obtain ⟨-, hlow⟩ := hnear fun _ => Nat.le_refl _
  rw [hbase] at hlow
  exact ⟨delay, hchecked, hmax, hlow⟩

end Outbox

end Pqueue
