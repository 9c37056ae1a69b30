import Pqueue.Outbox.Outbox
import Pqueue.Program.Trial
import Pqueue.Program.RateWindow

/-!
# The drain rate

How often the outbox sends while it drains.  Nothing is assumed of the queue, the sender and the
random numbers; the clock does not go back.  The window the outbox keeps is a window of
`RateWindow`, of a second, and so is every state between the recording of an attempt and its send.
-/

namespace Pqueue

open Effect LittleEndian Outbox

/-! ## Sends and their times -/

/-- What the clock said last, and when a drain has sent. -/
structure Timed where
  now : ℕ := 0
  sends : List ℕ := []

/-- A send takes place at the time the clock has said last. -/
def timed : Prog.Outcomes OutboxIo Timed
  | .clock, w, r, w' => w.now ≤ r ∧ r < 2 ^ 64 ∧ w' = { w with now := r }
  | .send .., w, _, w' => w' = { w with sends := w.sends ++ [w.now] }
  | _, w, _, w' => w' = w

/-- `m` runs from one state to another. -/
def Takes {α : Type} (m : OutboxM α) (s : OutboxState) (w : Timed) (s' : OutboxState) (w' : Timed) :
    Prop :=
  ∃ a, Prog.Exec timed (fun _ _ => True) (m s) w (.ok a, s') w'

/-- The runs of an outbox.  The live sends of a submission are not sends of a drain. -/
inductive TimedRun (cfg : OutboxConfig) : OutboxState → Timed → Prop
  | start : TimedRun cfg {} {}
  | submit {s w payload s' w'} (h : TimedRun cfg s w) (he : Takes (submit cfg payload) s w s' w') :
      TimedRun cfg s' { w' with sends := w.sends }
  | drain {s w s' w'} (h : TimedRun cfg s w) (he : Takes (drain cfg) s w s' w') :
      TimedRun cfg s' w'
  | drainUpTo {s w maxDrainAttempts s' w'} (h : TimedRun cfg s w)
      (he : Takes (drainUpTo cfg maxDrainAttempts) s w s' w') : TimedRun cfg s' w'

/-! ## Rules -/

/-- From `P`, whatever the callbacks answer, `m` ends in `Q`. -/
def Leads {α : Type} (P : OutboxState → Timed → Prop) (m : OutboxM α)
    (Q : OutboxState → Timed → Prop) : Prop :=
  ∀ s w, P s w → Act.wp timed (fun _ _ => True) (fun _ => True) m (fun _ s' w' => Q s' w') s w

namespace Leads

variable {α β : Type} {P Q R : OutboxState → Timed → Prop}

lemma takes {m : OutboxM α} {s s' : OutboxState} {w w' : Timed} (h : Leads P m Q)
    (he : Takes m s w s' w') (hP : P s w) : Q s' w' := by
  obtain ⟨a, he⟩ := he
  exact Prog.wp_sound (h s w hP) he

lemma keep {a : α} : Leads P (Pure.pure a : OutboxM α) P := fun _ _ h => h

lemma bind {m : OutboxM α} {f : α → OutboxM β} (hm : Leads P m R) (hf : ∀ a, Leads R (f a) Q) :
    Leads P (m >>= f) Q := by
  intro s w hP
  refine Act.wp_bind_mono (hm s w hP) ?_ ?_
  · intro a s' w' hR
    exact hf a s' w' hR
  · intro e
    exact e.elim

lemma get {f : OutboxState → OutboxM α} (h : ∀ s₀, Leads (fun s w => s = s₀ ∧ P s w) (f s₀) Q) :
    Leads P (Outbox.get >>= f) Q := fun s w hP => h s s w ⟨rfl, hP⟩

lemma modify {g : OutboxState → OutboxState} (h : ∀ s w, P s w → Q (g s) w) :
    Leads P (Outbox.modify g) Q := h

lemma perform {c : OutboxCall} (h : ∀ s w r w', P s w → timed c w r w' → Q s w') :
    Leads P (Outbox.perform c) Q := fun s w hP => ⟨trivial, fun r w' hr => h s w r w' hP hr⟩

lemma mono {m : OutboxM α} {P' : OutboxState → Timed → Prop} (h : Leads P m Q)
    (hP : ∀ s w, P' s w → P s w) : Leads P' m Q := fun s w h' => h s w (hP s w h')

/-- A call that is neither to the clock nor to the sender. -/
lemma other {c : OutboxCall} (hclock : c ≠ .clock) (hsend : ∀ p a, c ≠ .send p a) :
    Leads P (Outbox.perform c) P := by
  refine perform fun s w r w' hP hr => ?_
  cases c with
  | clock => exact absurd rfl hclock
  | send p a => exact absurd rfl (hsend p a)
  | statsResult | peek | pop | enqueue | rand | emit =>
    obtain rfl := hr
    exact hP

lemma emit {e : Event} : Leads P (Outbox.perform (.emit e)) P := other (by simp) (by simp)

lemma emitDiagnostic {st : Status} {operation : String} :
    Leads P (Outbox.emitDiagnostic st operation) P := emit

lemma emitRequestEvent {kind : EventKind} {st : Option Status} {operation : String} {a b c : ℕ} :
    Leads P (Outbox.emitRequestEvent kind st operation a b c) P := emit

lemma computeRetryDelay {cfg : OutboxConfig} {exponent hint : ℕ} :
    Leads P (Outbox.computeRetryDelay cfg exponent hint) P := by
  unfold Outbox.computeRetryDelay
  dsimp only
  split
  · exact keep
  · split
    · exact keep
    · exact bind (other (by simp) (by simp)) fun _ => keep

end Leads

/-! ## The window -/

/-- The window of the outbox. -/
def OutboxState.window (s : OutboxState) : Option (ℕ × ℕ) :=
  if s.hasDrainWindow then some (s.drainWindowStartMs, s.drainAttemptsInWindow) else none

/-- The times, with the window of the outbox, when the clock is at `now`. -/
structure Admits (cfg : OutboxConfig) (s : OutboxState) (now : ℕ) (times : List ℕ) : Prop where
  admitted : RateWindow.Admitted 1000 (maxDrainAttemptsPerSecond cfg) times s.window
  begun : ∀ start count, s.window = some (start, count) → start ≤ now
  now_lt : now < 2 ^ 64

/-- The window answers for some of the sends, those so far for example. -/
def Paced (cfg : OutboxConfig) (times : Timed → List ℕ) (s : OutboxState) (w : Timed) : Prop :=
  Admits cfg s w.now (times w)

/-- The sends so far with the one that is recorded and still to be made. -/
def Timed.owed (w : Timed) : List ℕ := w.sends ++ [w.now]

section

variable {cfg : OutboxConfig} {s s' : OutboxState} {w : Timed} {now : ℕ} {times : List ℕ}

/-- The sends are answered for by the window alone. -/
lemma Admits.of_window (h : Admits cfg s now times) (hwindow : s'.window = s.window) :
    Admits cfg s' now times := by
  constructor
  · rw [hwindow]
    exact h.admitted
  · rw [hwindow]
    exact h.begun
  · exact h.now_lt

lemma window_of_has (hhas : s.hasDrainWindow = true) :
    s.window = some (s.drainWindowStartMs, s.drainAttemptsInWindow) := by
  unfold OutboxState.window
  rw [if_pos hhas]

lemma has_of_window {start count : ℕ} (hwindow : s.window = some (start, count)) :
    s.hasDrainWindow = true ∧ s.drainWindowStartMs = start := by
  unfold OutboxState.window at hwindow
  split at hwindow
  · next hhas =>
    simp only [Option.some.injEq, Prod.mk.injEq] at hwindow
    exact ⟨hhas, hwindow.1⟩
  · simp at hwindow

lemma subU64_of_le {a b : ℕ} (hle : b ≤ a) (ha : a < 2 ^ 64) : subU64 a b = a - b := by
  unfold subU64 u64
  omega

lemma maxDrainAttemptsPerSecond_pos (cfg : OutboxConfig) : 0 < maxDrainAttemptsPerSecond cfg := by
  unfold maxDrainAttemptsPerSecond
  split <;> omega

/-- `recordDrainAttempt` counts the attempt in the window, which has room for it or is over. -/
lemma leads_recordDrainAttempt (hbits : cfg.maxDrainAttemptsPerSecond < 2 ^ 16) :
    Leads (fun s w => drainRateAllows cfg s now = true ∧ w.now = now ∧ Paced cfg Timed.sends s w)
      (recordDrainAttempt now) (Paced cfg Timed.owed) := by
  unfold recordDrainAttempt
  refine Leads.modify fun s w ⟨hallows, hnow, hpaced⟩ => ?_
  subst hnow
  have hbegun := hpaced.begun
  have hlt := hpaced.now_lt
  by_cases hrestart : s.hasDrainWindow = false ∨ subU64 w.now s.drainWindowStartMs ≥ 1000
  · have hover : ∀ start count, s.window = some (start, count) → start + 1000 ≤ w.now := by
      intro start count hwindow
      obtain ⟨hhas, rfl⟩ := has_of_window hwindow
      have hle := hbegun _ _ hwindow
      rw [subU64_of_le hle hlt] at hrestart
      simp only [hhas, Bool.true_eq_false, false_or] at hrestart
      omega
    simp only [hrestart, if_true]
    constructor
    · exact .restart hpaced.admitted (maxDrainAttemptsPerSecond_pos cfg) hover
    · intro start count hwindow
      exact (has_of_window hwindow).2.ge
    · exact hlt
  · have hhas : s.hasDrainWindow = true := by simpa using fun h => hrestart (.inl h)
    have hle := hbegun _ _ (window_of_has hhas)
    have hwithin : w.now < s.drainWindowStartMs + 1000 := by
      rw [subU64_of_le hle hlt] at hrestart
      omega
    have hroom : s.drainAttemptsInWindow < maxDrainAttemptsPerSecond cfg := by
      unfold drainRateAllows at hallows
      rw [if_neg (by simp [hhas]), if_neg fun h => hrestart (.inr h)] at hallows
      exact of_decide_eq_true hallows
    have hcount : s.drainAttemptsInWindow ≠ 2 ^ 16 - 1 := by
      unfold maxDrainAttemptsPerSecond at hroom
      split at hroom <;> omega
    have hadmitted := hpaced.admitted
    rw [window_of_has hhas] at hadmitted
    simp only [hrestart, if_false, hcount, if_true, ne_eq, not_false_eq_true]
    constructor
    · unfold OutboxState.window
      rw [if_pos hhas]
      exact .more hadmitted hle hwithin hroom
    · intro start count hwindow
      exact (has_of_window hwindow).2 ▸ hle
    · exact hlt

/-! ## Methods -/

section

variable {f : Timed → List ℕ}

/-- Whatever is kept for the front record. -/
lemma leads_front {g : OutboxState → OutboxState} (hwindow : ∀ s, (g s).window = s.window) :
    Leads (Paced cfg f) (Outbox.modify g) (Paced cfg f) :=
  Leads.modify fun s _ h => h.of_window (hwindow s)

lemma leads_setFrontCooldown {t : ℕ} : Leads (Paced cfg f) (setFrontCooldown t) (Paced cfg f) :=
  leads_front fun _ => rfl

lemma leads_clearFrontCooldown : Leads (Paced cfg f) clearFrontCooldown (Paced cfg f) :=
  leads_front fun _ => rfl

/-- The clock is read, and no send is made meanwhile. -/
lemma leads_clock {α : Type} {k : ℕ → OutboxM α} {Q : OutboxState → Timed → Prop}
    (hf : ∀ w t, f { w with now := t } = f w)
    (h : ∀ t, Leads (fun s w => w.now = t ∧ Paced cfg f s w) (k t) Q) :
    Leads (Paced cfg f) (perform .clock >>= k) Q := by
  intro s w hpaced
  refine ⟨trivial, fun r w' hr => h r s w' ?_⟩
  obtain ⟨hle, hlt, rfl⟩ := hr
  refine ⟨rfl, ?_, fun start count hw => (hpaced.begun start count hw).trans hle, hlt⟩
  rw [hf]
  exact hpaced.admitted

end

/-- The attempt that is recorded is sent. -/
lemma leads_send {payload : Bytes} {attempts : ℕ} :
    Leads (Paced cfg Timed.owed) (perform (.send payload attempts)) (Paced cfg Timed.sends) := by
  refine Leads.perform fun s w r w' h hr => ?_
  obtain rfl := hr
  exact h

lemma leads_removeFront {result : DrainResult} {d : SendDecision} {n : ℕ} :
    Leads (Paced cfg Timed.sends) (removeFront result d n) (Paced cfg Timed.sends) := by
  unfold removeFront
  refine (Leads.other (by simp) (by simp)).bind fun r => ?_
  split
  · exact Leads.emitDiagnostic.bind fun _ => .keep
  · refine Leads.get fun s₀ => Leads.mono ?_ fun _ _ h => h.2
    refine leads_clearFrontCooldown.bind fun _ => ?_
    split
    · exact Leads.emitRequestEvent.bind fun _ => .keep
    · exact Leads.emitRequestEvent.bind fun _ => .keep

lemma leads_drainSend (hbits : cfg.maxDrainAttemptsPerSecond < 2 ^ 16) {payload : Bytes} {n : ℕ} :
    Leads (fun s w => drainRateAllows cfg s now = true ∧ w.now = now ∧ Paced cfg Timed.sends s w)
      (drainSend cfg now payload n) (Paced cfg Timed.sends) := by
  unfold drainSend
  refine (leads_recordDrainAttempt hbits).bind fun _ => ?_
  refine Leads.get fun s₀ => Leads.mono ?_ fun _ _ h => h.2
  refine Leads.emitRequestEvent.bind fun _ => leads_send.bind fun r => ?_
  split
  · exact leads_removeFront
  · exact leads_removeFront
  · refine Leads.bind (leads_front ?_) fun _ => ?_
    · intro
      rfl
    refine Leads.get fun s₁ => Leads.mono ?_ fun _ _ h => h.2
    refine Leads.computeRetryDelay.bind fun _ => leads_setFrontCooldown.bind fun _ => ?_
    exact Leads.emitRequestEvent.bind fun _ => .keep

lemma leads_dropCorruptFrontRecord {st : Status} {n : ℕ} :
    Leads (Paced cfg Timed.sends) (dropCorruptFrontRecord cfg st n) (Paced cfg Timed.sends) := by
  unfold dropCorruptFrontRecord
  refine Leads.get fun s₀ => Leads.mono ?_ fun _ _ h => h.2
  split
  · exact Leads.emitDiagnostic.bind fun _ => .keep
  · refine (Leads.other (by simp) (by simp)).bind fun r => ?_
    split
    · exact Leads.emitDiagnostic.bind fun _ => .keep
    · refine leads_clearFrontCooldown.bind fun _ => ?_
      refine Leads.bind (leads_front ?_) fun _ => ?_
      · intro
        rfl
      exact Leads.emitRequestEvent.bind fun _ => .keep

/-- A drain sends only what it has recorded. -/
lemma leads_drainOne (hbits : cfg.maxDrainAttemptsPerSecond < 2 ^ 16) :
    Leads (Paced cfg Timed.sends) (drainOne cfg true) (Paced cfg Timed.sends) := by
  unfold drainOne
  split
  · exact Leads.emitDiagnostic.bind fun _ => .keep
  refine leads_clock (fun _ _ => rfl) fun t => ?_
  refine (Leads.other (by simp) (by simp)).bind fun r => ?_
  split
  · refine Leads.mono ?_ fun _ _ h => h.2
    split
    · exact leads_clearFrontCooldown.bind fun _ => .keep
    · split
      · exact leads_dropCorruptFrontRecord
      · exact Leads.emitDiagnostic.bind fun _ => .keep
  · split
    · exact leads_dropCorruptFrontRecord.mono fun _ _ h => h.2
    refine Leads.get fun s₀ => ?_
    split
    · exact (Leads.emitRequestEvent.bind fun _ => .keep).mono fun _ _ h => h.2.2
    · split
      · exact (Leads.emitRequestEvent.bind fun _ => .keep).mono fun _ _ h => h.2.2
      · next hallows =>
        refine (leads_drainSend hbits).mono fun s w h => ?_
        obtain ⟨rfl, hnow, hpaced⟩ := h
        exact ⟨by simpa using hallows, hnow, hpaced⟩

lemma leads_drainLoop (hbits : cfg.maxDrainAttemptsPerSecond < 2 ^ 16) (n : ℕ)
    (total : DrainResult) :
    Leads (Paced cfg Timed.sends) (drainLoop cfg n total) (Paced cfg Timed.sends) := by
  induction n generalizing total with
  | zero => exact .keep
  | succ n ih =>
    refine (leads_drainOne hbits).bind fun current => ?_
    split
    · exact .keep
    · exact ih _

/-- The live send of a submission is not counted. -/
lemma leads_live {payload : Bytes} {attempts : ℕ} :
    Leads (Paced cfg fun _ => times) (perform (.send payload attempts))
      (Paced cfg fun _ => times) := by
  refine Leads.perform fun s w r w' h hr => ?_
  obtain rfl := hr
  exact h

lemma leads_enqueueRecord {payload : Bytes} {attempts : ℕ} :
    Leads (Paced cfg fun _ => times) (enqueueRecord payload attempts)
      (Paced cfg fun _ => times) := by
  unfold enqueueRecord
  split
  · exact Leads.emitDiagnostic.bind fun _ => .keep
  · refine (Leads.other (by simp) (by simp)).bind fun r => ?_
    split
    · exact .keep
    · split
      · exact .keep
      · exact .keep

lemma leads_submitLive {payload : Bytes} :
    Leads (Paced cfg fun _ => times) (submitLive cfg payload) (Paced cfg fun _ => times) := by
  unfold submitLive
  refine leads_live.bind fun r => ?_
  split
  · exact Leads.emitRequestEvent.bind fun _ => .keep
  · exact Leads.emitRequestEvent.bind fun _ => .keep
  · have hcount : Leads (Paced cfg fun _ => times) statsCount (Paced cfg fun _ => times) := by
      refine (Leads.other (by simp) (by simp)).bind fun r => ?_
      split
      · exact .keep
      · exact .keep
    refine hcount.bind fun count => leads_enqueueRecord.bind fun queued => ?_
    split
    · refine Leads.bind (leads_front ?_) fun _ => ?_
      · intro
        rfl
      refine Leads.computeRetryDelay.bind fun _ => leads_clock (fun _ _ => rfl) fun t => ?_
      refine Leads.mono ?_ fun _ _ h => h.2
      exact leads_setFrontCooldown.bind fun _ => Leads.emitRequestEvent.bind fun _ => .keep
    · exact .keep

/-- A submission leaves the window as it is. -/
lemma leads_submit {payload : Bytes} :
    Leads (Paced cfg fun _ => times) (submit cfg payload) (Paced cfg fun _ => times) := by
  unfold submit
  split
  · exact Leads.emitDiagnostic.bind fun _ => .keep
  · refine (Leads.other (by simp) (by simp)).bind fun r => ?_
    split
    · split
      · exact leads_enqueueRecord
      · exact leads_submitLive
    · exact Leads.emitDiagnostic.bind fun _ => leads_submitLive

/-- Between the methods the window answers for every send. -/
lemma TimedRun.paced (h : TimedRun cfg s w) (hbits : cfg.maxDrainAttemptsPerSecond < 2 ^ 16) :
    Paced cfg Timed.sends s w := by
  induction h with
  | start =>
    refine ⟨.none, ?_, by simp⟩
    intro start count hwindow
    have := (has_of_window hwindow).1
    simp at this
  | submit _ he ih => exact (leads_submit.takes he ih :)
  | drain _ he ih => exact (leads_drainOne hbits).takes he ih
  | drainUpTo _ he ih => exact (leads_drainLoop hbits _ _).takes he ih

end

/-- However the drains are spaced, at most so many sends begin in an interval of `length`
milliseconds. -/
theorem drain_sends_in_interval_le {cfg : OutboxConfig}
    (hbits : cfg.maxDrainAttemptsPerSecond < 2 ^ 16) {s : OutboxState} {w : Timed}
    (h : TimedRun cfg s w) (x length : ℕ) :
    (w.sends.countP fun t => x ≤ t ∧ t < x + length) ≤
      max 1 cfg.maxDrainAttemptsPerSecond * (length ⌈/⌉ 1000 + 1) := by
  have hmax : maxDrainAttemptsPerSecond cfg = max 1 cfg.maxDrainAttemptsPerSecond := by
    unfold maxDrainAttemptsPerSecond
    split <;> omega
  rw [← hmax]
  exact (h.paced hbits).admitted.within_interval_le (by simp) x length

/-! ## A drain that has to wait -/

/-- The time is `t`; the front record is an envelope, and every send succeeds. -/
def atTime (t : ℕ) : Prog.Handler OutboxIo Timed
  | .clock, w => (t, { w with now := t })
  | .peek, w => (.ok ((Envelope.encodeEnvelope 0 [7]).getD []), w)
  | .send .., w => (⟨.sent, 0⟩, { w with sends := w.sends ++ [w.now] })
  | .statsResult, w => (.ok 1, w)
  | .pop, w => (.ok (), w)
  | .enqueue _, w => (.ok (), w)
  | .rand _, w => (0, w)
  | .emit _, w => ((), w)

lemma timed_atTime {t : ℕ} (ht : t < 2 ^ 64) (c : OutboxCall) (w : Timed) (hw : w.now ≤ t) :
    timed c w (atTime t c w).1 (atTime t c w).2 ∧ (atTime t c w).2.now ≤ t := by
  cases c with
  | clock => exact ⟨⟨hw, ht, rfl⟩, le_rfl⟩
  | _ => exact ⟨rfl, hw⟩

/-- A drain at time `t`. -/
def tryDrain (cfg : OutboxConfig) (t : ℕ) (s : OutboxState) (w : Timed) :
    Option ((Except Empty DrainResult × OutboxState) × Timed) :=
  Prog.trial (atTime t) (fun _ _ => True) (drain cfg s) w

lemma TimedRun.tried {cfg : OutboxConfig} {t : ℕ} {s s' : OutboxState} {w w' : Timed}
    {r : Except Empty DrainResult} (h : TimedRun cfg s w) (ht : t < 2 ^ 64) (hw : w.now ≤ t)
    (he : tryDrain cfg t s w = some ((r, s'), w')) : TimedRun cfg s' w' := by
  cases r with
  | error e => exact e.elim
  | ok result => exact h.drain ⟨result, Prog.exec_of_trial (timed_atTime ht) hw he⟩

/-- With one send a second, the drain after half a second is refused. -/
theorem drain_sends_in_interval_le_refused : ∃ s w,
    TimedRun { maxDrainAttemptsPerSecond := 1 } s w ∧ w.sends = [7, 1500] ∧
      (w.sends.countP fun t => 0 ≤ t ∧ t < 0 + 1500) ≤
        max 1 1 * ((1500 : ℕ) ⌈/⌉ (1000 : ℕ) + 1) := by
  have hrun : ((do
      let a ← tryDrain { maxDrainAttemptsPerSecond := 1 } 7 {} {}
      let b ← tryDrain { maxDrainAttemptsPerSecond := 1 } 507 a.1.2 a.2
      let c ← tryDrain { maxDrainAttemptsPerSecond := 1 } 1500 b.1.2 b.2
      pure (a.2.now, b.1.1.toOption.map DrainResult.rateLimited, b.2.now, c.2.sends)) : Option _) =
        some (7, some true, 507, [7, 1500]) := by
    decide +kernel
  obtain ⟨⟨⟨r₁, s₁⟩, w₁⟩, h₁, hrun⟩ := Option.bind_eq_some_iff.1 hrun
  obtain ⟨⟨⟨r₂, s₂⟩, w₂⟩, h₂, hrun⟩ := Option.bind_eq_some_iff.1 hrun
  obtain ⟨⟨⟨r₃, s₃⟩, w₃⟩, h₃, hrun⟩ := Option.bind_eq_some_iff.1 hrun
  simp only [pure, Option.some.injEq, Prod.mk.injEq] at hrun
  obtain ⟨hnow₁, -, hnow₂, hsends⟩ := hrun
  have hfirst := TimedRun.start.tried (by decide) (Nat.zero_le 7) h₁
  have hsecond := hfirst.tried (by decide) (by omega : w₁.now ≤ 507) h₂
  have hthird := hsecond.tried (by decide) (by omega : w₂.now ≤ 1500) h₃
  exact ⟨s₃, w₃, hthird, hsends, drain_sends_in_interval_le (by decide) hthird 0 1500⟩

end Pqueue
