import Pqueue.Outbox.Delivery

/-!
# Runs of an outbox

The runs of submit, drain and drainUpTo on one outbox, and their rule: a property that every
method keeps holds of every run.
-/

namespace Pqueue

open Effect LittleEndian Outbox

namespace Outside

/-- The numbers of the queued records. -/
def ids (w : Outside) : List ℕ := w.queue.map Prod.fst

/-- A submission begins. -/
def begin (w : Outside) (payload : Bytes) : Outside :=
  { w with
    log := w.log ++ [.begun w.next payload]
    submitting := some w.next
    next := w.next + 1 }

/-- Submission `n` returns. -/
def finish (w : Outside) (n : ℕ) (status : SubmitStatus) : Outside :=
  { w with log := w.log ++ [.returned n status], submitting := none }

/-- The outside when an outbox is constructed: any queue. -/
structure Initial (w : Outside) : Prop where
  log : w.log = []
  idle : w.submitting = none
  increasing : w.ids.Pairwise (· < ·)
  below : ∀ n ∈ w.ids, n < w.next

end Outside

/-- A method is carried out, from one state to another. -/
def Carries {α : Type} (O : Prog.Outcomes OutboxIo Outside) (m : OutboxM α) (s : OutboxState)
    (w : Outside) (a : α) (s' : OutboxState) (w' : Outside) : Prop :=
  Prog.Exec O (fun _ _ => True) (m s) w (.ok a, s') w'

/-- The runs of submit, drain and drainUpTo on one outbox. -/
inductive OutboxRun (cfg : OutboxConfig) (O : Prog.Outcomes OutboxIo Outside) (w₀ : Outside) :
    OutboxState → Outside → Prop
  | start (h : w₀.Initial) : OutboxRun cfg O w₀ {} w₀
  | submit {s w payload result s' w'} (h : OutboxRun cfg O w₀ s w)
      (he : Carries O (submit cfg payload) s (w.begin payload) result s' w') :
      OutboxRun cfg O w₀ s' (w'.finish w.next result.status)
  | drain {s w result s' w'} (h : OutboxRun cfg O w₀ s w)
      (he : Carries O (drain cfg) s w result s' w') : OutboxRun cfg O w₀ s' w'
  | drainUpTo {s w maxDrainAttempts result s' w'} (h : OutboxRun cfg O w₀ s w)
      (he : Carries O (drainUpTo cfg maxDrainAttempts) s w result s' w') : OutboxRun cfg O w₀ s' w'

section

variable {α : Type} {O O' : Prog.Outcomes OutboxIo Outside} {cfg : OutboxConfig}
  {I : OutboxState → Outside → Prop} {s s' : OutboxState} {w w' : Outside}

lemma Does.sound {m : OutboxM α} {Q : α → OutboxState → Outside → Prop} {a : α}
    (h : Does O m Q s w) (he : Carries O m s w a s' w') : Q a s' w' :=
  Prog.wp_sound h he a rfl

/-- Fewer answers, fewer runs. -/
lemma Carries.mono {m : OutboxM α} {a : α} (h : Carries O m s w a s' w')
    (hO : ∀ c w r w', O c w r w' → O' c w r w') : Carries O' m s w a s' w' :=
  Prog.exec_mono hO h

lemma OutboxRun.mono {w₀ : Outside} (h : OutboxRun cfg O w₀ s w)
    (hO : ∀ c w r w', O c w r w' → O' c w r w') :
    OutboxRun cfg O' w₀ s w := by
  induction h with
  | start h₀ => exact .start h₀
  | submit _ he ih => exact .submit ih (he.mono hO)
  | drain _ he ih => exact .drain ih (he.mono hO)
  | drainUpTo _ he ih => exact .drainUpTo ih (he.mono hO)

/-- The loop stops at the drain that is not due. -/
lemma does_drainLoop {M : OutboxState → Outside → Prop}
    (hdrain : ∀ s w, I s w → Does O (drainOne cfg true)
      (fun r s' w' => I s' w' ∧ (r.notDue = true → M s' w')) s w)
    (n : ℕ) {total : DrainResult} (htotal : total.notDue = false) (hI : I s w) :
    Does O (drainLoop cfg n total) (fun r s' w' => I s' w' ∧ (r.notDue = true → M s' w')) s w := by
  induction n generalizing total s w with
  | zero =>
    refine does_pure ⟨hI, fun h => ?_⟩
    rw [htotal] at h
    simp at h
  | succ n ih =>
    refine does_bind (does_mono (hdrain s w hI) ?_)
    intro current s' w' h
    have hplus : (DrainResult.plus total current).notDue = current.notDue := by
      simp [DrainResult.plus, htotal]
    split
    · refine does_pure ⟨h.1, fun hdue => h.2 ?_⟩
      rw [← hplus]
      exact hdue
    · next hgo =>
      refine ih ?_ h.1
      rw [hplus]
      simp only [shouldStop, Bool.not_eq_true] at hgo
      cases hdue : current.notDue with
      | false => rfl
      | true => simp [hdue] at hgo

lemma does_drainUpTo {M : OutboxState → Outside → Prop}
    (hdrain : ∀ s w, I s w → Does O (drainOne cfg true)
      (fun r s' w' => I s' w' ∧ (r.notDue = true → M s' w')) s w)
    (maxDrainAttempts : ℕ) (hI : I s w) :
    Does O (drainUpTo cfg maxDrainAttempts)
      (fun r s' w' => I s' w' ∧ (r.notDue = true → M s' w')) s w := by
  unfold drainUpTo
  exact does_drainLoop hdrain _ rfl hI

/-- What every method keeps. -/
lemma OutboxRun.invariant {w₀ : Outside} (hstart : w₀.Initial → I {} w₀)
    (hsubmit : ∀ s w payload, I s w → Does O (Outbox.submit cfg payload)
      (fun r s' w' => I s' (w'.finish w.next r.status)) s (w.begin payload))
    (hdrain : ∀ s w, I s w → Does O (drainOne cfg true) (fun _ s' w' => I s' w') s w)
    (h : OutboxRun cfg O w₀ s w) : I s w := by
  induction h with
  | start h₀ => exact hstart h₀
  | submit _ he ih => exact (hsubmit _ _ _ ih).sound he
  | drain _ he ih => exact (hdrain _ _ ih).sound he
  | @drainUpTo _ _ maxDrainAttempts _ _ _ _ he ih =>
    have hkeep := does_drainUpTo (M := fun _ _ => True)
      (fun s w hI => does_mono (hdrain s w hI) fun _ _ _ h => ⟨h, fun _ => trivial⟩)
      maxDrainAttempts ih
    exact (hkeep.sound he).1

end

/-! ## Runs that exist -/

/-- `m` may end in `Q`. -/
def Could {α : Type} (O : Prog.Outcomes OutboxIo Outside) (m : OutboxM α)
    (Q : α → OutboxState → Outside → Prop) (s : OutboxState) (w : Outside) : Prop :=
  Act.may O (fun _ _ => True) m (fun r s' w' => ∃ a, r = .ok a ∧ Q a s' w') s w

section Could

variable {α β : Type} {O : Prog.Outcomes OutboxIo Outside} {Q : α → OutboxState → Outside → Prop}
  {s : OutboxState} {w : Outside}

lemma Could.carries {m : OutboxM α} (h : Could O m Q s w) :
    ∃ a s' w', Carries O m s w a s' w' ∧ Q a s' w' := by
  obtain ⟨_, s', w', he, a, rfl, hQ⟩ := h
  exact ⟨a, s', w', he, hQ⟩

lemma could_pure {a : α} (h : Q a s w) : Could O (pure a) Q s w := Act.may_pure ⟨a, rfl, h⟩

lemma could_bind {m : OutboxM β} {f : β → OutboxM α}
    (h : Could O m (fun b s' w' => Could O (f b) Q s' w') s w) : Could O (m >>= f) Q s w := by
  refine Act.may_bind (Act.may_mono h ?_)
  rintro _ s' w' ⟨b, rfl, hb⟩
  exact hb

lemma could_perform {c : OutboxCall} {f : c.Val → OutboxM α} (r : c.Val) (w' : Outside)
    (hr : O c w r w') (h : Could O (f r) Q s w') : Could O (perform c >>= f) Q s w :=
  Act.may_bind (Act.may_perform hr h)

lemma could_get {f : OutboxState → OutboxM α} (h : Could O (f s) Q s w) :
    Could O (Outbox.get >>= f) Q s w := Act.may_get_bind h

lemma could_modify {g : OutboxState → OutboxState} {f : Unit → OutboxM α}
    (h : Could O (f ()) Q (g s) w) : Could O (Outbox.modify g >>= f) Q s w := Act.may_modify_bind h

lemma could_recordDrainAttempt {nowMs : ℕ} {f : Unit → OutboxM α}
    (h : ∀ s' : OutboxState, s'.front = s.front → Could O (f ()) Q s' w) :
    Could O (recordDrainAttempt nowMs >>= f) Q s w := by
  unfold recordDrainAttempt
  refine could_modify (h _ ?_)
  unfold OutboxState.front
  dsimp only
  split <;> split <;> rfl

end Could

/-- Neither the statistics, nor a peek, nor an enqueue fails. -/
def Smooth : (c : OutboxCall) → c.Val → Prop
  | .statsResult, .error _ | .peek, .error _ | .enqueue _, .error _ => False
  | _, _ => True

/-- `O` allows what is smooth and gentle. -/
def Generous (policy : FullQueuePolicy) (O : Prog.Outcomes OutboxIo Outside) : Prop :=
  ∀ c w r w', answers policy c w r w' → Smooth c r → Gentle c w r w' → O c w r w'

section

variable {policy : FullQueuePolicy} {O : Prog.Outcomes OutboxIo Outside} (cfg : OutboxConfig)
  (s : OutboxState) (w : Outside) (n t : ℕ) {payload record : Bytes} {rest : List (ℕ × Bytes)}

/-- A submission that is to be retried is queued in an empty queue. -/
lemma could_submit_later (hO : Generous policy O) (hsend : cfg.hasSend = true)
    (hclock : cfg.hasClock = true) (hrand : cfg.hasRand = false) (ht : t < 2 ^ 64)
    (hn : w.submitting = some n) (hq : w.queue = [])
    (hrecord : Envelope.encodeEnvelope 0 payload = some record) :
    Could O (submit cfg payload) (fun r s' w' => r.status = .queued ∧
      s' = { s with
        frontAttempts := 1
        frontNextAttemptMs := u64 (t + baseDelay cfg 0 0)
        hasFrontCooldown := true } ∧
      w' = ((w.put [(n, record)] [.live n payload .retryLater, .queued n]).tick t).announce n
        (baseDelay cfg 0 0)) s w := by
  unfold submit
  rw [if_neg (by simp [hsend, hclock])]
  refine could_perform (.ok 0) w (hO _ _ _ _ ⟨by simp [hq], rfl⟩ trivial trivial) ?_
  refine could_perform ⟨.retryLater, 0⟩ (w.put [] [.live n payload .retryLater])
    (hO _ _ _ _ (by simp [answers, Outside.sendEvents, hn, hq]) trivial fun _ hne =>
      absurd hq hne) ?_
  refine could_bind (could_perform (.ok 0) _ (hO _ _ _ _ ⟨fun _ h => ?_, rfl⟩ trivial trivial)
    (could_pure ?_))
  · obtain rfl := Except.ok.inj h
    rfl
  refine could_bind ?_
  unfold enqueueRecord
  rw [hrecord]
  refine could_perform (.ok ()) (w.put [(n, record)] [.live n payload .retryLater, .queued n])
    (hO _ _ _ _ ⟨n, [], hn, ⟨[], rfl, fun _ => rfl⟩, ?_⟩ trivial ?_) (could_pure ?_)
  · simp [Outside.put]
  · intro item hitem
    simp [Outside.put] at hitem
  rw [if_pos ⟨rfl, rfl⟩]
  refine could_modify (could_bind ?_)
  unfold computeRetryDelay
  rw [if_pos (.inl hrand)]
  refine could_pure (could_perform t _ (hO _ _ _ _ ⟨ht, rfl⟩ trivial trivial) (could_modify ?_))
  exact could_perform () _ (hO _ _ _ _ rfl trivial trivial) (could_pure ⟨rfl, rfl, rfl⟩)

/-- A submission is queued behind others, of which some go. -/
lemma could_submit_behind (hO : Generous policy O) (hsend : cfg.hasSend = true)
    (hclock : cfg.hasClock = true) (hq : w.queue ≠ [])
    {kept : List (ℕ × Bytes)} (hrecord : Envelope.encodeEnvelope 0 payload = some record)
    (henqueue : O (.enqueue record) w (.ok ()) (w.put (kept ++ [(n, record)]) [.queued n])) :
    Could O (submit cfg payload) (fun r s' w' => r.status = .queued ∧ s' = s ∧
      w' = w.put (kept ++ [(n, record)]) [.queued n]) s w := by
  unfold submit
  rw [if_neg (by simp [hsend, hclock])]
  refine could_perform (.ok w.queue.length) w (hO _ _ _ _ ⟨fun _ h => ?_, rfl⟩ trivial trivial) ?_
  · obtain rfl := Except.ok.inj h
    rfl
  dsimp only
  rw [if_pos (List.length_pos_iff.mpr hq)]
  unfold enqueueRecord
  rw [hrecord]
  exact could_perform (.ok ()) _ henqueue (could_pure ⟨rfl, rfl, rfl⟩)

/-- The front record is sent and popped. -/
lemma could_drain_sent {a : ℕ} (hO : Generous policy O) (hsend : cfg.hasSend = true)
    (hclock : cfg.hasClock = true) (ht : t < 2 ^ 64) (hidle : w.submitting = none)
    (hq : w.queue = (n, record) :: rest)
    (hrecord : Envelope.decodeEnvelope kSizeBits record = some (a, payload))
    (hdue : s.frontNextAttemptMs ≤ t) (hrate : s.hasDrainWindow = false) :
    Could O (drain cfg) (fun _ _ w' =>
      w' = (w.tick t).put rest [.drained n payload s.frontAttempts .sent, .popped n]) s w := by
  unfold drain drainOne
  rw [if_neg (by simp [hsend, hclock])]
  refine could_perform t (w.tick t) (hO _ _ _ _ ⟨ht, rfl⟩ trivial trivial) ?_
  refine could_perform (.ok record) (w.tick t)
    (hO _ _ _ _ ⟨⟨rfl, n, rest, hq⟩, by simp, rfl⟩ trivial trivial) ?_
  dsimp only
  rw [hrecord]
  have hcool : frontIsCoolingDown s t = false := by
    simp only [frontIsCoolingDown, Bool.and_eq_false_iff, decide_eq_false_iff_not]
    exact .inr (by omega)
  refine could_get ?_
  rw [if_neg (by simp [hcool]), if_neg (by simp [drainRateAllows, hrate])]
  unfold drainSend
  refine could_recordDrainAttempt fun s₁ hs₁ => ?_
  refine could_get (could_perform () _ (hO _ _ _ _ rfl trivial trivial) ?_)
  refine could_perform ⟨.sent, 0⟩ _ (hO _ _ _ _ rfl trivial fun hne => absurd hidle hne) ?_
  refine could_perform (.ok ()) _ (hO _ _ _ _ ⟨rest, ⟨(n, record), hq⟩, rfl⟩ trivial trivial) ?_
  refine could_get
    (could_modify (could_perform () _ (hO _ _ _ _ rfl trivial trivial) (could_pure ?_)))
  have hattempts : s₁.frontAttempts = s.frontAttempts := congrArg Front.attempts hs₁
  simp [Outside.put, Outside.tick, Outside.sendEvents, hidle, hq, hattempts]

end

end Pqueue
