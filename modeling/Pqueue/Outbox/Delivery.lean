import Pqueue.Outbox.Outbox
import Pqueue.Queue.Refinement

/-!
# What the outbox does to its queue

The outbox runs over a queue, a sender and a clock that may answer what they like: `answers` is all
that is assumed of them.  The queue is the abstract one of `FifoStep`, its records labelled with the
number of the submission they come from; the state `Outside` also keeps a log of what was sent,
queued and popped.

`OutboxStep` says once what a submission or a drain can do to the log, the queue and the state kept
for the front record; `submit_step` and `drainOne_step` are the inversions of the two methods.  The
results on runs are read off the steps.
-/

namespace Pqueue

open Effect LittleEndian Outbox

/-! ## The outside of an outbox -/

/-- What happened, by the number of the submission. -/
inductive OutboxEvent
  | begun (n : ℕ) (payload : Bytes)
  | live (n : ℕ) (payload : Bytes) (decision : SendDecision)
  | queued (n : ℕ)
  | drained (n : ℕ) (payload : Bytes) (attempts : ℕ) (decision : SendDecision)
  | popped (n : ℕ)
  | popFailed (n : ℕ)
  | returned (n : ℕ) (status : SubmitStatus)

/-- The queue, the sender and the clock, with the history. -/
structure Outside where
  /-- The records, the front first, with the numbers of their submissions. -/
  queue : List (ℕ × Bytes)
  log : List OutboxEvent := []
  /-- The submission under way. -/
  submitting : Option ℕ := none
  /-- The number of the next submission. -/
  next : ℕ
  /-- What the clock said last. -/
  now : ℕ := 0
  /-- When the delay announced for a record is over. -/
  due : ℕ → ℕ := fun _ => 0

namespace Outside

/-- The queue and the log change. -/
def put (w : Outside) (queue : List (ℕ × Bytes)) (events : List OutboxEvent) : Outside :=
  { w with queue := queue, log := w.log ++ events }

/-- The clock is read. -/
def tick (w : Outside) (now : ℕ) : Outside := { w with now := now }

/-- A delay is announced for a record. -/
def announce (w : Outside) (n delayMs : ℕ) : Outside :=
  { w with due := fun m => if m = n then w.now + delayMs else w.due m }

/-- A payload is being submitted, as number `n`. -/
def Submitting (w : Outside) (n : ℕ) (payload : Bytes) : Prop :=
  w.submitting = some n ∧ .begun n payload ∈ w.log

/-- A send concerns the submission under way, or else the front record. -/
def sendEvents (w : Outside) (payload : Bytes) (attempts : ℕ) (d : SendDecision) :
    List OutboxEvent :=
  match w.submitting, w.queue with
  | some n, _ => [.live n payload d]
  | none, (n, _) :: _ => [.drained n payload attempts d]
  | none, [] => []

end Outside

/-- What is answered, and what becomes of the outside. -/
def answers (policy : FullQueuePolicy) : Prog.Outcomes OutboxIo Outside
  | .statsResult, w, r, w' => (∀ count, r = .ok count → count = w.queue.length) ∧ w' = w
  | .peek, w, r, w' => FifoStep policy .peek w.queue r w.queue ∧
      (∀ st, r = .error st → st.code = .queueEmpty → w.queue = []) ∧ w' = w
  | .pop, w, r, w' => ∃ L', FifoStep policy .pop w.queue r L' ∧
      w' = w.put L' (match w.queue, r with
        | (n, _) :: _, .ok _ => [.popped n]
        | (n, _) :: _, .error _ => [.popFailed n]
        | [], _ => [])
  | .enqueue record, w, r, w' => ∃ n kept, w.submitting = some n ∧ Evicts policy w.queue kept ∧
      w' = match r with
        | .ok _ => w.put (kept ++ [(n, record)]) [.queued n]
        | .error _ => w.put kept []
  | .send payload attempts, w, r, w' =>
      w' = w.put w.queue (w.sendEvents payload attempts r.decision)
  | .clock, w, r, w' => r < 2 ^ 64 ∧ w' = w.tick r
  | .rand _, w, r, w' => r < 2 ^ 32 ∧ w' = w
  | .emit e, w, _, w' => w' = match e.kind, w.queue with
      | .requestRetried, (n, _) :: _ => w.announce n e.remainingMs
      | _, _ => w

/-- What the queue answers to the outbox is a step of the abstract queue. -/
lemma answers_fifo {policy : FullQueuePolicy} {record : Bytes} {w w' : Outside}
    {r : Except Status Unit} (h : answers policy (.enqueue record) w r w') :
    FifoStep policy (.enqueue record) w.queue r w'.queue := by
  obtain ⟨n, kept, -, hkept, rfl⟩ := h
  cases r with
  | ok u => exact ⟨kept, n, hkept, rfl⟩
  | error st => exact hkept

/-- The RetryLater decisions for a record. -/
def retries (n : ℕ) : List OutboxEvent → ℕ
  | [] => 0
  | .live m _ .retryLater :: log | .drained m _ _ .retryLater :: log =>
    (if m = n then 1 else 0) + retries n log
  | _ :: log => retries n log

/-- No record that has received a RetryLater is evicted, and no submission that is sent while
records are queued receives one. -/
def Gentle : (c : OutboxCall) → Outside → c.Val → Outside → Prop
  | .enqueue _, w, _, w' => ∀ item ∈ w.queue, item ∉ w'.queue → retries item.1 w.log = 0
  | .send _ _, w, r, _ => w.submitting ≠ none → w.queue ≠ [] → r.decision ≠ .retryLater
  | _, _, _, _ => True

/-- The queue's statistics and its front record can be read. -/
def Readable : (c : OutboxCall) → Outside → c.Val → Prop
  | .statsResult, w, .error _ => w.queue = []
  | .peek, w, .error _ => w.queue = []
  | _, _, _ => True

/-- The answers of a queue that is gentle to what `U` allows not to be readable. -/
def gentleAnswers (policy : FullQueuePolicy) (U : Prop) : Prog.Outcomes OutboxIo Outside :=
  fun c w r w' => answers policy c w r w' ∧ (U ∨ Readable c w r) ∧ (¬U ∨ Gentle c w r w')

/-- What the outbox has queued it can decode. -/
lemma decode_encoded {payload record : Bytes}
    (h : Envelope.encodeEnvelope 0 payload = some record) :
    Envelope.decodeEnvelope kSizeBits record = some (0, payload) :=
  Envelope.decodeEnvelope_encode (by decide) h (Envelope.length_encode_lt h)

/-! ## Steps -/

/-- What the outbox keeps for the front record: the attempts, and when the cooldown ends. -/
structure Front where
  attempts : ℕ := 0
  cooldown : Option ℕ := none

def OutboxState.front (s : OutboxState) : Front where
  attempts := s.frontAttempts
  cooldown := if s.hasFrontCooldown then some s.frontNextAttemptMs else none

/-- What one submission or one drain can do.  `t` is what the clock said. -/
inductive OutboxStep (policy : FullQueuePolicy) (U : Prop) (f : Front) (w : Outside) :
    Front → Outside → Prop
  /-- Nothing happens to the queue. -/
  | quiet {t} : OutboxStep policy U f w f (w.tick t)
  /-- A submission finds records queued and is queued behind them. -/
  | accept {n payload record kept} (hn : w.Submitting n payload) (hq : w.queue ≠ [])
      (hrecord : Envelope.encodeEnvelope 0 payload = some record)
        (hkept : Evicts policy w.queue kept)
      (hgentle : U → ∀ item ∈ w.queue, item ∉ kept ++ [(n, record)] → retries item.1 w.log = 0) :
      OutboxStep policy U f w f (w.put (kept ++ [(n, record)]) [.queued n])
  /-- It is not queued. -/
  | refuse {kept} (hkept : Evicts policy w.queue kept)
      (hgentle : U → ∀ item ∈ w.queue, item ∉ kept → retries item.1 w.log = 0) :
      OutboxStep policy U f w f (w.put kept [])
  /-- It is sent live, for good. -/
  | live {n payload d} (hn : w.Submitting n payload) (hq : U ∨ w.queue = [])
      (hd : d ≠ .retryLater) :
      OutboxStep policy U f w f (w.put w.queue [.live n payload d])
  /-- It is to be retried but is not queued. -/
  | lost {n payload} (hn : w.Submitting n payload) (hq : w.queue = []) :
      OutboxStep policy U f w f (w.put [] [.live n payload .retryLater])
  /-- It is to be retried and is queued, as the front record. -/
  | later {n payload record t delayMs} (hn : w.Submitting n payload) (hq : w.queue = [])
      (hrecord : Envelope.encodeEnvelope 0 payload = some record) :
      OutboxStep policy U f w ⟨1, some (u64 (t + delayMs))⟩
        (((w.put [(n, record)] [.live n payload .retryLater, .queued n]).tick t).announce n delayMs)
  /-- A drain finds the queue empty. -/
  | empty {t} (hq : w.queue = []) : OutboxStep policy U f w {} (w.tick t)
  /-- A record is dropped that cannot be read or decoded. -/
  | dropCorrupt {n record rest t} (hq : w.queue = (n, record) :: rest)
      (hbad : U ∨ Envelope.decodeEnvelope kSizeBits record = none) :
      OutboxStep policy U f w {} ((w.tick t).put rest [.popped n])
  /-- It cannot be popped. -/
  | dropFailed {n record rest t} (hq : w.queue = (n, record) :: rest) :
      OutboxStep policy U f w f ((w.tick t).put w.queue [.popFailed n])
  /-- The front record is sent, for good, and popped. -/
  | sent {n record rest a payload d t} (hq : w.queue = (n, record) :: rest)
      (hrecord : Envelope.decodeEnvelope kSizeBits record = some (a, payload))
      (hd : d ≠ .retryLater) :
      OutboxStep policy U f w {} ((w.tick t).put rest [.drained n payload f.attempts d, .popped n])
  /-- It cannot be popped. -/
  | kept {n record rest a payload d t} (hq : w.queue = (n, record) :: rest)
      (hrecord : Envelope.decodeEnvelope kSizeBits record = some (a, payload))
      (hd : d ≠ .retryLater) :
      OutboxStep policy U f w f
        ((w.tick t).put w.queue [.drained n payload f.attempts d, .popFailed n])
  /-- It is to be retried. -/
  | retry {n record rest a payload t delayMs} (hq : w.queue = (n, record) :: rest)
      (hrecord : Envelope.decodeEnvelope kSizeBits record = some (a, payload)) :
      OutboxStep policy U f w
        ⟨if f.attempts < 255 then f.attempts + 1 else f.attempts, some (u64 (t + delayMs))⟩
        (((w.tick t).put w.queue [.drained n payload f.attempts .retryLater]).announce n delayMs)

/-! ## What a method does -/

/-- Whatever is answered, `m` ends in `Q`. -/
def Does {α : Type} (O : Prog.Outcomes OutboxIo Outside) (m : OutboxM α)
    (Q : α → OutboxState → Outside → Prop) (s : OutboxState) (w : Outside) : Prop :=
  Act.wp O (fun _ _ => True) (fun _ => True) m (fun r s' w' => ∀ a, r = .ok a → Q a s' w') s w

section Does

variable {α β : Type} {O : Prog.Outcomes OutboxIo Outside} {Q : α → OutboxState → Outside → Prop}
  {s : OutboxState} {w : Outside}

lemma does_pure {a : α} (h : Q a s w) : Does O (pure a) Q s w := by
  intro b hb
  obtain rfl := Except.ok.inj hb
  exact h

lemma does_bind {m : OutboxM β} {f : β → OutboxM α}
    (h : Does O m (fun b s' w' => Does O (f b) Q s' w') s w) : Does O (m >>= f) Q s w := by
  refine (Act.wp_bind m f _).mpr (Act.wp_mono h ?_)
  rintro (e | b) s' w' hb
  · exact e.elim
  · exact hb b rfl

lemma does_mono {m : OutboxM α} {Q' : α → OutboxState → Outside → Prop} (h : Does O m Q s w)
    (hQ : ∀ a s' w', Q a s' w' → Q' a s' w') : Does O m Q' s w :=
  Act.wp_mono h fun _ s' w' hr a ha => hQ a s' w' (hr a ha)

lemma does_perform {c : OutboxCall} {f : c.Val → OutboxM α}
    (h : ∀ r w', O c w r w' → Does O (f r) Q s w') : Does O (perform c >>= f) Q s w :=
  ⟨trivial, fun r w' hr => h r w' hr⟩

lemma does_get {f : OutboxState → OutboxM α} (h : Does O (f s) Q s w) :
    Does O (Outbox.get >>= f) Q s w := h

lemma does_modify {g : OutboxState → OutboxState} {f : Unit → OutboxM α}
    (h : Does O (f ()) Q (g s) w) : Does O (Outbox.modify g >>= f) Q s w := h

end Does

section

variable {α : Type} {policy : FullQueuePolicy} {U : Prop} {Q : α → OutboxState → Outside → Prop}
  {s : OutboxState} {w : Outside}

/-- An event that announces no delay. -/
lemma does_emit {e : Event} (he : e.kind ≠ .requestRetried) {f : Unit → OutboxM α}
    (h : Does (gentleAnswers policy U) (f ()) Q s w) :
    Does (gentleAnswers policy U) (perform (.emit e) >>= f) Q s w := by
  refine does_perform fun r w' hr => ?_
  obtain ⟨rfl, -⟩ := hr
  split
  · next hkind _ => exact absurd hkind he
  · exact h

lemma does_computeRetryDelay {cfg : OutboxConfig} {exponent hint : ℕ} {f : ℕ → OutboxM α}
    (h : ∀ delayMs, Does (gentleAnswers policy U) (f delayMs) Q s w) :
    Does (gentleAnswers policy U) (computeRetryDelay cfg exponent hint >>= f) Q s w := by
  refine does_bind ?_
  unfold computeRetryDelay
  dsimp only
  split
  · exact does_pure (h _)
  · split
    · exact does_pure (h _)
    · refine does_perform fun r w' hr => ?_
      obtain ⟨⟨-, rfl⟩, -⟩ := hr
      exact does_pure (h _)

/-! ## Submissions -/

/-- What an attempt to queue a submission returns and does. -/
structure Enqueued (policy : FullQueuePolicy) (U : Prop) (n : ℕ) (payload : Bytes) (w : Outside)
    (result : SubmitResult) (w' : Outside) : Prop where
  queued : result.status = .queued → ∃ record kept,
    Envelope.encodeEnvelope 0 payload = some record ∧ Evicts policy w.queue kept ∧
      w' = w.put (kept ++ [(n, record)]) [.queued n] ∧
      (U → ∀ item ∈ w.queue, item ∉ kept ++ [(n, record)] → retries item.1 w.log = 0)
  refused : result.status ≠ .queued → ∃ kept, Evicts policy w.queue kept ∧ w' = w.put kept [] ∧
    (U → ∀ item ∈ w.queue, item ∉ kept → retries item.1 w.log = 0)

lemma does_enqueueRecord {n : ℕ} {payload : Bytes} (hn : w.submitting = some n) :
    Does (gentleAnswers policy U) (enqueueRecord payload 0)
      (fun result s' w' => s' = s ∧ Enqueued policy U n payload w result w') s w := by
  unfold enqueueRecord
  split
  · refine does_emit (by simp) (does_pure ⟨rfl, ⟨fun h => ?_, fun _ => ?_⟩⟩)
    · simp at h
    · exact ⟨w.queue, ⟨[], rfl, fun _ => rfl⟩, by simp [Outside.put], fun _ _ h h' => absurd h h'⟩
  · next record hrecord =>
    refine does_perform fun r w' hr => ?_
    obtain ⟨⟨m, kept, hm, hkept, hw'⟩, -, hgentle⟩ := hr
    obtain rfl := Option.some.inj (hn.symm.trans hm)
    have hgentle' : U → ∀ item ∈ w.queue, item ∉ w'.queue → retries item.1 w.log = 0 :=
      fun hU => hgentle.resolve_left (not_not_intro hU)
    rcases r with st | u
    · have hfail : ∀ status : SubmitStatus, status ≠ .queued →
          Enqueued policy U n payload w { status := status, detail := some st } w' := by
        intro status hne
        refine ⟨fun h => absurd h hne, fun _ => ⟨kept, hkept, hw', ?_⟩⟩
        rw [hw'] at hgentle'
        exact hgentle'
      dsimp only
      split
      · exact does_pure ⟨rfl, hfail _ (by simp)⟩
      · exact does_pure ⟨rfl, hfail _ (by simp)⟩
    · refine does_pure
        ⟨rfl, ⟨fun _ => ⟨record, kept, hrecord, hkept, hw', ?_⟩, fun h => absurd rfl h⟩⟩
      rw [hw'] at hgentle'
      exact hgentle'

/-- What a submission returns, and what it did. -/
structure Submitted (policy : FullQueuePolicy) (U : Prop) (n : ℕ) (s : OutboxState) (w : Outside)
    (result : SubmitResult) (s' : OutboxState) (w' : Outside) : Prop where
  step : OutboxStep policy U s.front w s'.front w'
  logged : result.status = .queued → .queued n ∈ w'.log

lemma quiet_step (f : Front) : OutboxStep policy U f w f w := .quiet (t := w.now)

/-- The statistics of an empty queue. -/
lemma does_statsCount (hq : w.queue = []) :
    Does (gentleAnswers policy U) statsCount
      (fun count s' w' => count = 0 ∧ s' = s ∧ w' = w) s w := by
  refine does_perform fun r w' hr => ?_
  obtain ⟨⟨hcount, rfl⟩, -⟩ := hr
  rcases r with st | count
  · exact does_pure ⟨rfl, rfl, rfl⟩
  · refine does_pure ⟨?_, rfl, rfl⟩
    rw [hcount count rfl, hq]
    rfl

lemma does_submitLive {cfg : OutboxConfig} {n : ℕ} {payload : Bytes} (hn : w.Submitting n payload)
    (hq : U ∨ w.queue = []) :
    Does (gentleAnswers policy U) (submitLive cfg payload) (Submitted policy U n s w) s w := by
  refine does_perform fun result w' hr => ?_
  obtain ⟨rfl, -, hgentle⟩ := hr
  have hevents : w.sendEvents payload 0 result.decision = [.live n payload result.decision] := by
    simp [Outside.sendEvents, hn.1]
  rw [hevents]
  cases hd : result.decision with
  | sent =>
    refine does_emit (by simp) (does_pure ⟨.live hn hq (by simp), fun h => ?_⟩)
    simp at h
  | drop =>
    refine does_emit (by simp) (does_pure ⟨.live hn hq (by simp), fun h => ?_⟩)
    simp at h
  | retryLater =>
    have hempty : w.queue = [] := by
      rcases hq with hU | hq
      · by_contra hne
        exact hgentle.resolve_left (not_not_intro hU) (by simp [hn.1]) hne hd
      · exact hq
    rw [hempty]
    have hn' : (w.put [] [.live n payload .retryLater]).submitting = some n := hn.1
    refine does_bind (does_mono (does_statsCount rfl) ?_)
    rintro count s₁ w₁ ⟨rfl, rfl, rfl⟩
    refine does_bind (does_mono (does_enqueueRecord hn') ?_)
    rintro queued s₂ w₂ ⟨rfl, hqueued⟩
    by_cases hstatus : queued.status = .queued
    · rw [if_pos ⟨hstatus, rfl⟩]
      obtain ⟨record, kept, hrecord, ⟨evicted, hkept, -⟩, rfl, -⟩ := hqueued.queued hstatus
      obtain ⟨rfl, rfl⟩ := List.append_eq_nil_iff.mp hkept.symm
      refine does_modify (does_computeRetryDelay fun delayMs => does_perform fun now w₃ hr => ?_)
      obtain ⟨⟨-, rfl⟩, -⟩ := hr
      refine does_modify (does_perform fun u w₄ hr => ?_)
      obtain ⟨rfl, -⟩ := hr
      refine does_pure ⟨?_, fun _ => ?_⟩
      · have hstep : OutboxStep policy U s₂.front w ⟨1, some (u64 (now + delayMs))⟩ _ :=
          .later (t := now) hn hempty hrecord
        simpa [Outside.put, Outside.tick, Outside.announce, OutboxState.front] using hstep
      · simp [Outside.put, Outside.tick, Outside.announce]
    · rw [if_neg fun h => hstatus h.1]
      obtain ⟨kept, ⟨evicted, hkept, -⟩, rfl, -⟩ := hqueued.refused hstatus
      obtain ⟨rfl, rfl⟩ := List.append_eq_nil_iff.mp hkept.symm
      refine does_pure ⟨?_, fun h => absurd h hstatus⟩
      have hstep : OutboxStep policy U s₂.front w s₂.front _ := .lost hn hempty
      simpa [Outside.put] using hstep

/-- What a submission does. -/
lemma does_submit {cfg : OutboxConfig} {n : ℕ} {payload : Bytes} (hn : w.Submitting n payload) :
    Does (gentleAnswers policy U) (submit cfg payload) (Submitted policy U n s w) s w := by
  unfold submit
  split
  · refine does_emit (by simp) (does_pure ⟨quiet_step _, fun h => ?_⟩)
    simp at h
  · refine does_perform fun r w' hr => ?_
    obtain ⟨⟨hcount, rfl⟩, hread, -⟩ := hr
    rcases r with st | count
    · exact does_emit (by simp) (does_submitLive hn hread)
    · dsimp only
      by_cases hpos : count > 0
      · rw [if_pos hpos]
        refine does_mono (does_enqueueRecord hn.1) ?_
        rintro result s₁ w₁ ⟨rfl, hresult⟩
        have hq : w'.queue ≠ [] := by
          rw [← List.length_pos_iff, ← hcount count rfl]
          exact hpos
        by_cases hstatus : result.status = .queued
        · obtain ⟨record, kept, hrecord, hkept, rfl, hgentle⟩ := hresult.queued hstatus
          exact ⟨.accept hn hq hrecord hkept hgentle, fun _ => by simp [Outside.put]⟩
        · obtain ⟨kept, hkept, rfl, hgentle⟩ := hresult.refused hstatus
          exact ⟨.refuse hkept hgentle, fun h => absurd h hstatus⟩
      · rw [if_neg hpos]
        refine does_submitLive hn (.inr ?_)
        rw [← List.length_eq_zero_iff, ← hcount count rfl]
        omega

/-! ## Drains -/

/-- What a drain returns, and what it did. -/
structure Drained (policy : FullQueuePolicy) (U : Prop) (s : OutboxState) (w : Outside)
    (result : DrainResult) (s' : OutboxState) (w' : Outside) : Prop where
  step : OutboxStep policy U s.front w s'.front w'
  submitting : w'.submitting = w.submitting
  notDue : result.notDue = true → w'.queue ≠ [] ∧
    ∃ deadline, s'.front.cooldown = some deadline ∧ w'.now < deadline

/-- A failed pop. -/
lemma pop_error {st : Status} {w' : Outside}
    (h : gentleAnswers policy U .pop w (.error st) w') {n : ℕ} {record : Bytes}
    {rest : List (ℕ × Bytes)} (hq : w.queue = (n, record) :: rest) :
    w' = w.put w.queue [.popFailed n] := by
  obtain ⟨⟨L', hstep, hw'⟩, -⟩ := h
  obtain rfl : L' = w.queue := hstep
  rw [hq] at hw'
  rw [hq]
  exact hw'

/-- A successful pop. -/
lemma pop_ok {u : Unit} {w' : Outside} (h : gentleAnswers policy U .pop w (.ok u) w') :
    ∃ n record rest, w.queue = (n, record) :: rest ∧ w' = w.put rest [.popped n] := by
  obtain ⟨⟨L', ⟨⟨n, record⟩, hq⟩, hw'⟩, -⟩ := h
  rw [hq] at hw'
  exact ⟨n, record, L', hq, hw'⟩

lemma does_dropCorruptFrontRecord {cfg : OutboxConfig} {st : Status} {recordBytes t : ℕ}
    (hbad : ∀ n record rest, w.queue = (n, record) :: rest →
      U ∨ Envelope.decodeEnvelope kSizeBits record = none) :
    Does (gentleAnswers policy U) (dropCorruptFrontRecord cfg st recordBytes)
      (Drained policy U s w) s (w.tick t) := by
  refine does_get ?_
  split
  · refine does_emit (by simp) (does_pure ⟨.quiet, rfl, fun h => ?_⟩)
    simp at h
  · refine does_perform fun r w' hr => ?_
    rcases r with e | u
    · have hstep : OutboxStep policy U s.front w s.front w' ∧ w'.submitting = w.submitting := by
        cases hq : w.queue with
        | nil =>
          obtain ⟨⟨L', hL', hw'⟩, -⟩ := hr
          obtain rfl : L' = w.queue := hL'
          have hsame : w' = w.tick t := by
            simpa [Outside.put, Outside.tick, hq] using hw'
          rw [hsame]
          exact ⟨.quiet, rfl⟩
        | cons item rest =>
          obtain ⟨n, record⟩ := item
          rw [pop_error hr (show (w.tick t).queue = (n, record) :: rest from hq)]
          exact ⟨.dropFailed hq, rfl⟩
      refine does_emit (by simp) (does_pure ⟨hstep.1, hstep.2, fun h => ?_⟩)
      simp at h
    · obtain ⟨n, record, rest, hq, rfl⟩ := pop_ok hr
      have hstep : OutboxStep policy U s.front w {} ((w.tick t).put rest [.popped n]) :=
        .dropCorrupt hq (hbad n record rest hq)
      refine does_modify (does_modify (does_emit (by simp) (does_pure ⟨hstep, rfl, fun h => ?_⟩)))
      simp at h

/-- After the send of the front record, which was for good. -/
lemma does_removeFront {result : DrainResult} {d : SendDecision} {recordBytes n a t : ℕ}
    {record payload : Bytes} {rest : List (ℕ × Bytes)} (hq : w.queue = (n, record) :: rest)
    (hrecord : Envelope.decodeEnvelope kSizeBits record = some (a, payload)) (hd : d ≠ .retryLater)
    (hresult : result.notDue = false) :
    Does (gentleAnswers policy U) (removeFront result d recordBytes) (Drained policy U s w) s
      ((w.tick t).put w.queue [.drained n payload s.front.attempts d]) := by
  unfold removeFront
  refine does_perform fun r w' hr => ?_
  rcases r with st | u
  · obtain rfl := pop_error hr hq
    refine does_emit (by simp) (does_pure ⟨?_, rfl, fun h => ?_⟩)
    · have hstep : OutboxStep policy U s.front w s.front _ := .kept (t := t) hq hrecord hd
      simpa [Outside.put, Outside.tick] using hstep
    · simp [hresult] at h
  · obtain ⟨m, record', rest', hq', rfl⟩ := pop_ok hr
    obtain ⟨⟨rfl, rfl⟩, rfl⟩ : (n = m ∧ record = record') ∧ rest = rest' := by
      have h := hq.symm.trans hq'
      simpa using h
    have hstep : OutboxStep policy U s.front w {}
        ((w.tick t).put rest [.drained n payload s.front.attempts d, .popped n]) :=
      .sent hq hrecord hd
    have hdone : OutboxStep policy U s.front w {}
        (((w.tick t).put w.queue [.drained n payload s.front.attempts d]).put rest
          [.popped n]) := by
      simpa [Outside.put, Outside.tick] using hstep
    refine does_get (does_modify ?_)
    split
    · refine does_emit (by simp) (does_pure ⟨hdone, rfl, fun h => ?_⟩)
      simp [hresult] at h
    · refine does_emit (by simp) (does_pure ⟨hdone, rfl, fun h => ?_⟩)
      simp [hresult] at h

lemma front_recordDrainAttempt {nowMs : ℕ} {f : Unit → OutboxM α}
    (h : ∀ s' : OutboxState, s'.front = s.front → Does (gentleAnswers policy U) (f ()) Q s' w) :
    Does (gentleAnswers policy U) (recordDrainAttempt nowMs >>= f) Q s w := by
  unfold recordDrainAttempt
  refine does_modify (h _ ?_)
  unfold OutboxState.front
  dsimp only
  split <;> split <;> rfl

/-- The front record is sent. -/
lemma does_drainSend {cfg : OutboxConfig} {nowMs recordBytes n a : ℕ} {record payload : Bytes}
    {rest : List (ℕ × Bytes)} (hidle : w.submitting = none) (hq : w.queue = (n, record) :: rest)
    (hrecord : Envelope.decodeEnvelope kSizeBits record = some (a, payload)) :
    Does (gentleAnswers policy U) (drainSend cfg nowMs payload recordBytes) (Drained policy U s w) s
      (w.tick nowMs) := by
  unfold drainSend
  refine front_recordDrainAttempt fun s₁ hs₁ => does_get (does_emit (by simp) ?_)
  refine does_perform fun result w' hr => ?_
  obtain ⟨rfl, -⟩ := hr
  have hevents : (w.tick nowMs).sendEvents payload s₁.frontAttempts result.decision =
      [.drained n payload s.front.attempts result.decision] := by
    rw [← hs₁]
    simp [Outside.sendEvents, Outside.tick, hidle, hq, OutboxState.front]
  rw [hevents]
  have hremove : ∀ d : SendDecision, d ≠ .retryLater →
      Does (gentleAnswers policy U) (removeFront { attempts := 1 } d recordBytes)
        (Drained policy U s w) s₁
        ((w.tick nowMs).put (w.tick nowMs).queue [.drained n payload s.front.attempts d]) := by
    intro d hd
    rw [← hs₁]
    refine does_mono (does_removeFront (s := s₁) hq hrecord hd rfl) ?_
    intro b s' w' h
    exact ⟨hs₁ ▸ h.step, h.submitting, h.notDue⟩
  cases hd : result.decision with
  | sent => exact hremove .sent (by simp)
  | drop => exact hremove .drop (by simp)
  | retryLater =>
    refine does_modify (does_get (does_computeRetryDelay fun delayMs => does_modify ?_))
    refine does_perform fun u w₂ hr => ?_
    obtain ⟨rfl, -⟩ := hr
    refine does_pure ⟨?_, ?_, fun h => ?_⟩
    · have hstep : OutboxStep policy U s.front w ⟨_, some (u64 (nowMs + delayMs))⟩ _ :=
        .retry hq hrecord
      rw [← hs₁] at hstep ⊢
      convert hstep using 1
      · rfl
      · simp [Outside.put, Outside.tick, hq]
    · simp [Outside.put, Outside.tick, Outside.announce, hq]
    · simp at h

/-- What a drain does. -/
lemma does_drainOne {cfg : OutboxConfig} {enforceRateLimit : Bool} (hidle : w.submitting = none) :
    Does (gentleAnswers policy U) (drainOne cfg enforceRateLimit) (Drained policy U s w) s w := by
  unfold drainOne
  split
  · refine does_emit (by simp) (does_pure ⟨quiet_step _, rfl, fun h => ?_⟩)
    simp at h
  refine does_perform fun nowMs w' hr => ?_
  obtain ⟨⟨-, rfl⟩, -⟩ := hr
  refine does_perform fun r w' hr => ?_
  obtain ⟨⟨hpeek, hcode, rfl⟩, hread, -⟩ := hr
  rcases r with st | record
  · dsimp only
    by_cases hempty : st.code = .queueEmpty
    · rw [if_pos hempty]
      have hq : w.queue = [] := hcode st rfl hempty
      refine does_modify (does_pure ⟨.empty hq, rfl, fun h => ?_⟩)
      simp at h
    rw [if_neg hempty]
    split
    · refine does_dropCorruptFrontRecord fun n record rest hq => .inl ?_
      refine hread.resolve_right fun hnil => ?_
      have hnil' : w.queue = [] := hnil
      simp [hq] at hnil'
    · refine does_emit (by simp) (does_pure ⟨.quiet, rfl, fun h => ?_⟩)
      simp at h
  · obtain ⟨-, n, rest, hq⟩ := hpeek
    replace hq : w.queue = (n, record) :: rest := hq
    dsimp only
    split
    · next hnone =>
      refine does_dropCorruptFrontRecord fun m record' rest' hq' => .inr ?_
      rw [hq] at hq'
      simp only [List.cons.injEq, Prod.mk.injEq] at hq'
      rw [← hq'.1.2]
      exact hnone
    · next a payload hrecord =>
      refine does_get ?_
      by_cases hcool : frontIsCoolingDown s nowMs = true
      · rw [if_pos hcool]
        refine does_emit (by simp) (does_pure ⟨.quiet, rfl, fun _ => ⟨?_, ?_⟩⟩)
        · simp [Outside.tick, hq]
        · simp only [frontIsCoolingDown, Bool.and_eq_true, decide_eq_true_eq] at hcool
          exact ⟨s.frontNextAttemptMs, by simp [OutboxState.front, hcool.1], hcool.2⟩
      · rw [if_neg hcool]
        split
        · refine does_emit (by simp) (does_pure ⟨.quiet, rfl, fun h => ?_⟩)
          simp at h
        · exact does_drainSend hidle hq hrecord

end

end Pqueue
