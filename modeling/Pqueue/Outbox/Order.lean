import Pqueue.Outbox.Runs
import Pqueue.Program.History

/-!
# The outbox delivers in order and loses nothing

What holds of the log of a run when the queue is one of `RejectNewest` that fails only where its
callers expect it.  `Lawful` is the law of a single event, by what came before
it: `outbox_delivery` says that every event of every run is lawful, and that what was accepted
stays queued until it was decided for good and popped.
-/

namespace Pqueue

open Effect LittleEndian Outbox

/-! ## The queue -/

/-- A queue of `RejectNewest` whose only failures are that it is full, and pops. -/
def calmAnswers : Prog.Outcomes OutboxIo Outside := fun c w r w' =>
  answers .rejectNewest c w r w' ∧
    match c, r with
    | .statsResult, .error _ => False
    | .peek, .error st => st.code = .queueEmpty
    | .enqueue _, .error st => st.code = .queueFull
    | _, _ => True

lemma calm_gentle {c : OutboxCall} {w : Outside} {r : c.Val} {w' : Outside}
    (h : calmAnswers c w r w') : gentleAnswers .rejectNewest False c w r w' := by
  obtain ⟨hanswer, hcalm⟩ := h
  refine ⟨hanswer, .inr ?_, .inl id⟩
  cases c with
  | statsResult =>
    cases r with
    | ok count => trivial
    | error st => exact hcalm.elim
  | peek =>
    cases r with
    | ok data => trivial
    | error st => exact hanswer.2.1 st rfl hcalm
  | _ => trivial

/-! ## The law -/

namespace OutboxEvent

/-- A Sent or Drop decision for `n`. -/
def decides (n : ℕ) : OutboxEvent → Prop
  | .live m _ d | .drained m _ _ d => m = n ∧ d ≠ .retryLater
  | _ => False

/-- A pop that failed while `n` was at the front. -/
def popFails (n : ℕ) : OutboxEvent → Prop
  | .popFailed m => m = n
  | _ => False

end OutboxEvent

/-- The numbers queued after a log, `ids` having been queued before it. -/
def pending : List ℕ → List OutboxEvent → List ℕ
  | ids, [] => ids
  | ids, .queued n :: log => pending (ids ++ [n]) log
  | ids, .popped n :: log => pending (ids.erase n) log
  | ids, _ :: log => pending ids log

/-- A Sent or Drop decision for `n` was not followed by a failed pop. -/
def Disposed (n : ℕ) (log : List OutboxEvent) : Prop :=
  Unanswered (OutboxEvent.decides n) (OutboxEvent.popFails n) log

/-- No number above `n` has been decided. -/
def InOrder (n : ℕ) (pre : List OutboxEvent) : Prop :=
  ∀ m, ∀ e ∈ pre, e.decides m → m ≤ n

/-- What an event may be, after the events `pre` of a run from `w₀`. -/
def Lawful (w₀ : Outside) (pre : List OutboxEvent) : OutboxEvent → Prop
  | .begun n _ => w₀.next ≤ n ∧ ∀ m payload, .begun m payload ∈ pre → m < n
  | .live n payload d => pending w₀.ids pre = [] ∧ .begun n payload ∈ pre ∧
      (d ≠ .retryLater → InOrder n pre) ∧ ¬Disposed n pre
  | .drained n payload _ d => (w₀.next ≤ n → .begun n payload ∈ pre) ∧
      (d ≠ .retryLater → InOrder n pre) ∧ ¬Disposed n pre
  | .popped n => w₀.next ≤ n → ∃ pre' payload a d, pre = pre' ++ [.drained n payload a d] ∧
      d ≠ .retryLater
  | .returned n status => status = .queued → .queued n ∈ pre ∧ w₀.next ≤ n
  | .queued _ | .popFailed _ => True

lemma pending_append (ids : List ℕ) (log chunk : List OutboxEvent) :
    pending ids (log ++ chunk) = pending (pending ids log) chunk := by
  induction log generalizing ids with
  | nil => rfl
  | cons e log ih => cases e <;> exact ih _

/-- What was queued is queued still, or has been popped. -/
lemma mem_pending {n : ℕ} {log : List OutboxEvent} (ids : List ℕ)
    (h : n ∈ ids ∨ .queued n ∈ log) : n ∈ pending ids log ∨ .popped n ∈ log := by
  induction log generalizing ids with
  | nil => simpa [pending] using h
  | cons e log ih =>
    cases e with
    | queued m =>
      have hmem : n ∈ ids ++ [m] ∨ .queued n ∈ log := by
        simp only [List.mem_append, List.mem_cons, List.not_mem_nil, or_false,
          OutboxEvent.queued.injEq] at h ⊢
        tauto
      simpa [pending] using ih _ hmem
    | popped m =>
      by_cases hm : n = m
      · simp [hm]
      · have hmem : n ∈ ids.erase m ∨ .queued n ∈ log := by
          simpa [List.mem_erase_of_ne hm] using h
        simpa [pending, hm] using ih _ hmem
    | _ => simpa [pending] using ih _ (by simpa using h)

/-! ## The invariant -/

/-- A queue and a log in order.  Numbers below `b` are in use. -/
structure Orderly (w₀ : Outside) (b : ℕ) (queue : List (ℕ × Bytes)) (log : List OutboxEvent) :
    Prop where
  lawful : Along (Lawful w₀) log
  pending : queue.map Prod.fst = pending w₀.ids log
  increasing : (queue.map Prod.fst).Pairwise (· < ·)
  below : ∀ n ∈ queue.map Prod.fst, n < b
  decided : ∀ n, ∀ e ∈ log, e.decides n → n < b ∧ ∀ m ∈ queue.map Prod.fst, n ≤ m
  unsettled : ∀ n ∈ queue.map Prod.fst, ¬Disposed n log
  stored : ∀ n record, (n, record) ∈ queue → w₀.next ≤ n → ∃ payload, .begun n payload ∈ log ∧
    Envelope.encodeEnvelope 0 payload = some record

section

variable {w₀ : Outside} {b b' n : ℕ} {queue rest : List (ℕ × Bytes)} {log : List OutboxEvent}
  {payload record : Bytes}

lemma Disposed.append {chunk : List OutboxEvent} (h : Disposed n (log ++ chunk)) :
    Disposed n log ∨ Disposed n chunk := Unanswered.append h

/-- An event that is not a decision settles nothing. -/
lemma not_disposed_singleton {e : OutboxEvent} (he : ¬e.decides n) : ¬Disposed n [e] := by
  intro h
  obtain ⟨e', he', hd⟩ := Unanswered.exists_mem h
  obtain rfl := List.mem_singleton.mp he'
  exact he hd

/-- An event that neither queues, pops nor decides. -/
lemma Orderly.quiet {e : OutboxEvent} (h : Orderly w₀ b queue log) (hlaw : Lawful w₀ log e)
    (hd : ∀ m, ¬e.decides m) (hpending : ∀ ids, Pqueue.pending ids [e] = ids) :
    Orderly w₀ b queue (log ++ [e]) where
  lawful := h.lawful.concat hlaw
  pending := by rw [h.pending, pending_append, hpending]
  increasing := h.increasing
  below := h.below
  decided m e' he' hd' := by
    rcases List.mem_append.mp he' with he' | he'
    · exact h.decided m e' he' hd'
    · obtain rfl := List.mem_singleton.mp he'
      exact absurd hd' (hd m)
  unsettled m hm hs := by
    rcases hs.append with hs | hs
    · exact h.unsettled m hm hs
    · exact not_disposed_singleton (hd m) hs
  stored m record' hm hfirst := by
    obtain ⟨payload', hbegun, hrecord⟩ := h.stored m record' hm hfirst
    exact ⟨payload', List.mem_append_left _ hbegun, hrecord⟩

/-- More numbers are in use. -/
lemma Orderly.mono (h : Orderly w₀ b queue log) (hb : b ≤ b') : Orderly w₀ b' queue log where
  lawful := h.lawful
  pending := h.pending
  increasing := h.increasing
  below m hm := (h.below m hm).trans_le hb
  decided m e he hd := ⟨(h.decided m e he hd).1.trans_le hb, (h.decided m e he hd).2⟩
  unsettled := h.unsettled
  stored := h.stored

/-- Numbers not in use are undecided. -/
lemma Orderly.fresh (h : Orderly w₀ b queue log) (hn : b ≤ n) :
    InOrder n log ∧ ¬Disposed n log := by
  refine ⟨fun m e he hd => ((h.decided m e he hd).1.trans_le hn).le, fun hs => ?_⟩
  obtain ⟨e, he, hd⟩ := Unanswered.exists_mem hs
  exact absurd ((h.decided n e he hd).1) (by omega)

/-- The front is undecided, and so is all that follows it. -/
lemma Orderly.front (h : Orderly w₀ b ((n, record) :: rest) log) :
    InOrder n log ∧ ¬Disposed n log ∧ ∀ m ∈ rest.map Prod.fst, n < m := by
  refine ⟨fun m e he hd => (h.decided m e he hd).2 n (by simp), h.unsettled n (by simp), ?_⟩
  have := h.increasing
  simp only [List.map_cons, List.pairwise_cons] at this
  exact this.1

/-- A live send. -/
lemma Orderly.live {d : SendDecision} (h : Orderly w₀ b [] log) (hn : b ≤ n) (hb : b ≤ b')
    (hd : d ≠ .retryLater → n < b') (hbegun : .begun n payload ∈ log) :
    Orderly w₀ b' [] (log ++ [.live n payload d]) where
  lawful := h.lawful.concat ⟨h.pending.symm, hbegun, fun _ => (h.fresh hn).1, (h.fresh hn).2⟩
  pending := by rw [pending_append, ← h.pending]; rfl
  increasing := .nil
  below := by simp
  decided m e he hdm := by
    refine ⟨?_, by simp⟩
    rcases List.mem_append.mp he with he | he
    · exact (h.decided m e he hdm).1.trans_le hb
    · obtain rfl := List.mem_singleton.mp he
      obtain ⟨rfl, hne⟩ := hdm
      exact hd hne
  unsettled := by simp
  stored := by simp

/-- A submission is queued. -/
lemma Orderly.queued (h : Orderly w₀ b queue log) (hn : b ≤ n) (hb : n < b')
    (hbegun : .begun n payload ∈ log) (hrecord : Envelope.encodeEnvelope 0 payload = some record) :
    Orderly w₀ b' (queue ++ [(n, record)]) (log ++ [.queued n]) where
  lawful := h.lawful.concat trivial
  pending := by
    rw [pending_append, ← h.pending, List.map_append]
    rfl
  increasing := by
    rw [List.map_append, List.pairwise_append]
    refine ⟨h.increasing, by simp, fun m hm k hk => ?_⟩
    obtain rfl : k = n := by simpa using hk
    exact (h.below m hm).trans_le hn
  below m hm := by
    rw [List.map_append, List.mem_append] at hm
    rcases hm with hm | hm
    · have := h.below m hm
      omega
    · obtain rfl : m = n := by simpa using hm
      exact hb
  decided m e he hd := by
    rcases List.mem_append.mp he with he | he
    · obtain ⟨hlt, hle⟩ := h.decided m e he hd
      refine ⟨by omega, fun k hk => ?_⟩
      rw [List.map_append, List.mem_append] at hk
      rcases hk with hk | hk
      · exact hle k hk
      · obtain rfl : k = n := by simpa using hk
        omega
    · obtain rfl := List.mem_singleton.mp he
      exact hd.elim
  unsettled m hm hs := by
    rw [List.map_append, List.mem_append] at hm
    rcases hs.append with hold | hnew
    · rcases hm with hm | hm
      · exact h.unsettled m hm hold
      · obtain rfl : m = n := by simpa using hm
        exact (h.fresh hn).2 hold
    · exact not_disposed_singleton (e := .queued n) id hnew
  stored m record' hm hfirst := by
    rcases List.mem_append.mp hm with hm | hm
    · obtain ⟨payload', hbegun', hrecord'⟩ := h.stored m record' hm hfirst
      exact ⟨payload', List.mem_append_left _ hbegun', hrecord'⟩
    · obtain ⟨rfl, rfl⟩ : m = n ∧ record' = record := by simpa using hm
      exact ⟨payload, List.mem_append_left _ hbegun, hrecord⟩

/-- The payload of a record of this run. -/
lemma Orderly.decoded {a : ℕ} (h : Orderly w₀ b ((n, record) :: rest) log)
    (hrecord : Envelope.decodeEnvelope kSizeBits record = some (a, payload)) (hn : w₀.next ≤ n) :
    .begun n payload ∈ log := by
  obtain ⟨payload', hbegun, hencoded⟩ := h.stored n record (by simp) hn
  have hdecoded := decode_encoded hencoded
  rw [hrecord] at hdecoded
  obtain ⟨-, rfl⟩ := Prod.mk.inj (Option.some.inj hdecoded)
  exact hbegun

/-- A queued record is sent, to be retried. -/
lemma Orderly.retried {a k : ℕ} (h : Orderly w₀ b ((n, record) :: rest) log)
    (hrecord : Envelope.decodeEnvelope kSizeBits record = some (a, payload)) :
    Orderly w₀ b ((n, record) :: rest) (log ++ [.drained n payload k .retryLater]) :=
  h.quiet ⟨h.decoded hrecord, fun hne => absurd rfl hne, h.front.2.1⟩ (fun _ hd => hd.2 rfl)
    fun _ => rfl

/-- The front record goes. -/
lemma Orderly.popped (h : Orderly w₀ b ((n, record) :: rest) log)
    (hlaw : Lawful w₀ log (.popped n)) : Orderly w₀ b rest (log ++ [.popped n]) where
  lawful := h.lawful.concat hlaw
  pending := by
    rw [pending_append, ← h.pending]
    simp [Pqueue.pending]
  increasing := by
    have := h.increasing
    rw [List.map_cons, List.pairwise_cons] at this
    exact this.2
  below m hm := h.below m (List.mem_cons_of_mem _ hm)
  decided m e he hd := by
    rcases List.mem_append.mp he with he | he
    · obtain ⟨hlt, hle⟩ := h.decided m e he hd
      exact ⟨hlt, fun k hk => hle k (List.mem_cons_of_mem _ hk)⟩
    · obtain rfl := List.mem_singleton.mp he
      exact hd.elim
  unsettled m hm hs := by
    rcases hs.append with hs | hs
    · exact h.unsettled m (List.mem_cons_of_mem _ hm) hs
    · exact not_disposed_singleton (e := .popped n) id hs
  stored m record' hm hfirst := by
    obtain ⟨payload', hbegun, hrecord⟩ := h.stored m record' (List.mem_cons_of_mem _ hm) hfirst
    exact ⟨payload', List.mem_append_left _ hbegun, hrecord⟩

/-- A record is dropped that is not one of this run. -/
lemma Orderly.dropped (h : Orderly w₀ b ((n, record) :: rest) log)
    (hbad : Envelope.decodeEnvelope kSizeBits record = none) :
    Orderly w₀ b rest (log ++ [.popped n]) := by
  refine h.popped fun hfirst => ?_
  obtain ⟨payload, -, hencoded⟩ := h.stored n record (by simp) hfirst
  have hdecoded := decode_encoded hencoded
  rw [hbad] at hdecoded
  simp at hdecoded

/-- A queued record is decided, and the pop that follows fails or does not. -/
lemma Orderly.settle {a k : ℕ} {d : SendDecision} (h : Orderly w₀ b ((n, record) :: rest) log)
    (hrecord : Envelope.decodeEnvelope kSizeBits record = some (a, payload))
    (hd : d ≠ .retryLater) :
    Orderly w₀ b rest (log ++ [.drained n payload k d, .popped n]) ∧
      Orderly w₀ b ((n, record) :: rest) (log ++ [.drained n payload k d, .popFailed n]) := by
  have hlaw : Lawful w₀ log (.drained n payload k d) :=
    ⟨h.decoded hrecord, fun _ => h.front.1, h.front.2.1⟩
  have hdecides : ∀ {m : ℕ} {last : OutboxEvent}, (∀ m, ¬last.decides m) →
      (∃ e ∈ [.drained n payload k d, last], OutboxEvent.decides m e) → m = n := by
    rintro m last hlast ⟨e, he, hm⟩
    simp only [List.mem_cons, List.not_mem_nil, or_false] at he
    rcases he with rfl | rfl
    · exact hm.1.symm
    · exact absurd hm (hlast m)
  have hmem : ∀ {m : ℕ} {record' : Bytes} {chunk : List OutboxEvent},
      (m, record') ∈ (n, record) :: rest → w₀.next ≤ m →
        ∃ payload, .begun m payload ∈ log ++ chunk ∧
        Envelope.encodeEnvelope 0 payload = some record' := by
    intro m record' chunk hm hfirst
    obtain ⟨payload', hbegun, hencoded⟩ := h.stored m record' hm hfirst
    exact ⟨payload', List.mem_append_left _ hbegun, hencoded⟩
  have hdecided : ∀ {last : OutboxEvent}, (∀ m, ¬last.decides m) → ∀ m,
      ∀ e ∈ log ++ [.drained n payload k d, last], e.decides m →
        m < b ∧ ∀ i ∈ ((n, record) :: rest).map Prod.fst, m ≤ i := by
    intro last hlast m e he hm
    rcases List.mem_append.mp he with he | he
    · exact h.decided m e he hm
    · obtain rfl := hdecides hlast ⟨e, he, hm⟩
      refine ⟨h.below m (by simp), fun i hi => ?_⟩
      rw [List.map_cons, List.mem_cons] at hi
      rcases hi with rfl | hi
      · exact le_rfl
      · exact (h.front.2.2 i hi).le
  constructor
  · refine ⟨?_, ?_, ?_, fun m hm => h.below m (List.mem_cons_of_mem _ hm), ?_, ?_, ?_⟩
    · rw [List.append_cons]
      exact (h.lawful.concat hlaw).concat fun _ => ⟨log, payload, k, d, rfl, hd⟩
    · rw [pending_append, ← h.pending]
      simp [Pqueue.pending]
    · have := h.increasing
      rw [List.map_cons, List.pairwise_cons] at this
      exact this.2
    · intro m e he hm
      obtain ⟨hlt, hle⟩ := hdecided (fun _ => id) m e he hm
      exact ⟨hlt, fun i hi => hle i (List.mem_cons_of_mem _ hi)⟩
    · intro m hm hs
      rcases hs.append with hold | hnew
      · exact h.unsettled m (List.mem_cons_of_mem _ hm) hold
      · obtain rfl := hdecides (fun _ => id) (Unanswered.exists_mem hnew)
        exact absurd (h.front.2.2 m hm) (lt_irrefl m)
    · exact fun m record' hm hfirst => hmem (List.mem_cons_of_mem _ hm) hfirst
  · refine ⟨?_, ?_, h.increasing, h.below, ?_, ?_, ?_⟩
    · rw [List.append_cons]
      exact (h.lawful.concat hlaw).concat trivial
    · rw [pending_append, ← h.pending]
      rfl
    · exact hdecided fun _ => id
    · intro m hm hs
      rcases hs.append with hold | ⟨pre, e, post, heq, hdec, hpost⟩
      · exact h.unsettled m hm hold
      · -- the decision is answered by the failed pop
        cases pre with
        | nil =>
          obtain ⟨rfl, rfl⟩ := List.cons.inj heq
          obtain ⟨rfl, -⟩ := hdec
          exact hpost _ rfl rfl
        | cons first pre =>
          obtain ⟨rfl, htail⟩ := List.cons.inj heq
          have he : e = .popFailed n := by
            have : e ∈ [OutboxEvent.popFailed n] := htail ▸ by simp
            exact List.mem_singleton.mp this
          rw [he] at hdec
          exact hdec.elim
    · exact fun m record' hm hfirst => hmem hm hfirst

/-! ## Steps and runs -/

/-- What one submission or drain does to a queue in order.  A submission has a number that is not
in use. -/
lemma orderly_step {f f' : Front} {w w' : Outside}
    (hstep : OutboxStep .rejectNewest False f w f' w') (h : Orderly w₀ b w.queue w.log)
    (hn : ∀ n, w.submitting = some n → b ≤ n ∧ n < b') (hb : b ≤ b') :
    Orderly w₀ b' w'.queue w'.log ∧ w'.next = w.next := by
  have hkeep : ∀ {kept}, Evicts .rejectNewest w.queue kept → kept = w.queue := by
    rintro kept ⟨evicted, hkept, hnone⟩
    rw [hkept, hnone rfl, List.nil_append]
  cases hstep with
  | quiet => exact ⟨h.mono hb, rfl⟩
  | accept hsub hq hrecord hkept =>
    obtain rfl := hkeep hkept
    exact ⟨h.queued (hn _ hsub.1).1 (hn _ hsub.1).2 hsub.2 hrecord, rfl⟩
  | refuse hkept =>
    obtain rfl := hkeep hkept
    refine ⟨?_, rfl⟩
    simpa [Outside.put] using h.mono hb
  | live hsub hq hd =>
    have hq := hq.resolve_left id
    rw [hq] at h ⊢
    exact ⟨h.live (hn _ hsub.1).1 hb (fun _ => (hn _ hsub.1).2) hsub.2, rfl⟩
  | lost hsub hq =>
    rw [hq] at h
    exact ⟨h.live (hn _ hsub.1).1 hb (fun hne => absurd rfl hne) hsub.2, rfl⟩
  | @later n payload _ _ _ hsub hq hrecord =>
    rw [hq] at h
    have hlive : Orderly w₀ b [] (w.log ++ [.live n payload .retryLater]) :=
      h.live (hn _ hsub.1).1 le_rfl (fun hne => absurd rfl hne) hsub.2
    have hqueued := hlive.queued (hn _ hsub.1).1 (hn _ hsub.1).2
      (List.mem_append_left _ hsub.2) hrecord
    rw [List.append_assoc] at hqueued
    exact ⟨hqueued, rfl⟩
  | empty hq => exact ⟨h.mono hb, rfl⟩
  | dropCorrupt hq hbad =>
    rw [hq] at h
    exact ⟨(h.dropped (hbad.resolve_left id)).mono hb, rfl⟩
  | dropFailed hq =>
    exact ⟨(h.quiet (e := .popFailed _) trivial (fun _ => id) fun _ => rfl).mono hb, rfl⟩
  | sent hq hrecord hd =>
    rw [hq] at h
    exact ⟨(h.settle hrecord hd).1.mono hb, rfl⟩
  | kept hq hrecord hd =>
    rw [hq] at h ⊢
    exact ⟨(h.settle hrecord hd).2.mono hb, rfl⟩
  | retry hq hrecord =>
    rw [hq] at h ⊢
    exact ⟨(h.retried hrecord).mono hb, rfl⟩

/-- The outside between the methods. -/
structure Rests (w₀ w : Outside) : Prop where
  orderly : Orderly w₀ w.next w.queue w.log
  idle : w.submitting = none
  numbers : ∀ n payload, .begun n payload ∈ w.log → n < w.next
  first : w₀.next ≤ w.next

lemma OutboxStep.begun_mem {policy : FullQueuePolicy} {U : Prop} {f f' : Front} {w w' : Outside}
    (hstep : OutboxStep policy U f w f' w') {m : ℕ} {p : Bytes} (h : .begun m p ∈ w'.log) :
    .begun m p ∈ w.log := by
  cases hstep <;>
    simpa [Outside.put, Outside.tick, Outside.announce] using h

lemma rests_start (h : w₀.Initial) : Rests w₀ w₀ where
  orderly := by
    rw [h.log]
    refine ⟨along_nil, rfl, h.increasing, h.below, by simp, fun n _ hs => ?_, ?_⟩
    · obtain ⟨e, he, -⟩ := Unanswered.exists_mem hs
      simp at he
    · intro n record hm hfirst
      have := h.below n (List.mem_map_of_mem hm)
      omega
  idle := h.idle
  numbers := by simp [h.log]
  first := le_rfl

lemma does_submit_rests {cfg : OutboxConfig} {s : OutboxState} {w : Outside} (h : Rests w₀ w) :
    Does (gentleAnswers .rejectNewest False) (submit cfg payload)
      (fun r _ w' => Rests w₀ (w'.finish w.next r.status)) s (w.begin payload) := by
  have hsub : (w.begin payload).Submitting w.next payload := ⟨rfl, by simp [Outside.begin]⟩
  have hbegin : Orderly w₀ w.next (w.begin payload).queue (w.begin payload).log :=
    h.orderly.quiet ⟨h.first, h.numbers⟩ (fun _ => id) fun _ => rfl
  refine does_mono (does_submit hsub) fun result s' w' hsubmitted => ?_
  obtain ⟨horderly, hnext⟩ := orderly_step hsubmitted.step hbegin (by simp [Outside.begin])
    (Nat.le_succ w.next)
  have hlaw : Lawful w₀ w'.log (.returned w.next result.status) :=
    fun hqueued => ⟨hsubmitted.logged hqueued, h.first⟩
  have hnext' : (w'.finish w.next result.status).next = w.next + 1 := hnext
  refine ⟨?_, rfl, fun m p hm => ?_, ?_⟩
  · rw [hnext']
    exact horderly.quiet hlaw (fun _ => id) fun _ => rfl
  · have hm' : .begun m p ∈ (w.begin payload).log := by
      refine hsubmitted.step.begun_mem ?_
      simpa [Outside.finish] using hm
    have hmem : .begun m p ∈ w.log ∨ m = w.next ∧ p = payload := by
      simpa [Outside.begin] using hm'
    rw [hnext']
    rcases hmem with hold | ⟨rfl, -⟩
    · have := h.numbers m p hold
      omega
    · omega
  · have := h.first
    omega

lemma does_drain_rests {cfg : OutboxConfig} {s : OutboxState} {w : Outside} (h : Rests w₀ w) :
    Does (gentleAnswers .rejectNewest False) (drainOne cfg true)
      (fun _ _ w' => Rests w₀ w') s w := by
  refine does_mono (does_drainOne h.idle) fun result s' w' hdrained => ?_
  obtain ⟨horderly, hnext⟩ := orderly_step hdrained.step h.orderly (by simp [h.idle]) le_rfl
  refine ⟨?_, hdrained.submitting.trans h.idle, fun m p hm => ?_, ?_⟩
  · rw [hnext]
    exact horderly
  · rw [hnext]
    exact h.numbers m p (hdrained.step.begun_mem hm)
  · rw [hnext]
    exact h.first

/-- What was accepted is queued until it was decided for good and popped. -/
lemma kept_until {pre : List OutboxEvent} (h : Along (Lawful w₀) pre)
    (hn : .returned n .queued ∈ pre) :
    n ∈ pending w₀.ids pre ∨ ∃ pre' payload a d post,
      pre = pre' ++ .drained n payload a d :: .popped n :: post ∧ d ≠ .retryLater := by
  obtain ⟨pre₁, post₁, rfl, hlaw⟩ := h.of_mem hn
  obtain ⟨hqueued, hfirst⟩ := hlaw rfl
  rcases mem_pending w₀.ids (.inr (List.mem_append_left _ hqueued)) with hp | hp
  · exact .inl hp
  · obtain ⟨pre₂, post₂, heq, hpop⟩ := h.of_mem hp
    obtain ⟨pre₃, payload, a, d, rfl, hd⟩ := hpop hfirst
    refine .inr ⟨pre₃, payload, a, d, post₂, ?_, hd⟩
    rw [heq, List.append_assoc]
    rfl

end

/-- **Delivery in order, without loss.**  In every run over a queue of `RejectNewest` whose only
failures are that it is full, and pops: every event is lawful, the queue holds what the log says is
pending, and what was accepted is pending until it was decided for good and popped. -/
theorem outbox_delivery {cfg : OutboxConfig} {w₀ w : Outside} {s : OutboxState}
    (h : OutboxRun cfg calmAnswers w₀ s w) :
    Along (Lawful w₀) w.log ∧ w.ids = pending w₀.ids w.log ∧
      ∀ pre post, w.log = pre ++ post → ∀ n, .returned n .queued ∈ pre →
        n ∈ pending w₀.ids pre ∨ ∃ pre' payload a d post',
          pre = pre' ++ .drained n payload a d :: .popped n :: post' ∧ d ≠ .retryLater := by
  have hrests : Rests w₀ w := (h.mono fun _ _ _ _ => calm_gentle).invariant
    (I := fun _ w => Rests w₀ w) rests_start (fun _ _ _ h => does_submit_rests h)
    fun _ _ h => does_drain_rests h
  refine ⟨hrests.orderly.lawful, hrests.orderly.pending, fun pre post heq n hn => ?_⟩
  have hlawful := hrests.orderly.lawful
  rw [heq] at hlawful
  exact kept_until hlawful.of_append hn

lemma calm_generous : Generous .rejectNewest calmAnswers := by
  intro c w r w' hanswer hsmooth _
  refine ⟨hanswer, ?_⟩
  cases c with
  | statsResult | peek | enqueue =>
    cases r with
    | ok a => trivial
    | error st => exact hsmooth.elim
  | _ => trivial

/-- A submission that is to be retried, and the drain that sends it. -/
theorem outbox_delivery_retried : ∃ w : Outside,
    w.log = [.begun 0 [7], .live 0 [7] .retryLater, .queued 0, .returned 0 .queued,
      .drained 0 [7] 1 .sent, .popped 0] ∧
    Along (Lawful { queue := [], next := 0 }) w.log ∧ w.ids = [] := by
  obtain ⟨record, hrecord⟩ := Envelope.exists_encodeEnvelope 0 [7] (by simp)
  have hdecoded := decode_encoded hrecord
  let w₀ : Outside := { queue := [], next := 0 }
  have hstart : OutboxRun {} calmAnswers w₀ {} w₀ :=
    .start ⟨rfl, rfl, .nil, by simp [Outside.ids, w₀]⟩
  obtain ⟨r₁, s₁, w₁, he₁, hstatus, hs₁, hw₁⟩ := (could_submit_later {} {} (w₀.begin [7])
    0 0 calm_generous rfl rfl rfl (by simp) rfl rfl hrecord).carries
  have hrun := hstart.submit he₁
  rw [hstatus] at hrun
  obtain ⟨r₂, s₂, w₂, he₂, hw₂⟩ := (could_drain_sent {} s₁
    (w₁.finish w₀.next .queued) 0 10000 calm_generous rfl rfl (by simp) rfl (by rw [hw₁]; rfl)
    hdecoded (by rw [hs₁]; rfl) (by rw [hs₁])).carries
  obtain ⟨hlawful, -, -⟩ := outbox_delivery (hrun.drain he₂)
  refine ⟨w₂, ?_, hlawful, ?_⟩
  · rw [hw₂, hw₁, hs₁]
    rfl
  · rw [hw₂]
    rfl

end Pqueue
