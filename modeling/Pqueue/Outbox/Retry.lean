import Pqueue.Outbox.Runs
import Pqueue.Program.History

/-!
# The retry state and the front record

The attempts and the cooldown are kept in the outbox, not in the record.  They are those of the
front record in every run in which no record that has received a RetryLater is evicted, and no live
send that is made while records are queued receives one: `retry_state_of_front`.  An eviction inside
a submission is not seen by the outbox, and the next record is then sent with the attempts of the
record that is gone: `evicted_front_attempts`.
-/

namespace Pqueue

open Effect LittleEndian Outbox

/-- A queued record is sent with the number of its RetryLater decisions. -/
def AttemptsCounted (pre : List OutboxEvent) : OutboxEvent → Prop
  | .drained n _ attempts _ => attempts = min 255 (retries n pre)
  | _ => True

/-- The front record has received a RetryLater whose delay is not over. -/
def FrontNotDue (w : Outside) : Prop :=
  ∃ n record rest, w.queue = (n, record) :: rest ∧ 0 < retries n w.log ∧ w.now < w.due n

/-- The answers that are gentle. -/
def gently (policy : FullQueuePolicy) : Prog.Outcomes OutboxIo Outside :=
  fun c w r w' => answers policy c w r w' ∧ Gentle c w r w'

/-! ## The invariant -/

/-- What the outbox keeps is about the front record.  Numbers below `b` are in use. -/
structure AtFront (b : ℕ) (f : Front) (w : Outside) : Prop where
  counted : Along AttemptsCounted w.log
  /-- A record that was never told to wait has no state. -/
  clean : (∀ item ∈ w.queue.head?, retries item.1 w.log = 0) → f = {}
  attempts : ∀ item ∈ w.queue.head?, f.attempts = min 255 (retries item.1 w.log)
  cooldown : ∀ deadline, f.cooldown = some deadline → ∀ item ∈ w.queue.head?,
    deadline ≤ w.due item.1
  behind : ∀ item ∈ w.queue.tail, retries item.1 w.log = 0
  distinct : w.ids.Nodup
  below : ∀ n ∈ w.ids, n < b
  fresh : ∀ n, b ≤ n → retries n w.log = 0

lemma retries_append (n : ℕ) (log chunk : List OutboxEvent) :
    retries n (log ++ chunk) = retries n log + retries n chunk := by
  induction log with
  | nil => simp [retries]
  | cons e log ih =>
    rw [List.cons_append]
    cases e with
    | live m p d => cases d <;> simp [retries, ih, Nat.add_assoc]
    | drained m p a d => cases d <;> simp [retries, ih, Nat.add_assoc]
    | _ => simpa [retries] using ih

section

variable {policy : FullQueuePolicy} {b b' n : ℕ} {f f' : Front} {w w' : Outside} {record : Bytes}
  {kept rest : List (ℕ × Bytes)}

/-- Events that leave the retries as they are. -/
def Retryless (chunk : List OutboxEvent) : Prop := ∀ n, retries n chunk = 0

lemma Retryless.append {chunk : List OutboxEvent} (h : Retryless chunk) (n : ℕ)
    (log : List OutboxEvent) : retries n (log ++ chunk) = retries n log := by
  rw [retries_append, h n, Nat.add_zero]

/-- The log grows by events that are no RetryLater, the queue and its state stay. -/
lemma AtFront.log (chunk : List OutboxEvent) (h : AtFront b f w) (hr : Retryless chunk)
    (hcounted : Along AttemptsCounted (w.log ++ chunk)) (hb : b ≤ b') (hq : w'.queue = w.queue)
    (hlog : w'.log = w.log ++ chunk) (hdue : w'.due = w.due) : AtFront b' f w' where
  counted := hlog ▸ hcounted
  clean hclean := h.clean fun item hitem => by
    have := hclean item (hq ▸ hitem)
    rwa [hlog, hr.append] at this
  attempts item hitem := by
    rw [hlog, hr.append]
    exact h.attempts item (hq ▸ hitem)
  cooldown deadline hd item hitem := by
    rw [hdue]
    exact h.cooldown deadline hd item (hq ▸ hitem)
  behind item hitem := by
    rw [hlog, hr.append]
    exact h.behind item (hq ▸ hitem)
  distinct := by
    rw [Outside.ids, hq]
    exact h.distinct
  below m hm := by
    rw [Outside.ids, hq] at hm
    exact (h.below m hm).trans_le hb
  fresh m hm := by
    rw [hlog, hr.append]
    exact h.fresh m (hb.trans hm)

/-- The front record goes, and with it the state. -/
lemma AtFront.pop (chunk : List OutboxEvent) (h : AtFront b f w) (hr : Retryless chunk)
    (hcounted : Along AttemptsCounted (w.log ++ chunk)) (hb : b ≤ b')
    (hq : w.queue = (n, record) :: rest) (hq' : w'.queue = rest)
    (hlog : w'.log = w.log ++ chunk) : AtFront b' {} w' := by
  have hbehind : ∀ item ∈ rest, retries item.1 w'.log = 0 := by
    intro item hitem
    rw [hlog, hr.append]
    exact h.behind item (by rw [hq]; exact hitem)
  refine ⟨hlog ▸ hcounted, fun _ => rfl, fun item hitem => ?_, fun _ hd => (nomatch hd),
    fun item hitem => ?_, ?_, fun m hm => ?_, fun m hm => ?_⟩
  · rw [hq'] at hitem
    rw [hbehind item (List.mem_of_mem_head? hitem)]
    rfl
  · rw [hq'] at hitem
    exact hbehind item (List.mem_of_mem_tail hitem)
  · have := h.distinct
    rw [Outside.ids, hq, List.map_cons, List.nodup_cons] at this
    rw [Outside.ids, hq']
    exact this.2
  · rw [Outside.ids, hq'] at hm
    refine (h.below m ?_).trans_le hb
    rw [Outside.ids, hq]
    exact List.mem_cons_of_mem _ hm
  · rw [hlog, hr.append]
    exact h.fresh m (hb.trans hm)

/-- Records are evicted of which none was told to wait. -/
lemma AtFront.evict (h : AtFront b f w) (hkept : Evicts policy w.queue kept)
    (hgentle : ∀ item ∈ w.queue, item ∉ kept → retries item.1 w.log = 0) :
    AtFront b f (w.put kept []) := by
  obtain ⟨evicted, hqueue, -⟩ := hkept
  cases evicted with
  | nil =>
    exact h.log [] (fun _ => rfl) (by simpa using h.counted) le_rfl hqueue.symm rfl rfl
  | cons first evicted =>
    have hnodup := h.distinct
    rw [Outside.ids, hqueue, List.map_append, List.nodup_append] at hnodup
    obtain ⟨-, hkeptnodup, hapart⟩ := hnodup
    have hfirst : retries first.1 w.log = 0 := by
      refine hgentle first (by rw [hqueue]; simp) fun hmem => ?_
      exact hapart first.1 (by simp) first.1 (List.mem_map_of_mem hmem) rfl
    have hf : f = {} := by
      refine h.clean fun item hitem => ?_
      rw [hqueue] at hitem
      obtain rfl : first = item := by simpa using hitem
      exact hfirst
    have hbehind : ∀ item ∈ kept, retries item.1 (w.log ++ []) = 0 := by
      intro item hitem
      rw [List.append_nil]
      exact h.behind item (by rw [hqueue]; simp [hitem])
    subst hf
    refine ⟨by simpa [Outside.put] using h.counted, fun _ => rfl, fun item hitem => ?_,
      fun _ hd => (nomatch hd), fun item hitem => hbehind item (List.mem_of_mem_tail hitem),
      hkeptnodup,
      fun m hm => h.below m ?_, fun m hm => ?_⟩
    · rw [show (w.put kept []).log = w.log ++ [] from rfl,
        hbehind item (List.mem_of_mem_head? hitem)]
      rfl
    · rw [Outside.ids, hqueue, List.map_append, List.mem_append]
      exact .inr hm
    · rw [show (w.put kept []).log = w.log ++ [] from rfl, List.append_nil]
      exact h.fresh m hm

/-- A record that was never told to wait is queued at the end. -/
lemma AtFront.push (record : Bytes) (h : AtFront b f w) (hn : b ≤ n) (hb : n < b') :
    AtFront b' f (w.put (w.queue ++ [(n, record)]) [.queued n]) := by
  have hr : Retryless [.queued n] := fun _ => rfl
  have hnew : retries n w.log = 0 := h.fresh n hn
  have hlog : (w.put (w.queue ++ [(n, record)]) [.queued n]).log = w.log ++ [.queued n] := rfl
  have hcounted : Along AttemptsCounted (w.log ++ [.queued n]) := h.counted.concat trivial
  have hids : (w.put (w.queue ++ [(n, record)]) [.queued n]).ids = w.ids ++ [n] := by
    simp [Outside.ids, Outside.put]
  have hhead : ∀ item ∈ (w.queue ++ [(n, record)]).head?,
      item ∈ w.queue.head? ∨ w.queue = [] ∧ item = (n, record) := by
    intro item hitem
    cases hq : w.queue with
    | nil => simpa [hq, eq_comm] using hitem
    | cons first rest =>
      rw [hq] at hitem
      exact .inl hitem
  refine ⟨hcounted, fun hclean => h.clean fun item hitem => ?_, fun item hitem => ?_,
    fun deadline hd item hitem => ?_, fun item hitem => ?_, ?_, fun m hm => ?_, fun m hm => ?_⟩
  · have := hclean item (by
      cases hq : w.queue with
      | nil => simp [hq] at hitem
      | cons first rest =>
        rw [hq] at hitem
        simpa [Outside.put, hq] using hitem)
    rwa [hlog, hr.append] at this
  · rw [hlog, hr.append]
    rcases hhead item hitem with hold | ⟨hq, rfl⟩
    · exact h.attempts item hold
    · rw [hnew, h.clean (by simp [hq])]
      rfl
  · rcases hhead item hitem with hold | ⟨hq, rfl⟩
    · exact h.cooldown deadline hd item hold
    · rw [h.clean (by simp [hq])] at hd
      cases hd
  · rw [hlog, hr.append]
    have hitem' : item ∈ w.queue.tail ∨ item = (n, record) := by
      cases hq : w.queue with
      | nil => simp [Outside.put, hq] at hitem
      | cons first rest => simpa [Outside.put, hq] using hitem
    rcases hitem' with hold | rfl
    · exact h.behind item hold
    · exact hnew
  · rw [hids, List.nodup_append]
    refine ⟨h.distinct, by simp, fun m hm k hk => ?_⟩
    have := h.below m hm
    obtain rfl : k = n := by simpa using hk
    omega
  · rw [hids, List.mem_append] at hm
    rcases hm with hm | hm
    · have := h.below m hm
      omega
    · obtain rfl : m = n := by simpa using hm
      exact hb
  · rw [hlog, hr.append]
    exact h.fresh m (by omega)

/-! ## Steps -/

lemma retries_live (m : ℕ) (payload : Bytes) (d : SendDecision) :
    retries m [.live n payload d] = if n = m ∧ d = .retryLater then 1 else 0 := by
  cases d <;> simp [retries]

lemma retries_drained (m a : ℕ) (payload : Bytes) (d : SendDecision) :
    retries m [.drained n payload a d] = if n = m ∧ d = .retryLater then 1 else 0 := by
  cases d <;> simp [retries]

/-- One more attempt, saturated. -/
lemma min_attempts (r : ℕ) :
    (if min 255 r < 255 then min 255 r + 1 else min 255 r) = min 255 (r + 1) := by
  split <;> omega

/-- A RetryLater for the front record. -/
lemma AtFront.retry {payload : Bytes} {t delayMs : ℕ} (h : AtFront b f w) (hb : b ≤ b')
    (hq : w.queue = (n, record) :: rest) :
    AtFront b' ⟨if f.attempts < 255 then f.attempts + 1 else f.attempts, some (u64 (t + delayMs))⟩
      (((w.tick t).put w.queue [.drained n payload f.attempts .retryLater]).announce
        n delayMs) := by
  have hattempts : f.attempts = min 255 (retries n w.log) := h.attempts _ (by rw [hq]; rfl)
  have hretries : ∀ m, retries m (w.log ++ [.drained n payload f.attempts .retryLater]) =
      retries m w.log + if n = m then 1 else 0 := by
    intro m
    rw [retries_append, retries_drained]
    simp
  have hother : ∀ m, m ≠ n →
      retries m (w.log ++ [.drained n payload f.attempts .retryLater]) = retries m w.log := by
    intro m hm
    rw [hretries, if_neg (Ne.symm hm), Nat.add_zero]
  have hfront : ∀ item ∈ w.queue.head?, item = (n, record) := by
    intro item hitem
    rw [hq] at hitem
    simpa [eq_comm] using hitem
  have hdistinct := h.distinct
  rw [Outside.ids, hq, List.map_cons, List.nodup_cons] at hdistinct
  have hn : n < b := h.below n (by rw [Outside.ids, hq]; simp)
  refine ⟨h.counted.concat hattempts, fun hclean => ?_, fun item hitem => ?_,
    fun deadline hd item hitem => ?_, fun item hitem => ?_, h.distinct,
    fun m hm => (h.below m hm).trans_le hb, fun m hm => ?_⟩
  · have := hclean (n, record) (by simp [Outside.announce, Outside.put, hq])
    rw [show (((w.tick t).put w.queue [.drained n payload f.attempts .retryLater]).announce n
      delayMs).log = w.log ++ [.drained n payload f.attempts .retryLater] from rfl,
        hretries] at this
    simp at this
  · obtain rfl := hfront item hitem
    show _ = min 255 (retries n (w.log ++ [.drained n payload f.attempts .retryLater]))
    rw [hretries, if_pos rfl, hattempts]
    exact min_attempts _
  · obtain rfl := hfront item hitem
    obtain rfl := Option.some.inj hd
    have hdue : (((w.tick t).put w.queue [.drained n payload f.attempts .retryLater]).announce n
        delayMs).due n = t + delayMs := if_pos rfl
    rw [hdue]
    exact Nat.mod_le _ _
  · have hmem : item ∈ rest := by
      simpa [Outside.announce, Outside.put, hq] using hitem
    refine (hother item.1 fun heq => hdistinct.1 ?_).trans (h.behind item (by rw [hq]; exact hmem))
    have hmap := List.mem_map_of_mem (f := Prod.fst) hmem
    rwa [heq] at hmap
  · exact (hother m (by omega)).trans (h.fresh m (hb.trans hm))

/-- What one submission or drain does to the state of the front record. -/
lemma atFront_step (hstep : OutboxStep policy True f w f' w') (h : AtFront b f w)
    (hn : ∀ n, w.submitting = some n → b ≤ n ∧ n < b') (hb : b ≤ b') : AtFront b' f' w' := by
  have hquiet : ∀ {e : OutboxEvent}, (∀ log : List OutboxEvent, AttemptsCounted log e) →
      Along AttemptsCounted (w.log ++ [e]) := fun he => h.counted.concat (he _)
  have hfront : ∀ {n : ℕ} {record : Bytes} {rest : List (ℕ × Bytes)} (payload : Bytes)
      (d : SendDecision), w.queue = (n, record) :: rest →
        AttemptsCounted w.log (.drained n payload f.attempts d) := by
    intro n record rest payload d hq
    exact h.attempts (n, record) (by rw [hq]; rfl)
  have hdecided : ∀ {n a : ℕ} {payload : Bytes} {d : SendDecision} {last : OutboxEvent},
      d ≠ .retryLater → Retryless [last] → Retryless [.drained n payload a d, last] := by
    intro n a payload d last hd hlast m
    have hsplit := retries_append m [.drained n payload a d] [last]
    rw [retries_drained, if_neg fun h => hd h.2, hlast m] at hsplit
    exact hsplit
  cases hstep with
  | quiet =>
    exact h.log [] (fun _ => rfl) (by simpa using h.counted) hb rfl (by simp [Outside.tick])
      rfl
  | @accept n payload record kept hsub hq hrecord hkept hgentle =>
    have hevicted := h.evict hkept fun item hitem hgone => hgentle trivial item hitem fun hmem => by
      rw [List.mem_append, List.mem_singleton] at hmem
      rcases hmem with hmem | rfl
      · exact hgone hmem
      · have hlt := h.below n (List.mem_map_of_mem (f := Prod.fst) hitem)
        have := (hn n hsub.1).1
        omega
    have hpushed := hevicted.push record (hn n hsub.1).1 (hn n hsub.1).2
    simpa [Outside.put] using hpushed
  | refuse hkept hgentle =>
    have hevicted := h.evict hkept (hgentle trivial)
    exact hevicted.log [] (fun _ => rfl) (by simpa using hevicted.counted) hb rfl
      (by simp) rfl
  | live hsub hq hd =>
    refine h.log _ (fun m => ?_) (hquiet (e := .live _ _ _) fun _ => trivial) hb rfl rfl rfl
    rw [retries_live, if_neg fun h => hd h.2]
  | @lost n payload hsub hq =>
    have hf : f = {} := h.clean (by simp [hq])
    subst hf
    refine ⟨hquiet fun _ => trivial, fun _ => rfl, by simp [Outside.put], by simp [Outside.put],
      by simp [Outside.put], by simp [Outside.ids, Outside.put], by simp [Outside.ids, Outside.put],
      fun m hm => ?_⟩
    have hlt := (hn n hsub.1).2
    rw [show (w.put [] [.live n payload .retryLater]).log = w.log ++ [.live n payload .retryLater]
      from rfl, retries_append, retries_live, if_neg (by omega)]
    exact h.fresh m (hb.trans hm)
  | @later n payload record t delayMs hsub hq hrecord =>
    have hretries : ∀ m, retries m (w.log ++ [.live n payload .retryLater, .queued n]) =
        retries m w.log + if n = m then 1 else 0 := by
      intro m
      rw [retries_append]
      simp [retries]
    have hnew : retries n w.log = 0 := h.fresh n (hn n hsub.1).1
    have hcounted : Along AttemptsCounted (w.log ++ [.live n payload .retryLater, .queued n]) := by
      rw [List.append_cons]
      exact (hquiet (e := .live n payload .retryLater) fun _ => trivial).concat trivial
    refine ⟨hcounted, fun hclean => ?_, fun item hitem => ?_, fun deadline hd item hitem => ?_,
      by simp [Outside.announce, Outside.tick, Outside.put],
      by simp [Outside.ids, Outside.announce, Outside.tick, Outside.put], fun m hm => ?_,
      fun m hm => ?_⟩
    · have := hclean (n, record) rfl
      exact absurd ((hretries n).symm.trans this) (by simp)
    · obtain rfl : (n, record) = item := Option.some.inj hitem
      refine Eq.trans ?_ (congrArg (min 255) (hretries n)).symm
      rw [hnew, if_pos rfl]
      rfl
    · obtain rfl : (n, record) = item := Option.some.inj hitem
      obtain rfl := Option.some.inj hd
      have hdue : (((w.put [(n, record)]
        [.live n payload .retryLater, .queued n]).tick t).announce n
          delayMs).due n = t + delayMs := if_pos rfl
      rw [hdue]
      exact Nat.mod_le _ _
    · obtain rfl : m = n := by
        simpa [Outside.ids, Outside.announce, Outside.tick, Outside.put] using hm
      exact (hn m hsub.1).2
    · have hlt := (hn n hsub.1).2
      refine (hretries m).trans ?_
      rw [h.fresh m (hb.trans hm), if_neg (by omega)]
  | empty hq =>
    have hf : f = {} := h.clean (by simp [hq])
    subst hf
    exact h.log [] (fun _ => rfl) (by simpa using h.counted) hb rfl (by simp [Outside.tick])
      rfl
  | dropCorrupt hq =>
    exact h.pop [.popped _] (fun _ => rfl) (hquiet fun _ => trivial) hb hq rfl rfl
  | dropFailed hq =>
    exact h.log [.popFailed _] (fun _ => rfl) (hquiet fun _ => trivial) hb rfl rfl rfl
  | sent hq hrecord hd =>
    refine h.pop _ (hdecided hd fun _ => rfl) ?_ hb hq rfl rfl
    rw [List.append_cons]
    exact (h.counted.concat (hfront _ _ hq)).concat trivial
  | kept hq hrecord hd =>
    refine h.log _ (hdecided hd fun _ => rfl) ?_ hb rfl rfl rfl
    rw [List.append_cons]
    exact (h.counted.concat (hfront _ _ hq)).concat trivial
  | retry hq hrecord => exact h.retry hb hq

/-! ## Runs -/

lemma gently_gentle {c : OutboxCall} {r : c.Val} (h : gently policy c w r w') :
    gentleAnswers policy True c w r w' := ⟨h.1, .inl trivial, .inr h.2⟩

/-- The outbox and the outside between the methods. -/
structure FrontRests (s : OutboxState) (w : Outside) : Prop where
  front : AtFront w.next s.front w
  idle : w.submitting = none

lemma OutboxStep.next {U : Prop} (hstep : OutboxStep policy U f w f' w') : w'.next = w.next := by
  cases hstep <;> rfl

lemma frontRests_start (h : w.Initial) : FrontRests {} w where
  front := by
    refine ⟨?_, fun _ => rfl, fun item _ => ?_, fun _ hd => (nomatch hd),
      fun item _ => ?_, ?_, h.below,
      fun n _ => ?_⟩
    · rw [h.log]
      exact along_nil
    · rw [h.log]
      rfl
    · rw [h.log]
      rfl
    · exact h.increasing.imp fun hlt => ne_of_lt hlt
    · rw [h.log]
      rfl
  idle := h.idle

lemma does_submit_front {cfg : OutboxConfig} {s : OutboxState} {payload : Bytes}
    (h : FrontRests s w) : Does (gentleAnswers policy True) (submit cfg payload)
      (fun r s' w' => FrontRests s' (w'.finish w.next r.status)) s (w.begin payload) := by
  have hbegin : AtFront w.next s.front (w.begin payload) :=
    h.front.log [.begun w.next payload] (fun _ => rfl) (h.front.counted.concat trivial) le_rfl
      rfl rfl rfl
  have hsub : (w.begin payload).Submitting w.next payload := ⟨rfl, by simp [Outside.begin]⟩
  refine does_mono (does_submit hsub) fun result s' w' hsubmitted => ⟨?_, rfl⟩
  have hafter := atFront_step hsubmitted.step hbegin (by simp [Outside.begin])
    (Nat.le_succ w.next)
  have hnext : (w'.finish w.next result.status).next = w.next + 1 := hsubmitted.step.next
  rw [hnext]
  exact hafter.log [.returned w.next result.status] (fun _ => rfl)
    (hafter.counted.concat trivial) le_rfl rfl rfl rfl

lemma does_drain_front {cfg : OutboxConfig} {s : OutboxState} (h : FrontRests s w) :
    Does (gentleAnswers policy True) (drainOne cfg true)
      (fun r s' w' => FrontRests s' w' ∧ (r.notDue = true → FrontNotDue w')) s w := by
  refine does_mono (does_drainOne h.idle) fun result s' w' hdrained => ?_
  have hafter := atFront_step hdrained.step h.front (by simp [h.idle]) le_rfl
  rw [← hdrained.step.next] at hafter
  refine ⟨⟨hafter, hdrained.submitting.trans h.idle⟩, fun hdue => ?_⟩
  obtain ⟨hne, deadline, hcooldown, hnow⟩ := hdrained.notDue hdue
  obtain ⟨⟨n, record⟩, rest, hq⟩ := List.exists_cons_of_ne_nil hne
  have hitem : (n, record) ∈ w'.queue.head? := by rw [hq]; rfl
  refine ⟨n, record, rest, hq, Nat.pos_of_ne_zero fun hzero => ?_,
    hnow.trans_le (hafter.cooldown deadline hcooldown _ hitem)⟩
  have hclean := hafter.clean fun item hmem => by
    obtain rfl := Option.some.inj (hitem.symm.trans hmem)
    exact hzero
  rw [hclean] at hcooldown
  exact nomatch hcooldown

end

/-- **The retry state belongs to the front record**, in every run in which no record that has
received a RetryLater is evicted, and no live send that is made while records are queued receives
one: a queued record is sent with the number of its RetryLater decisions, and a drain that is not
due finds a front record whose own delay is not over. -/
theorem retry_state_of_front {cfg : OutboxConfig} {policy : FullQueuePolicy} {w₀ w : Outside}
    {s : OutboxState} (h : OutboxRun cfg (gently policy) w₀ s w) :
    Along AttemptsCounted w.log ∧ ∀ r s' w', r.notDue = true →
      (Carries (gently policy) (drain cfg) s w r s' w' ∨
        ∃ n, Carries (gently policy) (drainUpTo cfg n) s w r s' w') → FrontNotDue w' := by
  have hdrain : ∀ s w, FrontRests s w → Does (gentleAnswers policy True) (drainOne cfg true)
      (fun r s' w' => FrontRests s' w' ∧ (r.notDue = true → FrontNotDue w')) s w :=
    fun _ _ h => does_drain_front h
  have hrests : FrontRests s w := (h.mono fun _ _ _ _ => gently_gentle).invariant frontRests_start
    (fun _ _ _ h => does_submit_front h) fun s w h => does_mono (hdrain s w h) fun _ _ _ hq => hq.1
  refine ⟨hrests.front.counted, fun r s' w' hdue he => ?_⟩
  rcases he with he | ⟨n, he⟩
  · exact ((hdrain s w hrests).sound (he.mono fun _ _ _ _ => gently_gentle)).2 hdue
  · exact ((does_drainUpTo hdrain n hrests).sound (he.mono fun _ _ _ _ => gently_gentle)).2 hdue

lemma gently_generous {policy : FullQueuePolicy} : Generous policy (gently policy) :=
  fun _ _ _ _ hanswer _ hgentle => ⟨hanswer, hgentle⟩

lemma answers_generous {policy : FullQueuePolicy} : Generous policy (answers policy) :=
  fun _ _ _ _ hanswer _ _ => hanswer

/-- A submission that is to be retried, and the drain that sends it with one attempt. -/
theorem retry_state_of_front_sent : ∃ w : Outside,
    w.log = [.begun 0 [7], .live 0 [7] .retryLater, .queued 0, .returned 0 .queued,
      .drained 0 [7] 1 .sent, .popped 0] ∧ Along AttemptsCounted w.log := by
  obtain ⟨record, hrecord⟩ := Envelope.exists_encodeEnvelope 0 [7] (by simp)
  have hdecoded := decode_encoded hrecord
  let w₀ : Outside := { queue := [], next := 0 }
  have hstart : OutboxRun {} (gently .dropOldest) w₀ {} w₀ :=
    .start ⟨rfl, rfl, .nil, by simp [Outside.ids, w₀]⟩
  obtain ⟨r₁, s₁, w₁, he₁, hstatus, hs₁, hw₁⟩ := (could_submit_later {} {} (w₀.begin [7])
    0 0 gently_generous rfl rfl rfl (by simp) rfl rfl hrecord).carries
  have hrun := hstart.submit he₁
  rw [hstatus] at hrun
  obtain ⟨r₂, s₂, w₂, he₂, hw₂⟩ := (could_drain_sent {} s₁
    (w₁.finish w₀.next .queued) 0 10000 gently_generous rfl rfl
    (by simp) rfl (by rw [hw₁]; rfl) hdecoded (by rw [hs₁]; rfl) (by rw [hs₁])).carries
  refine ⟨w₂, ?_, (retry_state_of_front (hrun.drain he₂)).1⟩
  rw [hw₂, hw₁, hs₁]
  rfl

/-- Under `DropOldest` the record `[7]` is to be retried and is then evicted by `[8]`, which is sent
with its attempt. -/
theorem evicted_front_attempts : ∃ (s : OutboxState) (w : Outside),
    OutboxRun {} (answers .dropOldest) { queue := [], next := 0 } s w ∧
    w.log = [.begun 0 [7], .live 0 [7] .retryLater, .queued 0, .returned 0 .queued,
      .begun 1 [8], .queued 1, .returned 1 .queued, .drained 1 [8] 1 .sent, .popped 1] ∧
    ¬Along AttemptsCounted w.log := by
  obtain ⟨record, hrecord⟩ := Envelope.exists_encodeEnvelope 0 [7] (by simp)
  obtain ⟨record', hrecord'⟩ := Envelope.exists_encodeEnvelope 0 [8] (by simp)
  have hdecoded := decode_encoded hrecord'
  let w₀ : Outside := { queue := [], next := 0 }
  have hstart : OutboxRun {} (answers .dropOldest) w₀ {} w₀ :=
    .start ⟨rfl, rfl, .nil, by simp [Outside.ids, w₀]⟩
  obtain ⟨r₁, s₁, w₁, he₁, hstatus₁, hs₁, hw₁⟩ := (could_submit_later {} {} (w₀.begin [7])
    0 0 answers_generous rfl rfl rfl (by simp) rfl rfl hrecord).carries
  have hrun₁ := hstart.submit he₁
  rw [hstatus₁] at hrun₁
  -- the front record is evicted, and the state for it stays
  let v := (w₁.finish w₀.next .queued).begin [8]
  have hq : v.queue = [(0, record)] := by
    show w₁.queue = _
    rw [hw₁]
    rfl
  have henqueue : answers .dropOldest (.enqueue record') v (.ok ())
      (v.put ([] ++ [(1, record')]) [.queued 1]) := by
    refine ⟨1, [], ?_, ⟨[(0, record)], hq, by simp⟩, rfl⟩
    show some w₁.next = some 1
    rw [hw₁]
    rfl
  obtain ⟨r₂, s₂, w₂, he₂, hstatus₂, hs₂, hw₂⟩ := (could_submit_behind {} s₁ v 1
    answers_generous rfl rfl (by simp [hq]) hrecord' henqueue).carries
  have hrun₂ := hrun₁.submit he₂
  rw [hstatus₂] at hrun₂
  obtain ⟨r₃, s₃, w₃, he₃, hw₃⟩ := (could_drain_sent {} s₂
    (w₂.finish (w₁.finish w₀.next .queued).next .queued) 1 10000 answers_generous rfl rfl (by simp)
      rfl (by rw [hw₂]; rfl) hdecoded
    (by rw [hs₂, hs₁]; rfl) (by rw [hs₂, hs₁])).carries
  have hlog : w₃.log = [.begun 0 [7], .live 0 [7] .retryLater, .queued 0, .returned 0 .queued,
      .begun 1 [8], .queued 1, .returned 1 .queued] ++ .drained 1 [8] 1 .sent :: [.popped 1] := by
    simp only [hw₃, hw₂, hs₂, hs₁, v]
    rw [hw₁]
    rfl
  refine ⟨s₃, w₃, hrun₂.drain he₃, hlog, fun hcounted => ?_⟩
  have : (1 : ℕ) = min 255 0 := hcounted _ _ _ hlog
  exact absurd this (by decide)

end Pqueue
