import Pqueue.Queue.Fifo

/-!
# Enqueue under `DropOldest`

The loop of `Queue::enqueue` tries to commit, and evicts the front record each time the store
answers `QueueFull`.  `EvictedFor` lists what it evicted, each record after an attempt that was
made while the record was there; `LastAttempt` says how it ends.

`dropOldest_enqueue` is the result of record: a success leaves what was not evicted followed by the
new record; a failure leaves what was not evicted, which is nothing if the last attempt was
answered `QueueFull` and no eviction failed.  `dropOldest_pays_for_nothing` is the run in which the
loop evicts every record and then fails: a tombstone adds to the tail, which is never compacted, so
evictions need not make room.
-/

namespace Pqueue

open Effect LittleEndian

namespace Queue

/-- What `enqueue` does before it first tries to commit. -/
def beforeCommit (cfg : QueueConfig) (record : Bytes) : QueueM Unit := do
  acquireLock cfg
  loadLatestIndex cfg
  reclaimUnderPressure cfg (u32 record.length)

end Queue

section Attempts

variable (env : Env) (cfg : QueueConfig) (harm : FsCall → Disk → Disk → Prop)
  (A : StoreMark → Disk → Prop) (sequence : ℕ) (record : Bytes)

/-- One attempt to commit the record. -/
abbrev Attempts (s : QueueState) (w : World) (r : Except Status Unit) (s' : QueueState)
    (w' : World) : Prop :=
  Executes env harm A (Queue.lift (Store.commitEnqueue cfg.store cfg.fuel sequence record)) s w r s'
    w'

/-- The answer to an attempt after which the loop evicts. -/
def QueueConfig.EvictsOn (cfg : QueueConfig) (e : Status) : Prop :=
  e.code = .queueFull ∧ cfg.fullQueuePolicy = .dropOldest

/-- The records that the loop of `enqueue` evicted between two states. -/
inductive EvictedFor : List (ℕ × Bytes) → QueueState → World → QueueState → World → Prop
  | none {s w} : EvictedFor [] s w s w
  /-- The front record goes after an attempt that found it there was refused. -/
  | evict {front rest evicted s w e s₁ w₁ s₂ w₂ s' w'}
      (hfront : s.store.contents w.disk = front :: rest)
      (hfull : Attempts env cfg harm A sequence record s w (.error e) s₁ w₁)
        (hcode : cfg.EvictsOn e)
      (hpop : Executes env harm A (Queue.evictFront cfg) s₁ w₁ (.ok ()) s₂ w₂)
      (hrest : EvictedFor evicted s₂ w₂ s' w') : EvictedFor (front :: evicted) s w s' w'

/-- How the loop of `enqueue` ends with the answer, when the records `kept` are left. -/
inductive LastAttempt (kept : List (ℕ × Bytes)) (s : QueueState) (w : World) :
    Except Status Unit → Prop
  | committed {s' w'} (h : Attempts env cfg harm A sequence record s w (.ok ()) s' w') :
      LastAttempt kept s w (.ok ())
  /-- The attempt fails in a way that evictions do not help. -/
  | failed {e s' w'} (h : Attempts env cfg harm A sequence record s w (.error e) s' w')
      (hcode : ¬cfg.EvictsOn e) : LastAttempt kept s w (.error e)
  /-- There is nothing left to evict. -/
  | exhausted {e s' w'} (h : Attempts env cfg harm A sequence record s w (.error e) s' w')
      (hcode : cfg.EvictsOn e) (hempty : kept = []) : LastAttempt kept s w (.error e)
  /-- The eviction fails. -/
  | stuck {e s₁ w₁ e' s' w'} (h : Attempts env cfg harm A sequence record s w (.error e) s₁ w₁)
      (hcode : cfg.EvictsOn e)
      (hpop : Executes env harm A (Queue.evictFront cfg) s₁ w₁ (.error e') s' w') :
      LastAttempt kept s w (.error e')

/-- `enqueue` ends before it tries to commit. -/
inductive Unattempted (s : QueueState) (w : World) : Except Status Unit → Prop
  | before {e s' w'}
      (h : Executes env harm A (Queue.beforeCommit cfg record) s w (.error e) s' w') :
      Unattempted s w (.error e)
  | tooLarge (h : cfg.recordSizeBytes < record.length) :
      Unattempted s w (.error ⟨.recordTooLarge, "record exceeds configured queue maximum"⟩)

/-- `enqueue` answers, having evicted records and kept others. -/
def Answers (evicted kept : List (ℕ × Bytes)) (s : QueueState) (w : World)
    (r : Except Status Unit) : Prop :=
  (evicted = [] ∧ Unattempted env cfg harm A record s w r) ∨ ∃ s₀ w₀ s₁ w₁,
    Executes env harm A (Queue.beforeCommit cfg record) s w (.ok ()) s₀ w₀ ∧
      EvictedFor env cfg harm A sequence record evicted s₀ w₀ s₁ w₁ ∧
        LastAttempt env cfg harm A sequence record kept s₁ w₁ r

end Attempts

section

variable {env : Env} {cfg : QueueConfig} {harm : FsCall → Disk → Disk → Prop}
  {A : StoreMark → Disk → Prop} {s s' : QueueState} {w w' : World} {L : List (ℕ × Bytes)}
  {record : Bytes} {r : Except Status Unit}

/-- The records of an outcome: the new one follows what was kept after a success. -/
def keptThen (kept : List (ℕ × Bytes)) (sequence : ℕ) (record : Bytes) :
    Except Status Unit → List (ℕ × Bytes)
  | .ok _ => kept ++ [(sequence, record)]
  | .error _ => kept

variable (hb : Backs env cfg.store harm A (Holds cfg.store))

include hb

/-- What the loop of `enqueue` evicts and keeps. -/
lemma enqueueEvicting_evicts {sequence : ℕ} (hseq : sequence < 2 ^ 32) (count : ℕ)
    (h : Holds cfg.store s.store w.disk L) (hm : s.store.mounted = true) (hcount : count = L.length)
    (hhead : ∀ f p rest, L = (f, p) :: rest → s.index.head = f)
    (hback : ∀ back, (L.map Prod.fst).getLast? = some back → sequence = back + 1)
    (he : Executes env harm A (Queue.enqueueEvicting cfg sequence record count) s w r s' w') :
    ∃ evicted kept s₁ w₁, L = evicted ++ kept ∧
      EvictedFor env cfg harm A sequence record evicted s w s₁ w₁ ∧
      LastAttempt env cfg harm A sequence record kept s₁ w₁ r ∧
      Holds cfg.store s'.store w'.disk (keptThen kept sequence record r) := by
  induction count generalizing s w L with
  | zero =>
    obtain rfl := List.eq_nil_of_length_eq_zero hcount.symm
    rw [Queue.enqueueEvicting] at he
    obtain ⟨ram', rfl, hcommit⟩ := executes_zoom.1 he
    have hq := (hb.wp_commitEnqueue h hm hseq hback).sound hcommit
    refine ⟨[], [], s, w, rfl, .none, ?_⟩
    cases r with
    | ok _ => exact ⟨.committed he, hq.2.1 rfl⟩
    | error e =>
      refine ⟨?_, hq.2.2 e rfl⟩
      by_cases hfull : cfg.EvictsOn e
      · exact .exhausted he hfull rfl
      · exact .failed he hfull
  | succ count ih =>
    obtain ⟨st, s₁, w₁, hst, hrest⟩ | ⟨e, -, he⟩ := executes_bind.1 he
    swap
    · obtain ⟨_, hr, -⟩ := executes_attempt.1 he
      cases hr
    obtain ⟨st, heq, hcommit⟩ := executes_attempt.1 hst
    obtain rfl := Except.ok.inj heq
    obtain ⟨ram₁, rfl, hcommit'⟩ := executes_zoom.1 hcommit
    obtain ⟨hm₁, hok, herr⟩ := (hb.wp_commitEnqueue h hm hseq hback).sound hcommit'
    cases st with
    | ok _ =>
      obtain ⟨rfl, rfl, rfl⟩ := executes_pure.1 hrest
      exact ⟨[], L, s, w, rfl, .none, .committed hcommit, hok rfl⟩
    | error e =>
      dsimp only at hrest
      split at hrest
      case isFalse hfull =>
        obtain ⟨rfl, rfl, rfl⟩ := executes_fail.1 hrest
        exact ⟨[], L, s, w, rfl, .none, .failed hcommit hfull, herr e rfl⟩
      case isTrue hfull =>
        obtain ⟨⟨f, p⟩, rest, rfl⟩ := List.exists_cons_of_length_pos
          (Nat.lt_of_lt_of_eq (Nat.succ_pos count) hcount)
        have hf : s.index.head = f := hhead f p rest rfl
        have hwp : Wp env harm A (fun _ => True) (Queue.evictFront cfg) _ { s with store := ram₁ }
          w₁.disk := Queue.wp_evictFront hb (herr e rfl) hm₁ hf
        obtain ⟨_, s₂, w₂, hpop, hrest⟩ | ⟨e', rfl, hpop⟩ := executes_bind.1 hrest
        swap
        · exact ⟨[], _, s, w, rfl, .none, .stuck hcommit hfull hpop, (hwp.sound hpop).2 e' rfl⟩
        obtain ⟨hL₂, hm₂, hi₂⟩ := (hwp.sound hpop).1 rfl
        obtain ⟨evicted, kept, s₃, w₃, rfl, hev, hlast, hkept⟩ := ih hL₂ hm₂
          (Nat.succ.inj hcount) (hi₂ ▸ Queue.head_advance hb h hm hf)
          (Queue.back_of_rest hback) hrest
        exact ⟨(f, p) :: evicted, kept, s₃, w₃, rfl,
          .evict h.contents hcommit hfull hpop hev, hlast, hkept⟩

/-- What is done under the lock, once it is taken. -/
lemma enqueueLocked_evicts {s₁ : QueueState} {w₁ : World}
    (hlock : Executes env harm A (Queue.acquireLock cfg) s w (.ok ()) s₁ w₁)
    (h : Holds cfg.store s₁.store w₁.disk L) (he : Executes env harm A (do
        Queue.loadLatestIndex cfg
        if record.length > cfg.recordSizeBytes then
          Queue.failure .recordTooLarge "record exceeds configured queue maximum"
        else do
          let s ← Queue.get
          Queue.reclaimUnderPressure cfg (u32 record.length)
          Queue.enqueueEvicting cfg s.index.tail record s.index.count
          Queue.modify fun s => { s with
            index := { s.index with
              tail := u32 (s.index.tail + 1), count := u32 (s.index.count + 1) } })
      s₁ w₁ r s' w') :
    ∃ evicted kept sequence, L = evicted ++ kept ∧
      Holds cfg.store s'.store w'.disk (keptThen kept sequence record r) ∧
      Answers env cfg harm A sequence record evicted kept s w r := by
  obtain ⟨_, s₂, w₂, hload, he⟩ | ⟨e, rfl, hload⟩ := executes_bind.1 he
  swap
  · have hbefore : Executes env harm A (Queue.beforeCommit cfg record) s w (.error e) s' w' :=
      executes_bind.2 (.inl ⟨_, _, _, hlock, executes_bind.2 (.inr ⟨e, rfl, hload⟩)⟩)
    exact ⟨[], L, 0, rfl, ((Queue.wp_loadLatestIndex hb h).sound hload).1,
      .inl ⟨rfl, .before hbefore⟩⟩
  obtain ⟨hL₂, hloaded⟩ := (Queue.wp_loadLatestIndex hb h).sound hload
  obtain ⟨hm₂, hi₂⟩ := hloaded rfl
  split at he
  · next hlarge =>
    obtain ⟨rfl, rfl, rfl⟩ := executes_fail.1 he
    exact ⟨[], L, 0, rfl, hL₂, .inl ⟨rfl, .tooLarge hlarge⟩⟩
  have he := executes_get_bind.1 he
  obtain ⟨_, s₃, w₃, hreclaim, he⟩ | ⟨e, rfl, hreclaim⟩ := executes_bind.1 he
  swap
  · have hbefore : Executes env harm A (Queue.beforeCommit cfg record) s w (.error e) s' w' :=
      executes_bind.2 (.inl ⟨_, _, _, hlock, executes_bind.2 (.inl ⟨_, _, _, hload, hreclaim⟩)⟩)
    exact ⟨[], L, 0, rfl, ((Queue.wp_reclaimUnderPressure hb hL₂ hm₂).sound hreclaim).1,
      .inl ⟨rfl, .before hbefore⟩⟩
  obtain ⟨hL₃, hm₃, hi₃⟩ := (Queue.wp_reclaimUnderPressure hb hL₂ hm₂).sound hreclaim
  have hbefore : Executes env harm A (Queue.beforeCommit cfg record) s w (.ok ()) s₃ w₃ :=
    executes_bind.2 (.inl ⟨_, _, _, hlock, executes_bind.2 (.inl ⟨_, _, _, hload, hreclaim⟩)⟩)
  obtain ⟨hcount, hhead, htail, hback⟩ := hb.index hL₂ hm₂
  rw [← hi₂] at hcount hhead htail hback
  have hloop : ∀ {r s' w'}, Executes env harm A (Queue.enqueueEvicting cfg s₂.index.tail record
      s₂.index.count) s₃ w₃ r s' w' → _ := fun hev =>
    enqueueEvicting_evicts hb htail _ hL₃ hm₃ hcount (hi₃ ▸ hhead) hback hev
  obtain ⟨_, s₄, w₄, hev, he⟩ | ⟨e, rfl, hev⟩ := executes_bind.1 he
  · obtain ⟨rfl, rfl, rfl⟩ := executes_modify.1 he
    obtain ⟨evicted, kept, s₅, w₅, rfl, hsteps, hlast, hkept⟩ := hloop hev
    exact ⟨evicted, kept, _, rfl, hkept, .inr ⟨s₃, w₃, s₅, w₅, hbefore, hsteps, hlast⟩⟩
  · obtain ⟨evicted, kept, s₅, w₅, rfl, hsteps, hlast, hkept⟩ := hloop hev
    exact ⟨evicted, kept, _, rfl, hkept, .inr ⟨s₃, w₃, s₅, w₅, hbefore, hsteps, hlast⟩⟩

/-- What an enqueue evicts and keeps. -/
lemma enqueue_evicts (h : Holds cfg.store s.store w.disk L)
    (he : Executes env harm A (Queue.enqueue cfg record) s w r s' w') :
    ∃ evicted kept sequence, L = evicted ++ kept ∧
      Holds cfg.store s'.store w'.disk (keptThen kept sequence record r) ∧
      Answers env cfg harm A sequence record evicted kept s w r := by
  obtain ⟨_, s₁, w₁, hlock, he⟩ | ⟨e, rfl, hlock⟩ := executes_bind.1 he
  swap
  · have hbefore : Executes env harm A (Queue.beforeCommit cfg record) s w (.error e) s' w' :=
      executes_bind.2 (.inr ⟨e, rfl, hlock⟩)
    exact ⟨[], L, 0, rfl, (Queue.wp_acquireLock hb h).sound hlock, .inl ⟨rfl, .before hbefore⟩⟩
  have hL₁ := (Queue.wp_acquireLock hb h).sound hlock
  obtain ⟨r₀, s₂, w₂, hbody, he⟩ | ⟨e, -, hbody⟩ := executes_bind.1 he
  swap
  · obtain ⟨_, hr, -⟩ := executes_attempt.1 hbody
    cases hr
  obtain ⟨r₁, heq, hbody⟩ := executes_attempt.1 hbody
  obtain rfl := Except.ok.inj heq
  obtain ⟨evicted, kept, sequence, rfl, hkept, hev⟩ := enqueueLocked_evicts hb hlock hL₁ hbody
  obtain ⟨_, s₃, w₃, hrelease, he⟩ | ⟨e, rfl, hrelease⟩ := executes_bind.1 he
  swap
  · cases ((Queue.wp_releaseLock hb hkept).sound hrelease).1
  have hL₃ := ((Queue.wp_releaseLock hb hkept).sound hrelease).2
  have hend : r = r₀ ∧ s' = s₃ ∧ w' = w₃ := by
    cases r₀ with
    | ok _ => exact executes_pure.1 he
    | error _ => exact executes_fail.1 he
  obtain ⟨rfl, rfl, rfl⟩ := hend
  exact ⟨evicted, kept, sequence, rfl, hL₃, hev⟩

end

/-- **What an enqueue pays.**  In any run without failures in which no offset, segment size or
generation wraps: the records an enqueue removes are at the front, each was evicted under
`DropOldest` after an attempt that found it there had answered `QueueFull`, and the new record
follows the others if the enqueue succeeds.  It fails before its first attempt, or with the answer
to its last one; if that is a `QueueFull` under `DropOldest`, no record is left. -/
theorem dropOldest_enqueue {env : Env} {cfg : QueueConfig} {trace : List QueueEvent}
    {s s' : QueueState} {w w' : World} {record : Bytes} {r : Except Status Unit}
    (h : QueueRun env cfg noHarm NoOffsetWrap trace s w)
    (he : Executes env noHarm NoOffsetWrap (Queue.enqueue cfg record) s w r s' w') :
    ∃ evicted kept sequence, s.store.contents w.disk = evicted ++ kept ∧
      s'.store.contents w'.disk = keptThen kept sequence record r ∧
      Answers env cfg noHarm NoOffsetWrap sequence record evicted kept s w r := by
  obtain ⟨L, -, hL⟩ := h.holds damaging_noHarm fun _ _ => id
  obtain ⟨evicted, kept, sequence, rfl, hkept, hev⟩ :=
    enqueue_evicts (backs_holds damaging_noHarm fun _ _ => id) hL he
  exact ⟨evicted, kept, sequence, hL.contents, hkept.contents, hev⟩

/-- A queue with a segment for each record and a budget for three segments. -/
def cyclicQueue : QueueConfig where
  store :=
    { AppendLogConfig.unlimited with
      maxSegmentBytes := 60, maxTotalBytes := 180, maxRecordBytes := 100
      maxSegmentBytes_lt := by decide
      maxTotalBytes_lt := by decide }
  recordSizeBytes := 100
  fullQueuePolicy := .dropOldest
  fuel := 8

/-- The third record takes the place of the first. -/
theorem dropOldest_enqueue_evicted : ∃ trace s w, ∃ (s' : QueueState) (w' : World),
    queueTrial cyclicQueue [(.enqueue [1], allComplete), (.enqueue [2], allComplete)] =
        some (trace, s, w) ∧
      s.store.contents w.disk = [(0, [1]), (1, [2])] ∧
      s'.store.contents w'.disk = [(1, [2]), (2, [3])] ∧
      Answers (plainEnv .posix) cyclicQueue noHarm NoOffsetWrap 2 [3] [(0, [1])] [(1, [2])] s w
        (.ok ()) := by
  have hrun : ((do
      let a ← queueTrial cyclicQueue [(.enqueue [1], allComplete), (.enqueue [2], allComplete)]
      let b ← tryMethod (plainEnv .posix) allComplete NoOffsetWrap
        (Queue.enqueue cyclicQueue [3]) a.2.1 a.2.2
      pure (a.2.1.store.contents a.2.2.disk, b.1.1.toBool, b.1.2.store.contents b.2.disk)) :
        Option _) = some ([(0, [1]), (1, [2])], true, [(1, [2]), (2, [3])]) := by
    decide +kernel
  obtain ⟨⟨trace, s, w⟩, ha, hrun⟩ := Option.bind_eq_some_iff.1 hrun
  obtain ⟨⟨⟨r, s'⟩, w'⟩, hb, hrun⟩ := Option.bind_eq_some_iff.1 hrun
  obtain ⟨hL, hrun⟩ := Prod.mk.inj (Option.some.inj hrun)
  obtain ⟨hr, hL'⟩ := Prod.mk.inj hrun
  have hdone : QueueRun (plainEnv .posix) cyclicQueue noHarm NoOffsetWrap trace s w := by
    refine queueRun_of_trial ?_ ha
    simp [allComplete]
  obtain rfl := eq_ok_of_toBool hr
  obtain ⟨evicted, kept, sequence, hold, hnew, hanswers⟩ :=
    dropOldest_enqueue hdone (executes_of_complete hb)
  have hkept : [(1, [2])] ++ [(2, [3])] = kept ++ [(sequence, [3])] := hL'.symm.trans hnew
  obtain ⟨rfl, hlast⟩ := List.append_inj' hkept rfl
  obtain ⟨rfl, -⟩ := Prod.mk.inj (List.singleton_inj.1 hlast)
  have hevicted : [(0, [1])] ++ [(1, [2])] = evicted ++ [(1, [2])] := hL.symm.trans hold
  obtain ⟨rfl, -⟩ := List.append_inj' hevicted rfl
  exact ⟨trace, s, w, s', w', ha, hL, hL', hanswers⟩

/-! ## An enqueue that evicts every record and fails -/

/-- A queue with one large segment and a budget for two records. -/
def tightQueue : QueueConfig where
  store :=
    { AppendLogConfig.unlimited with
      maxSegmentBytes := 1000, maxTotalBytes := 110, maxRecordBytes := 100
      maxSegmentBytes_lt := by decide
      maxTotalBytes_lt := by decide }
  recordSizeBytes := 100
  fullQueuePolicy := .dropOldest
  fuel := 3

/-- What an enqueue computes in the plain environment. -/
def enqueueOf (cfg : QueueConfig) (record : Bytes) (s : QueueState × World) :
    Option ((Except Status Unit × QueueState) × World) :=
  Prog.run (handle (plainEnv .posix)) (Queue.enqueue cfg record s.1) s.2

theorem dropOldest_pays_for_nothing : ∃ trace s w e s' w',
    QueueRun (plainEnv .posix) tightQueue noHarm (fun _ _ => True) trace s w ∧
      Executes (plainEnv .posix) noHarm (fun _ _ => True) (Queue.enqueue tightQueue [3]) s w
        (.error e) s' w' ∧ s.store.contents w.disk = [(0, [1]), (1, [2])] ∧
          s'.store.contents w'.disk = [] := by
  have hrun : ((do
      let a ← enqueueOf tightQueue [1] ({}, ⟨∅, 0, false⟩)
      let b ← enqueueOf tightQueue [2] (a.1.2, a.2)
      let c ← enqueueOf tightQueue [3] (b.1.2, b.2)
      pure (b.1.2.store.contents b.2.disk, c.1.1.toBool,
        c.1.2.store.contents c.2.disk)) : Option _) =
        some ([(0, [1]), (1, [2])], false, []) := by
    decide +kernel
  obtain ⟨⟨⟨r₁, s₁⟩, w₁⟩, h₁, hrun⟩ := Option.bind_eq_some_iff.1 hrun
  obtain ⟨⟨⟨r₂, s₂⟩, w₂⟩, h₂, hrun⟩ := Option.bind_eq_some_iff.1 hrun
  obtain ⟨⟨⟨r₃, s₃⟩, w₃⟩, h₃, hrun⟩ := Option.bind_eq_some_iff.1 hrun
  obtain ⟨hL, hrun⟩ := Prod.mk.inj (Option.some.inj hrun)
  obtain ⟨hr, hL'⟩ := Prod.mk.inj hrun
  have he₁ : Executes (plainEnv .posix) noHarm (fun _ _ => True)
      ((QueueOp.enqueue [1]).method tightQueue) {} ⟨∅, 0, false⟩ r₁ s₁ w₁ := executes_of_run h₁
  have he₂ : Executes (plainEnv .posix) noHarm (fun _ _ => True)
      ((QueueOp.enqueue [2]).method tightQueue) s₁ w₁ r₂ s₂ w₂ := executes_of_run h₂
  cases r₃ with
  | ok _ => cases hr
  | error e =>
    exact ⟨_, s₂, w₂, e, s₃, w₃, .step (.step (.start rfl) he₁) he₂, executes_of_run h₃, hL, hL'⟩

end Pqueue
