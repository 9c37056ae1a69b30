import Pqueue.Queue.Queue
import Pqueue.Store.Contents

/-!
# The queue refines a list

The abstract queue is the list of its live records, sequence and payload, the head first.
`FifoStep` says what an operation may do to it, by the operation's name and outcome: a success has
the effect of the name, a failure has none, except that an enqueue under `DropOldest` may have
removed records at the front.

`fifo_refinement` is the result of record: in every run of one object from an empty directory, with
any calls failing, each operation takes such a step on the contents of the store, sequences follow
one another, and every record is read back as it was last written.
-/

namespace Pqueue

open Effect LittleEndian

/-! ## The abstract queue -/

/-- The operations of a queue, with what a caller chooses. -/
inductive QueueOp
  | enqueue (record : Bytes)
  | pop
  | rewriteFront (record : Bytes)
  | peek
  | visitRecords (visitor : Bytes → ℕ → ℕ → Bool)
  | compactIdle (maxSteps : ℕ)

namespace QueueOp

/-- What an operation delivers. -/
abbrev Val : QueueOp → Type
  | peek => Bytes
  | visitRecords _ => List (Bytes × ℕ × ℕ)
  | compactIdle _ => Store.CompactIdleResult
  | _ => Unit

/-- The method of the queue. -/
def method (cfg : QueueConfig) : (op : QueueOp) → QueueM op.Val
  | enqueue record => Queue.enqueue cfg record
  | pop => Queue.pop cfg
  | rewriteFront record => Queue.rewriteFront cfg record
  | peek => Queue.peek cfg
  | visitRecords visitor => Queue.visitRecords cfg visitor
  | compactIdle maxSteps => Queue.compactIdle cfg maxSteps

end QueueOp

/-- What a visitor is shown of a list, from ordinal `ordinal` on: the records up to and including
the one at which it stops. -/
def shown (visitor : Bytes → ℕ → ℕ → Bool) : ℕ → List (ℕ × Bytes) → List (Bytes × ℕ × ℕ)
  | _, [] => []
  | ordinal, (s, p) :: rest =>
    (p, s, ordinal) :: if visitor p s ordinal then shown visitor (ordinal + 1) rest else []

/-- The records an enqueue removes are at the front, and there are none under `RejectNewest`. -/
def Evicts (policy : FullQueuePolicy) (L kept : List (ℕ × Bytes)) : Prop :=
  ∃ evicted, L = evicted ++ kept ∧ (policy = .rejectNewest → evicted = [])

/-- What an operation that delivers `r` may do to the contents `L`. -/
def FifoStep (policy : FullQueuePolicy) : (op : QueueOp) → List (ℕ × Bytes) → Except Status op.Val →
    List (ℕ × Bytes) → Prop
  | .enqueue record, L, .ok _, L' => ∃ kept seq, Evicts policy L kept ∧ L' = kept ++ [(seq, record)]
  | .enqueue _, L, .error _, L' => Evicts policy L L'
  | .pop, L, .ok _, L' => ∃ front, L = front :: L'
  | .rewriteFront record, L, .ok _, L' => ∃ s old rest, L = (s, old) :: rest ∧
      L' = (s, record) :: rest
  | .peek, L, .ok data, L' => L' = L ∧ ∃ s rest, L = (s, data) :: rest
  | .visitRecords visitor, L, .ok seen, L' => L' = L ∧ seen = shown visitor 0 L
  | .compactIdle _, L, _, L' => L' = L
  | .pop, L, .error _, L' | .rewriteFront _, L, .error _, L' | .peek, L, .error _, L'
  | .visitRecords _, L, .error _, L' => L' = L

/-! ## Under the lock -/

namespace Queue

variable {env : Env} {cfg : QueueConfig} {harm : FsCall → Disk → Disk → Prop}
  {A : StoreMark → Disk → Prop} {H : Ram → Disk → List (ℕ × Bytes) → Prop} {s : QueueState}
  {d : Disk} {L : List (ℕ × Bytes)} {α : Type}

/-- An operation that took the contents from `L` to some `L'` with `P`. -/
def Takes (H : Ram → Disk → List (ℕ × Bytes) → Prop) {α : Type}
    (P : Except Status α → List (ℕ × Bytes) → Prop) : DiskPost QueueState α :=
  fun r s' d' => ∃ L', H s'.store d' L' ∧ P r L'

section

variable (hb : Backs env cfg.store harm A H)

include hb

lemma wp_acquireLock (h : H s.store d L) :
    Wp env harm A (fun _ => True) (acquireLock cfg)
      (fun _ s' d' => H s'.store d' L) s d := by
  have hattempts : ∀ (n : ℕ) {s : QueueState} {d : Disk}, H s.store d L →
      Wp env harm A (fun _ => True) (acquireAttempts cfg n)
        (fun _ s' d' => H s'.store d' L) s d := by
    intro n
    induction n with
    | zero => exact fun h => wp_fail h
    | succ n ih =>
      intro s d h
      refine wp_get_bind (wp_bind (Q := fun _ s' d' => H s'.store d' L)
        (wp_attempt (wp_zoom ?_)) ?_ fun _ _ _ hq => hq)
      · exact hb.wp_mounted h (fun h' _ => hb.wp_lock (.inl rfl) h') fun _ _ _ h' => h'
      · rintro (e | _) s' d' hq
        · dsimp only
          split
          · exact wp_fail hq
          · exact ih hq
        · exact wp_modify hq
  refine wp_get_bind ?_
  split
  · exact wp_pure h
  · exact hattempts _ h

lemma wp_releaseLock (h : H s.store d L) :
    Wp env harm A (fun _ => True) releaseLock
      (fun r s' d' => r = .ok () ∧ H s'.store d' L) s d := by
  refine wp_get_bind ?_
  split
  · refine wp_bind (Q := fun r s' d' => (∃ a, r = .ok a) ∧ H s'.store d' L)
      (wp_attempt (wp_zoom ?_)) (fun _ _ _ hq => wp_modify ⟨rfl, hq.2⟩) fun _ _ _ hq => nomatch hq.1
    exact (hb.wp_lock (.inr rfl) h).mono fun _ _ _ hq => ⟨⟨_, rfl⟩, hq⟩
  · exact wp_pure ⟨rfl, h⟩

/-- What an operation does under the lock it does altogether. -/
lemma wp_scopedLock {m : QueueM α} {P : Except Status α → List (ℕ × Bytes) → Prop}
    (h : H s.store d L) (hlock : ∀ st, P (.error st) L)
    (hm : ∀ {s d}, H s.store d L →
      Wp env harm A (fun _ => True) m (Takes H P) s d) :
    Wp env harm A (fun _ => True) (scopedLock cfg m) (Takes H P) s d := by
  refine wp_bind (wp_acquireLock hb h) ?_ fun e s' d' hq => ⟨L, hq, hlock e⟩
  intro _ s' d' hq
  refine wp_bind (Q := fun r s' d' => ∃ a, r = .ok a ∧ Takes H P a s' d')
    (wp_attempt ((hm hq).mono fun r _ _ ht => ⟨r, rfl, ht⟩)) ?_ fun _ _ _ ⟨_, he, _⟩ => nomatch he
  rintro a s' d' ⟨_, ha, L', hL', hP⟩
  obtain rfl := Except.ok.inj ha
  refine wp_bind (wp_releaseLock hb hL') ?_ fun _ _ _ hq => nomatch hq.1
  rintro _ s'' d'' ⟨-, hq⟩
  cases a with
  | ok v => exact wp_pure ⟨L', hq, hP⟩
  | error e => exact wp_fail ⟨L', hq, hP⟩

/-- The index is loaded. -/
lemma wp_loadLatestIndex (h : H s.store d L) :
    Wp env harm A (fun _ => True) (loadLatestIndex cfg) (fun r s' d' =>
      H s'.store d' L ∧
        (r = .ok () → s'.store.mounted = true ∧ s'.index = s'.store.index)) s d := by
  refine wp_bind (Q := fun r s' d' => H s'.store d' L ∧
    ∀ index, r = .ok index → s'.store.mounted = true ∧ index = s'.store.index)
    (wp_zoom (hb.wp_readIndex h)) ?_ fun _ _ _ hq => ⟨hq.1, fun he => nomatch he⟩
  rintro index s' d' ⟨hq, hi⟩
  exact wp_modify ⟨hq, fun _ => hi index rfl⟩

/-- An operation that loads the index fails before it has done anything, or goes on with it. -/
lemma wp_load {k : Unit → QueueM α} {P : Except Status α → List (ℕ × Bytes) → Prop}
    (h : H s.store d L) (herr : ∀ st, P (.error st) L)
    (hk : ∀ {s' : QueueState} {d' : Disk}, H s'.store d' L → s'.store.mounted = true →
      s'.index = s'.store.index → Wp env harm A (fun _ => True) (k ()) (Takes H P) s' d') :
    Wp env harm A (fun _ => True) (loadLatestIndex cfg >>= k) (Takes H P) s d := by
  refine wp_bind (wp_loadLatestIndex hb h) ?_ fun e s' d' hq => ⟨L, hq.1, herr e⟩
  rintro _ s' d' ⟨hq, hi⟩
  exact hk hq (hi rfl).1 (hi rfl).2

/-! ## The operations -/

/-- The front record is popped, or it stays. -/
lemma wp_evictFront {f : ℕ} {p : Bytes} {rest : List (ℕ × Bytes)}
    (h : H s.store d ((f, p) :: rest)) (hm : s.store.mounted = true)
    (hhead : s.index.head = f) :
    Wp env harm A (fun _ => True) (evictFront cfg) (fun r s' d' =>
      (r = .ok () → H s'.store d' rest ∧ s'.store.mounted = true ∧
        s'.index = QueueIndex.advance s.index) ∧
      ∀ st, r = .error st → H s'.store d' ((f, p) :: rest)) s d := by
  subst hhead
  refine wp_get_bind (wp_bind (wp_zoom (Q := fun r (s' : QueueState) d' =>
    s'.index = s.index ∧ s'.store.mounted = true ∧ (r = .ok () → H s'.store d' rest) ∧
      ∀ st, r = .error st → H s'.store d' ((s.index.head, p) :: rest))
    ((hb.wp_commitPop h hm).mono fun _ _ _ hq => ⟨rfl, hq⟩)) ?_ ?_)
  · rintro _ s' d' ⟨hi, hm', hok, -⟩
    exact wp_modify ⟨fun _ => ⟨hok rfl, hm', by rw [← hi]⟩, fun _ he => nomatch he⟩
  · rintro e s' d' ⟨-, -, -, herr⟩
    exact ⟨fun he => (nomatch he), fun _ _ => herr e rfl⟩

/-- After an eviction the index begins at the next record. -/
lemma head_advance {index : QueueIndex} {f : ℕ} {p : Bytes} {rest : List (ℕ × Bytes)}
    (h : H s.store d ((f, p) :: rest)) (hm : s.store.mounted = true) (hf : index.head = f) :
    ∀ f' p' rest', rest = (f', p') :: rest' → (QueueIndex.advance index).head = f' := by
  rintro f' p' rest' rfl
  obtain ⟨head, hh⟩ := hb.contiguous h hm
  have h0 : f = head + 0 := key_of_getElem? (i := 0) hh rfl
  have h1 : f' = head + 1 := key_of_getElem? (i := 1) hh rfl
  have hlt := hb.seqs_lt h hm f' (by simp)
  show u32 (index.head + 1) = f'
  rw [hf, u32_of_lt (by omega)]
  omega

omit hb in
/-- An eviction leaves the last record, or none. -/
lemma back_of_rest {sequence : ℕ} {front : ℕ × Bytes} {rest : List (ℕ × Bytes)}
    (h : ∀ back, ((front :: rest).map Prod.fst).getLast? = some back → sequence = back + 1) :
    ∀ back, (rest.map Prod.fst).getLast? = some back → sequence = back + 1 := by
  intro back hb
  refine h back ?_
  rw [List.map_cons, List.getLast?_cons, hb]
  rfl

/-- The loop of `enqueue`, on what is left of the contents. -/
lemma wp_enqueueEvicting {sequence : ℕ} {record : Bytes} (hseq : sequence < 2 ^ 32) (count : ℕ)
    {kept : List (ℕ × Bytes)} (h : H s.store d kept) (hm : s.store.mounted = true)
    (hcount : count ≤ kept.length)
    (hhead : ∀ f p rest, kept = (f, p) :: rest → s.index.head = f)
    (hback : ∀ back, (kept.map Prod.fst).getLast? = some back → sequence = back + 1)
    (hev : Evicts cfg.fullQueuePolicy L kept) :
    Wp env harm A (fun _ => True) (enqueueEvicting cfg sequence record count)
      (Takes H (FifoStep cfg.fullQueuePolicy (.enqueue record) L)) s d := by
  induction count generalizing s d kept with
  | zero =>
    rw [enqueueEvicting]
    refine wp_zoom ((hb.wp_commitEnqueue h hm hseq hback).mono ?_)
    rintro (e | _) ram' d' ⟨-, hok, herr⟩
    · exact ⟨kept, herr e rfl, hev⟩
    · exact ⟨_, hok rfl, kept, sequence, hev, rfl⟩
  | succ count ih =>
    refine wp_bind (Q := fun r (s' : QueueState) d' => ∃ a, r = .ok a ∧ s'.index = s.index ∧
      s'.store.mounted = true ∧
        (a = .ok () → H s'.store d' (kept ++ [(sequence, record)])) ∧
        ∀ st, a = .error st → H s'.store d' kept)
      (wp_attempt (wp_zoom ((hb.wp_commitEnqueue h hm hseq hback).mono
        fun r _ _ hq => ⟨r, rfl, rfl, hq⟩))) ?_ fun _ _ _ ⟨_, he, _⟩ => nomatch he
    rintro a s' d' ⟨_, ha, hi, hm', hok, herr⟩
    obtain rfl := Except.ok.inj ha
    cases a with
    | ok _ => exact wp_pure ⟨_, hok rfl, kept, sequence, hev, rfl⟩
    | error e =>
      dsimp only
      split
      case isFalse => exact wp_fail ⟨kept, herr e rfl, hev⟩
      case isTrue hfull =>
        obtain ⟨⟨f, p⟩, rest, rfl⟩ := List.exists_cons_of_length_pos (Nat.lt_of_lt_of_le
          (Nat.succ_pos count) hcount)
        have hf : s'.index.head = f := hi ▸ hhead f p rest rfl
        refine wp_bind (wp_evictFront hb (herr e rfl) hm' hf) ?_
          fun st s'' d'' hq => ⟨_, hq.2 st rfl, hev⟩
        rintro _ s'' d'' ⟨hq, -⟩
        obtain ⟨hrest, hm'', hi''⟩ := hq rfl
        have hev' : Evicts cfg.fullQueuePolicy L rest := by
          obtain ⟨evicted, rfl, -⟩ := hev
          refine ⟨evicted ++ [(f, p)], by rw [List.append_assoc]; rfl, fun hp => ?_⟩
          rw [hfull.2] at hp
          cases hp
        exact ih hrest hm'' (Nat.le_of_succ_le_succ hcount) (hi'' ▸ head_advance hb h hm hf)
          (back_of_rest hback) hev'

/-- Nothing is done to the contents before the record is admitted. -/
lemma wp_reclaimUnderPressure {recordSize : ℕ} (h : H s.store d L)
    (hm : s.store.mounted = true) :
    Wp env harm A (fun _ => True) (reclaimUnderPressure cfg recordSize) (fun _ s' d' =>
      H s'.store d' L ∧ s'.store.mounted = true ∧ s'.index = s.index) s d := by
  refine wp_get_bind ?_
  split
  swap
  · exact wp_pure ⟨h, hm, rfl⟩
  refine wp_bind (Q := fun _ s' d' => s' = s ∧ d' = d)
    (wp_zoom ((reads_pressure hb.damaging trivial).mono ?_))
    ?_ ?_
  · rintro _ ram' d' ⟨rfl, rfl, -⟩
    exact ⟨rfl, rfl⟩
  · rintro pressure s' d' ⟨rfl, rfl⟩
    split
    · have hreclaim : Wp env harm A (fun _ => True) (Store.reclaimDeadFrontSegment cfg.store) _
          s'.store d' := hb.wp_quiet h hm (wp_reclaimDeadFrontSegment hb.damaging hb.gen_lt
            watched_true .refl)
      refine wp_bind (wp_zoom (Q := fun _ (s'' : QueueState) d'' =>
        H s''.store d'' L ∧
        s''.store.mounted = true ∧ s''.index = s'.index)
        (hreclaim.mono fun _ _ _ hq => ⟨hq.2, hq.1, rfl⟩)) (fun _ _ _ hq => wp_pure hq)
        fun _ _ _ hq => hq
    · exact wp_pure ⟨h, hm, rfl⟩
  · rintro e s' d' ⟨rfl, rfl⟩
    exact ⟨h, hm, rfl⟩

/-- A record of the contents is read as it is. -/
lemma wp_readAt {i f : ℕ} (h : H s.store d L) (hm : s.store.mounted = true)
    (hhead : ∀ f' p rest, L = (f', p) :: rest → f = f') (hi : i < L.length) :
    Wp env harm A (fun _ => True) (lift (Store.readRecord cfg.store (u32 (f + i))))
      (fun r s' d' => s' = s ∧ d' = d ∧ ∀ data, r = .ok data → L[i]? = some (u32 (f + i), data))
      s d := by
  refine wp_zoom ((hb.wp_readRecord h hm).mono ?_)
  rintro r ram' d' ⟨rfl, rfl, hread⟩
  refine ⟨rfl, rfl, fun data hr => ?_⟩
  have hmem := hread data hr
  obtain ⟨⟨f', p⟩, rest, rfl⟩ := List.exists_cons_of_length_pos (Nat.zero_lt_of_lt hi)
  obtain rfl := hhead f' p rest rfl
  obtain ⟨head, hh⟩ := hb.contiguous h hm
  have h0 : f = head + 0 := key_of_getElem? (i := 0) hh rfl
  have hlt := hb.seqs_lt h hm (head + i) (by rw [hh, List.mem_range'_1]; omega)
  rw [u32_of_lt (by omega)] at hmem ⊢
  exact hb.getElem?_of_mem h hm hmem

/-- The visitor is shown the contents. -/
lemma wp_visitFrom {visitor : Bytes → ℕ → ℕ → Bool} {f : ℕ} (h : H s.store d L)
    (hm : s.store.mounted = true)
    (hhead : ∀ f' p rest, L = (f', p) :: rest → f = f') (n ordinal : ℕ)
    (hn : ordinal + n = L.length) :
    Wp env harm A (fun _ => True) (visitFrom cfg visitor f ordinal n) (fun r s' d' => s' = s ∧
      d' = d ∧ ∀ seen, r = .ok seen → seen = shown visitor ordinal (L.drop ordinal)) s d := by
  induction n generalizing ordinal with
  | zero =>
    refine wp_pure ⟨rfl, rfl, fun seen he => ?_⟩
    rw [List.drop_of_length_le (by omega)]
    exact (Except.ok.inj he).symm
  | succ n ih =>
    refine wp_bind (wp_readAt hb h hm hhead (by omega : ordinal < L.length)) ?_
      fun e s' d' hq => ⟨hq.1, hq.2.1, fun _ he => nomatch he⟩
    rintro record s' d' ⟨rfl, rfl, hread⟩
    have hdrop : L.drop ordinal = (u32 (f + ordinal), record) :: L.drop (ordinal + 1) := by
      obtain ⟨hlt, hget⟩ := List.getElem?_eq_some_iff.1 (hread record rfl)
      rw [List.drop_eq_getElem_cons hlt, hget]
    rw [hdrop, shown]
    split
    case isFalse =>
      exact wp_pure ⟨rfl, rfl, fun seen he => (Except.ok.inj he).symm⟩
    case isTrue =>
      refine wp_bind (ih (ordinal + 1) (by omega)) ?_
        fun e s' d' hq => ⟨hq.1, hq.2.1, fun _ he => nomatch he⟩
      rintro seen s' d' ⟨rfl, rfl, hseen⟩
      refine wp_pure ⟨rfl, rfl, fun seen' he => ?_⟩
      rw [← hseen seen rfl]
      exact (Except.ok.inj he).symm

/-- **One operation** takes a step of the abstract queue, whatever calls fail. -/
theorem wp_method (h : H s.store d L) (op : QueueOp) :
    Wp env harm A (fun _ => True) (op.method cfg) (Takes H (FifoStep cfg.fullQueuePolicy op L))
      s d := by
  cases op with
  | enqueue record =>
    have hnone : Evicts cfg.fullQueuePolicy L L := ⟨[], rfl, fun _ => rfl⟩
    refine wp_scopedLock hb h (fun _ => hnone) fun h => wp_load hb h (fun _ => hnone) ?_
    intro s d h hm hi
    split
    · exact wp_fail ⟨L, h, hnone⟩
    refine wp_get_bind (wp_bind (wp_reclaimUnderPressure hb h hm) ?_
      fun e s' d' hq => ⟨L, hq.1, hnone⟩)
    rintro _ s' d' ⟨h', hm', hi'⟩
    obtain ⟨hcount, hhead, htail, hback⟩ := hb.index h hm
    rw [← hi] at hcount hhead htail hback
    refine wp_bind (wp_enqueueEvicting hb htail _ h' hm' hcount.le (hi' ▸ hhead) hback hnone) ?_
      fun _ _ _ hq => hq
    rintro _ s'' d'' ⟨L', hL', hP⟩
    exact wp_modify ⟨L', hL', hP⟩
  | pop =>
    refine wp_scopedLock hb h (fun _ => rfl) fun h => wp_load hb h (fun _ => rfl) ?_
    intro s d h hm hi
    obtain ⟨hcount, hhead, -⟩ := hb.index h hm
    rw [← hi] at hcount hhead
    refine wp_get_bind ?_
    split
    · exact wp_fail ⟨L, h, rfl⟩
    obtain ⟨⟨f, p⟩, rest, rfl⟩ := List.exists_cons_of_length_pos (l := L) (by omega)
    refine (wp_evictFront hb h hm (hhead f p rest rfl)).mono ?_
    rintro (e | _) s' d' ⟨hok, herr⟩
    · exact ⟨_, herr e rfl, rfl⟩
    · exact ⟨_, (hok rfl).1, _, rfl⟩
  | rewriteFront record =>
    refine wp_scopedLock hb h (fun _ => rfl) fun h => wp_load hb h (fun _ => rfl) ?_
    intro s d h hm hi
    obtain ⟨hcount, hhead, -⟩ := hb.index h hm
    rw [← hi] at hcount hhead
    refine wp_get_bind ?_
    split
    · exact wp_fail ⟨L, h, rfl⟩
    split
    · exact wp_fail ⟨L, h, rfl⟩
    obtain ⟨⟨f, p⟩, rest, rfl⟩ := List.exists_cons_of_length_pos (l := L) (by omega)
    rw [hhead f p rest rfl]
    refine wp_zoom ((hb.wp_rewriteRecord h hm).mono ?_)
    rintro (e | _) s' d' ⟨-, hok, herr⟩
    · exact ⟨_, herr e rfl, rfl⟩
    · exact ⟨_, hok rfl, f, p, rest, rfl, rfl⟩
  | peek =>
    refine wp_scopedLock hb h (fun _ => rfl) fun h => wp_load hb h (fun _ => rfl) ?_
    intro s d h hm hi
    obtain ⟨hcount, hhead, -⟩ := hb.index h hm
    rw [← hi] at hcount hhead
    refine wp_get_bind ?_
    split
    · exact wp_fail ⟨L, h, rfl⟩
    obtain ⟨⟨f, p⟩, rest, rfl⟩ := List.exists_cons_of_length_pos (l := L) (by omega)
    rw [hhead f p rest rfl]
    refine wp_zoom ((hb.wp_readRecord h hm).mono ?_)
    rintro (e | data) ram' d' ⟨rfl, rfl, hread⟩
    · exact ⟨_, h, rfl⟩
    · obtain ⟨-, rfl⟩ :=
        Prod.mk.inj (Option.some.inj (hb.getElem?_of_mem (i := 0) h hm (hread data rfl)))
      exact ⟨_, h, rfl, f, rest, rfl⟩
  | visitRecords visitor =>
    refine wp_scopedLock hb h (fun _ => rfl) fun h => wp_load hb h (fun _ => rfl) ?_
    intro s d h hm hi
    obtain ⟨hcount, hhead, -⟩ := hb.index h hm
    rw [← hi] at hcount hhead
    refine wp_get_bind ((wp_visitFrom hb h hm hhead _ 0 (by omega)).mono ?_)
    rintro (e | seen) s' d' ⟨rfl, rfl, hseen⟩
    · exact ⟨_, h, rfl⟩
    · exact ⟨_, h, rfl, hseen seen rfl⟩
  | compactIdle maxSteps =>
    refine wp_scopedLock hb h (fun _ => rfl) fun {s d} h => wp_zoom ?_
    by_cases hm : s.store.mounted = true
    · refine (hb.wp_quiet h hm (wp_compactIdle hb.damaging hb.gen_lt watched_true .refl)).mono ?_
      exact fun r ram' d' hq => ⟨L, hq.2, rfl⟩
    · refine (reads_compactIdle (J := fun _ => True)
        (hb.unmounted h (Bool.eq_false_of_not_eq_true hm))).mono ?_
      rintro r ram' d' ⟨rfl, rfl, -⟩
      exact ⟨L, h, rfl⟩

end

end Queue

end Pqueue
