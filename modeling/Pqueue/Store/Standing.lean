import Pqueue.Store.Contents
import Pqueue.Store.Formatting
import Pqueue.Store.Synced

/-!
# Objects that answer as a list does

`ListRun` are the runs of a list that knows nothing of segments and objects.  A mounted object whose
moves keep some `P` takes the steps of such a list (`Standing.step`), and so does an object that
mounts in the operation (`Waiting.step`); what `P` is, decides which objects of the same directory
find the list again.
-/

namespace Pqueue

open Effect LittleEndian

/-! ## The abstract store -/

/-- What an operation that ends with `r` does to the records. -/
def ListStep : StoreOp → List (ℕ × Bytes) → Except Status Unit → List (ℕ × Bytes) → Prop
  | .enqueue _ record, L, .ok _, L' => ∃ sequence, L' = L ++ [(sequence, record)]
  | .pop expectedSequence, L, .ok _, L' => ∃ payload, L = (u32 expectedSequence, payload) :: L'
  | .rewrite _ sequence record, L, .ok _, L' => ∃ before old after,
      L = before ++ (u32 sequence, old) :: after ∧ L' = before ++ (u32 sequence, record) :: after
  | .format, _, .ok _, L' => L' = []
  | _, L, _, L' => L' = L

/-- An operation that fails leaves the records as they are. -/
lemma listStep_error {op : StoreOp} {L L' : List (ℕ × Bytes)} {e : Status} :
    ListStep op L (.error e) L' ↔ L' = L := by
  cases op <;> simp [ListStep]

/-- What happens to a store. -/
inductive StoreEvent
  | operation (op : StoreOp) (r : Except Status Unit)
  /-- The object is left, and a new one takes its place. -/
  | reopened
  /-- The object is cut off inside an operation, and a new one takes its place. -/
  | crashed (op : StoreOp)

/-- The runs of the abstract store. -/
inductive ListRun : List StoreEvent → List (ℕ × Bytes) → Prop
  | start : ListRun [] []
  | operation {trace L op r L'} (h : ListRun trace L) (hs : ListStep op L r L') :
      ListRun (trace ++ [.operation op r]) L'
  | reopened {trace L} (h : ListRun trace L) : ListRun (trace ++ [.reopened]) L
  /-- The operation has happened, or it has not. -/
  | crashed {trace L op L'} (h : ListRun trace L) (hs : L' = L ∨ ListStep op L (.ok ()) L') :
      ListRun (trace ++ [.crashed op]) L'

/-! ## Logged events -/

section Events

variable {cfg : AppendLogConfig} {harm : FsCall → Disk → Disk → Prop} {A : StoreMark → Disk → Prop}
  {ram ram' : Ram} {d d' : Disk} {evs : List LogEvent} {e : LogEvent}

lemma Move.events (h : Move cfg harm A ram d evs ram' d') :
    evs = [] ∨ ∃ e, evs = [e] ∧ Loggable cfg ram e := by
  cases h with
  | logged hl => exact .inr ⟨_, rfl, hl⟩
  | _ => exact .inl rfl

/-- An event that is logged is about the sequences that are live before. -/
lemma Moves.loggable (h : Moves cfg harm A ram d [e] ram' d') :
    ∃ ram₁, ram₁.seqs = ram.seqs ∧ Loggable cfg ram₁ e := by
  generalize hevs : [e] = evs at h
  induction h with
  | refl => cases hevs
  | @step evs evs' ram₁ d₁ ram₂ d₂ h hm ih =>
    rcases hm.events with rfl | ⟨e', rfl, hl⟩
    · rw [List.append_nil] at hevs
      exact ih hevs
    · have hevs : [] ++ [e] = evs ++ [e'] := hevs
      obtain ⟨hnil, he⟩ := List.append_inj' hevs rfl
      subst hnil
      obtain rfl := List.singleton_inj.1 he
      exact ⟨ram₁, h.seqs, hl⟩

/-- What the events do to the contents. -/
lemma afterEvents_pop {L : List (ℕ × Bytes)} {s : ℕ} (h : (L.map Prod.fst).head? = some s) :
    ∃ payload, L = (s, payload) :: afterEvents L [.pop s] := by
  cases L with
  | nil => cases h
  | cons front rest =>
    obtain rfl : front.1 = s := Option.some.inj h
    have hpop : afterEvents (front :: rest) [.pop front.1] = rest := if_pos rfl
    exact ⟨front.2, by rw [hpop]⟩

lemma afterEvents_rewrite {L : List (ℕ × Bytes)} {s : ℕ} (payload : Bytes)
    (h : s ∈ L.map Prod.fst) : ∃ before old after, L = before ++ (s, old) :: after ∧
      afterEvents L [.rewrite s payload] = before ++ (s, payload) :: after := by
  obtain ⟨before, ⟨s', old⟩, after, hL, hs, hreplace⟩ :=
    @QueueLog.replaceFirst_split ℕ (ℕ × Bytes) _ Prod.fst (s, payload) L h
  obtain rfl : s' = s := hs
  refine ⟨before, old, after, hL, ?_⟩
  have hput : afterEvents L [.rewrite s' payload] =
      QueueLog.putInto Prod.fst (s', payload) L := rfl
  rw [hput, QueueLog.putInto, hreplace]
  rfl

end Events

/-! ## A mounted object -/

/-- What the moves of a mounted object keep, from its first segment on. -/
structure Carried (cfg : AppendLogConfig) (A : StoreMark → Disk → Prop) (P : Ram → Disk → Prop) :
    Prop where
  first : ∀ ram d ranges startSeq slot epoch n, Blank ram → Unpublished ram d → Canonical d →
    Opens noHarm A ram d ranges startSeq slot epoch →
      P (ram.opened ranges slot epoch n) (Disk.opened d ram ranges startSeq slot epoch)
  move : ∀ ram d evs ram' d', P ram d → Move cfg noHarm A ram d evs ram' d' → P ram' d'

/-- The same, of objects that fit their directory. -/
structure Upheld (cfg : AppendLogConfig) (A : StoreMark → Disk → Prop) (P : Ram → Disk → Prop) :
    Prop extends Carried cfg A P where
  offsets : ∀ mk d, A mk d → OffsetsFit mk
  coherent : ∀ ram d, P ram d → Coherent cfg ram d

/-- An object that knows the logs of its directory. -/
def StoredWith (cfg : AppendLogConfig) (lim : Limits) (ram : Ram) (d : Disk) : Prop :=
  Coherent cfg ram d ∧ ∃ seg, Stored cfg lim ram d seg

/-- An object whose index is what its logs say. -/
def IndexedWith (cfg : AppendLogConfig) (lim : Limits) (ram : Ram) (d : Disk) : Prop :=
  ∃ seg, Indexed cfg lim ram d seg

/-- An object whose index is what its logs say, and whose tail knows what it depends on. -/
def SyncedWith (cfg : AppendLogConfig) (lim : Limits) (ram : Ram) (d : Disk) : Prop :=
  ∃ seg, Synced cfg lim ram d seg

section Kept

variable {cfg : AppendLogConfig} {lim : Limits} {A : StoreMark → Disk → Prop}

lemma upheld_stored (hA : ∀ mk d, A mk d → Within lim mk) : Upheld cfg A (StoredWith cfg lim) where
  offsets mk d hmk := (hA mk d hmk).unbounded.offsets
  coherent ram d h := h.1
  first ram d ranges startSeq slot epoch n hb hu hcan ho :=
    ⟨(hb.opened ho n).1, _, (Stored.first hb hu hcan hA ho n).1⟩
  move ram d evs ram' d' h hm := by
    obtain ⟨hco, seg, hs⟩ := h
    obtain ⟨seg', hs'⟩ := hs.move hA hm
    have hready : Ready cfg ram d (ram.contents d) := .inr ⟨hco, rfl⟩
    obtain ⟨hb, -⟩ | ⟨hco', -⟩ := hready.move damaging_noHarm
      (fun mk d hmk => (hA mk d hmk).unbounded.offsets) hm
    · exact absurd hb.bytes hs'.sited.bytes_ne
    · exact ⟨hco', seg', hs'⟩

lemma upheld_indexed (hA : ∀ mk d, A mk d → Within lim mk)
    (hsep : ∀ mk d, A mk d → SeparableAt cfg mk d) : Upheld cfg A (IndexedWith cfg lim) where
  offsets mk d hmk := (hA mk d hmk).unbounded.offsets
  coherent ram d h := by
    obtain ⟨seg, hs⟩ := h
    exact hs.coherent
  first ram d ranges startSeq slot epoch n hb hu hcan ho :=
    ⟨_, Indexed.first hb hu hcan hA ho n⟩
  move ram d evs ram' d' h hm := by
    obtain ⟨seg, hs⟩ := h
    exact hs.move hA hsep hm

lemma upheld_synced (hA : ∀ mk d, A mk d → Within lim mk)
    (hclear : ∀ mk d, A mk d → ClearAt cfg mk d) : Upheld cfg A (SyncedWith cfg lim) where
  offsets mk d hmk := (hA mk d hmk).unbounded.offsets
  coherent ram d h := by
    obtain ⟨seg, hs⟩ := h
    exact hs.coherent
  first ram d ranges startSeq slot epoch n hb hu hcan ho :=
    ⟨_, Synced.first hb hu hcan hA ho n⟩
  move ram d evs ram' d' h hm := by
    obtain ⟨seg, hs⟩ := h
    exact hs.move hA hclear hm

end Kept

/-- A mounted object that has published nothing in a directory without files of the store, or one
that keeps `P`. -/
def InStep (P : Ram → Disk → Prop) (ram : Ram) (d : Disk) : Prop :=
  (Blank ram ∧ ram.cachedWrittenSlot = none ∧ Bare d d) ∨ P ram d

lemma elected_eq_none {d : Disk} (h : ∀ s, Disk.manifest d s = none) : Disk.elected d = none := by
  unfold Disk.elected
  rw [h, h]
  rfl

lemma manifest_eq_none {d : Disk} (h : Disk.elected d = none) (s : Slot) :
    Disk.manifest d s = none := by
  unfold Disk.elected at h
  cases ha : Disk.manifest d .a with
  | none =>
    cases hb : Disk.manifest d .b with
    | none => cases s with
      | a => exact ha
      | b => exact hb
    | some mdB => simp [ha, hb, chooseWinningSlot] at h
  | some mdA =>
    cases hb : Disk.manifest d .b with
    | none => simp [ha, hb, chooseWinningSlot] at h
    | some mdB =>
      simp only [ha, hb, chooseWinningSlot] at h
      split at h <;> cases h

lemma not_isStoreFile_lock : isStoreFile kLockFileName = false := by
  unfold isStoreFile
  rw [isSegmentName_lock]
  decide

/-- The lock file is no file of the store. -/
lemma Bare.lock {d d' : Disk} (h : Bare d d) (hs : SameExcept kLockFileName d d') : Bare d' d' := by
  intro name
  by_cases hstore : isStoreFile name = true
  · have hne : name ≠ kLockFileName := by
      rintro rfl
      simp [not_isStoreFile_lock] at hstore
    rw [if_pos hstore, hs name hne, h name, if_pos hstore]
  · rw [if_neg hstore]

/-- Where no slot file exists, one can be chosen. -/
lemma Bare.not_noTarget {ram : Ram} {d : Disk} (h : Bare d d) : ¬ram.NoTarget noHarm d := by
  rintro ⟨-, existsA, existsB, mdA, mdB, hA, hB, -, -, hnone⟩
  obtain rfl := hA.resolve_right fun hh => hh.2 fun _ _ hh => hh
  obtain rfl := hB.resolve_right fun hh => hh.2 fun _ _ hh => hh
  simp [h.slot, chooseInactiveSlot] at hnone

section InStep

variable {cfg : AppendLogConfig} {A : StoreMark → Disk → Prop} {P : Ram → Disk → Prop}
  {ram ram' : Ram} {d d' : Disk} {evs : List LogEvent}

/-- **One move** keeps an object in step. -/
lemma Carried.inStep_move (hk : Carried cfg A P) (h : InStep P ram d)
    (hm : Move cfg noHarm A ram d evs ram' d') : InStep P ram' d' := by
  rcases h with ⟨hb, hslot, hbare⟩ | h
  · -- nothing is logged or compacted before the first segment is opened
    cases hm with
    | lock hlock => exact .inl ⟨hb, hslot, hbare.lock hlock⟩
    | noteSealed =>
      rw [hb.noteSealed]
      exact .inl ⟨hb, hslot, hbare⟩
    | wrote _ _ _ hw =>
      obtain hne | ⟨c, hc⟩ | hnone := hw
      · exact absurd hb.ranges hne
      · exact absurd (reliable_noHarm c) hc
      · exact absurd hnone hbare.not_noTarget
    | opened ho hn =>
      exact .inr (hk.first _ _ _ _ _ _ _ hb ⟨hslot, hbare.manifest⟩ hbare.canonical ho)
    | logged _ hopen => exact absurd hb.bytes hopen
    | compacted hc =>
      obtain ⟨range, fallback, -, hplan⟩ := hc.planned
      rw [hb.not_planned] at hplan
      cases hplan
    | writeFailed _ _ hharm => exact hharm.elim
    | openFailed _ hharm => exact hharm.elim
    | logFailed _ _ _ hharm => exact hharm.elim
    | compactFailed _ _ _ hharm => exact hharm.elim
  · exact .inr (hk.move _ _ _ _ _ h hm)

/-- **Any sequence of moves** does. -/
lemma Carried.inStep_moves (hk : Carried cfg A P) (h : InStep P ram d)
    (hm : Moves cfg noHarm A ram d evs ram' d') : InStep P ram' d' :=
  hm.invariant (P := fun _ ram d => InStep P ram d)
    (fun _ _ _ _ _ _ hp hmove => hk.inStep_move hp hmove) h

end InStep

/-- A mounted object in step, with the contents `L`. -/
structure Standing (P : Ram → Disk → Prop) (ram : Ram) (d : Disk) (L : List (ℕ × Bytes)) :
    Prop where
  inStep : InStep P ram d
  contents : ram.contents d = L
  sequence_lt : ram.nextSequence < 2 ^ 32
  seqs_lt : ∀ s ∈ ram.seqs, s < 2 ^ 32 - 1

namespace Standing

variable {env : Env} {cfg : AppendLogConfig} {harm : FsCall → Disk → Disk → Prop}
  {A : StoreMark → Disk → Prop} {J : Disk → Prop} {P : Ram → Disk → Prop} {ram ram' : Ram}
  {d d' : Disk} {L : List (ℕ × Bytes)} {evs : List LogEvent} {op : StoreOp}

lemma ready (hk : Upheld cfg A P) (h : Standing P ram d L) : Ready cfg ram d L := by
  obtain ⟨⟨hb, -⟩ | hp, rfl, -, -⟩ := h
  · left
    refine ⟨hb, ?_⟩
    unfold Ram.contents
    rw [hb.records]
    rfl
  · exact .inr ⟨hk.coherent _ _ hp, rfl⟩

lemma keys (h : Standing P ram d L) : ram.seqs = L.map Prod.fst := by
  rw [← h.contents, Ram.contents, List.map_map]
  rfl

/-- The sequences follow one another. -/
lemma contiguous (hc : ∀ ram d, P ram d → Coherent cfg ram d) (h : Standing P ram d L) :
    ∃ head, L.map Prod.fst = List.range' head L.length := by
  have hlen : L.length = ram.records.length := by
    rw [← h.contents, Ram.contents, List.length_map]
  rw [← h.keys, hlen]
  rcases h.inStep with ⟨hb, -⟩ | hp
  · simp [Ram.seqs, hb.records]
  · exact (hc _ _ hp).placed.contiguous

lemma moves (hk : Upheld cfg A P) (h : Standing P ram d L)
    (hm : Moves cfg noHarm A ram d evs ram' d') : Standing P ram' d' (afterEvents L evs) where
  inStep := hk.inStep_moves h.inStep hm
  contents := ((h.ready hk).moves damaging_noHarm hk.offsets hm).contents
  sequence_lt := by
    rw [hm.nextSequence]
    exact h.sequence_lt
  seqs_lt := hm.seqs_lt h.seqs_lt

/-- A commit that is told apart by its outcome. -/
lemma commits (h : Standing P ram d L) {m : Store Unit} {R : Ram → Prop} {n : ℕ} {e : LogEvent}
    (hw : Wp env harm A J m (Commits cfg harm A ram d [] R n e) ram d)
    (hstep : ∀ ram₁ : Ram, ram₁.seqs = L.map Prod.fst → Loggable cfg ram₁ e →
      ListStep op L (.ok ()) (afterEvents L [e])) :
    Wp env harm A J m (fun r ram' d' => ∃ evs, Moves cfg harm A ram d evs ram' d' ∧
      ListStep op L r (afterEvents L evs)) ram d := by
  apply hw.mono
  rintro (e' | _) ram' d' ⟨hok, herr⟩
  · exact ⟨[], herr e' rfl, listStep_error.2 rfl⟩
  · have hm : Moves cfg harm A ram d [e] ram' d' := (hok rfl).1
    obtain ⟨ram₁, hseqs, hl⟩ := hm.loggable
    exact ⟨[e], hm, hstep ram₁ (hseqs.trans h.keys) hl⟩

lemma formatted (h : Bare d d') : Standing P ram.formatted d' [] where
  inStep := .inl ⟨Blank.formatted ram, rfl, h.bare⟩
  contents := rfl
  sequence_lt := by
    show 0 < 2 ^ 32
    simp
  seqs_lt := by simp [Ram.seqs, (Blank.formatted ram).records]

/-- The tail of the index follows the last record. -/
lemma tail (h : Standing P ram d L) : ram.index.tail < 2 ^ 32 ∧
    ∀ back, ram.seqs.getLast? = some back → ram.index.tail = back + 1 := by
  cases hrecords : ram.records with
  | nil =>
    constructor
    · unfold Ram.index
      rw [hrecords]
      exact h.sequence_lt
    · intro back hback
      simp [Ram.seqs, hrecords] at hback
  | cons front rest =>
    -- with a record the next sequence of the object does not matter
    have hindex : ram.index = { ram with nextSequence := 0 }.index := by
      unfold Ram.index
      rw [hrecords, List.getLast?_eq_getLast_of_ne_nil (List.cons_ne_nil _ _)]
      rfl
    have htail := @index_tail { ram with nextSequence := 0 } rfl h.seqs_lt
    rw [← hindex] at htail
    exact htail

/-- Whatever calls fail, the moves of an operation are a step of the abstract store. -/
theorem wp_method (hd : Damaging harm) (hgen : ∀ g d, A (.allocate g) d → g + 1 < 2 ^ 32)
    (hJ : Watched cfg harm A ram d [] J) (h : Standing P ram d L) (hm : ram.mounted = true)
    (hop : op ≠ .format) :
    Wp env harm A J (op.method cfg) (fun r ram' d' => ∃ evs, Moves cfg harm A ram d evs ram' d' ∧
      ListStep op L r (afterEvents L evs)) ram d := by
  -- what logs no event leaves the records
  have hquiet : (∀ fuel record, op ≠ .enqueue fuel record) → (∀ e, ¬op.Logs e) →
      (∀ r, ListStep op L r L) → Wp env harm A J (op.method cfg) (fun r ram' d' => ∃ evs,
        Moves cfg harm A ram d evs ram' d' ∧ ListStep op L r (afterEvents L evs)) ram d := by
    intro henqueue hlogs hstep
    apply (wp_method_of_ne hd hgen hJ hm hop henqueue).mono
    rintro r ram' d' ⟨evs, hevs, hmoves⟩
    obtain rfl : evs = [] := List.eq_nil_iff_forall_not_mem.2 fun e hmem => hlogs e (hevs e hmem)
    exact ⟨[], hmoves, hstep r⟩
  cases op with
  | enqueue fuel record =>
    obtain ⟨htail, hback⟩ := h.tail
    apply (reads_readIndex hm).bind
    intro index hindex
    rw [hindex]
    apply h.commits (wp_commitEnqueue hd hgen hJ .refl hm htail hback)
    intro _ _ _
    exact ⟨_, rfl⟩
  | pop expectedSequence =>
    apply h.commits (wp_commitPop hd hgen hJ .refl hm (u32_lt _))
    rintro ram₁ hseqs ⟨front, hfront, hseq⟩
    apply afterEvents_pop
    rw [← hseqs, Ram.seqs, List.head?_map, hfront, ← hseq]
    rfl
  | rewrite fuel sequence record =>
    apply h.commits (wp_rewriteRecord hd hgen hJ .refl hm (u32_lt _))
    rintro ram₁ hseqs ⟨-, x, hx, hseq⟩
    apply afterEvents_rewrite
    rw [← hseqs, ← hseq]
    exact List.mem_map_of_mem hx
  | format => exact absurd rfl hop
  | _ => exact hquiet (by simp) (by simp [StoreOp.Logs]) (by simp [ListStep])

/-- **One operation** of a mounted object takes a step of the abstract store. -/
theorem step (hk : Upheld cfg A P) {w w' : World} {r : Except Status Unit}
    (h : Standing P ram w.disk L) (he : Executes env noHarm A (op.method cfg) ram w r ram' w') :
    ∃ L', Standing P ram' w'.disk L' ∧ ListStep op L r L' := by
  by_cases hop : op = .format
  · subst hop
    have hwpc : Wpc env A True (fun _ => True) Store.format (fun r ram' w' =>
        ∃ L', Standing P ram' w'.disk L' ∧ ListStep .format L r L') ram w :=
      wpc_format (fun _ _ => trivial) fun w' hbare => ⟨[], formatted hbare, rfl⟩
    exact hwpc.executes he
  · have hgen : ∀ g d, A (.allocate g) d → g + 1 < 2 ^ 32 := fun g d hmk => hk.offsets _ _ hmk
    obtain ⟨evs, hm, hs⟩ :=
      (h.wp_method damaging_noHarm hgen watched_true (h.ready hk).mounted hop).sound he
    exact ⟨_, h.moves hk hm, hs⟩

end Standing

/-! ## An object that has mounted nothing -/

lemma Fresh.bare {ram : Ram} {d : Disk} (h : Fresh ram d) : Bare d d := by
  intro name
  by_cases hlock : name = kLockFileName
  · rw [hlock, if_neg (by simp [not_isStoreFile_lock])]
  · rw [h.empty name hlock, ite_self]

/-- A new object over an empty directory, or over one that retains the records, as `R` says. -/
def Waiting (R : Disk → List (ℕ × Bytes) → Prop) (ram : Ram) (d : Disk) (L : List (ℕ × Bytes)) :
    Prop :=
  Fresh ram d ∧ L = [] ∨ ram = {} ∧ R d L

section Mounting

variable {env : Env} {cfg : AppendLogConfig} {harm : FsCall → Disk → Disk → Prop}
  {A : StoreMark → Disk → Prop} {ram ram' : Ram} {w w' : World} {α : Type}

lemma ensureMounted_of_not (hm : ram.mounted = false) :
    Store.ensureMounted cfg ram = Store.mount cfg ram := by
  show Store.when (¬ram.mounted = true) (Store.mount cfg) ram = Store.mount cfg ram
  rw [Store.when, if_pos (by simp [hm])]

lemma bind_ensureMounted (hm : ram.mounted = true) (k : Unit → Store α) :
    (Store.ensureMounted cfg >>= k) ram = k () ram := by
  show ((Store.when (¬ram.mounted = true) (Store.mount cfg)) ram).bind (Act.step k) = k () ram
  rw [Store.when, if_neg (not_not.2 hm)]
  rfl

/-- An operation that mounts first, on an object that has not: the mount fails, or the operation is
that of the mounted object. -/
lemma StoreOp.Mounts.executes {op : StoreOp} {r : Except Status Unit} (h : op.Mounts)
    (hm : ram.mounted = false) (he : Executes env harm A (op.method cfg) ram w r ram' w') :
    (∃ ram₁ w₁, Executes env harm A (Store.mount cfg) ram w (.ok ()) ram₁ w₁ ∧
      (ram₁.mounted = true → Executes env harm A (op.method cfg) ram₁ w₁ r ram' w')) ∨
    ∃ e, r = .error e ∧ Executes env harm A (Store.mount cfg) ram w (.error e) ram' w' := by
  obtain ⟨k, hk⟩ : ∃ k, op.method cfg = Store.ensureMounted cfg >>= k := h.method
  rw [hk] at he ⊢
  rcases executes_bind.1 he with ⟨_, ram₁, w₁, hok, hrest⟩ | ⟨e, hr, herr⟩
  · unfold Executes at hok
    rw [ensureMounted_of_not hm] at hok
    refine .inl ⟨ram₁, w₁, hok, fun hm₁ => ?_⟩
    unfold Executes
    rw [bind_ensureMounted hm₁]
    exact hrest
  · unfold Executes at herr
    rw [ensureMounted_of_not hm] at herr
    exact .inr ⟨e, hr, herr⟩

end Mounting

/-- What is left to do without a mount, without ranges and records: nothing, or the lock file
changes. -/
lemma wp_unmounted {J : Disk → Prop} {d : Disk} {op : StoreOp} (hd : Damaging harm)
    (hr : ram.manifestRanges = []) (hmounts : ¬op.Mounts) (hop : op ≠ .format) (hJ : J d) :
    Wp env harm A J (op.method cfg) (fun _ ram' d' => ram' = ram ∧ SameExcept kLockFileName d d')
      ram d := by
  have hsame : ∀ {β : Type} {m : Store β} {P : β → Prop}, Reads env harm A J m P ram d →
      Wp env harm A J m (fun _ ram' d' => ram' = ram ∧ SameExcept kLockFileName d d') ram d := by
    intro β m P hreads
    apply hreads.mono
    rintro _ _ _ ⟨rfl, rfl, -⟩
    exact ⟨rfl, sameExcept_self _ _⟩
  cases op with
  | pressure => exact wp_discard (hsame (reads_pressure hd hJ))
  | compactRange => exact wp_discard (hsame (reads_compactRange hr hJ))
  | compactOneSegment => exact wp_discard (hsame (reads_compactOneSegment hr))
  | reclaimDeadFrontSegment => exact wp_discard (hsame (reads_reclaimDeadFrontSegment hr))
  | compactIdle => exact wp_discard (hsame (reads_compactIdle hr))
  | compactFull =>
    apply (reads_compactFull hr hJ).mono
    rintro _ _ _ ⟨rfl, rfl⟩
    exact ⟨rfl, sameExcept_self _ _⟩
  | releaseLock contents =>
    apply wp_call hJ
    · intro w hw _ _
      exact ⟨rfl, hw ▸ handle_lock (.inr rfl) w⟩
    · intro w hw _ _
      exact ⟨rfl, hw ▸ handle_lock (.inr rfl) w⟩
    · intro st d' hh
      exact ⟨rfl, hd _ _ _ hh⟩
  | format => exact absurd rfl hop
  | _ => exact absurd trivial hmounts

/-- It leaves the records as they are. -/
lemma listStep_unmounted {L : List (ℕ × Bytes)} {op : StoreOp} (r : Except Status Unit)
    (hmounts : ¬op.Mounts) (hop : op ≠ .format) : ListStep op L r L := by
  cases op with
  | format => exact absurd rfl hop
  | enqueue | pop | rewrite => exact absurd trivial hmounts
  | _ => simp [ListStep]

/-- What is known of a directory that retains records: the mount finds them, and the lock file is
not about them. -/
structure Remounts (env : Env) (cfg : AppendLogConfig) (A : StoreMark → Disk → Prop)
    (P : Ram → Disk → Prop) (R : Disk → List (ℕ × Bytes) → Prop) : Prop where
  mount : ∀ (w : World) L r ram' w', R w.disk L →
    Executes env noHarm A (Store.mount cfg) {} w r ram' w' → r = .ok () ∧ Standing P ram' w'.disk L
  lock : ∀ d d' L, R d L → SameExcept kLockFileName d d' → R d' L

namespace Waiting

variable {env : Env} {cfg : AppendLogConfig} {A : StoreMark → Disk → Prop} {P : Ram → Disk → Prop}
  {R : Disk → List (ℕ × Bytes) → Prop} {ram ram' : Ram} {w w' : World} {L : List (ℕ × Bytes)}
  {op : StoreOp}

lemma unmounted {d : Disk} (h : Waiting R ram d L) :
    ram.mounted = false ∧ ram.manifestRanges = [] := by
  rcases h with ⟨h, -⟩ | ⟨rfl, -⟩
  · exact ⟨h.mounted, h.ranges⟩
  · exact ⟨rfl, rfl⟩

/-- The mount finds the records, or it leaves everything as it is. -/
lemma mount (hr : Remounts env cfg A P R) (h : Waiting R ram w.disk L) {r : Except Status Unit}
    (he : Executes env noHarm A (Store.mount cfg) ram w r ram' w') :
    (r = .ok () → Standing P ram' w'.disk L) ∧
      ∀ e, r = .error e → Waiting R ram' w'.disk L := by
  rcases h with ⟨h, rfl⟩ | ⟨rfl, h⟩
  · obtain ⟨hdisk, hok, herr⟩ := (h.wp_mount damaging_noHarm (J := fun _ => True) trivial).sound he
    rw [hdisk]
    constructor
    · intro hr
      obtain ⟨hb, hu, hn⟩ := hok hr
      refine ⟨.inl ⟨hb, hu.1, h.bare⟩, ?_, ?_, ?_⟩
      · unfold Ram.contents
        rw [hb.records]
        rfl
      · rw [hn]
        simp
      · simp [Ram.seqs, hb.records]
    · intro e hr
      rw [herr e hr]
      exact .inl ⟨h, rfl⟩
  · obtain ⟨rfl, hstanding⟩ := hr.mount _ _ _ _ _ h he
    exact ⟨fun _ => hstanding, by simp⟩

/-- The lock file is not about the records. -/
lemma lock (hr : Remounts env cfg A P R) {d : Disk} (h : Waiting R ram w.disk L)
    (hs : SameExcept kLockFileName w.disk d) : Waiting R ram d L := by
  rcases h with ⟨h, rfl⟩ | ⟨rfl, h⟩
  · left
    exact ⟨{ h with empty := fun name hne => (hs name hne).trans (h.empty name hne) }, rfl⟩
  · exact .inr ⟨rfl, hr.lock _ _ _ h hs⟩

/-- **One operation** of an object that has mounted nothing takes a step of the abstract store. -/
theorem step (hk : Upheld cfg A P) (hr : Remounts env cfg A P R) {r : Except Status Unit}
    (h : Waiting R ram w.disk L)
    (he : Executes env noHarm A (op.method cfg) ram w r ram' w') :
    ∃ L', (Standing P ram' w'.disk L' ∨ Waiting R ram' w'.disk L') ∧
      ListStep op L r L' := by
  obtain ⟨hm, hranges⟩ := h.unmounted
  by_cases hmounts : op.Mounts
  · rcases hmounts.executes hm he with ⟨ram₁, w₁, hmount, hrest⟩ | ⟨e, rfl, hmount⟩
    · have hs : Standing P ram₁ w₁.disk L := (h.mount hr hmount).1 rfl
      obtain ⟨L', hL', hstep⟩ := hs.step hk (hrest (hs.ready hk).mounted)
      exact ⟨L', .inl hL', hstep⟩
    · exact ⟨L, .inr ((h.mount hr hmount).2 e rfl), listStep_error.2 rfl⟩
  · by_cases hop : op = .format
    · subst hop
      have hwpc : Wpc env A True (fun _ => True) Store.format (fun r ram' w' =>
          ∃ L', (Standing P ram' w'.disk L' ∨ Waiting R ram' w'.disk L') ∧
            ListStep .format L r L') ram w :=
        wpc_format (fun _ _ => trivial) fun w' hbare => ⟨[], .inl (Standing.formatted hbare), rfl⟩
      exact hwpc.executes he
    · obtain ⟨rfl, hs⟩ :=
        (wp_unmounted damaging_noHarm hranges hmounts hop (J := fun _ => True) trivial).sound he
      exact ⟨L, .inr (h.lock hr hs), listStep_unmounted r hmounts hop⟩

end Waiting

/-! ## One object after the other operation -/

/-- What one object answers without failing calls, on a directory that is empty at first. -/
inductive AnsweredRun (env : Env) (cfg : AppendLogConfig) (A : StoreMark → Disk → Prop) :
    List StoreEvent → Ram → World → Prop
  | start {w} (h : w.disk = ∅) : AnsweredRun env cfg A [] {} w
  | operation {trace ram w op r ram' w'} (h : AnsweredRun env cfg A trace ram w)
      (he : Executes env noHarm A (op.method cfg) ram w r ram' w') :
      AnsweredRun env cfg A (trace ++ [.operation op r]) ram' w'

section AnsweredRun

variable {env : Env} {cfg : AppendLogConfig} {A : StoreMark → Disk → Prop} {P : Ram → Disk → Prop}
  {trace : List StoreEvent} {ram : Ram} {w : World}

lemma StoreRun.answered {F : StoreOp → Disk → Prop} (h : StoreRun env cfg noHarm A F ram w) :
    ∃ trace, AnsweredRun env cfg A trace ram w := by
  induction h with
  | start hw => exact ⟨[], .start hw⟩
  | step _ he _ ih =>
    obtain ⟨trace, hrun⟩ := ih
    exact ⟨_, hrun.operation he⟩

/-- A new object over an empty directory. -/
lemma waiting_empty {R : Disk → List (ℕ × Bytes) → Prop} {d : Disk} (h : d = ∅) :
    Waiting R {} d [] := by
  refine .inl ⟨⟨rfl, rfl, rfl, rfl, rfl, rfl, fun name _ => ?_⟩, rfl⟩
  rw [h]
  rfl

/-- **Every run** of one object is a run of a list, which the object has the records of. -/
theorem AnsweredRun.refines (hk : Upheld cfg A P) (h : AnsweredRun env cfg A trace ram w) :
    ∃ L, ListRun trace L ∧
      (Standing P ram w.disk L ∨ Waiting (fun _ _ => False) ram w.disk L) := by
  have hnone : Remounts env cfg A P fun _ _ => False :=
    ⟨fun _ _ _ _ _ hf => hf.elim, fun _ _ _ hf => hf.elim⟩
  induction h with
  | start hw => exact ⟨[], .start, .inr (waiting_empty hw)⟩
  | operation _ he ih =>
    obtain ⟨L, hrun, hs | hw⟩ := ih
    · obtain ⟨L', hL', hstep⟩ := hs.step hk he
      exact ⟨L', .operation hrun hstep, .inl hL'⟩
    · obtain ⟨L', hL', hstep⟩ := hw.step hk hnone he
      exact ⟨L', .operation hrun hstep, hL'⟩

/-- A run leads to a directory without files of the store, or keeps `P`. -/
lemma StoreRun.upheld {F : StoreOp → Disk → Prop} (hk : Upheld cfg A P)
    (h : StoreRun env cfg noHarm A F ram w) :
    (Bare w.disk w.disk ∧ ram.activeSegmentBytes = 0) ∨ P ram w.disk := by
  obtain ⟨trace, hrun⟩ := h.answered
  obtain ⟨L, -, hs | ⟨hfresh, -⟩ | ⟨-, hfalse⟩⟩ := hrun.refines hk
  · rcases hs.inStep with ⟨hb, -, hbare⟩ | hp
    · exact .inl ⟨hbare, hb.bytes⟩
    · exact .inr hp
  · exact .inl ⟨hfresh.bare, hfresh.bytes⟩
  · exact hfalse.elim

end AnsweredRun

end Pqueue
