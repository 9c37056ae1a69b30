import Pqueue.FileSystem.Disk
import Pqueue.Lock.Exclusion

/-!
# Left-over locks

A lock file is created empty and filled afterwards, and an owner can die in between or within the
write.  `Texts` is what every lock file is in every run: the beginning of the text of the process
that created it.  A process that finds the file alone gets past it exactly when the text reaches
into the process id and the number it spells so far is not the id of a live process
(`dead_owner_recoverable`); a file that ends before the first digit stays for ever
(`empty_lock_stays`).

`acquire_posix` and `release_posix` connect this level to the file system of the store: run without
interruption, the methods do what `acquireLock` and `releaseLock` say.
-/

namespace Pqueue

open Effect LittleEndian LockDetail

/-! ## What is in a lock file -/

/-- Every file holds the beginning of the text of its creator. -/
def Texts (k : Kernel) : Prop :=
  ∀ i, ∃ bootId token n, k.content i = (makeLockContents i.creator bootId token).take n

/-- The others keep to that. -/
def textRely : Rely ℕ Kernel where
  rel _ k k' := Texts k → Texts k'
  refl _ _ h := h
  trans h₁ h₂ h := h₂ (h₁ h)

/-- The outcomes of a call of a process. -/
def anyOutcomes (p : ℕ) : Prog.Outcomes Posix Kernel := fun c k r k' =>
  ∃ turn, k.serve p turn c = (r, k')

lemma Texts.of_content {k k' : Kernel} (h : Texts k) (hc : k'.content = k.content) : Texts k' := by
  intro i
  rw [hc]
  exact h i

lemma Texts.store {k : Kernel} (h : Texts k) (fd : Inode) (bootId token : Bytes) (n : ℕ) :
    Texts (k.store fd ((makeLockContents fd.creator bootId token).take n)) := by
  intro i
  by_cases hi : i = fd ∧ fd.serial < k.next
  · exact ⟨bootId, token, n, by rw [hi.1]; exact if_pos ⟨rfl, hi.2⟩⟩
  · obtain ⟨b, t, m, hc⟩ := h i
    exact ⟨b, t, m, (if_neg hi).trans hc⟩

/-- Only a write changes what is in a file. -/
lemma content_serve {p : ℕ} {turn : Turn} {c : SysCall} {k : Kernel}
    (hc : ∀ fd data, c ≠ .write fd data) : (k.serve p turn c).2.content = k.content := by
  cases c with
  | openExclusive =>
    simp only [Kernel.serve]
    split
    · rfl
    · split <;> rfl
  | write fd data => exact absurd rfl (hc fd data)
  | readFile =>
    simp only [Kernel.serve]
    split
    · rfl
    · split <;> rfl
  | fileExists => rfl
  | kill pid => rfl
  | remove =>
    simp only [Kernel.serve]
    split <;> rfl

section

variable {p : ℕ} {k : Kernel} {α : Type}

/-- The judgement that a method keeps to `Texts`. -/
def KeepsTexts (p : ℕ) (m : LockM α) : Prop :=
  ∀ k, Act.rg (anyOutcomes p) textRely p (fun _ => True) m (fun _ _ _ => True) () k

lemma keeps_pure (a : α) : KeepsTexts p (pure a) := fun _ => Act.rg_pure fun _ _ => trivial

lemma keeps_failure (code : StatusCode) (message : String) :
    KeepsTexts p (PosixFileLock.failure (α := α) code message) :=
  fun _ => Act.rg_fail fun _ _ => trivial

lemma keeps_bind {β : Type} {m : LockM α} {f : α → LockM β} (hm : KeepsTexts p m)
    (hf : ∀ a, KeepsTexts p (f a)) : KeepsTexts p (m >>= f) := fun k =>
  Act.rg_bind (hm k) (fun a _ k' _ => hf a k') fun _ _ _ _ _ _ => trivial

/-- A call other than a write. -/
lemma keeps_perform {c : SysCall} (hc : ∀ fd data, c ≠ .write fd data) :
    KeepsTexts p (PosixFileLock.perform c) := by
  refine fun k k₁ _ => ⟨trivial, ?_⟩
  rintro r k₂ ⟨turn, hserve⟩
  refine ⟨fun q _ h => h.of_content ?_, fun _ _ => trivial⟩
  obtain rfl := (Prod.mk.inj hserve).2
  exact content_serve hc

lemma keeps_removeStale : KeepsTexts p PosixFileLock.removeStalePosixLock := by
  refine keeps_bind (keeps_perform fun _ _ h => nomatch h) fun r => ?_
  rcases r with st | contents
  · exact keeps_pure false
  · dsimp only
    split
    · exact keeps_pure false
    · refine keeps_bind (keeps_perform fun _ _ h => nomatch h) fun r => ?_
      rcases r with errno | _
      · dsimp only
        split
        · exact keeps_pure false
        · split
          · exact keeps_pure false
          · refine keeps_bind (keeps_perform fun _ _ h => nomatch h) fun r => ?_
            rcases r with e | _
            · exact keeps_pure false
            · exact keeps_pure true
      · exact keeps_pure false

lemma keeps_fill {fd : Inode} (bootId token : Bytes) :
    KeepsTexts p (PosixFileLock.fill fd (makeLockContents fd.creator bootId token)) := by
  refine keeps_bind (fun k k₁ _ => ⟨trivial, ?_⟩) fun written => ?_
  · rintro r k₂ ⟨turn, hserve⟩
    refine ⟨fun q _ h => ?_, fun _ _ => trivial⟩
    obtain rfl := (Prod.mk.inj hserve).2
    cases turn with
    | completes =>
      have := h.store fd bootId token (makeLockContents fd.creator bootId token).length
      rwa [List.take_length] at this
    | fails => exact h
    | short n => exact h.store fd bootId token n
  · split
    · exact keeps_bind (keeps_perform fun _ _ h => nomatch h) fun _ => keeps_failure _ _
    · exact keeps_pure _

lemma keeps_acquireLoop (bootId token : Bytes) (attempt left : ℕ) :
    KeepsTexts p (PosixFileLock.acquireLoop (makeLockContents p bootId token) attempt left) := by
  induction left generalizing attempt with
  | zero => exact keeps_failure _ _
  | succ left ih =>
    refine fun k => Act.rg_perform_bind fun k₁ _ => ⟨trivial, ?_⟩
    rintro r k₂ ⟨turn, hserve⟩
    have hcontent : (k₁.serve p turn .openExclusive).2.content = k₁.content :=
      content_serve fun _ _ h => nomatch h
    rw [hserve] at hcontent
    refine ⟨fun q _ h => h.of_content hcontent, ?_⟩
    rcases r with errno | fd
    · dsimp only
      split
      · exact keeps_failure _ _ k₂
      · split
        · refine keeps_bind keeps_removeStale (fun removed => ?_) k₂
          cases removed
          · exact keeps_failure _ _
          · exact ih _
        · exact keeps_failure _ _ k₂
    · -- the new file belongs to `p`
      have hfd : fd.creator = p := by
        simp only [Kernel.serve] at hserve
        split at hserve
        · simp at hserve
        · split at hserve
          · simp at hserve
          · obtain rfl := Except.ok.inj (Prod.mk.inj hserve).1
            rfl
      subst hfd
      exact keeps_fill bootId token k₂

lemma keeps_release (contents : Bytes) : KeepsTexts p (PosixFileLock.release contents) := by
  refine keeps_bind (keeps_perform fun _ _ h => nomatch h) fun r => ?_
  rcases r with st | actual
  · exact fun _ => Act.rg_fail fun _ _ => trivial
  · dsimp only
    split
    · exact keeps_failure _ _
    · refine keeps_bind (keeps_perform fun _ _ h => nomatch h) fun r => ?_
      rcases r with e | _
      · exact keeps_failure _ _
      · exact keeps_pure _

lemma keeps_recoverStale : KeepsTexts p PosixFileLock.recoverStale := by
  refine keeps_bind (keeps_perform fun _ _ h => nomatch h) fun r => ?_
  rcases r with e | _ | _
  · exact keeps_failure _ _
  · exact keeps_pure _
  · refine keeps_bind keeps_removeStale fun removed => ?_
    cases removed
    · exact keeps_failure _ _
    · exact keeps_pure _

end

lemma goOn_prog {a : Activity} {prog prog' : LockProg} (h : (a.goOn prog).prog? = some prog') :
    prog' = prog ∨ a.prog? = none := by
  cases a with
  | idle => exact .inr rfl
  | holding contents => exact .inr rfl
  | acquiring contents old =>
    unfold Activity.goOn at h
    split at h <;> simp_all [Activity.prog?]
  | releasing contents old =>
    unfold Activity.goOn at h
    split at h <;> simp_all [Activity.prog?]
  | recovering old =>
    unfold Activity.goOn at h
    split at h <;> simp_all [Activity.prog?]

/-- The invariant of a run: the files, and what the methods under way will write. -/
structure Machine.Writes (m : Machine) : Prop where
  texts : Texts m.kernel
  progs : ∀ p prog, (m.activity p).prog? = some prog →
    Prog.rg (anyOutcomes p) textRely p (fun _ => True) prog (fun _ _ => True) m.kernel

namespace Machine

variable {m m' : Machine} {p : ℕ}

lemma Writes.setActivity (h : m.Writes) {a : Activity} (ha : ∀ prog, a.prog? = some prog →
    Prog.rg (anyOutcomes p) textRely p (fun _ => True) prog (fun _ _ => True) m.kernel) :
    (m.setActivity p a).Writes := by
  refine ⟨h.texts, fun q prog hq => ?_⟩
  by_cases hqp : q = p
  · subst hqp
    exact ha prog (by simpa [Machine.setActivity] using hq)
  · exact h.progs q prog (by simpa [Machine.setActivity, Function.update_of_ne hqp] using hq)

lemma Writes.kernel (h : m.Writes) {k : Kernel} (hk : Texts m.kernel → Texts k) :
    Writes { m with kernel := k } :=
  ⟨hk h.texts, fun q prog hq => Prog.rg_stable (h.progs q prog hq) hk⟩

/-- One event. -/
lemma Writes.step (h : m.Writes) {e : LockEvent} (hnext : m.next e = some m') : m'.Writes := by
  cases e with
  | start p task =>
    simp only [next] at hnext
    split at hnext
    · split at hnext
      · next bootId token _ =>
        obtain rfl := Option.some.inj hnext
        refine h.setActivity fun prog hprog => ?_
        obtain rfl := Option.some.inj hprog
        exact keeps_acquireLoop bootId token 0 2 m.kernel
      · next contents _ =>
        obtain rfl := Option.some.inj hnext
        refine h.setActivity fun prog hprog => ?_
        obtain rfl := Option.some.inj hprog
        exact keeps_release contents m.kernel
      · obtain rfl := Option.some.inj hnext
        refine h.setActivity fun prog hprog => ?_
        obtain rfl := Option.some.inj hprog
        exact keeps_recoverStale m.kernel
      · simp at hnext
    · simp at hnext
  | call p turn =>
    simp only [next] at hnext
    split at hnext
    · split at hnext
      · next c f hprog =>
        obtain rfl := Option.some.inj hnext
        obtain ⟨hothers, hrest⟩ := (Prog.rg_call_step (h.progs p _ hprog)).2 _ _ ⟨turn, rfl⟩
        refine (h.kernel (hothers (p + 1) (by omega))).setActivity fun prog hgo => ?_
        rcases goOn_prog hgo with rfl | hnone
        · exact hrest
        · simp [hprog] at hnone
      · simp at hnext
    · simp at hnext
  | die p =>
    simp only [next] at hnext
    split at hnext
    · obtain rfl := Option.some.inj hnext
      exact h.kernel fun ht => ht.of_content rfl
    · simp at hnext
  | dieWriting p n =>
    simp only [next] at hnext
    split at hnext
    · split at hnext
      · next fd data f hprog =>
        obtain rfl := Option.some.inj hnext
        have hstep := (Prog.rg_call_step (h.progs p _ hprog)).2 (some (data.take n).length)
          (m.kernel.store fd (data.take n)) ⟨.short n, rfl⟩
        exact h.kernel fun ht => (hstep.1 (p + 1) (by omega) ht).of_content rfl
      · simp at hnext
    · simp at hnext

lemma Writes.run {A : Machine → LockEvent → Prop} {alive : ℕ → Bool}
    {hpid : ∀ p, alive p = true → 0 < p ∧ p < 2 ^ 31} (h : LockRun A (Machine.start alive hpid) m) :
    m.Writes := by
  induction h with
  | init =>
    refine ⟨fun i => ⟨[], [], 0, rfl⟩, fun p prog hprog => ?_⟩
    simp [Machine.start, Activity.prog?] at hprog
  | step e _ _ hnext ih => exact ih.step hnext

end Machine

/-! ## A process alone -/

/-- The kernel for a process whose calls complete. -/
def server (q : ℕ) : Prog.Handler Posix Kernel := fun c k => k.serve q .completes c

/-- A method of process `q` that nobody interrupts. -/
def alone {α : Type} (q : ℕ) (m : LockM α) (k : Kernel) : Option (Except Status α × Kernel) :=
  (Prog.run (server q) (m ()) k).map fun r => (r.1.1, r.2)

/-- The check that `removeStalePosixLock` makes of the contents of a lock file. -/
def Kernel.findsStale (k : Kernel) (data : Bytes) : Bool :=
  decide (0 < lockPid data) &&
    match k.probe .completes (toPidT (lockPid data)) with
    | .error .esrch => true
    | _ => false

variable {q : ℕ} {k : Kernel} {i : Inode} {contents : Bytes} {α : Type}

lemma run_perform_bind {c : SysCall} {f : c.Val → LockM α} :
    Prog.run (server q) ((PosixFileLock.perform c >>= f) ()) k =
      Prog.run (server q) (f (k.serve q .completes c).1 ()) (k.serve q .completes c).2 := rfl

/-- The check alone, and what follows it. -/
lemma run_removeStale_bind (hentry : k.entry = some i) (f : Bool → LockM α) :
    Prog.run (server q) ((PosixFileLock.removeStalePosixLock >>= f) ()) k =
      if k.findsStale (k.content i)
      then Prog.run (server q) (f true ()) (k.look q i).unlink
      else Prog.run (server q) (f false ()) (k.look q i) := by
  have hread : k.serve q .completes .readFile = (.ok (k.content i), k.look q i) := by
    simp [Kernel.serve, hentry]
  rw [PosixFileLock.removeStalePosixLock, Act.bind_assoc, run_perform_bind, hread]
  dsimp only
  by_cases hpid : lockPid (k.content i) ≤ 0
  · have hfresh : k.findsStale (k.content i) = false := by
      simp [Kernel.findsStale, not_lt.mpr hpid]
    rw [if_pos hpid, hfresh]
    rfl
  rw [if_neg hpid, Act.bind_assoc, run_perform_bind]
  have hstale : k.findsStale (k.content i) =
      match k.probe .completes (toPidT (lockPid (k.content i))) with
      | .error .esrch => true
      | _ => false := by
    rw [Kernel.findsStale, decide_eq_true (not_le.mp hpid), Bool.true_and]
  have hkill : (k.look q i).serve q .completes (.kill (lockPid (k.content i))) =
      (k.probe .completes (toPidT (lockPid (k.content i))), k.look q i) := rfl
  rw [hkill, hstale]
  rcases k.probe .completes (toPidT (lockPid (k.content i))) with errno | _
  · cases errno <;> rfl
  · rfl

/-- Without a lock file any attempt succeeds. -/
lemma run_acquireLoop_free (hentry : k.entry = none) (attempt left : ℕ) :
    Prog.run (server q) (PosixFileLock.acquireLoop contents attempt (left + 1) ()) k =
      some ((.ok .ok, ()), (k.create q).store ⟨q, k.next⟩ contents) := by
  have hopen : k.serve q .completes .openExclusive = (.ok ⟨q, k.next⟩, k.create q) := by
    simp [Kernel.serve, hentry]
  have hwrite : (k.create q).serve q .completes (.write ⟨q, k.next⟩ contents) =
      (some contents.length, (k.create q).store ⟨q, k.next⟩ contents) := rfl
  rw [PosixFileLock.acquireLoop, run_perform_bind, hopen]
  dsimp only [PosixFileLock.fill]
  rw [run_perform_bind, hwrite]
  dsimp only
  rw [if_neg (not_not.mpr rfl)]
  rfl

lemma alone_acquire_free (hentry : k.entry = none) :
    alone q (PosixFileLock.acquire contents) k =
      some (.ok .ok, (k.create q).store ⟨q, k.next⟩ contents) := by
  rw [alone, PosixFileLock.acquire, run_acquireLoop_free hentry]
  rfl

lemma alone_acquire_stale (hentry : k.entry = some i) (hstale : k.findsStale (k.content i) = true) :
    alone q (PosixFileLock.acquire contents) k =
      some (.ok .ok, ((k.look q i).unlink.create q).store ⟨q, k.next⟩ contents) := by
  have hopen : k.serve q .completes .openExclusive = (.error .eexist, k) := by
    simp [Kernel.serve, hentry]
  rw [alone, PosixFileLock.acquire, PosixFileLock.acquireLoop, run_perform_bind, hopen]
  dsimp only
  rw [if_neg (not_not.mpr rfl), if_pos rfl, run_removeStale_bind hentry, if_pos hstale, if_pos rfl,
    run_acquireLoop_free rfl]
  rfl

lemma alone_acquire_busy (hentry : k.entry = some i) (hstale : k.findsStale (k.content i) = false) :
    alone q (PosixFileLock.acquire contents) k =
      some (.error ⟨.lockTimeout, "queue lock already exists"⟩, k.look q i) := by
  have hopen : k.serve q .completes .openExclusive = (.error .eexist, k) := by
    simp [Kernel.serve, hentry]
  rw [alone, PosixFileLock.acquire, PosixFileLock.acquireLoop, run_perform_bind, hopen]
  dsimp only
  rw [if_neg (not_not.mpr rfl), if_pos rfl, run_removeStale_bind hentry, if_neg (by simp [hstale])]
  rfl

lemma alone_recover_free (hentry : k.entry = none) :
    alone q PosixFileLock.recoverStale k = some (.ok .noOp, k) := by
  rw [alone, PosixFileLock.recoverStale, run_perform_bind]
  simp only [Kernel.serve, hentry]
  rfl

lemma alone_recover (hentry : k.entry = some i) :
    alone q PosixFileLock.recoverStale k =
      if k.findsStale (k.content i) then some (.ok .ok, (k.look q i).unlink)
      else some (.error ⟨.lockTimeout, "queue lock is not stale"⟩, k.look q i) := by
  have hexists : k.serve q .completes .fileExists = (.ok true, k) := by
    simp [Kernel.serve, hentry]
  rw [alone, PosixFileLock.recoverStale, run_perform_bind, hexists]
  dsimp only
  rw [run_removeStale_bind hentry]
  split <;> rfl

lemma alone_release_free (hentry : k.entry = none) :
    alone q (PosixFileLock.release contents) k =
      some (.error ⟨.readFailed, "failed to open file for read"⟩, k) := by
  rw [alone, PosixFileLock.release, run_perform_bind]
  simp only [Kernel.serve, hentry]
  rfl

lemma alone_release (hentry : k.entry = some i) :
    alone q (PosixFileLock.release contents) k =
      if k.content i ≠ contents then
        some (.error ⟨.lockTimeout, "queue lock is owned by another process"⟩, k.look q i)
      else some (.ok .ok, (k.look q i).unlink) := by
  have hread : k.serve q .completes .readFile = (.ok (k.content i), k.look q i) := by
    simp [Kernel.serve, hentry]
  rw [alone, PosixFileLock.release, run_perform_bind, hread]
  dsimp only
  split <;> rfl

/-! ## The lock calls of the file system -/

/-- What the directory shows of the lock file. -/
def Kernel.file (k : Kernel) : Option Bytes := k.entry.map k.content

lemma file_filled (k : Kernel) (q : ℕ) (contents : Bytes) :
    ((k.create q).store ⟨q, k.next⟩ contents).file = some contents := by
  have hserial : k.next < (k.create q).next := Nat.lt_succ_self _
  simp [Kernel.file, Kernel.store, Kernel.create]

section

variable {env : Env} {w : World} {name : FileName}

/-- Uninterrupted, `acquire` does what the call of the file system says, which takes a file for
stale when the check does. -/
theorem acquire_posix (hb : env.backend = .posix) (hfile : k.file = w.disk.lookup name)
    (hstale : env.stale w.clock = k.findsStale) :
    ∃ r k', alone q (PosixFileLock.acquire contents) k = some (r, k') ∧
      r.map (fun _ => ()) = (acquireLock env name contents w).1 ∧
      k'.file = (acquireLock env name contents w).2.disk.lookup name := by
  cases hentry : k.entry with
  | none =>
    have hlookup : w.disk.lookup name = none := by
      rw [← hfile, Kernel.file, hentry]
      rfl
    refine ⟨_, _, alone_acquire_free hentry, ?_, ?_⟩
    · simp [acquireLock, hb, hlookup, Except.map]
    · simp [acquireLock, hb, hlookup, file_filled, AList.lookup_insert]
  | some i =>
    have hlookup : w.disk.lookup name = some (k.content i) := by
      rw [← hfile, Kernel.file, hentry]
      rfl
    cases hs : k.findsStale (k.content i) with
    | true =>
      refine ⟨_, _, alone_acquire_stale hentry hs, ?_, ?_⟩
      · simp [acquireLock, hb, hlookup, hstale, hs, Except.map]
      · have hfilled : (((k.look q i).unlink.create q).store ⟨q, k.next⟩ contents).file =
            some contents := file_filled (k.look q i).unlink q contents
        simp [acquireLock, hb, hlookup, hstale, hs, hfilled, AList.lookup_insert]
    | false =>
      refine ⟨_, _, alone_acquire_busy hentry hs, ?_, ?_⟩
      · simp [acquireLock, hb, hlookup, hstale, hs, Except.map]
      · simp [acquireLock, hb, hlookup, hstale, hs, Kernel.file, Kernel.look, hentry]

/-- Uninterrupted, `release` does what the call of the file system says. -/
theorem release_posix (hb : env.backend = .posix) (hfile : k.file = w.disk.lookup name) :
    ∃ r k', alone q (PosixFileLock.release contents) k = some (r, k') ∧
      r.map (fun _ => ()) = (releaseLock env name contents w).1 ∧
      k'.file = (releaseLock env name contents w).2.disk.lookup name := by
  cases hentry : k.entry with
  | none =>
    have hlookup : w.disk.lookup name = none := by
      rw [← hfile, Kernel.file, hentry]
      rfl
    refine ⟨_, _, alone_release_free hentry, ?_, ?_⟩
    · simp [releaseLock, hb, hlookup, Except.map]
    · simpa [releaseLock, hb, hlookup] using hfile
  | some i =>
    have hlookup : w.disk.lookup name = some (k.content i) := by
      rw [← hfile, Kernel.file, hentry]
      rfl
    have hlook : (k.look q i).file = some (k.content i) := by
      simp [Kernel.file, Kernel.look, hentry]
    by_cases hsame : k.content i = contents
    · refine ⟨_, _, (alone_release hentry).trans (if_neg (not_not.mpr hsame)), ?_, ?_⟩
      · simp [releaseLock, hb, hlookup, hsame, Except.map]
      · simp [releaseLock, hb, hlookup, hsame, Kernel.file, Kernel.unlink, AList.lookup_erase]
    · refine ⟨_, _, (alone_release hentry).trans (if_pos hsame), ?_, ?_⟩
      · simp [releaseLock, hb, hlookup, hsame, Except.map]
      · simp [releaseLock, hb, hlookup, hsame, hlook]

end

/-! ## Recovery -/

/-- The next `acquire` and the next `recoverStale` of process `q` get past what is left. -/
def GetsPast (q : ℕ) (contents : Bytes) (k : Kernel) : Prop :=
  (∃ code k', alone q (PosixFileLock.acquire contents) k = some (.ok code, k')) ∧
    ∃ code k', alone q PosixFileLock.recoverStale k = some (.ok code, k') ∧ k'.entry = none

/-- Both find the lock busy and leave the file. -/
def Spares (q : ℕ) (contents : Bytes) (k : Kernel) : Prop :=
  (∃ st k', alone q (PosixFileLock.acquire contents) k = some (.error st, k') ∧
    st.code = .lockTimeout ∧ k'.entry = k.entry) ∧
  ∃ st k', alone q PosixFileLock.recoverStale k = some (.error st, k') ∧
    st.code = .lockTimeout ∧ k'.entry = k.entry

lemma getsPast_of_none (hentry : k.entry = none) : GetsPast q contents k :=
  ⟨⟨_, _, alone_acquire_free hentry⟩, _, _, alone_recover_free hentry, hentry⟩

lemma getsPast_of_stale (hentry : k.entry = some i) (hs : k.findsStale (k.content i) = true) :
    GetsPast q contents k :=
  ⟨⟨_, _, alone_acquire_stale hentry hs⟩, _, _, (alone_recover hentry).trans (if_pos hs), rfl⟩

lemma spares_of_busy (hentry : k.entry = some i) (hs : k.findsStale (k.content i) = false) :
    Spares q contents k :=
  ⟨⟨_, _, alone_acquire_busy hentry hs, rfl, rfl⟩,
    _, _, (alone_recover hentry).trans (if_neg (by simp [hs])), rfl, rfl⟩

lemma Spares.not_getsPast (h : Spares q contents k) : ¬ GetsPast q contents k := by
  rintro ⟨⟨code, k₁, h₁⟩, -⟩
  obtain ⟨⟨st, k₂, h₂, -⟩, -⟩ := h
  simp [h₁] at h₂

/-- What the check makes of a text cut anywhere. -/
lemma findsStale_text {p : ℕ} (hp : 0 < p ∧ p < 2 ^ 31) (bootId token : Bytes) (n : ℕ) :
    k.findsStale ((makeLockContents p bootId token).take n) = true ↔
      lockHeader.length < n ∧
        k.alive (p / 10 ^ ((decimal p).length - (n - lockHeader.length))) = false := by
  rw [Kernel.findsStale, lockPid_take hp.1 (by omega)]
  by_cases hn : n ≤ lockHeader.length
  · simp [hn]
  rw [if_neg hn]
  have hpos := leading_pos hp.1 (show 0 < n - lockHeader.length by omega)
  have hle : p / 10 ^ ((decimal p).length - (n - lockHeader.length)) ≤ p := Nat.div_le_self _ _
  generalize p / 10 ^ ((decimal p).length - (n - lockHeader.length)) = v at hpos hle ⊢
  have hcast : toPidT v = v := by
    unfold toPidT
    omega
  rw [hcast, Kernel.probe, if_neg (by omega), Int.toNat_natCast]
  cases hv : k.alive v
  · simp [hpos, not_le.mp hn]
  · simp

/-- What is left of the lock file of process `p` names a process, by the digits that were written,
and no live one. -/
def NamesDead (p : ℕ) (k : Kernel) : Prop :=
  ∀ i, k.entry = some i → ∃ bootId token n, k.content i = (makeLockContents p bootId token).take n ∧
    lockHeader.length < n ∧
    k.alive (p / 10 ^ ((decimal p).length - (n - lockHeader.length))) = false

/-- When `p` is dead, process `q` gets past what it left; while `p` lives, a file of its own that is
empty or complete is left in place. -/
def Recoverable (p q : ℕ) (contents : Bytes) (k : Kernel) : Prop :=
  (k.alive p = false → GetsPast q contents k) ∧
    (k.alive p = true → ∀ i, k.entry = some i → Sealed p (k.content i) → Spares q contents k)

/-- **Recovery of a dead owner's lock**: wherever process `p` is in its methods, and wherever its
write has got to when it dies, the next acquire or recovery gets past the file it left exactly when
the part that was written names a process that is not alive; and the lock file of a live process is
never removed. -/
theorem dead_owner_recoverable (alive : ℕ → Bool) (hpid : ∀ p, alive p = true → 0 < p ∧ p < 2 ^ 31)
    {m : Machine} (h : LockRun (fun _ _ => True) (Machine.start alive hpid) m) {p : ℕ}
    (hp : alive p = true) (hleft : ∀ i, m.kernel.entry = some i → i.creator = p) (q : ℕ)
    (contents : Bytes) :
    Recoverable p q contents m.kernel ↔ (m.kernel.alive p = false → NamesDead p m.kernel) := by
  have hrange := hpid p hp
  have htexts := (Machine.Writes.run h).texts
  constructor
  · intro hrec hdead i hi
    obtain ⟨bootId, token, n, hc⟩ := htexts i
    rw [hleft i hi] at hc
    refine ⟨bootId, token, n, hc, ?_⟩
    rw [← findsStale_text hrange bootId token n, ← hc]
    by_contra hs
    rw [Bool.not_eq_true] at hs
    exact (spares_of_busy hi hs).not_getsPast (hrec.1 hdead)
  · intro hnames
    refine ⟨fun hdead => ?_, fun hlive i hi hsealed => ?_⟩
    · cases hentry : m.kernel.entry with
      | none => exact getsPast_of_none hentry
      | some i =>
        obtain ⟨bootId, token, n, hc, hn⟩ := hnames hdead i hentry
        refine getsPast_of_stale hentry ?_
        rw [hc]
        exact (findsStale_text hrange bootId token n).mpr hn
    · refine spares_of_busy hi ?_
      rw [← Bool.not_eq_true]
      intro hs
      rcases hsealed with hc | ⟨bootId, token, hc⟩
      · rw [hc, ← List.take_zero (l := makeLockContents p [] []), findsStale_text hrange] at hs
        omega
      · rw [hc, Kernel.findsStale, lockPid_makeLockContents hrange.1 (by omega)] at hs
        have hprobe := probe_alive hlive .completes
        revert hs hprobe
        cases m.kernel.probe .completes (toPidT p) with
        | ok _ => simp
        | error errno => cases errno <;> simp

/-- A process that dies with the lock leaves a file that the next one gets past. -/
theorem dead_holder_recoverable :
    ∃ m, LockRun (fun _ _ => True) (Machine.start threeProcesses threeProcesses_range) m ∧
      m.kernel.alive 1 = false ∧ Recoverable 1 2 [] m.kernel := by
  obtain ⟨m, hm, hP⟩ := LockRun.of_after (A := fun _ _ => true)
    (fun m => !m.kernel.alive 1 &&
      match m.kernel.entry with
      | some i => i.creator = 1 && m.kernel.content i = makeLockContents 1 [] []
      | none => false)
    ownerDies (Machine.start threeProcesses threeProcesses_range) (by decide +kernel)
  simp only [Bool.and_eq_true, Bool.not_eq_true'] at hP
  obtain ⟨hdead, hfile⟩ := hP
  have hrun := hm.mono (B := fun _ _ => True) fun _ _ _ => trivial
  refine ⟨m, hrun, hdead, ?_⟩
  cases hentry : m.kernel.entry with
  | none => simp [hentry] at hfile
  | some i =>
    simp only [hentry, Bool.and_eq_true, decide_eq_true_eq] at hfile
    have hleft : ∀ j, m.kernel.entry = some j → j.creator = 1 := by
      intro j hj
      obtain rfl := Option.some.inj (hentry.symm.trans hj)
      exact hfile.1
    refine (dead_owner_recoverable _ _ hrun (by decide) hleft 2 []).mpr fun _ j hj => ?_
    obtain rfl := Option.some.inj (hentry.symm.trans hj)
    refine ⟨[], [], (makeLockContents 1 [] []).length, ?_, by decide, ?_⟩
    · rw [List.take_length]
      exact hfile.2
    · exact hdead

/-- A process that dies between the creation of the lock file and the write leaves an empty file,
and no acquire or recovery gets past it. -/
theorem empty_lock_stays :
    ∃ m, LockRun (fun _ e => e.actor = 1) (Machine.start threeProcesses threeProcesses_range) m ∧
      m.kernel.alive 1 = false ∧ m.kernel.alive 2 = true ∧
      ∀ contents, ¬ GetsPast 2 contents m.kernel := by
  obtain ⟨m, hm, hP⟩ := LockRun.of_after (A := fun _ e => e.actor = 1)
    (fun m => !m.kernel.alive 1 && m.kernel.alive 2 &&
      match m.kernel.entry with
      | some i => m.kernel.content i = []
      | none => false)
    [.start 1 (.acquire [] []), .call 1 .completes, .die 1]
    (Machine.start threeProcesses threeProcesses_range) (by decide +kernel)
  simp only [Bool.and_eq_true, Bool.not_eq_true'] at hP
  obtain ⟨⟨hdead, hlive⟩, hfile⟩ := hP
  refine ⟨m, hm.mono fun _ _ h => of_decide_eq_true h, hdead, hlive, fun contents => ?_⟩
  cases hentry : m.kernel.entry with
  | none => simp [hentry] at hfile
  | some i =>
    simp only [hentry, decide_eq_true_eq] at hfile
    refine (spares_of_busy hentry ?_).not_getsPast
    rw [hfile]
    simp [Kernel.findsStale, show lockPid [] = -1 from by decide]

end Pqueue
