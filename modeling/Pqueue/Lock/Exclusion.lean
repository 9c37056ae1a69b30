import Pqueue.Lock.Posix
import Pqueue.Program.Interleave

/-!
# Mutual exclusion

A process gets past a lock file in two ways: it creates the file itself, or it finds that the owner
named in it is dead and removes the file *by name*.  Between the reading and the removal the name
may have come to stand for another file, so two processes that found the same stale file can both
get in: `lock_exclusion_fails`.

`lock_exclusion` is the result of record: as long as every removal hits the file that the process
looked at, at most one live process is between a successful acquire and its release, in every
interleaving.  What a process may rely on (`lockRely`) is that the others leave a complete or an
empty file of its own in place while it lives, and never touch the contents of a file once there
are any.
-/

namespace Pqueue

open Effect LittleEndian LockDetail

/-! ## What the processes may rely on -/

/-- A file of process `p` that is empty or complete: one that nobody takes for stale while `p`
lives. -/
def Sealed (p : ℕ) (data : Bytes) : Prop :=
  data = [] ∨ ∃ bootId token, data = makeLockContents p bootId token

/-- What process `p` may rely on. -/
structure LockRely (p : ℕ) (k k' : Kernel) : Prop where
  /-- The dead stay dead. -/
  alive : ∀ q, k'.alive q = true → k.alive q = true
  looked : k'.looked p = k.looked p
  next : k.next ≤ k'.next
  content : ∀ i, k.content i ≠ [] ∨ i.creator = p → k'.content i = k.content i
  entry : ∀ i, k.entry = some i → i.creator = p → Sealed p (k.content i) → k'.alive p = true →
    k'.entry = some i

def lockRely : Rely ℕ Kernel where
  rel := LockRely
  refl _ _ := ⟨fun _ h => h, rfl, le_rfl, fun _ _ => rfl, fun _ h _ _ _ => h⟩
  trans := by
    intro p a b c h₁ h₂
    have hcontent : ∀ i, a.content i ≠ [] ∨ i.creator = p → c.content i = a.content i := by
      intro i hi
      have hb := h₁.content i hi
      rw [h₂.content i (by rwa [hb]), hb]
    refine ⟨fun q h => h₁.alive q (h₂.alive q h), h₂.looked.trans h₁.looked,
      h₁.next.trans h₂.next, hcontent, ?_⟩
    intro i hi hp hs hlive
    refine h₂.entry i (h₁.entry i hi hp hs (h₂.alive p hlive)) hp ?_ hlive
    rwa [h₁.content i (.inr hp)]

/-- Process `p` owns the lock file: it created it and filled it. -/
def Owns (p : ℕ) (k : Kernel) : Prop :=
  ∃ i, k.entry = some i ∧ i.creator = p ∧
    ∃ bootId token, k.content i = makeLockContents p bootId token

lemma Owns.stable {p : ℕ} {k k' : Kernel} (h : Owns p k) (hr : LockRely p k k')
    (hlive : k'.alive p = true) : Owns p k' := by
  obtain ⟨i, hi, hp, bootId, token, hc⟩ := h
  exact ⟨i, hr.entry i hi hp (.inr ⟨bootId, token, hc⟩) hlive, hp, bootId, token,
    (hr.content i (.inr hp)).trans hc⟩

/-! ## The calls of one process -/

/-- The condition on a call: a removal hits no other file than the one `p` looked at. -/
def RemovesOwn (p : ℕ) (c : SysCall) (k : Kernel) : Prop :=
  c = .remove → k.entry = none ∨ k.entry = k.looked p

/-- The outcomes of a call of `p` under the condition. -/
def outcomes (p : ℕ) : Prog.Outcomes Posix Kernel := fun c k r k' =>
  k.alive p = true ∧ RemovesOwn p c k ∧ ∃ turn, k.serve p turn c = (r, k')

/-- A call that changes nothing the others rely on but what `p` looked at. -/
lemma rely_looked {p q : ℕ} (hq : q ≠ p) {k : Kernel} (i : Inode) : LockRely q k (k.look p i) :=
  ⟨fun _ h => h, Function.update_of_ne hq _ _, le_rfl, fun _ _ => rfl, fun _ h _ _ _ => h⟩

/-- A write into an empty file of `p`. -/
lemma rely_store {p q : ℕ} (hq : q ≠ p) {k : Kernel} {fd : Inode} (hfd : fd.creator = p)
    (hempty : k.content fd = []) (data : Bytes) : LockRely q k (k.store fd data) := by
  refine ⟨fun _ h => h, rfl, le_rfl, fun i hi => if_neg ?_, fun _ h _ _ _ => h⟩
  rintro ⟨rfl, -⟩
  rcases hi with hi | hi
  · exact hi hempty
  · exact hq (hi.symm.trans hfd)

/-- A removal of a file that no other live process has empty or complete. -/
lemma rely_remove {q : ℕ} {k : Kernel}
    (h : ∀ i, k.entry = some i → i.creator = q → Sealed q (k.content i) → k.alive q ≠ true) :
    LockRely q k k.unlink :=
  ⟨fun _ h => h, rfl, le_rfl, fun _ _ => rfl, fun i hi hc hs hl => absurd hl (h i hi hc hs)⟩

section

variable {p : ℕ} {k : Kernel} {α : Type}

/-- `p` removes the file it looked at, if it is still there. -/
lemma rg_removeFile {J : Kernel → Prop} {i : Inode} {f : Except Errno Unit → LockM α}
    {Q : Act.Post Unit Status Kernel α} (hlooked : k.looked p = some i)
    (hJ : ∀ k', LockRely p k k' → J k')
    (hi : ∀ q k', q ≠ p → LockRely p k k' → k'.entry = some i → i.creator = q →
      Sealed q (k'.content i) → k'.alive q ≠ true)
    (hf : ∀ r k', Act.rg (outcomes p) lockRely p J (f r) Q () k') :
    Act.rg (outcomes p) lockRely p J (PosixFileLock.removeFile >>= f) Q () k := by
  refine Act.rg_perform_bind fun k₁ hr => ⟨hJ k₁ hr, ?_⟩
  rintro r k₂ ⟨-, hown, turn, hserve⟩
  refine ⟨fun q hq => ?_, hf r k₂⟩
  simp only [Kernel.serve] at hserve
  split at hserve
  · obtain rfl := (Prod.mk.inj hserve).2
    exact lockRely.refl q _
  · obtain rfl := (Prod.mk.inj hserve).2
    refine rely_remove fun j hj => ?_
    rcases hown rfl with hnone | hsame
    · simp [hnone] at hj
    · rw [hr.looked, hlooked, hj] at hsame
      obtain rfl := Option.some.inj hsame
      exact hi q k₁ hq hr hj

/-- The probe of a live process does not answer that there is no such process. -/
lemma probe_alive {q : ℕ} (hq : k.alive q = true) (turn : Turn) :
    k.probe turn (toPidT q) ≠ .error .esrch := by
  obtain ⟨hpos, hlt⟩ := k.pid_range q hq
  have hcast : toPidT q = q := by
    unfold toPidT
    omega
  intro hprobe
  rw [hcast, Kernel.probe, if_neg (by omega), Int.toNat_natCast, if_pos hq] at hprobe
  split at hprobe <;> simp at hprobe

/-- The check for a stale file harms no live process. -/
lemma rg_removeStale :
    Act.rg (outcomes p) lockRely p (fun _ => True) PosixFileLock.removeStalePosixLock
      (fun _ _ _ => True) () k := by
  refine Act.rg_perform_bind fun k₁ _ => ⟨trivial, ?_⟩
  rintro r k₂ ⟨-, -, turn, hserve⟩
  simp only [Kernel.serve] at hserve
  cases hentry : k₁.entry with
  | none =>
    rw [hentry] at hserve
    obtain ⟨rfl, rfl⟩ := Prod.mk.inj hserve
    exact ⟨fun q _ => lockRely.refl q _, Act.rg_pure fun _ _ => trivial⟩
  | some i =>
    rw [hentry] at hserve
    dsimp only at hserve
    split at hserve
    · obtain ⟨rfl, rfl⟩ := Prod.mk.inj hserve
      exact ⟨fun q _ => lockRely.refl q _, Act.rg_pure fun _ _ => trivial⟩
    · obtain ⟨rfl, rfl⟩ := Prod.mk.inj hserve
      refine ⟨fun q hq => rely_looked hq _, ?_⟩
      dsimp only
      by_cases hpid : lockPid (k₁.content i) ≤ 0
      · rw [if_pos hpid]
        exact Act.rg_pure fun _ _ => trivial
      rw [if_neg hpid]
      have hne : k₁.content i ≠ [] := by
        intro hnil
        rw [hnil] at hpid
        exact hpid (by decide)
      refine Act.rg_perform_bind fun k₃ hr₃ => ⟨trivial, ?_⟩
      rintro r k₄ ⟨-, -, turn, hserve⟩
      obtain ⟨rfl, rfl⟩ := Prod.mk.inj hserve
      refine ⟨fun q _ => lockRely.refl q _, ?_⟩
      cases hprobe : k₃.probe turn (toPidT (lockPid (k₁.content i))) with
      | ok _ => exact Act.rg_pure fun _ _ => trivial
      | error errno =>
        dsimp only
        by_cases hperm : errno = .eperm
        · rw [if_pos hperm]
          exact Act.rg_pure fun _ _ => trivial
        by_cases hsrch : errno ≠ .esrch
        · rw [if_neg hperm, if_pos hsrch]
          exact Act.rg_pure fun _ _ => trivial
        rw [if_neg hperm, if_neg hsrch]
        rw [not_not] at hsrch
        subst hsrch
        have hlooked : k₃.looked p = some i :=
          hr₃.looked.trans (k₁.looked_look p i)
        refine rg_removeFile hlooked (fun _ _ => trivial) ?_ ?_
        · intro q k₅ _ hr₅ _ _ hs hlive
          -- the contents are still what was read, so they name `q`, which the probe found dead
          have hcontent : k₅.content i = k₁.content i := by
            have h₃ : k₃.content i = k₁.content i := hr₃.content i (.inl hne)
            rw [hr₅.content i (.inl (by rwa [h₃])), h₃]
          obtain ⟨hpos, hlt⟩ := k₅.pid_range q hlive
          rcases hs with hs | ⟨bootId, token, hs⟩
          · exact hne (hcontent.symm.trans hs)
          · rw [← hcontent, hs, lockPid_makeLockContents hpos (by omega)] at hprobe
            exact probe_alive (hr₅.alive q hlive) turn hprobe
        · rintro (e | _) k₅
          · exact Act.rg_pure fun _ _ => trivial
          · exact Act.rg_pure fun _ _ => trivial

/-- What an acquire ends in. -/
def Acquired (p : ℕ) : Act.Post Unit Status Kernel StatusCode := fun r _ k =>
  ∀ code, r = .ok code → k.alive p = true → Owns p k

/-- After the creation of the file. -/
lemma rg_fill {fd : Inode} (hfd : fd.creator = p) (hentry : k.entry = some fd)
    (hempty : k.content fd = []) (hserial : fd.serial < k.next) (hlooked : k.looked p = some fd)
    (bootId token : Bytes) :
    Act.rg (outcomes p) lockRely p (fun _ => True)
      (PosixFileLock.fill fd (makeLockContents p bootId token)) (Acquired p) () k := by
  set contents := makeLockContents p bootId token with hcontents
  refine Act.rg_perform_bind fun k₁ hr => ⟨trivial, ?_⟩
  rintro r k₂ ⟨hlive, -, turn, hserve⟩
  have hempty₁ : k₁.content fd = [] := (hr.content fd (.inr hfd)).trans hempty
  have hentry₁ : k₁.entry = some fd := hr.entry fd hentry hfd (.inl hempty) hlive
  have hserial₁ : fd.serial < k₁.next := hserial.trans_le hr.next
  have hlooked₁ : k₁.looked p = some fd := hr.looked.trans hlooked
  -- the file is complete
  have howns : ∀ k', k'.entry = k₁.entry → k'.content fd = contents →
      Act.rg (outcomes p) lockRely p (fun _ => True) (pure StatusCode.ok) (Acquired p) () k' := by
    intro k' he hc
    refine Act.rg_pure fun k'' hr'' _ _ hlive'' => ?_
    exact Owns.stable ⟨fd, he.trans hentry₁, hfd, bootId, token, hc⟩ hr'' hlive''
  -- or it is removed again
  have hundo : ∀ k', k'.looked p = some fd →
      Act.rg (outcomes p) lockRely p (fun _ => True)
        (PosixFileLock.removeFile >>= fun _ =>
          PosixFileLock.failure .writeFailed "failed to write queue lock file")
        (Acquired p) () k' := by
    intro k' hl
    refine rg_removeFile hl (fun _ _ => trivial) (fun q _ hq _ _ hc => ?_) fun _ _ => ?_
    · exact absurd (hc.symm.trans hfd) hq
    · exact Act.rg_fail fun _ _ _ h => nomatch h
  cases turn with
  | completes =>
    obtain ⟨rfl, rfl⟩ := Prod.mk.inj hserve
    refine ⟨fun q hq => rely_store hq hfd hempty₁ _, ?_⟩
    simp only [ne_eq, not_true_eq_false, if_false]
    exact howns _ rfl (if_pos ⟨rfl, hserial₁⟩)
  | fails =>
    obtain ⟨rfl, rfl⟩ := Prod.mk.inj hserve
    exact ⟨fun q _ => lockRely.refl q _, hundo _ hlooked₁⟩
  | short n =>
    obtain ⟨rfl, rfl⟩ := Prod.mk.inj hserve
    refine ⟨fun q hq => rely_store hq hfd hempty₁ _, ?_⟩
    by_cases hfull : (contents.take n).length = contents.length
    · have hall : contents.take n = contents := List.take_of_length_le (by simpa using hfull)
      simp only [hall, ne_eq, not_true_eq_false, if_false]
      exact howns _ rfl (if_pos ⟨rfl, hserial₁⟩)
    · simp only [ne_eq, Option.some.injEq, hfull, not_false_eq_true, if_true]
      exact hundo _ hlooked₁

lemma rg_acquireLoop (bootId token : Bytes) (attempt left : ℕ) :
    Act.rg (outcomes p) lockRely p (fun _ => True)
      (PosixFileLock.acquireLoop (makeLockContents p bootId token) attempt left)
      (Acquired p) () k := by
  have hfail : ∀ (code : StatusCode) (message : String) k',
      Act.rg (outcomes p) lockRely p (fun _ => True)
        (PosixFileLock.failure (α := StatusCode) code message) (Acquired p) () k' :=
    fun _ _ _ => Act.rg_fail fun _ _ _ h => nomatch h
  induction left generalizing attempt k with
  | zero => exact hfail _ _ _
  | succ left ih =>
    refine Act.rg_perform_bind fun k₁ _ => ⟨trivial, ?_⟩
    rintro r k₂ ⟨-, -, turn, hserve⟩
    simp only [Kernel.serve] at hserve
    split at hserve
    · obtain ⟨rfl, rfl⟩ := Prod.mk.inj hserve
      refine ⟨fun q _ => lockRely.refl q _, ?_⟩
      simp only [ne_eq, not_true_eq_false, if_false]
      split
      · refine Act.rg_bind rg_removeStale (fun removed _ k₃ _ => ?_)
          fun _ _ _ _ _ _ _ h => nomatch h
        cases removed
        · exact hfail _ _ _
        · exact ih _
      · exact hfail _ _ _
    · next hfree =>
      split at hserve
      · obtain ⟨rfl, rfl⟩ := Prod.mk.inj hserve
        exact ⟨fun q _ => lockRely.refl q _, hfail _ _ _⟩
      · obtain ⟨rfl, rfl⟩ := Prod.mk.inj hserve
        refine ⟨fun q hq => ⟨fun _ h => h, Function.update_of_ne hq _ _, Nat.le_succ _,
          fun _ _ => rfl, fun i hi => ?_⟩, ?_⟩
        · simp [hi] at hfree
        · exact rg_fill (k := k₁.create p) rfl rfl (k₁.unwritten ⟨p, k₁.next⟩ le_rfl)
            (Nat.lt_succ_self k₁.next) (k₁.looked_create p) bootId token

/-- While it releases, a process owns the lock file up to the removal. -/
lemma rg_release (h : Owns p k) (contents : Bytes) :
    Act.rg (outcomes p) lockRely p (fun k' => k'.alive p = true → Owns p k')
      (PosixFileLock.release contents) (fun _ _ _ => True) () k := by
  refine Act.rg_perform_bind fun k₁ hr => ⟨h.stable hr, ?_⟩
  rintro r k₂ ⟨hlive, -, turn, hserve⟩
  obtain ⟨i, hi, hp, bootId, token, hc⟩ := h.stable hr hlive
  simp only [Kernel.serve, hi] at hserve
  split at hserve
  · obtain ⟨rfl, rfl⟩ := Prod.mk.inj hserve
    exact ⟨fun q _ => lockRely.refl q _, Act.rg_fail fun _ _ => trivial⟩
  · obtain ⟨rfl, rfl⟩ := Prod.mk.inj hserve
    refine ⟨fun q hq => rely_looked hq _, ?_⟩
    dsimp only
    by_cases hsame : k₁.content i ≠ contents
    · rw [if_pos hsame]
      exact Act.rg_fail fun _ _ => trivial
    rw [if_neg hsame]
    refine rg_removeFile (k₁.looked_look p i) (fun k₃ hr₃ hlive₃ => ?_)
      (fun q _ hq _ _ hcq => absurd (hcq.symm.trans hp) hq) ?_
    · exact Owns.stable (k := k₁.look p i) ⟨i, hi, hp, bootId, token, hc⟩ hr₃ hlive₃
    · rintro (e | _) k₃
      · exact Act.rg_fail fun _ _ => trivial
      · exact Act.rg_pure fun _ _ => trivial

lemma rg_recoverStale :
    Act.rg (outcomes p) lockRely p (fun _ => True) PosixFileLock.recoverStale (fun _ _ _ => True)
      () k := by
  refine Act.rg_perform_bind fun k₁ _ => ⟨trivial, ?_⟩
  rintro r k₂ ⟨-, -, turn, hserve⟩
  obtain rfl := (Prod.mk.inj hserve).2
  refine ⟨fun q _ => lockRely.refl q _, ?_⟩
  rcases r with e | _ | _
  · exact Act.rg_fail fun _ _ => trivial
  · exact Act.rg_pure fun _ _ => trivial
  · refine Act.rg_bind rg_removeStale (fun removed _ k₃ _ => ?_) fun _ _ _ _ _ _ => trivial
    cases removed
    · exact Act.rg_fail fun _ _ => trivial
    · exact Act.rg_pure fun _ _ => trivial

end

/-! ## Runs -/

/-- The condition on an event: a removal of the lock file hits the file that the process looked
at. -/
def Machine.removesOwn (m : Machine) : LockEvent → Bool
  | .call p _ =>
    match (m.activity p).prog? with
    | some (.call .remove _) => m.kernel.entry = none ∨ m.kernel.entry = m.kernel.looked p
    | _ => true
  | _ => true

/-- Process `p` is alive and between a successful acquire and its release. -/
def Machine.holds (m : Machine) (p : ℕ) : Bool :=
  m.kernel.alive p &&
    match m.activity p with
    | .holding _ | .releasing .. => true
    | _ => false

/-- What is known of a live process by what it is doing. -/
def Activity.Safe (p : ℕ) (k : Kernel) : Activity → Prop
  | .idle => True
  | .acquiring _ prog => Prog.rg (outcomes p) lockRely p (fun _ => True) prog
      (fun r k' => Acquired p r.1 r.2 k') k
  | .holding _ => Owns p k
  | .releasing _ prog => Owns p k ∧ Prog.rg (outcomes p) lockRely p
      (fun k' => k'.alive p = true → Owns p k') prog (fun _ _ => True) k
  | .recovering prog => Prog.rg (outcomes p) lockRely p (fun _ => True) prog (fun _ _ => True) k

/-- The invariant of a run. -/
def Machine.Safe (m : Machine) : Prop :=
  ∀ p, m.kernel.alive p = true → (m.activity p).Safe p m.kernel

lemma Activity.Safe.stable {p : ℕ} {k k' : Kernel} {a : Activity} (h : a.Safe p k)
    (hr : LockRely p k k') (hlive : k'.alive p = true) : a.Safe p k' := by
  cases a with
  | idle => trivial
  | acquiring contents prog => exact Prog.rg_stable h hr
  | holding contents => exact Owns.stable h hr hlive
  | releasing contents prog => exact ⟨h.1.stable hr hlive, Prog.rg_stable h.2 hr⟩
  | recovering prog => exact Prog.rg_stable h hr

/-- One call of a process: what it does to the others, and where the process is then. -/
lemma Activity.Safe.call {p : ℕ} {k k' : Kernel} {a : Activity} (h : a.Safe p k) {c : SysCall}
    {f : c.Val → LockProg} (hprog : a.prog? = some (.call c f)) {r : c.Val}
    (ho : outcomes p c k r k') (hlive : k'.alive p = true) :
    (∀ q, q ≠ p → LockRely q k k') ∧ (a.goOn (f r)).Safe p k' := by
  cases a with
  | idle => simp [Activity.prog?] at hprog
  | holding contents => simp [Activity.prog?] at hprog
  | acquiring contents prog =>
    obtain rfl := Option.some.inj hprog
    obtain ⟨hothers, hrest⟩ := (Prog.rg_call_step h).2 r k' ho
    refine ⟨hothers, ?_⟩
    cases hf : f r with
    | ret a =>
      obtain ⟨e | code, u⟩ := a
      · trivial
      · rw [hf] at hrest
        exact hrest k' (lockRely.refl p k') code rfl hlive
    | call c' f' =>
      rw [hf] at hrest
      exact hrest
    | mark e => exact e.elim
    | spin =>
      rw [hf] at hrest
      exact hrest
  | releasing contents prog =>
    obtain rfl := Option.some.inj hprog
    obtain ⟨hothers, hrest⟩ := (Prog.rg_call_step h.2).2 r k' ho
    refine ⟨hothers, ?_⟩
    have hnow := Prog.rg_now hrest
    cases hf : f r with
    | ret a => trivial
    | call c' f' =>
      simp only [hf, reduceCtorEq, exists_false, false_or] at hnow
      exact ⟨hnow hlive, hf ▸ hrest⟩
    | mark e => exact e.elim
    | spin =>
      simp only [hf, reduceCtorEq, exists_false, false_or] at hnow
      exact ⟨hnow hlive, hf ▸ hrest⟩
  | recovering prog =>
    obtain rfl := Option.some.inj hprog
    obtain ⟨hothers, hrest⟩ := (Prog.rg_call_step h).2 r k' ho
    refine ⟨hothers, ?_⟩
    cases hf : f r with
    | ret a => trivial
    | call c' f' =>
      rw [hf] at hrest
      exact hrest
    | mark e => exact e.elim
    | spin =>
      rw [hf] at hrest
      exact hrest

lemma alive_serve (p : ℕ) (turn : Turn) (c : SysCall) (k : Kernel) :
    (k.serve p turn c).2.alive = k.alive := by
  cases c with
  | openExclusive =>
    simp only [Kernel.serve]
    split
    · rfl
    · split <;> rfl
  | write fd data => cases turn <;> rfl
  | readFile =>
    simp only [Kernel.serve]
    split
    · rfl
    · split <;> rfl
  | fileExists => rfl
  | kill pid => rfl
  | remove =>
    simp only [Kernel.serve]
    split <;> rfl

lemma rely_kill (p q : ℕ) (k : Kernel) : LockRely q k (Machine.kill k p) := by
  refine ⟨fun r hr => ?_, rfl, le_rfl, fun _ _ => rfl, fun _ h _ _ _ => h⟩
  unfold Machine.kill at hr
  dsimp only at hr
  split at hr
  · exact absurd hr Bool.false_ne_true
  · exact hr

lemma not_alive_kill (p : ℕ) (k : Kernel) : (Machine.kill k p).alive p ≠ true := by
  simp [Machine.kill]

namespace Machine

variable {m m' : Machine} {p : ℕ}

/-- The invariant, process by process. -/
lemma Safe.setActivity {a : Activity} (ha : a.Safe p m.kernel)
    (h : ∀ q, q ≠ p → m.kernel.alive q = true → (m.activity q).Safe q m.kernel) :
    (m.setActivity p a).Safe := by
  intro q hq
  by_cases hqp : q = p
  · subst hqp
    simpa [Machine.setActivity] using ha
  · simpa [Machine.setActivity, Function.update_of_ne hqp] using h q hqp hq

/-- One event. -/
lemma Safe.step (h : m.Safe) {e : LockEvent} (he : m.removesOwn e = true)
    (hnext : m.next e = some m') :
    m'.Safe := by
  cases e with
  | start p task =>
    simp only [next] at hnext
    split at hnext
    · next hlive =>
      have hothers : ∀ q, q ≠ p → m.kernel.alive q = true → (m.activity q).Safe q m.kernel :=
        fun q _ => h q
      split at hnext
      · next bootId token hidle =>
        obtain rfl := Option.some.inj hnext
        exact Safe.setActivity (rg_acquireLoop bootId token 0 2) hothers
      · next contents hholding =>
        obtain rfl := Option.some.inj hnext
        have howns : Owns p m.kernel := by
          have := h p hlive
          rwa [hholding] at this
        exact Safe.setActivity ⟨howns, rg_release howns contents⟩ hothers
      · obtain rfl := Option.some.inj hnext
        exact Safe.setActivity rg_recoverStale hothers
      · simp at hnext
    · simp at hnext
  | call p turn =>
    simp only [next] at hnext
    split at hnext
    · next hlive =>
      split at hnext
      · next c f hprog =>
        obtain rfl := Option.some.inj hnext
        have ho : outcomes p c m.kernel (m.kernel.serve p turn c).1
            (m.kernel.serve p turn c).2 := by
          refine ⟨hlive, ?_, turn, rfl⟩
          rintro rfl
          simpa [removesOwn, hprog] using he
        have hlive' : (m.kernel.serve p turn c).2.alive p = true := by rwa [alive_serve]
        obtain ⟨hothers, hp⟩ := (h p hlive).call hprog ho hlive'
        refine Safe.setActivity (m := { m with kernel := _ }) hp fun q hqp hq => ?_
        exact (h q ((hothers q hqp).alive q hq)).stable (hothers q hqp) hq
      · simp at hnext
    · simp at hnext
  | die p =>
    simp only [next] at hnext
    split at hnext
    · obtain rfl := Option.some.inj hnext
      intro q hq
      have hr := rely_kill p q m.kernel
      exact (h q (hr.alive q hq)).stable hr hq
    · simp at hnext
  | dieWriting p n =>
    simp only [next] at hnext
    split at hnext
    · next hlive =>
      split at hnext
      · next fd data f hprog =>
        obtain rfl := Option.some.inj hnext
        have ho : outcomes p (.write fd data) m.kernel (some (data.take n).length)
            (m.kernel.store fd (data.take n)) :=
          ⟨hlive, fun hc => (nomatch hc), .short n, rfl⟩
        obtain ⟨hothers, -⟩ := (h p hlive).call hprog ho hlive
        intro q hq
        by_cases hqp : q = p
        · exact absurd (hqp ▸ hq) (not_alive_kill p _)
        · have hr : LockRely q m.kernel _ :=
            lockRely.trans (hothers q hqp) (rely_kill p q (m.kernel.store fd (data.take n)))
          exact (h q (hr.alive q hq)).stable hr hq
      · simp at hnext
    · simp at hnext

/-- The invariant holds in every state of a run whose events meet the condition. -/
lemma Safe.run {alive : ℕ → Bool} {hpid : ∀ p, alive p = true → 0 < p ∧ p < 2 ^ 31}
    (h : LockRun (fun m e => m.removesOwn e) (Machine.start alive hpid) m) : m.Safe := by
  induction h with
  | init => exact fun p _ => trivial
  | step e _ he hnext ih => exact ih.step he hnext

lemma Safe.owns (h : m.Safe) (hp : m.holds p = true) : Owns p m.kernel := by
  obtain ⟨hlive, hact⟩ := (Bool.and_eq_true _ _).mp hp
  have hsafe := h p hlive
  cases ha : m.activity p with
  | holding contents =>
    rw [ha] at hsafe
    exact hsafe
  | releasing contents prog =>
    rw [ha] at hsafe
    exact hsafe.1
  | idle | acquiring contents prog | recovering prog =>
    rw [ha] at hact
    exact absurd hact Bool.false_ne_true

end Machine

/-- **Mutual exclusion of the lock**: in every run of any processes, started with no lock file, in
which each removal of the lock file hits the file that the process looked at, at most one live
process is between a successful acquire and its release. -/
theorem lock_exclusion (alive : ℕ → Bool) (hpid : ∀ p, alive p = true → 0 < p ∧ p < 2 ^ 31)
    {m : Machine} (h : LockRun (fun m e => m.removesOwn e) (Machine.start alive hpid) m) (p q : ℕ)
    (hp : m.holds p = true) (hq : m.holds q = true) : p = q := by
  obtain ⟨i, hi, hip, -⟩ := (Machine.Safe.run h).owns hp
  obtain ⟨j, hj, hjq, -⟩ := (Machine.Safe.run h).owns hq
  have hij : i = j := Option.some.inj (hi.symm.trans hj)
  rw [← hip, hij, hjq]

/-! ## The race -/

/-- Three processes. -/
def threeProcesses (p : ℕ) : Bool := decide (0 < p ∧ p ≤ 3)

lemma threeProcesses_range (p : ℕ) (hp : threeProcesses p = true) : 0 < p ∧ p < 2 ^ 31 := by
  simp only [threeProcesses, decide_eq_true_eq] at hp
  omega

/-- Process 1 dies with the lock. -/
def ownerDies : List LockEvent :=
  [.start 1 (.acquire [] []), .call 1 .completes, .call 1 .completes, .die 1]

/-- A process finds the file in its way, reads it and finds that the owner is dead. -/
def findsStale (p : ℕ) : List LockEvent :=
  [.start p (.acquire [] []), .call p .completes, .call p .completes, .call p .completes]

/-- It removes the file, creates its own and fills it. -/
def takesOver (p : ℕ) : List LockEvent :=
  [.call p .completes, .call p .completes, .call p .completes]

/-- Process 2 takes the lock of the dead process 1 over, and is the only one that has it. -/
theorem lock_exclusion_takeover :
    ∃ m, LockRun (fun m e => m.removesOwn e) (Machine.start threeProcesses threeProcesses_range) m ∧
      m.holds 2 = true ∧ ∀ q, m.holds q = true → 2 = q := by
  obtain ⟨m, hm, hholds⟩ := LockRun.of_after (A := Machine.removesOwn) (fun m => m.holds 2)
    (ownerDies ++ findsStale 2 ++ takesOver 2) (Machine.start threeProcesses threeProcesses_range)
    (by decide +kernel)
  exact ⟨m, hm, hholds, fun q hq => lock_exclusion _ _ hm 2 q hholds hq⟩

/-- Processes 2 and 3 both find the file of process 1 stale.  Process 3 takes the lock over, and
then process 2, which removes the file of process 3: both have the lock. -/
theorem lock_exclusion_fails :
    ∃ m, LockRun (fun _ _ => True) (Machine.start threeProcesses threeProcesses_range) m ∧
      m.holds 2 = true ∧ m.holds 3 = true := by
  obtain ⟨m, hm, hholds⟩ := LockRun.of_after (A := fun _ _ => true)
    (fun m => m.holds 2 && m.holds 3)
    (ownerDies ++ findsStale 2 ++ findsStale 3 ++ takesOver 3 ++ takesOver 2)
    (Machine.start threeProcesses threeProcesses_range) (by decide +kernel)
  rw [Bool.and_eq_true] at hholds
  exact ⟨m, hm.mono fun _ _ _ => trivial, hholds⟩

end Pqueue
