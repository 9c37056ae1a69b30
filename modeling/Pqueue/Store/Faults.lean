import Pqueue.Store.Publish

/-!
# Rules for methods when calls fail

`Wp` is the precondition of a method on a file system where any call may fail, with the effects
that `harm` allows a failed call.  It speaks about the directory only: the time and the LittleFS
mutex may be anything, so the answers that depend on them are arbitrary.  The rule for a call
(`wp_tryCall`) asks for both outcomes; the rules for the methods that only compute and call
follow from it.

A call that is asked for information and fails is an answer the code goes on with: `SlotRead`,
`SlotExists` and `SizeRead` say what the answers can be, and `Ram.Targets` which slot a
publication can come to write.
-/

namespace Pqueue

open Effect LittleEndian

/-- A postcondition that speaks about the directory. -/
abbrev DiskPost (σ α : Type) := Except Status α → σ → Disk → Prop

/-- Precondition of a method whose calls complete or fail with the effects in `harm`; `J` holds
of every directory on the way. -/
def Wp (env : Env) (harm : FsCall → Disk → Disk → Prop) (A : StoreMark → Disk → Prop)
    (J : Disk → Prop) {σ α : Type} (m : Act (Fs StoreMark) σ Status α) (Q : DiskPost σ α) (s : σ)
    (d : Disk) : Prop :=
  ∀ w : World, w.disk = d → Act.wp (faulty env harm) (fun mk w => A mk w.disk)
    (fun w => J w.disk) m (fun r s' w' => Q r s' w'.disk) s w

/-- A method that only reads: its value satisfies `P`, and nothing else changes. -/
def Reads (env : Env) (harm : FsCall → Disk → Disk → Prop) (A : StoreMark → Disk → Prop)
    (J : Disk → Prop) {σ α : Type} (m : Act (Fs StoreMark) σ Status α) (P : α → Prop) (s : σ)
    (d : Disk) : Prop :=
  Wp env harm A J m (fun r s' d' => s' = s ∧ d' = d ∧ ∃ a, r = .ok a ∧ P a) s d

/-- An execution of a method: its outcome, the object and the world it leaves. -/
def Executes (env : Env) (harm : FsCall → Disk → Disk → Prop) (A : StoreMark → Disk → Prop)
    {σ α : Type} (m : Act (Fs StoreMark) σ Status α) (s : σ) (w : World) (r : Except Status α)
    (s' : σ) (w' : World) : Prop :=
  Prog.Exec (faulty env harm) (fun mk w => A mk w.disk) (m s) w (r, s') w'

/-- No call fails. -/
def noHarm : FsCall → Disk → Disk → Prop := fun _ _ _ => False

/-- The calls that a failing environment may be assumed to complete. -/
def Reliable (harm : FsCall → Disk → Disk → Prop) (c : FsCall) : Prop := ∀ d d', ¬harm c d d'

/-- Failed calls do no more than the damage they may do. -/
def Damaging (harm : FsCall → Disk → Disk → Prop) : Prop := ∀ c d d', harm c d d' → damage c d d'

lemma damaging_noHarm : Damaging noHarm := fun _ _ _ h => h.elim

section Rules

variable {env : Env} {harm : FsCall → Disk → Disk → Prop} {A : StoreMark → Disk → Prop}
  {J : Disk → Prop} {σ α β : Type} {s : σ} {d : Disk}

/-! ## The judgement -/

lemma Wp.mono {m : Act (Fs StoreMark) σ Status α} {Q Q' : DiskPost σ α}
    (h : Wp env harm A J m Q s d) (hQ : ∀ r s' d', Q r s' d' → Q' r s' d') :
    Wp env harm A J m Q' s d :=
  fun w hw => Act.wp_mono (h w hw) fun r s' w' => hQ r s' w'.disk

lemma Wp.sound {m : Act (Fs StoreMark) σ Status α} {Q : DiskPost σ α} {w : World}
    (h : Wp env harm A J m Q s w.disk) {r : Except Status α} {s' : σ} {w' : World}
    (he : Executes env harm A m s w r s' w') : Q r s' w'.disk := Prog.wp_sound (h w rfl) he

/-- What holds of every execution of a method. -/
lemma wp_of_executes {m : Act (Fs StoreMark) σ Status α} {Q : DiskPost σ α}
    (h : ∀ w r s' w', w.disk = d → Executes env harm A m s w r s' w' → Q r s' w'.disk) :
    Wp env harm A (fun _ => True) m Q s d :=
  fun w hw => Prog.wp_complete fun a w' he => h w a.1 a.2 w' hw he

/-- What a method computes when nothing fails is an execution. -/
lemma executes_of_run {m : Act (Fs StoreMark) σ Status α} {w w' : World} {r : Except Status α}
    {s' : σ} (h : Prog.run (handle env) (m s) w = some ((r, s'), w')) :
    Executes env harm (fun _ _ => True) m s w r s' w' := by
  have hexec := (Prog.exec_outcomes_iff (crashing env).handler (fun _ _ => True) (m s) w
    (r, s') w').2 ⟨h, Prog.marksOk_true _ _ _⟩
  exact Prog.exec_mono (fun c v a v' ha => .inl ha) hexec

/-! ## Executions by the shape of the method -/

section Executes

variable {w w' : World} {s' : σ}

lemma executes_pure {a : α} {r : Except Status α} :
    Executes env harm A (pure a) s w r s' w' ↔ r = .ok a ∧ s' = s ∧ w' = w := by
  constructor
  · rintro ⟨hr, rfl⟩
    obtain ⟨rfl, rfl⟩ := Prod.mk.inj hr
    exact ⟨rfl, rfl, rfl⟩
  · rintro ⟨rfl, rfl, rfl⟩
    exact ⟨rfl, rfl⟩

lemma executes_fail {e : Status} {r : Except Status α} :
    Executes env harm A (Act.fail e) s w r s' w' ↔ r = .error e ∧ s' = s ∧ w' = w := by
  constructor
  · rintro ⟨hr, rfl⟩
    obtain ⟨rfl, rfl⟩ := Prod.mk.inj hr
    exact ⟨rfl, rfl, rfl⟩
  · rintro ⟨rfl, rfl, rfl⟩
    exact ⟨rfl, rfl⟩

lemma executes_modify {f : σ → σ} {r : Except Status Unit} :
    Executes env harm A (Act.modify f) s w r s' w' ↔ r = .ok () ∧ s' = f s ∧ w' = w := by
  constructor
  · rintro ⟨hr, rfl⟩
    obtain ⟨rfl, rfl⟩ := Prod.mk.inj hr
    exact ⟨rfl, rfl, rfl⟩
  · rintro ⟨rfl, rfl, rfl⟩
    exact ⟨rfl, rfl⟩

/-- An execution of a sequence has one of its first part. -/
lemma executes_bind {m : Act (Fs StoreMark) σ Status α} {f : α → Act (Fs StoreMark) σ Status β}
    {r : Except Status β} : Executes env harm A (m >>= f) s w r s' w' ↔
      (∃ a s₁ w₁, Executes env harm A m s w (.ok a) s₁ w₁ ∧
        Executes env harm A (f a) s₁ w₁ r s' w') ∨
        ∃ e, r = .error e ∧ Executes env harm A m s w (.error e) s' w' := by
  refine (Prog.exec_bind _ _ (m s) (Act.step f) w (r, s') w').trans ⟨?_, ?_⟩
  · rintro ⟨⟨e | a, s₁⟩, w₁, hm, hf⟩
    · obtain ⟨hr, rfl⟩ := hf
      obtain ⟨rfl, rfl⟩ := Prod.mk.inj hr
      exact .inr ⟨e, rfl, hm⟩
    · exact .inl ⟨a, s₁, w₁, hm, hf⟩
  · rintro (⟨a, s₁, w₁, hm, hf⟩ | ⟨e, rfl, hm⟩)
    · exact ⟨_, _, hm, hf⟩
    · exact ⟨_, _, hm, rfl, rfl⟩

lemma executes_get_bind {f : σ → Act (Fs StoreMark) σ Status β} {r : Except Status β} :
    Executes env harm A (Act.get >>= f) s w r s' w' ↔ Executes env harm A (f s) s w r s' w' := by
  refine executes_bind.trans ⟨?_, fun h => .inl ⟨s, s, w, ⟨rfl, rfl⟩, h⟩⟩
  rintro (⟨a, s₁, w₁, ⟨hr, rfl⟩, hf⟩ | ⟨e, -, hr, -⟩)
  · obtain ⟨ha, rfl⟩ := Prod.mk.inj hr
    obtain rfl := Except.ok.inj ha
    exact hf
  · cases (Prod.mk.inj hr).1

lemma executes_attempt {m : Act (Fs StoreMark) σ Status α} {r : Except Status (Except Status α)} :
    Executes env harm A (Act.attempt m) s w r s' w' ↔
      ∃ r₀, r = .ok r₀ ∧ Executes env harm A m s w r₀ s' w' := by
  refine (Prog.exec_bind _ _ (m s) _ w (r, s') w').trans ⟨?_, ?_⟩
  · rintro ⟨⟨r₀, s₁⟩, w₁, hm, hr, rfl⟩
    obtain ⟨rfl, rfl⟩ := Prod.mk.inj hr
    exact ⟨r₀, rfl, hm⟩
  · rintro ⟨r₀, rfl, hm⟩
    exact ⟨_, _, hm, rfl, rfl⟩

lemma executes_zoom {τ : Type} {look : τ → σ} {put : σ → τ → τ}
    {m : Act (Fs StoreMark) σ Status α} {t t' : τ} {r : Except Status α} :
    Executes env harm A (Act.zoom look put m) t w r t' w' ↔
      ∃ s', t' = put s' t ∧ Executes env harm A m (look t) w r s' w' := by
  refine (Prog.exec_bind _ _ (m (look t)) _ w (r, t') w').trans ⟨?_, ?_⟩
  · rintro ⟨⟨r₀, s₁⟩, w₁, hm, hr, rfl⟩
    obtain ⟨rfl, rfl⟩ := Prod.mk.inj hr
    exact ⟨s₁, rfl, hm⟩
  · rintro ⟨s₁, rfl, hm⟩
    exact ⟨_, _, hm, rfl, rfl⟩

end Executes

/-! ## Computing -/

lemma wp_pure {a : α} {Q : DiskPost σ α} (hQ : Q (.ok a) s d) : Wp env harm A J (pure a) Q s d := by
  rintro w rfl
  exact hQ

lemma wp_fail {e : Status} {Q : DiskPost σ α} (hQ : Q (.error e) s d) :
    Wp env harm A J (Act.fail e) Q s d := by
  rintro w rfl
  exact hQ

lemma wp_spin {Q : DiskPost σ α} (hJ : J d) : Wp env harm A J Act.spin Q s d := by
  rintro w rfl
  exact hJ

/-- A specification of `m`, then one of the continuation on each of its values. -/
lemma wp_bind {m : Act (Fs StoreMark) σ Status α} {f : α → Act (Fs StoreMark) σ Status β}
    {Q : DiskPost σ α} {Q' : DiskPost σ β} (h : Wp env harm A J m Q s d)
    (hok : ∀ a s' d', Q (.ok a) s' d' → Wp env harm A J (f a) Q' s' d')
    (herr : ∀ e s' d', Q (.error e) s' d' → Q' (.error e) s' d') :
    Wp env harm A J (m >>= f) Q' s d :=
  fun w hw => Act.wp_bind_mono (h w hw) (fun a s' w' hq => hok a s' w'.disk hq w' rfl)
    fun e s' w' hq => herr e s' w'.disk hq

/-- `wp_bind` where a failure of `m` is a failure of the whole. -/
lemma wp_bind_ok {m : Act (Fs StoreMark) σ Status α} {f : α → Act (Fs StoreMark) σ Status β}
    (P : α → σ → Disk → Prop) {Q : DiskPost σ β} (h : Wp env harm A J m (Act.andThen P Q) s d)
    (hok : ∀ a s' d', P a s' d' → Wp env harm A J (f a) Q s' d') :
    Wp env harm A J (m >>= f) Q s d :=
  wp_bind h hok fun _ _ _ hq => hq

lemma wp_attempt {m : Act (Fs StoreMark) σ Status α} {Q : DiskPost σ (Except Status α)}
    (h : Wp env harm A J m (fun r s' d' => Q (.ok r) s' d') s d) :
    Wp env harm A J (Act.attempt m) Q s d := fun w hw => (Act.wp_attempt m _).2 (h w hw)

lemma wp_zoom {τ : Type} {look : τ → σ} {put : σ → τ → τ} {m : Act (Fs StoreMark) σ Status α}
    {Q : DiskPost τ α} {t : τ}
    (h : Wp env harm A J m (fun r s' d' => Q r (put s' t) d') (look t) d) :
    Wp env harm A J (Act.zoom look put m) Q t d :=
      fun w hw => (Act.wp_zoom look put m _ t).2 (h w hw)

lemma wp_get_bind {f : σ → Act (Fs StoreMark) σ Status β} {Q : DiskPost σ β}
    (h : Wp env harm A J (f s) Q s d) : Wp env harm A J (Act.get >>= f) Q s d := by
  rintro w rfl
  exact (Act.wp_bind _ _ _).2 (h w rfl)

lemma wp_modify {f : σ → σ} {Q : DiskPost σ Unit} (h : Q (.ok ()) (f s) d) :
    Wp env harm A J (Act.modify f) Q s d := by
  rintro w rfl
  exact h

lemma wp_modify_bind {f : σ → σ} {k : Unit → Act (Fs StoreMark) σ Status β} {Q : DiskPost σ β}
    (h : Wp env harm A J (k ()) Q (f s) d) : Wp env harm A J (Act.modify f >>= k) Q s d := by
  rintro w rfl
  exact (Act.wp_bind _ _ _).2 (h w rfl)

lemma wp_mark_bind {mk : StoreMark} {k : Unit → Act (Fs StoreMark) σ Status β} {Q : DiskPost σ β}
    (hJ : J d) (h : A mk d → Wp env harm A J (k ()) Q s d) :
    Wp env harm A J (Act.mark (I := Fs StoreMark) mk >>= k) Q s d := by
  rintro w rfl
  exact (Act.wp_bind _ _ _).2 ⟨hJ, fun hA => h hA w rfl⟩

lemma reads_pure {a : α} {P : α → Prop} (h : P a) : Reads env harm A J (pure a) P s d :=
  wp_pure ⟨rfl, rfl, a, rfl, h⟩

lemma Reads.bind {m : Act (Fs StoreMark) σ Status α} {P : α → Prop}
    {f : α → Act (Fs StoreMark) σ Status β} {Q : DiskPost σ β} (h : Reads env harm A J m P s d)
    (hf : ∀ a, P a → Wp env harm A J (f a) Q s d) : Wp env harm A J (m >>= f) Q s d := by
  refine wp_bind h ?_ ?_
  · rintro a s' d' ⟨rfl, rfl, _, ha, hp⟩
    obtain rfl := Except.ok.inj ha
    exact hf a hp
  · rintro e s' d' ⟨-, -, _, ha, -⟩
    cases ha

end Rules

/-- A call that does not write answers without changing the directory. -/
lemma handle_disk {env : Env} {c : FsCall} (hc : c.mutates = false) (w : World) :
    (handle env c w).2.disk = w.disk := by
  cases c with
  | mount => rfl
  | readFile name =>
    simp only [handle]
    split <;> rfl
  | readAt name offset size =>
    simp only [handle]
    split
    · split <;> rfl
    · rfl
  | fileSize name =>
    simp only [handle]
    split <;> rfl
  | listFiles => rfl
  | freeBytes => rfl
  | _ => cases hc

lemma damage_of_not_mutates {c : FsCall} (hc : c.mutates = false) {d d' : Disk}
    (h : damage c d d') : d' = d := by
  cases c <;> first | exact h | cases hc

section StoreRules

variable {env : Env} {harm : FsCall → Disk → Disk → Prop} {A : StoreMark → Disk → Prop}
  {J : Disk → Prop} {α β : Type} {ram : Ram} {d : Disk}

lemma wp_when {c : Prop} [Decidable c] {m : Store Unit} {Q : DiskPost Ram Unit}
    (ht : c → Wp env harm A J m Q ram d) (hf : ¬c → Q (.ok ()) ram d) :
    Wp env harm A J (Store.when c m) Q ram d := by
  rw [Store.when]
  by_cases h : c
  · rw [if_pos h]
    exact ht h
  · rw [if_neg h]
    exact wp_pure (hf h)

/-! ## Calls -/

/-- A call completes, or it fails and leaves what `harm` allows. -/
lemma wp_tryCall {c : FsCall} {Q : DiskPost Ram (Except Status c.Val)} (hJ : J d)
    (hok : ∀ w : World, w.disk = d → Q (.ok (handle env c w).1) ram (handle env c w).2.disk)
    (herr : ∀ st d', harm c d d' → Q (.ok (.error st)) ram d') :
    Wp env harm A J (Store.tryCall c) Q ram d := by
  rintro w rfl
  refine ⟨hJ, fun r w' h => ?_⟩
  rcases h with h | ⟨⟨st, rfl⟩, hh⟩
  · have hq := hok w rfl
    rw [h] at hq
    exact hq
  · exact herr st w'.disk hh

/-- A call that does not write answers, or fails with no effect. -/
lemma reads_tryCall {c : FsCall} {P : Except Status c.Val → Prop} (hd : Damaging harm) (hJ : J d)
    (hc : c.mutates = false) (hok : ∀ w : World, w.disk = d → P (handle env c w).1)
    (herr : ¬Reliable harm c → ∀ st, P (.error st)) :
    Reads env harm A J (Store.tryCall c) P ram d := by
  refine wp_tryCall hJ (fun w hw => ?_) fun st d' hh => ?_
  · exact ⟨rfl, (handle_disk hc w).trans hw, _, rfl, hok w hw⟩
  · exact ⟨rfl, damage_of_not_mutates hc (hd _ _ _ hh), _, rfl, herr (fun hr => hr _ _ hh) st⟩

/-- A call whose failure ends the method. -/
lemma wp_call {c : FsCall} {Q : DiskPost Ram c.Val} (hJ : J d)
    (hok : ∀ w : World, w.disk = d → ∀ v, (handle env c w).1 = .ok v →
      Q (.ok v) ram (handle env c w).2.disk)
    (hfail : ∀ w : World, w.disk = d → ∀ e, (handle env c w).1 = .error e →
      Q (.error e) ram (handle env c w).2.disk)
    (herr : ∀ st d', harm c d d' → Q (.error st) ram d') :
    Wp env harm A J (Store.call c) Q ram d := by
  refine wp_bind (Q := fun r ram d => ∃ a, r = .ok a ∧ (∀ v, a = .ok v → Q (.ok v) ram d) ∧
    ∀ e, a = .error e → Q (.error e) ram d) (wp_tryCall hJ (fun w hw => ?_) ?_) ?_ ?_
  · exact ⟨_, rfl, hok w hw, hfail w hw⟩
  · intro st d' hh
    refine ⟨.error st, rfl, fun v hv => ?_, fun e he => ?_⟩
    · cases hv
    · obtain rfl := Except.error.inj he
      exact herr st d' hh
  · rintro a s' d' ⟨_, ha, hv, he⟩
    obtain rfl := Except.ok.inj ha
    cases a with
    | ok v => exact wp_pure (hv v rfl)
    | error e => exact wp_fail (he e rfl)
  · rintro e s' d' ⟨_, ha, -⟩
    cases ha

/-- A write completes, or it fails. -/
lemma wp_writeFile {name : FileName} {data : Bytes} {Q : DiskPost Ram Unit} (hJ : J d)
    (hok : Q (.ok ()) ram (d.insert name data))
    (herr : ∀ st d', harm (.writeFile name data) d d' → Q (.error st) ram d') :
    Wp env harm A J (Store.call (.writeFile name data)) Q ram d := by
  refine wp_call hJ (fun w hw v _ => ?_) (fun w hw e he => nomatch he) herr
  subst hw
  exact hok

lemma wp_writeTracked_new {name : FileName} {data : Bytes} {Q : DiskPost Ram Unit} (hJ : J d)
    (hok : Q (.ok ()) (ram.trackWrite name data.length 0) (d.insert name data))
    (herr : ∀ st d', harm (.writeFile name data) d d' → Q (.error st) ram d') :
    Wp env harm A J (Store.writeSegmentFileTracked name data .mustBeNew) Q ram d := by
  refine (reads_pure (P := (· = 0)) rfl).bind fun n hn => ?_
  subst hn
  refine wp_bind_ok (fun _ ram' d' => ram' = ram ∧ d' = d.insert name data)
    (wp_writeFile hJ ⟨rfl, rfl⟩ herr) ?_
  rintro _ ram' d' ⟨rfl, rfl⟩
  exact wp_modify hok

lemma wp_writeAt {name : FileName} {offset : ℕ} {data : Bytes} {Q : DiskPost Ram Unit} (hJ : J d)
    (hok : ∀ old, d.lookup name = some old →
      Q (.ok ()) ram (d.insert name (overwrite old offset data)))
    (hnone : ∀ st, Q (.error st) ram d)
    (herr : ∀ st d', harm (.writeAt name offset data) d d' → Q (.error st) ram d') :
    Wp env harm A J (Store.call (.writeAt name offset data)) Q ram d := by
  refine wp_call hJ (fun w hw v hv => ?_) (fun w hw e he => ?_) herr
  · subst hw
    simp only [handle] at hv ⊢
    cases hl : w.disk.lookup name with
    | none =>
      rw [hl] at hv
      cases hv
    | some old => exact hok old hl
  · subst hw
    simp only [handle] at he ⊢
    cases hl : w.disk.lookup name with
    | none => exact hnone _
    | some old =>
      rw [hl] at he
      cases he

lemma wp_removeFile {name : FileName} {Q : DiskPost Ram (Except Status Unit)} (hJ : J d)
    (hok : Q (.ok (.ok ())) ram (d.erase name))
    (hnone : ∀ st, d.lookup name = none → Q (.ok (.error st)) ram d)
    (herr : ∀ st d', harm (.removeFile name) d d' → Q (.ok (.error st)) ram d') :
    Wp env harm A J (Store.tryCall (.removeFile name)) Q ram d := by
  refine wp_tryCall hJ (fun w hw => ?_) herr
  subst hw
  simp only [handle]
  split
  · next h => exact hnone _ h.2
  · exact hok

/-! ## Loops over generations -/

/-- The loops over ranges either end with the generations or do not end. -/
lemma reads_generations {s e : ℕ} (hJ : J d) :
    Reads env harm A J (Store.generations s e) (· = List.range' s (e + 1 - s)) ram d := by
  rw [Store.generations]
  split
  · exact wp_spin hJ
  · exact reads_pure rfl

lemma reads_expandRanges (ranges : List ManifestRange) (hJ : J d) :
    Reads env harm A J (Store.expandRanges ranges) (· = rangeGens ranges) ram d := by
  induction ranges with
  | nil => exact reads_pure rfl
  | cons r rs ih =>
    refine (reads_generations hJ).bind fun gens hg => ih.bind fun rest hrest => ?_
    rw [hg, hrest]
    exact reads_pure rfl

lemma wp_applyManifestToRam {md : ManifestData} {Q : DiskPost Ram Unit} (hJ : J d)
    (hQ : Q (.ok ()) (ram.applyManifest md (rangeGens md.ranges)) d) :
    Wp env harm A J (Store.applyManifestToRam md) Q ram d := by
  refine (reads_expandRanges md.ranges hJ).bind fun gens hg => ?_
  rw [hg]
  exact wp_modify hQ

end StoreRules

/-! ## Reading the slots -/

/-- What `sizeOrZero` may answer. -/
def SizeRead (harm : FsCall → Disk → Disk → Prop) (d : Disk) (name : FileName) (n : ℕ) : Prop :=
  n = Disk.size d name ∨ n = 0 ∧ ¬Reliable harm (.fileSize name)

/-- What `slotExists` may answer. -/
def SlotExists (harm : FsCall → Disk → Disk → Prop) (d : Disk) (slot : Slot) (b : Bool) : Prop :=
  b = (d.lookup slot.fileName).isSome ∨ b = false ∧ ¬Reliable harm (.fileSize slot.fileName)

/-- What a slot may be read as, once it was asked for. -/
def SlotRead (harm : FsCall → Disk → Disk → Prop) (d : Disk) (slot : Slot)
    (md : Option ManifestData) : Prop :=
  md = Disk.manifest d slot ∨
    md = none ∧ ¬(Reliable harm (.fileSize slot.fileName) ∧ Reliable harm (.readFile slot.fileName))

/-- The slots a publication may come to write, with the epoch it counts from. -/
def Ram.Targets (harm : FsCall → Disk → Disk → Prop) (d : Disk) (ram : Ram) (slot : Slot)
    (epoch : ℕ) : Prop :=
  match ram.cachedWrittenSlot with
  | some cached => slot = cached.other ∧ epoch = ram.cachedWrittenEpoch
  | none => ∃ existsA existsB mdA mdB, SlotExists harm d .a existsA ∧ SlotExists harm d .b existsB ∧
      SlotRead harm d .a mdA ∧ SlotRead harm d .b mdB ∧
      chooseInactiveSlot existsA existsB mdA mdB = some slot ∧
      epoch = ((chooseWinningSlot mdA mdB).map (·.epoch)).getD 0

/-- No slot can be chosen: slot files are taken to exist, and none of them is read. -/
def Ram.NoTarget (harm : FsCall → Disk → Disk → Prop) (d : Disk) (ram : Ram) : Prop :=
  ram.cachedWrittenSlot = none ∧ ∃ existsA existsB mdA mdB, SlotExists harm d .a existsA ∧
    SlotExists harm d .b existsB ∧ SlotRead harm d .a mdA ∧ SlotRead harm d .b mdB ∧
      chooseInactiveSlot existsA existsB mdA mdB = none

/-- When reads do not fail there is one target. -/
lemma Ram.Targets.eq {harm : FsCall → Disk → Disk → Prop} {d : Disk} {ram : Ram} {slot : Slot}
    {epoch : ℕ} (h : ram.Targets harm d slot epoch)
    (hsize : ∀ s : Slot, Reliable harm (.fileSize s.fileName))
    (hread : ∀ s : Slot, Reliable harm (.readFile s.fileName)) :
    ram.target d = some (slot, epoch) := by
  rw [Ram.Targets] at h
  rw [Ram.target]
  cases hs : ram.cachedWrittenSlot with
  | some cached =>
    simp only [hs] at h
    rw [h.1, h.2]
  | none =>
    simp only [hs] at h
    obtain ⟨eA, eB, mdA, mdB, heA, heB, hA, hB, hslot, rfl⟩ := h
    obtain rfl := heA.resolve_right fun hh => hh.2 (hsize .a)
    obtain rfl := heB.resolve_right fun hh => hh.2 (hsize .b)
    obtain rfl := hA.resolve_right fun hh => hh.2 ⟨hsize .a, hread .a⟩
    obtain rfl := hB.resolve_right fun hh => hh.2 ⟨hsize .b, hread .b⟩
    rw [Disk.probe, hslot]
    rfl

/-- The targets depend on the slots and on what is remembered of them. -/
lemma Ram.Targets.congr {harm : FsCall → Disk → Disk → Prop} {d d' : Disk} {ram ram' : Ram}
    {slot : Slot} {epoch : ℕ} (h : ram.Targets harm d slot epoch)
    (hs : ∀ s : Slot, d'.lookup s.fileName = d.lookup s.fileName)
    (hslot : ram'.cachedWrittenSlot = ram.cachedWrittenSlot)
    (hepoch : ram'.cachedWrittenEpoch = ram.cachedWrittenEpoch) :
    ram'.Targets harm d' slot epoch := by
  simp only [Ram.Targets, SlotExists, SlotRead, Disk.manifest, hs, hslot, hepoch] at h ⊢
  exact h

lemma Ram.NoTarget.congr {harm : FsCall → Disk → Disk → Prop} {d d' : Disk} {ram ram' : Ram}
    (h : ram.NoTarget harm d) (hs : ∀ s : Slot, d'.lookup s.fileName = d.lookup s.fileName)
    (hslot : ram'.cachedWrittenSlot = ram.cachedWrittenSlot) : ram'.NoTarget harm d' := by
  simp only [Ram.NoTarget, SlotExists, SlotRead, Disk.manifest, hs, hslot] at h ⊢
  exact h

lemma SizeRead.congr {harm : FsCall → Disk → Disk → Prop} {d d' : Disk} {name : FileName} {n : ℕ}
    (h : SizeRead harm d name n) (hs : d'.lookup name = d.lookup name) :
    SizeRead harm d' name n := by
  rw [SizeRead, Disk.size, hs]
  exact h

section PublishRules

variable {env : Env} {harm : FsCall → Disk → Disk → Prop} {A : StoreMark → Disk → Prop}
  {J : Disk → Prop} {ram : Ram} {d : Disk}

lemma reads_sizeOrZero (name : FileName) (hd : Damaging harm) (hJ : J d) :
    Reads env harm A J (Store.sizeOrZero name) (SizeRead harm d name) ram d := by
  refine Reads.bind (P := fun a => SizeRead harm d name (a.toOption.getD 0))
    (reads_tryCall hd hJ rfl (fun w hw => ?_) fun hr st => .inr ⟨rfl, hr⟩) fun a ha => ?_
  · subst hw
    simp only [handle, SizeRead, Disk.size]
    cases w.disk.lookup name <;> exact .inl rfl
  · cases a <;> exact reads_pure ha

lemma reads_slotExists (slot : Slot) (hd : Damaging harm) (hJ : J d) :
    Reads env harm A J (Store.slotExists slot) (SlotExists harm d slot) ram d := by
  refine Reads.bind (P := fun a : Except Status ℕ => SlotExists harm d slot a.isOk)
    (reads_tryCall hd hJ rfl (fun w hw => ?_) fun hr st => .inr ⟨rfl, hr⟩) fun a ha => ?_
  · subst hw
    simp only [handle, SlotExists]
    cases w.disk.lookup slot.fileName <;> exact .inl rfl
  · cases a <;> exact reads_pure ha

lemma reads_tryReadSlot (slot : Slot) (hd : Damaging harm) (hJ : J d) :
    Reads env harm A J (Store.tryReadSlot slot) (SlotRead harm d slot) ram d := by
  refine Reads.bind (P := fun a => SlotRead harm d slot (a.toOption.bind parseManifest))
    (reads_tryCall hd hJ rfl (fun w hw => ?_) fun hr st => .inr ⟨rfl, fun hh => hr hh.2⟩)
    fun a ha => ?_
  · subst hw
    simp only [handle, SlotRead, Disk.manifest]
    cases w.disk.lookup slot.fileName <;> exact .inl rfl
  · cases a <;> exact reads_pure ha

/-- A slot is read only when it was found to exist. -/
lemma reads_existing {slot : Slot} {b : Bool} (hd : Damaging harm) (hJ : J d)
    (hb : SlotExists harm d slot b) :
    Reads env harm A J (if b = true then Store.tryReadSlot slot else pure none)
      (SlotRead harm d slot) ram d := by
  split
  · exact reads_tryReadSlot slot hd hJ
  · next hne =>
    refine reads_pure ?_
    rcases hb with rfl | ⟨-, hr⟩
    · left
      rw [Disk.manifest, Option.not_isSome_iff_eq_none.1 hne]
      rfl
    · exact .inr ⟨rfl, fun hh => hr hh.1⟩

lemma wp_writeTarget {Q : DiskPost Ram (Slot × ℕ)} (hd : Damaging harm) (hJ : J d)
    (hok : ∀ slot epoch, ram.Targets harm d slot epoch → Q (.ok (slot, epoch)) ram d)
    (herr : ∀ st, ram.NoTarget harm d → Q (.error st) ram d) :
    Wp env harm A J Store.writeTarget Q ram d := by
  refine wp_get_bind ?_
  cases hs : ram.cachedWrittenSlot with
  | some cached => exact wp_pure (hok _ _ (by rw [Ram.Targets, hs]; exact ⟨rfl, rfl⟩))
  | none =>
    refine (reads_slotExists .a hd hJ).bind fun eA heA => ?_
    refine (reads_slotExists .b hd hJ).bind fun eB heB => ?_
    refine (reads_existing hd hJ heA).bind fun mdA hA => ?_
    refine (reads_existing hd hJ heB).bind fun mdB hB => ?_
    cases hslot : chooseInactiveSlot eA eB mdA mdB with
    | none => exact wp_fail (herr _ ⟨hs, eA, eB, mdA, mdB, heA, heB, hA, hB, hslot⟩)
    | some slot =>
      refine wp_pure (hok _ _ ?_)
      rw [Ram.Targets, hs]
      exact ⟨eA, eB, mdA, mdB, heA, heB, hA, hB, hslot, rfl⟩

/-- Publishing: no slot may be found, the write may fail, or the manifest is written to a target
slot with the next epoch. -/
lemma wp_publishManifest {manifest : ManifestData} {Q : DiskPost Ram Unit} (hd : Damaging harm)
    (hJ : J d) (hnone : ∀ st, ram.NoTarget harm d → Q (.error st) ram d)
    (hpub : ∀ slot epoch, ram.Targets harm d slot epoch → A (.publish epoch manifest) d →
      ∀ md, md = { manifest with epoch := u32 (epoch + 1) } →
        (∀ st d', harm (.writeFile slot.fileName (serialiseManifest md)) d d' →
          Q (.error st) ram d') ∧
        ∀ n, SizeRead harm d slot.fileName n → J (Disk.publish d slot md) ∧
          Q (.ok ()) (ram.published slot md n) (Disk.publish d slot md)) :
    Wp env harm A J (Store.publishManifest manifest) Q ram d := by
  refine wp_bind_ok (fun target ram' d' => ram' = ram ∧ d' = d ∧
    ram.Targets harm d target.1 target.2)
    (wp_writeTarget hd hJ (fun slot epoch ht => ⟨rfl, rfl, ht⟩) hnone) ?_
  rintro ⟨slot, epoch⟩ ram' d' ⟨rfl, rfl, ht⟩
  refine wp_mark_bind hJ fun hA => ?_
  obtain ⟨herr, hok⟩ := hpub slot epoch ht hA _ rfl
  refine wp_bind_ok (fun _ ram'' d'' => ∃ n, SizeRead harm d' slot.fileName n ∧
    ram'' = ram'.trackWrite slot.fileName
      (serialiseManifest { manifest with epoch := u32 (epoch + 1) }).length n ∧
    d'' = Disk.publish d' slot { manifest with epoch := u32 (epoch + 1) }) ?_ ?_
  · refine (reads_sizeOrZero slot.fileName hd hJ).bind fun n hn => ?_
    refine wp_bind_ok (fun _ ram'' d'' => ram'' = ram' ∧
      d'' = Disk.publish d' slot { manifest with epoch := u32 (epoch + 1) })
      (wp_writeFile hJ ⟨rfl, rfl⟩ herr) ?_
    rintro _ ram'' d'' ⟨rfl, rfl⟩
    exact wp_modify ⟨n, hn, rfl, rfl⟩
  · rintro _ ram'' d'' ⟨n, hn, rfl, rfl⟩
    obtain ⟨hJ', hQ⟩ := hok n hn
    refine wp_bind_ok (fun _ ram'' d'' => ram'' = _ ∧ d'' = _)
      (wp_applyManifestToRam hJ' ⟨rfl, rfl⟩) ?_
    rintro _ ram'' d'' ⟨rfl, rfl⟩
    exact wp_modify hQ

end PublishRules

end Pqueue
