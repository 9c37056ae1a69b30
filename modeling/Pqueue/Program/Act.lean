import Pqueue.Program.Prog

/-!
# Actions: programs that carry a state and may fail

`Act I σ ε α` is a program over the interface `I` that reads and writes a private state `σ`
and ends with a value or an early failure `ε`.  The private state survives a failure, which is
what a method of an object that returns an error code half way does.

The rules lift `wp` and `wpc` of the underlying program: a postcondition speaks about the
result (`Except ε α`), the private state and the environment's state together.
-/

namespace Effect

variable {I : Interface} {σ ε α β S : Type}

/-- A program with a private state `σ` and early failures `ε`. -/
def Act (I : Interface) (σ ε α : Type) : Type := σ → Prog I (Except ε α × σ)

namespace Act

/-- Go on with `f` after a value; keep a failure. -/
def step (f : α → Act I σ ε β) : Except ε α × σ → Prog I (Except ε β × σ)
  | (.ok a, s) => f a s
  | (.error e, s) => .ret (.error e, s)

instance : Monad (Act I σ ε) where
  pure a := fun s => .ret (.ok a, s)
  bind m f := fun s => (m s).bind (step f)

/-- Fail with `e`. -/
def fail (e : ε) : Act I σ ε α := fun s => .ret (.error e, s)

/-- The private state. -/
def get : Act I σ ε σ := fun s => .ret (.ok s, s)

/-- Change the private state. -/
def modify (f : σ → σ) : Act I σ ε Unit := fun s => .ret (.ok (), f s)

/-- Make a call. -/
def perform (c : I.Call) : Act I σ ε (I.Ret c) := fun s => .call c fun r => .ret (.ok r, s)

/-- Leave a trace event. -/
def mark (m : I.Mark) : Act I σ ε Unit := fun s => .mark m (.ret (.ok (), s))

/-- A loop that has used up its fuel. -/
def spin : Act I σ ε α := fun _ => .spin

/-- Fail when `r` is a failure. -/
def check : Except ε α → Act I σ ε α
  | .ok a => pure a
  | .error e => fail e

/-- Run `m` and hand its failure to the continuation instead of failing. -/
def attempt (m : Act I σ ε α) : Act I σ ε (Except ε α) := fun s =>
  (m s).bind fun r => .ret (.ok r.1, r.2)

/-- `m` on a part of the private state. -/
def zoom {τ : Type} (look : τ → σ) (put : σ → τ → τ) (m : Act I σ ε α) : Act I τ ε α := fun t =>
  (m (look t)).bind fun r => .ret (r.1, put r.2 t)

/-- Run `f` on every element, in order. -/
def forEach (f : α → Act I σ ε Unit) : List α → Act I σ ε Unit
  | [] => pure ()
  | a :: as => f a >>= fun _ => forEach f as

lemma bind_assoc {γ : Type} (m : Act I σ ε α) (f : α → Act I σ ε β) (g : β → Act I σ ε γ) :
    m >>= f >>= g = m >>= fun a => f a >>= g := by
  funext s
  show ((m s).bind (step f)).bind (step g) = (m s).bind (step fun a => f a >>= g)
  rw [Prog.bind_assoc]
  refine congrArg ((m s).bind ·) (funext fun r => ?_)
  obtain ⟨e | a, s'⟩ := r
  · rfl
  · rfl

/-! ## Judgements -/

/-- A postcondition of an action. -/
abbrev Post (σ ε S α : Type) := Except ε α → σ → S → Prop

/-- The postcondition of `m` in `m >>= f`: `K` after a value, `Q` after a failure. -/
def andThen (K : α → σ → S → Prop) (Q : Post σ ε S β) : Post σ ε S α
  | .ok a, s, w => K a s w
  | .error e, s, w => Q (.error e) s w

variable (O : Prog.Outcomes I S) (C : Prog.Crashing I S) (A : I.Mark → S → Prop) (Z : Prop)
  (J : S → Prop)

/-- `Prog.wp` for actions. -/
def wp (m : Act I σ ε α) (Q : Post σ ε S α) (s : σ) (w : S) : Prop :=
  Prog.wp O A J (m s) (fun r w' => Q r.1 r.2 w') w

/-- `Prog.wpc` for actions. -/
def wpc (m : Act I σ ε α) (Q : Post σ ε S α) (s : σ) (w : S) : Prop :=
  Prog.wpc C A Z J (m s) (fun r w' => Q r.1 r.2 w') w

section Rules

variable {O C A Z J} {Q Q' : Post σ ε S α} {s : σ} {w : S}

@[simp] lemma wp_pure (a : α) : wp O A J (pure a) Q s w ↔ Q (.ok a) s w := Iff.rfl

@[simp] lemma wp_fail (e : ε) : wp O A J (fail e) Q s w ↔ Q (.error e) s w := Iff.rfl

@[simp] lemma wp_get (Q : Post σ ε S σ) : wp O A J get Q s w ↔ Q (.ok s) s w := Iff.rfl

@[simp] lemma wp_modify (f : σ → σ) (Q : Post σ ε S Unit) :
    wp O A J (modify f) Q s w ↔ Q (.ok ()) (f s) w := Iff.rfl

@[simp] lemma wp_mark (m : I.Mark) (Q : Post σ ε S Unit) :
    wp O A J (mark m) Q s w ↔ J w ∧ (A m w → Q (.ok ()) s w) := Iff.rfl

@[simp] lemma wp_spin : wp O A J (spin : Act I σ ε α) Q s w ↔ J w := Iff.rfl

lemma wp_perform (c : I.Call) (Q : Post σ ε S (I.Ret c)) :
    wp O A J (perform c) Q s w ↔ J w ∧ ∀ r w', O c w r w' → Q (.ok r) s w' := Iff.rfl

@[simp] lemma wp_check_ok (a : α) : wp O A J (check (.ok a)) Q s w ↔ Q (.ok a) s w := Iff.rfl

@[simp] lemma wp_check_error (e : ε) :
    wp O A J (check (.error e)) Q s w ↔ Q (.error e) s w := Iff.rfl

lemma wp_bind (m : Act I σ ε α) (f : α → Act I σ ε β) (Q : Post σ ε S β) :
    wp O A J (m >>= f) Q s w ↔
      wp O A J m (andThen (fun a s w => wp O A J (f a) Q s w) Q) s w := by
  show Prog.wp O A J ((m s).bind (step f)) _ w ↔ _
  rw [Prog.wp_bind]
  refine iff_of_eq (congrArg (fun P => Prog.wp O A J (m s) P w) ?_)
  funext ⟨r, s'⟩ w'
  cases r <;> rfl

lemma wp_attempt (m : Act I σ ε α) (Q : Post σ ε S (Except ε α)) :
    wp O A J (attempt m) Q s w ↔ wp O A J m (fun r s' w' => Q (.ok r) s' w') s w := by
  show Prog.wp O A J ((m s).bind _) _ w ↔ _
  rw [Prog.wp_bind]
  rfl

lemma wp_zoom {τ : Type} (look : τ → σ) (put : σ → τ → τ) (m : Act I σ ε α)
    (Q : Post τ ε S α) (t : τ) :
    wp O A J (zoom look put m) Q t w ↔
      wp O A J m (fun r s' w' => Q r (put s' t) w') (look t) w := by
  show Prog.wp O A J ((m (look t)).bind _) _ w ↔ _
  rw [Prog.wp_bind]
  rfl

lemma wp_mono {m : Act I σ ε α} (h : wp O A J m Q s w)
    (hQ : ∀ r s' w', Q r s' w' → Q' r s' w') : wp O A J m Q' s w :=
  Prog.wp_mono h (fun _ hJ => hJ) fun r w' => hQ r.1 r.2 w'

/-- A specification of `m`, then one of the continuation on each of its values. -/
lemma wp_bind_mono {m : Act I σ ε α} {f : α → Act I σ ε β} {Q' : Post σ ε S β}
    (h : wp O A J m Q s w) (hok : ∀ a s' w', Q (.ok a) s' w' → wp O A J (f a) Q' s' w')
    (herr : ∀ e s' w', Q (.error e) s' w' → Q' (.error e) s' w') :
    wp O A J (m >>= f) Q' s w := by
  refine (wp_bind m f Q').2 (wp_mono h ?_)
  rintro (e | a) s' w' hq
  · exact herr e s' w' hq
  · exact hok a s' w' hq

@[simp] lemma wpc_pure (a : α) : wpc C A Z J (pure a) Q s w ↔ Q (.ok a) s w := Iff.rfl

@[simp] lemma wpc_fail (e : ε) : wpc C A Z J (fail e) Q s w ↔ Q (.error e) s w := Iff.rfl

@[simp] lemma wpc_get (Q : Post σ ε S σ) : wpc C A Z J get Q s w ↔ Q (.ok s) s w := Iff.rfl

@[simp] lemma wpc_modify (f : σ → σ) (Q : Post σ ε S Unit) :
    wpc C A Z J (modify f) Q s w ↔ Q (.ok ()) (f s) w := Iff.rfl

@[simp] lemma wpc_mark (m : I.Mark) (Q : Post σ ε S Unit) :
    wpc C A Z J (mark m) Q s w ↔ (A m w → Q (.ok ()) s w) := Iff.rfl

@[simp] lemma wpc_spin : wpc C A Z J (spin : Act I σ ε α) Q s w ↔ J w ∧ Z := Iff.rfl

lemma wpc_perform (c : I.Call) (Q : Post σ ε S (I.Ret c)) :
    wpc C A Z J (perform c) Q s w ↔
      (C.mutates c = true → J w ∧ ∀ n w', C.torn c n w = some w' → J w') ∧
        Q (.ok (C.handler c w).1) s (C.handler c w).2 := Iff.rfl

@[simp] lemma wpc_check_ok (a : α) : wpc C A Z J (check (.ok a)) Q s w ↔ Q (.ok a) s w :=
  Iff.rfl

@[simp] lemma wpc_check_error (e : ε) :
    wpc C A Z J (check (.error e)) Q s w ↔ Q (.error e) s w := Iff.rfl

lemma wpc_bind (m : Act I σ ε α) (f : α → Act I σ ε β) (Q : Post σ ε S β) :
    wpc C A Z J (m >>= f) Q s w ↔
      wpc C A Z J m (andThen (fun a s w => wpc C A Z J (f a) Q s w) Q) s w := by
  show Prog.wpc C A Z J ((m s).bind (step f)) _ w ↔ _
  rw [Prog.wpc_bind]
  refine iff_of_eq (congrArg (fun P => Prog.wpc C A Z J (m s) P w) ?_)
  funext ⟨r, s'⟩ w'
  cases r <;> rfl

lemma wpc_mono {m : Act I σ ε α} {J' : S → Prop} (h : wpc C A Z J m Q s w)
    (hJ : ∀ w', J w' → J' w') (hQ : ∀ r s' w', Q r s' w' → Q' r s' w') :
    wpc C A Z J' m Q' s w :=
  Prog.wpc_mono h hJ fun r w' => hQ r.1 r.2 w'

end Rules

/-! ## Possible outcomes -/

/-- Some execution of `m`, with every trace event meeting `A`, has an outcome in `Q`. -/
def may (m : Act I σ ε α) (Q : Post σ ε S α) (s : σ) (w : S) : Prop :=
  ∃ r s' w', Prog.Exec O A (m s) w (r, s') w' ∧ Q r s' w'

section May

variable {O A} {Q Q' : Post σ ε S α} {s : σ} {w : S}

lemma may_pure {a : α} (h : Q (.ok a) s w) : may O A (pure a) Q s w := ⟨_, _, _, ⟨rfl, rfl⟩, h⟩

lemma may_fail {e : ε} (h : Q (.error e) s w) : may O A (fail e) Q s w :=
  ⟨_, _, _, ⟨rfl, rfl⟩, h⟩

lemma may_perform {c : I.Call} {Q : Post σ ε S (I.Ret c)} {r : I.Ret c} {w' : S}
    (hr : O c w r w') (h : Q (.ok r) s w') : may O A (perform c) Q s w :=
  ⟨_, _, _, ⟨r, w', hr, rfl, rfl⟩, h⟩

lemma may_mono {m : Act I σ ε α} (h : may O A m Q s w)
    (hQ : ∀ r s' w', Q r s' w' → Q' r s' w') : may O A m Q' s w := by
  obtain ⟨r, s', w', he, hq⟩ := h
  exact ⟨r, s', w', he, hQ r s' w' hq⟩

lemma may_bind {m : Act I σ ε α} {f : α → Act I σ ε β} {Q : Post σ ε S β}
    (h : may O A m (andThen (fun a s w => may O A (f a) Q s w) Q) s w) :
    may O A (m >>= f) Q s w := by
  obtain ⟨r, s₁, w₁, he, hq⟩ := h
  cases r with
  | ok a =>
    obtain ⟨r', s', w', he', hq'⟩ := hq
    exact ⟨r', s', w', (Prog.exec_bind O A (m s) (step f) w _ w').2 ⟨_, _, he, he'⟩, hq'⟩
  | error e =>
    exact ⟨.error e, s₁, w₁, (Prog.exec_bind O A (m s) (step f) w _ w₁).2 ⟨_, _, he, rfl, rfl⟩, hq⟩

lemma may_get_bind {f : σ → Act I σ ε β} {Q : Post σ ε S β} (h : may O A (f s) Q s w) :
    may O A (get >>= f) Q s w := may_bind ⟨_, _, _, ⟨rfl, rfl⟩, h⟩

lemma may_modify_bind {g : σ → σ} {f : Unit → Act I σ ε β} {Q : Post σ ε S β}
    (h : may O A (f ()) Q (g s) w) : may O A (modify g >>= f) Q s w :=
  may_bind ⟨_, _, _, ⟨rfl, rfl⟩, h⟩

lemma may_mark_bind {mk : I.Mark} {f : Unit → Act I σ ε β} {Q : Post σ ε S β} (hA : A mk w)
    (h : may O A (f ()) Q s w) : may O A (mark mk >>= f) Q s w :=
  may_bind ⟨_, _, _, ⟨hA, rfl, rfl⟩, h⟩

lemma may_attempt {m : Act I σ ε α} {Q : Post σ ε S (Except ε α)}
    (h : may O A m (fun r s' w' => Q (.ok r) s' w') s w) : may O A (attempt m) Q s w := by
  obtain ⟨r, s', w', he, hq⟩ := h
  exact ⟨_, _, _, (Prog.exec_bind O A (m s) _ w _ w').2 ⟨_, _, he, rfl, rfl⟩, hq⟩

lemma may_zoom {τ : Type} {look : τ → σ} {put : σ → τ → τ} {m : Act I σ ε α} {Q : Post τ ε S α}
    {t : τ} (h : may O A m (fun r s' w' => Q r (put s' t) w') (look t) w) :
    may O A (zoom look put m) Q t w := by
  obtain ⟨r, s', w', he, hq⟩ := h
  exact ⟨_, _, _, (Prog.exec_bind O A (m (look t)) _ w _ w').2 ⟨_, _, he, rfl, rfl⟩, hq⟩

end May

/-! ## The trace events of a method -/

/-- The trace events of `m` are in `M`. -/
def MarksIn (M : I.Mark → Prop) (m : Act I σ ε α) : Prop := ∀ s, (m s).MarksIn M

namespace MarksIn

variable {M : I.Mark → Prop}

lemma pure {a : α} : MarksIn M (Pure.pure a : Act I σ ε α) := fun _ => trivial

lemma fail {e : ε} : MarksIn M (Act.fail e : Act I σ ε α) := fun _ => trivial

lemma get : MarksIn M (Act.get : Act I σ ε σ) := fun _ => trivial

lemma modify {f : σ → σ} : MarksIn M (Act.modify f : Act I σ ε Unit) := fun _ => trivial

lemma perform {c : I.Call} : MarksIn M (Act.perform c : Act I σ ε (I.Ret c)) := fun _ _ => trivial

lemma mark {m : I.Mark} (h : M m) : MarksIn M (Act.mark m : Act I σ ε Unit) := fun _ => ⟨h, trivial⟩

lemma spin : MarksIn M (Act.spin : Act I σ ε α) := fun _ => trivial

lemma bind {m : Act I σ ε α} {f : α → Act I σ ε β} (hm : MarksIn M m) (hf : ∀ a, MarksIn M (f a)) :
    MarksIn M (m >>= f) := fun s => (hm s).bind fun r => by
  obtain ⟨e | a, s'⟩ := r
  · trivial
  · exact hf a s'

lemma check {r : Except ε α} : MarksIn M (Act.check r : Act I σ ε α) := by
  cases r with
  | ok a => exact pure
  | error e => exact fail

lemma forEach {f : α → Act I σ ε Unit} (hf : ∀ a, MarksIn M (f a)) (as : List α) :
    MarksIn M (Act.forEach f as) := by
  induction as with
  | nil => exact pure
  | cons a as ih => exact (hf a).bind fun _ => ih

end MarksIn

end Act

end Effect
