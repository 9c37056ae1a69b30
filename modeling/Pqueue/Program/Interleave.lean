import Pqueue.Program.Act

/-!
# Programs that run side by side

Several programs share one state, and between any two calls of one of them the others make any
number of theirs.  What a thread knows of the shared state must survive that: each thread `i` has a
*rely* `R i`, a preorder that the others keep to, and in return each of its own calls keeps to the
rely of every other thread.

`rg` is the judgement: started anywhere the rely leads from `s`, the program keeps to the others'
relies, meets `J` until it ends, and ends in `Q`.  It survives the others'
steps (`rg_stable`) and a thread's own (`rg_call_step`), which is all that a run of interleaved
threads consists of.
-/

namespace Effect

/-- What each thread may rely on about the steps of the others. -/
structure Rely (ι S : Type) where
  rel : ι → S → S → Prop
  refl : ∀ i s, rel i s s
  trans : ∀ {i a b c}, rel i a b → rel i b c → rel i a c

namespace Prog

variable {I : Interface} {S ι α β : Type}

/-- The judgement for the program of thread `i`. -/
def rg (O : Outcomes I S) (R : Rely ι S) (i : ι) (J : S → Prop) :
    Prog I α → (α → S → Prop) → S → Prop
  | ret a, Q, s => ∀ s₁, R.rel i s s₁ → Q a s₁
  | call c k, Q, s => ∀ s₁, R.rel i s s₁ → J s₁ ∧ ∀ r s₂, O c s₁ r s₂ →
      (∀ j, j ≠ i → R.rel j s₁ s₂) ∧ rg O R i J (k r) Q s₂
  | mark _ k, Q, s => ∀ s₁, R.rel i s s₁ → J s₁ ∧ rg O R i J k Q s₁
  | spin, _, s => ∀ s₁, R.rel i s s₁ → J s₁

variable {O : Outcomes I S} {R : Rely ι S} {i : ι} {J : S → Prop}

/-- Steps of the others do not disturb it. -/
lemma rg_stable {p : Prog I α} {Q : α → S → Prop} {s s₁ : S} (h : rg O R i J p Q s)
    (hs : R.rel i s s₁) : rg O R i J p Q s₁ := by
  induction p with
  | ret a => exact fun s₂ h₂ => h s₂ (R.trans hs h₂)
  | call c k => exact fun s₂ h₂ => h s₂ (R.trans hs h₂)
  | mark m k => exact fun s₂ h₂ => h s₂ (R.trans hs h₂)
  | spin => exact fun s₂ h₂ => h s₂ (R.trans hs h₂)

/-- A call that is due: where the thread is, what its step does to the others, and how it goes
on. -/
lemma rg_call_step {c : I.Call} {k : I.Ret c → Prog I α} {Q : α → S → Prop} {s : S}
    (h : rg O R i J (call c k) Q s) :
    J s ∧ ∀ r s', O c s r s' → (∀ j, j ≠ i → R.rel j s s') ∧ rg O R i J (k r) Q s' :=
  h s (R.refl i s)

/-- Until the program ends, `J` holds. -/
lemma rg_now {p : Prog I α} {Q : α → S → Prop} {s : S} (h : rg O R i J p Q s) :
    (∃ a, p = ret a) ∨ J s := by
  cases p with
  | ret a => exact .inl ⟨a, rfl⟩
  | call c k => exact .inr (h s (R.refl i s)).1
  | mark m k => exact .inr (h s (R.refl i s)).1
  | spin => exact .inr (h s (R.refl i s))

lemma rg_bind {p : Prog I α} {f : α → Prog I β} {P : α → S → Prop} {Q : β → S → Prop} {s : S}
    (hp : rg O R i J p P s) (hf : ∀ a s', P a s' → rg O R i J (f a) Q s') :
    rg O R i J (p.bind f) Q s := by
  induction p generalizing s with
  | ret a => exact hf a s (hp s (R.refl i s))
  | call c k ih =>
    intro s₁ h₁
    obtain ⟨hJ, hk⟩ := hp s₁ h₁
    exact ⟨hJ, fun r s₂ hr => ⟨(hk r s₂ hr).1, ih r (hk r s₂ hr).2⟩⟩
  | mark m k ih => exact fun s₁ h₁ => ⟨(hp s₁ h₁).1, ih (hp s₁ h₁).2⟩
  | spin => exact hp

end Prog

namespace Act

variable {I : Interface} {σ ε S ι α β : Type} {O : Prog.Outcomes I S} {R : Rely ι S} {i : ι}
  {J : S → Prop}

/-- `Prog.rg` for actions. -/
def rg (O : Prog.Outcomes I S) (R : Rely ι S) (i : ι) (J : S → Prop) (m : Act I σ ε α)
    (Q : Post σ ε S α) (s : σ) (w : S) : Prop :=
  Prog.rg O R i J (m s) (fun r w' => Q r.1 r.2 w') w

lemma rg_pure {a : α} {Q : Post σ ε S α} {s : σ} {w : S}
    (h : ∀ w', R.rel i w w' → Q (.ok a) s w') : rg O R i J (pure a) Q s w := h

lemma rg_fail {e : ε} {Q : Post σ ε S α} {s : σ} {w : S}
    (h : ∀ w', R.rel i w w' → Q (.error e) s w') : rg O R i J (fail e) Q s w := h

/-- A call and what follows it. -/
lemma rg_perform_bind {c : I.Call} {f : I.Ret c → Act I σ ε α} {Q : Post σ ε S α} {s : σ} {w : S}
    (h : ∀ w', R.rel i w w' → J w' ∧ ∀ r w'', O c w' r w'' →
      (∀ j, j ≠ i → R.rel j w' w'') ∧ rg O R i J (f r) Q s w'') :
    rg O R i J (perform c >>= f) Q s w := h

lemma rg_bind {m : Act I σ ε α} {f : α → Act I σ ε β} {P : Post σ ε S α} {Q : Post σ ε S β} {s : σ}
    {w : S} (hm : rg O R i J m P s w) (hf : ∀ a s' w', P (.ok a) s' w' → rg O R i J (f a) Q s' w')
    (he : ∀ e s' w', P (.error e) s' w' → ∀ w'', R.rel i w' w'' → Q (.error e) s' w'') :
    rg O R i J (m >>= f) Q s w := by
  refine Prog.rg_bind hm ?_
  rintro ⟨e | a, s'⟩ w' hP
  · exact he e s' w' hP
  · exact hf a s' w' hP

end Act

end Effect
