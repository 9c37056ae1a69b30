import Mathlib.Algebra.Ring.Nat
import Mathlib.Tactic.Common
import Mathlib.Tactic.Lemma

/-!
# Programs over an interface of calls, and the judgements about them

A *program* is a tree of calls to an environment, each followed by what the program does with
the answer.  It is data, so one program text can be read in several ways: completed without a
failure (`run`), with every answer chosen from a relation (`Exec`), or cut off by a crash
inside a call (`crash`).  Nothing here knows what the calls are.

Two constructors are not calls.  `mark` leaves a trace event for a specification to speak
about and does nothing else, so that a condition can be put on every visit of a program point
(`MarksOk`).  `spin` is a loop that has not ended within the fuel it was given: such a
program has no outcome.

`wp` and `wpc` are the two weakest preconditions.  `wp` speaks about the outcomes under a
relation of answers, and about every state on the way (`J`); `wpc` speaks about one
deterministic environment, in which the program has to finish, and about every state in which a
crash can leave it.  Both are computed by recursion on the tree, so the rules below are
equations, and `wp_bind` and `wpc_bind` make them compositional.  A crash is a call that fails
half way, so `wp` covers crashes too (`wp_crash`).
-/

namespace Effect

/-- The calls a program can make, their answers, and the trace events it can leave. -/
structure Interface where
  /-- The calls. -/
  Call : Type
  /-- What a call answers. -/
  Ret : Call → Type
  /-- Trace events. -/
  Mark : Type

/-- Programs over an interface. -/
inductive Prog (I : Interface) (α : Type) : Type
  /-- Finish with a result. -/
  | ret (a : α)
  /-- Make a call and go on with its answer. -/
  | call (c : I.Call) (k : I.Ret c → Prog I α)
  /-- Leave a trace event and go on. -/
  | mark (m : I.Mark) (k : Prog I α)
  /-- A loop that has used up its fuel. -/
  | spin

namespace Prog

variable {I : Interface} {S α β γ : Type}

/-- Run `p`, then `f` on its result. -/
def bind : Prog I α → (α → Prog I β) → Prog I β
  | ret a, f => f a
  | call c k, f => call c fun r => (k r).bind f
  | mark m k, f => mark m (k.bind f)
  | spin, _ => spin

@[simp] lemma ret_bind (a : α) (f : α → Prog I β) : (ret a).bind f = f a := rfl

@[simp] lemma bind_ret (p : Prog I α) : p.bind ret = p := by
  induction p with
  | ret a => rfl
  | call c k ih => simp only [bind, ih]
  | mark m k ih => rw [bind, ih]
  | spin => rfl

lemma bind_assoc (p : Prog I α) (f : α → Prog I β) (g : β → Prog I γ) :
    (p.bind f).bind g = p.bind fun a => (f a).bind g := by
  induction p with
  | ret a => rfl
  | call c k ih => simp only [bind, ih]
  | mark m k ih => simp only [bind, ih]
  | spin => rfl

/-! ## Outcomes -/

/-- The answers and next states an environment allows for each call. -/
abbrev Outcomes (I : Interface) (S : Type) := (c : I.Call) → S → I.Ret c → S → Prop

/-- A deterministic environment. -/
abbrev Handler (I : Interface) (S : Type) := (c : I.Call) → S → I.Ret c × S

/-- A deterministic environment, as the relation it is. -/
def Handler.outcomes (h : Handler I S) : Outcomes I S := fun c s r s' => h c s = (r, s')

/-- `p` may finish from `s` with `a` in `s'`, every answer being allowed by `O` and every
trace event meeting `A`. -/
def Exec (O : Outcomes I S) (A : I.Mark → S → Prop) : Prog I α → S → α → S → Prop
  | ret a, s, b, s' => b = a ∧ s' = s
  | call c k, s, b, s' => ∃ r s₁, O c s r s₁ ∧ Exec O A (k r) s₁ b s'
  | mark m k, s, b, s' => A m s ∧ Exec O A k s b s'
  | spin, _, _, _ => False

/-- Run `p` in a deterministic environment. -/
def run (h : Handler I S) : Prog I α → S → Option (α × S)
  | ret a, s => some (a, s)
  | call c k, s => run h (k (h c s).1) (h c s).2
  | mark _ k, s => run h k s
  | spin, _ => none

/-- Every trace event on the way of `p` from `s` meets `A`. -/
def MarksOk (h : Handler I S) (A : I.Mark → S → Prop) : Prog I α → S → Prop
  | ret _, _ => True
  | call c k, s => MarksOk h A (k (h c s).1) (h c s).2
  | mark m k, s => A m s ∧ MarksOk h A k s
  | spin, _ => True

lemma marksOk_true (h : Handler I S) (p : Prog I α) (s : S) : MarksOk h (fun _ _ => True) p s := by
  induction p generalizing s with
  | ret a => trivial
  | call c k ih => exact ih _ _
  | mark m k ih => exact ⟨trivial, ih s⟩
  | spin => trivial

/-- The trace events of `p` are in `M`, whatever the answers. -/
def MarksIn (M : I.Mark → Prop) : Prog I α → Prop
  | ret _ => True
  | call _ k => ∀ r, MarksIn M (k r)
  | mark m k => M m ∧ MarksIn M k
  | spin => True

lemma MarksIn.bind {M : I.Mark → Prop} {p : Prog I α} {f : α → Prog I β} (hp : p.MarksIn M)
    (hf : ∀ a, (f a).MarksIn M) : (p.bind f).MarksIn M := by
  induction p with
  | ret a => exact hf a
  | call c k ih => exact fun r => ih r (hp r)
  | mark m k ih => exact ⟨hp.1, ih hp.2⟩
  | spin => trivial

lemma MarksIn.marksOk {M : I.Mark → Prop} {p : Prog I α} (hp : p.MarksIn M) (h : Handler I S)
    {A : I.Mark → S → Prop} (hA : ∀ m s, M m → A m s) (s : S) : MarksOk h A p s := by
  induction p generalizing s with
  | ret a => trivial
  | call c k ih => exact ih _ (hp _) _
  | mark m k ih => exact ⟨hA m s hp.1, ih hp.2 s⟩
  | spin => trivial

lemma run_bind (h : Handler I S) (p : Prog I α) (f : α → Prog I β) (s : S) :
    run h (p.bind f) s = (run h p s).bind fun r => run h (f r.1) r.2 := by
  induction p generalizing s with
  | ret a => rfl
  | call c k ih => exact ih _ _
  | mark m k ih => exact ih _
  | spin => rfl

/-- In a deterministic environment the only outcome is the one `run` computes. -/
lemma exec_outcomes_iff (h : Handler I S) (A : I.Mark → S → Prop) (p : Prog I α) (s : S)
    (a : α) (s' : S) :
    Exec h.outcomes A p s a s' ↔ run h p s = some (a, s') ∧ MarksOk h A p s := by
  induction p generalizing s with
  | ret b =>
    simp only [Exec, run, MarksOk, and_true, Option.some.injEq, Prod.mk.injEq]
    exact ⟨fun ⟨ha, hs⟩ => ⟨ha.symm, hs.symm⟩, fun ⟨ha, hs⟩ => ⟨ha.symm, hs.symm⟩⟩
  | call c k ih =>
    simp only [Exec, run, MarksOk]
    constructor
    · rintro ⟨r, s₁, hr, hk⟩
      rw [show h c s = (r, s₁) from hr]
      exact (ih r s₁).1 hk
    · intro hk
      exact ⟨(h c s).1, (h c s).2, rfl, (ih _ _).2 hk⟩
  | mark m k ih =>
    simp only [Exec, run, MarksOk, ih]
    tauto
  | spin => simp [Exec, run]

/-- An environment that allows more has more executions. -/
lemma exec_mono {O O' : Outcomes I S} (h : ∀ c s r s', O c s r s' → O' c s r s')
    {A : I.Mark → S → Prop} {p : Prog I α} {s : S} {a : α} {s' : S} (he : Exec O A p s a s') :
    Exec O' A p s a s' := by
  induction p generalizing s with
  | ret b => exact he
  | call c k ih =>
    obtain ⟨r, s₁, hr, hk⟩ := he
    exact ⟨r, s₁, h c s r s₁ hr, ih r hk⟩
  | mark m k ih => exact ⟨he.1, ih he.2⟩
  | spin => exact he

lemma exec_marks {O : Outcomes I S} {A A' : I.Mark → S → Prop} (h : ∀ m s, A m s → A' m s)
    {p : Prog I α} {s : S} {a : α} {s' : S} (he : Exec O A p s a s') : Exec O A' p s a s' := by
  induction p generalizing s with
  | ret b => exact he
  | call c k ih =>
    obtain ⟨r, s₁, hr, hk⟩ := he
    exact ⟨r, s₁, hr, ih r hk⟩
  | mark m k ih => exact ⟨h m s he.1, ih he.2⟩
  | spin => exact he

/-- Only the trace events that `p` can leave have to meet `A`. -/
lemma MarksIn.exec {M : I.Mark → Prop} {O : Outcomes I S} {A : I.Mark → S → Prop} {p : Prog I α}
    (hp : p.MarksIn M) {s : S} {a : α} {s' : S} (he : Exec O A p s a s') :
    Exec O (fun m s => A m s ∧ M m) p s a s' := by
  induction p generalizing s with
  | ret b => exact he
  | call c k ih =>
    obtain ⟨r, s₁, hr, hk⟩ := he
    exact ⟨r, s₁, hr, ih r (hp r) hk⟩
  | mark m k ih => exact ⟨⟨he.1, hp.1⟩, ih hp.2 he.2⟩
  | spin => exact he

/-- Execution composes along `bind`. -/
lemma exec_bind (O : Outcomes I S) (A : I.Mark → S → Prop) (p : Prog I α) (f : α → Prog I β)
    (s : S) (b : β) (s' : S) :
    Exec O A (p.bind f) s b s' ↔ ∃ a s₁, Exec O A p s a s₁ ∧ Exec O A (f a) s₁ b s' := by
  induction p generalizing s with
  | ret a =>
    constructor
    · intro h
      exact ⟨a, s, ⟨rfl, rfl⟩, h⟩
    · rintro ⟨_, _, ⟨rfl, rfl⟩, h⟩
      exact h
  | call c k ih =>
    constructor
    · rintro ⟨r, s₁, hr, h⟩
      obtain ⟨a, s₂, h1, h2⟩ := (ih r s₁).1 h
      exact ⟨a, s₂, ⟨r, s₁, hr, h1⟩, h2⟩
    · rintro ⟨a, s₂, ⟨r, s₁, hr, h1⟩, h2⟩
      exact ⟨r, s₁, hr, (ih r s₁).2 ⟨a, s₂, h1, h2⟩⟩
  | mark m k ih =>
    constructor
    · rintro ⟨hm, h⟩
      obtain ⟨a, s₂, h1, h2⟩ := (ih s).1 h
      exact ⟨a, s₂, ⟨hm, h1⟩, h2⟩
    · rintro ⟨a, s₂, ⟨hm, h1⟩, h2⟩
      exact ⟨hm, (ih s).2 ⟨a, s₂, h1, h2⟩⟩
  | spin =>
    constructor
    · intro h
      exact h.elim
    · rintro ⟨_, _, h, _⟩
      exact h.elim

/-! ## Crashes -/

/-- An environment in which a crash can happen: its deterministic behaviour, the calls that
change what survives a crash, and what the first `n` units of such a call leave behind. -/
structure Crashing (I : Interface) (S : Type) where
  /-- The completed calls. -/
  handler : Handler I S
  /-- Calls that change the surviving state. -/
  mutates : I.Call → Bool
  /-- The state left when the call stops after `n` units, if it can stop there. -/
  torn : I.Call → ℕ → S → Option S

/-- The state in which a crash leaves `p` started in `s`: after `k` completed mutating calls
and, when `j = some n`, `n` units of the next one.  `none` when `p` has no such point. -/
def crash (C : Crashing I S) : Prog I α → S → ℕ → Option ℕ → Option S
  | ret _, s, k, j => if k = 0 ∧ j = none then some s else none
  | call c p, s, k, j =>
    if C.mutates c then
      match k with
      | 0 => match j with
        | none => some s
        | some n => C.torn c n s
      | k + 1 => crash C (p (C.handler c s).1) (C.handler c s).2 k j
    else crash C (p (C.handler c s).1) (C.handler c s).2 k j
  | mark _ p, s, k, j => crash C p s k j
  | spin, s, k, j => if k = 0 ∧ j = none then some s else none

/-- Every trace event that `p` leaves before its mutating call number `k` meets `A`. -/
def MarksBefore (C : Crashing I S) (A : I.Mark → S → Prop) : Prog I α → S → ℕ → Prop
  | ret _, _, _ => True
  | call c p, s, k =>
    if C.mutates c then
      match k with
      | 0 => True
      | k + 1 => MarksBefore C A (p (C.handler c s).1) (C.handler c s).2 k
    else MarksBefore C A (p (C.handler c s).1) (C.handler c s).2 k
  | mark m p, s, k => A m s ∧ MarksBefore C A p s k
  | spin, _, _ => True

/-- What meets `A` on the whole way, meets it before a crash. -/
lemma MarksOk.before {C : Crashing I S} {A : I.Mark → S → Prop} {p : Prog I α} {s : S}
    (h : MarksOk C.handler A p s) (k : ℕ) : MarksBefore C A p s k := by
  induction p generalizing s k with
  | ret a => trivial
  | call c p ih =>
    unfold MarksBefore
    split
    · cases k with
      | zero => trivial
      | succ k => exact ih _ h k
    · exact ih _ h k
  | mark m p ih => exact ⟨h.1, ih h.2 k⟩
  | spin => trivial

/-- A crash of a sequence is one of its first part, or of its second part after the first has
finished. -/
lemma crash_bind {C : Crashing I S} {A : I.Mark → S → Prop} {p : Prog I α} {f : α → Prog I β}
    {s s' : S} {k : ℕ} {j : Option ℕ} (hm : MarksBefore C A (p.bind f) s k)
    (h : crash C (p.bind f) s k j = some s') :
    (MarksBefore C A p s k ∧ crash C p s k j = some s') ∨
      ∃ a s₁ k₁, Exec C.handler.outcomes A p s a s₁ ∧ MarksBefore C A (f a) s₁ k₁ ∧
        crash C (f a) s₁ k₁ j = some s' := by
  induction p generalizing s k with
  | ret a => exact .inr ⟨a, s, k, ⟨rfl, rfl⟩, hm, h⟩
  | call c p ih =>
    have hgo : ∀ {k₁}, MarksBefore C A ((p (C.handler c s).1).bind f) (C.handler c s).2 k₁ →
        crash C ((p (C.handler c s).1).bind f) (C.handler c s).2 k₁ j = some s' →
        (MarksBefore C A (p (C.handler c s).1) (C.handler c s).2 k₁ ∧
          crash C (p (C.handler c s).1) (C.handler c s).2 k₁ j = some s') ∨
        ∃ a s₁ k₂, Exec C.handler.outcomes A (call c p) s a s₁ ∧ MarksBefore C A (f a) s₁ k₂ ∧
          crash C (f a) s₁ k₂ j = some s' := by
      intro k₁ hm h
      obtain hl | ⟨a, s₁, k₂, he, hr⟩ := ih _ hm h
      · exact .inl hl
      · exact .inr ⟨a, s₁, k₂, ⟨_, _, rfl, he⟩, hr⟩
    simp only [bind, crash, MarksBefore] at hm h ⊢
    by_cases hmut : C.mutates c = true
    · rw [if_pos hmut] at hm h ⊢
      rw [if_pos hmut]
      cases k with
      | zero => exact .inl ⟨trivial, h⟩
      | succ k => exact hgo hm h
    · rw [if_neg hmut] at hm h ⊢
      rw [if_neg hmut]
      exact hgo hm h
  | mark m p ih =>
    obtain ⟨hmark, hm⟩ := hm
    obtain ⟨hl, hc⟩ | ⟨a, s₁, k₁, he, hr⟩ := ih hm h
    · exact .inl ⟨⟨hmark, hl⟩, hc⟩
    · exact .inr ⟨a, s₁, k₁, ⟨hmark, he⟩, hr⟩
  | spin => exact .inl ⟨hm, h⟩

/-! ## Weakest preconditions -/

/-- Every outcome of `p` from `s` whose trace events meet `A` satisfies `Q`, and `J` holds of
every state on the way. -/
def wp (O : Outcomes I S) (A : I.Mark → S → Prop) (J : S → Prop) : Prog I α → (α → S → Prop) →
    S → Prop
  | ret a, Q, s => Q a s
  | call c k, Q, s => J s ∧ ∀ r s', O c s r s' → wp O A J (k r) Q s'
  | mark m k, Q, s => J s ∧ (A m s → wp O A J k Q s)
  | spin, _, s => J s

/-- The crash-aware precondition: `J` holds of every state a crash can leave, and `Q` of the
outcome. -/
def wpc (C : Crashing I S) (A : I.Mark → S → Prop) (Z : Prop) (J : S → Prop) :
    Prog I α → (α → S → Prop) → S → Prop
  | ret a, Q, s => Q a s
  | call c k, Q, s =>
    (C.mutates c = true → J s ∧ ∀ n s', C.torn c n s = some s' → J s') ∧
      wpc C A Z J (k (C.handler c s).1) Q (C.handler c s).2
  | mark m k, Q, s => A m s → wpc C A Z J k Q s
  | spin, _, s => J s ∧ Z

section Rules

variable {O : Outcomes I S} {C : Crashing I S} {A : I.Mark → S → Prop} {Z : Prop}
  {J : S → Prop}

@[simp] lemma wp_ret (a : α) (Q : α → S → Prop) (s : S) : wp O A J (ret a) Q s = Q a s := rfl

lemma wp_bind (p : Prog I α) (f : α → Prog I β) (Q : β → S → Prop) (s : S) :
    wp O A J (p.bind f) Q s ↔ wp O A J p (fun a s' => wp O A J (f a) Q s') s := by
  induction p generalizing s with
  | ret a => rfl
  | call c k ih =>
    exact and_congr_right fun _ => forall₂_congr fun r s' => imp_congr_right fun _ => ih r s'
  | mark m k ih => exact and_congr_right fun _ => imp_congr_right fun _ => ih s
  | spin => rfl

lemma wp_mono {p : Prog I α} {Q Q' : α → S → Prop} {J' : S → Prop} {s : S} (h : wp O A J p Q s)
    (hJ : ∀ s', J s' → J' s') (hQ : ∀ a s', Q a s' → Q' a s') : wp O A J' p Q' s := by
  induction p generalizing s with
  | ret a => exact hQ a s h
  | call c k ih => exact ⟨hJ s h.1, fun r s' hr => ih r (h.2 r s' hr)⟩
  | mark m k ih => exact ⟨hJ s h.1, fun hm => ih (h.2 hm)⟩
  | spin => exact hJ s h

/-- Soundness of `wp`: it speaks about every execution. -/
lemma wp_sound {p : Prog I α} {Q : α → S → Prop} {s : S} (h : wp O A J p Q s) {a : α} {s' : S}
    (he : Exec O A p s a s') : Q a s' := by
  induction p generalizing s with
  | ret b =>
    obtain ⟨rfl, rfl⟩ := he
    exact h
  | call c k ih =>
    obtain ⟨r, s₁, hr, hk⟩ := he
    exact ih r (h.2 r s₁ hr) hk
  | mark m k ih => exact ih (h.2 he.1) he.2
  | spin => exact he.elim

/-- Conversely, what holds of every execution is a precondition. -/
lemma wp_complete {p : Prog I α} {Q : α → S → Prop} {s : S}
    (h : ∀ a s', Exec O A p s a s' → Q a s') : wp O A (fun _ => True) p Q s := by
  induction p generalizing s with
  | ret a => exact h a s ⟨rfl, rfl⟩
  | call c k ih => exact ⟨trivial, fun r s₁ hr => ih r fun a s' he => h a s' ⟨r, s₁, hr, he⟩⟩
  | mark m k ih => exact ⟨trivial, fun hm => ih fun a s' he => h a s' ⟨hm, he⟩⟩
  | spin => trivial

/-- The state on the way that is there already. -/
lemma wp_now {p : Prog I α} {Q : α → S → Prop} {s : S} (h : wp O A J p Q s)
    (hQ : ∀ a s', Q a s' → J s') : J s := by
  cases p with
  | ret a => exact hQ a s h
  | call c k => exact h.1
  | mark m k => exact h.1
  | spin => exact h

/-- A crash is a call that fails half way: where the calls may fail so, the states that crashes
leave satisfy `J`. -/
lemma wp_crash (hO : ∀ c s, O c s (C.handler c s).1 (C.handler c s).2)
    (ht : ∀ c n s s', C.torn c n s = some s' → ∃ r, O c s r s') {p : Prog I α}
    {Q : α → S → Prop} {s : S} (h : wp O A J p Q s) (hQ : ∀ a s', Q a s' → J s') {k : ℕ}
    {j : Option ℕ} {s' : S} (hm : MarksBefore C A p s k) (hc : crash C p s k j = some s') :
    J s' := by
  induction p generalizing s k with
  | ret a =>
    simp only [crash] at hc
    split at hc
    · obtain rfl := Option.some.inj hc
      exact hQ a _ h
    · cases hc
  | call c p ih =>
    simp only [crash] at hc
    simp only [MarksBefore] at hm
    have hnext := h.2 _ _ (hO c s)
    by_cases hmut : C.mutates c = true
    · rw [if_pos hmut] at hc hm
      cases k with
      | zero =>
        cases j with
        | none =>
          obtain rfl := Option.some.inj hc
          exact h.1
        | some n =>
          obtain ⟨r, hr⟩ := ht c n s s' hc
          exact wp_now (h.2 r s' hr) hQ
      | succ k => exact ih _ hnext hm hc
    · rw [if_neg hmut] at hc hm
      exact ih _ hnext hm hc
  | mark m p ih => exact ih (h.2 hm.1) hm.2 hc
  | spin =>
    simp only [crash] at hc
    split at hc
    · obtain rfl := Option.some.inj hc
      exact h
    · cases hc

/-- The same where a call that is cut off may also fail without effect.  A crash leaves a state on
the way or the outcome of the whole program, or the program ends at once, with the same answer,
after the call that was cut off and after one that failed without effect. -/
lemma wp_crash_cases (hO : ∀ c s, O c s (C.handler c s).1 (C.handler c s).2)
    (ht : ∀ c n s s', C.torn c n s = some s' → ∃ r, O c s r s' ∧ O c s r s) {p : Prog I α}
    {Q : α → S → Prop} {s : S} (h : wp O A J p Q s) {k : ℕ} {j : Option ℕ} {s' : S}
    (hm : MarksBefore C A p s k) (hc : crash C p s k j = some s') :
    J s' ∨ (∃ a, Exec C.handler.outcomes A p s a s') ∨ ∃ a s₁, J s₁ ∧ Q a s₁ ∧ Q a s' := by
  induction p generalizing s k with
  | ret a =>
    simp only [crash] at hc
    split at hc
    · obtain rfl := Option.some.inj hc
      exact .inr (.inl ⟨a, rfl, rfl⟩)
    · cases hc
  | call c p ih =>
    have hnext := h.2 _ _ (hO c s)
    have hgo : ∀ {k₁}, MarksBefore C A (p (C.handler c s).1) (C.handler c s).2 k₁ →
        crash C (p (C.handler c s).1) (C.handler c s).2 k₁ j = some s' →
        J s' ∨ (∃ a, Exec C.handler.outcomes A (call c p) s a s') ∨
          ∃ a s₁, J s₁ ∧ Q a s₁ ∧ Q a s' := by
      intro k₁ hm hc
      obtain hJ | ⟨a, he⟩ | hends := ih _ hnext hm hc
      · exact .inl hJ
      · exact .inr (.inl ⟨a, _, _, rfl, he⟩)
      · exact .inr (.inr hends)
    simp only [crash] at hc
    simp only [MarksBefore] at hm
    by_cases hmut : C.mutates c = true
    · rw [if_pos hmut] at hc hm
      cases k with
      | zero =>
        cases j with
        | none =>
          obtain rfl := Option.some.inj hc
          exact .inl h.1
        | some n =>
          obtain ⟨r, hr, hr₀⟩ := ht c n s s' hc
          have hcut := h.2 r s' hr
          have hfailed := h.2 r s hr₀
          cases hp : p r with
          | ret a =>
            rw [hp] at hcut hfailed
            exact .inr (.inr ⟨a, s, h.1, hfailed, hcut⟩)
          | call | mark =>
            rw [hp] at hcut
            exact .inl hcut.1
          | spin =>
            rw [hp] at hcut
            exact .inl hcut
      | succ k => exact hgo hm hc
    · rw [if_neg hmut] at hc hm
      exact hgo hm hc
  | mark m p ih =>
    obtain hJ | ⟨a, he⟩ | hends := ih (h.2 hm.1) hm.2 hc
    · exact .inl hJ
    · exact .inr (.inl ⟨a, hm.1, he⟩)
    · exact .inr (.inr hends)
  | spin =>
    simp only [crash] at hc
    split at hc
    · obtain rfl := Option.some.inj hc
      exact .inl h
    · cases hc

/-- The trace events on the way are left in states that satisfy `J`. -/
lemma wp_marksBefore (hO : ∀ c s, O c s (C.handler c s).1 (C.handler c s).2) {p : Prog I α}
    {Q : α → S → Prop} {s : S} (h : wp O A J p Q s) {k : ℕ} (hm : MarksBefore C A p s k) :
    MarksBefore C (fun m s => A m s ∧ J s) p s k := by
  induction p generalizing s k with
  | ret a => trivial
  | call c p ih =>
    have hnext := h.2 _ _ (hO c s)
    unfold MarksBefore at hm ⊢
    by_cases hmut : C.mutates c = true
    · rw [if_pos hmut] at hm ⊢
      cases k with
      | zero => trivial
      | succ k => exact ih _ hnext hm
    · rw [if_neg hmut] at hm ⊢
      exact ih _ hnext hm
  | mark m p ih => exact ⟨⟨hm.1, h.1⟩, ih (h.2 hm.1) hm.2⟩
  | spin => trivial

@[simp] lemma wpc_ret (a : α) (Q : α → S → Prop) (s : S) :
    wpc C A Z J (ret a) Q s = Q a s := rfl

lemma wpc_bind (p : Prog I α) (f : α → Prog I β) (Q : β → S → Prop) (s : S) :
    wpc C A Z J (p.bind f) Q s ↔ wpc C A Z J p (fun a s' => wpc C A Z J (f a) Q s') s := by
  induction p generalizing s with
  | ret a => rfl
  | call c k ih => exact and_congr_right fun _ => ih _ _
  | mark m k ih => exact imp_congr_right fun _ => ih s
  | spin => rfl

lemma wpc_mono {p : Prog I α} {Q Q' : α → S → Prop} {J' : S → Prop} {s : S}
    (h : wpc C A Z J p Q s) (hJ : ∀ s', J s' → J' s') (hQ : ∀ a s', Q a s' → Q' a s') :
    wpc C A Z J' p Q' s := by
  induction p generalizing s with
  | ret a => exact hQ a s h
  | call c k ih =>
    exact ⟨fun hc => ⟨hJ _ (h.1 hc).1, fun n s' hs => hJ _ ((h.1 hc).2 n s' hs)⟩, ih _ h.2⟩
  | mark m k ih => exact fun hm => ih (h hm)
  | spin => exact ⟨hJ _ h.1, h.2⟩

/-- The states a crash leaves satisfy `J`, provided the outcomes do. -/
lemma wpc_crash {p : Prog I α} {Q : α → S → Prop} {s : S} (h : wpc C A Z J p Q s)
    (hQ : ∀ a s', Q a s' → J s') {k : ℕ} {j : Option ℕ} {s' : S} (hm : MarksBefore C A p s k)
    (hc : crash C p s k j = some s') : J s' := by
  induction p generalizing s k with
  | ret a =>
    simp only [crash] at hc
    split at hc
    · obtain rfl := Option.some.inj hc
      exact hQ a _ h
    · cases hc
  | call c p ih =>
    simp only [crash] at hc
    simp only [MarksBefore] at hm
    by_cases hmut : C.mutates c = true
    · rw [if_pos hmut] at hc hm
      cases k with
      | zero =>
        cases j with
        | none =>
          obtain rfl := Option.some.inj hc
          exact (h.1 hmut).1
        | some n => exact (h.1 hmut).2 n _ hc
      | succ k => exact ih _ h.2 hm hc
    · rw [if_neg hmut] at hc hm
      exact ih _ h.2 hm hc
  | mark m p ih => exact ih (h hm.1) hm.2 hc
  | spin =>
    simp only [crash] at hc
    split at hc
    · obtain rfl := Option.some.inj hc
      exact h.1
    · cases hc

/-- The outcome satisfies `Q`. -/
lemma wpc_run {p : Prog I α} {Q : α → S → Prop} {s : S} (h : wpc C A Z J p Q s)
    (hm : MarksOk C.handler A p s) {a : α} {s' : S} (hr : run C.handler p s = some (a, s')) :
    Q a s' := by
  induction p generalizing s with
  | ret b =>
    obtain ⟨rfl, rfl⟩ := Prod.mk.inj (Option.some.inj hr)
    exact h
  | call c p ih => exact ih _ h.2 hm hr
  | mark m p ih => exact ih (h hm.1) hm.2 hr
  | spin => cases hr

/-- With `Z = False` the program does finish. -/
lemma wpc_total {p : Prog I α} {Q : α → S → Prop} {s : S} (h : wpc C A False J p Q s)
    (hm : MarksOk C.handler A p s) : ∃ a s', run C.handler p s = some (a, s') ∧ Q a s' := by
  induction p generalizing s with
  | ret b => exact ⟨b, s, rfl, h⟩
  | call c p ih => exact ih _ h.2 hm
  | mark m p ih => exact ih (h hm.1) hm.2
  | spin => exact h.2.elim

end Rules

end Prog

end Effect
