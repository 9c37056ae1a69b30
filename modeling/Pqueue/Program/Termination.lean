import Pqueue.Program.Act

/-!
# Counting turns and calls

`Ends` says after how many turns a loop stops.  `Act.Within` says that an action in a
deterministic environment finishes, and with how many calls at most: the counts of two actions add
up along `bind`, and a loop over a list costs what its turns cost.
-/

namespace Effect

/-! ## Loops -/

/-- A loop with the body `turn`, which is over where `turn` has no value: started in `s` it stops
in `u` after `n` turns. -/
inductive Ends {σ : Type} (turn : σ → Option σ) : σ → ℕ → σ → Prop
  | stop {s} (h : turn s = none) : Ends turn s 0 s
  | turn {s t n u} (h : turn s = some t) (he : Ends turn t n u) : Ends turn s (n + 1) u

section Loops

variable {σ : Type} {turn : σ → Option σ} {s : σ}

/-- A loop that can always take a turn does not stop. -/
lemma not_ends {P : σ → Prop} (hturn : ∀ s, P s → ∃ t, turn s = some t ∧ P t) (hs : P s) {n : ℕ}
    {u : σ} : ¬Ends turn s n u := by
  intro h
  induction h with
  | stop h =>
    obtain ⟨t, ht, -⟩ := hturn _ hs
    exact nomatch h.symm.trans ht
  | turn h _ ih =>
    obtain ⟨t, ht, hp⟩ := hturn _ hs
    obtain rfl := Option.some.inj (h.symm.trans ht)
    exact ih hp

/-- Where a loop stops, and when, is determined. -/
lemma Ends.unique {n n' : ℕ} {u u' : σ} (h : Ends turn s n u) (h' : Ends turn s n' u') :
    n = n' ∧ u = u' := by
  induction h generalizing n' with
  | stop h =>
    cases h' with
    | stop => exact ⟨rfl, rfl⟩
    | turn ht => exact nomatch h.symm.trans ht
  | turn h _ ih =>
    cases h' with
    | stop ht => exact nomatch ht.symm.trans h
    | turn ht he =>
      obtain rfl := Option.some.inj (h.symm.trans ht)
      obtain ⟨rfl, rfl⟩ := ih he
      exact ⟨rfl, rfl⟩

end Loops

/-! ## Calls -/

section Calls

variable {I : Interface} {S σ ε α β : Type} {h : Prog.Handler I S}

/-- The calls that `p` makes from `s`. -/
def Prog.calls (h : Prog.Handler I S) : Prog I α → S → ℕ
  | ret _, _ => 0
  | call c k, s => calls h (k (h c s).1) (h c s).2 + 1
  | mark _ k, s => calls h k s
  | spin, _ => 0

lemma Prog.calls_bind {p : Prog I α} {f : α → Prog I β} {s s' : S} {a : α}
    (hr : run h p s = some (a, s')) : calls h (p.bind f) s = calls h p s + calls h (f a) s' := by
  induction p generalizing s with
  | ret b =>
    obtain ⟨rfl, rfl⟩ := Prod.mk.inj (Option.some.inj hr)
    exact (Nat.zero_add _).symm
  | call c k ih =>
    have := ih _ hr
    simp only [calls, bind]
    omega
  | mark m k ih => exact ih hr
  | spin => cases hr

namespace Act

/-- `m` finishes with at most `n` calls, and its outcome satisfies `Q`. -/
def Within (h : Prog.Handler I S) (n : ℕ) (m : Act I σ ε α) (Q : Post σ ε S α) (s : σ) (w : S) :
    Prop :=
  ∃ r s' w', Prog.run h (m s) w = some ((r, s'), w') ∧ Prog.calls h (m s) w ≤ n ∧ Q r s' w'

/-- `m` does not finish. -/
def Diverges (h : Prog.Handler I S) (m : Act I σ ε α) (s : σ) (w : S) : Prop :=
  Prog.run h (m s) w = none

section Rules

variable {n k : ℕ} {Q : Post σ ε S α} {s : σ} {w : S}

lemma Within.mono {m : Act I σ ε α} {Q' : Post σ ε S α} (hm : Within h n m Q s w) (hn : n ≤ k)
    (hQ : ∀ r s' w', Q r s' w' → Q' r s' w') : Within h k m Q' s w := by
  obtain ⟨r, s', w', hr, hc, hq⟩ := hm
  exact ⟨r, s', w', hr, Nat.le_trans hc hn, hQ r s' w' hq⟩

lemma within_pure {a : α} (hQ : Q (.ok a) s w) : Within h n (pure a) Q s w :=
  ⟨_, _, _, rfl, Nat.zero_le _, hQ⟩

lemma within_fail {e : ε} (hQ : Q (.error e) s w) : Within h n (fail e) Q s w :=
  ⟨_, _, _, rfl, Nat.zero_le _, hQ⟩

lemma within_perform {c : I.Call} {Q : Post σ ε S (I.Ret c)}
    (hQ : Q (.ok (h c w).1) s (h c w).2) : Within h 1 (perform c) Q s w :=
  ⟨_, _, _, rfl, Nat.le_refl _, hQ⟩

/-- The calls of two actions in a row add up. -/
lemma within_bind {m : Act I σ ε α} {f : α → Act I σ ε β} {Q : Post σ ε S β}
    (hm : Within h n m (andThen (fun a s w => Within h k (f a) Q s w) Q) s w) :
    Within h (n + k) (m >>= f) Q s w := by
  obtain ⟨r, s', w', hr, hc, hq⟩ := hm
  have hrun : ∀ {p}, step f (r, s') = p → Prog.run h ((m >>= f) s) w = Prog.run h p w' := by
    intro p hp
    show Prog.run h ((m s).bind (step f)) w = _
    rw [Prog.run_bind, hr, ← hp]
    rfl
  have hcalls : Prog.calls h ((m >>= f) s) w =
      Prog.calls h (m s) w + Prog.calls h (step f (r, s')) w' := Prog.calls_bind hr
  cases r with
  | ok a =>
    obtain ⟨r', s'', w'', hr', hc', hq'⟩ := hq
    refine ⟨r', s'', w'', (hrun rfl).trans hr', ?_, hq'⟩
    rw [hcalls]
    exact Nat.add_le_add hc hc'
  | error e =>
    refine ⟨.error e, s', w', hrun rfl, ?_, hq⟩
    rw [hcalls]
    exact Nat.le_add_right_of_le hc

lemma within_get_bind {f : σ → Act I σ ε β} {Q : Post σ ε S β} (hf : Within h n (f s) Q s w) :
    Within h n (get >>= f) Q s w := by
  obtain ⟨r, s', w', hr, hc, hq⟩ := hf
  exact ⟨r, s', w', hr, hc, hq⟩

lemma within_modify_bind {g : σ → σ} {f : Unit → Act I σ ε β} {Q : Post σ ε S β}
    (hf : Within h n (f ()) Q (g s) w) : Within h n (modify g >>= f) Q s w := by
  obtain ⟨r, s', w', hr, hc, hq⟩ := hf
  exact ⟨r, s', w', hr, hc, hq⟩

lemma within_modify {g : σ → σ} {Q : Post σ ε S Unit} (hQ : Q (.ok ()) (g s) w) :
    Within h n (modify g) Q s w :=
  ⟨_, _, _, rfl, Nat.zero_le _, hQ⟩

/-- The outcome of an action that finishes. -/
lemma Within.run {m : Act I σ ε α} (hm : Within h n m Q s w) {r : Except ε α} {s' : σ} {w' : S}
    (hr : Prog.run h (m s) w = some ((r, s'), w')) : Q r s' w' := by
  obtain ⟨r', t, v, hr', -, hq⟩ := hm
  obtain ⟨hrt, rfl⟩ := Prod.mk.inj (Option.some.inj (hr'.symm.trans hr))
  obtain ⟨rfl, rfl⟩ := Prod.mk.inj hrt
  exact hq

lemma diverges_spin : Diverges h (spin : Act I σ ε α) s w := rfl

lemma Diverges.bind {m : Act I σ ε α} {f : α → Act I σ ε β} (hm : Diverges h m s w) :
    Diverges h (m >>= f) s w := by
  show Prog.run h ((m s).bind (step f)) w = none
  rw [Prog.run_bind, show Prog.run h (m s) w = none from hm]
  rfl

/-- An action diverges where what follows a part that finishes diverges. -/
lemma diverges_bind {m : Act I σ ε α} {f : α → Act I σ ε β}
    (hm : Within h n m (fun r s' w' => ∃ a, r = .ok a ∧ Diverges h (f a) s' w') s w) :
    Diverges h (m >>= f) s w := by
  obtain ⟨r, s', w', hr, -, a, rfl, hd⟩ := hm
  show Prog.run h ((m s).bind (step f)) w = none
  rw [Prog.run_bind, hr]
  exact hd

lemma Diverges.not_within {m : Act I σ ε α} (hm : Diverges h m s w) : ¬Within h n m Q s w := by
  rintro ⟨r, s', w', hr, -⟩
  exact nomatch hm.symm.trans hr

end Rules

end Act

end Calls

end Effect
