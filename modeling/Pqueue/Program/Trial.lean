import Pqueue.Program.Prog

/-!
# Trying a program on one input

In a deterministic environment with decidable conditions at its trace events, what a program does
on one input can be computed: `trial` finishes it, `crashTrial` cuts it off.  Each checks the trace
events on its way, and an answer is an execution (`exec_of_trial`) or a crash (`marksBefore_crash`)
of the program.  Steps are tried one after the other by `List.foldlM`, and what each of them keeps
holds at the end (`foldlM_invariant`).
-/

namespace Effect

/-- What every step that does not fail keeps holds where a sequence of them leads. -/
lemma foldlM_invariant {σ β : Type} {P : σ → Prop} {step : σ → β → Option σ} {bs : List β}
    (hstep : ∀ s, ∀ b ∈ bs, ∀ s', P s → step s b = some s' → P s') {s s' : σ} (hs : P s)
    (h : bs.foldlM step s = some s') : P s' := by
  induction bs generalizing s with
  | nil =>
    obtain rfl := Option.some.inj h
    exact hs
  | cons b bs ih =>
    rw [List.foldlM_cons] at h
    obtain ⟨s₁, h₁, h⟩ := Option.bind_eq_some_iff.1 h
    exact ih (fun s b' hb' => hstep s b' (List.mem_cons_of_mem _ hb'))
      (hstep s b (List.mem_cons_self ..) s₁ hs h₁) h

lemma eq_ok_of_toBool {ε : Type} {r : Except ε Unit} (h : r.toBool = true) : r = .ok () := by
  cases r with
  | error _ => cases h
  | ok _ => rfl

lemma exists_error_of_toBool {ε α : Type} {r : Except ε α} (h : r.toBool = false) :
    ∃ e, r = .error e := by
  cases r with
  | error e => exact ⟨e, rfl⟩
  | ok _ => cases h

namespace Prog

variable {I : Interface} {S α : Type}

section Trial

variable (h : Handler I S) (A : I.Mark → S → Prop) [∀ m s, Decidable (A m s)]

/-- Run `p` as long as its trace events meet `A`. -/
def trial : Prog I α → S → Option (α × S)
  | ret a, s => some (a, s)
  | call c k, s => trial (k (h c s).1) (h c s).2
  | mark m k, s => if A m s then trial k s else none
  | spin, _ => none

variable {h A}

/-- An answer is an execution, in every environment that allows what `h` does in the states with
`P`, from which it leads to such states only. -/
lemma exec_of_trial {O : Outcomes I S} {P : S → Prop}
    (hO : ∀ c s, P s → O c s (h c s).1 (h c s).2 ∧ P (h c s).2) {p : Prog I α} {s s' : S} {a : α}
    (hs : P s) (ht : trial h A p s = some (a, s')) : Exec O A p s a s' := by
  induction p generalizing s with
  | ret b =>
    obtain ⟨rfl, rfl⟩ := Prod.mk.inj (Option.some.inj ht)
    exact ⟨rfl, rfl⟩
  | call c k ih =>
    obtain ⟨hcall, hnext⟩ := hO c s hs
    exact ⟨_, _, hcall, ih _ hnext ht⟩
  | mark m k ih =>
    unfold trial at ht
    split at ht
    · next hm => exact ⟨hm, ih hs ht⟩
    · cases ht
  | spin => cases ht

end Trial

section CrashTrial

variable (C : Crashing I S) (A : I.Mark → S → Prop) [∀ m s, Decidable (A m s)]

/-- `crash`, as long as the trace events before it meet `A`. -/
def crashTrial : Prog I α → S → ℕ → Option ℕ → Option S
  | ret _, s, k, j => if k = 0 ∧ j = none then some s else none
  | call c p, s, k, j =>
    if C.mutates c then
      match k with
      | 0 => match j with
        | none => some s
        | some n => C.torn c n s
      | k + 1 => crashTrial (p (C.handler c s).1) (C.handler c s).2 k j
    else crashTrial (p (C.handler c s).1) (C.handler c s).2 k j
  | mark m p, s, k, j => if A m s then crashTrial p s k j else none
  | spin, s, k, j => if k = 0 ∧ j = none then some s else none

variable {C A}

/-- An answer is a crash before which the trace events meet `A`. -/
lemma marksBefore_crash {p : Prog I α} {s s' : S} {k : ℕ} {j : Option ℕ}
    (ht : crashTrial C A p s k j = some s') :
    MarksBefore C A p s k ∧ crash C p s k j = some s' := by
  induction p generalizing s k with
  | ret a => exact ⟨trivial, ht⟩
  | call c p ih =>
    unfold crashTrial at ht
    unfold MarksBefore crash
    by_cases hmut : C.mutates c = true
    · rw [if_pos hmut] at ht ⊢
      rw [if_pos hmut]
      cases k with
      | zero => exact ⟨trivial, ht⟩
      | succ k => exact ih _ ht
    · rw [if_neg hmut] at ht ⊢
      rw [if_neg hmut]
      exact ih _ ht
  | mark m p ih =>
    unfold crashTrial at ht
    split at ht
    · next hm =>
      obtain ⟨hmarks, hcrash⟩ := ih ht
      exact ⟨⟨hm, hmarks⟩, hcrash⟩
    · cases ht
  | spin => exact ⟨trivial, ht⟩

end CrashTrial

end Prog

end Effect
