import Mathlib.Data.List.Basic

/-!
# Histories

What is said of a log of events by what came before each event, and of the events that were not
answered at once.  A log grows at its end; the lemmas say what has to be shown of the events that
are added.
-/

namespace Effect

variable {α : Type} {P : List α → α → Prop} {Q R : α → Prop} {log chunk : List α}

/-- Every event of the log satisfies `P` of the events before it. -/
def Along (P : List α → α → Prop) (log : List α) : Prop :=
  ∀ pre e post, log = pre ++ e :: post → P pre e

lemma along_nil : Along P [] := by
  intro pre e post h
  simp at h

lemma Along.concat {e : α} (h : Along P log) (he : P log e) : Along P (log ++ [e]) := by
  intro pre e' post heq
  rcases List.eq_nil_or_concat post with rfl | ⟨post', last, rfl⟩
  · obtain ⟨rfl, hlast⟩ := List.append_inj' heq rfl
    obtain rfl := List.head_eq_of_cons_eq hlast
    exact he
  · rw [List.concat_eq_append, ← List.cons_append, ← List.append_assoc] at heq
    exact h pre e' post' (List.append_inj' heq rfl).1

/-- What holds of the whole log holds of what it was before. -/
lemma Along.of_append (h : Along P (log ++ chunk)) : Along P log := by
  intro pre e post heq
  exact h pre e (post ++ chunk) (by simp [heq])

lemma Along.of_mem {e : α} (h : Along P log) (he : e ∈ log) : ∃ pre post, log = pre ++ e :: post ∧
    P pre e := by
  obtain ⟨pre, post, heq⟩ := List.append_of_mem he
  exact ⟨pre, post, heq, h pre e post heq⟩

/-- An event with `Q` at whose heels there is none with `R`. -/
def Unanswered (Q R : α → Prop) (log : List α) : Prop :=
  ∃ pre e post, log = pre ++ e :: post ∧ Q e ∧ ∀ e' ∈ post.head?, ¬R e'

lemma Unanswered.exists_mem (h : Unanswered Q R log) : ∃ e ∈ log, Q e := by
  obtain ⟨pre, e, post, rfl, hQ, -⟩ := h
  exact ⟨e, by simp, hQ⟩

lemma Unanswered.append (h : Unanswered Q R (log ++ chunk)) :
    Unanswered Q R log ∨ Unanswered Q R chunk := by
  obtain ⟨pre, e, post, heq, hQ, hpost⟩ := h
  rcases List.append_eq_append_iff.mp heq with ⟨mid, rfl, hchunk⟩ | ⟨mid, rfl, hrest⟩
  · exact .inr ⟨mid, e, post, hchunk, hQ, hpost⟩
  · cases mid with
    | nil => exact .inr ⟨[], e, post, hrest.symm, hQ, hpost⟩
    | cons first mid =>
      obtain ⟨rfl, rfl⟩ := List.cons.inj hrest
      refine .inl ⟨pre, e, mid, rfl, hQ, fun e' he' => hpost e' ?_⟩
      cases mid with
      | nil => simp at he'
      | cons _ _ => exact he'

end Effect
