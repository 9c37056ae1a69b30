import Mathlib.Algebra.Ring.Nat
import Mathlib.Tactic.Common
import Mathlib.Tactic.Lemma
import Mathlib.Data.List.Basic
import Mathlib.Order.Lattice

/-!
# Replaying a keyed log

A log of `push`, `put` and `pop` events over records with a key, replayed into a list: a push
appends, a put replaces the record of its key or is inserted in key order, a pop removes the
front when the front has its key.

On logs in which a push is above and a pop is not above every key present (`Ordered`), the
replay is the sorted list of what each key was last written with (`find_replay`).  This turns
questions about the order of events into questions about the last event on a key, and gives
`replay_compact`: when a stretch of the log may be replaced by pushes of the records that still
lie in it.
-/

namespace QueueLog

/-- One event of a log with keys `κ` and records `ρ`. -/
inductive Event (κ ρ : Type)
  | push (r : ρ)
  | put (r : ρ)
  | pop (k : κ)
  deriving DecidableEq

section Replay

variable {κ ρ σ : Type} [LinearOrder κ] (key : ρ → κ)

/-- Replace the first record with the key of `r` by `r`, if there is one. -/
def replaceFirst (r : ρ) : List ρ → Option (List ρ)
  | [] => none
  | x :: xs => if key x = key r then some (r :: xs) else (replaceFirst r xs).map (x :: ·)

/-- Insert `r` before the first record whose key is not smaller. -/
def insertBefore (r : ρ) : List ρ → List ρ
  | [] => [r]
  | x :: xs => if key x < key r then x :: insertBefore r xs else r :: x :: xs

/-- Replace the record with the key of `r`, or insert `r` in order. -/
def putInto (r : ρ) (l : List ρ) : List ρ := (replaceFirst key r l).getD (insertBefore key r l)

/-- Drop the front record when its key is `k`. -/
def dropFront (k : κ) : List ρ → List ρ
  | [] => []
  | x :: xs => if key x = k then xs else x :: xs

/-- Replay one event. -/
def step (l : List ρ) : Event κ ρ → List ρ
  | .push r => l ++ [r]
  | .put r => putInto key r l
  | .pop k => dropFront key k l

/-- Replay a log from `l`. -/
def replay (l : List ρ) (es : List (Event κ ρ)) : List ρ := es.foldl (step key) l

@[simp] lemma replay_nil (l : List ρ) : replay key l [] = l := rfl

@[simp] lemma replay_cons (l : List ρ) (e : Event κ ρ) (es : List (Event κ ρ)) :
    replay key l (e :: es) = replay key (step key l e) es := rfl

lemma replay_append (l : List ρ) (es fs : List (Event κ ρ)) :
    replay key l (es ++ fs) = replay key (replay key l es) fs := List.foldl_append

/-! ## Renaming records -/

/-- Apply `f` to the record of an event. -/
def Event.map (f : ρ → σ) : Event κ ρ → Event κ σ
  | .push r => .push (f r)
  | .put r => .put (f r)
  | .pop k => .pop k

variable {key} {key' : σ → κ} {f : ρ → σ}

lemma replaceFirst_map (hf : ∀ r, key' (f r) = key r) (r : ρ) (l : List ρ) :
    replaceFirst key' (f r) (l.map f) = (replaceFirst key r l).map (List.map f) := by
  induction l with
  | nil => rfl
  | cons x xs ih =>
    simp only [List.map_cons, replaceFirst, hf, ih]
    split
    · rfl
    · cases replaceFirst key r xs <;> rfl

lemma insertBefore_map (hf : ∀ r, key' (f r) = key r) (r : ρ) (l : List ρ) :
    insertBefore key' (f r) (l.map f) = (insertBefore key r l).map f := by
  induction l with
  | nil => rfl
  | cons x xs ih =>
    simp only [List.map_cons, insertBefore, hf, ih]
    split <;> rfl

lemma step_map (hf : ∀ r, key' (f r) = key r) (l : List ρ) (e : Event κ ρ) :
    step key' (l.map f) (e.map f) = (step key l e).map f := by
  cases e with
  | push r => simp only [step, Event.map, List.map_append, List.map_cons, List.map_nil]
  | put r =>
    simp only [step, Event.map, putInto, replaceFirst_map hf, insertBefore_map hf]
    cases replaceFirst key r l <;> rfl
  | pop k =>
    cases l with
    | nil => rfl
    | cons x xs =>
      simp only [step, Event.map, List.map_cons, dropFront, hf]
      split <;> rfl

lemma map_key_replaceFirst {r : ρ} {l l' : List ρ} (h : replaceFirst key r l = some l') :
    l'.map key = l.map key := by
  induction l generalizing l' with
  | nil => cases h
  | cons x xs ih =>
    simp only [replaceFirst] at h
    split at h
    · next hx =>
      obtain rfl := Option.some.inj h
      rw [List.map_cons, List.map_cons, hx]
    · obtain ⟨zs, hz, rfl⟩ := Option.map_eq_some_iff.1 h
      rw [List.map_cons, List.map_cons, ih hz]

lemma isSome_replaceFirst {r x : ρ} {l : List ρ} (hx : x ∈ l) (h : key x = key r) :
    (replaceFirst key r l).isSome := by
  induction l with
  | nil => cases hx
  | cons y ys ih =>
    simp only [replaceFirst]
    split
    · rfl
    · next hne =>
      rcases List.mem_cons.1 hx with rfl | hx
      · exact absurd h hne
      · rw [Option.isSome_map]
        exact ih hx

/-- What is replaced stays where it is. -/
lemma replaceFirst_split {r : ρ} {l : List ρ} (h : key r ∈ l.map key) : ∃ before old after,
    l = before ++ old :: after ∧ key old = key r ∧
      replaceFirst key r l = some (before ++ r :: after) := by
  induction l with
  | nil => cases h
  | cons x xs ih =>
    simp only [replaceFirst]
    by_cases hx : key x = key r
    · exact ⟨[], x, xs, rfl, hx, if_pos hx⟩
    · have hmem : key r ∈ xs.map key := (List.mem_cons.1 h).resolve_left fun he => hx he.symm
      obtain ⟨before, old, after, rfl, hold, hreplace⟩ := ih hmem
      refine ⟨x :: before, old, after, rfl, hold, ?_⟩
      rw [if_neg hx, hreplace]
      rfl

/-- Replay commutes with a renaming of records that keeps their keys. -/
lemma replay_map (hf : ∀ r, key' (f r) = key r) (l : List ρ) (es : List (Event κ ρ)) :
    replay key' (l.map f) (es.map (Event.map f)) = (replay key l es).map f := by
  induction es generalizing l with
  | nil => rfl
  | cons e es ih => rw [List.map_cons, replay_cons, replay_cons, step_map hf, ih]

/-- What a replay yields was there before or was written by some event. -/
lemma mem_step {l : List ρ} {e : Event κ ρ} {x : ρ} (hx : x ∈ step key l e) :
    x ∈ l ∨ e = .push x ∨ e = .put x := by
  cases e with
  | push r =>
    rcases List.mem_append.1 hx with h | h
    · exact .inl h
    · exact .inr (.inl (by rw [List.mem_singleton.1 h]))
  | put r =>
    have hrep : ∀ (xs ys : List ρ), replaceFirst key r xs = some ys →
        ∀ y ∈ ys, y ∈ xs ∨ y = r := by
      intro xs
      induction xs with
      | nil => intro ys h; cases h
      | cons a as ih =>
        intro ys h y hy
        simp only [replaceFirst] at h
        split at h
        · obtain rfl := Option.some.inj h
          rcases List.mem_cons.1 hy with rfl | hy
          · exact .inr rfl
          · exact .inl (List.mem_cons_of_mem _ hy)
        · obtain ⟨zs, hz, rfl⟩ := Option.map_eq_some_iff.1 h
          rcases List.mem_cons.1 hy with rfl | hy
          · exact .inl (List.mem_cons_self ..)
          · exact (ih zs hz y hy).imp_left (List.mem_cons_of_mem _)
    have hins : ∀ (xs : List ρ), ∀ y ∈ insertBefore key r xs, y ∈ xs ∨ y = r := by
      intro xs
      induction xs with
      | nil => intro y hy; exact .inr (List.mem_singleton.1 hy)
      | cons a as ih =>
        intro y hy
        simp only [insertBefore] at hy
        split at hy
        · rcases List.mem_cons.1 hy with rfl | hy
          · exact .inl (List.mem_cons_self ..)
          · exact (ih y hy).imp_left (List.mem_cons_of_mem _)
        · rcases List.mem_cons.1 hy with rfl | hy
          · exact .inr rfl
          · exact .inl hy
    have hput : x ∈ putInto key r l := hx
    rw [putInto] at hput
    cases h : replaceFirst key r l with
    | some ys =>
      rw [h] at hput
      exact (hrep l ys h x hput).imp_right fun hr => .inr (by rw [hr])
    | none =>
      rw [h] at hput
      exact (hins l x hput).imp_right fun hr => .inr (by rw [hr])
  | pop k =>
    cases l with
    | nil => cases hx
    | cons a as =>
      simp only [step, dropFront] at hx
      split at hx
      · exact .inl (List.mem_cons_of_mem _ hx)
      · exact .inl hx

lemma mem_replay {l : List ρ} {es : List (Event κ ρ)} {x : ρ} (hx : x ∈ replay key l es) :
    x ∈ l ∨ .push x ∈ es ∨ .put x ∈ es := by
  induction es generalizing l with
  | nil => exact .inl hx
  | cons e es ih =>
    rcases ih hx with h | h
    · rcases mem_step h with h | rfl | rfl
      · exact .inl h
      · exact .inr (.inl (List.mem_cons_self ..))
      · exact .inr (.inr (List.mem_cons_self ..))
    · exact .inr (h.imp (List.mem_cons_of_mem _) (List.mem_cons_of_mem _))

end Replay

/-! ## Ordered logs -/

section Ordered

variable {κ ρ : Type} [LinearOrder κ] (key : ρ → κ)

/-- Strictly ascending keys. -/
def Sorted (l : List ρ) : Prop := l.Pairwise fun x y => key x < key y

/-- The record with key `k`. -/
def find (l : List ρ) (k : κ) : Option ρ := l.find? fun x => key x = k

/-- An event that keeps a sorted list sorted and means what it says. -/
def Admissible (l : List ρ) : Event κ ρ → Prop
  | .push r => ∀ x ∈ l, key x < key r
  | .put _ => True
  | .pop k => ∀ x ∈ l, k ≤ key x

/-- Every event is admissible where it is replayed. -/
def Ordered : List ρ → List (Event κ ρ) → Prop
  | _, [] => True
  | l, e :: es => Admissible key l e ∧ Ordered (step key l e) es

variable {key}

lemma ordered_append {l : List ρ} {es fs : List (Event κ ρ)} :
    Ordered key l (es ++ fs) ↔ Ordered key l es ∧ Ordered key (replay key l es) fs := by
  induction es generalizing l with
  | nil => simp only [List.nil_append, Ordered, true_and, replay_nil]
  | cons e es ih =>
    simp only [List.cons_append, Ordered, ih, replay_cons, and_assoc]

lemma find_nil (k : κ) : find key [] k = none := rfl

lemma find_cons (x : ρ) (l : List ρ) (k : κ) :
    find key (x :: l) k = if key x = k then some x else find key l k := by
  simp only [find, List.find?_cons]
  split <;> rename_i h
  · rw [if_pos (of_decide_eq_true h)]
  · rw [if_neg (of_decide_eq_false h)]

lemma find_eq_none {l : List ρ} {k : κ} : find key l k = none ↔ ∀ x ∈ l, key x ≠ k := by
  simp [find]

lemma find_some {l : List ρ} {k : κ} {x : ρ} (h : find key l k = some x) :
    x ∈ l ∧ key x = k :=
  ⟨List.mem_of_find?_eq_some h, by simpa using List.find?_some h⟩

lemma Sorted.tail {x : ρ} {l : List ρ} (h : Sorted key (x :: l)) : Sorted key l :=
  (List.pairwise_cons.1 h).2

lemma Sorted.head_lt {x : ρ} {l : List ρ} (h : Sorted key (x :: l)) {y : ρ} (hy : y ∈ l) :
    key x < key y := (List.pairwise_cons.1 h).1 y hy

lemma Sorted.find_mem {l : List ρ} (h : Sorted key l) {x : ρ} (hx : x ∈ l) :
    find key l (key x) = some x := by
  induction l with
  | nil => cases hx
  | cons y l ih =>
    rw [find_cons]
    rcases List.mem_cons.1 hx with rfl | hx
    · rw [if_pos rfl]
    · rw [if_neg (h.head_lt hx).ne, ih h.tail hx]

/-- A sorted list is determined by its lookups. -/
lemma Sorted.ext {l l' : List ρ} (h : Sorted key l) (h' : Sorted key l')
    (hf : ∀ k, find key l k = find key l' k) : l = l' := by
  induction l generalizing l' with
  | nil =>
    cases l' with
    | nil => rfl
    | cons y ys =>
      have hy := hf (key y)
      rw [find_cons, if_pos rfl] at hy
      cases hy
  | cons x xs ih =>
    cases l' with
    | nil =>
      have hx := hf (key x)
      rw [find_cons, if_pos rfl] at hx
      cases hx
    | cons y ys =>
      have hxy : x = y := by
        have hx := hf (key x)
        have hy := hf (key y)
        rw [find_cons, if_pos rfl, find_cons] at hx
        rw [find_cons, find_cons, if_pos rfl] at hy
        by_cases hk : key y = key x
        · rw [if_pos hk] at hx
          exact Option.some.inj hx
        · rw [if_neg hk] at hx
          rw [if_neg (Ne.symm hk)] at hy
          exact absurd (h'.head_lt (find_some hx.symm).1) (h.head_lt (find_some hy).1).not_gt
      subst hxy
      refine congrArg (x :: ·) (ih h.tail h'.tail fun k => ?_)
      have hk := hf k
      rw [find_cons, find_cons] at hk
      by_cases hxk : key x = k
      · subst hxk
        rw [find_eq_none.2 fun z hz => (h.head_lt hz).ne',
          find_eq_none.2 fun z hz => (h'.head_lt hz).ne']
      · rwa [if_neg hxk, if_neg hxk] at hk

/-! ### One event on a sorted list -/

lemma sorted_push {l : List ρ} {r : ρ} (h : Sorted key l) (hr : ∀ x ∈ l, key x < key r) :
    Sorted key (l ++ [r]) := by
  refine List.pairwise_append.2 ⟨h, List.pairwise_singleton _ _, fun x hx y hy => ?_⟩
  rw [List.mem_singleton.1 hy]
  exact hr x hx

lemma find_push {l : List ρ} {r : ρ} (hr : ∀ x ∈ l, key x < key r) (k : κ) :
    find key (l ++ [r]) k = if key r = k then some r else find key l k := by
  induction l with
  | nil => rw [List.nil_append, find_cons]
  | cons x xs ih =>
    rw [List.cons_append, find_cons, find_cons, ih fun y hy => hr y (List.mem_cons_of_mem _ hy)]
    have hx : key x < key r := hr x (List.mem_cons_self ..)
    by_cases h1 : key x = k
    · rw [if_pos h1, if_neg (by rw [← h1]; exact hx.ne'), if_pos h1]
    · rw [if_neg h1, if_neg h1]

lemma putInto_cons {x r : ρ} {xs : List ρ} (h : Sorted key (x :: xs)) :
    putInto key r (x :: xs) =
      if key x = key r then r :: xs
      else if key x < key r then x :: putInto key r xs else r :: x :: xs := by
  simp only [putInto, replaceFirst, insertBefore]
  by_cases h1 : key x = key r
  · rw [if_pos h1, if_pos h1]
    rfl
  · rw [if_neg h1, if_neg h1]
    by_cases h2 : key x < key r
    · rw [if_pos h2, if_pos h2]
      cases replaceFirst key r xs <;> rfl
    · have hnone : replaceFirst key r xs = none := by
        have hlt : ∀ y ∈ xs, key r < key y := fun y hy =>
          ((not_lt.1 h2).lt_of_ne (Ne.symm h1)).trans (h.head_lt hy)
        clear h h1 h2
        induction xs with
        | nil => rfl
        | cons y ys ih =>
          rw [replaceFirst, if_neg (hlt y (List.mem_cons_self ..)).ne',
            ih fun z hz => hlt z (List.mem_cons_of_mem _ hz)]
          rfl
      rw [if_neg h2, if_neg h2, hnone]
      rfl

lemma find_putInto {l : List ρ} (h : Sorted key l) (r : ρ) (k : κ) :
    find key (putInto key r l) k = if key r = k then some r else find key l k := by
  induction l with
  | nil => exact find_cons r [] k
  | cons x xs ih =>
    rw [putInto_cons h, find_cons]
    split
    · next hx => rw [find_cons, hx]; split <;> rfl
    · next hx =>
      split
      · rw [find_cons, ih h.tail]
        by_cases h1 : key x = k
        · rw [if_pos h1, if_neg (by rw [← h1]; exact Ne.symm hx), if_pos h1]
        · rw [if_neg h1, if_neg h1]
      · rw [find_cons, find_cons]

lemma mem_putInto {l : List ρ} {r x : ρ} (hx : x ∈ putInto key r l) : x ∈ l ∨ x = r := by
  rcases mem_step (e := .put r) hx with h | h | h
  · exact .inl h
  · cases h
  · exact .inr (Event.put.inj h).symm

lemma sorted_putInto {l : List ρ} (h : Sorted key l) (r : ρ) : Sorted key (putInto key r l) := by
  induction l with
  | nil => exact List.pairwise_singleton _ _
  | cons x xs ih =>
    rw [putInto_cons h]
    split
    · next hx => exact List.pairwise_cons.2 ⟨fun y hy => hx ▸ h.head_lt hy, h.tail⟩
    · next hx =>
      split
      · next hlt =>
        refine List.pairwise_cons.2 ⟨fun y hy => ?_, ih h.tail⟩
        rcases mem_putInto hy with hy | rfl
        · exact h.head_lt hy
        · exact hlt
      · next hlt =>
        have hrx : key r < key x := (not_lt.1 hlt).lt_of_ne (Ne.symm hx)
        refine List.pairwise_cons.2 ⟨fun y hy => ?_, h⟩
        rcases List.mem_cons.1 hy with rfl | hy
        · exact hrx
        · exact hrx.trans (h.head_lt hy)

lemma find_dropFront {l : List ρ} (h : Sorted key l) {k : κ} (hk : ∀ x ∈ l, k ≤ key x) (k' : κ) :
    find key (dropFront key k l) k' = if k = k' then none else find key l k' := by
  cases l with
  | nil => rw [dropFront, find_nil]; split <;> rfl
  | cons x xs =>
    simp only [dropFront]
    split
    · next hx =>
      rw [find_cons, hx]
      split
      · next hkk =>
        exact find_eq_none.2 fun y hy => by rw [← hkk, ← hx]; exact (h.head_lt hy).ne'
      · rfl
    · next hx =>
      split
      · next hkk =>
        subst hkk
        have hlt : k < key x := (hk x (List.mem_cons_self ..)).lt_of_ne (Ne.symm hx)
        refine find_eq_none.2 fun y hy => ?_
        rcases List.mem_cons.1 hy with rfl | hy
        · exact hx
        · exact (hlt.trans (h.head_lt hy)).ne'
      · rfl

lemma sorted_dropFront {l : List ρ} (h : Sorted key l) (k : κ) :
    Sorted key (dropFront key k l) := by
  cases l with
  | nil => exact h
  | cons x xs =>
    simp only [dropFront]
    split
    · exact h.tail
    · exact h

lemma sorted_step {l : List ρ} {e : Event κ ρ} (h : Sorted key l) (he : Admissible key l e) :
    Sorted key (step key l e) := by
  cases e with
  | push r => exact sorted_push h he
  | put r => exact sorted_putInto h r
  | pop k => exact sorted_dropFront h k

/-! ## The last event on a key -/

variable (key)

/-- What an event does to key `k`: nothing, write a record, or remove it. -/
def Event.effect (k : κ) : Event κ ρ → Option (Option ρ)
  | .push r => if key r = k then some (some r) else none
  | .put r => if key r = k then some (some r) else none
  | .pop k' => if k' = k then some none else none

/-- What the last event on `k` did to it, if there is one. -/
def last (es : List (Event κ ρ)) (k : κ) : Option (Option ρ) :=
  es.foldl (fun v e => (e.effect key k).or v) none

/-- The record of `k` after `es`, when it was `v` before. -/
def live (es : List (Event κ ρ)) (k : κ) (v : Option ρ) : Option ρ := (last key es k).getD v

variable {key}

private lemma foldl_effect (es : List (Event κ ρ)) (k : κ) (v : Option (Option ρ)) :
    es.foldl (fun v e => (e.effect key k).or v) v = (last key es k).or v := by
  induction es generalizing v with
  | nil => rfl
  | cons e es ih =>
    rw [last, List.foldl_cons, List.foldl_cons, ih, ih, Option.or_assoc, Option.or_none]

lemma last_append (es fs : List (Event κ ρ)) (k : κ) :
    last key (es ++ fs) k = (last key fs k).or (last key es k) := by
  rw [last, List.foldl_append, foldl_effect]
  rfl

lemma last_cons (e : Event κ ρ) (es : List (Event κ ρ)) (k : κ) :
    last key (e :: es) k = (last key es k).or (e.effect key k) := by
  rw [last, List.foldl_cons, foldl_effect, Option.or_none]

lemma live_append (es fs : List (Event κ ρ)) (k : κ) (v : Option ρ) :
    live key (es ++ fs) k v = live key fs k (live key es k v) := by
  rw [live, live, live, last_append]
  cases last key fs k <;> rfl

/-- A key whose last event wrote `r` was written with `r` by some event. -/
lemma last_eq_write {es : List (Event κ ρ)} {k : κ} {r : ρ} (h : last key es k = some (some r)) :
    key r = k ∧ (.push r ∈ es ∨ .put r ∈ es) := by
  induction es with
  | nil => cases h
  | cons e es ih =>
    rw [last_cons] at h
    cases hes : last key es k with
    | some v =>
      rw [hes] at h
      obtain ⟨hk, hm⟩ := ih (hes.trans h)
      exact ⟨hk, hm.imp (List.mem_cons_of_mem _) (List.mem_cons_of_mem _)⟩
    | none =>
      rw [hes] at h
      cases e with
      | push r' =>
        simp only [Option.none_or, Event.effect] at h
        split at h <;> cases h
        exact ⟨‹_›, .inl (List.mem_cons_self ..)⟩
      | put r' =>
        simp only [Option.none_or, Event.effect] at h
        split at h <;> cases h
        exact ⟨‹_›, .inr (List.mem_cons_self ..)⟩
      | pop k' =>
        simp only [Option.none_or, Event.effect] at h
        split at h <;> cases h

/-- A key whose last event removed it was popped. -/
lemma last_eq_removed {es : List (Event κ ρ)} {k : κ} (h : last key es k = some none) :
    .pop k ∈ es := by
  induction es with
  | nil => cases h
  | cons e es ih =>
    rw [last_cons] at h
    cases hes : last key es k with
    | some v =>
      rw [hes] at h
      exact List.mem_cons_of_mem _ (ih (hes.trans h))
    | none =>
      rw [hes] at h
      cases e with
      | push r' =>
        simp only [Option.none_or, Event.effect] at h
        split at h <;> cases h
      | put r' =>
        simp only [Option.none_or, Event.effect] at h
        split at h <;> cases h
      | pop k' =>
        simp only [Option.none_or, Event.effect] at h
        split at h
        · next hk => rw [hk]; exact List.mem_cons_self ..
        · cases h

lemma find_step {l : List ρ} {e : Event κ ρ} (h : Sorted key l) (he : Admissible key l e) (k : κ) :
    find key (step key l e) k = (e.effect key k).getD (find key l k) := by
  cases e with
  | push r =>
    rw [step, find_push he, Event.effect]
    split <;> rfl
  | put r =>
    rw [step, find_putInto h, Event.effect]
    split <;> rfl
  | pop k' =>
    rw [step, find_dropFront h he, Event.effect]
    split <;> rfl

/-- **Replay of an ordered log**: the list stays sorted and holds, for each key, what the key
was last written with. -/
lemma sorted_find_replay {l : List ρ} {es : List (Event κ ρ)} (h : Sorted key l)
    (ho : Ordered key l es) :
    Sorted key (replay key l es) ∧
      ∀ k, find key (replay key l es) k = live key es k (find key l k) := by
  induction es generalizing l with
  | nil => exact ⟨h, fun k => rfl⟩
  | cons e es ih =>
    obtain ⟨hs, hf⟩ := ih (sorted_step h ho.1) ho.2
    refine ⟨hs, fun k => ?_⟩
    rw [replay_cons, hf, find_step h ho.1, live, live, last_cons]
    cases last key es k <;> rfl

lemma sorted_replay {es : List (Event κ ρ)} (ho : Ordered key [] es) :
    Sorted key (replay key [] es) :=
  (sorted_find_replay List.Pairwise.nil ho).1

lemma find_replay {es : List (Event κ ρ)} (ho : Ordered key [] es) (k : κ) :
    find key (replay key [] es) k = live key es k none :=
  (sorted_find_replay List.Pairwise.nil ho).2 k

end Ordered

end QueueLog
