import Pqueue.Log.Replay

/-!
# Compacting a stretch of a keyed log

A stretch `R` of an ordered log `A ++ R ++ B` is replaced by pushes of the records whose last
write lies in it.  Two things can go wrong, and `Compactable` names both: a pop in `R` may have
cancelled a key that `A` still leaves open, and a record pushed in `R`'s place may not be above
everything `A` leaves open.  When neither happens the new log is ordered and replays to the old
list with the records moved (`replay_compact`).
-/

namespace QueueLog

variable {κ ρ : Type} [LinearOrder κ] {key : ρ → κ}

/-- An event's record. -/
def Event.Writes (e : Event κ ρ) (r : ρ) : Prop := e = .push r ∨ e = .put r

/-- The record of a key was written with that key. -/
lemma live_eq_write {es : List (Event κ ρ)} {k : κ} {r : ρ} (h : live key es k none = some r) :
    key r = k ∧ ∃ e ∈ es, e.Writes r := by
  cases hl : last key es k with
  | none =>
    rw [live, hl] at h
    cases h
  | some v =>
    rw [live, hl] at h
    obtain rfl : v = some r := h
    obtain ⟨hk, hw | hw⟩ := last_eq_write hl
    · exact ⟨hk, _, hw, .inl rfl⟩
    · exact ⟨hk, _, hw, .inr rfl⟩

lemma last_push_map {m : List ρ} (hm : Sorted key m) (k : κ) :
    last key (m.map (Event.push (κ := κ))) k = (find key m k).map some := by
  induction m with
  | nil => rfl
  | cons x m ih =>
    rw [List.map_cons, last_cons, ih hm.tail, find_cons, Event.effect]
    split
    · next hx =>
      rw [find_eq_none.2 fun y hy => hx ▸ (hm.head_lt hy).ne']
      rfl
    · rw [Option.or_none]

/-- Pushes of a sorted list above everything present are in order. -/
lemma ordered_pushes {l m : List ρ} (hm : Sorted key m) (h : ∀ x ∈ l, ∀ r ∈ m, key x < key r) :
    Ordered key l (m.map (Event.push (κ := κ))) := by
  induction m generalizing l with
  | nil => trivial
  | cons r m ih =>
    refine ⟨fun x hx => h x hx r (List.mem_cons_self ..), ih hm.tail fun x hx r' hr' => ?_⟩
    rcases List.mem_append.1 hx with hx | hx
    · exact h x hx r' (List.mem_cons_of_mem _ hr')
    · rw [List.mem_singleton.1 hx]
      exact hm.head_lt hr'

/-- A log that is ordered on a list is ordered on a list with fewer keys. -/
lemma ordered_of_subset {l l' : List ρ} {es : List (Event κ ρ)} (hl : Sorted key l)
    (hl' : Sorted key l')
    (hsub : ∀ k, (find key l' k).isSome → (find key l k).isSome) (h : Ordered key l es) :
    Ordered key l' es := by
  induction es generalizing l l' with
  | nil => trivial
  | cons e es ih =>
    -- a key of `l'` is a key of `l`, so what holds of the keys of `l` holds of it
    have hkey : ∀ x ∈ l', ∃ y ∈ l, key y = key x := by
      intro x hx
      have hx' := hsub (key x) (by rw [hl'.find_mem hx]; rfl)
      obtain ⟨y, hy⟩ := Option.isSome_iff_exists.1 hx'
      exact ⟨y, find_some hy⟩
    have hadm : Admissible key l' e := by
      cases e with
      | push r =>
        intro x hx
        obtain ⟨y, hy, hyx⟩ := hkey x hx
        exact hyx ▸ h.1 y hy
      | put r => trivial
      | pop k =>
        intro x hx
        obtain ⟨y, hy, hyx⟩ := hkey x hx
        exact hyx ▸ h.1 y hy
    refine ⟨hadm, ih (sorted_step hl h.1) (sorted_step hl' hadm) (fun k hk => ?_) h.2⟩
    rw [find_step hl' hadm] at hk
    rw [find_step hl h.1]
    cases he : e.effect key k with
    | none => rw [he] at hk; exact hsub k hk
    | some v => rw [he] at hk; exact hk

/-- `R` in `A ++ R ++ B` may be replaced by pushes of `m`. -/
structure Compactable (key : ρ → κ) (A R B : List (Event κ ρ)) (m : List ρ) : Prop where
  ordered : Ordered key [] (A ++ R ++ B)
  sorted : Sorted key m
  /-- The keys of `m` are those whose last event is a write in `R`. -/
  keys : ∀ k, (find key m k).isSome ↔ ∃ r, last key R k = some (some r) ∧ last key B k = none
  /-- No pop in `R` cancels a key that `A` leaves open. -/
  tombstones : ∀ k, .pop k ∈ R → live key A k none = none
  /-- What `A` leaves open is below what is pushed. -/
  above : ∀ x k, (live key A x none).isSome → (find key m k).isSome → x < k

namespace Compactable

variable {A R B : List (Event κ ρ)} {m : List ρ} (h : Compactable key A R B m)

include h

lemma ordered_before : Ordered key [] A :=
  (ordered_append.1 (ordered_append.1 h.ordered).1).1

lemma ordered_through : Ordered key [] (A ++ R) := (ordered_append.1 h.ordered).1

lemma ordered_kept : Ordered key [] (A ++ m.map Event.push) := by
  refine ordered_append.2 ⟨h.ordered_before, ordered_pushes h.sorted fun x hx r hr => ?_⟩
  refine h.above _ _ ?_ (by rw [h.sorted.find_mem hr]; rfl)
  rw [← find_replay h.ordered_before, (sorted_replay h.ordered_before).find_mem hx]
  rfl

/-- Before `B` is replayed, the new log has no key that the old one has not. -/
lemma keys_subset (k : κ) (hk : (find key (replay key [] (A ++ m.map Event.push)) k).isSome) :
    (find key (replay key [] (A ++ R)) k).isSome := by
  rw [find_replay h.ordered_kept, live_append, live, last_push_map h.sorted] at hk
  rw [find_replay h.ordered_through, live_append, live]
  cases hm : find key m k with
  | some r =>
    obtain ⟨r', hr', -⟩ := (h.keys k).1 (by rw [hm]; rfl)
    rw [hr']
    rfl
  | none =>
    rw [hm] at hk
    cases hR : last key R k with
    | none => exact hk
    | some v =>
      cases v with
      | some r => rfl
      | none =>
        rw [Option.map_none, Option.getD_none, h.tombstones k (last_eq_removed hR)] at hk
        cases hk

/-- The compacted log is ordered. -/
lemma ordered_compacted : Ordered key [] (A ++ m.map Event.push ++ B) :=
  ordered_append.2 ⟨h.ordered_kept, ordered_of_subset (sorted_replay h.ordered_through)
    (sorted_replay h.ordered_kept) h.keys_subset (ordered_append.1 h.ordered).2⟩

/-- The compacted log holds the records of `m` in the place of those that lay in `R`. -/
lemma live_compacted (k : κ) :
    live key (A ++ m.map Event.push ++ B) k none =
      (find key m k).or (live key (A ++ R ++ B) k none) := by
  simp only [live, last_append, last_push_map h.sorted]
  cases hB : last key B k with
  | some v =>
    have hm : find key m k = none := by
      by_contra hne
      obtain ⟨r, -, hnone⟩ := (h.keys k).1 (Option.isSome_iff_ne_none.2 hne)
      rw [hB] at hnone
      cases hnone
    rw [hm]
    rfl
  | none =>
    cases hm : find key m k with
    | some r => rfl
    | none =>
      cases hR : last key R k with
      | none => rfl
      | some v =>
        cases v with
        | some r =>
          have := (h.keys k).2 ⟨r, hR, hB⟩
          rw [hm] at this
          cases this
        | none => exact h.tombstones k (last_eq_removed hR)

end Compactable

/-- A key that `A` leaves open and no pop of `R` cancels is below every key pushed in `R`: it was
present when that key was pushed. -/
lemma lt_of_push {A R : List (Event κ ρ)} (ho : Ordered key [] (A ++ R)) {k : κ} {r : ρ}
    (hk : (live key A k none).isSome) (hpop : .pop k ∉ R) (hr : .push r ∈ R) : k < key r := by
  obtain ⟨R₁, R₂, rfl⟩ := List.append_of_mem hr
  rw [← List.append_assoc] at ho
  obtain ⟨ho₁, hpush, -⟩ := ordered_append.1 ho
  -- `k` is still there after `R₁`, since no pop of `R` names it
  have hsome : (find key (replay key [] (A ++ R₁)) k).isSome := by
    rw [find_replay ho₁, live_append, live]
    cases h : last key R₁ k with
    | none => exact hk
    | some v =>
      cases v with
      | some _ => rfl
      | none => exact absurd (List.mem_append_left _ (last_eq_removed h)) hpop
  obtain ⟨y, hy⟩ := Option.isSome_iff_exists.1 hsome
  obtain ⟨hmem, rfl⟩ := find_some hy
  exact hpush y hmem

/-- The key that an event pops or puts. -/
def Event.touched (key : ρ → κ) : Event κ ρ → Option κ
  | .push _ => none
  | .put r => some (key r)
  | .pop k => some k

/-- A key that some event pops or puts has a last event. -/
lemma last_ne_none_of_touched {es : List (Event κ ρ)} {e : Event κ ρ} (he : e ∈ es) {k : κ}
    (ht : e.touched key = some k) : last key es k ≠ none := by
  obtain ⟨es₁, es₂, rfl⟩ := List.append_of_mem he
  have heffect : e.effect key k ≠ none := by
    cases e with
    | push r => cases ht
    | put r => simp [Event.effect, Option.some.inj ht]
    | pop k' => simp [Event.effect, Option.some.inj ht]
  rw [last_append, last_cons]
  simp [heffect]

/-- A key that `A` leaves open has no event in `R` when none pops or puts it. -/
lemma last_eq_none_of_untouched {A R : List (Event κ ρ)} (ho : Ordered key [] (A ++ R)) {k : κ}
    (hk : (live key A k none).isSome) (hR : ∀ e ∈ R, e.touched key ≠ some k) :
    last key R k = none := by
  have hpop : .pop k ∉ R := fun h => hR _ h rfl
  cases h : last key R k with
  | none => rfl
  | some v =>
    cases v with
    | none => exact absurd (last_eq_removed h) hpop
    | some r =>
      obtain ⟨rfl, hr | hr⟩ := last_eq_write h
      · exact absurd (lt_of_push ho hk hpop hr) (lt_irrefl _)
      · exact absurd rfl (hR _ hr)

lemma isSome_find {l : List ρ} {k : κ} : (find key l k).isSome ↔ k ∈ l.map key := by
  simp [find, List.find?_isSome]

/-- The keys of a replay are those the log leaves open. -/
lemma mem_keys_replay {es : List (Event κ ρ)} (ho : Ordered key [] es) {k : κ} :
    k ∈ (replay key [] es).map key ↔ (live key es k none).isSome := by
  rw [← find_replay ho, isSome_find]

/-! ### Stretches that the log before them does not reach into -/

/-- The stretch `R` of `A ++ R ++ B` pops nothing that `A` leaves open, and what a put of it wrote
last is above that. -/
structure Separable (key : ρ → κ) (A R B : List (Event κ ρ)) : Prop where
  tombstones : ∀ k, .pop k ∈ R → live key A k none = none
  above : ∀ r, .put r ∈ R → last key (R ++ B) (key r) = some (some r) →
    ∀ x, (live key A x none).isSome → x < key r

/-- Such a stretch may be replaced by its live records. -/
lemma Separable.compactable {A R B : List (Event κ ρ)} {m : List ρ} (h : Separable key A R B)
    (ho : Ordered key [] (A ++ R ++ B)) (hm : Sorted key m)
    (hkeys : ∀ k, (find key m k).isSome ↔
      ∃ r, last key R k = some (some r) ∧ last key B k = none) : Compactable key A R B m where
  ordered := ho
  sorted := hm
  keys := hkeys
  tombstones := h.tombstones
  above x k hx hk := by
    obtain ⟨r, hr, hB⟩ := (hkeys k).1 hk
    obtain ⟨rfl, hw | hw⟩ := last_eq_write hr
    · refine lt_of_push (ordered_append.1 ho).1 hx (fun hpop => ?_) hw
      rw [h.tombstones x hpop] at hx
      cases hx
    · refine h.above r hw ?_ x hx
      rw [last_append, hB, hr]
      rfl

/-- `R` has no event at all on what `A` leaves open. -/
structure Detached (key : ρ → κ) (A R B : List (Event κ ρ)) : Prop where
  touched : ∀ e ∈ R, ∀ k, e.touched key = some k → live key A k none = none
  above : ∀ r, .put r ∈ R → last key (R ++ B) (key r) = some (some r) →
    ∀ x, (live key A x none).isSome → x < key r

namespace Detached

variable {A R B : List (Event κ ρ)} {m : List ρ} (h : Detached key A R B)

include h

lemma separable : Separable key A R B := ⟨fun k hk => h.touched _ hk k rfl, h.above⟩

/-- A key open before the stretch has no event in it. -/
lemma last_eq_none (ho : Ordered key [] (A ++ R)) {k : κ} (hk : (live key A k none).isSome) :
    last key R k = none := by
  refine last_eq_none_of_untouched ho hk fun e he ht => ?_
  rw [h.touched e he k ht] at hk
  cases hk

/-- A record that is not among the live ones of the stretch was there before, outside it. -/
lemma live_kept {C : List (Event κ ρ)} (ho : Ordered key [] (A ++ R)) (hm : Sorted key m) {k : κ}
    {r : ρ} (hk : find key m k = none)
    (hr : live key (A ++ m.map Event.push ++ C) k none = some r) :
    live key (A ++ R ++ C) k none = some r ∧ ∃ e ∈ A ++ C, e.Writes r := by
  have hnew : live key (A ++ m.map Event.push ++ C) k none = live key (A ++ C) k none := by
    simp only [live, last_append, last_push_map hm, hk, Option.map_none, Option.none_or]
  rw [hnew] at hr
  refine ⟨?_, (live_eq_write hr).2⟩
  rw [live_append] at hr ⊢
  cases hC : last key C k with
  | some v =>
    rw [live, hC] at hr ⊢
    exact hr
  | none =>
    have hA : live key A k none = some r := by
      rwa [live, hC] at hr
    rw [live, hC, live_append, live, h.last_eq_none ho (by rw [hA]; rfl)]
    exact hA

end Detached

section Moved

variable {A R B : List (Event κ ρ)} {m : List ρ} {inR : ρ → Prop}

/-- The record that replaces `r` after the compaction. -/
def moved (key : ρ → κ) (inR : ρ → Prop) [DecidablePred inR] (m : List ρ) (r : ρ) : ρ :=
  if inR r then (find key m (key r)).getD r else r

lemma key_moved [DecidablePred inR] (r : ρ) : key (moved key inR m r) = key r := by
  rw [moved]
  split
  · cases hf : find key m (key r) with
    | none => rfl
    | some x => exact (find_some hf).2
  · rfl

lemma find_map {f : ρ → ρ} (hf : ∀ r, key (f r) = key r) (l : List ρ) (k : κ) :
    find key (l.map f) k = (find key l k).map f := by
  induction l with
  | nil => rfl
  | cons x l ih =>
    rw [List.map_cons, find_cons, find_cons, hf, ih]
    split <;> rfl

lemma Sorted.map {f : ρ → ρ} (hf : ∀ r, key (f r) = key r) {l : List ρ} (h : Sorted key l) :
    Sorted key (l.map f) :=
  List.pairwise_map.2 (h.imp fun hxy => by rwa [hf, hf])

/-- Where the records of a replay lie, when `inR` tells the records written in `R`: exactly the
keys last written in `R` have a record there. -/
lemma last_in_iff (ho : Ordered key [] (A ++ R ++ B))
    (hA : ∀ e ∈ A, ∀ r, e.Writes r → ¬inR r) (hR : ∀ e ∈ R, ∀ r, e.Writes r → inR r)
    (hB : ∀ e ∈ B, ∀ r, e.Writes r → ¬inR r) (k : κ) :
    (∃ r, last key R k = some (some r) ∧ last key B k = none) ↔
      ∃ x ∈ replay key [] (A ++ R ++ B), inR x ∧ key x = k := by
  have hfind := find_replay ho k
  rw [live, last_append, last_append] at hfind
  constructor
  · rintro ⟨r, hr, hb⟩
    rw [hr, hb] at hfind
    obtain ⟨hmem, hk⟩ := find_some hfind
    obtain ⟨-, hw⟩ := last_eq_write hr
    exact ⟨r, hmem, hw.elim (fun h => hR _ h r (.inl rfl)) (fun h => hR _ h r (.inr rfl)), hk⟩
  · rintro ⟨x, hx, hin, rfl⟩
    rw [(sorted_replay ho).find_mem hx] at hfind
    cases hb : last key B (key x) with
    | some v =>
      rw [hb] at hfind
      obtain rfl : v = some x := hfind.symm
      obtain ⟨-, hw⟩ := last_eq_write hb
      exact absurd hin
        (hw.elim (fun h => hB _ h x (.inl rfl)) (fun h => hB _ h x (.inr rfl)))
    | none =>
      rw [hb, Option.none_or] at hfind
      cases hr : last key R (key x) with
      | some v =>
        rw [hr] at hfind
        obtain rfl : v = some x := hfind.symm
        exact ⟨x, rfl, rfl⟩
      | none =>
        rw [hr, Option.none_or] at hfind
        cases ha : last key A (key x) with
        | some v =>
          rw [ha] at hfind
          obtain rfl : v = some x := hfind.symm
          obtain ⟨-, hw⟩ := last_eq_write ha
          exact absurd hin
            (hw.elim (fun h => hA _ h x (.inl rfl)) (fun h => hA _ h x (.inr rfl)))
        | none => rw [ha] at hfind; cases hfind

/-- **Compaction of a stretch.**  The compacted log replays to the old list with the records
that lay in `R` moved to their copies. -/
theorem replay_compact [DecidablePred inR] (h : Compactable key A R B m)
    (hA : ∀ e ∈ A, ∀ r, e.Writes r → ¬inR r) (hR : ∀ e ∈ R, ∀ r, e.Writes r → inR r)
    (hB : ∀ e ∈ B, ∀ r, e.Writes r → ¬inR r) :
    replay key [] (A ++ m.map Event.push ++ B) =
      (replay key [] (A ++ R ++ B)).map (moved key inR m) := by
  refine (sorted_replay h.ordered_compacted).ext ((sorted_replay h.ordered).map key_moved)
    fun k => ?_
  rw [find_replay h.ordered_compacted, h.live_compacted, find_map key_moved,
    ← find_replay h.ordered]
  cases hf : find key (replay key [] (A ++ R ++ B)) k with
  | none =>
    have hm : find key m k = none := by
      by_contra hne
      obtain ⟨x, hx, -, hk⟩ := (last_in_iff h.ordered hA hR hB k).1
        ((h.keys k).1 (Option.isSome_iff_ne_none.2 hne))
      exact find_eq_none.1 hf x hx hk
    rw [hm]
    rfl
  | some x =>
    obtain ⟨hx, rfl⟩ := find_some hf
    rw [Option.map_some, moved]
    by_cases hin : inR x
    · have hsome := (h.keys (key x)).2 ((last_in_iff h.ordered hA hR hB _).2 ⟨x, hx, hin, rfl⟩)
      obtain ⟨y, hy⟩ := Option.isSome_iff_exists.1 hsome
      rw [if_pos hin, hy]
      rfl
    · have hm : find key m (key x) = none := by
        by_contra hne
        obtain ⟨y, hy, hiny, hk⟩ := (last_in_iff h.ordered hA hR hB _).1
          ((h.keys _).1 (Option.isSome_iff_ne_none.2 hne))
        have hxy : y = x := Option.some.inj
          (((sorted_replay h.ordered).find_mem hy).symm.trans
            ((congrArg (find key _) hk).trans ((sorted_replay h.ordered).find_mem hx)))
        exact hin (hxy ▸ hiny)
      rw [if_neg hin, hm]
      rfl

end Moved

end QueueLog
