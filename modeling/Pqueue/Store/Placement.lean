import Pqueue.Bytes.Intervals
import Pqueue.Store.Moves

/-!
# Where the live records lie

The index of a store is a list of locations.  Each lies within the bytes of a segment that the
object relies on, its extent (`Enclosed`), so that writes outside the extents (`Keeps`) do not
change what is read there (`Enclosed.view`).  `Placed` says besides that their sequences follow one
another and that their events lie apart; both may fail in an index that was replayed after a
compaction of a part of the log.
-/

namespace Pqueue

open Effect LittleEndian

/-! ## The bytes of a record -/

/-- Where the event of a record begins in its segment. -/
def SegmentRecord.start (r : SegmentRecord) : ℕ := r.payloadOffset - kEnqueueHeaderBytes

/-- Where the event of a record ends. -/
def SegmentRecord.stop (r : SegmentRecord) : ℕ :=
  r.payloadOffset + r.payloadBytes + kEventTrailerBytes

/-- Two records do not share bytes. -/
def SegmentRecord.Apart (r r' : SegmentRecord) : Prop :=
  r.segmentGeneration = r'.segmentGeneration → r.stop ≤ r'.start ∨ r'.stop ≤ r.start

lemma SegmentRecord.Apart.symm {r r' : SegmentRecord} (h : r.Apart r') : r'.Apart r :=
  fun hg => (h hg.symm).symm

instance : Std.Symm SegmentRecord.Apart := ⟨fun _ _ h => h.symm⟩

/-! ## Segments and their extents -/

/-- The first `extent g` bytes of every segment `g` are on disk. -/
def Held (gens : List ℕ) (extent : ℕ → ℕ) (d : Disk) : Prop :=
  ∀ g ∈ gens, ∃ data, d.lookup (segmentName g) = some data ∧ extent g ≤ data.length

/-- They are the same in `d'` as in `d`. -/
def Keeps (gens : List ℕ) (extent : ℕ → ℕ) (d d' : Disk) : Prop :=
  ∀ g ∈ gens, ∀ data, d.lookup (segmentName g) = some data → extent g ≤ data.length →
    ∃ data', d'.lookup (segmentName g) = some data' ∧
      data'.take (extent g) = data.take (extent g)

section Extents

variable {gens gens' : List ℕ} {extent extent' : ℕ → ℕ} {d d' : Disk}

lemma Keeps.of_lookup
    (h : ∀ g ∈ gens, d'.lookup (segmentName g) = d.lookup (segmentName g)) :
    Keeps gens extent d d' :=
  fun g hg data hd _ => ⟨data, (h g hg).trans hd, rfl⟩

lemma Held.keeps (h : Held gens extent d) (hk : Keeps gens extent d d') : Held gens extent d' := by
  intro g hg
  obtain ⟨data, hd, hle⟩ := h g hg
  obtain ⟨data', hd', ht⟩ := hk g hg data hd hle
  refine ⟨data', hd', ?_⟩
  have := congrArg List.length ht
  rw [List.length_take, List.length_take] at this
  omega

lemma Held.mono (h : Held gens extent d) (hg : ∀ g ∈ gens', g ∈ gens)
    (he : ∀ g ∈ gens', extent' g ≤ extent g) : Held gens' extent' d := by
  intro g hm
  obtain ⟨data, hd, hle⟩ := h g (hg g hm)
  exact ⟨data, hd, (he g hm).trans hle⟩

lemma Held.append (h : Held gens extent d) (h' : Held gens' extent d) :
    Held (gens ++ gens') extent d :=
  fun g hg => (List.mem_append.1 hg).elim (h g) (h' g)

end Extents

/-! ## Placed records -/

/-- Consecutive numbers and the number after them. -/
lemma range'_concat_next {l : List ℕ} {head n next : ℕ} (h : l = List.range' head n)
    (hnext : ∀ back, l.getLast? = some back → next = back + 1) :
    ∃ head', l ++ [next] = List.range' head' (n + 1) := by
  subst h
  cases n with
  | zero => exact ⟨next, rfl⟩
  | succ n =>
    refine ⟨head, ?_⟩
    rw [List.range'_concat, List.getLast?_concat, Nat.one_mul] at hnext
    have hs : next = head + (n + 1) := by
      have := hnext _ rfl
      omega
    rw [hs, List.range'_concat (n := n + 1), Nat.one_mul]

/-- Where the keys are consecutive, they are found by their distance from the first. -/
lemma key_of_getElem? {α : Type} {key : α → ℕ} {l : List α} {head n : ℕ}
    (h : l.map key = List.range' head n) {i : ℕ} {x : α} (hx : l[i]? = some x) :
    key x = head + i := by
  have := congrArg (fun l : List ℕ => l[i]?) h
  simp only [List.getElem?_map, hx, Option.map_some] at this
  obtain ⟨hi, he⟩ := List.getElem?_eq_some_iff.1 this.symm
  rw [List.getElem_range', Nat.one_mul] at he
  exact he.symm

/-- The event of a record lies within the extent of its segment. -/
structure SegmentRecord.Inside (cfg : AppendLogConfig) (gens : List ℕ) (extent : ℕ → ℕ)
    (r : SegmentRecord) : Prop where
  fits : r.Fits cfg
  mem : r.segmentGeneration ∈ gens
  header_le : kSegmentHeaderBytes + kEnqueueHeaderBytes ≤ r.payloadOffset
  stop_le : r.stop ≤ extent r.segmentGeneration

/-- The records lie within the extents of the segments. -/
def Enclosed (cfg : AppendLogConfig) (gens : List ℕ) (extent : ℕ → ℕ) (rs : List SegmentRecord) :
    Prop :=
  ∀ r ∈ rs, r.Inside cfg gens extent

/-- They lie apart as well, and their sequences follow one another. -/
structure Placed (cfg : AppendLogConfig) (gens : List ℕ) (extent : ℕ → ℕ)
    (rs : List SegmentRecord) : Prop where
  enclosed : Enclosed cfg gens extent rs
  apart : ∀ r ∈ rs, ∀ r' ∈ rs, r.sequence ≠ r'.sequence → r.Apart r'
  contiguous : ∃ head, rs.map (·.sequence) = List.range' head rs.length

/-- A record that lies after all others of its segment. -/
structure SegmentRecord.Fresh (cfg : AppendLogConfig) (gens : List ℕ) (extent : ℕ → ℕ)
    (rs : List SegmentRecord) (r : SegmentRecord) : Prop extends r.Inside cfg gens extent where
  after : ∀ r' ∈ rs, r'.segmentGeneration = r.segmentGeneration → r'.stop ≤ r.start

lemma SegmentRecord.Fresh.apart {cfg : AppendLogConfig} {gens : List ℕ} {extent : ℕ → ℕ}
    {rs : List SegmentRecord} {r r' : SegmentRecord} (h : r.Fresh cfg gens extent rs)
    (hr' : r' ∈ rs) : r'.Apart r := fun hg => .inl (h.after r' hr' hg)

/-- The records for which `p` holds, moved to their places in `reps`. -/
def moveTo (p : SegmentRecord → Prop) [DecidablePred p] (reps : List SegmentRecord)
    (r : SegmentRecord) : SegmentRecord :=
  if p r then (reps.find? fun rep => rep.sequence = r.sequence).getD r else r

section Move

variable {p : SegmentRecord → Prop} [DecidablePred p] {reps rs : List SegmentRecord}

/-- Every record afterwards is a replacement or a record that stays, with the same sequence. -/
lemma moveTo_cases (hall : ∀ r ∈ rs, p r → ∃ rep ∈ reps, rep.sequence = r.sequence)
    {r : SegmentRecord} (hr : r ∈ rs) : (moveTo p reps r).sequence = r.sequence ∧
      (moveTo p reps r ∈ reps ∨ moveTo p reps r = r ∧ ¬p r) := by
  unfold moveTo
  by_cases hp : p r
  · rw [if_pos hp]
    obtain ⟨rep, hm, hs⟩ := hall r hr hp
    cases hf : reps.find? fun rep => rep.sequence = r.sequence with
    | none =>
      have hnone := List.find?_eq_none.1 hf rep hm
      simp [hs] at hnone
    | some x => exact ⟨by simpa using List.find?_some hf, .inl (List.mem_of_find?_eq_some hf)⟩
  · rw [if_neg hp]
    exact ⟨rfl, .inr ⟨rfl, hp⟩⟩

lemma mem_moveTo (hall : ∀ r ∈ rs, p r → ∃ rep ∈ reps, rep.sequence = r.sequence)
    {x : SegmentRecord} (hx : x ∈ rs.map (moveTo p reps)) : x ∈ reps ∨ x ∈ rs ∧ ¬p x := by
  obtain ⟨r, hr, rfl⟩ := List.mem_map.1 hx
  obtain ⟨-, hm | ⟨he, hp⟩⟩ := moveTo_cases hall hr
  · exact .inl hm
  · right
    rw [he]
    exact ⟨hr, hp⟩

end Move

namespace Enclosed

variable {cfg : AppendLogConfig} {gens gens' : List ℕ} {extent extent' : ℕ → ℕ}
  {rs : List SegmentRecord} {d d' : Disk}

lemma nil : Enclosed cfg gens extent [] := fun _ h => absurd h List.not_mem_nil

lemma fits (h : Enclosed cfg gens extent rs) : ∀ r ∈ rs, r.Fits cfg := fun r hr => (h r hr).fits

lemma mem (h : Enclosed cfg gens extent rs) : ∀ r ∈ rs, r.segmentGeneration ∈ gens :=
  fun r hr => (h r hr).mem

lemma mono (h : Enclosed cfg gens extent rs) (hg : ∀ r ∈ rs, r.segmentGeneration ∈ gens')
    (he : ∀ g ∈ gens, extent g ≤ extent' g) : Enclosed cfg gens' extent' rs := fun r hr =>
  ⟨(h r hr).fits, hg r hr, (h r hr).header_le, (h r hr).stop_le.trans (he _ (h r hr).mem)⟩

/-- An event writes one record. -/
lemma step (h : Enclosed cfg gens extent rs) {e : QueueLog.Event ℕ SegmentRecord}
    (he : ∀ r, e.Writes r → r.Inside cfg gens extent) :
    Enclosed cfg gens extent (QueueLog.step SegmentRecord.sequence rs e) := fun x hx =>
  (QueueLog.mem_step hx).elim (h x) (he x)

/-- Reading a record depends on the extents only. -/
lemma view (h : Enclosed cfg gens extent rs) (hh : Held gens extent d)
    (hk : Keeps gens extent d d') :
    rs.map (SegmentRecord.view d') = rs.map (SegmentRecord.view d) := by
  refine List.map_congr_left fun r hr => ?_
  obtain ⟨data, hd, hle⟩ := hh _ (h r hr).mem
  obtain ⟨data', hd', ht⟩ := hk _ (h r hr).mem data hd hle
  have hstop := (h r hr).stop_le
  rw [SegmentRecord.stop] at hstop
  generalize extent r.segmentGeneration = n at ht hstop
  have hcut : ∀ bytes : Bytes, (bytes.drop r.payloadOffset).take r.payloadBytes =
      ((bytes.take n).drop r.payloadOffset).take r.payloadBytes := by
    intro bytes
    have hmin : min r.payloadBytes (n - r.payloadOffset) = r.payloadBytes := by omega
    rw [List.drop_take, List.take_take, hmin]
  rw [SegmentRecord.view, SegmentRecord.view, hd, hd', Option.getD_some, Option.getD_some,
    hcut data', ht, ← hcut]

/-- The records for which `p` holds are moved to their places in `reps`. -/
lemma move (h : Enclosed cfg gens extent rs) {p : SegmentRecord → Prop} [DecidablePred p]
    {reps : List SegmentRecord}
    (hall : ∀ r ∈ rs, p r → ∃ rep ∈ reps, rep.sequence = r.sequence)
    (hrep : Enclosed cfg gens' extent' reps)
    (hkeep : ∀ r ∈ rs, ¬p r → r.segmentGeneration ∈ gens' ∧
      extent r.segmentGeneration ≤ extent' r.segmentGeneration) :
    Enclosed cfg gens' extent' (rs.map (moveTo p reps)) := by
  intro x hx
  rcases mem_moveTo hall hx with hm | ⟨hm, hp⟩
  · exact hrep x hm
  · obtain ⟨hgen, hle⟩ := hkeep x hm hp
    exact ⟨(h x hm).fits, hgen, (h x hm).header_le, (h x hm).stop_le.trans hle⟩

end Enclosed

namespace Placed

variable {cfg : AppendLogConfig} {gens gens' : List ℕ} {extent extent' : ℕ → ℕ}
  {rs : List SegmentRecord}

lemma nil : Placed cfg gens extent [] where
  enclosed := Enclosed.nil
  apart _ h := absurd h List.not_mem_nil
  contiguous := ⟨0, rfl⟩

lemma nodup (h : Placed cfg gens extent rs) : (rs.map (·.sequence)).Nodup := by
  obtain ⟨head, hh⟩ := h.contiguous
  rw [hh]
  exact List.nodup_range'

lemma mono (h : Placed cfg gens extent rs) (he : Enclosed cfg gens' extent' rs) :
    Placed cfg gens' extent' rs := ⟨he, h.apart, h.contiguous⟩

/-- An event of a live record, or of the record that comes next. -/
lemma step (h : Placed cfg gens extent rs) {e : QueueLog.Event ℕ SegmentRecord}
    (hfresh : ∀ r, e.Writes r → r.Fresh cfg gens extent rs)
    (hpush : ∀ r, e = .push r → ∀ back, (rs.map (·.sequence)).getLast? = some back →
      r.sequence = back + 1)
    (hput : ∀ r, e = .put r → ∃ x ∈ rs, x.sequence = r.sequence) :
    Placed cfg gens extent (QueueLog.step SegmentRecord.sequence rs e) where
  enclosed := h.enclosed.step fun r hr => (hfresh r hr).toInside
  apart x hx y hy hne := by
    have hone : ∀ {r r'}, e.Writes r → e.Writes r' → r = r' := by
      rintro r r' (rfl | rfl) (h | h) <;> cases h <;> rfl
    rcases QueueLog.mem_step hx with hx | hx <;> rcases QueueLog.mem_step hy with hy | hy
    · exact h.apart x hx y hy hne
    · exact (hfresh y hy).apart hx
    · exact ((hfresh x hx).apart hy).symm
    · exact absurd (congrArg SegmentRecord.sequence (hone hx hy)) hne
  contiguous := by
    obtain ⟨head, hh⟩ := h.contiguous
    cases e with
    | push r =>
      obtain ⟨head', hh'⟩ := range'_concat_next hh (hpush r rfl)
      refine ⟨head', ?_⟩
      rw [QueueLog.step, List.map_append, List.length_append]
      exact hh'
    | put r =>
      obtain ⟨x, hx, hs⟩ := hput r rfl
      obtain ⟨rs', hrs⟩ := Option.isSome_iff_exists.1 (QueueLog.isSome_replaceFirst hx hs)
      have hkeys : rs'.map (·.sequence) = rs.map (·.sequence) := QueueLog.map_key_replaceFirst hrs
      have hlen : rs'.length = rs.length := by
        rw [← List.length_map (f := (·.sequence)), hkeys, List.length_map]
      refine ⟨head, ?_⟩
      rw [QueueLog.step, QueueLog.putInto, hrs, Option.getD_some, hkeys, hlen]
      exact hh
    | pop sequence =>
      cases rs with
      | nil => exact ⟨head, hh⟩
      | cons x xs =>
        rw [QueueLog.step, QueueLog.dropFront]
        split
        · refine ⟨head + 1, ?_⟩
          rw [List.map_cons, List.length_cons, List.range'_succ] at hh
          exact (List.cons.inj hh).2
        · exact ⟨head, hh⟩

/-- The records for which `p` holds are moved to their places in `reps`. -/
lemma move (h : Placed cfg gens extent rs) {p : SegmentRecord → Prop} [DecidablePred p]
    {reps : List SegmentRecord}
    (hall : ∀ r ∈ rs, p r → ∃ rep ∈ reps, rep.sequence = r.sequence)
    (henclosed : Enclosed cfg gens' extent' (rs.map (moveTo p reps)))
    (hapart : ∀ rep ∈ reps, ∀ rep' ∈ reps, rep.sequence ≠ rep'.sequence → rep.Apart rep')
    (hnew : ∀ rep ∈ reps, ∀ r ∈ rs, ¬p r → rep.segmentGeneration ≠ r.segmentGeneration) :
    Placed cfg gens' extent' (rs.map (moveTo p reps)) := by
  refine ⟨henclosed, fun x hx y hy hne => ?_, ?_⟩
  · rcases mem_moveTo hall hx with hx | ⟨hx, hpx⟩ <;> rcases mem_moveTo hall hy with hy | ⟨hy, hpy⟩
    · exact hapart x hx y hy hne
    · exact fun hg => absurd hg (hnew x hx y hy hpy)
    · exact fun hg => absurd hg.symm (hnew y hy x hx hpx)
    · exact h.apart x hx y hy hne
  · obtain ⟨head, hh⟩ := h.contiguous
    refine ⟨head, ?_⟩
    rw [List.length_map, ← hh, List.map_map]
    exact List.map_congr_left fun r hr => (moveTo_cases hall hr).1

end Placed

/-! ## The records of a log -/

lemma located_fits {cfg : AppendLogConfig} {gen offset : ℕ} {evs : List LogEvent}
    (hf : ∀ ev ∈ evs, ev.Fits cfg.maxRecordBytes) {e : QueueLog.Event ℕ SegmentRecord}
    (he : e ∈ locate gen offset evs) {r : SegmentRecord} (hw : e.Writes r) : r.Fits cfg := by
  induction evs generalizing offset with
  | nil => cases he
  | cons ev evs ih =>
    rcases List.mem_cons.1 he with rfl | he
    · have hfit := hf ev (List.mem_cons_self ..)
      cases ev <;> rcases hw with hw | hw <;> cases hw <;> exact hfit
    · exact ih (fun ev' hev => hf ev' (List.mem_cons_of_mem _ hev)) he

lemma locate_bounds {gen offset : ℕ} {evs : List LogEvent} {e : QueueLog.Event ℕ SegmentRecord}
    (he : e ∈ locate gen offset evs) {r : SegmentRecord} (hw : e.Writes r) :
    offset + kEnqueueHeaderBytes ≤ r.payloadOffset ∧
      r.stop ≤ offset + (encodeEvents evs).length := by
  induction evs generalizing offset with
  | nil => cases he
  | cons ev evs ih =>
    rw [encodeEvents_cons, List.length_append]
    rcases List.mem_cons.1 he with rfl | he
    · have hlen : ∀ magic seq (payload : Bytes), (serializePayloadEvent magic seq payload).length =
          kEnqueueOverheadBytes + payload.length := length_serializePayloadEvent
      simp only [kEnqueueOverheadBytes, kEnqueueHeaderBytes, kEventTrailerBytes] at hlen
      cases ev with
      | enqueue seq payload =>
        rcases hw with hw | hw <;> cases hw
        simp only [SegmentRecord.stop, LogEvent.encode, serializeEnqueueEvent, hlen,
          kEnqueueHeaderBytes, kEventTrailerBytes]
        omega
      | rewrite seq payload =>
        rcases hw with hw | hw <;> cases hw
        simp only [SegmentRecord.stop, LogEvent.encode, serializeRewriteEvent, hlen,
          kEnqueueHeaderBytes, kEventTrailerBytes]
        omega
      | pop seq => rcases hw with h | h <;> cases h
    · have := ih he
      omega

/-- The events of a log lie one after the other. -/
lemma locate_pairwise (gen offset : ℕ) (evs : List LogEvent) :
    (locate gen offset evs).Pairwise fun e e' =>
      ∀ r r', e.Writes r → e'.Writes r' → r.stop ≤ r'.start := by
  induction evs generalizing offset with
  | nil => exact List.Pairwise.nil
  | cons ev evs ih =>
    refine List.pairwise_cons.2 ⟨fun e' he' r r' hr hr' => ?_, ih _⟩
    have h1 : r.stop ≤ offset + (encodeEvents [ev]).length :=
      (locate_bounds (List.mem_singleton_self _) hr).2
    have h2 := (locate_bounds he' hr').1
    rw [encodeEvents_cons, encodeEvents_nil, List.append_nil] at h1
    rw [SegmentRecord.start]
    omega

end Pqueue
