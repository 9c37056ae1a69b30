import Pqueue.Store.Runs

/-!
# What the methods do to the contents

`Holds cfg ram d L` says that the store object has the live records `L`, sequence and payload, the
queue head first, as a reader of the directory sees them.  Each method is specified by what it does
to `L`, whatever calls fail: a commit that succeeds logs one event, one that fails logs none, and
everything else leaves `L` alone.
-/

namespace Pqueue

open Effect LittleEndian

/-- The object has the contents `L`; before the mount there are none. -/
def Holds (cfg : AppendLogConfig) (ram : Ram) (d : Disk) (L : List (ℕ × Bytes)) : Prop :=
  Fresh ram d ∧ L = [] ∨
    Ready cfg ram d L ∧ ram.nextSequence = 0 ∧ ∀ s ∈ ram.seqs, s < 2 ^ 32 - 1

/-- Without failures a record of a contiguous index is read where it lies. -/
lemma run_readRecord_of_contiguous {env : Env} {cfg : AppendLogConfig} {ram : Ram} {w : World}
    {head i : ℕ} {sr : SegmentRecord} {file : Bytes} (hm : ram.mounted = true)
    (hh : ram.seqs = List.range' head ram.records.length)
    (hlt : head + ram.records.length < 2 ^ 32) (hsr : ram.records[i]? = some sr)
    (hfile : w.disk.lookup (segmentName sr.segmentGeneration) = some file)
    (hle : sr.stop ≤ file.length) :
    Prog.run (handle env) (Store.readRecord cfg sr.sequence ram) w =
      some ((.ok (sr.view w.disk).2, ram), w) := by
  rw [SegmentRecord.stop] at hle
  have hseq : sr.sequence = head + i := key_of_getElem? hh hsr
  have hw : Wpc env (fun _ _ => True) False (fun _ => True) (Store.readRecord cfg sr.sequence)
      (fun r ram' w' => r = .ok (sr.view w.disk).2 ∧ ram' = ram ∧ w' = w) ram w := by
    rw [Store.readRecord, wpc_bind, Store.ensureMounted, wpc_bind, wpc_get, andThen_ok, wpc_when]
    refine ⟨fun hn => absurd hm hn, fun _ => ?_⟩
    rw [andThen_ok, wpc_bind, Store.lookupRecord, wpc_bind, wpc_get, andThen_ok]
    cases hrec : ram.records with
    | nil =>
      rw [hrec] at hsr
      cases hsr
    | cons front rest =>
      rw [Ram.seqs, hrec] at hh
      rw [hrec] at hsr hlt
      have hfront : front.sequence = head + 0 := key_of_getElem? hh rfl
      have hilt : i < (front :: rest).length := (List.getElem?_eq_some_iff.1 hsr).1
      rw [List.length_cons] at hilt hlt
      have hin : ¬(sr.sequence < front.sequence ∨
          sr.sequence ≥ u32 (front.sequence + u32 (front :: rest).length)) := by
        rw [List.length_cons, u32_of_lt (by omega : rest.length + 1 < 2 ^ 32), u32_of_lt (by omega)]
        omega
      have hidx : sr.sequence - front.sequence = i := by omega
      simp only [if_neg hin, hidx, hsr]
      rw [wpc_pure, andThen_ok, wpc_call, wpc_tryCall_readAt]
      simp only [handle, hfile]
      rw [if_pos (by omega)]
      simp only
      refine ⟨?_, trivial, trivial⟩
      rw [SegmentRecord.view, hfile]
      rfl
  obtain ⟨⟨r, ram'⟩, w', hrun, rfl, rfl, rfl⟩ := Prog.wpc_total hw (Prog.marksOk_true _ _ _)
  exact hrun

namespace Holds

variable {env : Env} {cfg : AppendLogConfig} {harm : FsCall → Disk → Disk → Prop}
  {A : StoreMark → Disk → Prop} {ram ram' : Ram} {d d' : Disk} {L : List (ℕ × Bytes)}
  {evs : List LogEvent} {α : Type}

lemma start {d : Disk} (h : d = ∅) : Holds cfg {} d [] := by
  refine .inl ⟨⟨rfl, rfl, rfl, rfl, rfl, rfl, fun name _ => ?_⟩, rfl⟩
  rw [h]
  rfl

lemma contents (h : Holds cfg ram d L) : ram.contents d = L := by
  rcases h with ⟨h, rfl⟩ | ⟨h, -⟩
  · rw [Ram.contents, h.records]
    rfl
  · exact h.contents

/-- The sequences of the contents are those of the index. -/
lemma keys (h : Holds cfg ram d L) : L.map Prod.fst = ram.seqs := by
  rw [← h.contents, Ram.contents, List.map_map]
  rfl

/-- They follow one another. -/
lemma contiguous (h : Holds cfg ram d L) : ∃ head, L.map Prod.fst = List.range' head L.length := by
  rcases h with ⟨-, rfl⟩ | ⟨⟨-, rfl⟩ | ⟨h, rfl⟩, -⟩
  · exact ⟨0, rfl⟩
  · exact ⟨0, rfl⟩
  · obtain ⟨head, hh⟩ := h.placed.contiguous
    refine ⟨head, ?_⟩
    rw [Ram.contents, List.map_map, List.length_map]
    exact hh

lemma seqs_lt (h : Holds cfg ram d L) : ∀ s ∈ L.map Prod.fst, s < 2 ^ 32 - 1 := by
  rcases h with ⟨-, rfl⟩ | h
  · exact fun _ hs => absurd hs List.not_mem_nil
  · rw [Holds.keys (.inr h)]
    exact h.2.2

/-- What the mounted object knows. -/
lemma of_mounted (h : Holds cfg ram d L) (hm : ram.mounted = true) :
    Ready cfg ram d L ∧ ram.nextSequence = 0 ∧ ∀ s ∈ ram.seqs, s < 2 ^ 32 - 1 :=
  h.resolve_left fun hf => Bool.false_ne_true (hf.1.mounted.symm.trans hm)

lemma of_blank (hb : Blank ram) (hn : ram.nextSequence = 0) : Holds cfg ram d [] := by
  refine .inr ⟨.inl ⟨hb, rfl⟩, hn, fun s hs => ?_⟩
  rw [Ram.seqs, hb.records] at hs
  exact absurd hs List.not_mem_nil

/-- Without failures a record is read back. -/
lemma run_readRecord {w : World} (h : Holds cfg ram w.disk L) {i s : ℕ} {data : Bytes}
    (hi : L[i]? = some (s, data)) :
    Prog.run (handle env) (Store.readRecord cfg s ram) w = some ((.ok data, ram), w) := by
  rcases h with ⟨-, rfl⟩ | ⟨⟨-, rfl⟩ | ⟨hc, rfl⟩, -, hlt⟩
  · cases hi
  · cases hi
  obtain ⟨head, hh⟩ := hc.placed.contiguous
  obtain ⟨sr, hsr, hview⟩ := Option.map_eq_some_iff.1 ((List.getElem?_map ..).symm.trans hi)
  obtain ⟨rfl, rfl⟩ := Prod.mk.inj hview
  have hmem := List.mem_of_getElem? hsr
  obtain ⟨file, hfile, hle⟩ := hc.held _ (hc.enclosed.mem sr hmem)
  have hstop := (hc.enclosed sr hmem).stop_le
  have hilt : i < ram.records.length := (List.getElem?_eq_some_iff.1 hsr).1
  have hlast := hlt (head + (ram.records.length - 1)) (by
    rw [Ram.seqs, hh]
    exact List.mem_range'_1.2 (by omega))
  exact run_readRecord_of_contiguous hc.mounted hh (by omega) hsr hfile (hstop.trans hle)

end Holds

/-! ## What the queue relies on -/

/-- `H` says what the contents of a store object are, and the methods change them as the queue
relies on: through the moves of a mounted object, which a mount makes of any other. -/
structure Backs (env : Env) (cfg : AppendLogConfig) (harm : FsCall → Disk → Disk → Prop)
    (A : StoreMark → Disk → Prop) (H : Ram → Disk → List (ℕ × Bytes) → Prop) : Prop where
  damaging : Damaging harm
  gen_lt : ∀ g d, A (.allocate g) d → g + 1 < 2 ^ 32
  contents : ∀ {ram d L}, H ram d L → ram.mounted = true → ram.contents d = L
  contiguous : ∀ {ram d L}, H ram d L → ram.mounted = true →
    ∃ head, L.map Prod.fst = List.range' head L.length
  seqs_lt : ∀ {ram d L}, H ram d L → ram.mounted = true → ∀ s ∈ L.map Prod.fst, s < 2 ^ 32 - 1
  tail : ∀ {ram d L}, H ram d L → ram.mounted = true → ram.index.tail < 2 ^ 32 ∧
    ∀ back, (L.map Prod.fst).getLast? = some back → ram.index.tail = back + 1
  moves : ∀ {ram d L evs ram' d'}, H ram d L → ram.mounted = true →
    Moves cfg harm A ram d evs ram' d' → H ram' d' (afterEvents L evs)
  lock : ∀ {ram d L d'}, H ram d L → SameExcept kLockFileName d d' → H ram d' L
  unmounted : ∀ {ram d L}, H ram d L → ram.mounted = false → ram.manifestRanges = []
  mount : ∀ {ram d L}, H ram d L → ram.mounted = false → Wp env harm A (fun _ => True)
    (Store.mount cfg) (fun r ram' d' => H ram' d' L ∧ (r = .ok () → ram'.mounted = true)) ram d

namespace Backs

variable {env : Env} {cfg : AppendLogConfig} {harm : FsCall → Disk → Disk → Prop}
  {A : StoreMark → Disk → Prop} {H : Ram → Disk → List (ℕ × Bytes) → Prop} {ram ram' : Ram}
  {d d' : Disk} {L : List (ℕ × Bytes)} {evs : List LogEvent} {α : Type}

/-- The sequences of the contents are those of the index. -/
lemma keys (hb : Backs env cfg harm A H) (h : H ram d L) (hm : ram.mounted = true) :
    L.map Prod.fst = ram.seqs := by
  rw [← hb.contents h hm, Ram.contents, List.map_map]
  rfl

lemma length_lt (hb : Backs env cfg harm A H) (h : H ram d L) (hm : ram.mounted = true) :
    L.length < 2 ^ 32 := by
  obtain ⟨head, hh⟩ := hb.contiguous h hm
  have hlt := hb.seqs_lt h hm
  rw [hh] at hlt
  by_contra hge
  have := hlt (head + (L.length - 1)) (List.mem_range'_1.2 (by omega))
  omega

/-- Records are found by their distance from the front. -/
lemma getElem?_of_mem (hb : Backs env cfg harm A H) {s : ℕ} {p data : Bytes}
    {rest : List (ℕ × Bytes)} {i : ℕ} (h : H ram d ((s, p) :: rest)) (hm : ram.mounted = true)
    (hmem : (s + i, data) ∈ (s, p) :: rest) : ((s, p) :: rest)[i]? = some (s + i, data) := by
  obtain ⟨head, hh⟩ := hb.contiguous h hm
  obtain ⟨j, hj⟩ := List.getElem?_of_mem hmem
  have h0 : (s, p).1 = head + 0 := key_of_getElem? hh rfl
  have h1 : (s + i, data).1 = head + j := key_of_getElem? hh hj
  simp only at h0 h1
  obtain rfl : j = i := by omega
  exact hj

/-- The index of the object describes the contents. -/
lemma index (hb : Backs env cfg harm A H) (h : H ram d L) (hm : ram.mounted = true) :
    ram.index.count = L.length ∧ (∀ s p rest, L = (s, p) :: rest → ram.index.head = s) ∧
      ram.index.tail < 2 ^ 32 ∧ ∀ back, (L.map Prod.fst).getLast? = some back →
        ram.index.tail = back + 1 := by
  have hkeys := hb.keys h hm
  refine ⟨?_, ?_, hb.tail h hm⟩
  · rw [Ram.index]
    have hlen : ram.records.length = L.length := by
      rw [← hb.contents h hm, Ram.contents, List.length_map]
    cases hrec : ram.records with
    | nil =>
      rw [hrec] at hlen
      exact hlen
    | cons r rs =>
      have hlast : (r :: rs).getLast? = some ((r :: rs).getLast (List.cons_ne_nil _ _)) :=
        List.getLast?_eq_getLast_of_ne_nil _
      simp only [List.head?_cons, hlast]
      rw [← hrec, hlen, u32_of_lt (hb.length_lt h hm)]
  · rintro s p rest rfl
    rw [Ram.seqs] at hkeys
    cases hrec : ram.records with
    | nil =>
      rw [hrec] at hkeys
      cases hkeys
    | cons r rs =>
      rw [hrec] at hkeys
      rw [Ram.index, hrec]
      have hlast : (r :: rs).getLast? = some ((r :: rs).getLast (List.cons_ne_nil _ _)) :=
        List.getLast?_eq_getLast_of_ne_nil _
      simp only [List.head?_cons, hlast]
      exact (List.cons.inj hkeys).1.symm

/-- A method that mounts first. -/
lemma wp_mounted (hb : Backs env cfg harm A H) (h : H ram d L) {k : Unit → Store α}
    {Q : DiskPost Ram α} (hok : ∀ {ram' d'}, H ram' d' L → ram'.mounted = true →
      Wp env harm A (fun _ => True) (k ()) Q ram' d')
    (herr : ∀ st {ram' d'}, H ram' d' L → Q (.error st) ram' d') :
    Wp env harm A (fun _ => True) (Store.ensureMounted cfg >>= k) Q ram d := by
  refine wp_bind (Q := fun r ram' d' => H ram' d' L ∧ (r = .ok () → ram'.mounted = true))
    (wp_get_bind (wp_when (fun hm => hb.mount h (Bool.eq_false_of_not_eq_true hm)) ?_))
    (fun _ _ _ hq => hok hq.1 (hq.2 rfl)) fun st _ _ hq => herr st hq.1
  exact fun hm => ⟨h, fun _ => not_not.1 hm⟩

lemma wp_readIndex (hb : Backs env cfg harm A H) (h : H ram d L) :
    Wp env harm A (fun _ => True) (Store.readIndex cfg) (fun r ram' d' => H ram' d' L ∧
      ∀ index, r = .ok index → ram'.mounted = true ∧ index = ram'.index) ram d := by
  refine hb.wp_mounted h (fun h hm => wp_get_bind (wp_pure ⟨h, fun index he => ⟨hm, ?_⟩⟩))
    fun st _ _ h => ⟨h, fun _ he => nomatch he⟩
  exact (Except.ok.inj he).symm

/-- A call on the lock file. -/
lemma wp_lock (hb : Backs env cfg harm A H) {c : FsCall} {contents : Bytes}
    (hc : c = .tryAcquireLockFile kLockFileName contents ∨
      c = .releaseLockFile kLockFileName contents) (h : H ram d L) :
    Wp env harm A (fun _ => True) (Store.call c) (fun _ ram' d' => H ram' d' L) ram d := by
  refine wp_call trivial (fun w hw _ _ => hb.lock h (hw ▸ handle_lock hc w))
    (fun w hw _ _ => hb.lock h (hw ▸ handle_lock hc w)) fun st d' hh => hb.lock h ?_
  have := hb.damaging _ _ _ hh
  rcases hc with rfl | rfl <;> exact this

/-- A commit that is told apart by its outcome. -/
lemma commits (hb : Backs env cfg harm A H) (h : H ram d L) (hm : ram.mounted = true)
    {m : Store Unit} {P : Ram → Prop} {n : ℕ} {e : LogEvent}
    (hw : Wp env harm A (fun _ => True) m (Commits cfg harm A ram d [] P n e) ram d) :
    Wp env harm A (fun _ => True) m (fun r ram' d' => ram'.mounted = true ∧
      (r = .ok () → H ram' d' (afterEvents L [e])) ∧ ∀ st, r = .error st → H ram' d' L) ram d := by
  have hstill : ∀ {evs : List LogEvent} {ram' : Ram} {d' : Disk},
      Moves cfg harm A ram d evs ram' d' → ram'.mounted = true := fun hmoves =>
    hmoves.mounted.trans hm
  refine hw.mono fun r ram' d' hq => ⟨?_, fun hr => hb.moves h hm (hq.1 hr).1,
    fun st hr => hb.moves h hm (hq.2 st hr)⟩
  cases r with
  | ok _ => exact hstill (hq.1 rfl).1
  | error st => exact hstill (hq.2 st rfl)

/-- An enqueue at the tail of the index. -/
lemma wp_commitEnqueue (hb : Backs env cfg harm A H) (h : H ram d L) (hm : ram.mounted = true)
    {fuel sequence : ℕ} {record : Bytes} (hseq : sequence < 2 ^ 32)
    (hback : ∀ back, (L.map Prod.fst).getLast? = some back → sequence = back + 1) :
    Wp env harm A (fun _ => True) (Store.commitEnqueue cfg fuel sequence record)
      (fun r ram' d' => ram'.mounted = true ∧
        (r = .ok () → H ram' d' (L ++ [(sequence, record)])) ∧
        ∀ st, r = .error st → H ram' d' L) ram d :=
  hb.commits h hm (Pqueue.wp_commitEnqueue hb.damaging hb.gen_lt watched_true .refl hm hseq
    (by rwa [← hb.keys h hm]))

/-- A pop of the front record. -/
lemma wp_commitPop (hb : Backs env cfg harm A H) {s : ℕ} {p : Bytes} {rest : List (ℕ × Bytes)}
    (h : H ram d ((s, p) :: rest)) (hm : ram.mounted = true) :
    Wp env harm A (fun _ => True) (Store.commitPop cfg s)
      (fun r ram' d' => ram'.mounted = true ∧ (r = .ok () → H ram' d' rest) ∧
        ∀ st, r = .error st → H ram' d' ((s, p) :: rest)) ram d := by
  have hs : s < 2 ^ 32 - 1 := hb.seqs_lt h hm s (List.mem_cons_self ..)
  have hpop : afterEvents ((s, p) :: rest) [.pop s] = rest := if_pos rfl
  have hw : Wp env harm A (fun _ => True) (Store.commitPop cfg s)
      (Commits cfg harm A ram d [] _ _ (.pop s)) ram d :=
    Pqueue.wp_commitPop hb.damaging hb.gen_lt watched_true .refl hm (by omega)
  have hc := hb.commits h hm hw
  rwa [hpop] at hc

/-- A rewrite of the front record. -/
lemma wp_rewriteRecord (hb : Backs env cfg harm A H) {s : ℕ} {p : Bytes} {rest : List (ℕ × Bytes)}
    (h : H ram d ((s, p) :: rest)) (hm : ram.mounted = true) {fuel : ℕ} {record : Bytes} :
    Wp env harm A (fun _ => True) (Store.rewriteRecord cfg fuel s record)
      (fun r ram' d' => ram'.mounted = true ∧
        (r = .ok () → H ram' d' ((s, record) :: rest)) ∧
        ∀ st, r = .error st → H ram' d' ((s, p) :: rest)) ram d := by
  have hs : s < 2 ^ 32 - 1 := hb.seqs_lt h hm s (List.mem_cons_self ..)
  have hput : afterEvents ((s, p) :: rest) [.rewrite s record] = (s, record) :: rest := by
    show QueueLog.putInto Prod.fst (s, record) ((s, p) :: rest) = _
    rw [QueueLog.putInto, QueueLog.replaceFirst, if_pos rfl]
    rfl
  have hw : Wp env harm A (fun _ => True) (Store.rewriteRecord cfg fuel s record)
      (Commits cfg harm A ram d [] _ _ (.rewrite s record)) ram d :=
    Pqueue.wp_rewriteRecord hb.damaging hb.gen_lt watched_true .refl hm (by omega)
  have hc := hb.commits h hm hw
  rwa [hput] at hc

/-- Reading gives the payload that the contents have for the sequence. -/
lemma wp_readRecord (hb : Backs env cfg harm A H) (h : H ram d L) (hm : ram.mounted = true)
    {sequence : ℕ} :
    Wp env harm A (fun _ => True) (Store.readRecord cfg sequence)
      (fun r ram' d' => ram' = ram ∧ d' = d ∧ ∀ data, r = .ok data →
        (sequence, data) ∈ L) ram d := by
  refine (Pqueue.wp_readRecord hb.damaging trivial hm).mono fun r ram' d' hq =>
    ⟨hq.1, hq.2.1, fun data hr => ?_⟩
  obtain ⟨front, rest, sr, hrec, hle, hget, rfl⟩ := hq.2.2 data hr
  obtain ⟨head, hh⟩ := hb.contiguous h hm
  have hkeys := hb.keys h hm
  rw [← hb.contents h hm]
  have hmem : sr ∈ ram.records := by
    rw [hrec]
    exact List.mem_of_getElem? hget
  have hseq : sr.sequence = sequence := by
    have hrange : (front :: rest).map (·.sequence) = List.range' head L.length := by
      rw [← hh, hkeys, Ram.seqs, hrec]
    have hfront : front.sequence = head + 0 := key_of_getElem? hrange rfl
    have hsr : sr.sequence = head + _ := key_of_getElem? hrange hget
    omega
  exact List.mem_map.2 ⟨sr, hmem, by rw [SegmentRecord.view, hseq]⟩

/-- A method that only compacts. -/
lemma wp_quiet (hb : Backs env cfg harm A H) (h : H ram d L) (hm : ram.mounted = true)
    {m : Store α} (hw : Wp env harm A (fun _ => True) m
      (fun _ ram' d' => Moves cfg harm A ram d [] ram' d') ram d) :
    Wp env harm A (fun _ => True) m (fun _ ram' d' => ram'.mounted = true ∧ H ram' d' L)
      ram d :=
  hw.mono fun _ _ _ hq => ⟨hq.mounted.trans hm, hb.moves h hm hq⟩

end Backs

/-- A session from an empty directory, whatever calls fail. -/
lemma backs_holds {env : Env} {cfg : AppendLogConfig} {harm : FsCall → Disk → Disk → Prop}
    {A : StoreMark → Disk → Prop} (hd : Damaging harm) (hA : ∀ mk d, A mk d → OffsetsFit mk) :
    Backs env cfg harm A (Holds cfg) where
  damaging := hd
  gen_lt g d hmk := hA (.allocate g) d hmk
  contents h _ := h.contents
  contiguous h _ := h.contiguous
  seqs_lt h _ := h.seqs_lt
  tail h hm := by
    obtain ⟨-, hn, hlt⟩ := h.of_mounted hm
    rw [h.keys]
    exact index_tail hn hlt
  moves h hm hmoves := by
    obtain ⟨hr, hn, hlt⟩ := h.of_mounted hm
    exact .inr ⟨hr.moves hd hA hmoves, hmoves.nextSequence.trans hn, hmoves.seqs_lt hlt⟩
  lock {ram d L d'} h hs := by
    rcases h with ⟨hf, hL⟩ | ⟨hr, hn, hlt⟩
    · exact .inl ⟨{ hf with empty := fun name hne => (hs name hne).trans (hf.empty name hne) }, hL⟩
    · have hm : Moves cfg harm A ram d [] ram d' := Moves.refl.quiet (.lock hs)
      exact .inr ⟨hr.moves hd hA hm, hn, hlt⟩
  unmounted h hm := by
    rcases h with ⟨hf, -⟩ | h
    · exact hf.ranges
    · exact absurd (h.1.mounted.symm.trans hm) (by simp)
  mount {ram d L} h hm := by
    rcases h with ⟨hf, rfl⟩ | h
    · apply (hf.wp_mount hd trivial).mono
      rintro (e | _) ram' d' ⟨rfl, hok, herr⟩
      · rw [herr e rfl]
        exact ⟨.inl ⟨hf, rfl⟩, fun he => nomatch he⟩
      · obtain ⟨hb, -, hn⟩ := hok rfl
        exact ⟨Holds.of_blank hb hn, fun _ => hb.mounted⟩
    · exact absurd (h.1.mounted.symm.trans hm) (by simp)

end Pqueue
