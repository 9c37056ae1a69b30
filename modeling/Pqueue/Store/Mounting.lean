import Pqueue.Program.Termination
import Pqueue.Store.Image

/-!
# Which directories mount

`Disk.Mounts` decides whether a directory mounts, from its bytes alone: an elected manifest within
the guards whose segments scan, or no manifest and no segment.  `within_mount` says that mounting
any directory whose ranges can be expanded (`Disk.Wraps`) comes to an end, that it succeeds exactly
when `Disk.Mounts` says so, and what the object then holds.
-/

namespace Pqueue

open Effect LittleEndian

/-! ## Removals that fail -/

/-- Every call completes, except that the removal of a file in `F` fails and leaves the file. -/
def refusing {κ : Type} (env : Env) (F : FileName → Bool) : Prog.Handler (Fs κ) World
  | .removeFile name, w =>
    if F name then (.error (env.backend.failure .removeFailed "failed to remove file"
      "failed to remove LittleFS file"), w)
    else handle env (.removeFile name) w
  | c, w => handle env c w

@[simp] lemma failure_code (b : StorageBackend) (code : StatusCode) (posix littleFS : String) :
    (b.failure code posix littleFS).code = code := by
  cases b <;> rfl

/-- No removal fails. -/
lemma refusing_none {κ : Type} (env : Env) :
    (refusing env fun _ => false : Prog.Handler (Fs κ) World) = handle env := by
  funext c w
  cases c <;> rfl

/-! ## The bytes of a directory -/

/-- The contents of a segment file that the size guard lets through. -/
def Disk.segmentBytes (d : Disk) (gen : ℕ) : Option Bytes :=
  (d.lookup (segmentName gen)).filter fun data =>
    kSegmentHeaderBytes ≤ data.length ∧ data.length ≤ kMaxReplaySegmentReadBytes

/-- The file starts with a header of generation `gen`. -/
def headedBy (gen : ℕ) (data : Bytes) : Bool :=
  match parseSegmentHeader (data.take kSegmentHeaderBytes) with
  | .ok header => header.generation = gen
  | .error _ => false

/-- The log in segment `gen` and the bytes at which its scan stops, if the file has the right size
and header. -/
def Disk.log (cfg : AppendLogConfig) (d : Disk) (gen : ℕ) : Option (List LogEvent × Bytes) :=
  ((Disk.segmentBytes d gen).filter (headedBy gen)).map fun data =>
    let body := data.drop kSegmentHeaderBytes
    let evs := readLog cfg.maxRecordBytes body.length body
    (evs, body.drop (encodeEvents evs).length)

def Disk.events (cfg : AppendLogConfig) (d : Disk) (gen : ℕ) : List LogEvent :=
  ((Disk.log cfg d gen).map Prod.fst).getD []

def Disk.torn (cfg : AppendLogConfig) (d : Disk) (gen : ℕ) : Bytes :=
  ((Disk.log cfg d gen).map Prod.snd).getD []

/-- The segments of the list can be scanned, the last one up to where its log ends. -/
def Disk.Scans (cfg : AppendLogConfig) (d : Disk) : List ℕ → Prop
  | [] => True
  | g :: gs => (∃ evs torn, Disk.log cfg d g = some (evs, torn) ∧ (gs = [] ∨ torn = [])) ∧
      Disk.Scans cfg d gs

/-- The generations of the elected manifest, in replay order. -/
def Disk.gens (d : Disk) : List ℕ := ((Disk.elected d).map ManifestData.gens).getD []

/-- The directory after the tail of the segments in `gens` was cut where its log ends. -/
def Disk.recovered (env : Env) (cfg : AppendLogConfig) (d : Disk) (gens : List ℕ) : Disk :=
  Disk.afterScan env d (Disk.events cfg d) gens ((gens.getLast?.map (Disk.torn cfg d)).getD [])

/-- The span guard lets through a range up to the largest generation. -/
def Disk.Wraps (d : Disk) : Prop :=
  ∃ md, Disk.elected d = some md ∧ md.totalGens ≤ kManifestMaxTotalGenerations ∧
    ∃ r ∈ md.ranges, r.endGen = 2 ^ 32 - 1

/-- A directory that mounts. -/
def Disk.Mounts (cfg : AppendLogConfig) (d : Disk) : Prop :=
  match Disk.elected d with
  | none => ∀ name ∈ d.keys, isSegmentName name = none
  | some md => md.totalGens ≤ kManifestMaxTotalGenerations ∧
      (∀ r ∈ md.ranges, r.endGen ≠ 2 ^ 32 - 1) ∧ Disk.Scans cfg d md.gens ∧ NamesOk d

section

variable {cfg : AppendLogConfig} {d : Disk} {gen : ℕ} {evs : List LogEvent} {torn : Bytes}

lemma headedBy_serialize {gen s : ℕ} {rest : Bytes} (hg : gen < 2 ^ 32) (hs : s < 2 ^ 32) :
    headedBy gen (serializeSegmentHeader gen s ++ rest) = true := by
  rw [headedBy, List.take_left' (length_serializeSegmentHeader gen s),
    parseSegmentHeader_serialize hg hs]
  exact decide_eq_true rfl

lemma exists_of_headedBy {gen : ℕ} {data : Bytes} (hlen : kSegmentHeaderBytes ≤ data.length)
    (h : headedBy gen data = true) : gen < 2 ^ 32 ∧ ∃ s < 2 ^ 32,
      data.take kSegmentHeaderBytes = serializeSegmentHeader gen s := by
  unfold headedBy at h
  cases hp : parseSegmentHeader (data.take kSegmentHeaderBytes) with
  | error => simp [hp] at h
  | ok header =>
    obtain rfl : header.generation = gen := by simpa [hp] using h
    obtain ⟨rest, htake, hg, hs⟩ := parseSegmentHeader_eq_ok hp
    refine ⟨hg, header.startSeq, hs, ?_⟩
    have hl := congrArg List.length htake
    rw [List.length_take_of_le hlen, List.length_append, length_serializeSegmentHeader] at hl
    rw [htake, List.eq_nil_of_length_eq_zero (Nat.left_eq_add.1 hl), List.append_nil]

/-- `Disk.log` finds what was written. -/
lemma log_eq_some_iff : Disk.log cfg d gen = some (evs, torn) ↔
    SegmentFile cfg d gen evs torn ∧ (stopsAt cfg.maxRecordBytes torn).isSome ∧
      logBytes evs + torn.length ≤ kMaxReplaySegmentReadBytes := by
  constructor
  · intro h
    obtain ⟨data, hdata, heq⟩ := Option.map_eq_some_iff.1 h
    obtain ⟨hdata, hhead⟩ := Option.filter_eq_some_iff.1 hdata
    obtain ⟨hfile, hsize⟩ := Option.filter_eq_some_iff.1 hdata
    obtain ⟨hmin, hmax⟩ := of_decide_eq_true hsize
    obtain ⟨hgen, s, hs, htake⟩ := exists_of_headedBy hmin hhead
    have hlt : (data.drop kSegmentHeaderBytes).length < 2 ^ 32 := by
      rw [List.length_drop]
      exact Nat.lt_of_le_of_lt (Nat.sub_le ..) (Nat.lt_of_le_of_lt hmax (by decide))
    obtain ⟨evs', torn', corrupt, hbody, hfits, hstop⟩ :=
      exists_log cfg.maxRecordBytes (data.drop kSegmentHeaderBytes) hlt
    have hlog : readLog cfg.maxRecordBytes (data.drop kSegmentHeaderBytes).length
        (data.drop kSegmentHeaderBytes) = evs' := by
      rw [hbody]
      exact readLog_log hfits hstop le_rfl
    simp only [hlog] at heq
    obtain ⟨rfl, htorn⟩ := Prod.mk.inj heq
    rw [hbody, List.drop_left] at htorn
    obtain rfl := htorn
    have hdata : data = segmentData gen s evs' torn' := by
      rw [segmentData, ← htake, ← hbody, List.take_append_drop]
    refine ⟨⟨hgen, hfits, s, hs, hfile.trans (congrArg some hdata)⟩, by rw [hstop]; rfl, ?_⟩
    rw [← length_segmentData gen s, ← hdata]
    exact hmax
  · rintro ⟨⟨hgen, hfits, s, hs, hfile⟩, hstop, hsize⟩
    obtain ⟨corrupt, hstop⟩ := Option.isSome_iff_exists.1 hstop
    have hlen := length_segmentData gen s evs torn
    have hmin : kSegmentHeaderBytes ≤ (segmentData gen s evs torn).length := by
      rw [hlen, logBytes]
      omega
    have hbytes : Disk.segmentBytes d gen = some (segmentData gen s evs torn) :=
      Option.filter_eq_some_iff.2 ⟨hfile, decide_eq_true ⟨hmin, hlen ▸ hsize⟩⟩
    have hhead : headedBy gen (segmentData gen s evs torn) = true := headedBy_serialize hgen hs
    have hdrop : (segmentData gen s evs torn).drop kSegmentHeaderBytes = encodeEvents evs ++ torn :=
      List.drop_left' (length_serializeSegmentHeader gen s)
    have hread := readLog_log hfits hstop le_rfl
    rw [Disk.log, hbytes, Option.filter_some, if_pos hhead, Option.map_some, hdrop]
    simp only [hread, List.drop_left]

lemma events_eq (h : Disk.log cfg d gen = some (evs, torn)) : Disk.events cfg d gen = evs := by
  rw [Disk.events, h]
  rfl

lemma torn_eq (h : Disk.log cfg d gen = some (evs, torn)) : Disk.torn cfg d gen = torn := by
  rw [Disk.torn, h]
  rfl

end

/-! ## Calls -/

/-- The result of a failed method, which is no failure of the lock. -/
def Refused {α : Type} (r : Except Status α) : Prop := ∃ st, r = .error st ∧ st.code ≠ .lockTimeout

section Rules

variable {α β : Type} {env : Env} {F : FileName → Bool} {ram : Ram} {w : World} {n k b : ℕ}

/-- A part with its own count, then the rest. -/
lemma within_seq {m : Store α} {f : α → Store β} {Q : StorePost β} (n k : ℕ)
    (hm : Act.Within (refusing env F) n m
      (Act.andThen (fun a ram w => Act.Within (refusing env F) k (f a) Q ram w) Q) ram w)
    (hle : n + k ≤ b) : Act.Within (refusing env F) b (m >>= f) Q ram w :=
  (Act.within_bind hm).mono hle fun _ _ _ hq => hq

lemma within_tryCall {c : FsCall} {Q : StorePost (Except Status c.Val)}
    (hQ : Q (.ok (refusing (κ := StoreMark) env F c w).1) ram
      (refusing (κ := StoreMark) env F c w).2) :
    Act.Within (refusing env F) 1 (Store.tryCall c) Q ram w := Act.within_perform hQ

lemma within_when {c : Prop} [Decidable c] {m : Store Unit} {Q : StorePost Unit}
    (hm : c → Act.Within (refusing env F) n m Q ram w) (hQ : ¬c → Q (.ok ()) ram w) :
    Act.Within (refusing env F) n (Store.when c m) Q ram w := by
  rw [Store.when]
  by_cases h : c
  · rw [if_pos h]
    exact hm h
  · rw [if_neg h]
    exact Act.within_pure (hQ h)

/-! ## Segments -/

lemma within_readSegment (gen : ℕ) :
    Act.Within (refusing env F) 2 (Store.readSegment (segmentName gen)) (fun r ram' w' =>
      ram' = ram ∧ w' = w ∧ match Disk.segmentBytes w.disk gen with
        | some data => r = .ok data
        | none => Refused r) ram w := by
  have hrefused : Refused (.error ⟨.dataCorrupt, "segment missing, too small, or too large"⟩ :
      Except Status Bytes) := ⟨_, rfl, by simp⟩
  unfold Store.readSegment Disk.segmentBytes
  refine within_seq 1 1 (within_tryCall ?_) le_rfl
  cases hl : w.disk.lookup (segmentName gen) with
  | none =>
    simp only [refusing, handle, hl, andThen_ok]
    exact Act.within_fail ⟨rfl, rfl, hrefused⟩
  | some data =>
    simp only [refusing, handle, hl, andThen_ok]
    by_cases hsize : kSegmentHeaderBytes ≤ data.length ∧ data.length ≤ kMaxReplaySegmentReadBytes
    · rw [if_neg (not_or.2 ⟨not_lt.2 hsize.1, not_lt.2 hsize.2⟩), Option.filter_some,
        if_pos (decide_eq_true hsize)]
      refine within_seq 1 0 (within_tryCall ?_) le_rfl
      simp only [refusing, handle, hl, andThen_ok, ne_eq, not_true_eq_false, if_false]
      exact Act.within_pure ⟨rfl, rfl, rfl⟩
    · have hor : data.length < kSegmentHeaderBytes ∨ data.length > kMaxReplaySegmentReadBytes :=
        (not_and_or.1 hsize).imp not_le.1 not_le.1
      rw [if_pos hor, Option.filter_some, if_neg (by simpa using hsize)]
      exact Act.within_fail ⟨rfl, rfl, hrefused⟩

lemma within_checkHeader (gen : ℕ) (segBuf : Bytes) :
    Act.Within (refusing env F) 0 (Store.checkHeader gen segBuf) (fun r ram' w' =>
      ram' = ram ∧ w' = w ∧ if headedBy gen segBuf then r = .ok () else Refused r) ram w := by
  unfold Store.checkHeader headedBy
  cases parseSegmentHeader (segBuf.take kSegmentHeaderBytes) with
  | error version =>
    dsimp only
    split
    · exact Act.within_fail ⟨rfl, rfl, _, rfl, nofun⟩
    · exact Act.within_fail ⟨rfl, rfl, _, rfl, nofun⟩
  | ok header =>
    dsimp only
    by_cases hg : header.generation = gen
    · rw [if_neg (not_not.2 hg)]
      exact Act.within_pure ⟨rfl, rfl, by rw [if_pos (decide_eq_true hg)]⟩
    · rw [if_pos hg]
      refine Act.within_fail ⟨rfl, rfl, ?_⟩
      rw [if_neg (by simpa using hg)]
      exact ⟨_, rfl, by simp⟩

/-- **One segment.**  A segment without a log is refused, and so is one whose log is followed by
something, unless it is the last. -/
lemma within_scanSegment {cfg : AppendLogConfig} {last : Bool} {gen : ℕ} {affected : List ℕ} :
    Act.Within (refusing env F) 3 (Store.scanSegment cfg last gen affected) (fun r ram' w' =>
      match Disk.log cfg w.disk gen with
      | none => Refused r ∧ w' = w
      | some (evs, torn) => if last = true ∨ torn = [] then
          r = .ok (ram.scanned last gen evs affected).tailAffectedGens ∧
            ram' = (ram.replayed gen (ram.scanned last gen evs affected)).setTailBytes
              (logBytes evs) ∧
            w' = w.setDisk (Disk.recoverTail env w.disk gen evs torn)
        else Refused r ∧ w' = w) ram w := by
  unfold Store.scanSegment
  refine within_seq 2 1 ((within_readSegment gen).mono le_rfl ?_) le_rfl
  rintro r ram' w' ⟨rfl, rfl, hr⟩
  cases hb : Disk.segmentBytes w'.disk gen with
  | none =>
    rw [hb] at hr
    obtain ⟨st, rfl, hst⟩ := hr
    rw [andThen_error, Disk.log, hb]
    exact ⟨⟨st, rfl, hst⟩, rfl⟩
  | some segBuf =>
    rw [hb] at hr
    obtain rfl := hr
    rw [andThen_ok]
    refine within_seq 0 1 ((within_checkHeader gen segBuf).mono le_rfl ?_) le_rfl
    rintro r ram'' w'' ⟨rfl, rfl, hr⟩
    by_cases hh : headedBy gen segBuf = true
    · rw [if_pos hh] at hr
      obtain rfl := hr
      obtain ⟨evs, torn, hlog⟩ : ∃ evs torn, Disk.log cfg w''.disk gen = some (evs, torn) := by
        rw [Disk.log, hb, Option.filter_some, if_pos hh]
        exact ⟨_, _, rfl⟩
      obtain ⟨⟨hgen, hfits, s, hs, hfile⟩, hstop, -⟩ := log_eq_some_iff.1 hlog
      obtain ⟨corrupt, hstop⟩ := Option.isSome_iff_exists.1 hstop
      obtain rfl : segBuf = segmentData gen s evs torn :=
        Option.some.inj ((Option.filter_eq_some_iff.1 hb).1.symm.trans hfile)
      have hdrop : (segmentData gen s evs torn).drop kSegmentHeaderBytes =
          encodeEvents evs ++ torn := List.drop_left' (length_serializeSegmentHeader gen s)
      have hlen := length_segmentData gen s evs torn
      have hoff : kSegmentHeaderBytes + (encodeEvents evs).length = logBytes evs := rfl
      simp only [hlog, andThen_ok]
      refine Act.within_get_bind ?_
      rw [hdrop, scanEvents_log hfits hstop le_rfl, hoff]
      refine Act.within_modify_bind ?_
      by_cases hok : last = true ∨ torn = []
      · simp only [if_pos hok]
        have hcorrupt : ¬(corrupt = true ∧ ¬last = true) := by
          rintro ⟨hc, hl⟩
          rw [hok.resolve_left hl, stopsAt_nil] at hstop
          exact Bool.false_ne_true ((Option.some.inj hstop).trans hc)
        have hshort : ¬(logBytes evs < (segmentData gen s evs torn).length ∧ ¬last = true) := by
          rintro ⟨hlt, hl⟩
          rw [hlen, hok.resolve_left hl] at hlt
          exact lt_irrefl _ hlt
        rw [if_neg hcorrupt, if_neg hshort]
        by_cases ht : torn = []
        · have hnot : ¬logBytes evs < (segmentData gen s evs torn).length := by
            rw [hlen, ht]
            exact lt_irrefl _
          rw [Disk.recoverTail, if_pos ht]
          refine within_seq 0 1 (within_when (fun h => absurd h hnot) fun _ => ?_) le_rfl
          exact Act.within_modify_bind (Act.within_pure ⟨rfl, rfl, rfl⟩)
        · have hlt : logBytes evs < (segmentData gen s evs torn).length := by
            rw [hlen]
            exact Nat.lt_add_of_pos_right (List.length_pos_iff.2 ht)
          rw [Disk.recoverTail, if_neg ht]
          refine within_seq 1 0 (within_when (fun _ => ?_) fun h => absurd hlt h) le_rfl
          refine within_seq 1 0 (within_tryCall ?_) le_rfl
          exact Act.within_pure (Act.within_modify_bind (Act.within_pure ⟨rfl, rfl, rfl⟩))
      · simp only [if_neg hok]
        obtain ⟨hl, ht⟩ := not_or.1 hok
        have hlt : logBytes evs < (segmentData gen s evs torn).length := by
          rw [hlen]
          exact Nat.lt_add_of_pos_right (List.length_pos_iff.2 ht)
        by_cases hc : corrupt = true
        · rw [if_pos ⟨hc, hl⟩]
          exact Act.within_fail ⟨⟨_, rfl, by simp⟩, rfl⟩
        · rw [if_neg fun h => hc h.1, if_pos ⟨hlt, hl⟩]
          exact Act.within_fail ⟨⟨_, rfl, by simp⟩, rfl⟩
    · rw [if_neg hh] at hr
      obtain ⟨st, rfl, hst⟩ := hr
      rw [andThen_error, Disk.log, hb, Option.filter_some, if_neg hh]
      exact ⟨⟨st, rfl, hst⟩, rfl⟩

/-- **All segments.**  When one of them does not scan, nothing was cut. -/
lemma within_scanActive {cfg : AppendLogConfig} {gens affected : List ℕ} :
    Act.Within (refusing env F) (gens.length * 3) (Store.scanActive cfg gens affected)
      (fun r ram' w' => (Disk.Scans cfg w.disk gens →
        r = .ok (replayGens (Disk.events cfg w.disk) gens
            ⟨ram.records, ram.nextSequence, affected⟩).tailAffectedGens ∧
          ram' = ram.afterScan (Disk.events cfg w.disk) gens affected ∧
          w' = w.setDisk (Disk.recovered env cfg w.disk gens)) ∧
        (¬Disk.Scans cfg w.disk gens → Refused r ∧ w' = w)) ram w := by
  induction gens generalizing ram affected with
  | nil => exact Act.within_pure ⟨fun _ => ⟨rfl, rfl, rfl⟩, fun h => absurd trivial h⟩
  | cons g gs ih =>
    rw [Store.scanActive]
    refine within_seq 3 (gs.length * 3) (within_scanSegment.mono le_rfl ?_)
      (by rw [List.length_cons]; omega)
    intro r ram' w' hr
    cases hlog : Disk.log cfg w.disk g with
    | none =>
      rw [hlog] at hr
      obtain ⟨⟨st, rfl, hst⟩, rfl⟩ := hr
      refine ⟨fun hs => ?_, fun _ => ⟨⟨st, rfl, hst⟩, rfl⟩⟩
      obtain ⟨⟨evs, torn, h, -⟩, -⟩ := hs
      simp [hlog] at h
    | some p =>
      obtain ⟨evs, torn⟩ := p
      rw [hlog] at hr
      dsimp only at hr
      obtain rfl : Disk.events cfg w.disk g = evs := events_eq hlog
      cases gs with
      | nil =>
        rw [if_pos (.inl rfl)] at hr
        obtain ⟨rfl, rfl, rfl⟩ := hr
        have htorn : Disk.torn cfg w.disk g = torn := torn_eq hlog
        refine Act.within_pure ⟨fun _ => ⟨rfl, rfl, ?_⟩, fun h => absurd ?_ h⟩
        · simp only [Disk.recovered, Disk.afterScan, List.getLast?_singleton, Option.map_some,
            Option.getD_some, htorn]
        · exact ⟨⟨_, torn, hlog, .inl rfl⟩, trivial⟩
      | cons g' gs =>
        by_cases ht : torn = []
        · rw [if_pos (.inr ht)] at hr
          obtain ⟨rfl, rfl, rfl⟩ := hr
          rw [Disk.recoverTail, if_pos ht, World.setDisk_self, andThen_ok]
          refine ih.mono le_rfl ?_
          rintro r ram' w' ⟨hyes, hno⟩
          refine ⟨fun hs => ?_, fun hs => hno fun h => hs ⟨⟨_, torn, hlog, .inr ht⟩, h⟩⟩
          obtain ⟨rfl, rfl, rfl⟩ := hyes hs.2
          have hlast : (g :: g' :: gs).getLast? = (g' :: gs).getLast? := List.getLast?_cons_cons
          obtain ⟨x, hx⟩ : ∃ x, (g' :: gs).getLast? = some x :=
            ⟨_, List.getLast?_eq_getLast_of_ne_nil (List.cons_ne_nil _ _)⟩
          refine ⟨rfl, ?_, ?_⟩
          · simp only [Ram.afterScan, hlast, hx]
            rfl
          · simp only [Disk.recovered, Disk.afterScan, hlast]
        · rw [if_neg (by simp [ht])] at hr
          obtain ⟨⟨st, rfl, hst⟩, rfl⟩ := hr
          refine ⟨fun hs => ?_, fun _ => ⟨⟨st, rfl, hst⟩, rfl⟩⟩
          obtain ⟨⟨evs', torn', h, hor⟩, -⟩ := hs
          obtain ⟨-, rfl⟩ := Prod.mk.inj (Option.some.inj (hlog.symm.trans h))
          exact absurd (hor.resolve_left (List.cons_ne_nil _ _)) ht

/-! ## Accounting -/

lemma within_accountSegments {gens : List ℕ} :
    Act.Within (refusing env F) (gens.length * 1) (Store.accountSegments gens) (fun r ram' w' =>
      w' = w ∧ ram'.core = ram.core ∧
        ((∀ g ∈ gens, (w.disk.lookup (segmentName g)).isSome) → r = .ok ()) ∧
        ((¬∀ g ∈ gens, (w.disk.lookup (segmentName g)).isSome) → Refused r)) ram w := by
  induction gens generalizing ram with
  | nil =>
    exact Act.within_pure ⟨rfl, rfl, fun _ => rfl, fun h => absurd (by simp) h⟩
  | cons g gs ih =>
    rw [Store.accountSegments, Act.forEach, ← Store.accountSegments]
    refine within_seq 1 (gs.length * 1) ?_ (by rw [List.length_cons]; omega)
    refine within_seq 1 0 ?_ le_rfl
    refine within_seq 1 0 (within_tryCall ?_) le_rfl
    cases hl : w.disk.lookup (segmentName g) with
    | none =>
      simp only [refusing, handle, hl, andThen_ok]
      refine Act.within_fail ⟨rfl, rfl, fun h => ?_, fun _ => ⟨_, rfl, by simp⟩⟩
      simp [hl] at h
    | some data =>
      simp only [refusing, handle, hl, andThen_ok]
      refine Act.within_pure (Act.within_modify (ih.mono le_rfl ?_))
      rintro r ram' w' ⟨rfl, hcore, hyes, hno⟩
      refine ⟨rfl, hcore, fun h => hyes fun g' hg' => h g' (List.mem_cons_of_mem _ hg'),
        fun h => hno ?_⟩
      intro hall
      refine h fun g' hg' => ?_
      rcases List.mem_cons.1 hg' with rfl | hg'
      · simp [hl]
      · exact hall g' hg'

lemma within_accountSlot (slot : Slot) :
    Act.Within (refusing env F) 1 (Store.accountSlot slot)
      (fun r ram' w' => r = .ok () ∧ ram'.core = ram.core ∧ w' = w) ram w := by
  unfold Store.accountSlot
  refine within_seq 1 0 (within_tryCall ?_) le_rfl
  cases hl : w.disk.lookup slot.fileName with
  | none =>
    simp only [refusing, handle, hl, andThen_ok]
    exact Act.within_pure ⟨rfl, rfl, rfl⟩
  | some data =>
    simp only [refusing, handle, hl, andThen_ok]
    exact Act.within_modify ⟨rfl, rfl, rfl⟩

/-- The directory after the cleanup, whose one removal may fail. -/
def Disk.swept (env : Env) (F : FileName → Bool) (t : ℕ) (active : List ℕ) (d : Disk) : Disk :=
  match firstDangling active (env.order t d.keys) with
  | none => d
  | some (name, _) => if F name then d else d.erase name

lemma within_cleanupOneDanglingSegment :
    Act.Within (refusing env F) 3 Store.cleanupOneDanglingSegment (fun r ram' w' =>
      r = .ok () ∧ ram'.core = ram.core ∧
        w'.disk = Disk.swept env F w.clock ram.activeGenerations w.disk) ram w := by
  unfold Store.cleanupOneDanglingSegment Disk.swept
  refine within_seq 1 2 (within_tryCall ?_) le_rfl
  simp only [refusing, handle, andThen_ok]
  refine Act.within_get_bind ?_
  cases hf : firstDangling ram.activeGenerations (env.order w.clock w.disk.keys) with
  | none => exact Act.within_pure ⟨rfl, rfl, rfl⟩
  | some p =>
    obtain ⟨name, gen⟩ := p
    have hmem : name ∈ w.disk.keys := (env.order_perm _ _).mem_iff.1 (firstDangling_eq_some hf).1
    obtain ⟨data, hl⟩ := Option.isSome_iff_exists.1 (AList.lookup_isSome.2 hmem)
    refine within_seq 1 1 ?_ le_rfl
    refine within_seq 1 0 (within_tryCall ?_) le_rfl
    simp only [refusing, handle, World.tick_disk, hl, andThen_ok]
    refine Act.within_pure (within_seq 1 0 (within_tryCall ?_) le_rfl)
    by_cases hF : F name = true
    · simp only [refusing, hF, if_true, andThen_ok]
      exact Act.within_pure ⟨rfl, rfl, rfl⟩
    · simp only [refusing, hF, handle, World.tick_disk, hl, reduceCtorEq, and_false, if_false,
        andThen_ok]
      exact Act.within_modify ⟨rfl, core_dropSegment .., rfl⟩

/-- Every generation of the list has its file. -/
lemma within_accountFiles {gens affected : List ℕ} :
    Act.Within (refusing env F) (gens.length + 5) (Store.accountFiles gens affected)
      (fun r ram' w' => ((∀ g ∈ gens, (w.disk.lookup (segmentName g)).isSome) →
        r = .ok () ∧ ram'.core = (ram.trackTail affected).core ∧
          w'.disk = Disk.swept env F w.clock ram.activeGenerations w.disk) ∧
        ((¬∀ g ∈ gens, (w.disk.lookup (segmentName g)).isSome) → Refused r)) ram w := by
  unfold Store.accountFiles
  refine Act.within_modify_bind ?_
  refine within_seq (gens.length * 1) 5 (within_accountSegments.mono le_rfl ?_) (by omega)
  rintro r ram₁ w₁ ⟨rfl, hcore₁, hyes, hno⟩
  by_cases hall : ∀ g ∈ gens, (w₁.disk.lookup (segmentName g)).isSome
  · obtain rfl := hyes hall
    rw [andThen_ok]
    refine within_seq 1 4 ((within_accountSlot .a).mono le_rfl ?_) le_rfl
    rintro r ram₂ w₂ ⟨rfl, hcore₂, rfl⟩
    rw [andThen_ok]
    refine within_seq 1 3 ((within_accountSlot .b).mono le_rfl ?_) le_rfl
    rintro r ram₃ w₃ ⟨rfl, hcore₃, rfl⟩
    rw [andThen_ok]
    have hcore : ram₃.core = ram.core := hcore₃.trans (hcore₂.trans hcore₁)
    refine Act.within_modify_bind (within_cleanupOneDanglingSegment.mono le_rfl ?_)
    rintro r ram₄ w₄ ⟨rfl, hcore₄, hw⟩
    refine ⟨fun _ => ⟨rfl, hcore₄.trans (core_trackTail hcore _), ?_⟩, fun h => absurd hall h⟩
    rw [hw, ← (SameCore.of_core hcore).gens]
    rfl
  · obtain ⟨st, rfl, hst⟩ := hno hall
    exact ⟨fun h => absurd h hall, fun _ => ⟨st, rfl, hst⟩⟩

/-! ## The manifest -/

lemma within_readManifest : Act.Within (refusing env F) 2 Store.readManifest
    (fun r ram' w' => r = .ok (Disk.elected w.disk) ∧ ram' = ram ∧ w' = w) ram w := by
  have hslot : ∀ {ram : Ram} (slot : Slot), Act.Within (refusing env F) 1 (Store.tryReadSlot slot)
      (fun r ram' w' => r = .ok (Disk.manifest w.disk slot) ∧ ram' = ram ∧ w' = w) ram w := by
    intro ram slot
    unfold Store.tryReadSlot Disk.manifest
    refine within_seq 1 0 (within_tryCall ?_) le_rfl
    cases hl : w.disk.lookup slot.fileName with
    | none =>
      simp only [refusing, handle, hl, andThen_ok]
      exact Act.within_pure ⟨rfl, rfl, rfl⟩
    | some data =>
      simp only [refusing, handle, hl, andThen_ok]
      exact Act.within_pure ⟨rfl, rfl, rfl⟩
  unfold Store.readManifest
  refine within_seq 1 1 ((hslot .a).mono le_rfl ?_) le_rfl
  rintro r ram₁ w₁ ⟨rfl, rfl, rfl⟩
  refine within_seq 1 0 ((hslot .b).mono le_rfl ?_) le_rfl
  rintro r ram₂ w₂ ⟨rfl, rfl, rfl⟩
  exact Act.within_pure ⟨rfl, rfl, rfl⟩

lemma within_expandRanges {ranges : List ManifestRange}
    (h : ∀ r ∈ ranges, r.endGen ≠ 2 ^ 32 - 1) :
    Act.Within (refusing env F) 0 (Store.expandRanges ranges)
      (fun r ram' w' => r = .ok (rangeGens ranges) ∧ ram' = ram ∧ w' = w) ram w := by
  induction ranges with
  | nil => exact Act.within_pure ⟨rfl, rfl, rfl⟩
  | cons r rs ih =>
    rw [Store.expandRanges, Store.generations,
      if_neg fun hh => h r (List.mem_cons_self ..) hh.2]
    refine within_seq 0 0 (Act.within_pure ?_) le_rfl
    refine within_seq 0 0
      ((ih fun r' hr' => h r' (List.mem_cons_of_mem _ hr')).mono le_rfl ?_) le_rfl
    rintro _ ram' w' ⟨rfl, rfl, rfl⟩
    exact Act.within_pure ⟨rfl, rfl, rfl⟩

lemma within_applyManifestToRam {md : ManifestData} (h : ∀ r ∈ md.ranges, r.endGen ≠ 2 ^ 32 - 1) :
    Act.Within (refusing env F) 0 (Store.applyManifestToRam md) (fun r ram' w' =>
      r = .ok () ∧ ram' = ram.applyManifest md (rangeGens md.ranges) ∧ w' = w) ram w := by
  unfold Store.applyManifestToRam
  refine within_seq 0 0 ((within_expandRanges h).mono le_rfl ?_) le_rfl
  rintro _ ram' w' ⟨rfl, rfl, rfl⟩
  exact Act.within_modify ⟨rfl, rfl, rfl⟩

/-! ## Mount -/

lemma lookup_recovered_isSome {cfg : AppendLogConfig} {d : Disk} {gens : List ℕ} {name : FileName}
    (hs : Disk.Scans cfg d gens) :
    ((Disk.recovered env cfg d gens).lookup name).isSome ↔ (d.lookup name).isSome := by
  have hmem : ∀ {gs : List ℕ} {g : ℕ}, Disk.Scans cfg d gs → g ∈ gs →
      (d.lookup (segmentName g)).isSome := by
    intro gs g hgs hg
    induction gs with
    | nil => exact absurd hg List.not_mem_nil
    | cons g' gs ih =>
      obtain ⟨⟨evs, torn, hlog, -⟩, hrest⟩ := hgs
      rcases List.mem_cons.1 hg with rfl | hg
      · obtain ⟨-, -, s, -, hl⟩ := (log_eq_some_iff.1 hlog).1
        rw [hl]
        rfl
      · exact ih hrest hg
  refine ⟨fun h => ?_, lookup_afterScan_isSome⟩
  rw [Disk.recovered, Disk.afterScan] at h
  split at h
  · exact h
  · next g hlast =>
    rw [Disk.recoverTail] at h
    split at h
    · exact h
    · by_cases hn : name = segmentName g
      · rw [hn]
        exact hmem hs (List.mem_of_getLast? hlast)
      · rwa [Disk.resize, AList.lookup_insert_ne hn] at h

/-- The part of `scanSegments` after the manifest was adopted. -/
lemma within_scanAdopted {cfg : AppendLogConfig} {listed gens : List ℕ}
    (hgens : ram.activeGenerations = gens) :
    Act.Within (refusing env F) (gens.length * 3 + listed.length + 5) (do
      Store.modify fun ram => ram.advance listed
      let ram ← Store.get
      let tailAffectedGens ← Store.scanActive cfg ram.activeGenerations []
      Store.accountFiles listed tailAffectedGens) (fun r ram' w' =>
      (Disk.Scans cfg w.disk gens ∧ (∀ g ∈ listed, (w.disk.lookup (segmentName g)).isSome) →
        r = .ok () ∧ w'.disk = Disk.swept env F w.clock gens (Disk.recovered env cfg w.disk gens) ∧
        ∃ affected, ram'.core = (((ram.advance listed).afterScan
          (Disk.events cfg w.disk) gens []).trackTail affected).core) ∧
      (¬(Disk.Scans cfg w.disk gens ∧ ∀ g ∈ listed, (w.disk.lookup (segmentName g)).isSome) →
        Refused r) ∧ (¬Disk.Scans cfg w.disk gens → w' = w)) ram w := by
  subst hgens
  refine Act.within_modify_bind (Act.within_get_bind ?_)
  refine within_seq (ram.activeGenerations.length * 3) (listed.length + 5)
    (within_scanActive.mono le_rfl ?_) (by omega)
  rintro r ram₁ w₁ ⟨hyes, hno⟩
  by_cases hs : Disk.Scans cfg w.disk ram.activeGenerations
  · obtain ⟨rfl, rfl, rfl⟩ := hyes hs
    rw [andThen_ok]
    refine within_accountFiles.mono le_rfl ?_
    rintro r ram₂ w₂ ⟨hyes, hno⟩
    have hiff : (∀ g ∈ listed, ((w.setDisk (Disk.recovered env cfg w.disk
        ram.activeGenerations)).disk.lookup (segmentName g)).isSome) ↔
          ∀ g ∈ listed, (w.disk.lookup (segmentName g)).isSome :=
      forall₂_congr fun g _ => lookup_recovered_isSome hs
    refine ⟨fun h => ?_, fun h => hno fun hall => h ⟨hs, hiff.1 hall⟩, fun h => absurd hs h⟩
    obtain ⟨rfl, hcore, hw⟩ := hyes (hiff.2 h.2)
    exact ⟨rfl, hw, _, hcore⟩
  · obtain ⟨⟨st, rfl, hst⟩, rfl⟩ := hno hs
    exact ⟨fun h => absurd h.1 hs, fun _ => ⟨st, rfl, hst⟩, fun _ => rfl⟩

/-- The most calls that mounting the directory takes. -/
def mountCalls (d : Disk) : ℕ := 3 * kManifestMaxTotalGenerations + d.keys.length + 9

/-- What mounting a directory does. -/
structure MountResult (env : Env) (cfg : AppendLogConfig) (F : FileName → Bool)
    (ram : Ram) (w : World)
    (r : Except Status Unit) (ram' : Ram) (w' : World) : Prop where
  fails : ¬Disk.Mounts cfg w.disk → Refused r
  unscanned : ¬Disk.Scans cfg w.disk (Disk.gens w.disk) → w'.disk = w.disk
  succeeds : Disk.Mounts cfg w.disk → r = .ok ()
  disk : Disk.Mounts cfg w.disk → w'.disk = Disk.swept env F (w.clock + 1) (Disk.gens w.disk)
    (Disk.recovered env cfg w.disk (Disk.gens w.disk))
  ram : Disk.Mounts cfg w.disk → ram.manifestRanges = [] →
    MountedAs (env.order w.clock w.disk.keys) ((Disk.elected w.disk).getD {})
      (Disk.events cfg w.disk) ram'

lemma MountResult.refused {cfg : AppendLogConfig} {r : Except Status Unit} {ram' : Ram} {w' : World}
    (hnot : ¬Disk.Mounts cfg w.disk) (hr : Refused r)
    (hd : ¬Disk.Scans cfg w.disk (Disk.gens w.disk) → w'.disk = w.disk) :
    MountResult env cfg F ram w r ram' w' :=
  ⟨fun _ => hr, hd, fun h => absurd h hnot, fun h => absurd h hnot, fun h => absurd h hnot⟩

lemma isSome_listedGens {d : Disk} {t : ℕ} :
    (∀ g ∈ listedGens (env.order t d.keys), (d.lookup (segmentName g)).isSome) ↔ NamesOk d := by
  constructor
  · intro h name hname g hg
    exact h g (mem_listedGens.2 ⟨name, (env.order_perm _ _).mem_iff.2 hname, hg⟩)
  · intro h g hg
    obtain ⟨name, hname, hseg⟩ := mem_listedGens.1 hg
    exact h name ((env.order_perm _ _).mem_iff.1 hname) g hseg

lemma listedGens_eq_nil {d : Disk} {t : ℕ} :
    listedGens (env.order t d.keys) = [] ↔ ∀ name ∈ d.keys, isSegmentName name = none := by
  rw [List.eq_nil_iff_forall_not_mem]
  constructor
  · intro h name hname
    by_contra hne
    obtain ⟨g, hg⟩ := Option.ne_none_iff_exists'.1 hne
    exact h g (mem_listedGens.2 ⟨name, (env.order_perm _ _).mem_iff.2 hname, hg⟩)
  · intro h g hg
    obtain ⟨name, hname, hseg⟩ := mem_listedGens.1 hg
    exact nomatch (h name ((env.order_perm _ _).mem_iff.1 hname)).symm.trans hseg

lemma length_listedGens_le {d : Disk} {t : ℕ} :
    (listedGens (env.order t d.keys)).length ≤ d.keys.length := by
  rw [listedGens, List.length_insertionSort]
  exact (List.length_filterMap_le ..).trans (env.order_perm _ _).length_eq.le

/-- **Mounting any directory** comes to an end, unless the loop over a range does not; it succeeds
exactly when `Disk.Mounts` holds. -/
theorem within_mount {cfg : AppendLogConfig} (hw : ¬Disk.Wraps w.disk) :
    Act.Within (refusing env F) (mountCalls w.disk) (Store.mount cfg)
      (MountResult env cfg F ram w) ram w := by
  unfold Store.mount mountCalls
  have hlen : (listedGens (env.order w.clock w.disk.keys)).length ≤ w.disk.keys.length :=
    length_listedGens_le
  refine within_seq 1 (3 * kManifestMaxTotalGenerations + w.disk.keys.length + 8) ?_ (by omega)
  refine within_seq 1 0 (within_tryCall ?_) le_rfl
  simp only [refusing, handle, andThen_ok]
  refine Act.within_pure ?_
  refine within_seq (3 * kManifestMaxTotalGenerations + w.disk.keys.length + 8) 0 ?_ le_rfl
  unfold Store.scanSegments
  refine within_seq 1 (3 * kManifestMaxTotalGenerations + w.disk.keys.length + 7) ?_ (by omega)
  refine within_seq 1 0 (within_tryCall ?_) le_rfl
  simp only [refusing, handle, andThen_ok]
  refine Act.within_pure (Act.within_modify_bind ?_)
  have hlisted : (List.filterMap isSegmentName (env.order w.clock w.disk.keys)).insertionSort
      (· ≤ ·) = listedGens (env.order w.clock w.disk.keys) := rfl
  rw [hlisted]
  refine within_seq 2 (3 * kManifestMaxTotalGenerations + w.disk.keys.length + 5) ?_ (by omega)
  unfold Store.adoptManifest
  refine within_seq 2 0 (within_readManifest.mono le_rfl ?_) le_rfl
  rintro r ram₁ w₁ ⟨rfl, rfl, rfl⟩
  simp only [World.tick_disk]
  cases helect : Disk.elected w.disk with
  | none =>
    have hgens : Disk.gens w.disk = [] := by
      rw [Disk.gens, helect]
      rfl
    have hiff : Disk.Mounts cfg w.disk ↔ listedGens (env.order w.clock w.disk.keys) = [] := by
      rw [Disk.Mounts, helect]
      exact listedGens_eq_nil.symm
    rw [andThen_ok]
    dsimp only
    by_cases hnil : listedGens (env.order w.clock w.disk.keys) = []
    · rw [if_neg (not_not.2 hnil)]
      refine Act.within_pure ?_
      have hactive : ram.reset.activeGenerations = [] := rfl
      refine (within_scanAdopted hactive).mono (by simp only [List.length_nil]; omega) ?_
      rintro r ram₂ w₂ ⟨hyes, -⟩
      obtain ⟨rfl, hdisk, affected, hcore⟩ := hyes ⟨trivial, by rw [hnil]; simp⟩
      have hscans : Disk.Scans cfg w.disk (Disk.gens w.disk) := by
        rw [hgens]
        exact trivial
      refine Act.within_modify ⟨fun h => absurd (hiff.2 hnil) h, fun h => absurd hscans h,
        fun _ => rfl, fun _ => ?_, ?_⟩
      · rw [hgens]
        exact hdisk
      · intro _ hranges
        have hs := SameCore.of_core hcore
        rw [helect]
        exact ⟨rfl, hs.ranges.trans hranges, hs.gens, hs.active, hs.bytes, hs.records, hs.sequence,
          hs.next, hs.slot, hs.tracked⟩
    · rw [if_pos hnil]
      exact Act.within_fail (.refused (fun h => hnil (hiff.1 h)) ⟨_, rfl, by simp⟩ fun _ => rfl)
  | some md =>
    have hgens : Disk.gens w.disk = md.gens := by
      rw [Disk.gens, helect]
      rfl
    rw [andThen_ok]
    dsimp only
    by_cases hspan : md.totalGens ≤ kManifestMaxTotalGenerations
    · have hends : ∀ r ∈ md.ranges, r.endGen ≠ 2 ^ 32 - 1 := fun r hr he =>
        hw ⟨md, helect, hspan, r, hr, he⟩
      have hiff : Disk.Mounts cfg w.disk ↔ Disk.Scans cfg w.disk md.gens ∧
          ∀ g ∈ listedGens (env.order w.clock w.disk.keys),
            (w.disk.lookup (segmentName g)).isSome := by
        rw [Disk.Mounts, helect, isSome_listedGens]
        exact ⟨fun h => h.2.2, fun h => ⟨hspan, hends, h⟩⟩
      rw [if_neg (not_lt.2 hspan)]
      refine (within_applyManifestToRam hends).mono le_rfl ?_
      rintro r ram₂ w₂ ⟨rfl, rfl, rfl⟩
      rw [andThen_ok]
      have hactive : (ram.reset.applyManifest md
          (rangeGens md.ranges)).activeGenerations = md.gens :=
        rfl
      rw [md.totalGens_eq] at hspan
      refine (within_scanAdopted hactive).mono (by omega) ?_
      rintro r ram₃ w₃ ⟨hyes, hno, hkept⟩
      by_cases hm : Disk.Mounts cfg w.disk
      · obtain ⟨rfl, hdisk, affected, hcore⟩ := hyes (hiff.1 hm)
        refine Act.within_modify ⟨fun h => absurd hm h, fun h => ?_, fun _ => rfl, fun _ => ?_, ?_⟩
        · rw [hgens] at h
          rw [hkept h]
          rfl
        · rw [hgens]
          exact hdisk
        · intro _ _
          have hs := SameCore.of_core hcore
          rw [helect]
          exact ⟨rfl, hs.ranges, hs.gens, hs.active, hs.bytes, hs.records, hs.sequence, hs.next,
            hs.slot, hs.tracked⟩
      · obtain ⟨st, rfl, hst⟩ := hno fun h => hm (hiff.2 h)
        refine .refused hm ⟨st, rfl, hst⟩ fun h => ?_
        rw [hgens] at h
        rw [hkept h]
        rfl
    · have hnot : ¬Disk.Mounts cfg w.disk := by
        rw [Disk.Mounts, helect]
        exact fun h => hspan h.1
      rw [if_pos (not_le.1 hspan)]
      exact Act.within_fail (.refused hnot ⟨_, rfl, by simp⟩ fun _ => rfl)

/-! ## Ranges that do not end -/

/-- An elected manifest is in a slot. -/
lemma exists_slot_of_elected {d : Disk} {md : ManifestData} (h : Disk.elected d = some md) :
    ∃ slot, Disk.manifest d slot = some md := by
  rw [Disk.elected] at h
  cases ha : Disk.manifest d .a with
  | none =>
    cases hb : Disk.manifest d .b with
    | none => simp [ha, hb, chooseWinningSlot] at h
    | some mdB =>
      obtain rfl : mdB = md := by simpa [ha, hb, chooseWinningSlot] using h
      exact ⟨.b, hb⟩
  | some mdA =>
    cases hb : Disk.manifest d .b with
    | none =>
      obtain rfl : mdA = md := by simpa [ha, hb, chooseWinningSlot] using h
      exact ⟨.a, ha⟩
    | some mdB =>
      simp only [ha, hb, chooseWinningSlot] at h
      split at h
      · exact ⟨.b, hb.trans h⟩
      · exact ⟨.a, ha.trans h⟩

/-- It was accepted by the parser. -/
lemma elected_valid {d : Disk} {md : ManifestData} (h : Disk.elected d = some md) : md.Valid := by
  obtain ⟨slot, hm⟩ := exists_slot_of_elected h
  obtain ⟨data, -, hp⟩ := Option.bind_eq_some_iff.1 hm
  exact parseManifest_valid hp

lemma diverges_expandRanges {ranges : List ManifestRange}
    (hv : ∀ r ∈ ranges, r.startGen ≤ r.endGen) (h : ∃ r ∈ ranges, r.endGen = 2 ^ 32 - 1) :
    Act.Diverges (refusing env F) (Store.expandRanges ranges) ram w := by
  induction ranges with
  | nil =>
    obtain ⟨r, hr, -⟩ := h
    exact absurd hr List.not_mem_nil
  | cons r rs ih =>
    rw [Store.expandRanges, Store.generations]
    by_cases he : r.endGen = 2 ^ 32 - 1
    · rw [if_pos ⟨hv r (List.mem_cons_self ..), he⟩]
      exact Act.diverges_spin.bind
    · rw [if_neg fun hh => he hh.2]
      obtain ⟨r', hr', he'⟩ := h
      have hmem : r' ∈ rs := (List.mem_cons.1 hr').resolve_left fun heq => he (heq ▸ he')
      refine Act.diverges_bind (n := 0) (Act.within_pure ⟨_, rfl, ?_⟩)
      exact Act.Diverges.bind (ih (fun r hr => hv r (List.mem_cons_of_mem _ hr)) ⟨r', hmem, he'⟩)

/-- Mounting a directory whose manifest has such a range does not come to an end. -/
theorem diverges_mount {cfg : AppendLogConfig} (hw : Disk.Wraps w.disk) :
    Act.Diverges (refusing env F) (Store.mount cfg) ram w := by
  obtain ⟨md, helect, hspan, r, hr, hend⟩ := hw
  have hv : ∀ r ∈ md.ranges, r.startGen ≤ r.endGen := fun r hr =>
    ((elected_valid helect).ranges_valid r hr).2.1
  unfold Store.mount
  refine Act.diverges_bind (n := 1) (within_seq 1 0 (within_tryCall ?_) le_rfl)
  simp only [refusing, handle, andThen_ok]
  refine Act.within_pure ⟨(), rfl, Act.Diverges.bind ?_⟩
  unfold Store.scanSegments
  refine Act.diverges_bind (n := 1) (within_seq 1 0 (within_tryCall ?_) le_rfl)
  simp only [refusing, handle, andThen_ok]
  refine Act.within_pure ⟨_, rfl, ?_⟩
  refine Act.diverges_bind (n := 0) (Act.within_modify ⟨(), rfl, Act.Diverges.bind ?_⟩)
  unfold Store.adoptManifest
  refine Act.diverges_bind (within_readManifest.mono le_rfl ?_)
  rintro r₁ ram₁ w₁ ⟨rfl, rfl, rfl⟩
  refine ⟨_, rfl, ?_⟩
  simp only [World.tick_disk, helect]
  rw [if_neg (not_lt.2 hspan)]
  exact Act.Diverges.bind (diverges_expandRanges hv ⟨r, hr, hend⟩)

end Rules

end Pqueue
