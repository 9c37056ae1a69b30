import Pqueue.Store.Recovery
import Pqueue.Store.Validate

/-!
# What the validation accepts

The validation and the mount read a directory with code of their own.  `validate_agrees` compares
them on every directory: a directory that validates mounts unless it goes beyond a guard that only
the mount has, and one that mounts validates exactly when its manifest and its tail are tidy.
-/

namespace Pqueue

open Effect LittleEndian

/-! ## One event -/

/-- A turn of the validation finds what a turn of the mount finds. -/
def CheckStep.Matches : CheckStep → ScanStep → Prop
  | .torn, .torn => True
  | .corrupt _, .corrupt => True
  | .pastEnd, .pastEnd => True
  | .event n, .payloadEvent eh _ _ => n = eh.totalEventBytes
  | .event n, .popEvent _ _ => n = kPopEventBytes
  | _, _ => False

section Events

variable {env : Env} {A : StoreMark → Disk → Prop} {Z : Prop} {J : Disk → Prop}
  {ram : Ram} {w : World}
  {cfg : AppendLogConfig} {options : ValidationOptions} {result : ValidationResult}
  {name : FileName} {data bytes : Bytes} {offset gen : ℕ}

lemma read32_take {n : ℕ} (hn : 4 ≤ n) : (read32 (bytes.take n)).map Prod.fst =
    (read32 bytes).map Prod.fst := by
  by_cases h : 4 ≤ bytes.length
  · obtain ⟨⟨v, rest⟩, hr⟩ := Option.isSome_iff_exists.1
      (@read32_isSome (bytes.take n) (by rw [List.length_take]; omega))
    have happ := read32_append hr (bytes.drop n)
    rw [List.take_append_drop] at happ
    rw [hr, happ]
    rfl
  · rw [List.take_of_length_le (by omega)]

lemma wpc_checkPayload {eh : EnqueueHeader} {Q : StorePost CheckStep}
    (hfile : w.disk.lookup name = some data) (hlt : data.length < 2 ^ 32)
    (hoff : offset + kEnqueueHeaderBytes ≤ data.length)
    (hQ : ∀ step, step.Matches (scanPayload eh (data.drop offset)) → Q (.ok step) ram w) :
    Wpc env A Z J (Store.checkPayload name offset eh) Q ram w := by
  unfold Store.checkPayload
  rw [wpc_bind, wpc_tryCall_readAt, andThen_ok, u32_of_lt (by omega)]
  unfold scanPayload at hQ
  simp only [handle, hfile]
  rw [List.drop_drop] at hQ
  by_cases hsize : u32 (eh.payloadBytes + kEventTrailerBytes) ≤
      data.length - (offset + kEnqueueHeaderBytes)
  · rw [if_pos hsize]
    simp only
    have hlen : ((data.drop (offset + kEnqueueHeaderBytes)).take
        (u32 (eh.payloadBytes + kEventTrailerBytes))).length =
          u32 (eh.payloadBytes + kEventTrailerBytes) := by
      rw [List.length_take, List.length_drop]
      omega
    rw [if_neg (by omega)] at hQ ⊢
    cases hcrc : read32 (List.drop eh.payloadBytes ((data.drop (offset + kEnqueueHeaderBytes)).take
        (u32 (eh.payloadBytes + kEventTrailerBytes)))) with
    | none =>
      rw [hcrc] at hQ
      exact hQ _ trivial
    | some p =>
      obtain ⟨storedCrc, r⟩ := p
      rw [hcrc] at hQ
      simp only at hQ ⊢
      cases hfooter : read32 r with
      | none =>
        rw [hfooter] at hQ
        exact hQ _ trivial
      | some p =>
        obtain ⟨storedFooter, r'⟩ := p
        rw [hfooter] at hQ
        simp only at hQ ⊢
        split
        · next hbad =>
          rw [if_pos hbad] at hQ
          exact hQ _ trivial
        · next hgood =>
          rw [if_neg hgood] at hQ
          apply hQ
          simp only [CheckStep.Matches, EnqueueHeader.totalEventBytes, kEnqueueOverheadBytes]
          congr 1
          omega
  · rw [if_neg hsize]
    simp only
    rw [if_pos (by rw [List.length_take, List.length_drop]; omega)] at hQ
    exact hQ _ trivial

lemma wpc_checkEvent {Q : StorePost CheckStep} (hfile : w.disk.lookup name = some data)
    (hlt : data.length < 2 ^ 32) (hoff : offset < data.length)
    (hQ : ∀ step, step.Matches (scanStep cfg.maxRecordBytes (data.drop offset)) →
      Q (.ok step) ram w) :
    Wpc env A Z J (Store.checkEvent cfg name offset (data.length - offset)) Q ram w := by
  have hlen : (data.drop offset).length = data.length - offset := List.length_drop
  unfold Store.checkEvent
  unfold scanStep at hQ
  by_cases h4 : data.length - offset < 4
  · rw [if_pos h4]
    have hnone : read32 (data.drop offset) = none := by
      by_contra hne
      obtain ⟨⟨v, rest⟩, hr⟩ := Option.ne_none_iff_exists'.1 hne
      obtain ⟨heq, -⟩ := read32_eq_some hr
      have := congrArg List.length heq
      rw [List.length_append, length_le32] at this
      omega
    rw [hnone] at hQ
    exact hQ _ trivial
  · have hread : min (data.length - offset) kEnqueueHeaderBytes ≤ data.length - offset :=
      Nat.min_le_left ..
    rw [if_neg h4, wpc_bind, wpc_tryCall_readAt, andThen_ok]
    simp only [handle, hfile, hread, if_true]
    have htake : List.take (min (data.length - offset) kEnqueueHeaderBytes) (data.drop offset) =
        (data.drop offset).take kEnqueueHeaderBytes := by
      rw [← hlen, List.take_eq_take_iff]
      omega
    rw [htake]
    obtain ⟨⟨magic, rest⟩, hmagic⟩ := Option.isSome_iff_exists.1
      (@read32_isSome (data.drop offset) (by omega))
    obtain ⟨⟨magic', rest'⟩, hmagic'⟩ := Option.isSome_iff_exists.1
      (@read32_isSome ((data.drop offset).take kEnqueueHeaderBytes)
        (by rw [List.length_take]; unfold kEnqueueHeaderBytes; omega))
    have hsame := @read32_take (data.drop offset) _ (by decide : 4 ≤ kEnqueueHeaderBytes)
    rw [hmagic, hmagic'] at hsame
    obtain rfl : magic' = magic := by simpa using hsame
    rw [hmagic']
    rw [hmagic] at hQ
    simp only at hQ ⊢
    by_cases hm : magic' = kEnqueueMagic ∨ magic' = kRewriteMagic
    · rw [if_pos hm] at hQ ⊢
      rw [hlen] at hQ
      by_cases hshort : data.length - offset < kEnqueueHeaderBytes
      · rw [if_pos (by omega)]
        rw [if_pos hshort] at hQ
        exact hQ _ trivial
      · rw [if_neg (by omega)]
        rw [if_neg hshort] at hQ
        cases hp : parseEnqueueHeader ((data.drop offset).take kEnqueueHeaderBytes) with
        | none =>
          rw [hp] at hQ
          exact hQ _ trivial
        | some eh =>
          rw [hp] at hQ
          simp only at hQ ⊢
          by_cases hmax : eh.payloadBytes > cfg.maxRecordBytes
          · rw [if_pos hmax] at hQ ⊢
            exact hQ _ trivial
          · rw [if_neg hmax] at hQ ⊢
            have htotal : u32 (kEnqueueOverheadBytes + eh.payloadBytes) = eh.totalEventBytes := by
              simp only [EnqueueHeader.totalEventBytes, kEnqueueOverheadBytes]
              congr 1
              omega
            rw [htotal]
            by_cases hbig : eh.totalEventBytes > data.length - offset
            · rw [if_pos hbig] at hQ ⊢
              exact hQ _ trivial
            · rw [if_neg hbig] at hQ ⊢
              exact wpc_checkPayload hfile hlt (by omega) hQ
    · rw [if_neg hm] at hQ ⊢
      by_cases hpop : magic' = kPopMagic
      · rw [if_pos hpop] at hQ ⊢
        rw [hlen] at hQ
        by_cases hshort : data.length - offset < kPopEventBytes
        · rw [if_pos hshort] at hQ ⊢
          exact hQ _ trivial
        · rw [if_neg hshort] at hQ ⊢
          rw [wpc_bind, wpc_tryCall_readAt, andThen_ok]
          simp only [handle, hfile]
          rw [if_pos (not_lt.1 hshort)]
          cases hp : parsePopEvent ((data.drop offset).take kPopEventBytes) with
          | none =>
            simp only [hp] at hQ ⊢
            exact hQ _ trivial
          | some pe =>
            simp only [hp] at hQ ⊢
            exact hQ _ rfl
      · rw [if_neg hpop] at hQ ⊢
        exact hQ _ trivial

lemma CheckStep.eq_of_matches {step : CheckStep} {m : ℕ} {e : LogEvent} {rest : Bytes}
    (he : e.Fits m) (h : step.Matches (e.found rest)) : step = .event e.encode.length := by
  cases step with
  | torn => cases e <;> cases h
  | corrupt => cases e <;> cases h
  | pastEnd => cases e <;> cases h
  | event n =>
    cases e with
    | enqueue seq payload =>
      obtain rfl : n = _ := h
      rw [LogEvent.encode, serializeEnqueueEvent, length_serializePayloadEvent]
      exact congrArg CheckStep.event (totalEventBytes_payloadHeader he.2.2)
    | rewrite seq payload =>
      obtain rfl : n = _ := h
      rw [LogEvent.encode, serializeRewriteEvent, length_serializePayloadEvent]
      exact congrArg CheckStep.event (totalEventBytes_payloadHeader he.2.2)
    | pop seq =>
      obtain rfl : n = _ := h
      rw [LogEvent.encode, length_serializePopEvent]

/-- The loop ends as the log does. -/
def ScanExit.Stops (torn : Bytes) (corrupt : Bool) : ScanExit → Prop
  | .clean => torn = []
  | .torn => torn ≠ [] ∧ corrupt = false
  | .corrupt _ => corrupt = true

lemma wpc_checkEvents {evs : List LogEvent} {torn : Bytes} {corrupt : Bool} {fuel : ℕ}
    {Q : StorePost (ScanExit × ValidationResult)} (hfile : w.disk.lookup name = some data)
    (hlt : data.length < 2 ^ 32) (hoff : offset ≤ data.length)
    (hdrop : data.drop offset = encodeEvents evs ++ torn)
    (hevs : ∀ e ∈ evs, e.Fits cfg.maxRecordBytes)
    (hstop : stopsAt cfg.maxRecordBytes torn = some corrupt) (hfuel : data.length - offset < fuel)
    (hQ : ∀ exit, exit.Stops torn corrupt →
      Q (.ok (exit, ValidationResult.countRecord^[evs.length] result)) ram w) :
    Wpc env A Z J (Store.checkEvents cfg name data.length fuel offset result) Q ram w := by
  have hlen : (data.drop offset).length = data.length - offset := List.length_drop
  induction evs generalizing offset fuel result with
  | nil =>
    rw [encodeEvents_nil, List.nil_append] at hdrop
    cases fuel with
    | zero => simp at hfuel
    | succ fuel =>
      unfold Store.checkEvents
      rw [hdrop] at hlen
      unfold stopsAt at hstop
      by_cases hmore : offset < data.length
      · rw [if_pos hmore, wpc_bind]
        have hne : torn ≠ [] := List.ne_nil_of_length_pos (by omega)
        rw [if_neg hne] at hstop
        apply wpc_checkEvent hfile hlt hmore
        intro step hstep
        rw [hdrop] at hstep
        rw [andThen_ok]
        cases hs : scanStep cfg.maxRecordBytes torn with
        | torn =>
          rw [hs] at hstep hstop
          cases step with
          | torn => exact hQ _ ⟨hne, (Option.some.inj hstop).symm⟩
          | corrupt | pastEnd => cases hstep
          | event => cases hstep
        | corrupt =>
          rw [hs] at hstep hstop
          cases step with
          | torn | pastEnd => cases hstep
          | corrupt => exact hQ _ (Option.some.inj hstop).symm
          | event => cases hstep
        | pastEnd =>
          rw [hs] at hstep hstop
          cases step with
          | torn | corrupt => cases hstep
          | pastEnd => exact hQ _ (Option.some.inj hstop).symm
          | event => cases hstep
        | payloadEvent => simp [hs] at hstop
        | popEvent => simp [hs] at hstop
      · rw [if_neg hmore]
        exact hQ _ (List.eq_nil_of_length_eq_zero (by omega))
  | cons e evs ih =>
    have hpos := e.length_encode_pos
    have hbytes : kPopEventBytes = 20 := rfl
    rw [encodeEvents_cons, List.append_assoc] at hdrop
    rw [hdrop, List.length_append] at hlen
    cases fuel with
    | zero => simp at hfuel
    | succ fuel =>
      unfold Store.checkEvents
      rw [if_pos (by omega), wpc_bind]
      apply wpc_checkEvent hfile hlt (by omega)
      intro step hstep
      have he := hevs e (List.mem_cons_self ..)
      rw [hdrop, scanStep_encode he] at hstep
      obtain rfl := CheckStep.eq_of_matches he hstep
      rw [andThen_ok]
      simp only
      rw [u32_of_lt (by omega)]
      have hdrop' : data.drop (offset + e.encode.length) = encodeEvents evs ++ torn := by
        rw [← List.drop_drop, hdrop, List.drop_left]
      apply ih (by omega) hdrop' (fun e' he' => hevs e' (List.mem_cons_of_mem _ he')) (by omega)
      · intro exit hexit
        have hcount := hQ exit hexit
        rwa [List.length_cons, Function.iterate_succ_apply] at hcount
      · rw [List.length_drop]

end Events

/-! ## Reports -/

namespace ValidationResult

variable {options : ValidationOptions} {result result' result'' : ValidationResult}
  {issue : ValidationIssue} {P P' : Prop} {n n' : ℕ}

/-- What holds of every report. -/
structure Sound (options : ValidationOptions) (result : ValidationResult) : Prop where
  ok_iff : result.ok = true ↔ result.errors = [] ∧ result.stoppedEarly = false
  room : result.errors.length ≤ options.maxErrors
  full : result.stoppedEarly = true → result.errors.length = options.maxErrors

lemma Sound.empty : Sound options {} := ⟨by simp, by simp, by simp⟩

@[simp] lemma ok_addIssue : (result.addIssue options issue).ok = false := by
  unfold addIssue
  split <;> rfl

lemma Sound.addIssue (h : result.Sound options) :
    (result.addIssue options issue).Sound options := by
  unfold ValidationResult.addIssue
  split
  · next hlt =>
    refine ⟨by simp, ?_, fun hfull => ?_⟩
    · rw [List.length_append, List.length_singleton]
      omega
    · have := h.full hfull
      omega
  · next hfull =>
    have := h.room
    exact ⟨by simp, h.room, fun _ => by simp only; omega⟩

lemma Sound.counted (h : result.Sound options) : result.countRecord.Sound options :=
  ⟨h.ok_iff, h.room, h.full⟩

lemma Sound.iterate (h : result.Sound options) : (countRecord^[n] result).Sound options := by
  induction n with
  | zero => exact h
  | succ n ih =>
    rw [Function.iterate_succ_apply']
    exact ih.counted

@[simp] lemma ok_iterate : (countRecord^[n] result).ok = result.ok := by
  induction n with
  | zero => rfl
  | succ n ih =>
    rw [Function.iterate_succ_apply']
    exact ih

lemma checkedRecords_iterate (h : result.checkedRecords < 2 ^ 32) :
    (countRecord^[n] result).checkedRecords = u32 (result.checkedRecords + n) := by
  induction n with
  | zero =>
    rw [Nat.add_zero, u32_of_lt h]
    rfl
  | succ n ih =>
    rw [Function.iterate_succ_apply']
    simp only [ValidationResult.countRecord, ih, u32]
    omega

/-- A part of the validation that passes when `P` holds, and has then counted `n` events. -/
structure Follows (options : ValidationOptions) (result : ValidationResult) (P : Prop) (n : ℕ)
    (result' : ValidationResult) : Prop where
  sound : result'.Sound options
  ok_iff : result'.ok = true ↔ result.ok = true ∧ P
  counted : result'.ok = true → result' = countRecord^[n] result

lemma Follows.passed (h : result.Sound options) (hP : P) :
    Follows options result P n (countRecord^[n] result) :=
  ⟨h.iterate, by simp [hP], fun _ => rfl⟩

lemma Follows.failed {k : ℕ} (h : result.Sound options) (hP : ¬P) :
    Follows options result P n ((countRecord^[k] result).addIssue options issue) :=
  ⟨h.iterate.addIssue, by simp [hP], fun hok => by simp at hok⟩

lemma Follows.trans (h : Follows options result P n result')
    (h' : Follows options result' P' n' result'') :
    Follows options result (P ∧ P') (n + n') result'' := by
  refine ⟨h'.sound, ?_, fun hok => ?_⟩
  · rw [h'.ok_iff, h.ok_iff, and_assoc]
  · have hok' := (h'.ok_iff.1 hok).1
    rw [h'.counted hok, h.counted hok', ← Function.iterate_add_apply, Nat.add_comm]

lemma Follows.congr (h : Follows options result P n result') (hP : P ↔ P') :
    Follows options result P' n result' := propext hP ▸ h

end ValidationResult

/-! ## Segments -/

/-- A segment that the validation accepts: nothing after the log, or a torn event in the tail. -/
def Disk.Checked (cfg : AppendLogConfig) (d : Disk) (gen : ℕ) (isTail : Bool) : Prop :=
  ∃ evs torn, Disk.log cfg d gen = some (evs, torn) ∧
    (torn = [] ∨ isTail = true ∧ stopsAt cfg.maxRecordBytes torn = some false)

section Segments

variable {env : Env} {A : StoreMark → Disk → Prop} {Z : Prop} {J : Disk → Prop}
  {ram : Ram} {w : World}
  {cfg : AppendLogConfig} {options : ValidationOptions} {result : ValidationResult}
  {Q : StorePost ValidationResult} {gen : ℕ} {isTail : Bool}

open ValidationResult

lemma Disk.segmentBytes_eq_none {d : Disk}
    (h : ∀ data, d.lookup (segmentName gen) = some data → data.length < kSegmentHeaderBytes) :
    Disk.segmentBytes d gen = none := by
  apply Option.filter_eq_none_iff.2
  intro data hdata
  have := h data hdata
  simp
  omega

lemma wpc_validateSegment (hsound : result.Sound options)
    (hsize : ∀ data, w.disk.lookup (segmentName gen) = some data →
      data.length ≤ kMaxReplaySegmentReadBytes)
    (hQ : ∀ result', Follows options result (Disk.Checked cfg w.disk gen isTail)
      (Disk.events cfg w.disk gen).length result' → Q (.ok result') ram w) :
    Wpc env A Z J (Store.validateSegment cfg options gen isTail result) Q ram w := by
  have hfail : ∀ {k issue}, ¬Disk.Checked cfg w.disk gen isTail →
      Q (.ok ((countRecord^[k] result).addIssue options issue)) ram w :=
    fun hnot => hQ _ (.failed hsound hnot)
  have hunread : Disk.log cfg w.disk gen = none → ¬Disk.Checked cfg w.disk gen isTail := by
    rintro hnone ⟨evs, torn, hlog, -⟩
    simp [hnone] at hlog
  unfold Store.validateSegment
  rw [wpc_bind, wpc_sizeOrZero, andThen_ok, wpc_bind, wpc_tryCall_readAt, andThen_ok]
  simp only [handle]
  cases hfile : w.disk.lookup (segmentName gen) with
  | none =>
    exact hfail (k := 0) (hunread (by simp [Disk.log, Disk.segmentBytes, hfile]))
  | some data =>
    have hmax := hsize data hfile
    simp only [Nat.sub_zero, List.drop_zero]
    by_cases hmin : kSegmentHeaderBytes ≤ data.length
    · have hbytes : Disk.segmentBytes w.disk gen = some data :=
        Option.filter_eq_some_iff.2 ⟨hfile, decide_eq_true ⟨hmin, hmax⟩⟩
      simp only [hmin, if_true]
      have hhead : headedBy gen data = false → Disk.log cfg w.disk gen = none := by
        intro hnot
        rw [Disk.log, hbytes, Option.filter_some, hnot]
        rfl
      cases hp : parseSegmentHeader (data.take kSegmentHeaderBytes) with
      | error version =>
        have hnot := hunread (hhead (by rw [headedBy, hp]))
        simp only
        split
        · exact hfail (k := 0) hnot
        · exact hfail (k := 0) hnot
      | ok header =>
        simp only
        by_cases hg : header.generation = gen
        · rw [if_neg (not_not.2 hg), wpc_bind]
          have hheaded : headedBy gen data = true := by
            rw [headedBy, hp]
            exact decide_eq_true hg
          obtain ⟨evs, torn, hlog⟩ : ∃ evs torn, Disk.log cfg w.disk gen = some (evs, torn) := by
            rw [Disk.log, hbytes, Option.filter_some, if_pos hheaded]
            exact ⟨_, _, rfl⟩
          obtain ⟨⟨-, hfits, s, -, hdata⟩, hstop, -⟩ := log_eq_some_iff.1 hlog
          obtain ⟨corrupt, hstop⟩ := Option.isSome_iff_exists.1 hstop
          obtain rfl := Option.some.inj (hfile.symm.trans hdata)
          have hlt : (segmentData gen s evs torn).length < 2 ^ 32 :=
            Nat.lt_of_le_of_lt hmax (by decide)
          have hsz : Disk.size w.disk (segmentName gen) = (segmentData gen s evs torn).length := by
            rw [Disk.size, hfile, Option.getD_some]
          rw [hsz, u32_of_lt hlt]
          apply wpc_checkEvents hfile hlt hmin
            (List.drop_left' (length_serializeSegmentHeader gen s)) hfits hstop (by omega)
          intro exit hexit
          rw [andThen_ok]
          have hchecked : Disk.Checked cfg w.disk gen isTail ↔
              torn = [] ∨ isTail = true ∧ corrupt = false := by
            unfold Disk.Checked
            simp [hlog, hstop]
          rw [events_eq hlog] at hQ
          cases exit with
          | clean => exact hQ _ (.passed hsound (hchecked.2 (.inl hexit)))
          | torn =>
            simp only
            split
            · next htail => exact hQ _ (.passed hsound (hchecked.2 (.inr ⟨htail, hexit.2⟩)))
            · next htail => exact hfail fun h => (hchecked.1 h).elim hexit.1 fun h => htail h.1
          | corrupt why =>
            apply hfail
            intro h
            rcases hchecked.1 h with rfl | ⟨-, hno⟩
            · rw [stopsAt_nil] at hstop
              exact Bool.false_ne_true ((Option.some.inj hstop).trans hexit)
            · exact Bool.false_ne_true (hno.symm.trans hexit)
        · rw [if_pos hg]
          refine hfail (k := 0) (hunread (hhead ?_))
          rw [headedBy, hp]
          exact decide_eq_false hg
    · simp only [hmin, if_false]
      refine hfail (k := 0) (hunread ?_)
      rw [Disk.log, Disk.segmentBytes_eq_none]
      · rfl
      · intro data' hdata'
        obtain rfl := Option.some.inj (hfile.symm.trans hdata')
        omega

lemma wpc_checkSegExists (hsound : result.Sound options)
    (hQ : ∀ result', Follows options result (∃ data, w.disk.lookup (segmentName gen) = some data ∧
      kSegmentHeaderBytes ≤ data.length) 0 result' → Q (.ok result') ram w) :
    Wpc env A Z J (Store.checkSegExists options gen result) Q ram w := by
  unfold Store.checkSegExists
  split
  · next hstopped =>
    have hok : result.ok ≠ true := fun h => by simp [(hsound.ok_iff.1 h).2] at hstopped
    exact hQ _ ⟨hsound, by simp [hok], fun h => absurd h hok⟩
  · rw [wpc_bind, wpc_tryCall_fileSize, andThen_ok]
    simp only [handle]
    cases hfile : w.disk.lookup (segmentName gen) with
    | none =>
      rw [hfile] at hQ
      exact hQ _ (.failed (k := 0) hsound (by simp))
    | some data =>
      rw [hfile] at hQ
      simp only
      by_cases hmin : kSegmentHeaderBytes ≤ data.length
      · rw [if_neg (not_lt.2 hmin)]
        exact hQ _ (.passed (n := 0) hsound ⟨data, rfl, hmin⟩)
      · rw [if_pos (not_le.1 hmin)]
        exact hQ _ (.failed (k := 0) hsound (by simpa using hmin))

lemma wpc_checkSegmentsExist {gens : List ℕ} (hsound : result.Sound options)
    (hQ : ∀ result', Follows options result (∀ g ∈ gens, ∃ data,
      w.disk.lookup (segmentName g) = some data ∧ kSegmentHeaderBytes ≤ data.length) 0 result' →
        Q (.ok result') ram w) :
    Wpc env A Z J (Store.checkSegmentsExist options gens result) Q ram w := by
  induction gens generalizing result with
  | nil => exact hQ _ (.passed (n := 0) hsound (by simp))
  | cons g gens ih =>
    unfold Store.checkSegmentsExist
    rw [wpc_bind]
    apply wpc_checkSegExists hsound
    intro result' hfirst
    rw [andThen_ok]
    apply ih hfirst.sound
    intro result'' hrest
    exact hQ _ ((hfirst.trans hrest).congr (by simp))

lemma wpc_validateSegments {list : List (ℕ × Bool)} (hsound : result.Sound options)
    (hsize : ∀ p ∈ list, ∀ data, w.disk.lookup (segmentName p.1) = some data →
      data.length ≤ kMaxReplaySegmentReadBytes)
    (hQ : ∀ result', Follows options result (∀ p ∈ list, Disk.Checked cfg w.disk p.1 p.2)
      (list.map fun p => (Disk.events cfg w.disk p.1).length).sum result' → Q (.ok result') ram w) :
    Wpc env A Z J (Store.validateSegments cfg options list result) Q ram w := by
  induction list generalizing result with
  | nil => exact hQ _ (.passed (n := 0) hsound (by simp))
  | cons p list ih =>
    obtain ⟨g, isTail⟩ := p
    unfold Store.validateSegments
    split
    · next hstopped =>
      have hok : result.ok ≠ true := fun h => by simp [(hsound.ok_iff.1 h).2] at hstopped
      exact hQ _ ⟨hsound, by simp [hok], fun h => absurd h hok⟩
    · rw [wpc_bind]
      apply wpc_validateSegment hsound (hsize _ (List.mem_cons_self ..))
      intro result' hfirst
      rw [andThen_ok]
      apply ih hfirst.sound fun p hp => hsize p (List.mem_cons_of_mem _ hp)
      intro result'' hrest
      exact hQ _ ((hfirst.trans hrest).congr (by simp))

end Segments

/-! ## The manifest -/

section Manifest

variable {md : ManifestData} {rs : List ManifestRange} {n : ℕ}

lemma winningManifest_eq (mdA mdB : Option ManifestData) :
    winningManifest mdA mdB = chooseWinningSlot mdA mdB := by
  unfold winningManifest chooseWinningSlot
  cases mdA <;> cases mdB
  all_goals simp only [Option.isSome, if_true, if_false, Bool.false_eq_true]
  split <;> rfl

lemma findSome_boundsIssue (hv : ∀ r ∈ rs, r.Valid) :
    rs.findSome? ManifestRange.boundsIssue = none ↔ ∀ r ∈ rs, r.endGen ≠ 2 ^ 32 - 1 := by
  rw [List.findSome?_eq_none_iff]
  apply forall₂_congr
  intro r hr
  obtain ⟨h0, hle, -⟩ := hv r hr
  unfold ManifestRange.boundsIssue
  rw [if_neg (by omega)]
  simp

lemma overlaps_eq_false_iff {r r' : ManifestRange} (hr : r.Valid) (hr' : r'.Valid) :
    r.overlaps r' = false ↔ List.Disjoint r.gens r'.gens := by
  obtain ⟨-, hle, -⟩ := hr
  obtain ⟨-, hle', -⟩ := hr'
  unfold ManifestRange.overlaps
  rw [decide_eq_false_iff_not]
  constructor
  · intro h g hg hg'
    have := ManifestRange.mem_gens.1 hg
    have := ManifestRange.mem_gens.1 hg'
    omega
  · intro h hover
    apply h (ManifestRange.mem_gens.2 (by omega : r.startGen ≤ max r.startGen r'.startGen ∧ _))
    exact ManifestRange.mem_gens.2 (by omega)

lemma anyOverlap_eq_false_iff (hv : ∀ r ∈ rs, r.Valid) :
    anyOverlap rs = false ↔ (rangeGens rs).Nodup := by
  have hself : ∀ r ∈ rs, r.gens.Nodup := fun r _ => List.nodup_range'
  rw [rangeGens, List.nodup_flatMap, and_iff_right hself]
  induction rs with
  | nil => simp [anyOverlap]
  | cons r rs ih =>
    have hv' := fun r' hr' => hv r' (List.mem_cons_of_mem _ hr')
    rw [anyOverlap, List.pairwise_cons, Bool.or_eq_false_iff, List.any_eq_false]
    apply and_congr _ (ih hv' fun r' _ => List.nodup_range')
    apply forall₂_congr
    intro r' hr'
    rw [Bool.not_eq_true, overlaps_eq_false_iff (hv r (List.mem_cons_self ..)) (hv' r' hr')]

lemma tail_not_mem_iff {t : ℕ} :
    (rs.any fun r => t ≥ r.startGen ∧ t ≤ r.endGen) = false ↔ t ∉ rangeGens rs := by
  rw [List.any_eq_false, rangeGens, List.mem_flatMap]
  simp [ManifestRange.mem_gens]

lemma foldl_max_lt {a : ℕ} : rs.foldl (fun m r => max m r.endGen) a < n ↔
    a < n ∧ ∀ r ∈ rs, r.endGen < n := by
  induction rs generalizing a with
  | nil => simp
  | cons r rs ih =>
    rw [List.foldl_cons, ih, List.forall_mem_cons, max_lt_iff, and_assoc]

/-- No referenced generation reaches the next one. -/
lemma maxRefGen_iff (hv : md.Valid) :
    ¬(md.maxRefGen > 0 ∧ md.maxRefGen ≥ n) ↔ ∀ g ∈ md.gens, g < n := by
  have hsealed : md.maxSealedGen < n ↔ 0 < n ∧ ∀ r ∈ md.ranges, r.endGen < n := foldl_max_lt
  have hzero : md.maxSealedGen < 1 ↔ 0 < 1 ∧ ∀ r ∈ md.ranges, r.endGen < 1 := foldl_max_lt
  have hgens : (∀ g ∈ md.gens, g < n) ↔
      (∀ r ∈ md.ranges, r.endGen < n) ∧ (md.tailGeneration ≠ 0 → md.tailGeneration < n) := by
    unfold ManifestData.gens ManifestData.tailList rangeGens
    simp only [List.mem_append, or_imp, forall_and, List.mem_flatMap]
    apply and_congr
    · constructor
      · intro h r hr
        exact h _ ⟨r, hr, ManifestRange.mem_gens.2 ⟨(hv.ranges_valid r hr).2.1, le_rfl⟩⟩
      · rintro h g ⟨r, hr, hg⟩
        exact (ManifestRange.mem_gens.1 hg).2.trans_lt (h r hr)
    · by_cases ht : md.tailGeneration = 0
      · simp [ht]
      · simp [ht]
  rw [hgens]
  unfold ManifestData.maxRefGen
  by_cases hnil : md.ranges = []
  · have hmax : md.maxSealedGen = 0 := by
      unfold ManifestData.maxSealedGen
      rw [hnil]
      rfl
    rw [hmax, hnil]
    split
    · next ht =>
      simp only [List.not_mem_nil, false_implies, implies_true, true_and, ht, ne_eq,
        not_false_eq_true,
        true_implies]
      omega
    · next ht => simp [not_not.1 ht]
  · have htail := hv.tail_ne hnil
    obtain ⟨r, hr⟩ := List.exists_mem_of_ne_nil _ hnil
    obtain ⟨h0, hle, -⟩ := hv.ranges_valid r hr
    rw [if_pos htail]
    constructor
    · intro h
      have hlt : md.maxSealedGen < n := by omega
      exact ⟨(hsealed.1 hlt).2, fun _ => by omega⟩
    · rintro ⟨h, ht⟩ ⟨-, hge⟩
      have hlt : md.maxSealedGen < n := hsealed.2 ⟨by have := ht htail; omega, h⟩
      have := ht htail
      omega

lemma referencesMore_eq_false_iff {acc : ℕ} (hv : ∀ r ∈ rs, r.Valid) :
    referencesMore n acc rs = false ↔ (rs ≠ [] → acc + (rangeGens rs).length ≤ n) := by
  induction rs generalizing acc with
  | nil => simp [referencesMore]
  | cons r rs ih =>
    have hv' := fun r' hr' => hv r' (List.mem_cons_of_mem _ hr')
    obtain ⟨-, hle, -⟩ := hv r (List.mem_cons_self ..)
    have hlen : (rangeGens (r :: rs)).length = (r.endGen - r.startGen + 1) +
        (rangeGens rs).length := by
      rw [rangeGens, List.flatMap_cons, List.length_append, ManifestRange.gens, List.length_range']
      rw [rangeGens]
      omega
    rw [referencesMore, Bool.or_eq_false_iff, ih hv', hlen]
    by_cases hnil : rs = []
    · simp [hnil, rangeGens]
    · simp [hnil]
      omega

/-- **What the manifest checks accept.** -/
lemma issue_eq_none_iff (hv : md.Valid) : md.issue n = none ↔
    (∀ r ∈ md.ranges, r.endGen ≠ 2 ^ 32 - 1) ∧ md.gens.Nodup ∧
      (∀ g ∈ md.gens, g < md.nextGeneration) ∧ (md.ranges ≠ [] → md.gens.length ≤ n) := by
  have hbounds := findSome_boundsIssue hv.ranges_valid
  have hnodup : md.gens.Nodup ↔ (rangeGens md.ranges).Nodup ∧
      ¬(md.tailGeneration ≠ 0 ∧ md.ranges.any fun r =>
        md.tailGeneration ≥ r.startGen ∧ md.tailGeneration ≤ r.endGen) := by
    rw [not_and, Bool.not_eq_true, tail_not_mem_iff]
    unfold ManifestData.gens ManifestData.tailList
    by_cases ht : md.tailGeneration = 0
    · simp [ht]
    · simp [ht, List.nodup_append]
      grind
  have hcount : (md.ranges ≠ [] → md.gens.length ≤ n) ↔
      referencesMore n (if md.tailGeneration ≠ 0 then 1 else 0) md.ranges = false := by
    rw [referencesMore_eq_false_iff hv.ranges_valid]
    unfold ManifestData.gens ManifestData.tailList
    split
    · simp [Nat.add_comm]
    · simp
  rw [hnodup, ← anyOverlap_eq_false_iff hv.ranges_valid, ← maxRefGen_iff hv, hcount, ← hbounds]
  unfold ManifestData.issue
  cases md.ranges.findSome? ManifestRange.boundsIssue with
  | some msg => simp
  | none =>
    simp only [true_and]
    cases anyOverlap md.ranges with
    | true => simp
    | false =>
      simp only [Bool.false_eq_true, if_false, true_and]
      split
      · next h => exact iff_of_false (by simp) fun hall => hall.1 h
      · next h =>
        rw [and_iff_right h]
        split
        · next h => exact iff_of_false (by simp) fun hall => hall.1 h
        · next h =>
          rw [and_iff_right h]
          cases referencesMore n (if md.tailGeneration ≠ 0 then 1 else 0) md.ranges <;> simp

end Manifest

/-! ## Directories -/

/-- A directory without anything for the validation to report. -/
def Disk.Validates (cfg : AppendLogConfig) (d : Disk) : Prop :=
  match Disk.elected d with
  | none =>
    (∀ slot : Slot, d.lookup slot.fileName = none) ∧
      ∀ name ∈ d.keys, isSegmentName name = none
  | some md => md.issue (d.keys.countP fun name => (isSegmentName name).isSome) = none ∧
      (∀ g ∈ md.sealedGens, Disk.Checked cfg d g false) ∧
        ∀ g ∈ md.tailList, Disk.Checked cfg d g true

/-- The directory is within the guards that only the mount has. -/
def Disk.WithinGuards (d : Disk) : Prop :=
  ∀ md ∈ Disk.elected d, md.totalGens ≤ kManifestMaxTotalGenerations ∧
    (∀ g ∈ md.gens, ∀ data ∈ d.lookup (segmentName g), data.length ≤ kMaxReplaySegmentReadBytes) ∧
    NamesOk d

/-- What only the validation asks for: no slot file without a manifest, each segment once and below
the next generation, no corrupt event in the tail. -/
def Disk.Tidy (cfg : AppendLogConfig) (d : Disk) : Prop :=
  match Disk.elected d with
  | none => ∀ slot : Slot, d.lookup slot.fileName = none
  | some md => md.gens.Nodup ∧ (∀ g ∈ md.gens, g < md.nextGeneration) ∧
      ∀ g ∈ md.gens.getLast?, stopsAt cfg.maxRecordBytes (Disk.torn cfg d g) = some false

section Directories

variable {env : Env} {A : StoreMark → Disk → Prop} {Z : Prop} {J : Disk → Prop}
  {ram : Ram} {w : World}
  {cfg : AppendLogConfig} {options : ValidationOptions} {d : Disk} {md : ManifestData}

open ValidationResult

lemma wpc_validateManifest {files : List FileName} {Q : StorePost ValidationResult}
    (hsize : ∀ g ∈ md.gens, ∀ data, w.disk.lookup (segmentName g) = some data →
      data.length ≤ kMaxReplaySegmentReadBytes)
    (hQ : ∀ result, Follows options {}
      (md.issue (files.countP fun name => (isSegmentName name).isSome) = none ∧
        (∀ g ∈ md.sealedGens, Disk.Checked cfg w.disk g false) ∧
        ∀ g ∈ md.tailList, Disk.Checked cfg w.disk g true)
      (md.gens.flatMap (Disk.events cfg w.disk)).length result → Q (.ok result) ram w) :
    Wpc env A Z J (Store.validateManifest cfg options files md) Q ram w := by
  unfold Store.validateManifest
  simp only
  cases hissue : md.issue (files.countP fun name => (isSegmentName name).isSome) with
  | some msg => exact hQ _ (.failed (k := 0) .empty (by simp [hissue]))
  | none =>
    rw [hissue] at hQ
    simp only [wpc_bind]
    have hgens : md.sealedGens ++ md.tailList = md.gens := rfl
    apply wpc_checkSegmentsExist .empty
    intro result hexist
    rw [hgens] at hexist
    rw [andThen_ok]
    have hexists : ((∀ g ∈ md.sealedGens, Disk.Checked cfg w.disk g false) ∧
        ∀ g ∈ md.tailList, Disk.Checked cfg w.disk g true) →
          ∀ g ∈ md.gens, ∃ data, w.disk.lookup (segmentName g) = some data ∧
            kSegmentHeaderBytes ≤ data.length := by
      rintro ⟨hsealed, htail⟩ g hg
      obtain ⟨evs, torn, hlog, -⟩ :
          ∃ evs torn, Disk.log cfg w.disk g = some (evs, torn) ∧ True := by
        rcases List.mem_append.1 hg with hg | hg
        · obtain ⟨evs, torn, hlog, -⟩ := hsealed g hg
          exact ⟨evs, torn, hlog, trivial⟩
        · obtain ⟨evs, torn, hlog, -⟩ := htail g hg
          exact ⟨evs, torn, hlog, trivial⟩
      obtain ⟨⟨-, -, s, -, hfile⟩, -, -⟩ := log_eq_some_iff.1 hlog
      refine ⟨_, hfile, ?_⟩
      rw [length_segmentData, logBytes]
      omega
    split
    · next hok =>
      have hsizes : ∀ p ∈ md.sealedGens.map (fun g => (g, false)) ++
          md.tailList.map (fun g => (g, true)),
          ∀ data, w.disk.lookup (segmentName p.1) = some data →
            data.length ≤ kMaxReplaySegmentReadBytes := by
        intro p hp
        apply hsize
        rw [← hgens, List.mem_append]
        rcases List.mem_append.1 hp with hp | hp
        · obtain ⟨g, hg, rfl⟩ := List.mem_map.1 hp
          exact .inl hg
        · obtain ⟨g, hg, rfl⟩ := List.mem_map.1 hp
          exact .inr hg
      apply wpc_validateSegments hexist.sound hsizes
      intro result' hscan
      have hsum : ((md.sealedGens.map (fun g => (g, false)) ++
          md.tailList.map (fun g => (g, true))).map
          fun p => (Disk.events cfg w.disk p.1).length).sum =
            (md.gens.flatMap (Disk.events cfg w.disk)).length := by
        rw [List.length_flatMap, ← hgens, List.map_append, List.map_append,
          List.map_map, List.map_map]
        rfl
      rw [hsum] at hscan
      have hall := hexist.trans hscan
      rw [Nat.zero_add] at hall
      refine hQ _ (hall.congr ?_)
      have hpairs : (∀ p ∈ md.sealedGens.map (fun g => (g, false)) ++
            md.tailList.map (fun g => (g, true)),
          Disk.Checked cfg w.disk p.1 p.2) ↔
            (∀ g ∈ md.sealedGens, Disk.Checked cfg w.disk g false) ∧
            ∀ g ∈ md.tailList, Disk.Checked cfg w.disk g true := by
        simp only [List.mem_append, List.mem_map, or_imp, forall_and, forall_exists_index, and_imp,
          forall_apply_eq_imp_iff₂]
      rw [hpairs]
      simp only [true_and]
      exact ⟨fun h => h.2, fun h => ⟨hexists h, h⟩⟩
    · next hok =>
      have hnot := fun h => hok (hexist.ok_iff.2 ⟨rfl, hexists h⟩)
      refine hQ _ ⟨hexist.sound, ?_, fun h => absurd h hok⟩
      simp only [true_and]
      exact ⟨fun h => absurd h hok, fun h => absurd h hnot⟩

/-- **The validation of any directory** whose referenced files are within the read guard. -/
lemma wpc_validateUnlocked {Q : StorePost ValidationResult}
    (hsize : ∀ md ∈ Disk.elected w.disk, ∀ g ∈ md.gens, ∀ data ∈ w.disk.lookup (segmentName g),
      data.length ≤ kMaxReplaySegmentReadBytes)
    (hQ : ∀ result, Follows options {} (Disk.Validates cfg w.disk)
      (Disk.history cfg w.disk).length result → Q (.ok result) ram w.tick) :
    Wpc env A Z J (Store.validateUnlocked cfg options) Q ram w := by
  unfold Store.validateUnlocked
  rw [wpc_bind, wpc_tryCall_mount, andThen_ok]
  simp only [wpc_bind, wpc_slotExists, wpc_tryReadSlot, andThen_ok]
  rw [wpc_tryCall_listFiles, andThen_ok, winningManifest_eq]
  have helect : chooseWinningSlot (Disk.manifest w.disk .a) (Disk.manifest w.disk .b) =
      Disk.elected w.disk := rfl
  rw [helect]
  unfold Disk.Validates Disk.history Disk.gens at hQ
  have hperm := env.order_perm w.clock w.disk.keys
  cases hmd : Disk.elected w.disk with
  | some md =>
    rw [hmd] at hQ hsize
    rw [← hperm.countP_eq] at hQ
    exact wpc_validateManifest (w := w.tick) (hsize md rfl) hQ
  | none =>
    rw [hmd] at hQ
    have hslots : (∀ slot : Slot, w.disk.lookup slot.fileName = none) ↔
        ¬((w.disk.lookup Slot.a.fileName).isSome = true ∨
          (w.disk.lookup Slot.b.fileName).isSome = true) := by
      simp only [not_or, Option.not_isSome_iff_eq_none]
      exact ⟨fun h => ⟨h .a, h .b⟩, fun h slot => by cases slot; exacts [h.1, h.2]⟩
    have hnames : (∀ name ∈ w.disk.keys, isSegmentName name = none) ↔
        ¬((env.order w.clock w.disk.keys).any fun name => (isSegmentName name).isSome) = true := by
      simp only [List.any_eq_true, not_exists, not_and, Option.not_isSome_iff_eq_none]
      exact ⟨fun h name hname => h name (hperm.mem_iff.1 hname),
        fun h name hname => h name (hperm.mem_iff.2 hname)⟩
    rw [hslots, hnames] at hQ
    simp only
    split
    · next h => exact hQ _ (.failed (k := 0) .empty fun hall => hall.1 h)
    · next h =>
      split
      · next h' => exact hQ _ (.failed (k := 0) .empty fun hall => hall.2 h')
      · next h' => exact hQ _ (.passed (n := 0) .empty ⟨h, h'⟩)

/-! ## Validating and mounting -/

lemma checked_iff_scans (hv : md.Valid) :
    ((∀ g ∈ md.sealedGens, Disk.Checked cfg d g false) ∧
      ∀ g ∈ md.tailList, Disk.Checked cfg d g true) ↔
      Disk.Scans cfg d md.gens ∧
        ∀ g ∈ md.gens.getLast?, stopsAt cfg.maxRecordBytes (Disk.torn cfg d g) = some false := by
  by_cases ht : md.tailGeneration = 0
  · have hnil : md.ranges = [] := by
      by_contra hne
      exact hv.tail_ne hne ht
    simp [ManifestData.gens, ManifestData.sealedGens, ManifestData.tailList, rangeGens, hnil, ht,
      Disk.Scans]
  · have hgens : md.gens = md.sealedGens ++ [md.tailGeneration] := by
      unfold ManifestData.gens ManifestData.tailList
      rw [if_pos ht]
      rfl
    have htail : md.tailList = [md.tailGeneration] := by
      rw [ManifestData.tailList, if_pos ht]
    have hlast : md.gens.getLast? = some md.tailGeneration := by
      rw [hgens, List.getLast?_concat]
    have hdrop : md.gens.dropLast = md.sealedGens := by
      rw [hgens, List.dropLast_concat]
    rw [htail, hlast]
    simp only [List.mem_singleton, forall_eq, Option.mem_def, Option.some.injEq, forall_eq']
    constructor
    · rintro ⟨hsealed, evs, torn, hlog, hor⟩
      constructor
      · apply scans_of_dropLast
        · intro g hg
          rw [hdrop] at hg
          obtain ⟨evs', torn', hlog', hor'⟩ := hsealed g hg
          obtain rfl : torn' = [] := by simpa using hor'
          exact ⟨evs', hlog'⟩
        · intro g hg
          rw [hlast] at hg
          obtain rfl := Option.some.inj hg
          exact ⟨evs, torn, hlog⟩
      · rw [torn_eq hlog]
        rcases hor with rfl | ⟨-, hstop⟩
        · exact stopsAt_nil _
        · exact hstop
    · rintro ⟨hs, hstop⟩
      constructor
      · intro g hg
        rw [← hdrop] at hg
        exact ⟨_, _, hs.dropLast hg, .inl rfl⟩
      · obtain ⟨torn, hlog, -⟩ := hs.log (List.mem_of_getLast? hlast)
        rw [torn_eq hlog] at hstop
        exact ⟨_, torn, hlog, .inr ⟨rfl, hstop⟩⟩

/-- Different segments have files of their own. -/
lemma length_gens_le {gens : List ℕ}
    (hs : ∀ g ∈ gens, ∃ evs torn, Disk.log cfg d g = some (evs, torn))
    (hnodup : gens.Nodup) :
    gens.length ≤ d.keys.countP fun name => (isSegmentName name).isSome := by
  have hlt : ∀ g ∈ gens, g < 2 ^ 32 := by
    intro g hg
    obtain ⟨evs, torn, hlog⟩ := hs g hg
    exact (log_eq_some_iff.1 hlog).1.1
  have hmap : (gens.map segmentName).Nodup :=
    hnodup.map_on fun g hg g' hg' h => segmentName_injOn (hlt g hg) (hlt g' hg') h
  have hsub : gens.map segmentName ⊆ d.keys.filter fun name => (isSegmentName name).isSome := by
    intro name hname
    obtain ⟨g, hg, rfl⟩ := List.mem_map.1 hname
    obtain ⟨evs, torn, hlog⟩ := hs g hg
    obtain ⟨⟨-, -, s, -, hfile⟩, -, -⟩ := log_eq_some_iff.1 hlog
    rw [List.mem_filter, isSegmentName_segmentName (hlt g hg)]
    exact ⟨AList.lookup_isSome.1 (by rw [hfile]; rfl), rfl⟩
  have := (hmap.subperm hsub).length_le
  rwa [List.length_map, ← List.countP_eq_length_filter] at this

lemma validates_iff_tidy (hm : Disk.Mounts cfg d) : Disk.Validates cfg d ↔ Disk.Tidy cfg d := by
  have hs := hm.scans
  unfold Disk.Mounts at hm
  unfold Disk.gens at hs
  unfold Disk.Validates Disk.Tidy
  cases helect : Disk.elected d with
  | none =>
    rw [helect] at hm
    exact and_iff_left hm
  | some md =>
    rw [helect] at hm hs
    have hv := elected_valid helect
    simp only
    rw [checked_iff_scans hv, issue_eq_none_iff hv]
    constructor
    · rintro ⟨⟨-, hnodup, hlt, -⟩, -, hstop⟩
      exact ⟨hnodup, hlt, hstop⟩
    · rintro ⟨hnodup, hlt, hstop⟩
      have hlogs : ∀ g ∈ md.gens, ∃ evs torn, Disk.log cfg d g = some (evs, torn) := by
        intro g hg
        obtain ⟨torn, hlog, -⟩ := hs.log hg
        exact ⟨_, torn, hlog⟩
      exact ⟨⟨hm.2.1, hnodup, hlt, fun _ => length_gens_le hlogs hnodup⟩, hs, hstop⟩

lemma mounts_of_validates (h : Disk.Validates cfg d) (hg : Disk.WithinGuards d) :
    Disk.Mounts cfg d := by
  unfold Disk.Validates at h
  unfold Disk.WithinGuards at hg
  unfold Disk.Mounts
  cases helect : Disk.elected d with
  | none =>
    rw [helect] at h
    exact h.2
  | some md =>
    rw [helect] at h
    obtain ⟨htotal, -, hnames⟩ := hg md helect
    have hv := elected_valid helect
    exact ⟨htotal, ((issue_eq_none_iff hv).1 h.1).1, ((checked_iff_scans hv).1 h.2).1, hnames⟩

lemma Disk.Mounts.withinGuards (h : Disk.Mounts cfg d) : Disk.WithinGuards d := by
  intro md helect
  obtain ⟨htotal, hsize⟩ := h.withinSizes md helect
  unfold Disk.Mounts at h
  rw [helect] at h
  exact ⟨htotal, hsize, h.2.2.2⟩

lemma mountSucceeds_iff_mounts : MountSucceeds env cfg ram w ↔ Disk.Mounts cfg w.disk := by
  rw [mountSucceeds_iff]
  exact and_iff_right_of_imp Disk.Mounts.not_wraps

/-- The report on a directory within the guards. -/
lemma exists_report (hg : Disk.WithinGuards w.disk) : ∃ result,
    Prog.run (handle env) (Store.validateUnlocked cfg options ram) w = some
      ((.ok result, ram), w.tick) ∧
      Follows options {} (Disk.Validates cfg w.disk) (Disk.history cfg w.disk).length result := by
  have hw : Wpc env (fun _ _ => True) False (fun _ => True) (Store.validateUnlocked cfg options)
      (fun r ram' w' => ram' = ram ∧ w' = w.tick ∧ ∃ result, r = .ok result ∧ Follows options {}
        (Disk.Validates cfg w.disk) (Disk.history cfg w.disk).length result) ram w := by
    apply wpc_validateUnlocked
    · intro md hmd
      exact (hg md hmd).2.1
    · intro result hresult
      exact ⟨rfl, rfl, result, rfl, hresult⟩
  obtain ⟨⟨r, ram'⟩, w', hrun, hram, hw', result, hr, hresult⟩ :=
    Prog.wpc_total hw (Prog.marksOk_true _ _ _)
  obtain rfl : ram' = ram := hram
  obtain rfl : w' = w.tick := hw'
  obtain rfl : r = .ok result := hr
  exact ⟨result, hrun, hresult⟩

/-- **Validation and mount agree** up to the guards of the mount: a directory that validates mounts
exactly when it is within them, and one that mounts is reported on soundly, validates exactly when
it is tidy, and has then as many events as the validation counted. -/
theorem validate_agrees (env : Env) (cfg : AppendLogConfig)
    (options : ValidationOptions) (ram : Ram)
    (w : World) :
    (∀ result ram' w', Prog.run (handle env) (Store.validateUnlocked cfg options ram) w =
      some ((.ok result, ram'), w') → result.ok = true →
        (MountSucceeds env cfg ram w ↔ Disk.WithinGuards w.disk)) ∧
    (MountSucceeds env cfg ram w → ∃ result w',
      Prog.run (handle env) (Store.validateUnlocked cfg options ram) w = some
        ((.ok result, ram), w') ∧
        w'.disk = w.disk ∧ result.Sound options ∧ (result.ok = true ↔ Disk.Tidy cfg w.disk) ∧
        (result.ok = true → result.checkedRecords = u32 (Disk.history cfg w.disk).length)) := by
  constructor
  · intro result ram' w' hrun hok
    rw [mountSucceeds_iff_mounts]
    refine ⟨Disk.Mounts.withinGuards, fun hg => ?_⟩
    obtain ⟨result', hrun', hresult⟩ := @exists_report env ram w cfg options hg
    obtain rfl : result' = result := by
      rw [hrun] at hrun'
      simp_all
    exact mounts_of_validates (hresult.ok_iff.1 hok).2 hg
  · rw [mountSucceeds_iff_mounts]
    intro hm
    obtain ⟨result, hrun, hresult⟩ := @exists_report env ram w cfg options hm.withinGuards
    refine ⟨result, w.tick, hrun, rfl, hresult.sound, ?_, fun hok => ?_⟩
    · rw [hresult.ok_iff, validates_iff_tidy hm]
      exact and_iff_right rfl
    · rw [hresult.counted hok, checkedRecords_iterate (by decide), Nat.zero_add]

/-! ## What a validated directory mounts as -/

lemma length_flatMap_le {α β : Type} {f : α → List β} {n : ℕ} {l : List α}
    (h : ∀ a ∈ l, (f a).length ≤ n) : (l.flatMap f).length ≤ l.length * n := by
  induction l with
  | nil => simp
  | cons a l ih =>
    have ha := h a (List.mem_cons_self ..)
    have hl := ih fun b hb => h b (List.mem_cons_of_mem _ hb)
    rw [List.flatMap_cons, List.length_append, List.length_cons, Nat.add_mul, Nat.one_mul]
    omega

lemma length_le_encodeEvents (evs : List LogEvent) : evs.length ≤ (encodeEvents evs).length := by
  induction evs with
  | nil => simp
  | cons e evs ih =>
    have hle := e.length_encode_pos
    have hpos : 0 < kPopEventBytes := by decide
    rw [encodeEvents_cons, List.length_append, List.length_cons]
    omega

/-- A directory that mounts has no more events than a 32-bit count can tell. -/
lemma Disk.Mounts.length_history (h : Disk.Mounts cfg w.disk) :
    (Disk.history cfg w.disk).length < 2 ^ 32 := by
  have hevents : ∀ g ∈ Disk.gens w.disk,
      (Disk.events cfg w.disk g).length ≤ kMaxReplaySegmentReadBytes := by
    intro g hg
    obtain ⟨torn, hlog, -⟩ := h.scans.log hg
    obtain ⟨-, -, hsize⟩ := log_eq_some_iff.1 hlog
    have hle := length_le_encodeEvents (Disk.events cfg w.disk g)
    unfold logBytes at hsize
    omega
  have hgens : (Disk.gens w.disk).length ≤ kManifestMaxTotalGenerations := by
    unfold Disk.gens
    unfold Disk.Mounts at h
    cases helect : Disk.elected w.disk with
    | none => simp
    | some md =>
      rw [helect] at h
      rw [Option.map_some, Option.getD_some, ← ManifestData.totalGens_eq]
      exact h.1
  have hlt : kManifestMaxTotalGenerations * kMaxReplaySegmentReadBytes < 2 ^ 32 := by decide
  exact ((length_flatMap_le hevents).trans (Nat.mul_le_mul_right _ hgens)).trans_lt hlt

/-- A new object mounts the directory with the manifest that the validation has elected, and replays
the events that it has counted. -/
def MountsAsCounted (env : Env) (cfg : AppendLogConfig) (w : World) (result : ValidationResult) :
    Prop :=
  ∃ ram w', Prog.run (handle env) (Store.mount cfg {}) w = some ((.ok (), ram), w') ∧
    MountedAs (env.order w.clock w.disk.keys)
      ((winningManifest (Disk.manifest w.disk .a) (Disk.manifest w.disk .b)).getD {})
      (Disk.events cfg w.disk) ram ∧
    result.checkedRecords = (Disk.history cfg w.disk).length

/-- **A validated directory** mounts as it was validated exactly when it is within the guards that
only the mount has. -/
theorem validated_mounts_iff {result : ValidationResult} {ram' : Ram} {w' : World}
    (hrun : Prog.run (handle env) (Store.validateUnlocked cfg options ram) w =
      some ((.ok result, ram'), w')) (hok : result.ok = true) :
    MountsAsCounted env cfg w result ↔ Disk.WithinGuards w.disk := by
  constructor
  · rintro ⟨ram₁, w₁, hmount, -⟩
    exact (mounts_of_run hmount).withinGuards
  · intro hg
    obtain ⟨result', hrun', hresult⟩ := @exists_report env ram w cfg options hg
    obtain rfl : result' = result := by
      rw [hrun] at hrun'
      simp_all
    have hm := mounts_of_validates (hresult.ok_iff.1 hok).2 hg
    obtain ⟨r, ram₁, w₁, hmount, -, hmounted⟩ :=
      @within_mount env (fun _ => false) {} w cfg hm.not_wraps
    rw [hmounted.succeeds hm, refusing_none] at hmount
    refine ⟨ram₁, w₁, hmount, ?_, ?_⟩
    · rw [winningManifest_eq]
      exact hmounted.ram hm rfl
    · rw [hresult.counted hok, checkedRecords_iterate (by decide), Nat.zero_add,
        u32_of_lt hm.length_history]

end Directories

/-- A log of four events with one byte of another after it. -/
theorem validated_mounts_iff_torn : ∃ result ram w',
    Prog.run (handle (plainEnv .posix)) (Store.validateUnlocked bigRecords {} {})
      (onlySegment poppedLog [0]) = some ((.ok result, ram), w') ∧ result.checkedRecords = 4 ∧
        MountsAsCounted (plainEnv .posix) bigRecords (onlySegment poppedLog [0]) result ∧
          Disk.WithinGuards (onlySegment poppedLog [0]).disk := by
  have hvalid : ((Prog.run (handle (plainEnv .posix)) (Store.validateUnlocked bigRecords {} {})
      (onlySegment poppedLog [0])).map fun x => x.1.1.toOption) =
        some (some { checkedRecords := 4 }) := by
    decide +kernel
  have hok : ((Prog.run (handle (plainEnv .posix)) (Store.mount bigRecords {})
      (onlySegment poppedLog [0])).map fun x => x.1.1.toBool) = some true := by
    decide +kernel
  generalize onlySegment poppedLog [0] = w at hvalid hok ⊢
  obtain ⟨⟨⟨r, ram⟩, w'⟩, hrun, hr⟩ := Option.map_eq_some_iff.1 hvalid
  obtain ⟨⟨⟨r₁, ram₁⟩, w₁⟩, hmount, hr₁⟩ := Option.map_eq_some_iff.1 hok
  obtain rfl := eq_ok_of_toBool hr₁
  cases r with
  | error e => cases hr
  | ok result =>
    obtain rfl : result = { checkedRecords := 4 } := Option.some.inj hr
    have hg := (mounts_of_run hmount).withinGuards
    exact ⟨_, ram, w', hrun, rfl, (validated_mounts_iff hrun rfl).2 hg, hg⟩

/-- A file with an upper-case name beside a store. -/
theorem validated_mounts_iff_upper : ∃ result ram w',
    Prog.run (handle (plainEnv .posix)) (Store.validateUnlocked {} {} {})
      (withFiles [(upperName, [0])]) = some ((.ok result, ram), w') ∧ result.ok = true ∧
        ¬MountsAsCounted (plainEnv .posix) {} (withFiles [(upperName, [0])]) result := by
  have hvalid : ((Prog.run (handle (plainEnv .posix)) (Store.validateUnlocked {} {} {})
      (withFiles [(upperName, [0])])).map fun x => x.1.1.toOption.map ValidationResult.ok) =
        some (some true) := by
    decide +kernel
  obtain ⟨⟨⟨r, ram⟩, w'⟩, hrun, hr⟩ := Option.map_eq_some_iff.1 hvalid
  obtain ⟨result, hresult, hok⟩ := Option.map_eq_some_iff.1 hr
  cases r with
  | error e => cases hresult
  | ok result' =>
    obtain rfl := Option.some.inj hresult
    refine ⟨_, _, _, hrun, hok, ?_⟩
    rintro ⟨ram₁, w₁, hmount, -⟩
    have hfails : ((Prog.run (handle (plainEnv .posix)) (Store.mount {} {})
        (withFiles [(upperName, [0])])).map fun x => x.1.1.toBool) = some false := by
      decide +kernel
    rw [hmount] at hfails
    cases hfails

end Pqueue
