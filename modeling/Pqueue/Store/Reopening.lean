import Pqueue.Store.Recovery

/-!
# Opening a store under another configuration

The scanner takes an event above the record limit of its own configuration for corruption, and cuts
the tail there.  `reopened_iff` says for which logs and limits a mount under a second configuration
is safe: it fails and leaves the segments alone, or it yields the same records and keeps every
complete event.
-/

namespace Pqueue

open Effect LittleEndian

/-! ## Scanning with two limits -/

section Limits

variable {cfg₁ cfg₂ : AppendLogConfig} {d : Disk} {g m : ℕ} {e e' : LogEvent}
  {evs : List LogEvent} {rest rest' torn bytes : Bytes}

/-- An event that fits a limit fits the format. -/
lemma LogEvent.Fits.format (h : e.Fits m) : e.Fits (2 ^ 32) := by
  cases e with
  | enqueue seq payload => exact ⟨h.1, by have := h.2.2; omega, h.2.2⟩
  | rewrite seq payload => exact ⟨h.1, by have := h.2.2; omega, h.2.2⟩
  | pop seq => exact h

lemma LogEvent.found_inj (h : e.found rest = e'.found rest') : e = e' := by
  cases e <;> cases e' <;> simp [found, popEventOf, kEnqueueMagic, kRewriteMagic] at h ⊢ <;> tauto

/-- The scan stops at bytes that are no event of the format. -/
lemma stopsAt_of_format (hlen : bytes.length < 2 ^ 32) (h : (stopsAt (2 ^ 32) bytes).isSome) :
    (stopsAt m bytes).isSome := by
  unfold stopsAt at h ⊢
  by_cases hnil : bytes = []
  · simp [hnil]
  · rw [if_neg hnil] at h ⊢
    rcases scanStep_cases (m := m) hlen with hs | hs | hs | ⟨e, rest, hfit, rfl, -⟩
    · simp [hs]
    · simp [hs]
    · simp [hs]
    · rw [scanStep_encode hfit.format] at h
      cases e <;> simp [LogEvent.found] at h

/-- The scan stops at an event above the limit. -/
lemma stopsAt_above (he : e.Fits (2 ^ 32)) (hm : ¬e.Fits m)
    (hlen : (e.encode ++ rest).length < 2 ^ 32) : (stopsAt m (e.encode ++ rest)).isSome := by
  unfold stopsAt
  split
  · rfl
  · rcases scanStep_cases (m := m) hlen with hs | hs | hs | ⟨e', rest', hfit, heq, -⟩
    · simp [hs]
    · simp [hs]
    · simp [hs]
    · have hfound : e.found rest = e'.found rest' := by
        rw [← scanStep_encode he, heq, scanStep_encode hfit.format]
      exact absurd (LogEvent.found_inj hfound ▸ hfit) hm

/-- A log whose events are below the limit is read in full. -/
lemma log_of_fits (hlog : Disk.log cfg₁ d g = some (evs, torn))
    (hfits : ∀ e ∈ evs, e.Fits cfg₂.maxRecordBytes) (hstop : (stopsAt (2 ^ 32) torn).isSome) :
    Disk.log cfg₂ d g = some (evs, torn) := by
  obtain ⟨⟨hgen, -, startSeq, hstart, hfile⟩, -, hsize⟩ := log_eq_some_iff.1 hlog
  have hlt : torn.length < 2 ^ 32 :=
    Nat.lt_of_le_of_lt ((Nat.le_add_left ..).trans hsize) (by decide)
  exact log_eq_some_iff.2 ⟨⟨hgen, hfits, startSeq, hstart, hfile⟩,
    stopsAt_of_format hlt hstop, hsize⟩

/-- Otherwise it is read up to the first event above the limit. -/
lemma log_of_above (hlog : Disk.log cfg₁ d g = some (evs, torn))
    (habove : ∃ e ∈ evs, ¬e.Fits cfg₂.maxRecordBytes) : ∃ pre e post, evs = pre ++ e :: post ∧
      Disk.log cfg₂ d g = some (pre, e.encode ++ (encodeEvents post ++ torn)) := by
  classical
  obtain ⟨⟨hgen, hfits, startSeq, hstart, hfile⟩, -, hsize⟩ := log_eq_some_iff.1 hlog
  obtain ⟨e, hfind⟩ := Option.isSome_iff_exists.1
    (List.find?_isSome (p := fun e : LogEvent => decide ¬e.Fits cfg₂.maxRecordBytes).2
      (by simpa using habove))
  obtain ⟨he, pre, post, rfl, hpre⟩ := List.find?_eq_some_iff_append.1 hfind
  simp only [decide_not, Bool.not_eq_true', decide_eq_false_iff_not, Bool.not_not,
    decide_eq_true_eq] at he hpre
  have hbytes : logBytes (pre ++ e :: post) + torn.length = logBytes pre +
      (e.encode ++ (encodeEvents post ++ torn)).length := by
    rw [logBytes_append, encodeEvents_cons]
    simp only [List.length_append]
    omega
  rw [hbytes] at hsize
  have hlt : (e.encode ++ (encodeEvents post ++ torn)).length < 2 ^ 32 :=
    Nat.lt_of_le_of_lt ((Nat.le_add_left ..).trans hsize) (by decide)
  have hmem : e ∈ pre ++ e :: post := by simp
  refine ⟨pre, e, post, rfl, log_eq_some_iff.2 ⟨⟨hgen, hpre, startSeq, hstart, ?_⟩,
    stopsAt_above (hfits e hmem).format he hlt, hsize⟩⟩
  rw [hfile, segmentData, segmentData, encodeEvents_append, encodeEvents_cons]
  simp only [List.append_assoc]

end Limits

/-! ## Reopening -/

/-- The directory of a store that `cfg` has written: it mounts, and what follows the log of the tail
is no event of the format. -/
def Disk.WrittenUnder (cfg : AppendLogConfig) (d : Disk) : Prop :=
  Disk.Mounts cfg d ∧ ∀ g ∈ (Disk.gens d).getLast?, (stopsAt (2 ^ 32) (Disk.torn cfg d g)).isSome

/-- The complete events at the front of segment `g`, with nothing invalid between them, are still
there. -/
def KeepsEvents (d d' : Disk) (g : ℕ) : Prop :=
  ∀ startSeq pre e rest, (∀ e' ∈ pre ++ [e], LogEvent.Fits (2 ^ 32) e') →
    d.lookup (segmentName g) = some (segmentData g startSeq (pre ++ [e]) rest) →
    ∃ rest', d'.lookup (segmentName g) = some (segmentData g startSeq (pre ++ [e]) rest')

/-- A mount under `cfg₂` fails and leaves the segments alone, or it yields what a mount under `cfg₁`
yields; and it keeps every complete event. -/
def SafelyReopened (env : Env) (cfg₁ cfg₂ : AppendLogConfig) (w : World) : Prop :=
  ∃ r ram₂ w₂, Prog.run (handle env) (Store.mount cfg₂ {}) w = some ((r, ram₂), w₂) ∧
    ((∃ st, r = .error st) ∧ (∀ g ∈ Disk.gens w.disk,
        w₂.disk.lookup (segmentName g) = w.disk.lookup (segmentName g)) ∨
      r = .ok () ∧ ∀ ram₁ w₁,
        Prog.run (handle env) (Store.mount cfg₁ {}) w = some ((.ok (), ram₁), w₁) →
          ram₂.contents w₂.disk = ram₁.contents w₁.disk) ∧
    ∀ g ∈ Disk.gens w.disk, KeepsEvents w.disk w₂.disk g

section Reopening

variable {env : Env} {cfg cfg₁ cfg₂ : AppendLogConfig} {w : World} {d d' : Disk} {g t : ℕ}
  {evs : List LogEvent} {torn : Bytes}

/-- The complete events at the front of a file are the first of its log. -/
lemma prefix_of_segmentData {startSeq startSeq' : ℕ} {evs' : List LogEvent} {rest : Bytes}
    (hevs : ∀ e ∈ evs, e.Fits (2 ^ 32)) (hstop : (stopsAt (2 ^ 32) torn).isSome)
    (hevs' : ∀ e ∈ evs', e.Fits (2 ^ 32)) (hlt : (encodeEvents evs ++ torn).length < 2 ^ 32)
    (h : segmentData g startSeq evs torn = segmentData g startSeq' evs' rest) :
    ∃ post, evs = evs' ++ post := by
  have hbody : encodeEvents evs ++ torn = encodeEvents evs' ++ rest := by
    have := congrArg (List.drop kSegmentHeaderBytes) h
    simp only [segmentData] at this
    rwa [List.drop_left' (length_serializeSegmentHeader ..),
      List.drop_left' (length_serializeSegmentHeader ..)] at this
  have hrest : rest.length < 2 ^ 32 := by
    rw [hbody, List.length_append] at hlt
    omega
  obtain ⟨post, rest', corrupt', rfl, hpost, hstop'⟩ := exists_log (2 ^ 32) rest hrest
  obtain ⟨corrupt, hstop⟩ := Option.isSome_iff_exists.1 hstop
  refine ⟨post, ?_⟩
  have hread := readLog_log hevs hstop le_rfl
  rw [hbody, ← List.append_assoc, ← encodeEvents_append, readLog_log (fun e he => ?_) hstop' le_rfl]
    at hread
  · exact hread.symm
  · exact (List.mem_append.1 he).elim (hevs' e) (hpost e)

/-- A file that keeps its log keeps every complete event. -/
lemma keepsEvents_of_log (hlog : Disk.log cfg d g = some (evs, torn))
    (hstop : (stopsAt (2 ^ 32) torn).isSome)
    (hd' : evs ≠ [] → ∀ startSeq, d.lookup (segmentName g) =
      some (segmentData g startSeq evs torn) →
      ∃ rest, d'.lookup (segmentName g) = some (segmentData g startSeq evs rest)) :
    KeepsEvents d d' g := by
  obtain ⟨⟨-, hfits, startSeq, -, hfile⟩, -, hsize⟩ := log_eq_some_iff.1 hlog
  have hlt : (encodeEvents evs ++ torn).length < 2 ^ 32 := by
    rw [logBytes] at hsize
    rw [List.length_append]
    exact Nat.lt_of_le_of_lt (by omega : _ ≤ kMaxReplaySegmentReadBytes) (by decide)
  intro startSeq' pre e rest hevs hfile'
  have hdata := Option.some.inj (hfile.symm.trans hfile')
  obtain ⟨post, rfl⟩ := prefix_of_segmentData (fun e he => (hfits e he).format) hstop hevs hlt hdata
  obtain ⟨rest', hrest'⟩ := hd' (by simp) startSeq hfile
  have hheader : serializeSegmentHeader g startSeq = serializeSegmentHeader g startSeq' := by
    have := congrArg (List.take kSegmentHeaderBytes) hdata
    simp only [segmentData] at this
    rwa [List.take_left' (length_serializeSegmentHeader ..),
      List.take_left' (length_serializeSegmentHeader ..)] at this
  refine ⟨encodeEvents post ++ rest', ?_⟩
  rw [hrest', segmentData, segmentData, hheader, encodeEvents_append, List.append_assoc]

lemma Disk.Mounts.congr (h : Disk.Mounts cfg₁ d) (hs : Disk.Scans cfg₂ d (Disk.gens d)) :
    Disk.Mounts cfg₂ d := by
  unfold Disk.gens at hs
  unfold Disk.Mounts at h ⊢
  cases helect : Disk.elected d with
  | none =>
    rw [helect] at h
    exact h
  | some md =>
    rw [helect] at h hs
    exact ⟨h.1, h.2.1, hs, h.2.2.2⟩

/-- A segment that is not cut stays as it is. -/
lemma lookup_mounted_kept (hs : Disk.Scans cfg d (Disk.gens d)) (hg : g ∈ Disk.gens d)
    (hkept : (Disk.gens d).getLast? = some g → Disk.torn cfg d g = []) :
    (Disk.mounted env cfg t d).lookup (segmentName g) = d.lookup (segmentName g) := by
  obtain ⟨_, hlog, -⟩ := hs.log hg
  have hlt := (log_eq_some_iff.1 hlog).1.1
  rw [lookup_mounted hlt hg]
  unfold Disk.recovered Disk.afterScan
  cases hlast : (Disk.gens d).getLast? with
  | none => rfl
  | some g' =>
    simp only [Option.map_some, Option.getD_some]
    unfold Disk.recoverTail Disk.resize
    split
    · rfl
    · next htorn =>
      obtain ⟨_, hlog', -⟩ := hs.log (List.mem_of_getLast? hlast)
      have hne : g ≠ g' := by
        rintro rfl
        exact htorn (hkept hlast)
      rw [AList.lookup_insert_ne (segmentName_ne hlt (log_eq_some_iff.1 hlog').1.1 hne)]

/-- The whole log of a segment is kept. -/
lemma KeepsEvents.log (h : KeepsEvents d d' g) (hlog : Disk.log cfg d g = some (evs, torn))
    (hne : evs ≠ []) :
    ∃ startSeq rest, d'.lookup (segmentName g) = some (segmentData g startSeq evs rest) := by
  obtain ⟨⟨-, hfits, startSeq, -, hfile⟩, -, -⟩ := log_eq_some_iff.1 hlog
  rcases List.eq_nil_or_concat evs with rfl | ⟨pre, e, rfl⟩
  · exact absurd rfl hne
  · rw [List.concat_eq_append] at hfits hfile ⊢
    obtain ⟨rest, hrest⟩ := h startSeq pre e torn (fun e he => (hfits e he).format) hfile
    exact ⟨startSeq, rest, hrest⟩

/-- The limits matter only for the events above them. -/
lemma logs_of_fits (h : Disk.WrittenUnder cfg₁ d)
    (hsealed : ∀ g ∈ (Disk.gens d).dropLast, ∀ e ∈ Disk.events cfg₁ d g, e.Fits cfg₂.maxRecordBytes)
    (htail : ∀ g ∈ (Disk.gens d).getLast?, ∀ e ∈ Disk.events cfg₁ d g, e.Fits cfg₂.maxRecordBytes)
    (hg : g ∈ Disk.gens d) : Disk.log cfg₂ d g = Disk.log cfg₁ d g := by
  rcases mem_dropLast_or hg with hg | hg
  · have hlog := h.1.scans.dropLast hg
    rw [hlog, log_of_fits hlog (hsealed g hg) (by simp [stopsAt_nil])]
  · obtain ⟨torn, hlog, -⟩ := h.1.scans.log (List.mem_of_getLast? hg)
    have hstop := h.2 g hg
    rw [torn_eq hlog] at hstop
    rw [hlog, log_of_fits hlog (htail g hg) hstop]

/-- A sealed segment with an event above the limit is not scanned. -/
lemma not_scans_of_above (h : Disk.WrittenUnder cfg₁ d)
    (habove : ∃ g ∈ (Disk.gens d).dropLast, ∃ e ∈ Disk.events cfg₁ d g,
      ¬e.Fits cfg₂.maxRecordBytes) : ¬Disk.Scans cfg₂ d (Disk.gens d) := by
  obtain ⟨g, hg, habove⟩ := habove
  intro hs
  obtain ⟨pre, e, post, -, hlog⟩ := log_of_above (h.1.scans.dropLast hg) habove
  rw [hs.dropLast hg] at hlog
  have hnil := congrArg List.length (Prod.mk.inj (Option.some.inj hlog)).2
  rw [List.length_nil, List.length_append] at hnil
  have hpos := e.length_encode_pos
  have : 0 < kPopEventBytes := by decide
  omega

/-- Without one the store mounts. -/
lemma mounts_of_sealed (h : Disk.WrittenUnder cfg₁ d)
    (hsealed : ∀ g ∈ (Disk.gens d).dropLast, ∀ e ∈ Disk.events cfg₁ d g,
      e.Fits cfg₂.maxRecordBytes) : Disk.Mounts cfg₂ d := by
  apply h.1.congr
  apply scans_of_dropLast
  · intro g hg
    exact ⟨_, log_of_fits (h.1.scans.dropLast hg) (hsealed g hg) (by simp [stopsAt_nil])⟩
  · intro g hg
    obtain ⟨torn, hlog, -⟩ := h.1.scans.log (List.mem_of_getLast? hg)
    have hstop := h.2 g hg
    rw [torn_eq hlog] at hstop
    by_cases hfits : ∀ e ∈ Disk.events cfg₁ d g, e.Fits cfg₂.maxRecordBytes
    · exact ⟨_, _, log_of_fits hlog hfits hstop⟩
    · push Not at hfits
      obtain ⟨pre, e, post, -, hlog'⟩ := log_of_above hlog hfits
      exact ⟨_, _, hlog'⟩

/-- Equal logs leave equal directories. -/
lemma mounted_congr (h : ∀ g ∈ Disk.gens d, Disk.log cfg₂ d g = Disk.log cfg₁ d g) :
    Disk.mounted env cfg₂ t d = Disk.mounted env cfg₁ t d := by
  have hrecovered : Disk.recovered env cfg₂ d (Disk.gens d) =
      Disk.recovered env cfg₁ d (Disk.gens d) := by
    unfold Disk.recovered Disk.afterScan
    cases hlast : (Disk.gens d).getLast? with
    | none => rfl
    | some g =>
      have hlog := h g (List.mem_of_getLast? hlast)
      simp only [Option.map_some, Option.getD_some, Disk.events, Disk.torn, hlog]
  rw [Disk.mounted, hrecovered, Disk.mounted]

lemma take_segmentData (g startSeq : ℕ) (evs : List LogEvent) (torn : Bytes) :
    (segmentData g startSeq evs torn).take (logBytes evs) = segmentData g startSeq evs [] := by
  have hlen : (serializeSegmentHeader g startSeq ++ encodeEvents evs).length = logBytes evs := by
    rw [List.length_append, length_serializeSegmentHeader, logBytes]
  rw [segmentData, segmentData, List.append_nil, ← List.append_assoc, List.take_left' hlen]

/-- The cut of the tail at its own end keeps the events, unless it loses the file. -/
lemma keepsEvents_mounted (h : Disk.WrittenUnder cfg d) (hg : g ∈ Disk.gens d) :
    KeepsEvents d (Disk.mounted env cfg t d) g ↔ ((Disk.gens d).getLast? = some g →
      env.backend = .posix ∨ Disk.torn cfg d g = [] ∨ Disk.events cfg d g = []) := by
  obtain ⟨torn, hlog, hor⟩ := h.1.scans.log hg
  have hstop : (stopsAt (2 ^ 32) torn).isSome := by
    by_cases hlast : (Disk.gens d).getLast? = some g
    · rw [← torn_eq hlog]
      exact h.2 g hlast
    · simp [hor hlast, stopsAt_nil]
  rw [torn_eq hlog]
  constructor
  · intro hkeeps hlast
    by_contra hnot
    push Not at hnot
    obtain ⟨hb, htorn, hevs⟩ := hnot
    have hb : env.backend = .littleFS := by
      cases hb' : env.backend with
      | posix => exact absurd hb' hb
      | littleFS => rfl
    obtain ⟨startSeq, rest, hfile⟩ := hkeeps.log hlog hevs
    rw [lookup_mounted_littleFS hb hlast hlog htorn] at hfile
    exact segmentData_ne_zeros (Option.some.inj hfile).symm
  · intro hkept
    apply keepsEvents_of_log hlog hstop
    intro hevs startSeq hfile
    by_cases htorn : torn = []
    · refine ⟨torn, ?_⟩
      rw [lookup_mounted_kept h.1.scans hg fun _ => by rw [torn_eq hlog, htorn], hfile]
    · have hlast : (Disk.gens d).getLast? = some g := by
        by_contra hlast
        exact htorn (hor hlast)
      have hb : env.backend = .posix :=
        (hkept hlast).resolve_right (not_or.2 ⟨htorn, hevs⟩)
      refine ⟨[], ?_⟩
      have hlen := length_segmentData g startSeq (Disk.events cfg d g) torn
      have hpos := List.length_pos_iff.2 htorn
      rw [lookup_mounted_torn hlast hlog htorn hfile, (cuts_iff _).2 hb _ _ (by omega),
        take_segmentData]

/-- A cut before the end of the log loses an event. -/
lemma not_keepsEvents_of_above (h : Disk.WrittenUnder cfg₁ d)
    (hlast : (Disk.gens d).getLast? = some g)
    (habove : ∃ e ∈ Disk.events cfg₁ d g, ¬e.Fits cfg₂.maxRecordBytes) :
    ¬KeepsEvents d (Disk.mounted env cfg₂ t d) g := by
  obtain ⟨torn, hlog, -⟩ := h.1.scans.log (List.mem_of_getLast? hlast)
  obtain ⟨pre, e, post, hevs, hlog'⟩ := log_of_above hlog habove
  obtain ⟨⟨-, -, _, -, hold⟩, -, -⟩ := log_eq_some_iff.1 hlog'
  have he : 0 < e.encode.length := Nat.lt_of_lt_of_le (by decide) e.length_encode_pos
  have hne : e.encode ++ (encodeEvents post ++ torn) ≠ [] := by
    apply List.ne_nil_of_length_pos
    rw [List.length_append]
    omega
  intro hkeeps
  obtain ⟨startSeq, rest, hfile⟩ := hkeeps.log hlog (by rw [hevs]; simp)
  rw [lookup_mounted_torn hlast hlog' hne hold] at hfile
  have hlen := congrArg List.length (Option.some.inj hfile)
  rw [length_resized _ _ (by rw [length_segmentData, List.length_append]; omega),
    length_segmentData, hevs, logBytes_append, encodeEvents_cons, List.length_append] at hlen
  omega

/-- An event above the limit in a sealed segment keeps the mount from changing anything. -/
lemma safelyReopened_of_above (h : Disk.WrittenUnder cfg₁ w.disk)
    (habove : ∃ g ∈ (Disk.gens w.disk).dropLast, ∃ e ∈ Disk.events cfg₁ w.disk g,
      ¬e.Fits cfg₂.maxRecordBytes) : SafelyReopened env cfg₁ cfg₂ w := by
  have hnot := not_scans_of_above h habove
  obtain ⟨r, ram₂, w₂, hrun, -, hresult⟩ :=
    @within_mount env (fun _ => false) {} w cfg₂ h.1.not_wraps
  rw [refusing_none] at hrun
  have hdisk := hresult.unscanned hnot
  obtain ⟨st, hst, -⟩ := hresult.fails fun hm => hnot hm.scans
  refine ⟨r, ram₂, w₂, hrun, .inl ⟨⟨st, hst⟩, fun g _ => by rw [hdisk]⟩, ?_⟩
  intro g _ startSeq pre e rest _ hfile
  exact ⟨rest, by rw [hdisk, hfile]⟩

/-- Without one, the tail decides. -/
lemma safelyReopened_iff_tail (h : Disk.WrittenUnder cfg₁ w.disk)
    (hsealed : ∀ g ∈ (Disk.gens w.disk).dropLast, ∀ e ∈ Disk.events cfg₁ w.disk g,
      e.Fits cfg₂.maxRecordBytes) :
    SafelyReopened env cfg₁ cfg₂ w ↔ ∀ g ∈ (Disk.gens w.disk).getLast?,
      (∀ e ∈ Disk.events cfg₁ w.disk g, e.Fits cfg₂.maxRecordBytes) ∧
      (env.backend = .posix ∨ Disk.torn cfg₁ w.disk g = [] ∨ Disk.events cfg₁ w.disk g = []) := by
  have hm := mounts_of_sealed h hsealed
  obtain ⟨ram₂, w₂, hrun, -⟩ := @Disk.Mounts.run env cfg₂ {} w hm
  have hdisk := disk_of_mount hrun
  constructor
  · rintro ⟨r, ram₂', w₂', hrun', -, hkeeps⟩ g hlast
    obtain ⟨-, rfl⟩ : ram₂ = ram₂' ∧ w₂ = w₂' := by simp_all
    have hg := List.mem_of_getLast? hlast
    have hkeep := hkeeps g hg
    rw [hdisk] at hkeep
    have hfits : ∀ e ∈ Disk.events cfg₁ w.disk g, e.Fits cfg₂.maxRecordBytes := by
      by_contra hnot
      push Not at hnot
      exact not_keepsEvents_of_above h hlast hnot hkeep
    refine ⟨hfits, ?_⟩
    rw [mounted_congr fun g' hg' => logs_of_fits h hsealed (fun g'' hg'' => ?_) hg'] at hkeep
    · exact (keepsEvents_mounted h hg).1 hkeep hlast
    · obtain rfl := Option.some.inj (hlast.symm.trans hg'')
      exact hfits
  · intro htail
    have hlogs : ∀ g ∈ Disk.gens w.disk, Disk.log cfg₂ w.disk g = Disk.log cfg₁ w.disk g :=
      fun g hg => logs_of_fits h hsealed (fun g' hg' => (htail g' hg').1) hg
    rw [mounted_congr hlogs] at hdisk
    refine ⟨_, ram₂, w₂, hrun, .inr ⟨rfl, ?_⟩, ?_⟩
    · intro ram₁ w₁ hrun₁
      rw [Ram.contents, Ram.contents, hdisk, disk_of_mount hrun₁, records_of_mount hrun,
        records_of_mount hrun₁]
      rw [locatedLog_congr fun g hg => by rw [Disk.events, hlogs g hg, ← Disk.events]]
    · intro g hg
      rw [hdisk]
      exact (keepsEvents_mounted h hg).2 fun hlast => (htail g hlast).2

end Reopening

end Pqueue
