import Pqueue.Doctor.Wire
import Pqueue.Store.Accounting
import Pqueue.Store.Contiguity

/-!
# Segment names and generations

`segmentName` writes eight lower-case digits, `isSegmentName` reads upper-case ones too, and the
dump tool does not.  A name is read as the generation it is the name of, and is a segment for both
sides alike, unless it has an upper-case digit (`oneToOne_iff`).  In a directory with such a name a
mount looks for a file that need not be there; in any other a mount is not affected by entries that
are not the store's own (`segment_names_correspond`).
-/

namespace Pqueue

open Effect LittleEndian Doctor Text

/-! ## Hexadecimal digits -/

/-- A hexadecimal digit that the store does not write. -/
def isUpperHex (c : Char) : Bool := 'A' ≤ c ∧ c ≤ 'F'

lemma not_isUpperHex {c : Char} (h : isLowerHex c = true) : isUpperHex c = false := by
  rw [isUpperHex, decide_eq_false_iff_not]
  rintro ⟨h1, h2⟩
  have h1 : 65 ≤ c.toNat := h1
  have h2 : c.toNat ≤ 70 := h2
  rcases of_decide_eq_true h with ⟨-, h3⟩ | ⟨h3, -⟩
  · have h3 : c.toNat ≤ 57 := h3
    omega
  · have h3 : 97 ≤ c.toNat := h3
    omega

lemma isSome_hexValue {c : Char} :
    (hexValue c).isSome = true ↔ isLowerHex c = true ∨ isUpperHex c = true := by
  simp only [isLowerHex, isUpperHex, decide_eq_true_eq]
  unfold hexValue
  split
  · next h => simp [h]
  · next h1 =>
    split
    · next h => simp [h]
    · next h2 => by_cases h3 : 'A' ≤ c ∧ c ≤ 'F' <;> simp [h1, h2, h3]

/-- A value is below 16, and the store writes it as the digit that is read, unless that is an
upper-case one. -/
lemma hexValue_eq_some {c : Char} {v : ℕ} (h : hexValue c = some v) :
    v < 16 ∧ (isLowerHex c = true → Nat.digitChar v = c) := by
  have hdigit : ∀ n < 10, Nat.digitChar n = Char.ofNat (n + 48) := by decide
  have hletter : ∀ n < 6, Nat.digitChar (n + 10) = Char.ofNat (n + 97) := by decide
  unfold hexValue at h
  split at h
  · next hc =>
    have h1 : 48 ≤ c.toNat := hc.1
    have h2 : c.toNat ≤ 57 := hc.2
    obtain rfl : c.toNat - 48 = v := Option.some.inj h
    refine ⟨by omega, fun _ => ?_⟩
    rw [hdigit _ (by omega), Nat.sub_add_cancel h1, Char.ofNat_toNat]
  · split at h
    · next hc =>
      have h1 : 97 ≤ c.toNat := hc.1
      have h2 : c.toNat ≤ 102 := hc.2
      obtain rfl : c.toNat - 97 + 10 = v := Option.some.inj h
      refine ⟨by omega, fun _ => ?_⟩
      rw [hletter _ (by omega), Nat.sub_add_cancel h1, Char.ofNat_toNat]
    · split at h
      · next hc =>
        have h2 : c.toNat ≤ 70 := hc.2
        obtain rfl : c.toNat - 65 + 10 = v := Option.some.inj h
        refine ⟨by omega, fun hlower => ?_⟩
        have hupper := not_isUpperHex hlower
        rw [isUpperHex, decide_eq_false_iff_not] at hupper
        exact absurd hc hupper
      · exact nomatch h

/-- The digits of the list have the values of the other. -/
abbrev HexDigits (cs : List Char) (vs : List ℕ) : Prop :=
  List.Forall₂ (fun c v => hexValue c = some v) cs vs

section Digits

variable {cs : List Char} {vs : List ℕ} {g : ℕ}

lemma HexDigits.lt (h : HexDigits cs vs) : ∀ v ∈ vs, v < 16 := by
  induction h with
  | nil => simp
  | cons hv _ ih =>
    simp only [List.mem_cons, forall_eq_or_imp]
    exact ⟨(hexValue_eq_some hv).1, ih⟩

lemma HexDigits.map_digitChar (h : HexDigits cs vs) (hlower : ∀ c ∈ cs, isLowerHex c = true) :
    vs.map Nat.digitChar = cs := by
  induction h with
  | nil => rfl
  | cons hv _ ih =>
    simp only [List.mem_cons, forall_eq_or_imp] at hlower
    rw [List.map_cons, (hexValue_eq_some hv).2 hlower.1, ih hlower.2]

lemma exists_hexDigits :
    (∃ vs, HexDigits cs vs) ↔ ∀ c ∈ cs, isLowerHex c = true ∨ isUpperHex c = true := by
  induction cs with
  | nil => simp [HexDigits]
  | cons c cs ih =>
    rw [List.forall_mem_cons, ← ih, ← isSome_hexValue, Option.isSome_iff_exists]
    constructor
    · rintro ⟨_, h⟩
      obtain ⟨v, vs, hv, hvs, rfl⟩ := List.forall₂_cons_left_iff.1 h
      exact ⟨⟨v, hv⟩, vs, hvs⟩
    · rintro ⟨⟨v, hv⟩, vs, hvs⟩
      exact ⟨v :: vs, .cons hv hvs⟩

/-- The number with these digits. -/
def ofHexDigits (vs : List ℕ) : ℕ := vs.foldl (fun acc v => acc * 16 + v) 0

lemma parseHex_eq_some_iff : parseHex cs = some g ↔ ∃ vs, HexDigits cs vs ∧ g = ofHexDigits vs := by
  have hnone : ∀ cs : List Char, cs.foldl
      (fun acc c => do return (← acc) * 16 + (← hexValue c)) (none : Option ℕ) = none := by
    intro cs
    induction cs with
    | nil => rfl
    | cons c cs ih => exact ih
  -- from any number read so far
  have hsome : ∀ (cs : List Char) (acc : ℕ), cs.foldl
      (fun acc c => do return (← acc) * 16 + (← hexValue c)) (some acc) = some g ↔
        ∃ vs, HexDigits cs vs ∧ g = vs.foldl (fun acc v => acc * 16 + v) acc := by
    intro cs
    induction cs with
    | nil => simp [HexDigits, eq_comm]
    | cons c cs ih =>
      intro acc
      rw [List.foldl_cons]
      cases hv : hexValue c with
      | none =>
        have hstep : (do return (← some acc) * 16 + (← (none : Option ℕ)) : Option ℕ) = none := rfl
        rw [hstep, hnone]
        simp [HexDigits, List.forall₂_cons_left_iff, hv]
      | some v =>
        have hstep : (do return (← some acc) * 16 + (← some v) : Option ℕ) =
          some (acc * 16 + v) := rfl
        rw [hstep, ih]
        simp [HexDigits, List.forall₂_cons_left_iff, hv]
  exact hsome cs 0

/-- Eight digits make a generation, and are what it is written as. -/
lemma ofHexDigits_eight (hlen : vs.length = 8) (hlt : ∀ v ∈ vs, v < 16) :
    ofHexDigits vs < 2 ^ 32 ∧ formatGeneration (ofHexDigits vs) = vs.map Nat.digitChar := by
  match vs, hlen with
  | [a, b, c, d, e, f, i, j], _ =>
    simp only [List.mem_cons, List.not_mem_nil, or_false, forall_eq_or_imp, forall_eq] at hlt
    obtain ⟨ha, hb, hc, hd, he, hf, hi, hj⟩ := hlt
    simp only [ofHexDigits, formatGeneration, List.map_cons, List.map_nil, List.foldl_cons,
      List.foldl_nil, List.cons.injEq, and_true]
    refine ⟨by omega, congrArg _ ?_, congrArg _ ?_, congrArg _ ?_, congrArg _ ?_, congrArg _ ?_,
      congrArg _ ?_, congrArg _ ?_, congrArg _ ?_⟩ <;> omega

lemma isLowerHex_formatGeneration (g : ℕ) : ∀ c ∈ formatGeneration g, isLowerHex c = true := by
  have hdigit : ∀ n < 16, isLowerHex (Nat.digitChar n) = true := by decide
  intro c hc
  obtain ⟨i, -, rfl⟩ := List.mem_map.1 hc
  exact hdigit _ (Nat.mod_lt _ (by decide))

lemma length_formatGeneration (g : ℕ) : (formatGeneration g).length = 8 := by
  simp [formatGeneration]

end Digits

/-! ## Names -/

section Names

variable {name : FileName} {g : ℕ} {hex : List Char}

/-- The name of a segment with these digits. -/
def segmentFile (hex : List Char) : FileName := kSegmentPrefix ++ (hex ++ kSegmentSuffix)

lemma segmentFile_injective : Function.Injective segmentFile := fun a b h => by
  simpa [segmentFile] using h

lemma isSegmentName_eq_some_iff : isSegmentName name = some g ↔
    ∃ hex, hex.length = 8 ∧ name = segmentFile hex ∧ parseHex hex = some g := by
  constructor
  · intro h
    unfold isSegmentName at h
    split at h
    · exact nomatch h
    next hlen =>
    split at h
    · exact nomatch h
    next hpre =>
    split at h
    · exact nomatch h
    next hsuf =>
    rw [ne_eq, not_not] at hlen hpre hsuf
    have hlen : name.length = 16 := hlen
    refine ⟨(name.drop 4).take 8, ?_, ?_, h⟩
    · rw [List.length_take, List.length_drop, hlen]
      rfl
    · have hdrop : name.drop 12 = kSegmentSuffix := by
        rw [hlen] at hsuf
        exact hsuf
      have hrest : (name.drop 4).drop 8 = kSegmentSuffix := by
        rw [List.drop_drop]
        exact hdrop
      have hpre : name.take 4 = kSegmentPrefix := hpre
      rw [segmentFile, ← hrest, List.take_append_drop, ← hpre, List.take_append_drop]
  · rintro ⟨hex, hlen, rfl, hparse⟩
    match hex, hlen with
    | [a, b, c, d, e, f, i, j], _ => exact hparse

/-- Such a name is a segment for the dump tool when its digits are lower-case. -/
lemma isValidDumpName_iff : isValidDumpName name = true ↔ (∃ s : Slot, name = s.fileName) ∨
    ∃ hex : List Char, hex.length = 8 ∧ name = segmentFile hex ∧
      ∀ c ∈ hex, isLowerHex c = true := by
  constructor
  · intro h
    rcases isValidDumpName_cases h with h | ⟨hex, hlen, hhex, rfl⟩
    · exact .inl h
    · exact .inr ⟨hex, hlen, rfl, List.all_eq_true.1 hhex⟩
  · rintro (⟨s, rfl⟩ | ⟨hex, hlen, rfl, hhex⟩)
    · cases s <;> rfl
    · have hall : hex.all isLowerHex = true := List.all_eq_true.2 hhex
      match hex, hlen, hall with
      | [a, b, c, d, e, f, i, j], _, hall =>
        rw [isValidDumpName, decide_eq_true_eq]
        exact .inr (.inr ⟨rfl, rfl, rfl, hall⟩)

/-- A segment name with an upper-case digit. -/
def UpperSegment (name : FileName) : Prop :=
  ∃ hex : List Char, hex.length = 8 ∧ name = segmentFile hex ∧
    (∀ c ∈ hex, isLowerHex c = true ∨ isUpperHex c = true) ∧ ∃ c ∈ hex, isUpperHex c = true

/-- The name is read as the generation it is the name of, and the store and the dump tool agree on
whether it is a segment. -/
def OneToOne (name : FileName) : Prop :=
  (∀ g < 2 ^ 32, isSegmentName name = some g ↔ name = segmentName g) ∧
    ((isSegmentName name).isSome = true ↔
      isValidDumpName name = true ∧ ∀ s : Slot, name ≠ s.fileName)

/-- Lower-case digits are read as the generation they write. -/
lemma parseHex_lower (hlen : hex.length = 8) (hlower : ∀ c ∈ hex, isLowerHex c = true) :
    ∃ g < 2 ^ 32, parseHex hex = some g ∧ formatGeneration g = hex := by
  obtain ⟨vs, hvs⟩ := exists_hexDigits.2 fun c hc => .inl (hlower c hc)
  obtain ⟨hlt, hformat⟩ := ofHexDigits_eight (hvs.length_eq.symm.trans hlen) hvs.lt
  refine ⟨_, hlt, parseHex_eq_some_iff.2 ⟨vs, hvs, rfl⟩, ?_⟩
  rw [hformat, hvs.map_digitChar hlower]

lemma isSegmentName_lt (h : isSegmentName name = some g) : g < 2 ^ 32 := by
  obtain ⟨hex, hlen, -, hparse⟩ := isSegmentName_eq_some_iff.1 h
  obtain ⟨vs, hvs, rfl⟩ := parseHex_eq_some_iff.1 hparse
  exact (ofHexDigits_eight (hvs.length_eq.symm.trans hlen) hvs.lt).1

/-- What is read as a generation is its name, or has an upper-case digit. -/
lemma eq_segmentName (h : isSegmentName name = some g) (hu : ¬UpperSegment name) :
    name = segmentName g := by
  obtain ⟨hex, hlen, rfl, hparse⟩ := isSegmentName_eq_some_iff.1 h
  obtain ⟨vs, hvs, -⟩ := parseHex_eq_some_iff.1 hparse
  have hdigits := exists_hexDigits.1 ⟨vs, hvs⟩
  have hlower : ∀ c ∈ hex, isLowerHex c = true := by
    intro c hc
    rcases hdigits c hc with hl | hup
    · exact hl
    · exact absurd ⟨hex, hlen, rfl, hdigits, c, hc, hup⟩ hu
  obtain ⟨g', -, hparse', hformat⟩ := parseHex_lower hlen hlower
  obtain rfl : g' = g := Option.some.inj (hparse'.symm.trans hparse)
  rw [segmentName, hformat]
  rfl

/-- **One name, one generation**, unless the name has an upper-case digit. -/
lemma oneToOne_iff : OneToOne name ↔ ¬UpperSegment name := by
  constructor
  · rintro ⟨hname, -⟩ ⟨hex, hlen, rfl, hdigits, c, hc, hupper⟩
    obtain ⟨vs, hvs⟩ := exists_hexDigits.2 hdigits
    have hseg : isSegmentName (segmentFile hex) = some (ofHexDigits vs) :=
      isSegmentName_eq_some_iff.2 ⟨hex, hlen, rfl, parseHex_eq_some_iff.2 ⟨vs, hvs, rfl⟩⟩
    have heq : hex = formatGeneration (ofHexDigits vs) :=
      segmentFile_injective ((hname _ (isSegmentName_lt hseg)).1 hseg)
    have hlower : isLowerHex c = true := by
      rw [heq] at hc
      exact isLowerHex_formatGeneration _ c hc
    rw [not_isUpperHex hlower] at hupper
    exact nomatch hupper
  · intro hu
    refine ⟨fun g hg => ⟨fun h => eq_segmentName h hu, ?_⟩, ?_⟩
    · rintro rfl
      exact isSegmentName_segmentName hg
    · constructor
      · intro h
        obtain ⟨g, hg⟩ := Option.isSome_iff_exists.1 h
        refine ⟨?_, fun s hs => ?_⟩
        · rw [eq_segmentName hg hu]
          exact isValidDumpName_iff.2 (.inr ⟨_, length_formatGeneration g, rfl,
            isLowerHex_formatGeneration g⟩)
        · rw [hs, isSegmentName_slot] at hg
          exact nomatch hg
      · rintro ⟨hvalid, hslot⟩
        rcases isValidDumpName_iff.1 hvalid with ⟨s, hs⟩ | ⟨hex, hlen, hname, hlower⟩
        · exact absurd hs (hslot s)
        · obtain ⟨g, -, hparse, -⟩ := parseHex_lower hlen hlower
          rw [isSegmentName_eq_some_iff.2 ⟨hex, hlen, hname, hparse⟩]
          rfl

end Names

/-! ## Strays -/

/-- A name that the store gives a file: a segment, a slot, or the lock file. -/
def isOwnName (name : FileName) : Bool :=
  match isSegmentName name with
  | some g => name = segmentName g
  | none => name = Slot.fileName .a ∨ name = Slot.fileName .b ∨ name = kLockFileName

/-- The directory without its strays. -/
def Disk.own (d : Disk) : Disk where
  entries := d.entries.filter fun e => isOwnName e.1
  nodupKeys := d.nodupKeys.sublist List.filter_sublist

/-- The mount succeeds. -/
def MountSucceeds (env : Env) (cfg : AppendLogConfig) (ram : Ram) (w : World) : Prop :=
  ∃ ram' w', Prog.run (handle env) (Store.mount cfg ram) w = some ((.ok (), ram'), w')

/-- The counters are the sizes of the files that are not strays. -/
structure CountsOwn (ram : Ram) (d : Disk) : Prop where
  segments : ∀ g < 2 ^ 32,
    ram.sealedSegmentBytes g = (d.lookup (segmentName g)).map fun data => u32 data.length
  slots : ∀ s, ram.manifestSlotBytes s = u32 (Disk.size d s.fileName)
  total : ram.totalOnDiskBytes = u32 (Disk.footprint (Disk.own d))

/-- The names of the directory are those of generations, so that no stray makes a mount fail or is
counted. -/
structure NamesCorrespond (env : Env) (cfg : AppendLogConfig) (w : World) : Prop where
  names : ∀ name ∈ w.disk.keys, OneToOne name
  mounts : ∀ ram, MountSucceeds env cfg ram w ↔
    MountSucceeds env cfg ram (w.setDisk (Disk.own w.disk))
  counted : ∀ ram ram' w', Prog.run (handle env) (Store.mount cfg ram) w =
    some ((.ok (), ram'), w') → CountsOwn ram' w'.disk

section Strays

variable {env : Env} {cfg : AppendLogConfig} {ram ram' : Ram} {w w' : World} {d : Disk}
  {name : FileName} {g : ℕ}

/-- Generations are words. -/
lemma segmentName_mod (g : ℕ) : segmentName (g % 2 ^ 32) = segmentName g := by
  have hdigits : formatGeneration (g % 2 ^ 32) = formatGeneration g := by
    refine List.map_congr_left fun i hi => congrArg Nat.digitChar ?_
    simp only [List.mem_cons, List.not_mem_nil, or_false] at hi
    rcases hi with rfl | rfl | rfl | rfl | rfl | rfl | rfl | rfl <;> omega
  rw [segmentName, segmentName, hdigits]

lemma isOwnName_segmentName (g : ℕ) : isOwnName (segmentName g) = true := by
  rw [← segmentName_mod, isOwnName, isSegmentName_segmentName (Nat.mod_lt _ (Nat.two_pow_pos 32))]
  exact decide_eq_true rfl

lemma isOwnName_slot (s : Slot) : isOwnName s.fileName = true := by
  cases s <;> decide

lemma lookup_own (d : Disk) (name : FileName) :
    (Disk.own d).lookup name = if isOwnName name then d.lookup name else none := by
  apply Option.ext
  intro data
  have hown : (Disk.own d).lookup name = some data ↔
      (⟨name, data⟩ : Sigma fun _ : FileName => Bytes) ∈ d.entries.filter fun e => isOwnName e.1 :=
    AList.mem_lookup_iff
  have hd : d.lookup name = some data ↔
      (⟨name, data⟩ : Sigma fun _ : FileName => Bytes) ∈ d.entries :=
    AList.mem_lookup_iff
  rw [hown, List.mem_filter]
  split
  · next h => rw [hd]; simp [h]
  · next h => simp [h]

lemma lookup_own_of (h : isOwnName name = true) : (Disk.own d).lookup name = d.lookup name := by
  rw [lookup_own, if_pos h]

lemma elected_own (d : Disk) : Disk.elected (Disk.own d) = Disk.elected d := by
  simp only [Disk.elected, Disk.manifest, lookup_own_of (isOwnName_slot _)]

lemma log_own (cfg : AppendLogConfig) (d : Disk) (g : ℕ) :
    Disk.log cfg (Disk.own d) g = Disk.log cfg d g := by
  simp only [Disk.log, Disk.segmentBytes, lookup_own_of (isOwnName_segmentName g)]

lemma scans_own {gens : List ℕ} :
    Disk.Scans cfg (Disk.own d) gens ↔ Disk.Scans cfg d gens := by
  induction gens with
  | nil => exact Iff.rfl
  | cons g gs ih => simp only [Disk.Scans, log_own, ih]

lemma wraps_own : Disk.Wraps (Disk.own d) ↔ Disk.Wraps d := by
  simp only [Disk.Wraps, elected_own]

lemma canonical_of_names (h : ∀ name ∈ d.keys, ¬UpperSegment name) : Canonical d :=
  fun name hname _ hg => eq_segmentName hg (h name hname)

lemma canonical_own (d : Disk) : Canonical (Disk.own d) := by
  intro name hname g hg
  have hsome := AList.lookup_isSome.2 (AList.mem_keys.2 hname)
  rw [lookup_own] at hsome
  split at hsome
  · next h =>
    rw [isOwnName, hg] at h
    exact of_decide_eq_true h
  · exact nomatch hsome

/-- Where no name has an upper-case digit the strays do not matter. -/
lemma mounts_own (hc : Canonical d) : Disk.Mounts cfg (Disk.own d) ↔ Disk.Mounts cfg d := by
  unfold Disk.Mounts
  rw [elected_own]
  cases Disk.elected d with
  | none =>
    constructor
    · intro h name hname
      by_contra hne
      obtain ⟨g, hg⟩ := Option.ne_none_iff_exists'.1 hne
      obtain rfl := hc name hname g hg
      refine hne (h _ (AList.lookup_isSome.1 ?_))
      rw [lookup_own_of (isOwnName_segmentName g)]
      exact AList.lookup_isSome.2 hname
    · intro h name hname
      have hsome := AList.lookup_isSome.2 (AList.mem_keys.2 hname)
      rw [lookup_own] at hsome
      split at hsome
      · exact h name (AList.lookup_isSome.1 hsome)
      · exact nomatch hsome
  | some md =>
    have h1 : NamesOk (Disk.own d) := (canonical_own d).namesOk
    have h2 : NamesOk d := hc.namesOk
    simp only [scans_own, h1, h2]

/-- **When a mount succeeds.** -/
lemma mountSucceeds_iff :
    MountSucceeds env cfg ram w ↔ ¬Disk.Wraps w.disk ∧ Disk.Mounts cfg w.disk := by
  unfold MountSucceeds
  rw [← refusing_none env]
  constructor
  · rintro ⟨ram', w', hrun⟩
    have hwraps : ¬Disk.Wraps w.disk := by
      intro h
      have hnone : Act.Diverges (refusing env fun _ => false) (Store.mount cfg) ram w :=
        diverges_mount h
      exact nomatch hnone.symm.trans hrun
    refine ⟨hwraps, ?_⟩
    by_contra hnot
    obtain ⟨st, hst, -⟩ := (Act.Within.run (within_mount hwraps) hrun).fails hnot
    exact nomatch hst
  · rintro ⟨hwraps, hmounts⟩
    obtain ⟨r, ram', w', hrun, -, hresult⟩ :=
      @within_mount env (fun _ => false) ram w cfg hwraps
    rw [hresult.succeeds hmounts] at hrun
    exact ⟨ram', w', hrun⟩

/-- The footprint of a directory whose segments have the names the store gives. -/
lemma footprint_own (hc : Canonical d) : Disk.footprint (Disk.own d) = Disk.footprint d := by
  apply Disk.total_congr
  intro name hname
  have hslots : ∀ s : Slot, name = s.fileName → (Disk.own d).lookup name = d.lookup name := by
    rintro s rfl
    exact lookup_own_of (isOwnName_slot s)
  unfold isStoreFile at hname
  rcases Bool.or_eq_true_iff.1 hname with hname | hname
  · obtain ⟨g, hg⟩ := Option.isSome_iff_exists.1 hname
    by_cases hmem : name ∈ d.keys
    · rw [hc name hmem g hg]
      exact lookup_own_of (isOwnName_segmentName g)
    · have hnone : d.lookup name = none := AList.lookup_eq_none.2 hmem
      rw [lookup_own, hnone, ite_self]
  · rcases of_decide_eq_true hname with h | h
    · exact hslots .a h
    · exact hslots .b h

/-- **Names and generations.**  Every name but those with an upper-case digit is read as the
generation it is the name of, and as a segment just where the dump tool accepts it; the directories
in which no stray makes a mount fail or is counted for it are those without such names. -/
theorem segment_names_correspond (name : FileName) (env : Env) (cfg : AppendLogConfig) (w : World) :
    (OneToOne name ↔ ¬UpperSegment name) ∧
      (NamesCorrespond env cfg w ↔ ∀ name ∈ w.disk.keys, ¬UpperSegment name) := by
  refine ⟨oneToOne_iff, fun h name hname => ?_, fun h => ?_⟩
  · exact oneToOne_iff.1 (h.names name hname)
  have hc := canonical_of_names h
  refine ⟨fun name hname => oneToOne_iff.2 (h name hname), fun ram => ?_,
    fun ram ram' w' hrun => ?_⟩
  · rw [mountSucceeds_iff, mountSucceeds_iff, World.setDisk_disk, wraps_own, mounts_own hc]
  · have hmounted : Mounted w.disk ram' w'.disk :=
      wp_mount_counts.sound (executes_of_run hrun) rfl
    obtain ⟨hcounts, hc'⟩ := hmounted.counts hc
    refine ⟨hcounts.segments, hcounts.slots, ?_⟩
    rw [hcounts.total, footprint_own hc']

end Strays

/-! ## A name with an upper-case digit -/

def upperName : FileName := "seg-0000000A.bin".toList

/-- The directory of a store with these files besides. -/
def withFiles (files : List (FileName × Bytes)) : World :=
  (onlySegment [] []).setDisk
    (files.foldl (fun d file => d.insert file.1 file.2) (onlySegment [] []).disk)

/-- The name is read as generation 10, which has another name, and the dump tool refuses it.  With
a file of this name the mount fails; with a file of the other name too that one is counted twice,
and this one is removed for it. -/
theorem upper_segment_strays : ¬OneToOne upperName ∧
    (isSegmentName upperName = some 10 ∧ upperName ≠ segmentName 10 ∧
      isValidDumpName upperName = false) ∧
    (MountSucceeds (plainEnv .posix) {} {} (withFiles []) ∧
      ¬MountSucceeds (plainEnv .posix) {} {} (withFiles [(upperName, [0])])) ∧
    ∃ ram w', Prog.run (handle (plainEnv .posix)) (Store.mount {} {})
        (withFiles [(segmentName 10, [0]), (upperName, [0, 0])]) = some ((.ok (), ram), w') ∧
      ¬CountsOwn ram w'.disk := by
  have hread : isSegmentName upperName = some 10 := by decide
  have hother : upperName ≠ segmentName 10 := by decide
  refine ⟨fun h => hother ((h.1 10 (by decide)).1 hread), ⟨hread, hother, by decide⟩, ⟨?_, ?_⟩, ?_⟩
  · have hok : ((Prog.run (handle (plainEnv .posix)) (Store.mount {} {}) (withFiles [])).map
        fun x => x.1.1.toBool) = some true := by decide +kernel
    obtain ⟨⟨⟨r, ram⟩, w'⟩, hrun, hr⟩ := Option.map_eq_some_iff.1 hok
    cases r with
    | error e => exact nomatch hr
    | ok u => exact ⟨ram, w', hrun⟩
  · rintro ⟨ram, w', hrun⟩
    have hfails : ((Prog.run (handle (plainEnv .posix)) (Store.mount {} {})
        (withFiles [(upperName, [0])])).map fun x => x.1.1.toBool) = some false := by decide +kernel
    rw [hrun] at hfails
    exact nomatch hfails
  · have hok : ((Prog.run (handle (plainEnv .posix)) (Store.mount {} {})
        (withFiles [(segmentName 10, [0]), (upperName, [0, 0])])).map fun x =>
          (x.1.1.toBool, x.1.2.totalOnDiskBytes, Disk.footprint (Disk.own x.2.disk))) =
            some (true, 50, 51) := by decide +kernel
    obtain ⟨⟨⟨r, ram⟩, w'⟩, hrun, hr⟩ := Option.map_eq_some_iff.1 hok
    simp only [Prod.mk.injEq] at hr
    obtain ⟨hr, htotal, hfootprint⟩ := hr
    cases r with
    | error e => exact nomatch hr
    | ok u =>
      refine ⟨ram, w', hrun, fun h => ?_⟩
      have hcount := h.total
      rw [htotal, hfootprint] at hcount
      exact absurd hcount (by decide)

end Pqueue
