import Pqueue.Store.Remount

/-!
# Formatting

A format removes the files of the store, whatever they hold, and no other file.  `format_refresh`
says that the object is then where a new one is after mounting the directory.
-/

namespace Pqueue

open Effect LittleEndian

/-- The directory without the files of the store. -/
def Bare (d d' : Disk) : Prop :=
  ∀ name, d'.lookup name = if isStoreFile name then none else d.lookup name

namespace Bare

variable {d d' : Disk}

/-- There are no files of the store. -/
lemma bare (h : Bare d d') : Bare d' d' := by
  intro name
  by_cases hstore : isStoreFile name = true
  · rw [if_pos hstore, h name, if_pos hstore]
  · rw [if_neg hstore]

lemma slot (h : Bare d d') (s : Slot) : d'.lookup s.fileName = none := by
  rw [h, if_pos (isStoreFile_slot s)]

lemma not_segment (h : Bare d d') {name : FileName} (hname : name ∈ d'.keys) :
    isSegmentName name = none := by
  have hsome := AList.lookup_isSome.2 (AList.mem_keys.2 hname)
  rw [h] at hsome
  by_contra hne
  have hstore : isStoreFile name = true := by
    unfold isStoreFile
    rw [Option.isSome_iff_ne_none.2 hne, Bool.true_or]
  simp [hstore] at hsome

lemma canonical (h : Bare d d') : Canonical d' := by
  intro name hname g hg
  rw [h.not_segment hname] at hg
  cases hg

lemma manifest (h : Bare d d') (s : Slot) : Disk.manifest d' s = none := by
  unfold Disk.manifest
  rw [h.slot s]
  rfl

lemma elected (h : Bare d d') : Disk.elected d' = none := by
  unfold Disk.elected
  rw [h.manifest, h.manifest]
  rfl

end Bare

/-- Files are gone; when a manifest is, then every segment is. -/
structure Shrunk (d d' : Disk) : Prop where
  files : ∀ name, d'.lookup name = d.lookup name ∨ d'.lookup name = none
  order : (∀ s : Slot, d'.lookup s.fileName = d.lookup s.fileName) ∨
    ∀ name, (isSegmentName name).isSome → d'.lookup name = none

/-- Only segments are gone. -/
lemma Shrunk.of_segments {d d' : Disk} (h : ∀ name, d'.lookup name = d.lookup name ∨
    (isSegmentName name).isSome ∧ d'.lookup name = none) : Shrunk d d' := by
  refine ⟨fun name => (h name).imp_right And.right, .inl fun s => ?_⟩
  refine (h s.fileName).resolve_right fun hsegment => ?_
  rw [isSegmentName_slot] at hsegment
  exact absurd hsegment.1 (by simp)

section Rules

variable {env : Env} {A : StoreMark → Disk → Prop} {Z : Prop} {J : Disk → Prop} {ram : Ram}
  {w : World}

/-- A removal whose failure is ignored: the file is gone either way. -/
lemma wpc_ignore_removeFile {name : FileName} {Q : StorePost Unit} (hJ : J w.disk)
    (hQ : ∀ w', (∀ n, w'.disk.lookup n = if n = name then none else w.disk.lookup n) →
      Q (.ok ()) ram w') :
    Wpc env A Z J (Store.ignore (.removeFile name)) Q ram w := by
  unfold Store.ignore
  rw [wpc_bind]
  apply wpc_removeFile hJ
  simp only [handle, andThen_ok, wpc_pure]
  split
  · next hnone =>
    apply hQ
    intro n
    split
    · next hn => rw [hn, hnone.2]
    · rfl
  · apply hQ
    intro n
    split
    · next hn => rw [hn, World.setDisk_disk, AList.lookup_erase]
    · next hn => rw [World.setDisk_disk, AList.lookup_erase_ne hn]

/-- The loop over the listed files. -/
lemma wpc_removeSegments {files : List FileName} {Q : StorePost Unit}
    (hJ : ∀ d, (∀ n, d.lookup n = w.disk.lookup n ∨ (isSegmentName n).isSome ∧ d.lookup n = none) →
      J d)
    (hQ : ∀ w', (∀ n, w'.disk.lookup n =
      if n ∈ files ∧ (isSegmentName n).isSome then none else w.disk.lookup n) → Q (.ok ()) ram w') :
    Wpc env A Z J (Act.forEach (fun name => Store.when (isSegmentName name).isSome
      (Store.ignore (.removeFile name))) files) Q ram w := by
  induction files generalizing w with
  | nil => exact hQ w fun n => by simp
  | cons name files ih =>
    rw [Act.forEach, wpc_bind, wpc_when]
    constructor
    · intro hname
      apply wpc_ignore_removeFile (hJ _ fun n => .inl rfl)
      intro w₁ hw₁
      apply ih
      · intro d hd
        apply hJ
        intro n
        by_cases hn : n = name
        · right
          have hsegment : (isSegmentName n).isSome := hn ▸ hname
          refine ⟨hsegment, ?_⟩
          rcases hd n with heq | hgone
          · rw [heq, hw₁, if_pos hn]
          · exact hgone.2
        · have hd := hd n
          rwa [hw₁, if_neg hn] at hd
      · intro w₂ hw₂
        apply hQ
        intro n
        rw [hw₂, hw₁]
        by_cases hn : n = name
        · simp [hn, hname]
        · simp [hn]
    · intro hname
      apply ih hJ
      intro w₂ hw₂
      apply hQ
      intro n
      rw [hw₂]
      by_cases hn : n = name
      · simp [hn, hname]
      · simp [hn]

/-- **Formatting** succeeds on every directory, and takes every file of the store, the manifests
last. -/
lemma wpc_format {Q : StorePost Unit} (hJ : ∀ d, Shrunk w.disk d → J d)
    (hQ : ∀ w', Bare w.disk w'.disk → Q (.ok ()) ram.formatted w') :
    Wpc env A Z J Store.format Q ram w := by
  unfold Store.format
  rw [wpc_bind, wpc_call, wpc_tryCall_mount]
  simp only [andThen_ok]
  rw [wpc_bind, wpc_call, wpc_tryCall_listFiles]
  simp only [andThen_ok]
  rw [wpc_bind]
  apply wpc_removeSegments
  · exact fun d hd => hJ d (.of_segments hd)
  intro w₁ hw₁
  have hlookup : ∀ n, w₁.disk.lookup n =
      if (isSegmentName n).isSome then none else w.disk.lookup n := by
    intro n
    rw [hw₁, World.tick_disk]
    by_cases hsegment : (isSegmentName n).isSome
    · by_cases hlisted : n ∈ w.disk.keys
      · have hmem : n ∈ env.order w.clock w.disk.keys := (env.order_perm _ _).mem_iff.2 hlisted
        simp [hsegment, hmem]
      · -- a file that is not listed is not there
        have hnone : w.disk.lookup n = none := by
          rw [AList.lookup_eq_none]
          exact hlisted
        simp [hnone]
    · simp [hsegment]
  have hshrunk : ∀ d : Disk, (∀ n, d.lookup n = w₁.disk.lookup n ∨ d.lookup n = none) →
      Shrunk w.disk d := by
    intro d hd
    constructor
    · intro n
      have hd := hd n
      rw [hlookup] at hd
      split at hd
      · exact .inr (hd.elim id id)
      · exact hd
    · right
      intro n hsegment
      have hd := hd n
      rw [hlookup, if_pos hsegment] at hd
      exact hd.elim id id
  rw [andThen_ok, wpc_bind]
  apply wpc_ignore_removeFile (hJ _ (hshrunk _ fun n => .inl rfl))
  intro w₂ hw₂
  have hgone : ∀ n, w₂.disk.lookup n = w₁.disk.lookup n ∨ w₂.disk.lookup n = none := by
    intro n
    rw [hw₂]
    split
    · exact .inr rfl
    · exact .inl rfl
  rw [andThen_ok, wpc_bind]
  apply wpc_ignore_removeFile (hJ _ (hshrunk _ hgone))
  intro w₃ hw₃
  rw [andThen_ok, wpc_modify]
  apply hQ
  intro n
  rw [hw₃, hw₂, hlookup]
  by_cases hslot : n = Slot.a.fileName ∨ n = Slot.b.fileName
  · have hstore : isStoreFile n = true := by simp [isStoreFile, hslot]
    rcases hslot with rfl | rfl
    · simp [hstore]
    · simp [hstore]
  · rw [not_or] at hslot
    have hstore : isStoreFile n = (isSegmentName n).isSome := by simp [isStoreFile, hslot]
    rw [if_neg hslot.2, if_neg hslot.1, hstore]

end Rules

lemma Blank.formatted (ram : Ram) : Blank ram.formatted where
  mounted := rfl
  bytes := rfl
  active := rfl
  ranges := rfl
  gens := rfl
  records := rfl
  next_ne := one_ne_zero

/-! ## What a format amounts to -/

section Refresh

variable {env : Env} {A : StoreMark → Disk → Prop} {Z : Prop} {cfg : AppendLogConfig} {w : World}
  {d : Disk}

/-- Nothing dangles. -/
lemma wpc_cleanup_none {ram : Ram} {Q : StorePost Unit}
    (h : ∀ t, firstDangling ram.activeGenerations (env.order t w.disk.keys) = none)
    (hQ : Q (.ok ()) ram w.tick) :
    Wpc env A Z (fun _ => True) Store.cleanupOneDanglingSegment Q ram w := by
  unfold Store.cleanupOneDanglingSegment
  rw [wpc_bind, wpc_tryCall_listFiles]
  simp only [andThen_ok]
  rw [wpc_bind, wpc_get, andThen_ok, h]
  exact hQ

/-- A new object finds nothing, and sets its members as a format does. -/
lemma Bare.wpc_mount (h : Bare d w.disk) : Wpc env A Z (fun _ => True) (Store.mount cfg)
    (fun r ram' w' => r = .ok () ∧ ram' = Ram.formatted {} ∧ w'.disk = w.disk) {} w := by
  have hlisted : ∀ t, (env.order t w.disk.keys).filterMap isSegmentName = [] := by
    intro t
    apply List.filterMap_eq_nil_iff.2
    intro name hname
    exact h.not_segment ((env.order_perm _ _).mem_iff.1 hname)
  have hdangling : ∀ t, firstDangling [] (env.order t w.disk.keys) = none := by
    intro t
    unfold firstDangling
    apply List.findSome?_eq_none_iff.2
    intro name hname
    rw [h.not_segment ((env.order_perm _ _).mem_iff.1 hname)]
    rfl
  have hslot : ∀ (ram : Ram) (s : Slot), ram.accountedSlot w.disk s = ram := by
    intro ram s
    unfold Ram.accountedSlot
    rw [h.slot s]
  unfold Store.mount Store.scanSegments Store.adoptManifest
  rw [wpc_bind, wpc_call, wpc_tryCall_mount]
  simp only [andThen_ok]
  rw [wpc_bind, wpc_bind, wpc_call, wpc_tryCall_listFiles]
  simp only [andThen_ok, hlisted, List.insertionSort_nil]
  rw [wpc_bind, wpc_modify, andThen_ok, wpc_bind, wpc_bind, wpc_readManifest, andThen_ok,
    World.tick_disk, h.elected]
  simp only [ne_eq, not_true_eq_false, if_false, wpc_pure]
  rw [andThen_ok, wpc_bind, wpc_modify, andThen_ok, wpc_bind, wpc_get, andThen_ok, wpc_bind]
  have hscan : Scannable cfg w.tick.disk (fun _ => []) [] [] := trivial
  apply wpc_scanActive hscan (by simp [stopsAt_nil]) trivial
  unfold Store.accountFiles
  rw [andThen_ok, wpc_bind, wpc_modify, andThen_ok, wpc_bind]
  apply wpc_accountSegments (by simp)
  rw [andThen_ok, wpc_bind, wpc_accountSlot, andThen_ok, wpc_bind, wpc_accountSlot, andThen_ok,
    wpc_bind, wpc_modify, andThen_ok]
  have hdisk : (w.tick.setDisk (Disk.afterScan env w.tick.disk (fun _ => []) [] [])).disk =
      w.disk :=
    rfl
  rw [hdisk, hslot, hslot]
  apply wpc_cleanup_none
  · intro t
    exact hdangling t
  · rw [andThen_ok, wpc_modify]
    exact ⟨rfl, rfl, rfl⟩

/-- **A format starts over.**  Whatever the directory holds, it succeeds, removes the segments and
the manifests and nothing else, and leaves the object as a new one is that mounts what is left. -/
theorem format_refresh (env : Env) (cfg : AppendLogConfig) (ram : Ram) (w : World) : ∃ w',
    Prog.run (handle env) (Store.format ram) w = some ((.ok (), ram.formatted), w') ∧
      Bare w.disk w'.disk ∧ ∀ (env₂ : Env) (w₂ : World), w₂.disk = w'.disk → ∃ w₃,
        Prog.run (handle env₂) (Store.mount cfg {}) w₂ = some ((.ok (), ram.formatted), w₃) ∧
          w₃.disk = w₂.disk := by
  have hformat : Wpc env (fun _ _ => True) False (fun _ => True) Store.format
      (fun r ram' w' => r = .ok () ∧ ram' = ram.formatted ∧ Bare w.disk w'.disk) ram w :=
    wpc_format (fun _ _ => trivial) fun w' hbare => ⟨rfl, rfl, hbare⟩
  obtain ⟨⟨_, _⟩, w', hrun, rfl, rfl, hbare⟩ := Prog.wpc_total hformat (Prog.marksOk_true _ _ _)
  refine ⟨w', hrun, hbare, ?_⟩
  intro env₂ w₂ hdisk
  rw [← hdisk] at hbare
  have hmount : Wpc env₂ (fun _ _ => True) False (fun _ => True) (Store.mount cfg)
      (fun r ram' w' => r = .ok () ∧ ram' = Ram.formatted {} ∧ w'.disk = w₂.disk) {} w₂ :=
    hbare.wpc_mount
  obtain ⟨⟨_, _⟩, w₃, hrun₂, rfl, rfl, hkept⟩ := Prog.wpc_total hmount (Prog.marksOk_true _ _ _)
  exact ⟨w₃, hrun₂, hkept⟩

end Refresh

end Pqueue
