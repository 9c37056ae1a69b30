import Pqueue.Store.Api

/-!
# Rules for store methods

`Wpc` is the crash-aware precondition of a store method on a file system without failures: the
invariant `J` is asked of every directory that a crash inside the method can leave.  The calls
that do not write are functions of the directory, so their rules are equations; the writing
calls add the crash obligations.
-/

namespace Pqueue

open Effect LittleEndian

/-! ## The judgement -/

/-- A postcondition of a store method. -/
abbrev StorePost (α : Type) := Act.Post Ram Status World α

/-- Crash-aware precondition of a store method: `A` is assumed at the marked points, `J` holds
of every directory a crash can leave, `Q` of the outcome, and a loop that does not end
satisfies `Z`. -/
def Wpc (env : Env) (A : StoreMark → Disk → Prop) (Z : Prop) (J : Disk → Prop) {α : Type}
    (m : Store α) (Q : StorePost α) (ram : Ram) (w : World) : Prop :=
  Act.wpc (crashing env) (fun mk w => A mk w.disk) Z (fun w => J w.disk) m Q ram w

@[simp] lemma andThen_ok {α β : Type} (K : α → Ram → World → Prop) (Q : StorePost β) (a : α)
    (ram : Ram) (w : World) : Act.andThen K Q (.ok a) ram w = K a ram w := rfl

@[simp] lemma andThen_error {α β : Type} (K : α → Ram → World → Prop) (Q : StorePost β)
    (e : Status) (ram : Ram) (w : World) : Act.andThen K Q (.error e) ram w = Q (.error e) ram w :=
  rfl

section Rules

variable {env : Env} {A : StoreMark → Disk → Prop} {Z : Prop} {J : Disk → Prop} {α β : Type}
  {ram : Ram} {w : World}

lemma wpc_bind {m : Store α} {f : α → Store β} {Q : StorePost β} :
    Wpc env A Z J (m >>= f) Q ram w ↔
      Wpc env A Z J m (Act.andThen (fun a ram w => Wpc env A Z J (f a) Q ram w) Q) ram w :=
  Act.wpc_bind m f Q

@[simp] lemma wpc_pure (a : α) (Q : StorePost α) :
    Wpc env A Z J (pure a) Q ram w ↔ Q (.ok a) ram w := Iff.rfl

@[simp] lemma wpc_failure (code : StatusCode) (message : String) (Q : StorePost α) :
    Wpc env A Z J (Store.failure code message) Q ram w ↔ Q (.error ⟨code, message⟩) ram w := Iff.rfl

@[simp] lemma wpc_get (Q : StorePost Ram) :
    Wpc env A Z J Store.get Q ram w ↔ Q (.ok ram) ram w := Iff.rfl

@[simp] lemma wpc_modify (f : Ram → Ram) (Q : StorePost Unit) :
    Wpc env A Z J (Store.modify f) Q ram w ↔ Q (.ok ()) (f ram) w := Iff.rfl

@[simp] lemma wpc_mark (mk : StoreMark) (Q : StorePost Unit) :
    Wpc env A Z J (Store.mark mk) Q ram w ↔ (A mk w.disk → Q (.ok ()) ram w) := Iff.rfl

lemma wpc_when {c : Prop} [Decidable c] {m : Store Unit} {Q : StorePost Unit} :
    Wpc env A Z J (Store.when c m) Q ram w ↔
      (c → Wpc env A Z J m Q ram w) ∧ (¬c → Q (.ok ()) ram w) := by
  rw [Store.when]
  by_cases h : c
  · rw [if_pos h]
    exact ⟨fun hm => ⟨fun _ => hm, fun hn => absurd h hn⟩, fun hm => hm.1 h⟩
  · rw [if_neg h]
    exact ⟨fun hm => ⟨fun hc => absurd hc h, fun _ => hm⟩, fun hm => hm.2 h⟩

/-! ## Calls that only read -/

lemma wpc_tryCall_of_not_mutates {c : FsCall} (hc : c.mutates = false)
    (Q : StorePost (Except Status c.Val)) :
    Wpc env A Z J (Store.tryCall c) Q ram w ↔ Q (.ok (handle env c w).1) ram
      (handle env c w).2 := by
  have h : Wpc env A Z J (Store.tryCall c) Q ram w ↔
      (c.mutates = true → J w.disk ∧ ∀ n w', torn c n w = some w' → J w'.disk) ∧
        Q (.ok (handle env c w).1) ram (handle env c w).2 := Iff.rfl
  rw [h, hc]
  simp

/-- A call whose failure ends the method, when it does not fail. -/
lemma wpc_call {c : FsCall} {Q : StorePost c.Val} :
    Wpc env A Z J (Store.call c) Q ram w ↔
      Wpc env A Z J (Store.tryCall c) (fun r ram w => match r with
        | .ok (.ok v) => Q (.ok v) ram w
        | .ok (.error e) => Q (.error e) ram w
        | .error e => Q (.error e) ram w) ram w := by
  rw [Store.call, wpc_bind]
  refine iff_of_eq (congrArg (fun P => Wpc env A Z J (Store.tryCall c) P ram w) ?_)
  funext r ram w
  rcases r with e | (e | v) <;> rfl

@[simp] lemma wpc_tryCall_readFile (name : FileName) (Q : StorePost (Except Status Bytes)) :
    Wpc env A Z J (Store.tryCall (.readFile name)) Q ram w ↔
      Q (.ok (handle env (.readFile name) w).1) ram w := by
  rw [wpc_tryCall_of_not_mutates rfl]
  simp only [handle]
  split <;> rfl

@[simp] lemma wpc_tryCall_fileSize (name : FileName) (Q : StorePost (Except Status ℕ)) :
    Wpc env A Z J (Store.tryCall (.fileSize name)) Q ram w ↔
      Q (.ok (handle env (.fileSize name) w).1) ram w := by
  rw [wpc_tryCall_of_not_mutates rfl]
  simp only [handle]
  split <;> rfl

@[simp] lemma wpc_tryCall_readAt (name : FileName) (offset size : ℕ)
    (Q : StorePost (Except Status Bytes)) :
    Wpc env A Z J (Store.tryCall (.readAt name offset size)) Q ram w ↔
      Q (.ok (handle env (.readAt name offset size) w).1) ram w := by
  rw [wpc_tryCall_of_not_mutates rfl]
  simp only [handle]
  split
  · split <;> rfl
  · rfl

@[simp] lemma wpc_tryCall_mount (Q : StorePost (Except Status Unit)) :
    Wpc env A Z J (Store.tryCall .mount) Q ram w ↔ Q (.ok (.ok ())) ram w :=
  wpc_tryCall_of_not_mutates (c := .mount) rfl Q

@[simp] lemma wpc_tryCall_listFiles (Q : StorePost (Except Status (List FileName))) :
    Wpc env A Z J (Store.tryCall .listFiles) Q ram w ↔
      Q (.ok (.ok (env.order w.clock w.disk.keys))) ram w.tick :=
  wpc_tryCall_of_not_mutates (c := .listFiles) rfl Q

/-- The size `fileSize` reports, `0` for a missing file. -/
def Disk.size (d : Disk) (name : FileName) : ℕ := ((d.lookup name).getD []).length

@[simp] lemma wpc_sizeOrZero (name : FileName) (Q : StorePost ℕ) :
    Wpc env A Z J (Store.sizeOrZero name) Q ram w ↔ Q (.ok (Disk.size w.disk name)) ram w := by
  rw [Store.sizeOrZero, wpc_bind, wpc_tryCall_fileSize, Disk.size]
  simp only [handle]
  cases w.disk.lookup name <;> rfl

/-- The manifest a slot parses to. -/
def Disk.manifest (d : Disk) (slot : Slot) : Option ManifestData :=
  (d.lookup slot.fileName).bind parseManifest

/-- The manifest a mount elects. -/
def Disk.elected (d : Disk) : Option ManifestData :=
  chooseWinningSlot (Disk.manifest d .a) (Disk.manifest d .b)

@[simp] lemma wpc_tryReadSlot (slot : Slot) (Q : StorePost (Option ManifestData)) :
    Wpc env A Z J (Store.tryReadSlot slot) Q ram w ↔ Q (.ok (Disk.manifest w.disk slot)) ram w := by
  rw [Store.tryReadSlot, wpc_bind, wpc_tryCall_readFile, Disk.manifest]
  simp only [handle]
  cases w.disk.lookup slot.fileName <;> rfl

@[simp] lemma wpc_slotExists (slot : Slot) (Q : StorePost Bool) :
    Wpc env A Z J (Store.slotExists slot) Q ram w ↔
      Q (.ok (w.disk.lookup slot.fileName).isSome) ram w := by
  rw [Store.slotExists, wpc_bind, wpc_tryCall_fileSize]
  simp only [handle]
  cases w.disk.lookup slot.fileName <;> rfl

@[simp] lemma wpc_readManifest (Q : StorePost (Option ManifestData)) :
    Wpc env A Z J Store.readManifest Q ram w ↔ Q (.ok (Disk.elected w.disk)) ram w := by
  simp only [Store.readManifest, wpc_bind, wpc_tryReadSlot, andThen_ok, wpc_pure, Disk.elected]

/-! ## Calls that write -/

lemma wpc_writeFile {name : FileName} {data : Bytes} {Q : StorePost Unit} (hJ : J w.disk)
    (htorn : ∀ n < data.length, J (w.disk.insert name (data.take n)))
    (hQ : Q (.ok ()) ram (w.setDisk (w.disk.insert name data))) :
    Wpc env A Z J (Store.call (.writeFile name data)) Q ram w := by
  refine wpc_call.2 ⟨fun _ => ⟨hJ, fun n w' hw => ?_⟩, hQ⟩
  simp only [crashing, torn] at hw
  split at hw
  · next hn =>
    obtain rfl := Option.some.inj hw
    exact htorn n hn
  · cases hw

lemma wpc_removeFile {name : FileName} {Q : StorePost (Except Status Unit)} (hJ : J w.disk)
    (hQ : Q (.ok (handle env (.removeFile name) w).1) ram (handle env (.removeFile name) w).2) :
    Wpc env A Z J (Store.tryCall (.removeFile name)) Q ram w :=
  ⟨fun _ => ⟨hJ, fun _ _ h => by cases h⟩, hQ⟩

lemma wpc_resizeFile {name : FileName} {size : ℕ} {Q : StorePost Unit} (hJ : J w.disk)
    (hQ : Q (.ok ()) ram (w.setDisk (w.disk.insert name
      (env.backend.resized ((w.disk.lookup name).getD []) size)))) :
    Wpc env A Z J (Store.ignore (.resizeFile name size)) Q ram w := by
  rw [Store.ignore, wpc_bind]
  exact ⟨fun _ => ⟨hJ, fun _ _ h => by cases h⟩, hQ⟩

/-! ## Loops over generations -/

/-- A loop over these generations does not end. -/
def Endless (s e : ℕ) : Prop := s ≤ e ∧ e = 2 ^ 32 - 1

lemma wpc_generations {s e : ℕ} {Q : StorePost (List ℕ)} (h : ¬Endless s e)
    (hQ : Q (.ok (List.range' s (e + 1 - s))) ram w) :
    Wpc env A Z J (Store.generations s e) Q ram w := by
  rw [Store.generations, if_neg (show ¬(s ≤ e ∧ e = 2 ^ 32 - 1) from h)]
  exact hQ

/-- The generations of a list of ranges, in order. -/
def rangeGens (ranges : List ManifestRange) : List ℕ := ranges.flatMap ManifestRange.gens

lemma wpc_expandRanges {ranges : List ManifestRange} {Q : StorePost (List ℕ)}
    (h : ∀ r ∈ ranges, ¬Endless r.startGen r.endGen) (hQ : Q (.ok (rangeGens ranges)) ram w) :
    Wpc env A Z J (Store.expandRanges ranges) Q ram w := by
  induction ranges generalizing Q with
  | nil => exact hQ
  | cons r rs ih =>
    rw [Store.expandRanges, wpc_bind]
    refine wpc_generations (h r (List.mem_cons_self ..)) ?_
    rw [andThen_ok, wpc_bind]
    exact ih (fun r' hr' => h r' (List.mem_cons_of_mem _ hr')) hQ

/-- The generations of a manifest in replay order: the ranges, then the tail. -/
def ManifestData.gens (md : ManifestData) : List ℕ := rangeGens md.ranges ++ md.tailList

lemma wpc_applyManifestToRam {md : ManifestData} {Q : StorePost Unit}
    (h : ∀ r ∈ md.ranges, ¬Endless r.startGen r.endGen)
    (hQ : Q (.ok ()) (ram.applyManifest md (rangeGens md.ranges)) w) :
    Wpc env A Z J (Store.applyManifestToRam md) Q ram w := by
  rw [Store.applyManifestToRam, wpc_bind]
  exact wpc_expandRanges h hQ

end Rules

end Pqueue
