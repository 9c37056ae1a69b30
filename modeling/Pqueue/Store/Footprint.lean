import Mathlib.Algebra.BigOperators.Group.List.Lemmas
import Pqueue.Store.Winner

/-!
# The size of a directory

`Disk.total p d` is the size of the files of `d` whose names satisfy `p`.  Writing a file changes
it by the new size less the old one, removing a file by its size, and what is done to other names
does not change it.  The footprint of a store counts the segment files and the manifest slots.
-/

namespace Pqueue

open Effect LittleEndian

namespace Disk

/-- The bytes of the files whose names satisfy `p`. -/
def total (p : FileName → Bool) (d : Disk) : ℕ := ((d.keys.filter p).map (size d)).sum

variable {p : FileName → Bool} {d d' : Disk} {name : FileName} {data : Bytes}

lemma size_congr (h : d'.lookup name = d.lookup name) : size d' name = size d name := by
  rw [size, size, h]

lemma size_of_lookup (h : d.lookup name = some data) : size d name = data.length := by
  rw [size, h]
  rfl

lemma size_of_none (h : d.lookup name = none) : size d name = 0 := by
  rw [size, h]
  rfl

lemma size_insert : size (d.insert name data) name = data.length :=
  size_of_lookup (AList.lookup_insert _)

lemma size_erase : size (d.erase name) name = 0 := size_of_none (AList.lookup_erase ..)

/-- The same files make up the same total. -/
lemma total_congr (h : ∀ name, p name = true → d'.lookup name = d.lookup name) :
    total p d' = total p d := by
  have hmem : ∀ name, name ∈ d'.keys.filter p ↔ name ∈ d.keys.filter p := by
    intro name
    simp only [List.mem_filter, ← AList.mem_keys, ← AList.lookup_isSome]
    exact ⟨fun hn => ⟨h name hn.2 ▸ hn.1, hn.2⟩, fun hn => ⟨(h name hn.2).symm ▸ hn.1, hn.2⟩⟩
  have hperm : (d'.keys.filter p).Perm (d.keys.filter p) :=
    (List.perm_ext_iff_of_nodup (d'.keys_nodup.filter _) (d.keys_nodup.filter _)).2 hmem
  have hsize : (d'.keys.filter p).map (size d') = (d'.keys.filter p).map (size d) :=
    List.map_congr_left fun name hn => size_congr (h name (List.mem_filter.1 hn).2)
  rw [total, total, hsize]
  exact (hperm.map _).sum_eq

/-- A file, and the others. -/
lemma total_eq (hp : p name = true) :
    total p d = size d name + total (fun n => p n && decide (n ≠ name)) d := by
  have hfilter : (d.keys.filter p).Perm
      ((if name ∈ d.keys then [name] else []) ++
        d.keys.filter fun n => p n && decide (n ≠ name)) := by
    refine (List.perm_ext_iff_of_nodup (d.keys_nodup.filter _) ?_).2 fun n => ?_
    · refine List.nodup_append.2 ⟨?_, d.keys_nodup.filter _, ?_⟩
      · split
        · exact List.nodup_singleton _
        · exact List.nodup_nil
      · rintro a ha b hb rfl
        split at ha
        · rw [List.mem_singleton.1 ha] at hb
          simp at hb
        · exact absurd ha List.not_mem_nil
    · by_cases hn : n = name
      · subst hn
        by_cases hk : n ∈ d.keys <;> simp [hk, hp]
      · by_cases hk : name ∈ d.keys <;> simp [hk, hn]
  rw [total, (hfilter.map _).sum_eq, List.map_append, List.sum_append]
  refine congrArg (· + _) ?_
  split
  · exact List.sum_singleton
  · next hk =>
    exact (size_of_none (AList.lookup_eq_none.2 hk)).symm

/-- The others are not touched by what is done to the file. -/
lemma total_others (h : SameExcept name d d') :
    total (fun n => p n && decide (n ≠ name)) d' = total (fun n => p n && decide (n ≠ name)) d :=
  total_congr fun n hn => h n (of_decide_eq_true (Bool.and_eq_true_iff.1 hn).2)

/-- **Changing one file** changes the total by the difference of its sizes. -/
lemma total_change (hp : p name = true) (h : SameExcept name d d') :
    total p d' + size d name = total p d + size d' name := by
  rw [total_eq hp, total_eq (d := d) hp, total_others h]
  omega

lemma size_le_total (hp : p name = true) : size d name ≤ total p d := by
  rw [total_eq hp]
  exact Nat.le_add_right _ _

end Disk

/-- The files of a store: segments and manifest slots. -/
def isStoreFile (name : FileName) : Bool :=
  (isSegmentName name).isSome || decide (name = Slot.a.fileName ∨ name = Slot.b.fileName)

/-- The size of all segment and manifest files. -/
def Disk.footprint (d : Disk) : ℕ := Disk.total isStoreFile d

lemma isStoreFile_segment {gen : ℕ} (h : gen < 2 ^ 32) : isStoreFile (segmentName gen) = true := by
  rw [isStoreFile, isSegmentName_segmentName h]
  rfl

lemma isStoreFile_slot (s : Slot) : isStoreFile s.fileName = true := by
  cases s <;> decide

/-- The 32-bit total follows a file that is removed. -/
lemma subU32_eq {t t' m : ℕ} (h : t' + m = t) : subU32 (u32 t) (u32 m) = u32 t' := by
  have hu : ∀ x, u32 x = x % 2 ^ 32 := fun _ => rfl
  simp only [subU32, hu]
  omega

end Pqueue
