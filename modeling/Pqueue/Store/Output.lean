import Pqueue.Store.Packing

/-!
# The output of a compaction

The segments that a compaction writes, the logs and the files once they exist, and the manifest that
takes them over.
-/

namespace Pqueue

open Effect LittleEndian

/-! ## The output segments -/

/-- The output segments of a compaction; there are none when nothing is live. -/
def compactionOutput (cfg : AppendLogConfig) (ram : Ram) (live : List CompactionLiveRecord) :
    List OutputSeg :=
  if live = [] then [] else packOutput cfg ram.nextGeneration kSegmentHeaderBytes [] live

/-- The logs once the output segments exist. -/
def outputLogs (out : List OutputSeg) (seg : ℕ → List LogEvent) (g : ℕ) : List LogEvent :=
  ((out.find? fun o => o.gen = g).map OutputSeg.log).getD (seg g)

lemma outputLogs_of_not_mem {out : List OutputSeg} {seg : ℕ → List LogEvent} {g : ℕ}
    (h : g ∉ out.map OutputSeg.gen) : outputLogs out seg g = seg g := by
  have hnone : out.find? (fun o => o.gen = g) = none := by
    rw [List.find?_eq_none]
    intro o ho hg
    exact h (List.mem_map.2 ⟨o, ho, of_decide_eq_true hg⟩)
  rw [outputLogs, hnone]
  rfl

lemma outputLogs_of_mem {out : List OutputSeg} {seg : ℕ → List LogEvent}
    (hn : (out.map OutputSeg.gen).Nodup) {o : OutputSeg} (ho : o ∈ out) :
    outputLogs out seg o.gen = o.log := by
  have hfind : out.find? (fun o' => o'.gen = o.gen) = some o := by
    induction out with
    | nil => cases ho
    | cons x xs ih =>
      rw [List.map_cons, List.nodup_cons] at hn
      rcases List.mem_cons.1 ho with rfl | ho
      · rw [List.find?_cons_of_pos (by simp)]
      · have hne : ¬x.gen = o.gen := fun he => hn.1 (he ▸ List.mem_map.2 ⟨o, ho, rfl⟩)
        rw [List.find?_cons_of_neg (by simpa using hne), ih hn.2 ho]
  rw [outputLogs, hfind]
  rfl

/-! ## Writing the output -/

/-- The directory after the output segments were written. -/
def Disk.writeAll (d : Disk) (out : List OutputSeg) : Disk :=
  out.foldl (fun d o => d.insert (segmentName o.gen) o.data) d

/-- The members after the output segments were written. -/
def Ram.wroteAll (ram : Ram) (out : List OutputSeg) : Ram :=
  out.foldl (fun ram o => ram.trackWrite (segmentName o.gen) o.data.length 0) ram

lemma core_trackWrite (ram : Ram) (name : FileName) (n m : ℕ) :
    (ram.trackWrite name n m).core = ram.core := by
  obtain ⟨⟩ := ram
  simp only [Ram.core, Ram.trackWrite]

lemma core_wroteAll (ram : Ram) (out : List OutputSeg) : (ram.wroteAll out).core = ram.core := by
  induction out generalizing ram with
  | nil => rfl
  | cons o out ih =>
    have hcons : ram.wroteAll (o :: out) =
        (ram.trackWrite (segmentName o.gen) o.data.length 0).wroteAll out := rfl
    rw [hcons, ih, core_trackWrite]

lemma lookup_writeAll_of_ne {d : Disk} {out : List OutputSeg} {name : FileName}
    (h : ∀ o ∈ out, name ≠ segmentName o.gen) :
    (Disk.writeAll d out).lookup name = d.lookup name := by
  induction out generalizing d with
  | nil => rfl
  | cons o out ih =>
    have hcons : Disk.writeAll d (o :: out) =
        Disk.writeAll (d.insert (segmentName o.gen) o.data) out := rfl
    rw [hcons, ih fun o' ho' => h o' (List.mem_cons_of_mem _ ho'),
      AList.lookup_insert_ne (h o (List.mem_cons_self ..))]

lemma lookup_writeAll {d : Disk} {out : List OutputSeg} (hn : (out.map OutputSeg.gen).Nodup)
    (hlt : ∀ o ∈ out, o.gen < 2 ^ 32) {o : OutputSeg} (ho : o ∈ out) :
    (Disk.writeAll d out).lookup (segmentName o.gen) = some o.data := by
  induction out generalizing d with
  | nil => cases ho
  | cons x xs ih =>
    rw [List.map_cons, List.nodup_cons] at hn
    have hcons : Disk.writeAll d (x :: xs) =
        Disk.writeAll (d.insert (segmentName x.gen) x.data) xs := rfl
    rw [hcons]
    rcases List.mem_cons.1 ho with rfl | ho
    · rw [lookup_writeAll_of_ne fun o' ho' => segmentName_ne (hlt o (List.mem_cons_self ..))
        (hlt o' (List.mem_cons_of_mem _ ho')) fun he => hn.1 (he ▸ List.mem_map.2 ⟨o', ho', rfl⟩),
        AList.lookup_insert]
    · exact ih hn.2 (fun o' ho' => hlt o' (List.mem_cons_of_mem _ ho')) ho

/-! ## The new ranges -/

/-- The output as a range. -/
def outputRange (ram : Ram) (out : List OutputSeg) : Option ManifestRange :=
  if out = [] then none else some ⟨ram.nextGeneration, ram.nextGeneration + out.length - 1⟩

/-- The manifest that a compaction publishes. -/
def Ram.compaction (ram : Ram) (epoch idx : ℕ) (parent : ManifestRange) (input : CompactionRange)
    (out : List OutputSeg) : ManifestData :=
  ⟨epoch + 1, ram.nextGeneration + out.length,
    spliceRanges ram.manifestRanges idx parent input (outputRange ram out), ram.activeGeneration⟩

end Pqueue
