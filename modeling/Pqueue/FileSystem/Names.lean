import Mathlib.Algebra.Ring.Nat
import Mathlib.Tactic.Common
import Mathlib.Tactic.Lemma
import Mathlib.Data.List.Basic

/-!
# File names of the store

Segment files are named `seg-%08x.bin` after their generation; the two manifest slots and the
lock file have fixed names.  `isSegmentName` is the store's own recogniser, which accepts any
hexadecimal digit, upper case too.
-/

namespace Pqueue

/-- File names, as the characters they consist of. -/
abbrev FileName := List Char

def kSegmentPrefix : FileName := ['s', 'e', 'g', '-']
def kSegmentSuffix : FileName := ['.', 'b', 'i', 'n']

/-- The two manifest slots. -/
inductive Slot
  | a
  | b
  deriving DecidableEq, Repr

/-- `otherSlot`. -/
def Slot.other : Slot → Slot
  | .a => .b
  | .b => .a

/-- `kManifestSlotA` and `kManifestSlotB`. -/
def Slot.fileName : Slot → FileName
  | .a => ['m', 'a', 'n', 'i', 'f', 'e', 's', 't', '-', 'a', '.', 'b', 'i', 'n']
  | .b => ['m', 'a', 'n', 'i', 'f', 'e', 's', 't', '-', 'b', '.', 'b', 'i', 'n']

def kLockFileName : FileName := ['.', 'p', 'q', 'u', 'e', 'u', 'e', '.', 'l', 'o', 'c', 'k']

@[simp] lemma Slot.other_other (s : Slot) : s.other.other = s := by cases s <;> rfl

lemma Slot.other_ne (s : Slot) : s.other ≠ s := by cases s <;> decide

/-- The value of a hexadecimal digit, of either case. -/
def hexValue (c : Char) : Option ℕ :=
  if '0' ≤ c ∧ c ≤ '9' then some (c.toNat - '0'.toNat)
  else if 'a' ≤ c ∧ c ≤ 'f' then some (c.toNat - 'a'.toNat + 10)
  else if 'A' ≤ c ∧ c ≤ 'F' then some (c.toNat - 'A'.toNat + 10)
  else none

/-- Eight lower-case hexadecimal digits. -/
def formatGeneration (gen : ℕ) : FileName :=
  [7, 6, 5, 4, 3, 2, 1, 0].map fun i => Nat.digitChar (gen / 16 ^ i % 16)

/-- `std::stoul` in base 16, on a string of hexadecimal digits. -/
def parseHex (cs : List Char) : Option ℕ :=
  cs.foldl (fun acc c => do return (← acc) * 16 + (← hexValue c)) (some 0)

def segmentName (generation : ℕ) : FileName :=
  kSegmentPrefix ++ (formatGeneration generation ++ kSegmentSuffix)

def isSegmentName (name : FileName) : Option ℕ :=
  if name.length ≠ kSegmentPrefix.length + 8 + kSegmentSuffix.length then none
  else if name.take kSegmentPrefix.length ≠ kSegmentPrefix then none
  else if name.drop (name.length - kSegmentSuffix.length) ≠ kSegmentSuffix then none
  else parseHex ((name.drop kSegmentPrefix.length).take 8)

lemma hexValue_digitChar {n : ℕ} (h : n < 16) : hexValue (Nat.digitChar n) = some n := by
  have hall : ∀ m < 16, hexValue (Nat.digitChar m) = some m := by decide
  exact hall n h

/-- The recogniser reads back the generation a name was made from. -/
lemma isSegmentName_segmentName {g : ℕ} (hg : g < 2 ^ 32) :
    isSegmentName (segmentName g) = some g := by
  have hd : ∀ i, hexValue (Nat.digitChar (g / 16 ^ i % 16)) = some (g / 16 ^ i % 16) :=
    fun i => hexValue_digitChar (Nat.mod_lt _ (by decide))
  simp only [isSegmentName, segmentName, formatGeneration, kSegmentPrefix, kSegmentSuffix,
    List.map_cons, List.map_nil, List.cons_append, List.nil_append, List.length_cons,
    List.length_nil, List.take_succ_cons, List.take_zero, List.drop_succ_cons, List.drop_zero,
    ne_eq, not_true_eq_false, if_false, parseHex, List.foldl_cons, List.foldl_nil, hd,
    Option.bind_eq_bind, Option.bind_some, Option.pure_def, Option.some.injEq]
  omega

lemma segmentName_injOn {g g' : ℕ} (hg : g < 2 ^ 32) (hg' : g' < 2 ^ 32)
    (h : segmentName g = segmentName g') : g = g' := by
  have h1 := isSegmentName_segmentName hg
  rw [h, isSegmentName_segmentName hg'] at h1
  exact (Option.some.inj h1).symm

@[simp] lemma isSegmentName_slot (s : Slot) : isSegmentName s.fileName = none := by
  cases s <;> decide

@[simp] lemma isSegmentName_lock : isSegmentName kLockFileName = none := by decide

lemma slot_fileName_injective : Function.Injective Slot.fileName := by
  intro s t h
  cases s <;> cases t <;> first | rfl | exact absurd h (by decide)

lemma segmentName_ne_slot (g : ℕ) (s : Slot) : segmentName g ≠ s.fileName := by
  intro h
  have hhead := congrArg List.head? h
  cases s <;> simp [segmentName, kSegmentPrefix, Slot.fileName] at hhead

lemma segmentName_ne_lock (g : ℕ) : segmentName g ≠ kLockFileName := by
  intro h
  have hhead := congrArg List.head? h
  simp [segmentName, kSegmentPrefix, kLockFileName] at hhead

lemma slot_ne_lock (s : Slot) : s.fileName ≠ kLockFileName := by cases s <;> decide

end Pqueue
