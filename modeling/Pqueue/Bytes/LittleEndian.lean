import Mathlib.Algebra.Ring.Nat
import Mathlib.Tactic.Common
import Mathlib.Tactic.Lemma

/-!
# Little-endian integers in byte strings

Fixed-width unsigned integers as they stand in a file, and a reader that consumes them from
the front of a byte string.  `u32` is the reduction a 32-bit unsigned operation performs.
-/

namespace LittleEndian

/-- Byte strings. -/
abbrev Bytes := List UInt8

/-- The value a 32-bit unsigned operation keeps of an exact result. -/
def u32 (n : ℕ) : ℕ := n % 2 ^ 32

/-- The value a 16-bit unsigned cast keeps. -/
def u16 (n : ℕ) : ℕ := n % 2 ^ 16

/-- 32-bit subtraction, of a word `b`. -/
@[irreducible] def subU32 (a b : ℕ) : ℕ := u32 (a + 2 ^ 32 - b)

lemma u32_of_lt {n : ℕ} (h : n < 2 ^ 32) : u32 n = n := Nat.mod_eq_of_lt h

lemma u32_lt (n : ℕ) : u32 n < 2 ^ 32 := Nat.mod_lt _ (by decide)

lemma u16_of_lt {n : ℕ} (h : n < 2 ^ 16) : u16 n = n := Nat.mod_eq_of_lt h

/-- The four bytes of a 32-bit word, least significant first. -/
def le32 (v : ℕ) : Bytes :=
  [UInt8.ofNat v, UInt8.ofNat (v >>> 8), UInt8.ofNat (v >>> 16), UInt8.ofNat (v >>> 24)]

/-- The two bytes of a 16-bit word, least significant first. -/
def le16 (v : ℕ) : Bytes := [UInt8.ofNat v, UInt8.ofNat (v >>> 8)]

/-- Consume a 32-bit word.  The four shifted bytes do not overlap, so their sum is their
bitwise or. -/
def read32 : Bytes → Option (ℕ × Bytes)
  | a :: b :: c :: d :: rest =>
    some (a.toNat + b.toNat * 2 ^ 8 + c.toNat * 2 ^ 16 + d.toNat * 2 ^ 24, rest)
  | _ => none

/-- Consume a 16-bit word. -/
def read16 : Bytes → Option (ℕ × Bytes)
  | a :: b :: rest => some (a.toNat + b.toNat * 2 ^ 8, rest)
  | _ => none

@[simp] lemma length_le32 (v : ℕ) : (le32 v).length = 4 := rfl

@[simp] lemma length_le16 (v : ℕ) : (le16 v).length = 2 := rfl

lemma read32_le32 {v : ℕ} (hv : v < 2 ^ 32) (rest : Bytes) :
    read32 (le32 v ++ rest) = some (v, rest) := by
  simp only [le32, List.cons_append, List.nil_append, read32, UInt8.toNat_ofNat',
    Nat.shiftRight_eq_div_pow, Option.some.injEq, Prod.mk.injEq, and_true]
  omega

lemma read16_le16 {v : ℕ} (hv : v < 2 ^ 16) (rest : Bytes) :
    read16 (le16 v ++ rest) = some (v, rest) := by
  simp only [le16, List.cons_append, List.nil_append, read16, UInt8.toNat_ofNat',
    Nat.shiftRight_eq_div_pow, Option.some.injEq, Prod.mk.injEq, and_true]
  omega

/-- What `read32` accepts is a word in front of the rest. -/
lemma read32_eq_some {bs rest : Bytes} {v : ℕ} (h : read32 bs = some (v, rest)) :
    bs = le32 v ++ rest ∧ v < 2 ^ 32 := by
  match bs, h with
  | a :: b :: c :: d :: tl, h =>
    simp only [read32, Option.some.injEq, Prod.mk.injEq] at h
    obtain ⟨rfl, rfl⟩ := h
    have ha := a.toNat_lt
    have hb := b.toNat_lt
    have hc := c.toNat_lt
    have hd := d.toNat_lt
    refine ⟨?_, by omega⟩
    simp only [le32, List.cons_append, List.nil_append, List.cons.injEq, and_true,
      ← UInt8.toNat_inj, UInt8.toNat_ofNat', Nat.shiftRight_eq_div_pow]
    omega

lemma read16_eq_some {bs rest : Bytes} {v : ℕ} (h : read16 bs = some (v, rest)) :
    bs = le16 v ++ rest ∧ v < 2 ^ 16 := by
  match bs, h with
  | a :: b :: tl, h =>
    simp only [read16, Option.some.injEq, Prod.mk.injEq] at h
    obtain ⟨rfl, rfl⟩ := h
    have ha := a.toNat_lt
    have hb := b.toNat_lt
    refine ⟨?_, by omega⟩
    simp only [le16, List.cons_append, List.nil_append, List.cons.injEq, and_true,
      ← UInt8.toNat_inj, UInt8.toNat_ofNat', Nat.shiftRight_eq_div_pow]
    omega

/-- Reading a word looks at four bytes only. -/
lemma read32_append {bs rest : Bytes} {v : ℕ} (h : read32 bs = some (v, rest)) (tl : Bytes) :
    read32 (bs ++ tl) = some (v, rest ++ tl) := by
  obtain ⟨rfl, hv⟩ := read32_eq_some h
  rw [List.append_assoc, read32_le32 hv]

lemma read32_isSome {bs : Bytes} (h : 4 ≤ bs.length) : (read32 bs).isSome := by
  match bs, h with
  | _ :: _ :: _ :: _ :: _, _ => rfl

end LittleEndian
