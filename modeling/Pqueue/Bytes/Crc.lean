import Mathlib.Algebra.Ring.Nat
import Mathlib.Tactic.Common
import Mathlib.Tactic.Lemma

/-!
# Cyclic redundancy checks, bit by bit and by table

A reflected CRC shifts its register to the right and adds the polynomial when a one falls out.
The shift is linear (`shift_xor`), so that several shifts of a register are the shifts of its low
bits, which a table can hold, plus the register moved down (`shifts_eq_table`).  It loses nothing
when the highest bit of the polynomial is set, so that a checksum tells byte strings apart that
differ in one byte (`crc_ne_of_replaced`).
-/

namespace Crc

variable {w : ℕ}

/-- One shift of the register. -/
def shift (poly c : BitVec w) : BitVec w :=
  (c >>> 1) ^^^ (if c.getLsbD 0 then poly else 0#w)

/-- So many shifts of the register. -/
def shifts (poly : BitVec w) : ℕ → BitVec w → BitVec w
  | 0, c => c
  | n + 1, c => shifts poly n (shift poly c)

lemma shift_xor (poly c d : BitVec w) :
    shift poly (c ^^^ d) = shift poly c ^^^ shift poly d := by
  have hbit : (if (c ^^^ d).getLsbD 0 then poly else 0#w) =
      (if c.getLsbD 0 then poly else 0#w) ^^^ (if d.getLsbD 0 then poly else 0#w) := by
    rw [BitVec.getLsbD_xor]
    by_cases hc : c.getLsbD 0 <;> by_cases hd : d.getLsbD 0 <;> simp [hc, hd]
  unfold shift
  rw [hbit, BitVec.ushiftRight_xor_distrib]
  ac_rfl

lemma shifts_xor (poly : BitVec w) (n : ℕ) (c d : BitVec w) :
    shifts poly n (c ^^^ d) = shifts poly n c ^^^ shifts poly n d := by
  induction n generalizing c d with
  | zero => rfl
  | succ n ih =>
    simp only [shifts, shift_xor]
    exact ih _ _

/-- A register whose low bits are zero only moves down. -/
lemma shifts_of_low_zero {poly : BitVec w} {n : ℕ} {c : BitVec w}
    (h : ∀ i < n, c.getLsbD i = false) : shifts poly n c = c >>> n := by
  induction n generalizing c with
  | zero => simp [shifts]
  | succ n ih =>
    have hshift : shift poly c = c >>> 1 := by
      simp [shift, h 0 (Nat.succ_pos n)]
    have hlow : ∀ i < n, (c >>> 1).getLsbD i = false := by
      intro i hi
      rw [BitVec.getLsbD_ushiftRight]
      exact h (1 + i) (by omega)
    rw [shifts, hshift, ih hlow, ← BitVec.shiftRight_add, Nat.add_comm]

/-- The low bits go through the table, the others move down.  `mask` selects the `n` low bits. -/
lemma shifts_eq_table (poly c : BitVec w) {n : ℕ} {mask : BitVec w}
    (hmask : ∀ i < w, mask.getLsbD i = decide (i < n)) :
    shifts poly n c = shifts poly n (c &&& mask) ^^^ (c >>> n) := by
  have hsplit : c = (c &&& mask) ^^^ (c &&& ~~~mask) := by
    apply BitVec.eq_of_getLsbD_eq
    intro i hi
    simp only [BitVec.getLsbD_xor, BitVec.getLsbD_and, BitVec.getLsbD_not, hi, decide_true,
      Bool.true_and]
    cases c.getLsbD i <;> cases mask.getLsbD i <;> rfl
  have hlow : ∀ i < n, (c &&& ~~~mask).getLsbD i = false := by
    intro i hi
    by_cases hw : i < w
    · simp [BitVec.getLsbD_not, hmask i hw, hi]
    · simp [hw]
  have hhigh : (c &&& ~~~mask) >>> n = c >>> n := by
    apply BitVec.eq_of_getLsbD_eq
    intro i hi
    rw [BitVec.getLsbD_ushiftRight, BitVec.getLsbD_ushiftRight, BitVec.getLsbD_and,
      BitVec.getLsbD_not]
    by_cases hw : n + i < w
    · have hnot : ¬n + i < n := by omega
      rw [hmask _ hw, decide_eq_true hw, decide_eq_false hnot, Bool.not_false, Bool.true_and,
        Bool.and_true]
    · rw [BitVec.getLsbD_of_ge c _ (Nat.not_lt.1 hw), Bool.false_and]
  conv_lhs => rw [hsplit]
  rw [shifts_xor, shifts_of_low_zero hlow, hhigh]

/-! ## Byte strings -/

/-- A byte enters the register, and eight shifts move it through. -/
def byteStep (poly c : BitVec w) (b : UInt8) : BitVec w :=
  shifts poly 8 (c ^^^ BitVec.ofNat w b.toNat)

/-- The checksum of a byte string bit by bit, continued from `c`; the register is inverted at both
ends. -/
def crc (poly c : BitVec w) (data : List UInt8) : BitVec w := ~~~(data.foldl (byteStep poly) (~~~c))

lemma crc_append (poly c : BitVec w) (a b : List UInt8) :
    crc poly (crc poly c a) b = crc poly c (a ++ b) := by
  unfold crc
  rw [BitVec.not_not, List.foldl_append]

/-- A byte has no bits that move down. -/
lemma byte_shiftRight (b : UInt8) : BitVec.ofNat w b.toNat >>> 8 = 0#w := by
  apply BitVec.eq_of_toNat_eq
  have hb := b.toNat_lt
  have hle := Nat.mod_le b.toNat (2 ^ w)
  simp only [BitVec.toNat_ushiftRight, BitVec.toNat_ofNat, Nat.shiftRight_eq_div_pow, Nat.zero_mod]
  omega

/-- A byte by the table. -/
lemma byteStep_eq_table (poly c : BitVec w) (b : UInt8) {mask : BitVec w}
    (hmask : ∀ i < w, mask.getLsbD i = decide (i < 8)) :
    byteStep poly c b = shifts poly 8 ((c ^^^ BitVec.ofNat w b.toNat) &&& mask) ^^^ (c >>> 8) := by
  have hhigh : (c ^^^ BitVec.ofNat w b.toNat) >>> 8 = c >>> 8 := by
    rw [BitVec.ushiftRight_xor_distrib, byte_shiftRight, BitVec.xor_zero]
  unfold byteStep
  rw [shifts_eq_table _ _ hmask, hhigh]

/-! ## One byte replaced -/

/-- One byte is replaced by another. -/
def Replaced (a a' : List UInt8) : Prop :=
  ∃ pre b b' post, b ≠ b' ∧ a = pre ++ b :: post ∧ a' = pre ++ b' :: post

lemma Replaced.length_eq {a a' : List UInt8} (h : Replaced a a') : a'.length = a.length := by
  obtain ⟨pre, b, b', post, -, rfl, rfl⟩ := h
  simp

lemma Replaced.irrefl {a : List UInt8} : ¬Replaced a a := by
  rintro ⟨pre, b, b', post, hne, hb, hb'⟩
  rw [hb, List.append_cancel_left_eq, List.cons.injEq] at hb'
  exact hne hb'.1

/-- It lies in one part or in the other. -/
lemma Replaced.append_cases {a a' t t' : List UInt8} (h : Replaced (a ++ t) (a' ++ t'))
    (hlen : a'.length = a.length) : (Replaced a a' ∧ t' = t) ∨ (a' = a ∧ Replaced t t') := by
  obtain ⟨pre, b, b', post, hne, hb, hb'⟩ := h
  rcases List.append_eq_append_iff.1 hb with ⟨mid, rfl, rfl⟩ | ⟨mid, rfl, hmid⟩
  · rw [List.append_assoc] at hb'
    obtain ⟨rfl, rfl⟩ := List.append_inj hb' hlen
    exact .inr ⟨rfl, mid, b, b', post, hne, rfl, rfl⟩
  · cases mid with
    | nil =>
      rw [List.append_nil] at hlen
      obtain ⟨rfl, rfl⟩ := List.append_inj hb' hlen
      refine .inr ⟨(List.append_nil _).symm, [], b, b', post, hne, hmid.symm, rfl⟩
    | cons c mid =>
      rw [List.cons_append, List.cons.injEq] at hmid
      obtain ⟨rfl, rfl⟩ := hmid
      rw [← List.cons_append, ← List.append_assoc] at hb'
      have hlen' : a'.length = (pre ++ b' :: mid).length := by simpa using hlen
      obtain ⟨rfl, rfl⟩ := List.append_inj hb' hlen'
      exact .inl ⟨⟨pre, b, b', mid, hne, rfl, rfl⟩, rfl⟩

/-- A byte string with a seal that tells apart what differs in one byte does not become another
such byte string when a byte is replaced, be it of the seal. -/
lemma not_replaced_sealed {f : List UInt8 → List UInt8}
    (hf : ∀ a a', Replaced a a' → f a' ≠ f a) {a a' : List UInt8} (hlen : a'.length = a.length) :
    ¬Replaced (a ++ f a) (a' ++ f a') := by
  intro h
  rcases h.append_cases hlen with ⟨hbody, hseal⟩ | ⟨rfl, hseal⟩
  · exact hf a a' hbody hseal
  · exact Replaced.irrefl hseal

/-- The bit that falls out can be read off the highest bit, which the polynomial sets. -/
lemma shift_injective {poly : BitVec w} (hpoly : poly.getLsbD (w - 1) = true) :
    Function.Injective (shift poly) := by
  have hw : 0 < w := by
    by_contra hzero
    rw [BitVec.getLsbD_of_ge poly _ (by omega)] at hpoly
    simp at hpoly
  have htop : ∀ c : BitVec w, (shift poly c).getLsbD (w - 1) = c.getLsbD 0 := by
    intro c
    unfold shift
    rw [BitVec.getLsbD_xor, BitVec.getLsbD_ushiftRight, BitVec.getLsbD_of_ge c _ (by omega)]
    cases c.getLsbD 0 <;> simp [hpoly]
  intro c d h
  have hlow : c.getLsbD 0 = d.getLsbD 0 := by
    rw [← htop c, ← htop d, h]
  have hhigh : c >>> 1 = d >>> 1 := by
    unfold shift at h
    rw [hlow] at h
    exact (BitVec.xor_left_inj _).1 h
  apply BitVec.eq_of_getLsbD_eq
  intro i hi
  cases i with
  | zero => exact hlow
  | succ i =>
    have hbit := congrArg (fun x => BitVec.getLsbD x i) hhigh
    simpa [BitVec.getLsbD_ushiftRight, Nat.add_comm] using hbit

lemma shifts_injective {poly : BitVec w} (hpoly : poly.getLsbD (w - 1) = true) (n : ℕ) :
    Function.Injective (shifts poly n) := by
  induction n with
  | zero => exact Function.injective_id
  | succ n ih =>
    intro c d h
    exact shift_injective hpoly (ih h)

section

variable {poly : BitVec w} (hpoly : poly.getLsbD (w - 1) = true)

include hpoly

/-- The register after a byte tells the registers before it apart. -/
lemma byteStep_left_injective (b : UInt8) : Function.Injective fun c => byteStep poly c b := by
  intro c d h
  exact (BitVec.xor_left_inj _).1 (shifts_injective hpoly 8 h)

/-- It tells the bytes apart. -/
lemma byteStep_right_injective (hw : 8 ≤ w) (c : BitVec w) :
    Function.Injective (byteStep poly c) := by
  intro b b' h
  have hbits := congrArg BitVec.toNat ((BitVec.xor_right_inj _).1 (shifts_injective hpoly 8 h))
  have hpow : 2 ^ 8 ≤ 2 ^ w := Nat.pow_le_pow_right (by simp) hw
  have hb := b.toNat_lt
  have hb' := b'.toNat_lt
  rw [BitVec.toNat_ofNat, BitVec.toNat_ofNat, Nat.mod_eq_of_lt (by omega),
    Nat.mod_eq_of_lt (by omega)] at hbits
  exact UInt8.toNat_inj.1 hbits

lemma foldl_byteStep_injective (data : List UInt8) :
    Function.Injective fun c => data.foldl (byteStep poly) c := by
  induction data with
  | nil => exact Function.injective_id
  | cons b data ih =>
    intro c d h
    exact byteStep_left_injective hpoly b (ih h)

/-- **A replaced byte changes the checksum.** -/
theorem crc_ne_of_replaced (hw : 8 ≤ w) (c : BitVec w) {a a' : List UInt8} (h : Replaced a a') :
    crc poly c a' ≠ crc poly c a := by
  obtain ⟨pre, b, b', post, hne, rfl, rfl⟩ := h
  intro heq
  unfold crc at heq
  rw [BitVec.not_inj, List.foldl_append, List.foldl_append, List.foldl_cons, List.foldl_cons] at heq
  have hstep := foldl_byteStep_injective hpoly post heq
  exact hne (byteStep_right_injective hpoly hw _ hstep).symm

end

end Crc
