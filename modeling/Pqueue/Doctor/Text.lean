import Mathlib.Data.Int.Notation
import Pqueue.Bytes.LittleEndian
import Pqueue.FileSystem.Names

/-!
# Lines of text

What the doctor tool does with the lines that come off the wire: the string methods of Python that
it uses, on ASCII text, and the texts that the device prints for numbers and bytes.  Each printed
form is read back (`pyInt_decimal`, `pyInt_formatGeneration`, `fromHex_toHex`).
-/

namespace Pqueue

open LittleEndian

/-- A string, as its characters. -/
abbrev Text := List Char

namespace Text

/-! ## Python's string methods -/

/-- `str.startswith`. -/
def startsWith (pre line : Text) : Bool := pre.isPrefixOf line

/-- The ASCII characters that `str.split` takes for blanks. -/
def isBlank (c : Char) : Bool :=
  c ∈ [' ', '\t', '\n', '\r', '\x0b', '\x0c', '\x1c', '\x1d', '\x1e', '\x1f']

/-- `str.split()`: the words between blanks. -/
def words (line : Text) : List Text := (line.splitOnP isBlank).filter (· ≠ [])

/-- `str.rstrip("\r\n")`. -/
def rstrip (line : Text) : Text :=
  (line.reverse.dropWhile fun c => c = '\r' ∨ c = '\n').reverse

/-- `parse_kv`: the words with an equals sign, split at the first one. -/
def parseKv (line : Text) : List (Text × Text) :=
  ((words line).filter fun part => '=' ∈ part).map fun part =>
    (part.takeWhile (· ≠ '='), (part.dropWhile (· ≠ '=')).drop 1)

/-- `dict.get`: what a key was last set to. -/
def get (kv : List (Text × Text)) (key : Text) : Option Text := kv.reverse.lookup key

/-- The value of a string of digits in the base, which has to have one at least. -/
def digits (base : ℕ) (s : Text) : Option ℕ :=
  if s = [] then none
  else s.foldl (fun value c => do
    let n ← value
    let d ← hexValue c
    if d < base then some (n * base + d) else none) (some 0)

/-- `int(s, base)`, on what the device prints.  Elsewhere Python takes more: underscores between
digits, a prefix such as `0x`, blanks and the separators 1c to 1f around them. -/
def pyInt (base : ℕ) : Text → Option ℤ
  | '-' :: s => (digits base s).map fun n => -(n : ℤ)
  | '+' :: s => (digits base s).map fun n => (n : ℤ)
  | s => (digits base s).map fun n => (n : ℤ)

/-- `bytes.fromhex`, on what the device prints: pairs of hexadecimal digits, with blanks between
them.  The separators 1c to 1f, which Python refuses here, are not printed. -/
def fromHex : Text → Option Bytes
  | [] => some []
  | c :: s =>
    if isBlank c then fromHex s
    else match s with
      | [] => none
      | c' :: s' => do
        let high ← hexValue c
        let low ← hexValue c'
        let rest ← fromHex s'
        return UInt8.ofNat (16 * high + low) :: rest

/-- `[0-9a-f]`. -/
def isLowerHex (c : Char) : Bool := ('0' ≤ c ∧ c ≤ '9') ∨ ('a' ≤ c ∧ c ≤ 'f')

/-! ## What the device prints -/

/-- `%llu` and `%d`, of a number that is not negative. -/
def decimal (n : ℕ) : Text := Nat.toDigits 10 n

/-- `toHex`. -/
def toHex (data : Bytes) : Text :=
  data.flatMap fun b => [Nat.digitChar (b.toNat / 16), Nat.digitChar (b.toNat % 16)]

/-! ## Words -/

lemma words_append {w : Text} (hw : ∀ c ∈ w, isBlank c = false) (hne : w ≠ []) (rest : Text) :
    words (w ++ ' ' :: rest) = w :: words rest := by
  unfold words
  rw [List.splitOnP_append_cons_of_forall_mem hw ' ' (by decide),
    List.filter_cons_of_pos (by simpa)]

lemma words_single {w : Text} (hw : ∀ c ∈ w, isBlank c = false) (hne : w ≠ []) :
    words w = [w] := by
  unfold words
  rw [List.splitOnP_eq_singleton hw, List.filter_cons_of_pos (by simpa), List.filter_nil]

/-- A pair as the device prints it. -/
def pair (key value : Text) : Text := key ++ '=' :: value

/-- A text that can stand in a pair without splitting it. -/
def Solid (s : Text) : Prop := ∀ c ∈ s, isBlank c = false

instance (s : Text) : Decidable (Solid s) := List.decidableBAll (isBlank · = false) s

lemma solid_pair {key value : Text} (hkey : Solid key) (hvalue : Solid value) :
    Solid (pair key value) := by
  intro c hc
  simp only [pair, List.mem_append, List.mem_cons] at hc
  rcases hc with hc | rfl | hc
  · exact hkey c hc
  · decide
  · exact hvalue c hc

lemma split_pair {key value : Text} (hkey : '=' ∉ key) :
    ((pair key value).takeWhile (· ≠ '='), ((pair key value).dropWhile (· ≠ '=')).drop 1) =
      (key, value) := by
  have hall : ∀ c ∈ key, decide (c ≠ '=') = true := by
    intro c hc
    exact decide_eq_true fun h => hkey (h ▸ hc)
  unfold pair
  rw [List.takeWhile_append_of_pos hall, List.dropWhile_append_of_pos hall]
  simp

/-- Two pairs with a blank between them are read as two pairs. -/
lemma parseKv_pairs {k v k' v' : Text} (hk : Solid k) (hv : Solid v) (hk' : Solid k')
    (hv' : Solid v') (hkey : '=' ∉ k) (hkey' : '=' ∉ k') :
    parseKv (pair k v ++ ' ' :: pair k' v') = [(k, v), (k', v')] := by
  have hne : ∀ a b : Text, pair a b ≠ [] := by
    intro a b
    simp [pair]
  have heq : ∀ a b : Text, '=' ∈ pair a b := by
    intro a b
    simp [pair]
  unfold parseKv
  rw [words_append (solid_pair hk hv) (hne _ _), words_single (solid_pair hk' hv') (hne _ _),
    List.filter_cons_of_pos (by simpa using heq k v),
    List.filter_cons_of_pos (by simpa using heq k' v'), List.filter_nil, List.map_cons,
    List.map_cons, List.map_nil, split_pair hkey, split_pair hkey']

/-! ## Numbers -/

/-- Digits in front of a last one. -/
lemma digits_append {base n d : ℕ} {s : Text} (hs : digits base s = some n) (hd : d < base)
    (h16 : d < 16) : digits base (s ++ [Nat.digitChar d]) = some (n * base + d) := by
  unfold digits at hs ⊢
  split at hs
  · simp at hs
  · rw [if_neg (by simp), List.foldl_append, hs]
    simp [hexValue_digitChar h16, hd]

lemma digits_decimal (n : ℕ) : digits 10 (decimal n) = some n := by
  unfold decimal
  induction n using Nat.strongRecOn with
  | _ n ih =>
    rw [Nat.toDigits_eq_if (by decide)]
    split
    · next hlt =>
      unfold digits
      simp [hexValue_digitChar (show n < 16 by omega), hlt]
    · next hge =>
      rw [digits_append (ih (n / 10) (by omega)) (Nat.mod_lt _ (by decide)) (by omega)]
      exact congrArg some (by omega)

/-- A digit is not a sign. -/
lemma pyInt_eq {base n : ℕ} {s : Text} (h : digits base s = some n) (hminus : s.head? ≠ some '-')
    (hplus : s.head? ≠ some '+') : pyInt base s = some (n : ℤ) := by
  unfold pyInt
  split
  · simp at hminus
  · simp at hplus
  · rw [h]
    rfl

lemma isDigit_decimal {n : ℕ} {c : Char} (h : c ∈ decimal n) : c.isDigit = true :=
  Nat.isDigit_of_mem_toDigits (by decide) (by decide) h

lemma solid_decimal (n : ℕ) : Solid (decimal n) := by
  intro c hc
  have hdigit := isDigit_decimal hc
  unfold isBlank
  simp only [List.mem_cons, List.not_mem_nil, or_false, decide_eq_false_iff_not]
  rintro (rfl | rfl | rfl | rfl | rfl | rfl | rfl | rfl | rfl | rfl) <;> simp at hdigit

lemma pyInt_decimal (n : ℕ) : pyInt 10 (decimal n) = some (n : ℤ) := by
  have hsign : ∀ c : Char, c.isDigit = false → (decimal n).head? ≠ some c := by
    intro c hc h
    have := isDigit_decimal (List.mem_of_head? h)
    simp [hc] at this
  exact pyInt_eq (digits_decimal n) (hsign _ (by decide)) (hsign _ (by decide))

/-- `"0"` is printed for zero only. -/
lemma decimal_eq_zero_iff {n : ℕ} : decimal n = ['0'] ↔ n = 0 := by
  constructor
  · intro h
    have hn := digits_decimal n
    rw [h] at hn
    exact (Option.some.inj (hn.symm.trans (by decide : digits 10 ['0'] = some 0)))
  · rintro rfl
    rfl

lemma digits_formatGeneration {n : ℕ} (h : n < 2 ^ 32) :
    digits 16 (formatGeneration n) = some n := by
  have hd : ∀ i, hexValue (Nat.digitChar (n / 16 ^ i % 16)) = some (n / 16 ^ i % 16) :=
    fun i => hexValue_digitChar (Nat.mod_lt _ (by decide))
  have hlt : ∀ i, n / 16 ^ i % 16 < 16 := fun i => Nat.mod_lt _ (by decide)
  simp only [digits, formatGeneration, List.map_cons, List.map_nil, reduceCtorEq, if_false,
    List.foldl_cons, List.foldl_nil, hd, hlt, if_true, Option.bind_eq_bind, Option.bind_some,
    Option.some.injEq]
  omega

/-- A hexadecimal digit of either kind that is printed. -/
lemma digitChar_facts {n : ℕ} (h : n < 16) :
    isBlank (Nat.digitChar n) = false ∧
      Nat.digitChar n ∉ ['-', '+', 'D', 'F', 'L', '\r', '\n'] := by
  have hall : ∀ m < 16, isBlank (Nat.digitChar m) = false ∧
      Nat.digitChar m ∉ ['-', '+', 'D', 'F', 'L', '\r', '\n'] := by decide
  exact hall n h

lemma pyInt_formatGeneration {n : ℕ} (h : n < 2 ^ 32) :
    pyInt 16 (formatGeneration n) = some (n : ℤ) := by
  have hhead : (formatGeneration n).head? = some (Nat.digitChar (n / 16 ^ 7 % 16)) := rfl
  have hfacts := (digitChar_facts (Nat.mod_lt (n / 16 ^ 7) (by decide : 16 > 0))).2
  refine pyInt_eq (digits_formatGeneration h) (fun hm => ?_) fun hp => ?_
  · rw [Option.some.inj (hhead.symm.trans hm)] at hfacts
    exact hfacts (by decide)
  · rw [Option.some.inj (hhead.symm.trans hp)] at hfacts
    exact hfacts (by decide)

lemma solid_formatGeneration (n : ℕ) : Solid (formatGeneration n) := by
  intro c hc
  obtain ⟨i, -, rfl⟩ := List.mem_map.1 hc
  exact (digitChar_facts (Nat.mod_lt _ (by decide))).1

/-! ## Bytes -/

lemma fromHex_toHex (data : Bytes) : fromHex (toHex data) = some data := by
  induction data with
  | nil => rfl
  | cons b data ih =>
    have hb := b.toNat_lt
    have hhigh : b.toNat / 16 < 16 := by omega
    have hlow : b.toNat % 16 < 16 := Nat.mod_lt _ (by decide)
    have hbyte : UInt8.ofNat (16 * (b.toNat / 16) + b.toNat % 16) = b := by
      rw [Nat.div_add_mod, UInt8.ofNat_toNat]
    unfold toHex at ih ⊢
    rw [List.flatMap_cons, List.cons_append, List.cons_append, List.nil_append, fromHex,
      (digitChar_facts hhigh).1]
    simp only [Bool.false_eq_true, if_false, hexValue_digitChar hhigh, hexValue_digitChar hlow, ih,
      Option.bind_eq_bind, Option.bind_some, Option.pure_def, hbyte]

/-- The characters of a line of bytes. -/
lemma mem_toHex {data : Bytes} {c : Char} (h : c ∈ toHex data) : ∃ n < 16, c = Nat.digitChar n := by
  obtain ⟨b, -, hc⟩ := List.mem_flatMap.1 h
  have hb := b.toNat_lt
  rcases List.mem_cons.1 hc with rfl | hc
  · exact ⟨_, by omega, rfl⟩
  · rw [List.mem_singleton] at hc
    exact ⟨_, Nat.mod_lt _ (by decide), hc⟩

end Text

end Pqueue
