import Mathlib.Data.List.TakeWhile
import Mathlib.Data.Nat.Digits.Lemmas
import Pqueue.Bytes.LittleEndian

/-!
# The text of a lock file

`lock_owner.cpp` and `makeLockContents` of `queue.cpp`.  The owner of a lock writes its process id
on a line of its own, and whoever finds the file parses it out of the text again.

A file may have been cut anywhere, because it is created empty and filled afterwards.
`lockPid_take` says what the parser makes of every cut: nothing at all up to and including `pid=`,
and from there on the number that the digits written so far spell, which is the process id only
when all of them are there.
-/

namespace Pqueue

open LittleEndian

/-- Text, as the bytes it is stored in. -/
def ascii (cs : List Char) : Bytes := cs.map fun c => UInt8.ofNat c.toNat

def newline : UInt8 := 10

namespace LockDetail

/-! ## Parsing -/

/-- What follows the first occurrence of `key`: `std::string::find`. -/
def findAfter (key : Bytes) : Bytes → Option Bytes
  | [] => if key = [] then some [] else none
  | b :: rest =>
    if key.isPrefixOf (b :: rest) then some ((b :: rest).drop key.length) else findAfter key rest

def lockValue (contents key : Bytes) : Bytes :=
  match findAfter (key ++ ascii ['=']) contents with
  | none => []
  | some rest => rest.takeWhile (· ≠ newline)

/-- `c_str`: a C function sees a string up to its first zero byte. -/
def cString (s : Bytes) : Bytes := s.takeWhile (· ≠ 0)

/-- `isspace`. -/
def isSpace (b : UInt8) : Bool := b = 32 ∨ (9 ≤ b ∧ b ≤ 13)

def isDigit (b : UInt8) : Bool := 48 ≤ b ∧ b ≤ 57

/-- The number that decimal digits spell. -/
def decimalValue (digits : Bytes) : ℕ := digits.foldl (fun n b => 10 * n + (b.toNat - 48)) 0

/-- A sign, and the rest. -/
def readSign : Bytes → ℤ × Bytes
  | 43 :: rest => (1, rest)
  | 45 :: rest => (-1, rest)
  | s => (1, s)

/-- `strtol` in base 10, for a 64-bit `long`: the value, clamped, and where it stopped.  Without
digits nothing is consumed. -/
def strtol (s : Bytes) : ℤ × Bytes :=
  let (sign, rest) := readSign (s.dropWhile isSpace)
  let digits := rest.takeWhile isDigit
  if digits = [] then (0, s)
  else (max (-2 ^ 63) (min (2 ^ 63 - 1) (sign * decimalValue digits)), rest.dropWhile isDigit)

def lockPid (contents : Bytes) : ℤ :=
  let value := lockValue contents (ascii ['p', 'i', 'd'])
  if value = [] then -1
  else
    let (pid, parsedEnd) := strtol (cString value)
    if parsedEnd = cString value ∨ parsedEnd ≠ [] then -1 else pid

end LockDetail

open LockDetail

/-! ## The text -/

/-- Decimal digits, as a stream prints them. -/
def LockDetail.decimal (n : ℕ) : Bytes :=
  if n = 0 then [48] else ((Nat.digits 10 n).map fun d => UInt8.ofNat (48 + d)).reverse

/-- The text in front of the process id. -/
def lockHeader : Bytes :=
  ascii ['p', 'q', 'u', 'e', 'u', 'e', '-', 'l', 'o', 'c', 'k', '-', 'v', '2', '\n', 'o', 'w', 'n',
    'e', 'r', '=', 'q', 'u', 'e', 'u', 'e', '\n', 'p', 'i', 'd', '=']

/-- `makeLockContents` of a process, with the boot id and the token as they come out. -/
def makeLockContents (pid : ℕ) (bootId token : Bytes) : Bytes :=
  lockHeader ++ (decimal pid ++ (newline :: (ascii ['b', 'o', 'o', 't', '_', 'i', 'd', '='] ++
    (bootId ++ (newline :: (ascii ['t', 'o', 'k', 'e', 'n', '='] ++ (token ++ [newline])))))))

/-! ## What the parser makes of it -/

lemma length_lockHeader : lockHeader.length = 31 := rfl

lemma findAfter_header (rest : Bytes) :
    findAfter (ascii ['p', 'i', 'd'] ++ ascii ['=']) (lockHeader ++ rest) = some rest := rfl

/-- Nothing is read from a file that was cut before the first digit. -/
lemma lockPid_take_header {n : ℕ} (hn : n ≤ lockHeader.length) :
    lockPid (lockHeader.take n) = -1 := by
  have hall : ∀ m < 32, lockPid (lockHeader.take m) = -1 := by decide +kernel
  exact hall n (by rw [length_lockHeader] at hn; omega)

lemma isDigit_of_lt {d : ℕ} (hd : d < 10) :
    isDigit (UInt8.ofNat (48 + d)) = true ∧ (UInt8.ofNat (48 + d)).toNat - 48 = d := by
  have hall : ∀ e < 10, isDigit (UInt8.ofNat (48 + e)) = true ∧
      (UInt8.ofNat (48 + e)).toNat - 48 = e := by decide
  exact hall d hd

lemma LockDetail.isDigit_decimal {n : ℕ} : ∀ b ∈ decimal n, isDigit b = true := by
  intro b hb
  unfold decimal at hb
  split at hb
  · simp only [List.mem_singleton] at hb
    rw [hb]
    rfl
  · obtain ⟨d, hd, rfl⟩ := List.mem_map.mp (List.mem_reverse.mp hb)
    exact (isDigit_of_lt (Nat.digits_lt_base (by norm_num) hd)).1

/-- Digits are neither blanks, signs, zero bytes nor line ends. -/
lemma isDigit_facts {b : UInt8} (hb : isDigit b = true) :
    isSpace b = false ∧ b ≠ 0 ∧ b ≠ newline ∧ b ≠ 43 ∧ b ≠ 45 := by
  simp only [isDigit, decide_eq_true_eq, UInt8.le_iff_toNat_le] at hb
  obtain ⟨hlo, hhi⟩ := hb
  simp only [UInt8.reduceToNat] at hlo hhi
  have hne : ∀ c : UInt8, c.toNat < 48 → b ≠ c := by
    rintro c hc rfl
    omega
  refine ⟨?_, hne _ (by decide), hne _ (by decide), hne _ (by decide), hne _ (by decide)⟩
  simp only [isSpace, decide_eq_false_iff_not, not_or, not_and, UInt8.le_iff_toNat_le]
  refine ⟨hne _ (by decide), fun _ => ?_⟩
  simp only [UInt8.reduceToNat]
  omega

/-- The digits that were written spell the leading digits of the number. -/
lemma decimalValue_take {n : ℕ} (hn : 0 < n) (k : ℕ) :
    decimalValue ((decimal n).take k) = n / 10 ^ ((decimal n).length - k) := by
  have hlen : (decimal n).length = (Nat.digits 10 n).length := by
    simp [decimal, hn.ne']
  have hfold : ∀ ds : List ℕ, (∀ d ∈ ds, d < 10) →
      decimalValue ((ds.map fun d => UInt8.ofNat (48 + d)).reverse) = Nat.ofDigits 10 ds := by
    intro ds
    induction ds with
    | nil => exact fun _ => rfl
    | cons d ds ih =>
      intro hd
      have hrest := ih fun e he => hd e (List.mem_cons_of_mem _ he)
      unfold decimalValue at hrest ⊢
      rw [List.map_cons, List.reverse_cons, List.foldl_append, hrest, Nat.ofDigits_cons]
      simp only [List.foldl_cons, List.foldl_nil, (isDigit_of_lt (hd d List.mem_cons_self)).2]
      omega
  have htake : (decimal n).take k =
      (((Nat.digits 10 n).drop ((decimal n).length - k)).map
        fun d => UInt8.ofNat (48 + d)).reverse := by
    rw [hlen, decimal, if_neg hn.ne', List.take_reverse, List.length_map, List.map_drop]
  rw [htake, hfold, ← Nat.self_div_pow_eq_ofDigits_drop _ n (by norm_num)]
  exact fun d hd => Nat.digits_lt_base (by norm_num) (List.mem_of_mem_drop hd)

lemma decimal_ne_nil (n : ℕ) : decimal n ≠ [] := by
  unfold decimal
  split
  · exact List.cons_ne_nil _ _
  · next hn => simpa using Nat.digits_ne_nil_iff_ne_zero.mpr hn

/-- Leading digits spell a positive number. -/
lemma leading_pos {n k : ℕ} (hn : 0 < n) (hk : 0 < k) :
    0 < n / 10 ^ ((decimal n).length - k) := by
  have hlen : (decimal n).length = (Nat.digits 10 n).length := by
    simp [decimal, hn.ne']
  have hpow : 10 ^ (decimal n).length ≤ 10 * n := by
    rw [hlen]
    exact Nat.base_pow_length_digits_le 10 n (by norm_num) hn.ne'
  have hcut : 10 * 10 ^ ((decimal n).length - k) ≤ 10 ^ (decimal n).length := by
    rw [← pow_succ']
    refine Nat.pow_le_pow_right (by norm_num) ?_
    have := List.length_pos_iff.mpr (decimal_ne_nil n)
    omega
  exact Nat.div_pos (by omega) (by positivity)

/-- `strtol` on digits alone reads all of them. -/
lemma strtol_digits {ds : Bytes} (hd : ∀ b ∈ ds, isDigit b = true) (hne : ds ≠ [])
    (hlt : decimalValue ds < 2 ^ 63) : strtol ds = ((decimalValue ds : ℤ), []) := by
  obtain ⟨b, rest, rfl⟩ := List.exists_cons_of_ne_nil hne
  have hb := isDigit_facts (hd b List.mem_cons_self)
  have hspace : (b :: rest).dropWhile isSpace = b :: rest := by
    simp [hb.1]
  have hsign : readSign (b :: rest) = (1, b :: rest) := by
    unfold readSign
    split
    · next h => exact absurd (List.cons.inj h).1 hb.2.2.2.1
    · next h => exact absurd (List.cons.inj h).1 hb.2.2.2.2
    · rfl
  have htake : (b :: rest).takeWhile isDigit = b :: rest := List.takeWhile_eq_self_iff.mpr hd
  have hdrop : (b :: rest).dropWhile isDigit = [] := List.dropWhile_eq_nil_iff.mpr hd
  simp only [strtol, hspace, hsign, htake, hdrop, if_neg (List.cons_ne_nil b rest), one_mul,
    Prod.mk.injEq, and_true]
  omega

/-- The line of the process id, cut anywhere. -/
lemma takeWhile_line (pid k : ℕ) (rest : Bytes) :
    ((decimal pid ++ (newline :: rest)).take k).takeWhile (· ≠ newline) = (decimal pid).take k := by
  have hline : ∀ b ∈ (decimal pid).take k, decide (b ≠ newline) = true := fun b hb => by
    simpa using (isDigit_facts (isDigit_decimal b (List.mem_of_mem_take hb))).2.2.1
  rw [List.take_append, List.takeWhile_append_of_pos hline]
  cases hk : k - (decimal pid).length with
  | zero => simp
  | succ j => simp

/-- What the parser makes of a lock file cut after `n` bytes. -/
lemma lockPid_take {pid : ℕ} (hpid : 0 < pid) (hlt : pid < 2 ^ 63) (bootId token : Bytes) (n : ℕ) :
    lockPid ((makeLockContents pid bootId token).take n) =
      if n ≤ lockHeader.length then -1
      else ((pid / 10 ^ ((decimal pid).length - (n - lockHeader.length)) : ℕ) : ℤ) := by
  split
  · next hn =>
    rw [makeLockContents, List.take_append_of_le_length hn]
    exact lockPid_take_header hn
  · next hn =>
    rw [Nat.not_le] at hn
    have hk : 0 < n - lockHeader.length := by omega
    set k := n - lockHeader.length with hkdef
    have hvalue : lockValue ((makeLockContents pid bootId token).take n) (ascii ['p', 'i', 'd']) =
        (decimal pid).take k := by
      rw [makeLockContents, List.take_append, List.take_of_length_le hn.le, lockValue,
        findAfter_header]
      exact takeWhile_line pid k _
    have hdigits : ∀ b ∈ (decimal pid).take k, isDigit b = true :=
      fun b hb => isDigit_decimal b (List.mem_of_mem_take hb)
    have hne : (decimal pid).take k ≠ [] := by
      simpa [List.take_eq_nil_iff, hk.ne'] using decimal_ne_nil pid
    have hc : cString ((decimal pid).take k) = (decimal pid).take k :=
      List.takeWhile_eq_self_iff.mpr fun b hb => by simpa using (isDigit_facts (hdigits b hb)).2.1
    have hsmall : decimalValue ((decimal pid).take k) < 2 ^ 63 := by
      rw [decimalValue_take hpid]
      exact lt_of_le_of_lt (Nat.div_le_self _ _) hlt
    unfold lockPid
    rw [hvalue, if_neg hne, hc, strtol_digits hdigits hne hsmall]
    simp [hne, decimalValue_take hpid k]

/-- The parser reads back the process id of a complete lock file. -/
lemma lockPid_makeLockContents {pid : ℕ} (hpid : 0 < pid) (hlt : pid < 2 ^ 63)
    (bootId token : Bytes) : lockPid (makeLockContents pid bootId token) = pid := by
  have hcut := lockPid_take hpid hlt bootId token (makeLockContents pid bootId token).length
  have hlen : lockHeader.length + (decimal pid).length <
      (makeLockContents pid bootId token).length := by
    simp only [makeLockContents, List.length_append, List.length_cons]
    omega
  rw [List.take_length, if_neg (by omega), Nat.sub_eq_zero_of_le (by omega), pow_zero,
    Nat.div_one] at hcut
  exact hcut

end Pqueue
