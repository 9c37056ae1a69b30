import Mathlib.Data.List.DropRight
import Pqueue.Doctor.Receive
import Pqueue.Format.Checksum

/-!
# Lines on the wire

Both sides of the serial line agree on the checksum (`hostCrc32_eq`) and on the names, and each
line that the device prints does on the host what its tag says (`Receiver.host_handle`), unless the
host discards a file (`Receiver.host_discard`).
-/

namespace Pqueue

open LittleEndian

namespace Doctor

open Text

/-! ## The two checksums -/

lemma hostCrcStep_eq : hostCrcStep = Crc.byteStep crcPolynomial := by
  have hstep : (fun (c : BitVec 32) (_ : ℕ) => (c >>> 1) ^^^
      (if c &&& 1#32 ≠ 0#32 then 0xEDB88320#32 else 0#32)) =
        fun c _ => Crc.shift crcPolynomial c := by
    funext c _
    unfold Crc.shift
    simp only [ne_eq, and_one_eq_zero_iff]
    cases c.getLsbD 0 <;> rfl
  funext crc b
  unfold hostCrcStep
  rw [hstep]
  rfl

/-- **The checksums agree.** -/
lemma hostCrc32_eq (data : Bytes) : hostCrc32 data = crc32Update 0#32 data := by
  rw [crc32Update_eq_crc, hostCrc32, hostCrcStep_eq, Crc.crc,
    show (~~~0#32 : BitVec 32) = 0xFFFFFFFF#32 from rfl]
  generalize data.foldl (Crc.byteStep crcPolynomial) 0xFFFFFFFF#32 = crc
  exact BitVec.xor_allOnes

/-! ## Names -/

section

variable {name : FileName}

/-- The names that are dumped, part by part. -/
lemma isValidDumpName_cases (h : isValidDumpName name = true) :
    (∃ s : Slot, name = s.fileName) ∨ ∃ hex : Text, hex.length = 8 ∧
      hex.all isLowerHex = true ∧
      name = kSegmentPrefix ++ (hex ++ kSegmentSuffix) := by
  unfold isValidDumpName at h
  rcases of_decide_eq_true h with h | h | ⟨hlen, hpre, hsuf, hhex⟩
  · exact .inl ⟨.a, h⟩
  · exact .inl ⟨.b, h⟩
  · obtain ⟨rest, rfl⟩ := List.isPrefixOf_iff_prefix.1 hpre
    refine .inr ⟨rest.take 8, ?_, hhex, ?_⟩
    · simp only [List.length_append, kSegmentPrefix, List.length_cons, List.length_nil] at hlen
      rw [List.length_take]
      omega
    · have hrest : rest.length = 12 := by
        simp only [List.length_append, kSegmentPrefix, List.length_cons, List.length_nil] at hlen
        omega
      have hdrop : rest.drop 8 = kSegmentSuffix := by
        rw [← hsuf, List.take_of_length_le]
        · rfl
        · rw [List.length_drop, hlen]
      rw [← hdrop, List.take_append_drop]

lemma solid_of_hex {c : Char} (h : isLowerHex c = true) : isBlank c = false := by
  unfold isBlank
  simp only [List.mem_cons, List.not_mem_nil, or_false, decide_eq_false_iff_not]
  rintro (rfl | rfl | rfl | rfl | rfl | rfl | rfl | rfl | rfl | rfl) <;> revert h <;> decide

lemma solid_name (h : isValidDumpName name = true) : Solid name := by
  rcases isValidDumpName_cases h with ⟨s, rfl⟩ | ⟨hex, -, hhex, rfl⟩
  · cases s <;> decide
  · have hpre : Solid kSegmentPrefix := by decide
    have hsuf : Solid kSegmentSuffix := by decide
    intro c hc
    simp only [List.mem_append] at hc
    rcases hc with hc | hc | hc
    · exact hpre c hc
    · exact solid_of_hex (List.all_eq_true.1 hhex c hc)
    · exact hsuf c hc

lemma validateFilename_of_valid (h : isValidDumpName name = true) :
    validateFilename name = true := by
  rcases isValidDumpName_cases h with ⟨s, rfl⟩ | ⟨hex, hlen, hhex, rfl⟩
  · cases s <;> decide
  · have hlast : (kSegmentPrefix ++ (hex ++ kSegmentSuffix)).getLast? ≠ some '\n' := by
      simp [kSegmentSuffix]
    have htake : ((kSegmentPrefix ++ (hex ++ kSegmentSuffix)).drop 4).take 8 = hex :=
      List.take_left' hlen
    have hdrop : (kSegmentPrefix ++ (hex ++ kSegmentSuffix)).drop 12 = ".bin".toList := by
      rw [← List.append_assoc]
      apply List.drop_left'
      simp [hlen, kSegmentPrefix]
    unfold validateFilename
    simp only [if_neg hlast]
    refine decide_eq_true (.inr ⟨?_, rfl, ?_, hdrop⟩)
    · simp [hlen, kSegmentPrefix, kSegmentSuffix]
    · rw [htake]
      exact hhex

end

/-! ## Lines on the wire -/

/-- A line that neither side of the connection trims. -/
structure Printed (l : Text) : Prop where
  lineEnd : '\n' ∉ l
  last : ∃ front c, l = front ++ [c] ∧ isBlank c = false

lemma Printed.of_append {front l : Text} (hfront : '\n' ∉ front) (h : Printed l) :
    Printed (front ++ l) := by
  obtain ⟨init, c, rfl, hc⟩ := h.last
  refine ⟨?_, front ++ init, c, by simp, hc⟩
  rw [List.mem_append, not_or]
  exact ⟨hfront, h.lineEnd⟩

lemma Printed.of_solid {l : Text} (h : Solid l) (hne : l ≠ []) : Printed l := by
  constructor
  · intro hmem
    have := h '\n' hmem
    simp [isBlank] at this
  · exact ⟨l.dropLast, l.getLast hne, (List.dropLast_append_getLast hne).symm,
      h _ (List.getLast_mem hne)⟩

lemma Printed.ne_nil {l : Text} (h : Printed l) : l ≠ [] := by
  obtain ⟨front, c, rfl, -⟩ := h.last
  simp

/-- Either way to trim it takes the carriage returns off a line. -/
lemma Printed.trim {l : Text} (h : Printed l) {p : Char → Bool} (hcr : p '\r' = true)
    (hp : ∀ c, isBlank c = false → p c = false) (n : ℕ) :
    ((l ++ List.replicate n '\r').reverse.dropWhile p).reverse = l := by
  obtain ⟨front, c, rfl, hc⟩ := h.last
  have hall : ∀ d ∈ List.replicate n '\r', p d = true := by
    intro d hd
    rw [List.eq_of_mem_replicate hd, hcr]
  rw [List.reverse_append, List.reverse_replicate, List.dropWhile_append_of_pos hall]
  simp [hp c hc]

lemma Printed.rstrip {l : Text} (h : Printed l) (n : ℕ) :
    rstrip (l ++ List.replicate n '\r') = l := by
  apply h.trim (by simp)
  intro c hc
  rw [decide_eq_false_iff_not]
  rintro (rfl | rfl) <;> simp [isBlank] at hc

lemma printed_body {tag key key' : String} {value value' : Text}
    (htag : '\n' ∉ tag.toList ++ key.toList ++ key'.toList) (hv : Solid value)
    (hv' : Solid value') (hne : value' ≠ []) : Printed (body tag key value key' value') := by
  simp only [List.mem_append, not_or] at htag
  have hnl : '\n' ∉ value := by
    intro hmem
    have := hv '\n' hmem
    simp [isBlank] at this
  have hfront :
      '\n' ∉ tag.toList ++ (key.toList ++ '=' :: value) ++ ' ' :: key'.toList ++ ['='] := by
    simp [htag, hnl]
  have hbody : body tag key value key' value' =
      tag.toList ++ (key.toList ++ '=' :: value) ++ ' ' :: key'.toList ++ ['='] ++ value' := by
    simp [body, pair]
  rw [hbody]
  exact Printed.of_append hfront (Printed.of_solid hv' hne)

lemma lines_cons {l : Text} (hl : '\n' ∉ l) (text : Text) :
    lines (l ++ '\n' :: text) = l :: lines text := by
  unfold lines
  apply List.splitOnP_append_cons_of_forall_mem
  · intro c hc
    exact decide_eq_false fun h => hl (h ▸ hc)
  · rfl

/-! ## The host, line by line -/

namespace Receiver

/-- A file is open. -/
def opened (s : Receiver) (t : FileTransfer) : Receiver := { s with transfer := some t }

/-- The rest of the run over what arrives. -/
def host (s : Receiver) (text : Text) : Receiver := s.receiveFrom (dumpLines (lines text))

variable {s : Receiver} {l : Text}

lemma fileBegin_sawDumpEnd (kv : List (Text × Text)) :
    (s.fileBegin kv).sawDumpEnd = s.sawDumpEnd := by
  have hfail : (if s.transfer.isSome then s.fail else s).sawDumpEnd = s.sawDumpEnd := by
    split <;> rfl
  unfold fileBegin
  dsimp only
  generalize (if s.transfer.isSome then s.fail else s) = s' at hfail ⊢
  repeat' split
  all_goals exact hfail

lemma fileEnd_sawDumpEnd (kv : List (Text × Text)) :
    (s.fileEnd kv).sawDumpEnd = s.sawDumpEnd := by
  unfold fileEnd
  repeat' split
  all_goals rfl

/-- The end of the dump is seen in its line only. -/
lemma handle_sawDumpEnd (h : startsWith "DUMP_END ".toList l = false) :
    (s.handle l).sawDumpEnd = s.sawDumpEnd := by
  unfold handle
  rw [h]
  simp only [Bool.false_eq_true, if_false]
  split
  · split <;> rfl
  split
  · exact fileBegin_sawDumpEnd _
  split
  · exact fileEnd_sawDumpEnd _
  repeat' split
  all_goals rfl

lemma receive_of_printed (hl : Printed l) (n : ℕ) :
    s.receive (l ++ List.replicate n '\r') = match s.discardUntil with
    | some name =>
      if startsWith "FILE_END ".toList l ∧
          get (parseKv (l.drop 9)) "name".toList = some name then { s with discardUntil := none }
      else s
    | none => s.handle l := by
  unfold receive
  rw [hl.rstrip]
  exact if_neg hl.ne_nil

lemma receive_sawDumpEnd (hl : Printed l) (hend : startsWith "DUMP_END ".toList l = false)
    (n : ℕ) : (s.receive (l ++ List.replicate n '\r')).sawDumpEnd = s.sawDumpEnd := by
  rw [receive_of_printed hl]
  split
  · split <;> rfl
  · exact handle_sawDumpEnd hend

/-- A line that does not end the dump, with or without carriage returns. -/
lemma host_line_cr (hl : Printed l) (hend : startsWith "DUMP_END ".toList l = false)
    (hsaw : s.sawDumpEnd = false) (n : ℕ) (text : Text) :
    s.host (l ++ List.replicate n '\r' ++ '\n' :: text) =
      (s.receive (l ++ List.replicate n '\r')).host text := by
  have hnl : '\n' ∉ l ++ List.replicate n '\r' := by
    rw [List.mem_append, not_or]
    refine ⟨hl.lineEnd, fun h => ?_⟩
    have := List.eq_of_mem_replicate h
    simp at this
  unfold host
  rw [lines_cons hnl, dumpLines, hl.trim (by decide) (fun c hc => hc), hend]
  simp only [Bool.false_eq_true, if_false]
  rw [receiveFrom, if_neg (by simp [receive_sawDumpEnd hl hend, hsaw])]

lemma host_nil : s.host [] = s := by
  have hreceive : s.receive [] = s := rfl
  have hlines : dumpLines (lines []) = [[]] := by decide
  unfold host
  rw [hlines, receiveFrom, hreceive]
  split <;> rfl

/-! ### While no file is discarded -/

section

variable (hdiscard : s.discardUntil = none) (hsaw : s.sawDumpEnd = false)
include hdiscard hsaw

lemma host_handle (hl : Printed l) (hend : startsWith "DUMP_END ".toList l = false)
    (text : Text) : s.host (l ++ '\n' :: text) = (s.handle l).host text := by
  have h := host_line_cr hl hend hsaw 0 text
  simp only [List.replicate_zero, List.append_nil] at h
  rw [h]
  have hreceive := receive_of_printed (s := s) hl 0
  simp only [List.replicate_zero, List.append_nil, hdiscard] at hreceive
  rw [hreceive]

end

/-! ### While a file is discarded -/

/-- Only the end of the discarded file makes a difference. -/
lemma host_discard {name : FileName} (hdiscard : s.discardUntil = some name)
    (hsaw : s.sawDumpEnd = false) (hl : Printed l)
    (hend : startsWith "DUMP_END ".toList l = false)
    (hother : startsWith "FILE_END ".toList l = true →
      get (parseKv (l.drop 9)) "name".toList ≠ some name) (text : Text) :
    s.host (l ++ '\n' :: text) = s.host text := by
  have h := host_line_cr hl hend hsaw 0 text
  simp only [List.replicate_zero, List.append_nil] at h
  rw [h]
  have hreceive := receive_of_printed (s := s) hl 0
  simp only [List.replicate_zero, List.append_nil, hdiscard] at hreceive
  rw [hreceive, if_neg]
  rintro ⟨hfile, hname⟩
  exact hother hfile hname

/-! ### Line by line -/

section

variable {v v' : Text} (hv : Solid v) (hv' : Solid v')
include hv hv'

/-- The fields of a line. -/
lemma parseKv_body {tag key key' : String}
    (hkeys : (key.toList ++ key'.toList).all (fun c => !isBlank c && c != '=') = true) (n : ℕ)
    (hn : tag.toList.length = n) : parseKv ((body tag key v key' v').drop n) =
      [(key.toList, v), (key'.toList, v')] := by
  obtain ⟨hkey, hlast⟩ : (∀ c ∈ key.toList, isBlank c = false ∧ c ≠ '=') ∧
      ∀ c ∈ key'.toList, isBlank c = false ∧ c ≠ '=' := by simpa using hkeys
  unfold body
  rw [List.drop_left' hn]
  apply parseKv_pairs (fun c hc => (hkey c hc).1) hv (fun c hc => (hlast c hc).1) hv'
  · exact fun h => (hkey '=' h).2 rfl
  · exact fun h => (hlast '=' h).2 rfl

lemma handle_fileBegin : s.handle (body "FILE_BEGIN " "name" v "size" v') =
    s.fileBegin [("name".toList, v), ("size".toList, v')] := by
  have hkv : parseKv ((body "FILE_BEGIN " "name" v "size" v').drop 11) = _ :=
    parseKv_body hv hv' (by decide) 11 rfl
  unfold handle
  rw [if_neg (by simp [body]), if_neg (by simp [body, startsWith]),
    if_pos (by simp [body, startsWith]), hkv]

lemma handle_fileEnd : s.handle (body "FILE_END " "name" v "crc" v') =
    s.fileEnd [("name".toList, v), ("crc".toList, v')] := by
  have hkv : parseKv ((body "FILE_END " "name" v "crc" v').drop 9) = _ :=
    parseKv_body hv hv' (by decide) 9 rfl
  unfold handle
  rw [if_neg (by simp [body]), if_neg (by simp [body, startsWith]),
    if_neg (by simp [body, startsWith]),
    if_pos (by simp [body, startsWith]), hkv]

lemma get_fileEnd :
    get (parseKv ((body "FILE_END " "name" v "crc" v').drop 9)) "name".toList = some v := by
  have hkv : parseKv ((body "FILE_END " "name" v "crc" v').drop 9) = _ :=
    parseKv_body hv hv' (by decide) 9 rfl
  rw [hkv]
  rfl

lemma handle_dumpEnd : s.handle (body "DUMP_END " "files" v "errors" v') =
    { s with sawDumpEnd := true, ok := s.ok ∧ v' = ['0'] } := by
  have hkv : parseKv ((body "DUMP_END " "files" v "errors" v').drop 9) = _ :=
    parseKv_body hv hv' (by decide) 9 rfl
  unfold handle
  rw [if_neg (by simp [body]), if_pos (by simp [body, startsWith]), hkv]
  rfl

end

lemma handle_fileError (v v' : Text) :
    s.handle (body "FILE_ERROR " "name" v "message" v') = s.fail := by
  unfold handle
  rw [if_neg (by simp [body]), if_neg (by simp [body, startsWith]),
    if_neg (by simp [body, startsWith]), if_neg (by simp [body, startsWith]),
    if_pos (by simp [body, startsWith])]

/-- No line of bytes starts like another line. -/
lemma startsWith_toHex (data : Bytes) {c : Char} (hc : c ∈ ['D', 'F', 'L']) (tag : Text) :
    startsWith (c :: tag) (toHex data) = false := by
  unfold startsWith
  rcases hhex : toHex data with _ | ⟨d, rest⟩
  · rfl
  · obtain ⟨n, hn, rfl⟩ := mem_toHex (hhex ▸ List.mem_cons_self)
    have hne : c ≠ Nat.digitChar n := by
      rintro rfl
      have := (digitChar_facts hn).2
      simp only [List.mem_cons, List.not_mem_nil, or_false, not_or] at this hc
      tauto
    rw [List.isPrefixOf_cons_cons, beq_eq_false_iff_ne.2 hne, Bool.false_and]

lemma handle_hex (s : Receiver) (t : FileTransfer) (data : Bytes) :
    (s.opened t).handle (toHex data) = s.opened { t with data := t.data ++ data } := by
  have hstart : ∀ c ∈ ['D', 'F', 'L'], ∀ tag, startsWith (c :: tag) (toHex data) = false :=
    fun c hc tag => startsWith_toHex data hc tag
  have hbegin : toHex data ≠ "DUMP_BEGIN".toList := by
    intro h
    have := hstart 'D' (by decide) "UMP_BEGIN".toList
    rw [h] at this
    revert this
    decide
  unfold handle
  rw [if_neg hbegin, show "DUMP_END ".toList = 'D' :: "UMP_END ".toList from rfl,
    show "FILE_BEGIN ".toList = 'F' :: "ILE_BEGIN ".toList from rfl,
    show "FILE_END ".toList = 'F' :: "ILE_END ".toList from rfl,
    show "FILE_ERROR ".toList = 'F' :: "ILE_ERROR ".toList from rfl,
    show "LIST_ERROR ".toList = 'L' :: "IST_ERROR ".toList from rfl]
  simp only [hstart _ (by decide : 'D' ∈ ['D', 'F', 'L']),
    hstart _ (by decide : 'F' ∈ ['D', 'F', 'L']), hstart _ (by decide : 'L' ∈ ['D', 'F', 'L']),
    Bool.false_eq_true, if_false, opened, fromHex_toHex]

/-- The host opens the file, or discards it. -/
lemma fileBegin_of_valid {name : FileName} (hname : isValidDumpName name = true)
    (htransfer : s.transfer = none) (size : ℕ) :
    s.fileBegin [("name".toList, name), ("size".toList, decimal size)] =
      if size ≤ MAX_FILE_SIZE then s.opened { name := name, expectedSize := (size : ℤ) }
      else s.discard name := by
  have hget : ∀ v v' : Text, get [("name".toList, v), ("size".toList, v')] "name".toList = some v ∧
      get [("name".toList, v), ("size".toList, v')] "size".toList = some v' := by
    intro v v'
    constructor <;> rfl
  unfold fileBegin
  simp only [htransfer, Option.isSome_none, Bool.false_eq_true, if_false, hget,
    Option.getD_some, validateFilename_of_valid hname, Bool.true_eq_false, pyInt_decimal]
  by_cases hsize : size ≤ MAX_FILE_SIZE
  · rw [if_pos hsize, if_neg (by omega)]
    rfl
  · rw [if_neg hsize, if_pos (by omega)]

lemma fileEnd_of_open (s : Receiver) {t : FileTransfer}
    (hsize : (t.data.length : ℤ) = t.expectedSize) :
    (s.opened t).fileEnd [("name".toList, t.name),
        ("crc".toList, formatGeneration (crc32Update 0#32 t.data).toNat)] =
      { s with transfer := none, written := s.written ++ [(t.name, t.data)] } := by
  have hget : ∀ v v' : Text, get [("name".toList, v), ("crc".toList, v')] "name".toList = some v ∧
      get [("name".toList, v), ("crc".toList, v')] "crc".toList = some v' := by
    intro v v'
    constructor <;> rfl
  unfold fileEnd FileTransfer.verify
  simp only [opened, hget, Option.getD_some, ne_eq, not_true_eq_false, if_false, hsize,
    decide_true, pyInt_formatGeneration (BitVec.isLt _), hostCrc32_eq, Bool.and_self,
    Bool.true_eq_false]

end Receiver

end Doctor

end Pqueue
