import Pqueue.Doctor.Wire

/-!
# What a dump transfers

The host over the output of the device.  While no file is open the host is `Idle`; each file of
the dump leads it back there (`host_dumpFile`), except one that is larger than the host takes and
that the device fails to read to its end.  The host then waits for a line that does not come.
-/

namespace Pqueue

open LittleEndian

namespace Doctor

open Text

/-! ## What the device dumps -/

namespace Device

variable (dev : Device)

/-- The contents of a file whose size is told and all of whose reads succeed. -/
def dumped (name : FileName) : Option Bytes :=
  if dev.sizeFails name then none
  else (dev.content name).bind fun data =>
    if ∀ o < data.length, kDumpChunkBytes ∣ o → dev.readFails name o = false then some data
    else none

/-- The contents that the host takes. -/
def transferable (name : FileName) : Option Bytes :=
  (dev.dumped name).filter fun data => data.length ≤ MAX_FILE_SIZE

/-- A file that is announced as too large, and then not dumped to its end. -/
def brokenOff (name : FileName) : Bool := match dev.fileSize name with
  | none => false
  | some size => decide (MAX_FILE_SIZE < size) && (dev.dumped name).isNone

end Device

section

variable {dev : Device} {name : FileName}

def hexLine (chunk : Bytes) : Text := toHex chunk ++ ['\n']

/-- The text of a read error. -/
def readFailed (offset : ℕ) : Text := "read_failed_at_".toList ++ decimal offset

lemma dumpChunks_end {size fuel offset : ℕ} {crc : BitVec 32} (h : size ≤ offset) :
    dumpChunks dev name size fuel offset crc = ([], some crc) := by
  cases fuel with
  | zero => rfl
  | succ fuel => rw [dumpChunks, if_neg (Nat.not_lt.2 h)]

/-- One turn of the loop over the contents. -/
lemma dumpChunks_step {data : Bytes} (hcontent : dev.content name = some data) (fuel : ℕ)
    {offset : ℕ} (hlt : offset < data.length) (hread : dev.readFails name offset = false)
    (crc : BitVec 32) : ∃ chunk, chunk.length = min kDumpChunkBytes (data.length - offset) ∧
      chunk ++ data.drop (offset + chunk.length) = data.drop offset ∧
      dumpChunks dev name data.length (fuel + 1) offset crc =
        (hexLine chunk :: (dumpChunks dev name data.length fuel (offset + chunk.length)
            (crc32Update crc chunk)).1,
          (dumpChunks dev name data.length fuel (offset + chunk.length)
            (crc32Update crc chunk)).2) := by
  have hlen : ((data.drop offset).take (min kDumpChunkBytes (data.length - offset))).length =
      min kDumpChunkBytes (data.length - offset) := by
    rw [List.length_take, List.length_drop, min_assoc, min_self]
  have hreadAt : dev.readAt name offset (min kDumpChunkBytes (data.length - offset)) =
      some ((data.drop offset).take (min kDumpChunkBytes (data.length - offset))) := by
    unfold Device.readAt
    rw [hread, hcontent]
    simp only [Bool.false_eq_true, if_false, Option.bind_some, if_pos (min_le_right _ _)]
  refine ⟨(data.drop offset).take (min kDumpChunkBytes (data.length - offset)), hlen, ?_, ?_⟩
  · rw [hlen, ← List.drop_drop, List.take_append_drop]
  · rw [dumpChunks, if_pos hlt]
    simp only [hreadAt, hlen, ne_eq, not_true_eq_false, if_false]
    rfl

/-- The loop reads the contents to their end. -/
lemma dumpChunks_reads {data : Bytes} (hcontent : dev.content name = some data) (fuel : ℕ) :
    ∀ (offset : ℕ) (crc : BitVec 32), kDumpChunkBytes ∣ offset ∨ data.length ≤ offset →
      data.length ≤ offset + fuel →
      (∀ o, offset ≤ o → o < data.length → kDumpChunkBytes ∣ o →
        dev.readFails name o = false) →
      ∃ chunks : List Bytes, (∀ chunk ∈ chunks, chunk ≠ []) ∧
        chunks.flatten = data.drop offset ∧
        dumpChunks dev name data.length fuel offset crc =
          (chunks.map hexLine, some (crc32Update crc (data.drop offset))) := by
  induction fuel with
  | zero =>
    intro offset crc _ hfuel _
    have hcrc : crc32Update crc [] = crc := by
      unfold crc32Update crc32
      simp
    refine ⟨[], by simp, ?_, ?_⟩
    · rw [List.drop_eq_nil_of_le (by omega), List.flatten_nil]
    · rw [dumpChunks_end (by omega), List.drop_eq_nil_of_le (by omega), hcrc, List.map_nil]
  | succ fuel ih =>
    intro offset crc hdvd hfuel hreads
    by_cases hlt : offset < data.length
    · have hoffset : kDumpChunkBytes ∣ offset := by
        rcases hdvd with h | h
        · exact h
        · omega
      have hread := hreads offset le_rfl hlt hoffset
      obtain ⟨chunk, hlen, hdata, hstep⟩ := dumpChunks_step hcontent fuel hlt hread crc
      unfold kDumpChunkBytes at hlen hoffset hdvd ih
      obtain ⟨chunks, hchunks, hflat, hrest⟩ := ih (offset + chunk.length) (crc32Update crc chunk)
        (by omega) (by omega) fun o ho => hreads o (by omega)
      refine ⟨chunk :: chunks, ?_, ?_, ?_⟩
      · rw [List.forall_mem_cons, ← List.length_pos_iff]
        exact ⟨by omega, hchunks⟩
      · rw [List.flatten_cons, hflat, hdata]
      · rw [hstep, hrest, crc32Update_append, hdata, List.map_cons]
    · have hcrc : crc32Update crc [] = crc := by
        unfold crc32Update crc32
        simp
      refine ⟨[], by simp, ?_, ?_⟩
      · rw [List.drop_eq_nil_of_le (by omega), List.flatten_nil]
      · rw [dumpChunks_end (by omega), List.drop_eq_nil_of_le (by omega), hcrc, List.map_nil]

/-- The loop stops at the first read that fails. -/
lemma dumpChunks_fails {data : Bytes} (hcontent : dev.content name = some data) (fuel : ℕ) :
    ∀ (offset : ℕ) (crc : BitVec 32), kDumpChunkBytes ∣ offset ∨ data.length ≤ offset →
      data.length ≤ offset + fuel →
      (∃ o, offset ≤ o ∧ o < data.length ∧ kDumpChunkBytes ∣ o ∧
        dev.readFails name o = true) →
      ∃ (chunks : List Bytes) (o : ℕ), (∀ chunk ∈ chunks, chunk ≠ []) ∧
        dumpChunks dev name data.length fuel offset crc =
          (chunks.map hexLine ++ [line "FILE_ERROR " "name" name "message" (readFailed o)],
            none) := by
  induction fuel with
  | zero =>
    rintro offset crc - hfuel ⟨o, hle, hlt, -, -⟩
    omega
  | succ fuel ih =>
    rintro offset crc hdvd hfuel ⟨o, hle, hlt, ho, hfails⟩
    have hoffset : kDumpChunkBytes ∣ offset := by
      rcases hdvd with h | h
      · exact h
      · omega
    by_cases hread : dev.readFails name offset = true
    · refine ⟨[], offset, by simp, ?_⟩
      have hreadAt : dev.readAt name offset (min kDumpChunkBytes (data.length - offset)) =
          none := by
        unfold Device.readAt
        rw [if_pos hread]
      rw [dumpChunks, if_pos (by omega)]
      simp only [hreadAt, List.map_nil, List.nil_append]
      rfl
    · have hread' : dev.readFails name offset = false := Bool.eq_false_of_not_eq_true hread
      obtain ⟨chunk, hlen, hdata, hstep⟩ :=
        dumpChunks_step hcontent fuel (hle.trans_lt hlt) hread' crc
      have hne : o ≠ offset := by
        rintro rfl
        exact hread hfails
      unfold kDumpChunkBytes at hlen hoffset ho ih
      obtain ⟨chunks, o', hchunks, hrest⟩ := ih (offset + chunk.length) (crc32Update crc chunk)
        (by omega) (by omega) ⟨o, by omega, hlt, ho, hfails⟩
      refine ⟨chunk :: chunks, o', ?_, ?_⟩
      · rw [List.forall_mem_cons, ← List.length_pos_iff]
        exact ⟨by omega, hchunks⟩
      · rw [hstep, hrest, List.map_cons, List.cons_append]

end

/-! ## The host over one file -/

namespace Receiver

/-- No file is open, and none is discarded. -/
structure Idle (s : Receiver) : Prop where
  transfer : s.transfer = none
  discardUntil : s.discardUntil = none
  sawDumpEnd : s.sawDumpEnd = false

/-- The state in which a file leaves the host that was idle. -/
def after (dev : Device) (s : Receiver) (name : FileName) : Receiver :=
  match dev.transferable name with
  | some data => { s with written := s.written ++ [(name, data)] }
  | none => { s with
      ok := false
      discardUntil := if dev.brokenOff name then some name else none }

variable {dev : Device} {s : Receiver} {name : FileName}

lemma printed_hex {chunk : Bytes} (hne : chunk ≠ []) : Printed (toHex chunk) := by
  apply Printed.of_solid
  · intro c hc
    obtain ⟨n, hn, rfl⟩ := mem_toHex hc
    exact (digitChar_facts hn).1
  · obtain ⟨b, rest, rfl⟩ := List.exists_cons_of_ne_nil hne
    simp [toHex]

lemma output_hexLines (chunk : Bytes) (chunks : List Bytes) (text : Text) :
    ((chunk :: chunks).map hexLine).flatten ++ text =
      toHex chunk ++ '\n' :: ((chunks.map hexLine).flatten ++ text) := by
  simp [hexLine]

lemma host_chunks {chunks : List Bytes} (hchunks : ∀ chunk ∈ chunks, chunk ≠ [])
    (hdiscard : s.discardUntil = none) (hsaw : s.sawDumpEnd = false) (text : Text)
    (t : FileTransfer) : (s.opened t).host ((chunks.map hexLine).flatten ++ text) =
      (s.opened { t with data := t.data ++ chunks.flatten }).host text := by
  induction chunks generalizing t with
  | nil => simp only [List.map_nil, List.flatten_nil, List.nil_append, List.append_nil]
  | cons chunk chunks ih =>
    rw [List.forall_mem_cons] at hchunks
    have hend := startsWith_toHex chunk (by decide : 'D' ∈ ['D', 'F', 'L'])
      "UMP_END ".toList
    have hline := host_handle (s := s.opened t) hdiscard hsaw (printed_hex hchunks.1) hend
    rw [output_hexLines, hline, handle_hex, ih hchunks.2]
    simp only [List.flatten_cons, List.append_assoc]

lemma host_chunks_discard {chunks : List Bytes} (hchunks : ∀ chunk ∈ chunks, chunk ≠ [])
    {discarded : FileName} (hdiscard : s.discardUntil = some discarded)
    (hsaw : s.sawDumpEnd = false) (text : Text) :
    s.host ((chunks.map hexLine).flatten ++ text) = s.host text := by
  induction chunks with
  | nil => rfl
  | cons chunk chunks ih =>
    rw [List.forall_mem_cons] at hchunks
    have hend := startsWith_toHex chunk (by decide : 'D' ∈ ['D', 'F', 'L'])
      "UMP_END ".toList
    have hother := startsWith_toHex chunk (by decide : 'F' ∈ ['D', 'F', 'L'])
      "ILE_END ".toList
    have hskip := host_discard hdiscard hsaw (printed_hex hchunks.1) hend
      (fun h => absurd (hother.symm.trans h) (by decide)) ((chunks.map hexLine).flatten ++ text)
    rw [output_hexLines, hskip, ih hchunks.2]

end Receiver

/-- What a line is followed by. -/
lemma line_append (tag key : String) (value : Text) (key' : String) (value' text : Text) :
    line tag key value key' value' ++ text = body tag key value key' value' ++ '\n' :: text := by
  simp [line]

/-- A file that is announced: chunks follow, and one more line. -/
def announced (name : FileName) (size : ℕ) (chunks : List Bytes) (last : Text) : List Text :=
  line "FILE_BEGIN " "name" name "size" (decimal size) :: (chunks.map hexLine ++ [last])

lemma output_announced (name : FileName) (size : ℕ) (chunks : List Bytes) (last text : Text) :
    output (announced name size chunks last) ++ text =
      line "FILE_BEGIN " "name" name "size" (decimal size) ++
        ((chunks.map hexLine).flatten ++ (last ++ text)) := by
  simp [output, announced]

/-- The shapes of a file on the wire: it is not announced, or it is and the last line is either
its end or an error. -/
lemma dumpFile_cases (dev : Device) {name : FileName} (hname : isValidDumpName name = true) :
    (dev.fileSize name = none ∧ dev.dumped name = none ∧ dumpFile dev name =
      ([line "FILE_ERROR " "name" name "message" "filesize_failed".toList], false)) ∨
    ∃ (data : Bytes) (chunks : List Bytes), dev.fileSize name = some data.length ∧
      (∀ chunk ∈ chunks, chunk ≠ []) ∧
      ((dev.dumped name = some data ∧ chunks.flatten = data ∧ dumpFile dev name =
          (announced name data.length chunks (line "FILE_END " "name" name "crc"
            (formatGeneration (crc32Update 0#32 data).toNat)), true)) ∨
        ∃ o, dev.dumped name = none ∧ dumpFile dev name =
          (announced name data.length chunks
            (line "FILE_ERROR " "name" name "message" (readFailed o)), false)) := by
  have hvalid : ¬isValidDumpName name = false := by simp [hname]
  by_cases hsize : dev.sizeFails name = true
  · have hnone : dev.fileSize name = none := by
      unfold Device.fileSize
      rw [if_pos hsize]
    refine .inl ⟨hnone, ?_, ?_⟩
    · unfold Device.dumped
      rw [if_pos hsize]
    · unfold dumpFile
      rw [if_neg hvalid]
      simp only [hnone]
  cases hcontent : dev.content name with
  | none =>
    have hnone : dev.fileSize name = none := by
      unfold Device.fileSize
      rw [if_neg hsize, hcontent, Option.map_none]
    refine .inl ⟨hnone, ?_, ?_⟩
    · unfold Device.dumped
      rw [if_neg hsize, hcontent, Option.bind_none]
    · unfold dumpFile
      rw [if_neg hvalid]
      simp only [hnone]
  | some data =>
    have hsome : dev.fileSize name = some data.length := by
      unfold Device.fileSize
      rw [if_neg hsize, hcontent, Option.map_some]
    have hdumped : dev.dumped name =
        if ∀ o < data.length, kDumpChunkBytes ∣ o → dev.readFails name o = false then some data
        else none := by
      unfold Device.dumped
      rw [if_neg hsize, hcontent, Option.bind_some]
    right
    by_cases hreads : ∀ o < data.length, kDumpChunkBytes ∣ o → dev.readFails name o = false
    · obtain ⟨chunks, hchunks, hflat, hrun⟩ := dumpChunks_reads hcontent data.length 0 0#32
        (.inl ⟨0, rfl⟩) (by omega) fun o _ => hreads o
      refine ⟨data, chunks, hsome, hchunks, .inl ⟨?_, hflat, ?_⟩⟩
      · rw [hdumped, if_pos hreads]
      · unfold dumpFile
        rw [if_neg hvalid]
        simp only [hsome, hrun, List.drop_zero, announced]
    · have hfails : ∃ o, 0 ≤ o ∧ o < data.length ∧ kDumpChunkBytes ∣ o ∧
          dev.readFails name o = true := by
        simp only [not_forall, Bool.not_eq_false] at hreads
        obtain ⟨o, hlt, hdvd, hread⟩ := hreads
        exact ⟨o, Nat.zero_le o, hlt, hdvd, hread⟩
      obtain ⟨chunks, o, hchunks, hrun⟩ := dumpChunks_fails hcontent data.length 0 0#32
        (.inl ⟨0, rfl⟩) (by omega) hfails
      refine ⟨data, chunks, hsome, hchunks, .inr ⟨o, ?_, ?_⟩⟩
      · rw [hdumped, if_neg hreads]
      · unfold dumpFile
        rw [if_neg hvalid]
        simp only [hsome, hrun, announced]

namespace Receiver

section

variable {dev : Device} {s : Receiver} {name : FileName} (hname : isValidDumpName name = true)
include hname

lemma printed_fileBegin (size : ℕ) :
    Printed (body "FILE_BEGIN " "name" name "size" (decimal size)) :=
  printed_body (by decide) (solid_name hname) (solid_decimal size) (Nat.toDigits_ne_nil)

lemma printed_fileEnd (crc : BitVec 32) :
    Printed (body "FILE_END " "name" name "crc" (formatGeneration crc.toNat)) :=
  printed_body (by decide) (solid_name hname) (solid_formatGeneration _)
    (by simp [formatGeneration])

lemma printed_fileError {message : Text} (hsolid : Solid message) (hne : message ≠ []) :
    Printed (body "FILE_ERROR " "name" name "message" message) :=
  printed_body (by decide) (solid_name hname) hsolid hne

omit hname in
lemma solid_readFailed (o : ℕ) : Solid (readFailed o) ∧ readFailed o ≠ [] := by
  have htext : Solid "read_failed_at_".toList := by decide
  unfold readFailed
  constructor
  · intro c hc
    rcases List.mem_append.1 hc with hc | hc
    · exact htext c hc
    · exact solid_decimal o c hc
  · exact List.append_ne_nil_of_left_ne_nil (by decide) _

lemma host_fileBegin (hidle : s.Idle) (size : ℕ) (text : Text) :
    s.host (line "FILE_BEGIN " "name" name "size" (decimal size) ++ text) =
      (if size ≤ MAX_FILE_SIZE then s.opened { name := name, expectedSize := (size : ℤ) }
      else s.discard name).host text := by
  rw [line_append,
    host_handle hidle.discardUntil hidle.sawDumpEnd (printed_fileBegin hname size) rfl,
    handle_fileBegin (solid_name hname) (solid_decimal size),
    fileBegin_of_valid hname hidle.transfer]

/-- An error ends the file that is open. -/
lemma host_fileError {message : Text} (hsolid : Solid message) (hne : message ≠ [])
    (hdiscard : s.discardUntil = none) (hsaw : s.sawDumpEnd = false) (text : Text) :
    s.host (line "FILE_ERROR " "name" name "message" message ++ text) = s.fail.host text := by
  rw [line_append, host_handle hdiscard hsaw (printed_fileError hname hsolid hne) rfl,
    handle_fileError]

/-- The host that discards a file does not see an error. -/
lemma host_fileError_discard {discarded : FileName} {message : Text} (hsolid : Solid message)
    (hne : message ≠ []) (hdiscard : s.discardUntil = some discarded)
    (hsaw : s.sawDumpEnd = false) (text : Text) :
    s.host (line "FILE_ERROR " "name" name "message" message ++ text) = s.host text := by
  rw [line_append]
  apply host_discard hdiscard hsaw (printed_fileError hname hsolid hne) rfl
  intro h
  simp [body, startsWith] at h

/-- It does see the end of the file that it discards. -/
lemma host_fileEnd_discard (hdiscard : s.discardUntil = some name) (hsaw : s.sawDumpEnd = false)
    (crc : BitVec 32) (text : Text) :
    s.host (line "FILE_END " "name" name "crc" (formatGeneration crc.toNat) ++ text) =
      { s with discardUntil := none }.host text := by
  have hprinted := printed_fileEnd hname crc
  have hget := get_fileEnd (solid_name hname) (solid_formatGeneration crc.toNat)
  have h := host_line_cr hprinted rfl hsaw 0 text
  have hreceive := receive_of_printed (s := s) hprinted 0
  simp only [List.replicate_zero, List.append_nil, hdiscard] at h hreceive
  rw [line_append, h, hreceive, if_pos ⟨by simp [body, startsWith], hget⟩]

/-- **A file leads the idle host to where `after` says.** -/
lemma host_dumpFile (hidle : s.Idle) (text : Text) :
    s.host (output (dumpFile dev name).1 ++ text) = (s.after dev name).host text := by
  obtain ⟨htransfer, hdiscard, hsaw⟩ := hidle
  rcases dumpFile_cases dev hname with ⟨hsize, hdumped, hfile⟩ |
    ⟨data, chunks, hsize, hchunks, hshape⟩
  · have hafter : s.after dev name = s.fail := by
      unfold after Device.transferable Device.brokenOff fail
      rw [hdumped, hsize, Option.filter_none]
      simp [← hdiscard, ← htransfer]
    rw [hfile, hafter]
    simp only [output, List.flatten_cons, List.flatten_nil, List.append_nil]
    exact host_fileError hname (by decide) (by decide) hdiscard hsaw text
  have hbegin := host_fileBegin hname ⟨htransfer, hdiscard, hsaw⟩ data.length
  by_cases hmax : data.length ≤ MAX_FILE_SIZE
  · -- the file is open while its chunks arrive
    have hbroken : dev.brokenOff name = false := by
      unfold Device.brokenOff
      rw [hsize]
      simp [Nat.not_lt.2 hmax]
    simp only [if_pos hmax] at hbegin
    rcases hshape with ⟨hdumped, hflat, hfile⟩ | ⟨o, hdumped, hfile⟩
    · have hafter : s.after dev name = { s with written := s.written ++ [(name, data)] } := by
        unfold after Device.transferable
        rw [hdumped, Option.filter_some, if_pos (by simpa using hmax)]
      have hend := host_handle (s := s.opened
        { name := name, expectedSize := (data.length : ℤ), data := data }) hdiscard hsaw
        (printed_fileEnd hname (crc32Update 0#32 data)) rfl text
      rw [hfile, output_announced, hbegin, host_chunks hchunks hdiscard hsaw, hflat, line_append]
      rw [List.nil_append, hend, handle_fileEnd (solid_name hname) (solid_formatGeneration _),
        fileEnd_of_open s rfl, hafter, htransfer]
    · have hafter : s.after dev name = s.fail := by
        unfold after Device.transferable fail
        rw [hdumped, hbroken, Option.filter_none]
        simp [← hdiscard, ← htransfer]
      obtain ⟨hsolid, hne⟩ := solid_readFailed o
      have herror := host_fileError (s := s.opened
        { name := name, expectedSize := (data.length : ℤ), data := [] ++ chunks.flatten })
        hname hsolid hne hdiscard hsaw text
      rw [hfile, output_announced, hbegin, host_chunks hchunks hdiscard hsaw, herror, hafter]
      rfl
  · -- the file is discarded, up to its end if there is one
    simp only [if_neg hmax] at hbegin
    have hskip := host_chunks_discard (s := s.discard name) hchunks rfl hsaw
    rcases hshape with ⟨hdumped, -, hfile⟩ | ⟨o, hdumped, hfile⟩
    · have hafter : s.after dev name = { s.discard name with discardUntil := none } := by
        unfold after Device.transferable Device.brokenOff discard
        rw [hdumped, hsize, Option.filter_some, if_neg (by simpa using hmax)]
        simp
      rw [hfile, output_announced, hbegin, hskip,
        host_fileEnd_discard (s := s.discard name) hname rfl hsaw, hafter]
    · have hafter : s.after dev name = s.discard name := by
        unfold after Device.transferable Device.brokenOff discard
        rw [hdumped, hsize, Option.filter_none]
        simp [Nat.not_le.1 hmax]
      obtain ⟨hsolid, hne⟩ := solid_readFailed o
      rw [hfile, output_announced, hbegin, hskip,
        host_fileError_discard (s := s.discard name) hname hsolid hne rfl hsaw, hafter]

/-- The host that discards another file does not see the file. -/
lemma host_dumpFile_discard {discarded : FileName} (hne : discarded ≠ name)
    (hdiscard : s.discardUntil = some discarded) (hsaw : s.sawDumpEnd = false) (text : Text) :
    s.host (output (dumpFile dev name).1 ++ text) = s.host text := by
  rcases dumpFile_cases dev hname with ⟨-, -, hfile⟩ | ⟨data, chunks, -, hchunks, hshape⟩
  · rw [hfile]
    simp only [output, List.flatten_cons, List.flatten_nil, List.append_nil]
    exact host_fileError_discard hname (by decide) (by decide) hdiscard hsaw text
  have hbegin : ∀ text, s.host (line "FILE_BEGIN " "name" name "size" (decimal data.length) ++
      text) = s.host text := by
    intro text
    rw [line_append]
    apply host_discard hdiscard hsaw (printed_fileBegin hname _) rfl
    intro h
    simp [body, startsWith] at h
  rcases hshape with ⟨-, -, hfile⟩ | ⟨o, -, hfile⟩
  · rw [hfile, output_announced, hbegin, host_chunks_discard hchunks hdiscard hsaw, line_append]
    apply host_discard hdiscard hsaw (printed_fileEnd hname _) rfl
    intro _
    rw [get_fileEnd (solid_name hname) (solid_formatGeneration _)]
    intro h
    exact hne (Option.some.inj h).symm
  · obtain ⟨hsolid, hmessage⟩ := solid_readFailed o
    rw [hfile, output_announced, hbegin, host_chunks_discard hchunks hdiscard hsaw,
      host_fileError_discard hname hsolid hmessage hdiscard hsaw]

end

/-! ## The host over all files -/

/-- A file, for a host that may be discarding another one. -/
def take (dev : Device) (s : Receiver) (name : FileName) : Receiver :=
  if s.discardUntil.isSome then s else s.after dev name

/-- The end of the dump, for a host that may be discarding a file. -/
def ended (s : Receiver) (errorCount : ℕ) : Receiver :=
  if s.discardUntil.isSome then s
  else { s with sawDumpEnd := true, ok := s.ok ∧ errorCount = 0 }

section

variable {dev : Device} {s : Receiver}

lemma take_transfer (name : FileName) : (s.take dev name).transfer = s.transfer := by
  unfold take after
  split
  · rfl
  · split <;> rfl

lemma take_sawDumpEnd (name : FileName) : (s.take dev name).sawDumpEnd = s.sawDumpEnd := by
  unfold take after
  split
  · rfl
  · split <;> rfl

/-- Only the file itself is discarded anew. -/
lemma mem_discardUntil_take {name n : FileName} (h : n ∈ (s.take dev name).discardUntil) :
    n ∈ s.discardUntil ∨ n = name := by
  unfold take at h
  split at h
  · exact .inl h
  unfold after at h
  split at h
  · exact .inl h
  · simp only [Option.mem_def] at h
    split at h
    · exact .inr (Option.some.inj h).symm
    · simp at h

lemma host_dumpEnd (fileCount errorCount : ℕ) :
    s.host (line "DUMP_END " "files" (decimal fileCount) "errors" (decimal errorCount)) =
      s.ended errorCount := by
  have hprinted : Printed (body "DUMP_END " "files" (decimal fileCount) "errors"
      (decimal errorCount)) :=
    printed_body (by decide) (solid_decimal _) (solid_decimal _) Nat.toDigits_ne_nil
  have hlines : dumpLines (lines (line "DUMP_END " "files" (decimal fileCount) "errors"
      (decimal errorCount))) =
        [body "DUMP_END " "files" (decimal fileCount) "errors" (decimal errorCount)] := by
    have htrim := hprinted.trim (p := isBlank) (by decide) (fun c hc => hc) 0
    simp only [List.replicate_zero, List.append_nil] at htrim
    unfold line
    rw [lines_cons hprinted.lineEnd, dumpLines, htrim, if_pos (by simp [body, startsWith])]
  have hreceive := receive_of_printed (s := s) hprinted 0
  simp only [List.replicate_zero, List.append_nil] at hreceive
  have hrun : ∀ l, s.receiveFrom [l] = s.receive l := by
    intro l
    simp [receiveFrom]
  unfold host ended
  rw [hlines, hrun, hreceive]
  cases hdiscard : s.discardUntil with
  | none =>
    simp only [Option.isSome_none, Bool.false_eq_true, if_false]
    rw [handle_dumpEnd (solid_decimal _) (solid_decimal _)]
    simp only [decimal_eq_zero_iff, hdiscard]
  | some name => simp [body, startsWith]

/-- The host over the files, one by one. -/
lemma host_dumpFiles (names : List FileName) :
    ∀ (s : Receiver) (fileCount errorCount : ℕ), names.Nodup → s.transfer = none →
      s.sawDumpEnd = false → (∀ n ∈ s.discardUntil, n ∉ names) →
      s.host (output (dumpFiles dev names fileCount errorCount)) =
        ((names.filter isValidDumpName).foldl (take dev) s).ended
          (errorCount + (names.filter isValidDumpName).countP fun n => (dev.dumped n).isNone) := by
  induction names with
  | nil =>
    intro s fileCount errorCount _ _ _ _
    simp only [dumpFiles, output, List.flatten_cons, List.flatten_nil, List.append_nil,
      List.filter_nil, List.foldl_nil, List.countP_nil, Nat.add_zero]
    exact host_dumpEnd fileCount errorCount
  | cons name names ih =>
    intro s fileCount errorCount hnodup htransfer hsaw hother
    obtain ⟨hnot, hnodup⟩ := List.nodup_cons.1 hnodup
    by_cases hname : isValidDumpName name = true
    · have hfile : ∀ text, s.host (output (dumpFile dev name).1 ++ text) =
          (s.take dev name).host text := by
        intro text
        unfold take
        cases hdiscard : s.discardUntil with
        | none => exact host_dumpFile hname ⟨htransfer, hdiscard, hsaw⟩ text
        | some n =>
          have hne : n ≠ name := by
            rintro rfl
            exact hother n hdiscard List.mem_cons_self
          exact host_dumpFile_discard hname hne hdiscard hsaw text
      have hnext : ∀ n ∈ (s.take dev name).discardUntil, n ∉ names := by
        intro n hn
        rcases mem_discardUntil_take hn with hn | rfl
        · exact fun hmem => hother n hn (List.mem_cons_of_mem _ hmem)
        · exact hnot
      have hout : dumpFiles dev (name :: names) fileCount errorCount = (dumpFile dev name).1 ++
          dumpFiles dev names (fileCount + if (dumpFile dev name).2 then 1 else 0)
            (errorCount + if (dumpFile dev name).2 then 0 else 1) := by
        rw [dumpFiles, if_neg (by simp [hname])]
        rcases dumpFile dev name with ⟨l, _ | _⟩ <;> rfl
      have hcount : (dumpFile dev name).2 = (dev.dumped name).isSome := by
        rcases dumpFile_cases dev hname with ⟨-, hdumped, hfile⟩ |
          ⟨data, chunks, -, -, ⟨hdumped, -, hfile⟩ | ⟨o, hdumped, hfile⟩⟩
        all_goals rw [hfile, hdumped]
        all_goals rfl
      rw [hout, output, List.flatten_append]
      rw [← output, ← output, hfile, ih _ _ _ hnodup (by rw [take_transfer, htransfer])
        (by rw [take_sawDumpEnd, hsaw]) hnext, List.filter_cons_of_pos hname, List.foldl_cons,
        List.countP_cons, hcount]
      congr 1
      cases dev.dumped name
      · simp only [Option.isSome_none, Bool.false_eq_true, if_false, Option.isNone_none, if_true]
        omega
      · simp
    · rw [dumpFiles, if_pos (Bool.eq_false_of_not_eq_true hname), List.filter_cons_of_neg hname]
      exact ih s fileCount errorCount hnodup htransfer hsaw
        fun n hn hmem => hother n hn (List.mem_cons_of_mem _ hmem)

end

section

variable {dev : Device} {s : Receiver} {names : List FileName}

lemma foldl_take_discard (h : s.discardUntil.isSome = true) :
    names.foldl (take dev) s = s := by
  induction names with
  | nil => rfl
  | cons name names ih =>
    rw [List.foldl_cons, take, if_pos h, ih]

/-- A file's contents under its name. -/
def kept (dev : Device) (name : FileName) : Option (FileName × Bytes) :=
  (dev.transferable name).map fun data => (name, data)

/-- Where no file is broken off, every file is on its own. -/
lemma foldl_take (hdiscard : s.discardUntil = none)
    (hbroken : ∀ name ∈ names, dev.brokenOff name = false) :
    names.foldl (take dev) s = { s with
      ok := s.ok && names.all fun name => (dev.transferable name).isSome
      written := s.written ++ names.filterMap (kept dev) } := by
  induction names generalizing s with
  | nil => simp
  | cons name names ih =>
    rw [List.forall_mem_cons] at hbroken
    have hafter : s.take dev name = { s with
        ok := s.ok && (dev.transferable name).isSome
        written := s.written ++ (kept dev name).toList } := by
      unfold take after kept
      rw [hdiscard, hbroken.1]
      cases dev.transferable name <;> simp
    rw [List.foldl_cons, ih (by rw [hafter, hdiscard]) hbroken.2, hafter]
    simp only [List.all_cons, Bool.and_assoc, List.append_assoc, List.filterMap_cons]
    cases kept dev name <;> rfl

end

end Receiver

/-! ## Transfers -/

open Receiver

namespace Device

variable (dev : Device)

/-- The names that `dumpAll` dumps, in their order. -/
def dumpNames : List FileName :=
  ((dev.files.map Prod.fst).insertionSort (· ≤ ·)).filter isValidDumpName

/-- What a dump of all files should leave on the host. -/
def expected : List (FileName × Bytes) :=
  if dev.mountFails ∨ dev.listFails then [] else dev.dumpNames.filterMap (kept dev)

/-- A file that is broken off comes before one that the host would take. -/
def Swallows : Prop :=
  dev.mountFails = false ∧ dev.listFails = false ∧ ∃ n m, List.Sublist [n, m] dev.dumpNames ∧
    dev.brokenOff n = true ∧ (dev.transferable m).isSome = true

end Device

/-- What a dump of all files should do. -/
structure TransfersAll (dev : Device) : Prop where
  written : (receiveText (output (cmdDumpAll dev))).1 = dev.expected
  returned : (receiveText (output (cmdDumpAll dev))).2 = true ↔
    dev.mountFails = false ∧ dev.listFails = false ∧
      ∀ name ∈ dev.dumpNames, (dev.transferable name).isSome = true

/-- What a dump of one file should do. -/
structure TransfersFile (dev : Device) (name : FileName) : Prop where
  written : (receiveText (output (cmdDumpFile dev name))).1 =
    if dev.mountFails then [] else (kept dev name).toList
  returned : (receiveText (output (cmdDumpFile dev name))).2 = true ↔
    dev.mountFails = false ∧ (dev.transferable name).isSome = true

section

variable {dev : Device}

/-- A file that is broken off is not taken. -/
lemma transferable_of_brokenOff {name : FileName} (h : dev.brokenOff name = true) :
    dev.transferable name = none := by
  unfold Device.brokenOff at h
  unfold Device.transferable
  split at h
  · simp at h
  · rw [Bool.and_eq_true, Option.isNone_iff_eq_none] at h
    rw [h.2, Option.filter_none]

lemma receiveText_eq (text : Text) : receiveText text =
    ((host {} text).written, (host {} text).ok && (host {} text).transfer.isNone &&
      (host {} text).sawDumpEnd) := rfl

/-- The host after the dump of a directory that is listed. -/
lemma host_cmdDumpAll (hmount : dev.mountFails = false) (hlist : dev.listFails = false) :
    host {} (output (cmdDumpAll dev)) = (dev.dumpNames.foldl (take dev) {}).ended
      (dev.dumpNames.countP fun n => (dev.dumped n).isNone) := by
  have hbegin : Printed "DUMP_BEGIN".toList :=
    ⟨by decide, "DUMP_BEGI".toList, 'N', rfl, by decide⟩
  have hout : output (cmdDumpAll dev) = "DUMP_BEGIN".toList ++ '\n' ::
      output (dumpFiles dev ((dev.files.map Prod.fst).insertionSort (· ≤ ·)) 0 0) := by
    unfold cmdDumpAll dumpAll Device.listFiles
    rw [hmount, hlist]
    rfl
  have hhandle : ({} : Receiver).handle "DUMP_BEGIN".toList = {} := rfl
  have hnodup : ((dev.files.map Prod.fst).insertionSort (· ≤ ·)).Nodup :=
    (List.perm_insertionSort _ _).nodup_iff.2 dev.nodup
  rw [hout, host_handle rfl rfl hbegin rfl, hhandle,
    host_dumpFiles _ _ _ _ hnodup rfl rfl (by simp), Nat.zero_add]
  rfl

/-- Where the directory cannot be opened or listed, the host says so. -/
lemma receive_cmdDumpAll_of_fails (h : dev.mountFails = true ∨ dev.listFails = true) :
    receiveText (output (cmdDumpAll dev)) = ([], false) := by
  unfold cmdDumpAll
  by_cases hmount : dev.mountFails = true
  · rw [if_pos hmount]
    decide +kernel
  · have hlist : dev.listFiles = none := by
      unfold Device.listFiles
      rw [if_pos (h.resolve_left hmount)]
    unfold dumpAll
    rw [if_neg hmount, hlist]
    dsimp only
    decide +kernel

/-- Where no file is broken off, all is as it should be. -/
lemma transfersAll_of_not_brokenOff (hmount : dev.mountFails = false)
    (hlist : dev.listFails = false) (hbroken : ∀ name ∈ dev.dumpNames, dev.brokenOff name = false) :
    TransfersAll dev := by
  have hfold := foldl_take (s := {}) rfl hbroken
  have hstate := host_cmdDumpAll hmount hlist
  rw [hfold] at hstate
  simp only [ended, Option.isSome_none, Bool.false_eq_true, if_false, Bool.true_and,
    List.nil_append] at hstate
  constructor
  · rw [receiveText_eq, hstate]
    unfold Device.expected
    rw [hmount, hlist, if_neg (by simp)]
  · rw [receiveText_eq, hstate]
    simp only [hmount, hlist, Option.isNone_none, Bool.and_true, decide_eq_true_eq,
      List.all_eq_true, true_and, and_iff_left_iff_imp, List.countP_eq_zero,
      Option.isNone_iff_eq_none]
    intro hall name hname hdumped
    have := hall name hname
    unfold Device.transferable at this
    rw [hdumped] at this
    simp at this

/-- Where a file is broken off, nothing that comes after the first one is written. -/
lemma host_of_brokenOff (hmount : dev.mountFails = false) (hlist : dev.listFails = false)
    {before after : List FileName} {n : FileName} (hnames : dev.dumpNames = before ++ n :: after)
    (hbefore : ∀ name ∈ before, dev.brokenOff name = false) (hn : dev.brokenOff n = true) :
    receiveText (output (cmdDumpAll dev)) = (before.filterMap (kept dev), false) := by
  have hfold : (dev.dumpNames.foldl (take dev) {}) =
      { ok := false, discardUntil := some n, written := before.filterMap (kept dev) } := by
    rw [hnames, List.foldl_append, foldl_take rfl hbefore, List.foldl_cons]
    have hafter : ∀ s : Receiver, s.discardUntil = none →
        s.take dev n = { s with ok := false, discardUntil := some n } := by
      intro s hst
      unfold take Receiver.after
      rw [hst, transferable_of_brokenOff hn, hn]
      rfl
    rw [hafter _ rfl, foldl_take_discard rfl]
    rfl
  rw [receiveText_eq, host_cmdDumpAll hmount hlist, hfold]
  rfl

lemma kept_eq_none_iff {name : FileName} : kept dev name = none ↔ dev.transferable name = none := by
  unfold kept
  rw [Option.map_eq_none_iff]

lemma transfersAll_iff (dev : Device) : TransfersAll dev ↔ ¬dev.Swallows := by
  by_cases hmount : dev.mountFails = true
  · have hreceive := receive_cmdDumpAll_of_fails (.inl hmount)
    refine iff_of_true ⟨?_, ?_⟩ fun h => by simp [h.1] at hmount
    · rw [hreceive, Device.expected, if_pos (.inl hmount)]
    · simp [hreceive, hmount]
  by_cases hlist : dev.listFails = true
  · have hreceive := receive_cmdDumpAll_of_fails (.inr hlist)
    refine iff_of_true ⟨?_, ?_⟩ fun h => by simp [h.2.1] at hlist
    · rw [hreceive, Device.expected, if_pos (.inr hlist)]
    · simp [hreceive, hlist]
  rw [Bool.not_eq_true] at hmount hlist
  cases hfind : dev.dumpNames.find? dev.brokenOff with
  | none =>
    have hbroken : ∀ name ∈ dev.dumpNames, dev.brokenOff name = false := by
      intro name hname
      exact Bool.eq_false_of_not_eq_true (List.find?_eq_none.1 hfind name hname)
    refine iff_of_true (transfersAll_of_not_brokenOff hmount hlist hbroken) ?_
    rintro ⟨-, -, n, m, hsub, hn, -⟩
    rw [hbroken n (hsub.subset List.mem_cons_self)] at hn
    simp at hn
  | some n =>
    obtain ⟨hn, before, after, hnames, hbefore⟩ := List.find?_eq_some_iff_append.1 hfind
    simp only [Bool.not_eq_eq_eq_not, Bool.not_true] at hbefore
    have hreceive := host_of_brokenOff hmount hlist hnames hbefore hn
    have hexpected : dev.expected = before.filterMap (kept dev) ++ after.filterMap (kept dev) := by
      unfold Device.expected
      rw [if_neg (by simp [hmount, hlist]), hnames, List.filterMap_append,
        List.filterMap_cons_none (kept_eq_none_iff.2 (transferable_of_brokenOff hn))]
    have hiff : TransfersAll dev ↔ after.filterMap (kept dev) = [] := by
      constructor
      · intro h
        have hw := h.written
        rw [hreceive, hexpected] at hw
        exact List.self_eq_append_right.1 hw
      · intro h
        refine ⟨by rw [hreceive, hexpected, h, List.append_nil], ?_⟩
        rw [hreceive]
        simp only [Bool.false_eq_true, false_iff]
        rintro ⟨-, -, hall⟩
        have := hall n (by simp [hnames])
        rw [transferable_of_brokenOff hn] at this
        simp at this
    rw [hiff, List.filterMap_eq_nil_iff]
    constructor
    · rintro hnone ⟨-, -, n', m, hsub, hn', hm⟩
      -- the first of the two is the broken one, or comes after it
      have hmem : m ∈ after := by
        rw [hnames] at hsub
        obtain ⟨front, back, hsplit, hfront, hback⟩ := List.sublist_append_iff.1 hsub
        cases front with
        | nil =>
          rw [List.nil_append] at hsplit
          rw [← hsplit] at hback
          exact List.singleton_sublist.1 hback.tail
        | cons c front =>
          obtain ⟨rfl, -⟩ := List.cons_eq_cons.1 hsplit
          rw [hbefore n' (hfront.subset List.mem_cons_self)] at hn'
          simp at hn'
      rw [kept_eq_none_iff.1 (hnone m hmem)] at hm
      simp at hm
    · intro hswallows m hm
      rw [kept_eq_none_iff, ← Option.not_isSome_iff_eq_none]
      intro hsome
      refine hswallows ⟨hmount, hlist, n, m, ?_, hn, hsome⟩
      rw [hnames]
      exact (List.Sublist.cons_cons n (List.singleton_sublist.2 hm)).trans
        (List.sublist_append_right before _)

/-- The dump of one file has no end that the host would wait for. -/
lemma transfersFile_iff (dev : Device) {name : FileName} (hname : isValidDumpName name = true) :
    TransfersFile dev name ↔
      ¬(dev.mountFails = false ∧ (dev.transferable name).isSome = true) := by
  have hreceive : receiveText (output (cmdDumpFile dev name)) =
      (if dev.mountFails then [] else (kept dev name).toList, false) := by
    by_cases hmount : dev.mountFails = true
    · have hprinted : Printed (body "FILE_ERROR " "name" name "message" "mount_failed".toList) :=
        printed_fileError hname (by decide) (by decide)
      have hout : output (cmdDumpFile dev name) =
          body "FILE_ERROR " "name" name "message" "mount_failed".toList ++
            List.replicate 1 '\r' ++ '\n' :: [] := by
        unfold cmdDumpFile
        rw [if_pos hmount]
        simp [output]
      have hstate : host {} (output (cmdDumpFile dev name)) = ({} : Receiver).fail := by
        rw [hout, host_line_cr hprinted rfl rfl, receive_of_printed hprinted, host_nil]
        exact handle_fileError _ _
      rw [receiveText_eq, hstate, if_pos hmount]
      rfl
    · have hstate : host {} (output (cmdDumpFile dev name)) = ({} : Receiver).after dev name := by
        have hfile : host {} (output (dumpFile dev name).1 ++ []) = _ :=
          host_dumpFile hname ⟨rfl, rfl, rfl⟩ []
        rw [List.append_nil, host_nil] at hfile
        unfold cmdDumpFile
        rw [if_neg hmount, hfile]
      rw [receiveText_eq, hstate, if_neg hmount]
      unfold Receiver.after kept
      cases dev.transferable name <;> rfl
  constructor
  · rintro ⟨-, hreturned⟩ hgood
    rw [hreceive] at hreturned
    exact absurd (hreturned.2 hgood) (by simp)
  · intro hnot
    refine ⟨by rw [hreceive], ?_⟩
    rw [hreceive]
    simp only [Bool.false_eq_true, false_iff]
    exact hnot

/-- **What a dump transfers.**  A dump of all files transfers them unless a file that is broken off
comes before one that the host would take; a dump of one file never says that it has transferred
it. -/
theorem dump_transfers_iff (dev : Device) :
    (TransfersAll dev ↔ ¬dev.Swallows) ∧
      ∀ name, isValidDumpName name = true → (TransfersFile dev name ↔
        ¬(dev.mountFails = false ∧ (dev.transferable name).isSome = true)) :=
  ⟨transfersAll_iff dev, fun _ => transfersFile_iff dev⟩

/-- One manifest is too large and cannot be read, the other one holds a byte. -/
def largeManifest : Device where
  files := [(Slot.fileName .a, List.replicate (2 ^ 20 + 1) 0), (Slot.fileName .b, [7])]
  nodup := by decide
  readFails := fun name _ => name = Slot.fileName .a

/-- A dump of the second manifest alone writes it and says that it was not transferred; a dump of
both does not write it. -/
theorem dump_transfers_not :
    isValidDumpName (Slot.fileName .b) = true ∧
      receiveText (output (cmdDumpFile largeManifest (Slot.fileName .b))) =
        ([(Slot.fileName .b, [7])], false) ∧
      ¬TransfersFile largeManifest (Slot.fileName .b) ∧
      receiveText (output (cmdDumpAll largeManifest)) = ([], false) ∧
      largeManifest.transferable (Slot.fileName .b) = some [7] ∧ ¬TransfersAll largeManifest := by
  have hb : largeManifest.transferable (Slot.fileName .b) = some [7] := by decide +kernel
  have hfile : receiveText (output (cmdDumpFile largeManifest (Slot.fileName .b))) =
      ([(Slot.fileName .b, [7])], false) := by decide +kernel
  have hnames : largeManifest.dumpNames = [] ++ Slot.fileName .a :: [Slot.fileName .b] := by
    decide +kernel
  have hcontent : largeManifest.content (Slot.fileName .a) =
      some (List.replicate (2 ^ 20 + 1) 0) := rfl
  have hsizeFails : largeManifest.sizeFails (Slot.fileName .a) = false := rfl
  have hread : largeManifest.readFails (Slot.fileName .a) 0 = true := by decide
  have hdumped : largeManifest.dumped (Slot.fileName .a) = none := by
    unfold Device.dumped
    rw [hsizeFails, hcontent, Option.bind_some, if_neg (by decide), if_neg]
    intro h
    have := h 0 (by rw [List.length_replicate]; decide) ⟨0, rfl⟩
    rw [hread] at this
    simp at this
  have hbroken : largeManifest.brokenOff (Slot.fileName .a) = true := by
    have hsize : largeManifest.fileSize (Slot.fileName .a) = some (2 ^ 20 + 1) := by
      unfold Device.fileSize
      rw [hsizeFails, hcontent, if_neg (by decide), Option.map_some, List.length_replicate]
    unfold Device.brokenOff
    rw [hsize, hdumped]
    decide
  have hall := host_of_brokenOff rfl rfl hnames (by simp) hbroken
  refine ⟨by decide, hfile, fun h => ?_, hall, hb, fun h => ?_⟩
  · have hreturned := h.returned.2 ⟨rfl, by rw [hb]; rfl⟩
    rw [hfile] at hreturned
    simp at hreturned
  · have hkept : kept largeManifest (Slot.fileName .b) = some (Slot.fileName .b, [7]) := by
      rw [kept, hb]
      rfl
    have hmem : (Slot.fileName .b, [7]) ∈ largeManifest.expected := by
      have hmount : largeManifest.mountFails = false := rfl
      have hlist : largeManifest.listFails = false := rfl
      rw [Device.expected, hmount, hlist, if_neg (by decide), hnames]
      exact List.mem_filterMap.2 ⟨Slot.fileName .b, by simp, hkept⟩
    rw [← h.written, hall] at hmem
    simp at hmem

end

end Doctor

end Pqueue
