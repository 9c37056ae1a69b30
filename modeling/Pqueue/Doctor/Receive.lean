import Pqueue.Doctor.Text

/-!
# Receiving a dump

`FileTransfer` and `receive_lines` of `tools/pqueue_doctor.py`, over the lines that `_dump_lines`
takes from the serial line.  The log output is left out.
-/

namespace Pqueue

open LittleEndian

namespace Doctor

open Text

def MAX_FILE_SIZE : ℕ := 1 * 1024 * 1024

/-! ## One file -/

/-- `_VALID_NAME`.  The end of the pattern also matches in front of a last line end. -/
def validateFilename (name : Text) : Bool :=
  let name := if name.getLast? = some '\n' then name.dropLast else name
  (name.length = 14 ∧ name.take 9 = "manifest-".toList ∧
    (name[9]? = some 'a' ∨ name[9]? = some 'b') ∧ name.drop 10 = ".bin".toList) ∨
  (name.length = 16 ∧ name.take 4 = "seg-".toList ∧
    ((name.drop 4).take 8).all isLowerHex = true ∧
    name.drop 12 = ".bin".toList)

/-- One byte of the host's CRC, bit by bit. -/
def hostCrcStep (crc : BitVec 32) (b : UInt8) : BitVec 32 :=
  (List.range 8).foldl
    (fun c _ => (c >>> 1) ^^^ (if c &&& 1#32 ≠ 0#32 then 0xEDB88320#32 else 0#32))
    (crc ^^^ BitVec.ofNat 32 b.toNat)

/-- `crc32`. -/
def hostCrc32 (data : Bytes) : BitVec 32 :=
  data.foldl hostCrcStep 0xFFFFFFFF#32 ^^^ 0xFFFFFFFF#32

/-- `FileTransfer`. -/
structure FileTransfer where
  name : Text
  expectedSize : ℤ
  data : Bytes := []

/-- `verify`. -/
def FileTransfer.verify (t : FileTransfer) (expectedCrcHex : Text) : Bool :=
  decide ((t.data.length : ℤ) = t.expectedSize) && match pyInt 16 expectedCrcHex with
    | none => false
    | some expectedCrc => decide (((hostCrc32 t.data).toNat : ℤ) = expectedCrc)

/-! ## All lines -/

/-- The locals of `receive_lines`, and the files it has written to the output directory. -/
structure Receiver where
  transfer : Option FileTransfer := none
  discardUntil : Option Text := none
  sawDumpEnd : Bool := false
  ok : Bool := true
  written : List (Text × Bytes) := []

namespace Receiver

def fail (st : Receiver) : Receiver := { st with ok := false, transfer := none }

/-- The file that is announced is not wanted. -/
def discard (st : Receiver) (name : Text) : Receiver :=
  { st with ok := false, discardUntil := some name }

/-- `FILE_BEGIN`. -/
def fileBegin (st : Receiver) (kv : List (Text × Text)) : Receiver :=
  let st := if st.transfer.isSome then st.fail else st
  let name := (get kv "name".toList).getD []
  if validateFilename name = false then st.discard name
  else match pyInt 10 ((get kv "size".toList).getD []) with
    | none => st.discard name
    | some size =>
      if size < 0 ∨ size > MAX_FILE_SIZE then st.discard name
      else { st with transfer := some { name := name, expectedSize := size } }

/-- `FILE_END`. -/
def fileEnd (st : Receiver) (kv : List (Text × Text)) : Receiver :=
  match st.transfer with
  | none => { st with ok := false }
  | some t =>
    if (get kv "name".toList).getD [] ≠ t.name then st.fail
    else if t.verify ((get kv "crc".toList).getD ['0']) = false then st.fail
    else { st with transfer := none, written := st.written ++ [(t.name, t.data)] }

/-- A line outside of a discarded file. -/
def handle (st : Receiver) (line : Text) : Receiver :=
  if line = "DUMP_BEGIN".toList then
    if st.transfer.isSome then st.fail else st
  else if startsWith "DUMP_END ".toList line then
    { st with
      sawDumpEnd := true
      ok := st.ok ∧ (get (parseKv (line.drop 9)) "errors".toList).getD ['0'] = ['0'] }
  else if startsWith "FILE_BEGIN ".toList line then st.fileBegin (parseKv (line.drop 11))
  else if startsWith "FILE_END ".toList line then st.fileEnd (parseKv (line.drop 9))
  else if startsWith "FILE_ERROR ".toList line then st.fail
  else if startsWith "LIST_ERROR ".toList line then { st with ok := false }
  else match st.transfer with
    | none => st
    | some t => match fromHex line with
      | none => st.fail
      | some chunk => { st with transfer := some { t with data := t.data ++ chunk } }

/-- One turn of the loop. -/
def receive (st : Receiver) (rawLine : Text) : Receiver :=
  let line := rstrip rawLine
  if line = [] then st
  else match st.discardUntil with
    | some name =>
      if startsWith "FILE_END ".toList line ∧
          get (parseKv (line.drop 9)) "name".toList = some name then
        { st with discardUntil := none }
      else st
    | none => st.handle line

/-- The loop, which ends at `DUMP_END`. -/
def receiveFrom (st : Receiver) : List Text → Receiver
  | [] => st
  | rawLine :: rest =>
    if (st.receive rawLine).sawDumpEnd then st.receive rawLine
    else (st.receive rawLine).receiveFrom rest

end Receiver

/-- `receive_lines`: the files it writes, and what it returns. -/
def receiveLines (lines : List Text) : List (Text × Bytes) × Bool :=
  let st := Receiver.receiveFrom {} lines
  (st.written, st.ok && st.transfer.isNone && st.sawDumpEnd)

/-! ## The serial line -/

/-- The lines of a text, without their ends; the last one has not ended. -/
def lines (text : Text) : List Text := text.splitOnP (· = '\n')

/-- `_dump_lines`: the lines up to `DUMP_END`, or to the timeout. -/
def dumpLines : List Text → List Text
  | [] => []
  | raw :: rest =>
    if startsWith "DUMP_END ".toList (raw.reverse.dropWhile isBlank).reverse then [raw]
    else raw :: dumpLines rest

/-- What the host makes of what arrives. -/
def receiveText (text : Text) : List (Text × Bytes) × Bool := receiveLines (dumpLines (lines text))

end Doctor

end Pqueue
