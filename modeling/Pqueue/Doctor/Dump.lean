import Mathlib.Data.Char
import Mathlib.Data.List.Lex
import Mathlib.Data.List.Sort
import Pqueue.Doctor.Text
import Pqueue.Format.Layout

/-!
# Dumping files off the device

`doctor/dump.h` and the two dump commands of `doctor/session.h`: what the device writes to the
serial line for a directory, some of whose calls fail.
-/

namespace Pqueue

open LittleEndian

namespace Doctor

open Text

/-- Bytes of a line of file contents. -/
def kDumpChunkBytes : ℕ := 128

/-! ## The directory -/

/-- The directory of the device, and which of its calls fail. -/
structure Device where
  /-- The files, in the order in which they are listed. -/
  files : List (FileName × Bytes)
  nodup : (files.map Prod.fst).Nodup
  mountFails : Bool := false
  listFails : Bool := false
  sizeFails : FileName → Bool := fun _ => false
  /-- Which reads fail, by the offset at which they start. -/
  readFails : FileName → ℕ → Bool := fun _ _ => false

namespace Device

variable (dev : Device)

def content (name : FileName) : Option Bytes := dev.files.lookup name

def listFiles : Option (List FileName) :=
  if dev.listFails then none else some (dev.files.map Prod.fst)

def fileSize (name : FileName) : Option ℕ :=
  if dev.sizeFails name then none else (dev.content name).map List.length

def readAt (name : FileName) (offset size : ℕ) : Option Bytes :=
  if dev.readFails name offset then none
  else (dev.content name).bind fun data =>
    if size ≤ data.length - offset then some ((data.drop offset).take size) else none

end Device

/-! ## One file -/

/-- `isValidDumpName`. -/
def isValidDumpName (name : FileName) : Bool :=
  name = Slot.fileName .a ∨ name = Slot.fileName .b ∨
    (name.length = 16 ∧ startsWith kSegmentPrefix name = true ∧
      (name.drop 12).take 4 = kSegmentSuffix ∧
      ((name.drop 4).take 8).all isLowerHex = true)

/-- `crc32Update`, whose table and loop are those of the store's `crc32`. -/
def crc32Update (crc : BitVec 32) (data : Bytes) : BitVec 32 := crc32 crc data

/-- A line of the protocol, less its end. -/
def body (tag key : String) (value : Text) (key' : String) (value' : Text) : Text :=
  tag.toList ++ (pair key.toList value ++ ' ' :: pair key'.toList value')

/-- A line of the protocol.  Where the name is a valid one it fits the buffer it is printed to. -/
def line (tag key : String) (value : Text) (key' : String) (value' : Text) : Text :=
  body tag key value key' value' ++ ['\n']

/-- The loop over the contents, with fuel for `size` bytes: the lines it writes, and the CRC unless
a read fails. -/
def dumpChunks (dev : Device) (name : FileName) (size : ℕ) :
    ℕ → ℕ → BitVec 32 → List Text × Option (BitVec 32)
  | 0, _, crc => ([], some crc)
  | fuel + 1, offset, crc =>
    if offset < size then
      let toRead := min kDumpChunkBytes (size - offset)
      let failed := [line "FILE_ERROR " "name" name "message"
        ("read_failed_at_".toList ++ decimal offset)]
      match dev.readAt name offset toRead with
      | none => (failed, none)
      | some chunk =>
        if chunk.length ≠ toRead then (failed, none)
        else
          let (lines, final) :=
            dumpChunks dev name size fuel (offset + chunk.length) (crc32Update crc chunk)
          ((toHex chunk ++ ['\n']) :: lines, final)
    else ([], some crc)

/-- What is written for a file, and whether it was dumped. -/
def dumpFile (dev : Device) (name : FileName) : List Text × Bool :=
  if isValidDumpName name = false then
    -- the name is printed as a C string, into a buffer of 256 bytes
    ([(line "FILE_ERROR " "name" (name.takeWhile (· ≠ '\x00')) "message"
      "invalid_name".toList).take 255], false)
  else match dev.fileSize name with
    | none => ([line "FILE_ERROR " "name" name "message" "filesize_failed".toList], false)
    | some size =>
      let first := line "FILE_BEGIN " "name" name "size" (decimal size)
      match dumpChunks dev name size size 0 0#32 with
      | (lines, none) => (first :: lines, false)
      | (lines, some crc) =>
        (first :: (lines ++
          [line "FILE_END " "name" name "crc" (formatGeneration crc.toNat)]), true)

/-! ## All files -/

/-- The loop of `dumpAll` over the listed names. -/
def dumpFiles (dev : Device) : List FileName → ℕ → ℕ → List Text
  | [], fileCount, errorCount =>
    [line "DUMP_END " "files" (decimal fileCount) "errors" (decimal errorCount)]
  | name :: names, fileCount, errorCount =>
    if isValidDumpName name = false then dumpFiles dev names fileCount errorCount
    else match dumpFile dev name with
      | (lines, true) => lines ++ dumpFiles dev names (fileCount + 1) errorCount
      | (lines, false) => lines ++ dumpFiles dev names fileCount (errorCount + 1)

def dumpAll (dev : Device) : List Text :=
  "DUMP_BEGIN\n".toList :: match dev.listFiles with
    | none => ["LIST_ERROR message=listfiles_failed\n".toList,
      line "DUMP_END " "files" ['0'] "errors" ['1']]
    | some files => dumpFiles dev (files.insertionSort (· ≤ ·)) 0 0

/-! ## The commands -/

def cmdDumpFile (dev : Device) (name : FileName) : List Text :=
  if dev.mountFails then
    [body "FILE_ERROR " "name" name "message" "mount_failed".toList ++ ['\r', '\n']]
  else (dumpFile dev name).1

def cmdDumpAll (dev : Device) : List Text :=
  if dev.mountFails then ["LIST_ERROR message=mount_failed\r\n".toList] else dumpAll dev

/-- What arrives on the serial line. -/
def output (writes : List Text) : Text := writes.flatten

end Doctor

end Pqueue
