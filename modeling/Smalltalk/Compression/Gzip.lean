import Smalltalk.ByteSource
import Smalltalk.Compression.Crc32
import Smalltalk.Compression.Inflate

namespace Smalltalk

/-! A compressed file: a header with optional parts, the compressed data, and a
trailer with the checksum and the length of the data. -/

namespace Gzip

/-- The number that `count` bytes stand for, lowest first. -/
def littleEndian (data : Array UInt8) (start count : Nat) : Option Nat :=
  if start + count ≤ data.size then
    some ((data.extract start (start + count)).foldr (fun byte n => byte.toNat + 256 * n) 0)
  else
    none

/-! ## The header -/

/-- The greatest length of a text in the header. -/
def maximumText : Nat := 65535

/-- Whether a bit of the flags is set. -/
def hasFlag (flags bit : Nat) : Bool := flags >>> bit % 2 = 1

/-- The place after a text that ends in a zero byte. -/
def skipText (data : Array UInt8) : (budget : Nat) → (start length : Nat) → Except ReadError Nat
  | 0, _, _ => .error .endOfArchive
  | budget + 1, start, length =>
    match data[start]? with
    | none => .error .endOfArchive
    | some byte =>
      if byte = 0 then .ok (start + 1)
      else if length = maximumText then .error .headerTextTooLong
      else skipText data budget (start + 1) (length + 1)

/-- The place after a text that is there only if a flag says so. -/
def skipOptionalText (data : Array UInt8) (present : Bool) (start : Nat) : Except ReadError Nat :=
  if present then skipText data (data.size + 1) start 0 else .ok start

/-- The place after the extra part, if there is one. -/
def skipExtra (data : Array UInt8) (present : Bool) (start : Nat) : Except ReadError Nat :=
  if present then
    match littleEndian data start 2 with
    | none => .error .endOfArchive
    | some length =>
      if start + 2 + length ≤ data.size then .ok (start + 2 + length) else .error .endOfArchive
  else
    .ok start

/-- The place after the checksum of the header, if there is one. -/
def skipChecksum (data : Array UInt8) (present : Bool) (start : Nat) : Except ReadError Nat :=
  if present then
    match littleEndian data start 2 with
    | none => .error .endOfArchive
    | some stored =>
      if stored = (Crc32.checksum (data.extract 0 start)).toNat % 65536 then .ok (start + 2)
      else .error .checksumMismatch
  else
    .ok start

/-- The place where the compressed data start. -/
def skipHeader (data : Array UInt8) : Except ReadError Nat := do
  if data.size < 10 then throw .endOfArchive
  let byte (place : Nat) : Nat := (data[place]?.map UInt8.toNat).getD 0
  let flags := byte 3
  if byte 0 ≠ 0x1F ∨ byte 1 ≠ 0x8B ∨ byte 2 ≠ 8 ∨ 32 ≤ flags then throw .notAnArchive
  let place ← skipExtra data (hasFlag flags 2) 10
  let place ← skipOptionalText data (hasFlag flags 3) place
  let place ← skipOptionalText data (hasFlag flags 4) place
  skipChecksum data (hasFlag flags 1) place

/-! ## Data and trailer -/

/-- Data are handed out in windows of this many bytes. -/
def windowSize : Nat := 32768

/-- What reading past the data of a complete file gives: the trailer is looked
at only then. -/
def ending (data output : Array UInt8) (trailer : Nat) : ReadError :=
  match littleEndian data trailer 4, littleEndian data (trailer + 4) 4 with
  | some checksum, some length =>
    if checksum = (Crc32.checksum output).toNat ∧ length = output.size % 4294967296 then
      .endOfData
    else
      .checksumMismatch
  | _, _ => .endOfArchive

/-- The data of a compressed file. A window in which the compressed data turn out
to be corrupt is lost as a whole; of data that end too soon everything can be
read that was there. -/
def decode (data : Array UInt8) : ByteSource :=
  match skipHeader data with
  | .error reason => .failing reason
  | .ok start =>
    match Inflate.run data start with
    | .ok () state =>
      { bytes := state.output, ending := ending data state.output ((state.position + 7) / 8) }
    | .error .truncated state => { bytes := state.output, ending := .endOfArchive }
    | .error .corrupt state =>
      { bytes := state.output.extract 0 (state.output.size / windowSize * windowSize)
        ending := .corruptArchive }

end Gzip

end Smalltalk
