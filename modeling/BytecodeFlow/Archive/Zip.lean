/-
This file reads archives in the ZIP format. The directory at the end of an
archive, which `endRecord?` finds, says where each entry lies, how it was
compressed, and what its `checksum` is. Every number is written with its lowest
byte first. `entries?` gives the names of all entries with what they hold.
-/

import BytecodeFlow.Archive.Inflate

namespace BytecodeFlow.Zip

/-- A number of the given width in bytes. -/
def number? (bytes : ByteArray) (offset : Nat) : (width : Nat) → Option Nat
  | 0 => some 0
  | width + 1 => do
    let low ← bytes[offset]?
    let high ← number? bytes (offset + 1) width
    return low.toNat + 256 * high

def slice? (bytes : ByteArray) (offset length : Nat) : Option ByteArray :=
  if offset + length ≤ bytes.size then some (bytes.extract offset (offset + length)) else none

/-! ### Checksums -/

/-- One step of the division by the checksum's polynomial. -/
def checksumStep (remainder : UInt32) : UInt32 :=
  if remainder &&& 1 = 1 then (remainder >>> 1) ^^^ 0xEDB88320 else remainder >>> 1

/-- The cyclic redundancy check of an entry. -/
def checksum (bytes : ByteArray) : UInt32 :=
  ~~~(bytes.foldl
    (fun remainder byte => Nat.repeat checksumStep 8 (remainder ^^^ byte.toUInt32)) 0xFFFFFFFF)

/-! ### Entries -/

/-- The content of an entry whose own header lies at the given offset. -/
def content? (bytes : ByteArray) (header method packedSize : Nat) : Option ByteArray := do
  if (← number? bytes header 4) ≠ 0x04034B50 then none
  else
    let nameLength ← number? bytes (header + 26) 2
    let extraLength ← number? bytes (header + 28) 2
    let packed ← slice? bytes (header + 30 + nameLength + extraLength) packedSize
    match method with
    | 0 => return packed
    | 8 => inflate? packed
    | _ => none

/-- An entry of the directory at an offset, and the offset of the next one. -/
def entry? (bytes : ByteArray) (offset : Nat) : Option ((String × ByteArray) × Nat) := do
  if (← number? bytes offset 4) ≠ 0x02014B50 then none
  else
    let method ← number? bytes (offset + 10) 2
    let expected ← number? bytes (offset + 16) 4
    let packedSize ← number? bytes (offset + 20) 4
    let nameLength ← number? bytes (offset + 28) 2
    let extraLength ← number? bytes (offset + 30) 2
    let commentLength ← number? bytes (offset + 32) 2
    let header ← number? bytes (offset + 42) 4
    let name ← String.fromUTF8? (← slice? bytes (offset + 46) nameLength)
    let content ← content? bytes header method packedSize
    if (checksum content).toNat ≠ expected then none
    else return ((name, content), offset + 46 + nameLength + extraLength + commentLength)

def entriesFrom? (bytes : ByteArray) : (count offset : Nat) → Option (List (String × ByteArray))
  | 0, _ => some []
  | count + 1, offset => do
    let (entry, next) ← entry? bytes offset
    return entry :: (← entriesFrom? bytes count next)

/-- Where the record that ends an archive starts. Only a comment may follow the record. -/
def endRecord? (bytes : ByteArray) : Option Nat :=
  if bytes.size < 22 then none
  else
    let greatest := bytes.size - 22
    let offsets := (List.range (min greatest 65535 + 1)).map fun back => greatest - back
    offsets.find? fun offset => number? bytes offset 4 = some 0x06054B50

/-- The entries of an archive with their names; `none` if the bytes are no archive. -/
def entries? (bytes : ByteArray) : Option (List (String × ByteArray)) := do
  let ending ← endRecord? bytes
  let count ← number? bytes (ending + 10) 2
  let directory ← number? bytes (ending + 16) 4
  entriesFrom? bytes count directory

end BytecodeFlow.Zip
