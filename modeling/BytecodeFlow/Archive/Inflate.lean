/-
This file expands data in the DEFLATE format. Bits fill each byte from its
lowest bit on, as `BitReader` reads them. A block holds its bytes as they are
(`stored?`), or as a sequence of words of two prefix codes, by which single
bytes and repetitions of earlier output are written (`expand?`); the codes are
fixed, or the block starts with their word lengths (`codes?`). `inflate?` takes
one block after the other.
-/

namespace BytecodeFlow

/-- A place in a sequence of bits. -/
structure BitReader where
  bytes : ByteArray
  /-- The number of bits that were read. -/
  position : Nat

namespace BitReader

def bit? (reader : BitReader) : Option (Nat × BitReader) := do
  let byte ← reader.bytes[reader.position / 8]?
  return (byte.toNat >>> (reader.position % 8) % 2,
    { reader with position := reader.position + 1 })

/-- A number of the given width, its lowest bit first. -/
def bits? (reader : BitReader) : (width : Nat) → Option (Nat × BitReader)
  | 0 => some (0, reader)
  | width + 1 => do
    let (low, reader) ← reader.bit?
    let (high, reader) ← reader.bits? width
    return (low + 2 * high, reader)

/-- Skip what is left of a byte that was begun. -/
def align (reader : BitReader) : BitReader :=
  { reader with position := (reader.position + 7) / 8 * 8 }

/-- The given number of whole bytes. -/
def take? (reader : BitReader) (count : Nat) : Option (ByteArray × BitReader) :=
  let start := reader.position / 8
  if start + count ≤ reader.bytes.size then
    some (reader.bytes.extract start (start + count),
      { reader with position := 8 * (start + count) })
  else none

end BitReader

/-! ### Prefix codes -/

/-- A code in which words of one length are consecutive numbers, and follow those of the shorter
lengths. -/
structure PrefixCode where
  /-- How many words there are of each length, from one bit on. -/
  counts : List Nat
  /-- The symbols in the order of their words. -/
  symbols : Array Nat

namespace PrefixCode

/-- The longest words have fifteen bits. -/
def wordLengths : List Nat := (List.range 15).map (· + 1)

/-- The code that gives each symbol a word of the listed length, and none to a symbol with length
zero. -/
def ofLengths (lengths : List Nat) : PrefixCode :=
  let symbolsWith (wordLength : Nat) : List Nat :=
    (lengths.zipIdx.filter fun (length, _) => length == wordLength).map Prod.snd
  { counts := wordLengths.map fun wordLength => lengths.count wordLength
    symbols := (wordLengths.flatMap symbolsWith).toArray }

/-- Read on in a word. The bits so far are `word`, the least word that is longer than those
passed over is `least`, and `passed` words were passed over. -/
def symbolFrom? (symbols : Array Nat) :
    (counts : List Nat) → (word least passed : Nat) → BitReader → Option (Nat × BitReader)
  | [], _, _, _, _ => none
  | count :: counts, word, least, passed, reader => do
    let (bit, reader) ← reader.bit?
    let word := 2 * word + bit
    let least := 2 * least
    if word < least + count then return (← symbols[passed + (word - least)]?, reader)
    else symbolFrom? symbols counts word (least + count) (passed + count) reader

def symbol? (code : PrefixCode) (reader : BitReader) : Option (Nat × BitReader) :=
  symbolFrom? code.symbols code.counts 0 0 0 reader

end PrefixCode

namespace Inflate

/-! ### Repetitions -/

/-- The least length and the number of further bits for each symbol of a repetition. -/
def lengthRanges : Array (Nat × Nat) := #[
  (3, 0), (4, 0), (5, 0), (6, 0), (7, 0), (8, 0), (9, 0), (10, 0), (11, 1), (13, 1), (15, 1),
  (17, 1), (19, 2), (23, 2), (27, 2), (31, 2), (35, 3), (43, 3), (51, 3), (59, 3), (67, 4),
  (83, 4), (99, 4), (115, 4), (131, 5), (163, 5), (195, 5), (227, 5), (258, 0)]

/-- The least distance and the number of further bits for each symbol of a distance. -/
def distanceRanges : Array (Nat × Nat) := #[
  (1, 0), (2, 0), (3, 0), (4, 0), (5, 1), (7, 1), (9, 2), (13, 2), (17, 3), (25, 3), (33, 4),
  (49, 4), (65, 5), (97, 5), (129, 6), (193, 6), (257, 7), (385, 7), (513, 8), (769, 8),
  (1025, 9), (1537, 9), (2049, 10), (3073, 10), (4097, 11), (6145, 11), (8193, 12), (12289, 12),
  (16385, 13), (24577, 13)]

/-- A number from one of these ranges. -/
def ranged? (ranges : Array (Nat × Nat)) (symbol : Nat) (reader : BitReader) :
    Option (Nat × BitReader) := do
  let (least, width) ← ranges[symbol]?
  let (more, reader) ← reader.bits? width
  return (least + more, reader)

/-- Repeat output that lies some distance back. What is written can be repeated at once. -/
def repeat? (distance : Nat) : (length : Nat) → ByteArray → Option ByteArray
  | 0, output => some output
  | length + 1, output =>
    if output.size < distance then none
    else do repeat? distance length (output.push (← output[output.size - distance]?))

/-! ### Blocks -/

/-- Expand the words of a block. Each turn reads at least one bit. -/
def expand? (literals distances : PrefixCode) :
    (turns : Nat) → BitReader → ByteArray → Option (ByteArray × BitReader)
  | 0, _, _ => none
  | turns + 1, reader, output => do
    let (symbol, reader) ← literals.symbol? reader
    if symbol < 256 then expand? literals distances turns reader (output.push symbol.toUInt8)
    else if symbol = 256 then return (output, reader)
    else
      let (length, reader) ← ranged? lengthRanges (symbol - 257) reader
      let (distanceSymbol, reader) ← distances.symbol? reader
      let (distance, reader) ← ranged? distanceRanges distanceSymbol reader
      expand? literals distances turns reader (← repeat? distance length output)

def fixedLiterals : PrefixCode :=
  .ofLengths (List.replicate 144 8 ++ List.replicate 112 9 ++ List.replicate 24 7 ++
    List.replicate 8 8)

def fixedDistances : PrefixCode := .ofLengths (List.replicate 30 5)

/-- The order in which the word lengths of the code for word lengths are written. -/
def metaOrder : List Nat := [16, 17, 18, 0, 8, 7, 9, 6, 10, 5, 11, 4, 12, 3, 13, 2, 14, 1, 15]

/-- A list of numbers of three bits. -/
def triples? : (count : Nat) → BitReader → Option (List Nat × BitReader)
  | 0, reader => some ([], reader)
  | count + 1, reader => do
    let (head, reader) ← reader.bits? 3
    let (tail, reader) ← triples? count reader
    return (head :: tail, reader)

/-- The code for word lengths. -/
def metaCode (lengths : List Nat) : PrefixCode :=
  let written := metaOrder.zip lengths
  .ofLengths ((List.range 19).map fun symbol => (written.lookup symbol).getD 0)

/-- Word lengths, with runs of one length written short. Each turn adds at least one of them. -/
def wordLengths? (code : PrefixCode) (total : Nat) :
    (turns : Nat) → Array Nat → BitReader → Option (Array Nat × BitReader)
  | 0, lengths, reader => if lengths.size = total then some (lengths, reader) else none
  | turns + 1, lengths, reader =>
    if lengths.size = total then some (lengths, reader)
    else do
      let (symbol, reader) ← code.symbol? reader
      let run (length least width : Nat) : Option (Array Nat × BitReader) := do
        let (more, reader) ← reader.bits? width
        wordLengths? code total turns (lengths ++ Array.replicate (least + more) length) reader
      match symbol with
      | 16 => run (← lengths.back?) 3 2
      | 17 => run 0 3 3
      | 18 => run 0 11 7
      | length => wordLengths? code total turns (lengths.push length) reader

/-- The two codes at the start of a block. -/
def codes? (reader : BitReader) : Option (PrefixCode × PrefixCode × BitReader) := do
  let (literalCount, reader) ← reader.bits? 5
  let (distanceCount, reader) ← reader.bits? 5
  let (metaCount, reader) ← reader.bits? 4
  let (metaLengths, reader) ← triples? (metaCount + 4) reader
  let literalCount := literalCount + 257
  let total := literalCount + distanceCount + 1
  let (lengths, reader) ← wordLengths? (metaCode metaLengths) total total #[] reader
  return (.ofLengths (lengths.toList.take literalCount),
    .ofLengths (lengths.toList.drop literalCount), reader)

/-- The bytes of a block as they are, after their number and its complement. -/
def stored? (reader : BitReader) (output : ByteArray) : Option (ByteArray × BitReader) := do
  let (length, reader) ← reader.align.bits? 16
  let (complement, reader) ← reader.bits? 16
  if length + complement ≠ 65535 then none
  else
    let (bytes, reader) ← reader.take? length
    return (output ++ bytes, reader)

/-- Expand blocks up to the one marked as the last. Each turn reads at least three bits. -/
def blocks? (limit : Nat) : (turns : Nat) → BitReader → ByteArray → Option ByteArray
  | 0, _, _ => none
  | turns + 1, reader, output => do
    let (last, reader) ← reader.bits? 1
    let (kind, reader) ← reader.bits? 2
    let (output, reader) ←
      match kind with
      | 0 => stored? reader output
      | 1 => expand? fixedLiterals fixedDistances limit reader output
      | 2 => do
        let (literals, distances, reader) ← codes? reader
        expand? literals distances limit reader output
      | _ => none
    if last = 1 then return output else blocks? limit turns reader output

end Inflate

/-- Expand compressed data. -/
def inflate? (bytes : ByteArray) : Option ByteArray :=
  Inflate.blocks? (8 * bytes.size) (8 * bytes.size) ⟨bytes, 0⟩ ByteArray.empty

end BytecodeFlow
