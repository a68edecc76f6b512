import SourceEdit.Zlib.PrefixCode

/-!
# Compressed data

Data are compressed in blocks: bytes as they are, or symbols of a prefix code, of which some stand
for bytes and others for stretches that occurred before. Around the blocks there are a header and
a checksum.
-/

namespace SourceEdit.Zlib

/-! ## Stretches -/

/-- For symbols of lengths or distances: the least value and the number of further bits. -/
abbrev Ranges := Array (Nat × Nat)

/-- Lengths from three on, by symbol less 257. -/
def lengthRanges : Ranges := #[
  (3, 0), (4, 0), (5, 0), (6, 0), (7, 0), (8, 0), (9, 0), (10, 0), (11, 1), (13, 1), (15, 1),
  (17, 1), (19, 2), (23, 2), (27, 2), (31, 2), (35, 3), (43, 3), (51, 3), (59, 3), (67, 4),
  (83, 4), (99, 4), (115, 4), (131, 5), (163, 5), (195, 5), (227, 5), (258, 0)]

def distanceRanges : Ranges := #[
  (1, 0), (2, 0), (3, 0), (4, 0), (5, 1), (7, 1), (9, 2), (13, 2), (17, 3), (25, 3), (33, 4),
  (49, 4), (65, 5), (97, 5), (129, 6), (193, 6), (257, 7), (385, 7), (513, 8), (769, 8),
  (1025, 9), (1537, 9), (2049, 10), (3073, 10), (4097, 11), (6145, 11), (8193, 12), (12289, 12),
  (16385, 13), (24577, 13)]

def inRange? (ranges : Ranges) (symbol : Nat) (bits : Bits) : Option (Nat × Bits) := do
  let (least, further) ← ranges[symbol]?
  let (more, bits) ← number? further bits
  return (least + more, bits)

/-- Repeats what stands a distance back, byte by byte. -/
def copyBack (distance : Nat) : Nat → Array UInt8 → Array UInt8
  | 0, out => out
  | n + 1, out => copyBack distance n (out.push (out.getD (out.size - distance) 0))

/-! ## Blocks -/

structure Codes where
  literals : PrefixCode
  distances : PrefixCode

/-- Reads symbols up to the end of the block; the number of bits bounds the number of steps. -/
def symbols? (codes : Codes) : Nat → Array UInt8 → Bits → Option (Array UInt8 × Bits)
  | 0, _, _ => none
  | fuel + 1, out, bits => do
    let (symbol, bits) ← codes.literals.symbol? bits
    if symbol < 256 then symbols? codes fuel (out.push symbol.toUInt8) bits
    else if symbol = 256 then return (out, bits)
    else
      let (length, bits) ← inRange? lengthRanges (symbol - 257) bits
      let (symbol, bits) ← codes.distances.symbol? bits
      let (distance, bits) ← inRange? distanceRanges symbol bits
      if distance ≤ out.size then symbols? codes fuel (copyBack distance length out) bits
      else none

/-- The codes that a block may use without saying so. -/
def fixedCodes : Codes where
  literals := .ofLengths (.replicate 144 8 ++ .replicate 112 9 ++ .replicate 24 7 ++ .replicate 8 8)
  distances := .ofLengths (.replicate 30 5)

/-- The order in which the lengths of the code for lengths are given. -/
def lengthOrder : List Nat := [16, 17, 18, 0, 8, 7, 9, 6, 10, 5, 11, 4, 12, 3, 13, 2, 14, 1, 15]

def shortNumbers? : Nat → Bits → Option (List Nat × Bits)
  | 0, bits => some ([], bits)
  | n + 1, bits => do
    let (first, bits) ← number? 3 bits
    let (others, bits) ← shortNumbers? n bits
    return (first :: others, bits)

/-- Reads lengths of words until there are `total`, the latest first. Some symbols repeat the
latest length, or a length of zero. -/
def wordLengths? (code : PrefixCode) (total : Nat) :
    Nat → List Nat → Bits → Option (List Nat × Bits)
  | 0, _, _ => none
  | fuel + 1, lengths, bits =>
    if lengths.length = total then some (lengths.reverse, bits)
    else if lengths.length > total then none
    else do
      let (symbol, bits) ← code.symbol? bits
      let repeated := fun (value bitCount least : Nat) => do
        let (more, bits) ← number? bitCount bits
        wordLengths? code total fuel (List.replicate (least + more) value ++ lengths) bits
      if symbol < 16 then wordLengths? code total fuel (symbol :: lengths) bits
      else if symbol = 16 then repeated (← lengths.head?) 2 3
      else if symbol = 17 then repeated 0 3 3
      else repeated 0 7 11

def codes? (bits : Bits) : Option (Codes × Bits) := do
  let (literalCount, bits) ← number? 5 bits
  let (distanceCount, bits) ← number? 5 bits
  let (lengthCount, bits) ← number? 4 bits
  let (short, bits) ← shortNumbers? (lengthCount + 4) bits
  let given := lengthOrder.zip short
  let code := PrefixCode.ofLengths ((List.range 19).map fun s => (given.lookup s).getD 0)
  let literalCount := literalCount + 257
  let distanceCount := distanceCount + 1
  let (lengths, bits) ←
    wordLengths? code (literalCount + distanceCount) (bits.length + 1) [] bits
  let literals := PrefixCode.ofLengths (lengths.take literalCount)
  let distances := PrefixCode.ofLengths (lengths.drop literalCount)
  if code.isValid && literals.isValid && distances.isValid then
    return ({ literals, distances }, bits)
  else none

def bytes? : Nat → Array UInt8 → Bits → Option (Array UInt8 × Bits)
  | 0, out, bits => some (out, bits)
  | n + 1, out, bits => do
    let (byte, bits) ← number? 8 bits
    bytes? n (out.push byte.toUInt8) bits

/-- A block of bytes as they are: their number, twice, and the bytes. -/
def storedBlock? (out : Array UInt8) (bits : Bits) : Option (Array UInt8 × Bits) := do
  let (size, bits) ← number? 16 (atByte bits)
  let (check, bits) ← number? 16 bits
  if size + check = 65535 then bytes? size out bits else none

/-- Reads blocks up to the last one; the number of bits bounds the number of steps. -/
def blocks? : Nat → Array UInt8 → Bits → Option (Array UInt8 × Bits)
  | 0, _, _ => none
  | fuel + 1, out, bits => do
    let (isLast, bits) ← number? 1 bits
    let (kind, bits) ← number? 2 bits
    let (out, bits) ←
      match kind with
      | 0 => storedBlock? out bits
      | 1 => symbols? fixedCodes (bits.length + 1) out bits
      | 2 => do
        let (codes, bits) ← codes? bits
        symbols? codes (bits.length + 1) out bits
      | _ => none
    if isLast = 1 then return (out, bits) else blocks? fuel out bits

/-! ## Header and checksum -/

/-- The checksum of some bytes: the sum of the bytes, and the sum of all sums on the way. -/
def checksum (bytes : Array UInt8) : Nat :=
  let (a, b) := bytes.foldl
    (fun (a, b) byte => let a := (a + byte.toNat) % 65521; (a, (b + a) % 65521)) (1, 0)
  b * 65536 + a

/-- A number of four bytes, the highest first. -/
def wordAt? (bits : Bits) : Option Nat := do
  let (a, bits) ← number? 8 bits
  let (b, bits) ← number? 8 bits
  let (c, bits) ← number? 8 bits
  let (d, _) ← number? 8 bits
  return ((a * 256 + b) * 256 + c) * 256 + d

def decompress? (bytes : ByteArray) : Option ByteArray :=
  match bytes.toList with
  | first :: second :: rest => do
    let method := first.toNat % 16
    let dictionary := second.toNat.testBit 5
    if method ≠ 8 ∨ dictionary ∨ (first.toNat * 256 + second.toNat) % 31 ≠ 0 then none
    else
      let bits := bitsOf rest
      let (out, bits) ← blocks? (bits.length + 1) #[] bits
      if (← wordAt? (atByte bits)) = checksum out then return ⟨out⟩ else none
  | _ => none

end SourceEdit.Zlib
