/-!
# Bits and prefix codes

Compressed data are a sequence of bits, the lowest of each byte first. Symbols are written in a
prefix code, which is given by the lengths of its words: words of one length are consecutive
numbers, in the order of their symbols, and shorter words come first.
-/

namespace SourceEdit.Zlib

abbrev Bits := List Bool

def bitsOf (bytes : List UInt8) : Bits :=
  bytes.flatMap fun b => (List.range 8).map fun i => b.toNat.testBit i

/-- The number that `n` bits make up, the lowest bit first, and what follows them. -/
def number? : Nat → Bits → Option (Nat × Bits)
  | 0, bits => some (0, bits)
  | _ + 1, [] => none
  | n + 1, b :: bits => do
    let (rest, bits) ← number? n bits
    return (b.toNat + 2 * rest, bits)

def atByte (bits : Bits) : Bits :=
  bits.drop (bits.length % 8)

/-- A prefix code: how many words there are of each length from one on, and the symbols in the
order of their words. -/
structure PrefixCode where
  counts : List Nat
  symbols : Array Nat
  deriving Inhabited

namespace PrefixCode

def longest : Nat := 15

/-- The code with words of the given lengths; a length of zero means that a symbol has no word. -/
def ofLengths (lengths : List Nat) : PrefixCode :=
  let sized := lengths.zipIdx
  let ofLength := fun n => (sized.filter (·.1 = n + 1)).map (·.2)
  let bySize := (List.range longest).map ofLength
  { counts := bySize.map List.length, symbols := bySize.flatten.toArray }

/-- Whether there is room for all words of some lengths, given `room` for words of the first. -/
def fits : List Nat → Nat → Bool
  | [], _ => true
  | n :: ns, room => n ≤ room && fits ns (2 * (room - n))

def isValid (c : PrefixCode) : Bool := fits c.counts 2

/-- Reads on in a word: `first` is the first word of the present length, `index` the place of its
symbol, and `word` the bits so far. -/
def symbolFrom? (symbols : Array Nat) :
    List Nat → (word first index : Nat) → Bits → Option (Nat × Bits)
  | [], _, _, _, _ => none
  | _, _, _, _, [] => none
  | count :: counts, word, first, index, b :: bits =>
    let word := 2 * word + b.toNat
    let first := 2 * first
    if word < first + count then (symbols[index + (word - first)]?).map (·, bits)
    else symbolFrom? symbols counts word (first + count) (index + count) bits

/-- The symbol whose word stands here, and what follows it. -/
def symbol? (c : PrefixCode) (bits : Bits) : Option (Nat × Bits) :=
  symbolFrom? c.symbols c.counts 0 0 0 bits

end PrefixCode

end SourceEdit.Zlib
