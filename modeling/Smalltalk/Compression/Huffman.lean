namespace Smalltalk

/-! Canonical prefix codes. The lengths of the code words determine the code:
shorter words come first and words of one length follow each other in the order
of their symbols. -/

/-- A canonical code with words of up to fifteen bits. -/
structure HuffmanCode where
  /-- How many words there are of length 1, 2, … -/
  counts : List Nat
  /-- The symbols in the order of their words. -/
  symbols : Array Nat
deriving DecidableEq, Inhabited

namespace HuffmanCode

/-- The greatest length of a word. -/
def maximumLength : Nat := 15

/-- The code whose word for symbol `s` is `lengths[s]` bits long, zero bits
meaning that the symbol has none. -/
def ofLengths (lengths : List Nat) : HuffmanCode :=
  let indexed := lengths.zipIdx
  let ofLength (length : Nat) := (indexed.filter fun entry => entry.1 = length).map Prod.snd
  let groups := (List.range' 1 maximumLength).map ofLength
  { counts := groups.map List.length, symbols := groups.flatten.toArray }

/-- How much of the space of fifteen-bit strings the words cover, when `weight`
is the share of a word of the first length. -/
def coverage : (weight : Nat) → List Nat → Nat
  | _, [] => 0
  | weight, count :: rest => count * weight + coverage (weight / 2) rest

/-- A code has to cover every string exactly once, unless it has at most one
word. -/
def isUsable (code : HuffmanCode) : Bool :=
  coverage (1 <<< (maximumLength - 1)) code.counts = 1 <<< maximumLength ∨ code.symbols.size ≤ 1

/-- The outcome of reading a word from bits. -/
inductive Reading where
  | symbol (symbol : Nat) (used : Nat)
  /-- The bits end within a word. -/
  | truncated
  /-- No word starts the bits. -/
  | unknown
deriving DecidableEq

/-- Read a word bit by bit. Among the words of the current length `first` is the
least; `index` is its place among the symbols and `word` what has been read,
shifted for the next bit. -/
def readFrom (symbols : Array Nat) (bit? : Nat → Option Nat) :
    List Nat → (used word first index : Nat) → Reading
  | [], _, _, _, _ => .unknown
  | count :: rest, used, word, first, index =>
    match bit? used with
    | none => .truncated
    | some bit =>
      let word := word + bit
      if word < first + count then
        match symbols[index + (word - first)]? with
        | some symbol => .symbol symbol (used + 1)
        | none => .unknown
      else
        readFrom symbols bit? rest (used + 1) (2 * word) (2 * (first + count)) (index + count)

/-- Read a word from the bits that `bit?` gives by position. -/
def read (code : HuffmanCode) (bit? : Nat → Option Nat) : Reading :=
  readFrom code.symbols bit? code.counts 0 0 0 0

end HuffmanCode

end Smalltalk
