import Smalltalk.Compression.Huffman

namespace Smalltalk

/-! Decompression of a sequence of blocks. A block is stored as it is, or it is
written with two prefix codes: one for literal bytes and the lengths of
repetitions, the other for how far back a repetition starts. The codes are fixed
or described at the beginning of the block. -/

namespace Inflate

/-- Why decompression stops early. -/
inductive Failure where
  | truncated
  | corrupt
deriving DecidableEq

/-- What is read, the position of the next bit, and what has been written. -/
structure State where
  input : Array UInt8
  position : Nat
  output : Array UInt8 := #[]
deriving Inhabited

/-- A step of decompression. What was written before it failed remains. -/
abbrev Step := EStateM Failure State

/-- The bit at a position; within a byte the lowest bit comes first. -/
def bitAt (input : Array UInt8) (position : Nat) : Option Nat :=
  input[position / 8]?.map fun byte => byte.toNat >>> (position % 8) % 2

/-- Read a number of `count` bits, lowest first. -/
def bits : (count : Nat) → Step Nat
  | 0 => return 0
  | count + 1 => do
    let state ← get
    match bitAt state.input state.position with
    | none => throw .truncated
    | some bit =>
      set { state with position := state.position + 1 }
      return bit + 2 * (← bits count)

/-- Read a word of a code. -/
def word (code : HuffmanCode) : Step Nat := do
  let state ← get
  match code.read fun offset => bitAt state.input (state.position + offset) with
  | .truncated => throw .truncated
  | .unknown => throw .corrupt
  | .symbol symbol used =>
    set { state with position := state.position + used }
    return symbol

/-- The rest of the current byte is not used. -/
def align : Step Unit :=
  modify fun state => { state with position := (state.position + 7) / 8 * 8 }

/-- Write a byte. -/
def emit (byte : UInt8) : Step Unit :=
  modify fun state => { state with output := state.output.push byte }

/-- Write again `count` bytes, each the one written `distance` bytes before it;
what lies before the beginning counts as zero. -/
def emitCopy (distance : Nat) : (count : Nat) → Step Unit
  | 0 => return
  | count + 1 => do
    let output := (← get).output
    emit (if distance ≤ output.size then output[output.size - distance]?.getD 0 else 0)
    emitCopy distance count

/-! ## Stored blocks -/

/-- Copy bytes from the input. -/
def emitStored : (count : Nat) → Step Unit
  | 0 => return
  | count + 1 => do
    emit (UInt8.ofNat (← bits 8))
    emitStored count

def storedBlock : Step Unit := do
  align
  let length ← bits 16
  let complement ← bits 16
  if length + complement ≠ 65535 then throw .corrupt
  emitStored length

/-! ## Compressed blocks -/

/-- The least length of a repetition and the number of further bits, for the
symbols from 257 on. -/
def lengthTable : Array (Nat × Nat) :=
  #[(3, 0), (4, 0), (5, 0), (6, 0), (7, 0), (8, 0), (9, 0), (10, 0), (11, 1), (13, 1), (15, 1),
    (17, 1), (19, 2), (23, 2), (27, 2), (31, 2), (35, 3), (43, 3), (51, 3), (59, 3), (67, 4),
    (83, 4), (99, 4), (115, 4), (131, 5), (163, 5), (195, 5), (227, 5), (258, 0)]

/-- The least distance and the number of further bits. -/
def distanceTable : Array (Nat × Nat) :=
  #[(1, 0), (2, 0), (3, 0), (4, 0), (5, 1), (7, 1), (9, 2), (13, 2), (17, 3), (25, 3), (33, 4),
    (49, 4), (65, 5), (97, 5), (129, 6), (193, 6), (257, 7), (385, 7), (513, 8), (769, 8),
    (1025, 9), (1537, 9), (2049, 10), (3073, 10), (4097, 11), (6145, 11), (8193, 12),
    (12289, 12), (16385, 13), (24577, 13)]

/-- Read the further bits of an entry of a table; a symbol without an entry does
not occur. -/
def extended (table : Array (Nat × Nat)) (symbol : Nat) : Step Nat := do
  match table[symbol]? with
  | none => throw .corrupt
  | some (least, extra) => return least + (← bits extra)

/-- Read literals and repetitions to the end of the block. Every round reads at
least one bit, so a budget of one round per bit is enough. -/
def compressedBlock (literals distances : HuffmanCode) : (budget : Nat) → Step Unit
  | 0 => throw .truncated
  | budget + 1 => do
    let symbol ← word literals
    if symbol < 256 then
      emit (UInt8.ofNat symbol)
      compressedBlock literals distances budget
    else if symbol = 256 then
      return
    else
      let length ← extended lengthTable (symbol - 257)
      let distance ← extended distanceTable (← word distances)
      emitCopy distance length
      compressedBlock literals distances budget

/-- The codes that need no description. -/
def fixedLiterals : HuffmanCode :=
  .ofLengths (List.replicate 144 8 ++ List.replicate 112 9 ++ List.replicate 24 7
    ++ List.replicate 8 8)

def fixedDistances : HuffmanCode := .ofLengths (List.replicate 32 5)

/-- The order in which the lengths of the code for lengths are given. -/
def lengthOrder : List Nat :=
  [16, 17, 18, 0, 8, 7, 9, 6, 10, 5, 11, 4, 12, 3, 13, 2, 14, 1, 15]

/-- The code with the given lengths, if it is usable. -/
def usable (lengths : List Nat) : Step HuffmanCode := do
  let code := HuffmanCode.ofLengths lengths
  if code.isUsable then return code else throw .corrupt

/-- Read the lengths of `total` words, the ones read so far being given in
reverse. A length may be repeated, but not beyond the last word. -/
def wordLengths (code : HuffmanCode) (total : Nat) :
    (budget : Nat) → (read : List Nat) → Step (List Nat)
  | 0, read => return read.reverse
  | budget + 1, read => do
    if total < read.length then throw .corrupt
    if read.length = total then return read.reverse
    match ← word code with
    | 16 =>
      match read with
      | [] => throw .corrupt
      | previous :: _ =>
        let count ← bits 2
        wordLengths code total budget (List.replicate (count + 3) previous ++ read)
    | 17 =>
      let count ← bits 3
      wordLengths code total budget (List.replicate (count + 3) 0 ++ read)
    | 18 =>
      let count ← bits 7
      wordLengths code total budget (List.replicate (count + 11) 0 ++ read)
    | length => wordLengths code total budget (length :: read)

/-- Read one number of `width` bits for each of the given places. -/
def numbers (width : Nat) : List Nat → Step (List (Nat × Nat))
  | [] => return []
  | place :: rest => do
    let number ← bits width
    return (place, number) :: (← numbers width rest)

/-- Read the description of the two codes of a block. -/
def describedCodes : Step (HuffmanCode × HuffmanCode) := do
  let literalCount := 257 + (← bits 5)
  let distanceCount := 1 + (← bits 5)
  let lengthCount := 4 + (← bits 4)
  if 286 < literalCount ∨ 30 < distanceCount then throw .corrupt
  let given ← numbers 3 (lengthOrder.take lengthCount)
  let code ← usable ((List.range 19).map fun place => (given.lookup place).getD 0)
  let total := literalCount + distanceCount
  let lengths ← wordLengths code total (total + 1) []
  let distances ← usable (lengths.drop literalCount)
  let literals ← usable (lengths.take literalCount)
  return (literals, distances)

/-! ## The sequence of blocks -/

/-- The number of bits that are left. -/
def bitsLeft : Step Nat := do
  let state ← get
  return 8 * state.input.size - state.position

/-- Read blocks up to the last one. Every block has at least one bit. -/
def blocks : (budget : Nat) → Step Unit
  | 0 => throw .truncated
  | budget + 1 => do
    let last ← bits 1
    match ← bits 2 with
    | 0 => storedBlock
    | 1 => compressedBlock fixedLiterals fixedDistances ((← bitsLeft) + 1)
    | 2 =>
      let (literals, distances) ← describedCodes
      compressedBlock literals distances ((← bitsLeft) + 1)
    | _ => throw .corrupt
    if last = 1 then return
    blocks budget

/-- Decompress from a byte of the input on. -/
def run (input : Array UInt8) (start : Nat) : EStateM.Result Failure State Unit :=
  blocks (8 * input.size + 1) { input, position := 8 * start }

end Inflate

end Smalltalk
