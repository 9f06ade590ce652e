import LosslessYaml.Bytes

/-!
# Inflation

Reading of data in the DEFLATE format: blocks that are stored as they are, and blocks of literals
and repetitions in canonical codes.
-/

namespace LosslessYaml.Gzip

/-! ## Bits -/

/-- What is left of the data. The lowest bit of a byte comes first; `buffer` holds the `width` bits
of the byte that was begun. -/
structure Bits where
  bytes : Bytes
  buffer : Nat := 0
  width : Nat := 0

namespace Bits

/-- Reads one bit. -/
def bit (r : Bits) : Option (Nat × Bits) :=
  match r.width, r.bytes with
  | n + 1, _ => some (r.buffer % 2, { r with buffer := r.buffer / 2, width := n })
  | 0, byte :: bytes => some (byte.toNat % 2, ⟨bytes, byte.toNat / 2, 7⟩)
  | 0, [] => none

/-- Reads a number of several bits, the lowest one first. -/
def number : Nat → Bits → Option (Nat × Bits)
  | 0, r => some (0, r)
  | n + 1, r => do
    let (low, r) ← r.bit
    let (high, r) ← number n r
    some (low + 2 * high, r)

/-- Reads whole bytes, from the start of the next one. -/
def aligned (r : Bits) (count : Nat) : Option (Bytes × Bits) :=
  if count ≤ r.bytes.length then some (r.bytes.take count, ⟨r.bytes.drop count, 0, 0⟩) else none

end Bits

/-! ## Codes -/

/-- A canonical code: how many symbols have a code of one bit, of two bits and so on, and the
symbols in the order of their codes. -/
structure Code where
  counts : List Nat
  symbols : Array Nat

/-- The greatest length of a code. -/
def maxLength : Nat := 15

/-- The code in which symbol `n` has the length at place `n`, zero for none. -/
def Code.ofLengths (lengths : List Nat) : Code where
  counts := (List.range maxLength).map fun n => lengths.count (n + 1)
  symbols := ((List.range maxLength).flatMap fun n =>
    (lengths.zipIdx.filter fun entry => entry.1 == n + 1).map (·.2)).toArray

/-- Whether the lengths are those of a code that uses up all sequences of bits. -/
def isComplete (lengths : List Nat) : Bool :=
  (lengths.map fun n => if n == 0 then 0 else Nat.pow 2 (maxLength - n)).foldl (· + ·) 0 ==
    Nat.pow 2 maxLength

/-- Whether the lengths are those of a code for a block. A code of a single symbol, or of none, need
not use up all sequences of bits. -/
def isCode (lengths : List Nat) : Bool :=
  isComplete lengths || (lengths.filter (· != 0)).length ≤ 1

/-- Reads a symbol. `code` is what was read of it, `first` the first code of this length, and
`index` the place of its symbol. -/
def Code.decode (symbols : Array Nat) (code first index : Nat) :
    List Nat → Bits → Option (Nat × Bits)
  | [], _ => none
  | count :: counts, r => do
    let (bit, r) ← r.bit
    let code := 2 * code + bit
    if code < first + count then
      let symbol ← symbols[index + (code - first)]?
      some (symbol, r)
    else Code.decode symbols code (2 * (first + count)) (index + count) counts r

/-- Reads a symbol of the code. -/
def Code.symbol (c : Code) (r : Bits) : Option (Nat × Bits) :=
  Code.decode c.symbols 0 0 0 c.counts r

/-! ## Blocks -/

/-- The least length, or distance, that a symbol stands for, and the bits that are added to it. -/
def lengthBases : Array (Nat × Nat) :=
  #[(3, 0), (4, 0), (5, 0), (6, 0), (7, 0), (8, 0), (9, 0), (10, 0), (11, 1), (13, 1),
    (15, 1), (17, 1), (19, 2), (23, 2), (27, 2), (31, 2), (35, 3), (43, 3), (51, 3), (59, 3),
    (67, 4), (83, 4), (99, 4), (115, 4), (131, 5), (163, 5), (195, 5), (227, 5), (258, 0)]

@[inherit_doc lengthBases]
def distanceBases : Array (Nat × Nat) :=
  #[(1, 0), (2, 0), (3, 0), (4, 0), (5, 1), (7, 1), (9, 2), (13, 2), (17, 3), (25, 3),
    (33, 4), (49, 4), (65, 5), (97, 5), (129, 6), (193, 6), (257, 7), (385, 7), (513, 8),
    (769, 8), (1025, 9), (1537, 9), (2049, 10), (3073, 10), (4097, 11), (6145, 11),
    (8193, 12), (12289, 12), (16385, 13), (24577, 13)]

/-- Reads the number that a symbol and the bits after it stand for. -/
def extended (bases : Array (Nat × Nat)) (symbol : Nat) (r : Bits) : Option (Nat × Bits) := do
  let (base, bits) ← bases[symbol]?
  let (extra, r) ← r.number bits
  some (base + extra, r)

/-- The byte `distance` back. Before the data there are zeros. -/
def byteBack (distance : Nat) (out : Array UInt8) : UInt8 :=
  if distance ≤ out.size then out.getD (out.size - distance) 0 else 0

/-- Repeats `count` bytes from `distance` back, one after the other. -/
def repeated (distance : Nat) : Nat → Array UInt8 → Array UInt8
  | 0, out => out
  | count + 1, out => repeated distance count (out.push (byteBack distance out))

/-- Reads the symbols of a block up to its end. -/
def symbols (literals distances : Code) (fuel : Nat) (out : Array UInt8) (r : Bits) :
    Option (Array UInt8 × Bits) :=
  match fuel with
  | 0 => none
  | fuel + 1 => do
    let (symbol, r) ← literals.symbol r
    if symbol < 256 then symbols literals distances fuel (out.push (UInt8.ofNat symbol)) r
    else if symbol == 256 then some (out, r)
    else
      let (length, r) ← extended lengthBases (symbol - 257) r
      let (symbol, r) ← distances.symbol r
      let (distance, r) ← extended distanceBases symbol r
      symbols literals distances fuel (repeated distance length out) r

/-- The fixed code of literals and lengths. -/
def fixedLiterals : Code :=
  .ofLengths
    (List.replicate 144 8 ++ List.replicate 112 9 ++ List.replicate 24 7 ++ List.replicate 8 8)

/-- The fixed code of distances. -/
def fixedDistances : Code := .ofLengths (List.replicate 30 5)

/-- Reads `count` numbers of three bits. -/
def smallLengths : Nat → Bits → Option (List Nat × Bits)
  | 0, r => some ([], r)
  | count + 1, r => do
    let (n, r) ← r.number 3
    let (more, r) ← smallLengths count r
    some (n :: more, r)

/-- The order in which the lengths for the code of lengths are given. -/
def lengthOrder : List Nat := [16, 17, 18, 0, 8, 7, 9, 6, 10, 5, 11, 4, 12, 3, 13, 2, 14, 1, 15]

/-- Reads lengths of codes until there are `count` of them. `found` holds those that were read, the
last one first. -/
def codeLengths (c : Code) (count fuel : Nat) (found : List Nat) (r : Bits) :
    Option (List Nat × Bits) :=
  match fuel with
  | 0 => none
  | fuel + 1 =>
    if count == found.length then some (found.reverse, r)
    else if count < found.length then none
    else do
      let (symbol, r) ← c.symbol r
      if symbol < 16 then codeLengths c count fuel (symbol :: found) r
      else if symbol == 16 then
        let last ← found.head?
        let (n, r) ← r.number 2
        codeLengths c count fuel (List.replicate (n + 3) last ++ found) r
      else
        let (n, r) ← r.number (if symbol == 17 then 3 else 7)
        codeLengths c count fuel (List.replicate (n + if symbol == 17 then 3 else 11) 0 ++ found) r

/-- Reads the codes that a block starts with. -/
def codes (r : Bits) : Option (Code × Code × Bits) := do
  let (literals, r) ← r.number 5
  let (distances, r) ← r.number 5
  let (lengths, r) ← r.number 4
  if 286 < literals + 257 || 30 < distances + 1 then none
  let (small, r) ← smallLengths (lengths + 4) r
  let assigned := lengthOrder.zip small
  let order := (List.range 19).map fun n => (assigned.lookup n).getD 0
  if !isComplete order then none
  let count := literals + 257 + (distances + 1)
  let (all, r) ← codeLengths (.ofLengths order) count (count + 1) [] r
  let (first, second) := all.splitAt (literals + 257)
  if isCode first && isCode second then some (.ofLengths first, .ofLengths second, r) else none

/-- Reads blocks up to the last one. -/
def blocks (fuel : Nat) (out : Array UInt8) (r : Bits) : Option (Array UInt8 × Bits) :=
  match fuel with
  | 0 => none
  | fuel + 1 => do
    let (final, r) ← r.bit
    let (kind, r) ← r.number 2
    let size := 8 * r.bytes.length + 9
    let (out, r) ← match kind with
      | 0 => do
        let (header, r) ← r.aligned 4
        let length := Bytes.toNat (header.take 2)
        if length + Bytes.toNat (header.drop 2) == 65535 then
          let (data, r) ← r.aligned length
          some (out ++ data.toArray, r)
        else none
      | 1 => symbols fixedLiterals fixedDistances size out r
      | 2 => do
        let (literals, distances, r) ← codes r
        symbols literals distances size out r
      | _ => none
    if final == 1 then some (out, r) else blocks fuel out r

/-- The data that the blocks hold, and the bytes after them. -/
def inflate (data : Bytes) : Option (Bytes × Bytes) := do
  let (out, r) ← blocks (8 * data.length + 1) #[] { bytes := data }
  some (out.toList, r.bytes)

end LosslessYaml.Gzip
