import LosslessYaml.Gzip.Inflate

/-!
# Gzip

Compressed files. Data is packed into blocks that are stored as they are, and any compressed data
can be unpacked.
-/

namespace LosslessYaml.Gzip

/-! ## Checksum -/

/-- One bit of the checksum. -/
def checksumBit (state : UInt32) : UInt32 :=
  if state &&& 1 == 1 then (state >>> 1) ^^^ 0xEDB88320 else state >>> 1

/-- One byte of the checksum. -/
def checksumByte (state : UInt32) (byte : UInt8) : UInt32 :=
  let s := state ^^^ byte.toUInt32
  checksumBit (checksumBit (checksumBit (checksumBit
    (checksumBit (checksumBit (checksumBit (checksumBit s)))))))

/-- The cyclic checksum of data. -/
def checksum (data : Bytes) : UInt32 := data.foldl checksumByte 0xFFFFFFFF ^^^ 0xFFFFFFFF

/-! ## Packing -/

/-- The first bytes of all compressed data. -/
def magic : Bytes := [0x1f, 0x8b]

/-- The greatest number of bytes in a stored block. -/
def blockSize : Nat := 65535

/-- A block that holds data as it is. -/
def storedBlock (final : Bool) (data : Bytes) : Bytes :=
  (if final then 1 else 0) ::
    (Bytes.ofNat 2 data.length ++ Bytes.ofNat 2 (65535 - data.length) ++ data)

/-- The blocks of data. -/
def storedBlocks (fuel : Nat) (data : Bytes) : Bytes :=
  match fuel with
  | 0 => storedBlock true data
  | fuel + 1 =>
    if data.length ≤ blockSize then storedBlock true data
    else storedBlock false (data.take blockSize) ++ storedBlocks fuel (data.drop blockSize)

/-- The header of compressed data and its blocks. -/
def body (data : Bytes) : Bytes :=
  magic ++ [8, 0, 0, 0, 0, 0, 0, 255] ++ storedBlocks (data.length / blockSize) data

/-- What follows the blocks: the checksum and the length. -/
def trailer (data : Bytes) : Bytes :=
  Bytes.ofNat 4 (checksum data).toNat ++ Bytes.ofNat 4 data.length

/-- Compressed data. -/
def pack (data : Bytes) : Bytes := body data ++ trailer data

/-! ## Unpacking -/

/-- The greatest length of a text in a header. -/
def nameSize : Nat := 65535

/-- The bytes after a text that ends with a zero. -/
def skipName (data : Bytes) : Option Bytes :=
  if nameSize < (data.takeWhile (· != 0)).length then none
  else
    match data.dropWhile (· != 0) with
    | _ :: rest => some rest
    | [] => none

/-- The bytes after the next `n`. -/
def skipBytes (n : Nat) (data : Bytes) : Option Bytes :=
  if n ≤ data.length then some (data.drop n) else none

/-- The bytes after what a header holds besides its checksum, and whether there is one. Flags that
have no meaning must not be set. -/
def skipFields : Bytes → Option (Bytes × Bool)
  | 0x1f :: 0x8b :: 8 :: flags :: rest => do
    if flags &&& 0xe0 != 0 then none
    let rest ← skipBytes 6 rest
    let rest ← if flags &&& 4 == 4 then do
        let after ← skipBytes 2 rest
        skipBytes (Bytes.toNat (rest.take 2)) after
      else some rest
    let rest ← if flags &&& 8 == 8 then skipName rest else some rest
    let rest ← if flags &&& 16 == 16 then skipName rest else some rest
    some (rest, flags &&& 2 == 2)
  | _ => none

/-- The bytes after the header. Its checksum is the lower half of that of the bytes before. -/
def skipHeader (data : Bytes) : Option Bytes := do
  let (rest, isChecked) ← skipFields data
  if isChecked then
    let fields := data.take (data.length - rest.length)
    let after ← skipBytes 2 rest
    if Bytes.toNat (rest.take 2) == (checksum fields).toNat % 65536 then some after else none
  else some rest

/-- The data that was packed. What follows the first packed data is left out. -/
def unpack (data : Bytes) : Option Bytes := do
  let blocks ← skipHeader data
  let (found, rest) ← inflate blocks
  if rest.take 8 == trailer found then some found else none

end LosslessYaml.Gzip
