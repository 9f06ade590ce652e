import LosslessYaml.Gzip

/-!
# Packed data

Unpacking gives back what was packed. Data is packed into stored blocks, so the argument goes block
by block: one block is read back as it is (`blocks_storedBlock`), and by induction on the number of
blocks all of them are. What comes after the blocks is not read, which is why the statements have a
rest.

Packed data is never a text: its second byte can only stand inside a character.
-/

namespace LosslessYaml

/-! ## Numbers in bytes -/

namespace Bytes

@[simp]
theorem length_ofNat (count n : Nat) : (ofNat count n).length = count := by
  induction count generalizing n with
  | zero => rfl
  | succ count ih => simp [ofNat, ih]

/-- A number that fits is read back. -/
theorem toNat_ofNat {count n : Nat} (h : n < Nat.pow 256 count) : toNat (ofNat count n) = n := by
  induction count generalizing n with
  | zero => exact (Nat.lt_one_iff.mp h).symm
  | succ count ih =>
      have hhigh : n / 256 < Nat.pow 256 count := Nat.div_lt_of_lt_mul (by rwa [Nat.mul_comm])
      have hlow : (UInt8.ofNat (n % 256)).toNat = n % 256 := by
        rw [UInt8.toNat_ofNat']
        omega
      rw [ofNat, toNat, ih hhigh, hlow]
      omega

end Bytes

namespace Gzip

/-! ## Blocks -/

theorem Bits.aligned_append (first rest : Bytes) (buffer width : Nat) :
    Bits.aligned ⟨first ++ rest, buffer, width⟩ first.length = some (first, ⟨rest, 0, 0⟩) := by
  simp [Bits.aligned]

/-- A stored block is read as it is. -/
theorem blocks_storedBlock (final : Bool) {data : Bytes} (hdata : data.length ≤ blockSize)
    (fuel : Nat) (out : Array UInt8) (rest : Bytes) :
    blocks (fuel + 1) out ⟨storedBlock final data ++ rest, 0, 0⟩ =
      if final then some (out ++ data.toArray, ⟨rest, 0, 0⟩)
      else blocks fuel (out ++ data.toArray) ⟨rest, 0, 0⟩ := by
  -- The first byte tells that the block is stored, and the next four bytes its length twice.
  have hbit : ∀ bytes, Bits.bit ⟨(if final then 1 else 0) :: bytes, 0, 0⟩ =
      some (if final then 1 else 0, ⟨bytes, 0, 7⟩) := by
    intro bytes
    cases final <;> rfl
  have hkind : ∀ bytes, Bits.number 2 ⟨bytes, 0, 7⟩ = some (0, ⟨bytes, 0, 5⟩) := by
    intro bytes
    simp [Bits.number, Bits.bit]
  have hheader : Bits.aligned ⟨Bytes.ofNat 2 data.length ++ Bytes.ofNat 2 (65535 - data.length) ++
      data ++ rest, 0, 5⟩ 4 = some (Bytes.ofNat 2 data.length ++
        Bytes.ofNat 2 (65535 - data.length), ⟨data ++ rest, 0, 0⟩) := by
    rw [List.append_assoc _ data rest]
    exact Bits.aligned_append _ _ 0 5
  have hlength : Bytes.toNat (Bytes.ofNat 2 data.length) = data.length :=
    Bytes.toNat_ofNat (Nat.lt_succ_of_le hdata)
  have hcheck : Bytes.toNat (Bytes.ofNat 2 (65535 - data.length)) = 65535 - data.length :=
    Bytes.toNat_ofNat (Nat.lt_of_le_of_lt (Nat.sub_le _ _) (by decide))
  have hsum : data.length + (65535 - data.length) = 65535 := Nat.add_sub_of_le hdata
  have hfinal : ((if final then 1 else 0) == 1) = final := by cases final <;> rfl
  rw [storedBlock, List.cons_append, blocks, hbit]
  simp only [Option.bind_eq_bind, Option.bind_some, hkind, hheader]
  simp [hlength, hcheck, hsum, Bits.aligned_append, hfinal]

/-- All blocks of data are read. -/
theorem blocks_storedBlocks {count fuel : Nat} {data : Bytes}
    (hdata : data.length < (count + 1) * blockSize) (hfuel : count < fuel) (out : Array UInt8)
    (rest : Bytes) :
    blocks fuel out ⟨storedBlocks count data ++ rest, 0, 0⟩ =
      some (out ++ data.toArray, ⟨rest, 0, 0⟩) := by
  induction count generalizing fuel data out with
  | zero =>
      obtain ⟨fuel, rfl⟩ := Nat.exists_eq_add_of_lt hfuel
      rw [storedBlocks, Nat.zero_add, blocks_storedBlock true (by omega), if_pos rfl]
  | succ count ih =>
      obtain ⟨fuel, rfl⟩ : ∃ less, fuel = less + 1 := ⟨fuel - 1, by omega⟩
      rw [storedBlocks]
      split
      next hshort => rw [blocks_storedBlock true hshort, if_pos rfl]
      next hlong =>
        have hfirst : (data.take blockSize).length ≤ blockSize := List.length_take_le _ _
        have hmore : (data.drop blockSize).length < (count + 1) * blockSize := by
          rw [List.length_drop]
          rw [Nat.add_mul (count + 1) 1] at hdata
          omega
        have hparts : (data.take blockSize).toArray ++ (data.drop blockSize).toArray =
            data.toArray := by simp
        rw [List.append_assoc, blocks_storedBlock false hfirst, if_neg (by simp),
          ih hmore (by omega), Array.append_assoc, hparts]

/-- Data takes at least its own length. -/
theorem length_le_storedBlocks (count : Nat) (data : Bytes) :
    data.length ≤ (storedBlocks count data).length := by
  have hblock : ∀ (final : Bool) (part : Bytes),
      (storedBlock final part).length = part.length + 5 := by
    intro final part
    simp [storedBlock]
    omega
  induction count generalizing data with
  | zero =>
      rw [storedBlocks, hblock]
      omega
  | succ count ih =>
      rw [storedBlocks]
      split
      · rw [hblock]
        omega
      · have hlength := congrArg List.length (List.take_append_drop blockSize data)
        have hmore := ih (data.drop blockSize)
        rw [List.length_append] at hlength ⊢
        rw [hblock]
        omega

theorem inflate_storedBlocks (data rest : Bytes) :
    inflate (storedBlocks (data.length / blockSize) data ++ rest) = some (data, rest) := by
  have hdata : data.length < (data.length / blockSize + 1) * blockSize := by
    unfold blockSize
    omega
  have hfuel : data.length / blockSize <
      8 * (storedBlocks (data.length / blockSize) data ++ rest).length + 1 := by
    have hlength := length_le_storedBlocks (data.length / blockSize) data
    have hcount := Nat.div_le_self data.length blockSize
    rw [List.length_append]
    omega
  rw [inflate, blocks_storedBlocks hdata hfuel]
  simp

/-! ## Headers and trailers -/

theorem skipHeader_body (rest : Bytes) :
    skipHeader (magic ++ [8, 0, 0, 0, 0, 0, 0, 255] ++ rest) = some rest := by
  simp [skipHeader, skipFields, magic, skipBytes]

theorem length_trailer (data : Bytes) : (trailer data).length = 8 := by
  simp [trailer]

/-- What was packed is unpacked. -/
theorem unpack_pack (data : Bytes) : unpack (pack data) = some data := by
  have htrailer : (trailer data).take 8 = trailer data :=
    List.take_of_length_le (Nat.le_of_eq (length_trailer data))
  rw [pack, body, List.append_assoc, unpack, skipHeader_body]
  simp [inflate_storedBlocks, htrailer]

end Gzip

/-! ## Packed data is no text -/

/-- Bytes that hold a text are the bytes of that text. -/
theorem Bytes.toBytes_of_toText? {bytes : Bytes} {text : Text} (h : bytes.toText? = some text) :
    text.toBytes = bytes := by
  obtain ⟨string, hstring, rfl⟩ := Option.map_eq_some_iff.mp h
  rw [String.fromUTF8?] at hstring
  split at hstring
  next hvalid =>
    obtain rfl := Option.some.inj hstring
    exact List.toByteArray_inj.mp String.utf8Encode_toList
  next => cases hstring

namespace Gzip

/-- The second byte of packed data can only stand inside a character, and the first one is a
character of its own. -/
theorem toText?_pack (data : Bytes) : Bytes.toText? (pack data) = none := by
  cases htext : Bytes.toText? (pack data) with
  | none => rfl
  | some text =>
      exfalso
      obtain ⟨rest, hrest⟩ : ∃ rest, pack data = 0x1f :: 0x8b :: rest := ⟨_, rfl⟩
      have hbytes : text.flatMap String.utf8EncodeChar = 0x1f :: 0x8b :: rest :=
        (Bytes.toBytes_of_toText? htext).trans hrest
      cases text with
      | nil => cases hbytes
      | cons c text =>
          obtain ⟨first, more, hc, hfirst⟩ := utf8EncodeChar_cases c
          rw [List.flatMap_cons, hc, List.cons_append, List.cons.injEq] at hbytes
          obtain ⟨rfl, hbytes⟩ := hbytes
          obtain ⟨-, -, rfl⟩ | ⟨-, habsurd, -⟩ := hfirst
          · cases text with
            | nil => cases hbytes
            | cons d text =>
                obtain ⟨second, more, hd, hsecond⟩ := utf8EncodeChar_cases d
                rw [List.nil_append, List.flatMap_cons, hd, List.cons_append, List.cons.injEq]
                  at hbytes
                obtain ⟨rfl, -⟩ := hbytes
                obtain ⟨hsame, hsmall, -⟩ | ⟨-, habsurd, -⟩ := hsecond
                · simp [← hsame] at hsmall
                · simp at habsurd
          · simp at habsurd

end Gzip

end LosslessYaml
