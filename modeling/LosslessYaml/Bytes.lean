import LosslessYaml.Text

/-!
# Bytes

Files hold bytes. A text is stored in UTF-8, and bytes that are not UTF-8 are no text.
-/

namespace LosslessYaml

/-- A sequence of bytes. -/
abbrev Bytes := List UInt8

/-- The bytes of a text. -/
def Text.toBytes (text : Text) : Bytes := text.flatMap String.utf8EncodeChar

/-- The text that bytes hold. -/
def Bytes.toText? (bytes : Bytes) : Option Text :=
  (String.fromUTF8? bytes.toByteArray).map String.toList

/-- The number that bytes hold, the lowest one first. -/
def Bytes.toNat : Bytes → Nat
  | [] => 0
  | byte :: bytes => byte.toNat + 256 * Bytes.toNat bytes

/-- The bytes of a number, the lowest one first, as many as asked for. -/
def Bytes.ofNat : Nat → Nat → Bytes
  | 0, _ => []
  | count + 1, n => UInt8.ofNat (n % 256) :: Bytes.ofNat count (n / 256)

/-- The bytes of a text hold that text. -/
theorem Bytes.toText?_toBytes (text : Text) : Bytes.toText? text.toBytes = some text := by
  have hvalid : (Text.toBytes text).toByteArray.IsValidUTF8 := (String.ofList text).isValidUTF8
  rw [Bytes.toText?, String.fromUTF8?, dif_pos hvalid]
  exact congrArg some String.toList_ofList

/-- A character is one byte below 128, or several bytes, the first one from 192 on and the others
from 128 on and below 192. -/
theorem utf8EncodeChar_cases (c : Char) : ∃ first more, String.utf8EncodeChar c = first :: more ∧
    (first.toNat = c.toNat ∧ c.toNat < 128 ∧ more = [] ∨
      128 ≤ c.toNat ∧ 192 ≤ first.toNat ∧ ∀ b ∈ more, 128 ≤ b.toNat ∧ b.toNat < 192) := by
  have hval : c.toNat = c.val.toNat := rfl
  fun_cases String.utf8EncodeChar c
  case case1 v hascii =>
    have hv : v = c.val.toNat := rfl
    refine ⟨_, _, rfl, .inl ⟨?_, by omega, rfl⟩⟩
    rw [UInt8.toNat_ofNat']
    omega
  all_goals
    refine ⟨_, _, rfl, .inr ⟨by omega, ?_, ?_⟩⟩
    · rw [UInt8.toNat_ofNat']
      omega
    · simp only [List.mem_cons, List.not_mem_nil, or_false, forall_eq_or_imp, forall_eq,
        UInt8.toNat_ofNat']
      omega

end LosslessYaml
