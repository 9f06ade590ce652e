import LosslessYaml.Text

/-!
# Dialects of strict reading

Strict reading decides whether a text is YAML, not only whether its structure can be kept. It is
done before a text is taken in and before one is given out, by two rules that are not quite the
same: the first holds to the later revision of the format, and the second to the earlier one.

This module names the two rules and says which characters separate and break lines in them.
-/

namespace LosslessYaml.Strict

open Text

/-- The rule by which a text is read. -/
inductive Dialect where
  /-- The rule for texts that are taken in. -/
  | intake
  /-- The rule for texts that are given out. -/
  | release
deriving Repr, DecidableEq

/-- An ASCII letter or digit, an underscore or a dash. -/
def isWordChar (c : Char) : Bool := c.isAlphanum || c == '_' || c == '-'

namespace Dialect

/-- A line break. Three rare ones count in texts that are given out only. -/
def isBreak (dialect : Dialect) (c : Char) : Bool :=
  c == '\n' || c == '\r' ||
    (dialect == .release && (c.toNat == 0x85 || c.toNat == 0x2028 || c.toNat == 0x2029))

/-- A blank or a line break. -/
def isSpace (dialect : Dialect) (c : Char) : Bool := isBlank c || dialect.isBreak c

/-- Whether the text starts with a blank or a line break, or is at its end. -/
def atSpace (dialect : Dialect) (text : Text) : Bool := text.head?.all dialect.isSpace

/-- Whether the text starts with a line break, or is at its end. -/
def atLineEnd (dialect : Dialect) (text : Text) : Bool := text.head?.all dialect.isBreak

/-- A character that may stand in a text. -/
def allows (dialect : Dialect) (c : Char) : Bool :=
  let n := c.toNat
  dialect == .intake || n == 9 || n == 10 || n == 13 || (32 ≤ n && n ≤ 126) || n == 0x85 ||
    (0xA0 ≤ n && n ≤ 0xFFFD) || 0x10000 ≤ n

end Dialect

end LosslessYaml.Strict
