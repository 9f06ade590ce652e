import LosslessYaml.Strict.Datum
import LosslessYaml.Strict.Event
import LosslessYaml.Text.Decimal

/-!
# Data of texts that are given out

A document is read from its events, and where an alias stands, the node that it means is read again.
How deep collections are nested and how often aliases are followed is limited. The keys of a mapping
have to differ, where the order of fields does not count.
-/

namespace LosslessYaml.Strict.Release

open Text

/-! ## Numbers -/

/-- Digits after a zero, which are no number. -/
def hasLeadingZero (text : Text) : Bool :=
  match unsigned text with
  | '0' :: digits => !digits.isEmpty && digits.all Char.isDigit
  | _ => false

/-- The text with one plus sign less. -/
def withoutPlus : Text → Text
  | '+' :: rest => rest
  | text => text

/-- The base of the digits in a text, and these digits. -/
def based : Text → Nat × Text
  | '0' :: 'x' :: digits => (16, digits)
  | '0' :: 'o' :: digits => (8, digits)
  | '0' :: 'b' :: digits => (2, digits)
  | digits => (10, digits)

/-- The number that a text without a minus sign is. -/
def natural? (text : Text) : Option Nat :=
  let (base, digits) := based (withoutPlus text)
  if base == 10 && hasLeadingZero text then none else numeral? base digits

/-- The number that a text is. -/
def integer? : Text → Option Int
  | '-' :: text =>
    let (base, digits) := based text
    if base == 10 && hasLeadingZero text then none
    else (numeral? base digits).map fun n => -(n : Int)
  | text => (natural? text).map fun n => (n : Int)

/-- Whether a number can be kept: with 64 bits, and without a sign if it is not negative. -/
def fitsWord (n : Int) : Bool := Int64.minValue.toInt ≤ n && n < Nat.pow 2 64

/-- Whether a number has at most 128 bits. -/
def fitsTwoWords (n : Int) : Bool := -(Nat.pow 2 127 : Nat) ≤ n && n < Nat.pow 2 128

/-- The spelling of a floating point number, the same for both zeros. -/
def spelled : Double → Option Text
  | .infinite _ => none
  | .finite isNegative mantissa exponent =>
    let sign := if isNegative && mantissa != 0 then ['-'] else []
    some (sign ++ (toString mantissa).toList ++ 'p' :: (toString exponent).toList)

/-- The number with a fraction that a text is, or one that is not finite. Digits that are too great
make no number. -/
def real? (text : Text) : Option Datum :=
  let body := withoutPlus text
  if [".inf", ".Inf", ".INF"].contains (String.ofList body) then some (.real "inf".toList)
  else if ["-.inf", "-.Inf", "-.INF"].contains (String.ofList text) then some (.real "-inf".toList)
  else if [".nan", ".NaN", ".NAN"].contains (String.ofList text) then some (.real "nan".toList)
  else if text.head? == some '+' && body != unsigned body then none
  else ((Decimal.ofText? body).bind fun decimal => spelled decimal.toDouble).map .real

/-! ## Scalars -/

/-- The truth value that the text is. -/
def bool? (text : Text) : Option Bool :=
  let word := String.ofList text
  if ["true", "True", "TRUE"].contains word then some true
  else if ["false", "False", "FALSE"].contains word then some false
  else none

/-- Whether the text stands for nothing. -/
def isNull (text : Text) : Bool := ["null", "Null", "NULL", "~"].contains (String.ofList text)

/-- What a scalar is as an integer, if it is one. A great one is malformed, and a still greater one
is none. -/
def integerDatum (text : Text) : Option (Option Datum) :=
  match integer? text with
  | none => some none
  | some n =>
    if fitsWord n then some (some (.integer n)) else if fitsTwoWords n then none else some none

/-- What a plain scalar stands for, or nothing if it is malformed. -/
def ofPlain (text : Text) : Option Datum := do
  if text.isEmpty || isNull text then some .null
  else
    match bool? text with
    | some b => some (.bool b)
    | none =>
      match ← integerDatum text with
      | some datum => some datum
      | none => some ((if hasLeadingZero text then none else real? text).getD (.text text))

/-- What a scalar with a tag stands for, or nothing if it does not fit its tag. -/
def ofTagged (isPlain : Bool) (tag : Bytes) (text : Text) : Option Datum :=
  let core (name : String) : Bytes := coreHandle ++ Text.toBytes name.toList
  if tag == core "bool" then (bool? text).map .bool
  else if tag == core "int" then (integerDatum text).join
  else if tag == core "float" then real? text
  else if tag == core "null" then if isNull text then some .null else none
  else if (Text.toBytes ['!']).isPrefixOf tag && isPlain then ofPlain text
  else some (.text text)

/-- The name of a tag of one's own, which starts with an exclamation mark. -/
def ownName? (tag : Option Tag) : Option Text :=
  match tag.map Tag.bytes with
  | some (first :: rest) =>
    if [first] == Text.toBytes ['!'] then
      Bytes.toText? (if rest.isEmpty then [first] else rest)
    else none
  | _ => none

/-! ## Documents -/

/-- A step of a document: an event, or a jump to the node with the given number. -/
inductive Step where
  | event (event : Event)
  | jump (number : Nat)

/-- A document with the numbers of its anchors. A number is given again if a name is. -/
structure Document where
  steps : Array Step := #[]
  /-- The names of anchors with their numbers. -/
  names : List (Text × Nat) := []
  /-- The numbers of nodes with where they start, the latest first. -/
  places : List (Nat × Nat) := []

namespace Document

/-- Numbers an anchor: by how many names there are. -/
def name (document : Document) (anchor : Option Text) : Document :=
  match anchor with
  | none => document
  | some name =>
    let number := document.names.length
    { document with
      names := (name, number) :: document.names.filter (·.1 != name)
      places := (number, document.steps.size) :: document.places }

/-- Adds an event. An alias has to name an anchor that came before. -/
def add (document : Document) (event : Event) : Option Document := do
  let (document, step) ← match event with
    | .aliasNode name => (document.names.lookup name).map fun number => (document, .jump number)
    | .scalar _ _ properties => some (document.name properties.anchor, .event event)
    | .sequenceStart properties => some (document.name properties.anchor, .event event)
    | .mappingStart properties => some (document.name properties.anchor, .event event)
    | _ => some (document, .event event)
  some { document with steps := document.steps.push step }

/-- The document with the given events. -/
def ofEvents? (events : List Event) : Option Document := events.foldlM add {}

/-- How deep collections may be nested. -/
def depthLimit : Nat := 128

/-- How many jumps there may be for each step. -/
def jumpLimit : Nat := 100

/-- Counts a jump, of which there must not be too many. -/
def countJump (document : Document) : StateT Nat Option Unit := fun jumps =>
  if jumps < jumpLimit * document.steps.size then some ((), jumps + 1) else none

/-- A mapping of fields, each with the text of its key: in the order of these texts. -/
def table (fields : List (Text × Datum × Datum)) : Datum :=
  .table ((fields.mergeSort fun a b => !decide (b.1 < a.1)).map (·.2))

mutual

/-- Reads the node at a place: what it stands for, and the place after it. The state counts jumps,
`depth` is how deep collections may still be nested, and `isNamed` tells that the node's own tag was
read. -/
def value (document : Document) (fuel depth : Nat) (isNamed : Bool) (place : Nat) :
    StateT Nat Option (Datum × Nat) :=
  match fuel with
  | 0 => failure
  | fuel + 1 => do
    match document.steps[place]? with
    | none => failure
    | some (.jump number) =>
      countJump document
      let target ← document.places.lookup number
      let (datum, _) ← value document fuel depth false target
      return (datum, place + 1)
    | some (.event event) =>
      match event with
      | .scalar isPlain text properties =>
        match (if isNamed then none else ownName? properties.tag), properties.tag with
        | some name, _ => named document fuel depth name place
        | none, tag =>
          let datum ← match if isNamed then none else tag with
            | some tag => ofTagged isPlain tag.bytes text
            | none => if isPlain then ofPlain text else some (.text text)
          return (datum, place + 1)
      | .sequenceStart properties =>
        match if isNamed then none else ownName? properties.tag with
        | some name => named document fuel depth name place
        | none =>
          if depth == 0 then failure else items document fuel (depth - 1) [] (place + 1)
      | .mappingStart properties =>
        match if isNamed then none else ownName? properties.tag with
        | some name => named document fuel depth name place
        | none =>
          if depth == 0 then failure else fields document fuel (depth - 1) [] (place + 1)
      | _ => failure

/-- Reads a node that has a tag of its own. -/
def named (document : Document) (fuel depth : Nat) (name : Text) (place : Nat) :
    StateT Nat Option (Datum × Nat) :=
  match fuel with
  | 0 => failure
  | fuel + 1 => do
    let (datum, next) ← value document fuel depth true place
    return (.tagged name datum, next)

/-- Reads the items of a sequence. -/
def items (document : Document) (fuel depth : Nat) (found : List Datum) (place : Nat) :
    StateT Nat Option (Datum × Nat) :=
  match fuel with
  | 0 => failure
  | fuel + 1 => do
    match document.steps[place]? with
    | some (.event .sequenceEnd) => return (.list found.reverse, place + 1)
    | _ =>
      let (item, next) ← value document fuel depth false place
      items document fuel depth (item :: found) next

/-- Reads the fields of a mapping. -/
def fields (document : Document) (fuel depth : Nat) (found : List (Text × Datum × Datum))
    (place : Nat) : StateT Nat Option (Datum × Nat) :=
  match fuel with
  | 0 => failure
  | fuel + 1 => do
    match document.steps[place]? with
    | some (.event .mappingEnd) => return (table found, place + 1)
    | _ =>
      let (key, next) ← value document fuel depth false place
      let text := key.canonical
      if found.any fun field => field.1 == text then failure
      else
        let (datum, next) ← value document fuel depth false next
        fields document fuel depth ((text, key, datum) :: found) next

end

/-- What a document stands for. -/
def datum? (document : Document) : Option Datum :=
  let fuel := (2 * depthLimit + 2) * (document.steps.size + 4)
  ((value document fuel depthLimit false 0).run 0).map fun ((datum, _), _) => datum

end Document

/-- Whether events are those of a valid document. -/
def isDocument (events : List Event) : Bool :=
  ((Document.ofEvents? events).bind Document.datum?).isSome

end LosslessYaml.Strict.Release
