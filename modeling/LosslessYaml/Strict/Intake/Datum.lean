import LosslessYaml.Strict.Datum
import LosslessYaml.Strict.Event
import LosslessYaml.Text.Decimal

/-!
# Data of texts that are taken in

The events of a document are put together to a datum. Aliases have to name anchors that came before,
and the keys of a mapping have to differ, where the order of fields counts.
-/

namespace LosslessYaml.Strict.Intake

open Text

/-! ## Plain scalars -/

/-- The number with 64 bits that the text is, which may have a sign. -/
def integer? (base : Nat) (text : Text) : Option Int := do
  let digits := unsigned text
  let n ← numeral? base digits
  let value : Int := if text.head? == some '-' then -(n : Int) else n
  if Int64.minValue.toInt ≤ value && value ≤ Int64.maxValue.toInt then some value else none

/-- The number that a plain scalar is. -/
def number? : Text → Option Int
  | '0' :: 'x' :: digits => integer? 16 digits
  | '0' :: 'o' :: digits => integer? 8 digits
  | '+' :: digits => (integer? 10 digits).or (integer? 10 ('+' :: digits))
  | text => integer? 10 text

/-- Whether the text is a number with a fraction or an exponent, or none that is finite. -/
def isReal (text : Text) : Bool :=
  [".inf", ".Inf", ".INF", "+.inf", "+.Inf", "+.INF", "-.inf", "-.Inf", "-.INF", ".nan", ".NaN",
    ".NAN"].contains (String.ofList text) || (Decimal.ofText? text).isSome

/-- The truth value that the text is. -/
def bool? (text : Text) : Option Bool :=
  if text == "true".toList then some true
  else if text == "false".toList then some false
  else none

/-- Whether the text stands for nothing. -/
def isNull (text : Text) : Bool := text == ['~'] || text == "null".toList

/-- What a plain scalar stands for. -/
def ofPlain (text : Text) : Datum :=
  if text.isEmpty || isNull text then .null
  else
    match bool? text, number? text with
    | some b, _ => .bool b
    | _, some n => .integer n
    | none, none => if isReal text then .real text else .text text

/-- What a plain scalar with a tag stands for. -/
def ofTagged (tag : Tag) (text : Text) : Datum :=
  if tag.start != coreHandle then .text text
  else if tag.suffix == Text.toBytes "bool".toList then (bool? text).elim .unknown .bool
  else if tag.suffix == Text.toBytes "int".toList then (integer? 10 text).elim .unknown .integer
  else if tag.suffix == Text.toBytes "float".toList then
    if isReal text then .real text else .unknown
  else if tag.suffix == Text.toBytes "null".toList then if isNull text then .null else .unknown
  else .text text

/-- What a scalar stands for. -/
def ofScalar (isPlain : Bool) (text : Text) (tag : Option Tag) : Datum :=
  if isPlain then tag.elim (ofPlain text) fun tag => ofTagged tag text else .text text

/-! ## Collections -/

/-- What was found of a collection, the last part first. -/
inductive Content where
  | list (items : List Datum)
  /-- A mapping, with the texts of its keys and the key that waits for its value. -/
  | table (fields : List (Datum × Datum)) (keys : List Text) (key : Option Datum)

/-- Adds a node to a collection. A node that is unknown cannot be a key, so the next one is. -/
def Content.add (content : Content) (datum : Datum) : Option Content :=
  match content with
  | .list items => some (.list (datum :: items))
  | .table fields keys none =>
    match datum with
    | .unknown => some content
    | _ => some (.table fields keys (some datum))
  | .table fields keys (some key) =>
    let text := key.canonical
    if keys.contains text then none else some (.table ((key, datum) :: fields) (text :: keys) none)

/-- A collection that is open, with the number of its anchor. -/
structure Frame where
  anchor : Option Nat
  content : Content

/-- How far the events of a document were put together. -/
structure Load where
  frames : List Frame := []
  /-- The names of anchors, with the number of the latest node of that name. -/
  names : List (Text × Nat) := []
  /-- The nodes with anchors that are complete. -/
  nodes : List (Nat × Datum) := []
  /-- The number of anchors. -/
  count : Nat := 0

namespace Load

/-- Numbers an anchor. -/
def name (load : Load) (anchor : Option Text) : Option Nat × Load :=
  match anchor with
  | none => (none, load)
  | some name =>
    (some load.count,
      { load with names := (name, load.count) :: load.names, count := load.count + 1 })

/-- Adds a complete node. -/
def add (load : Load) (anchor : Option Nat) (datum : Datum) : Option Load := do
  let nodes := anchor.elim load.nodes fun number => (number, datum) :: load.nodes
  match load.frames with
  | [] => some { load with nodes }
  | frame :: frames =>
    let content ← frame.content.add datum
    some { load with nodes, frames := { frame with content } :: frames }

/-- Opens a collection. -/
def start (load : Load) (anchor : Option Text) (content : Content) : Load :=
  let (anchor, load) := load.name anchor
  { load with frames := ⟨anchor, content⟩ :: load.frames }

/-- Closes a collection. -/
def finish (load : Load) : Option Load := do
  match load.frames with
  | [] => none
  | ⟨anchor, content⟩ :: frames =>
    let datum := match content with
      | .list items => .list items.reverse
      | .table fields _ _ => .table fields.reverse
    { load with frames }.add anchor datum

/-- Takes an event. -/
def step (load : Load) : Event → Option Load
  | .scalar isPlain text properties =>
    let (anchor, load) := load.name properties.anchor
    load.add anchor (ofScalar isPlain text properties.tag)
  | .aliasNode name => do
    let number ← load.names.lookup name
    load.add none ((load.nodes.lookup number).getD .unknown)
  | .sequenceStart properties => some (load.start properties.anchor (.list []))
  | .mappingStart properties => some (load.start properties.anchor (.table [] [] none))
  | .sequenceEnd => load.finish
  | .mappingEnd => load.finish

end Load

/-- Whether events are those of a valid document. -/
def isDocument (events : List Event) : Bool := (events.foldlM Load.step {}).isSome

end LosslessYaml.Strict.Intake
