import LosslessYaml.Strict.Dialect
import LosslessYaml.Strict.Token

/-!
# Events

The tokens of a text are read by the grammar of documents and of flow and block collections. What is
found is a list of events for each document: its scalars and aliases, and the starts and ends of its
collections.

Main definition: `Strict.documents`, the documents of a list of tokens.
-/

namespace LosslessYaml.Strict

/-- A tag: what its handle stands for, and its suffix. -/
structure Tag where
  start : Bytes
  suffix : Bytes
deriving Repr, DecidableEq

/-- A tag in full. -/
def Tag.bytes (tag : Tag) : Bytes := tag.start ++ tag.suffix

/-- The anchor and the tag of a node. -/
structure Properties where
  anchor : Option Text := none
  tag : Option Tag := none
deriving Repr, DecidableEq

/-- A part of a document. -/
inductive Event where
  | scalar (isPlain : Bool) (text : Text) (properties : Properties)
  | aliasNode (name : Text)
  | sequenceStart (properties : Properties)
  | sequenceEnd
  | mappingStart (properties : Properties)
  | mappingEnd
deriving Repr, DecidableEq

/-- A node that is not written. -/
def Event.empty : Event := .scalar true [] {}

/-- The handles that are declared, with what they stand for. -/
abbrev Handles := List (Text × Bytes)

/-- What the handle of two exclamation marks stands for if it is not declared. -/
def coreHandle : Bytes := Text.toBytes "tag:yaml.org,2002:".toList

/-- The bytes up to the first that is zero. -/
def untilZero (bytes : Bytes) : Bytes := bytes.takeWhile (· != 0)

/-- The tag with a handle and a suffix, unless the handle is not declared. -/
def resolveTag (dialect : Dialect) (handles : Handles) (handle : Text) (suffix : Bytes) :
    Option Tag :=
  match dialect with
  | .intake =>
    match handles.lookup handle with
    | some start => some ⟨start, suffix⟩
    | none =>
      if handle == ['!', '!'] then some ⟨coreHandle, suffix⟩
      else if 2 ≤ handle.length && handle.getLast? == some '!' then none
      else some ⟨Text.toBytes handle, suffix⟩
  | .release =>
    if handle.isEmpty then some ⟨[], untilZero suffix⟩
    else (handles.lookup handle).map fun start => ⟨start, untilZero suffix⟩

/-! ## Goals -/

/-- What is to be read next. -/
inductive Goal where
  /-- A node, which may be a block collection, or even a block sequence that is not indented. -/
  | node (isBlock isLoose : Bool)
  | item
  | looseItem
  | key
  | value
  | flowItem (isFirst : Bool)
  | pairKey
  | pairValue
  | pairEnd
  | flowKey (isFirst : Bool)
  | flowValue
  | noValue
deriving Repr, DecidableEq

/-- How far a document was read. -/
structure Parse where
  tokens : List Token
  goals : List Goal
  handles : Handles := []
  /-- The events that were found, the last one first. -/
  events : List Event := []

namespace Parse

/-- The next token. -/
def head (p : Parse) : Token := p.tokens.headD .malformed

/-- What is left after the next token. -/
def advance (p : Parse) : Parse := { p with tokens := p.tokens.tail }

/-- Adds an event. -/
def emit (p : Parse) (event : Event) : Parse := { p with events := event :: p.events }

/-- Adds goals before the others. -/
def aim (p : Parse) (goals : List Goal) : Parse := { p with goals := goals ++ p.goals }

/-- Reads a node and then what follows it. The node is empty if one of the tokens comes first. -/
def nodeUnless (p : Parse) (stops : List Token) (node next : Goal) : Parse :=
  if stops.contains p.head then (p.emit .empty).aim [next] else p.aim [node, next]

/-- Reads the anchor and the tag of a node, in either order. -/
def properties (dialect : Dialect) (p : Parse) : Option (Properties × Parse) := do
  match p.tokens with
  | .anchor name :: .tag handle suffix :: rest =>
    let tag ← resolveTag dialect p.handles handle suffix
    some (⟨name, tag⟩, { p with tokens := rest })
  | .tag handle suffix :: .anchor name :: rest =>
    let tag ← resolveTag dialect p.handles handle suffix
    some (⟨name, tag⟩, { p with tokens := rest })
  | .anchor name :: rest => some (⟨name, none⟩, { p with tokens := rest })
  | .tag handle suffix :: rest =>
    let tag ← resolveTag dialect p.handles handle suffix
    some (⟨none, tag⟩, { p with tokens := rest })
  | _ => some ({}, p)

/-- Reads a node, or the start of one that is a collection. Only with an anchor or a tag may it be
empty. -/
def node (dialect : Dialect) (isBlock isLoose : Bool) (p : Parse) : Option Parse := do
  match p.head with
  | .aliasNode name => some (p.advance.emit (.aliasNode name))
  | _ =>
    let (found, p) ← p.properties dialect
    let empty := if found == {} then none else some (p.emit (.scalar true [] found))
    match p.head with
    | .malformed => none
    | .scalar isPlain text => some (p.advance.emit (.scalar isPlain text found))
    | .openBracket => some ((p.advance.emit (.sequenceStart found)).aim [.flowItem true])
    | .openBrace => some ((p.advance.emit (.mappingStart found)).aim [.flowKey true])
    | .sequenceStart =>
      if isBlock then some ((p.advance.emit (.sequenceStart found)).aim [.item]) else empty
    | .mappingStart =>
      if isBlock then some ((p.advance.emit (.mappingStart found)).aim [.key]) else empty
    | .dash => if isLoose then some ((p.emit (.sequenceStart found)).aim [.looseItem]) else empty
    | _ => empty

/-- Passes the comma before an item in brackets, unless the item is the first. -/
def comma (p : Parse) (isFirst : Bool) : Option Parse :=
  if isFirst then some p else if p.head == .comma then some p.advance else none

/-- Reads an item in square brackets. A pair is a mapping of its own. -/
def flowItem (isFirst : Bool) (p : Parse) : Option Parse := do
  if p.head == .closeBracket then some (p.advance.emit .sequenceEnd)
  else
    let p ← p.comma isFirst
    match p.head with
    | .key => some ((p.advance.emit (.mappingStart {})).aim [.pairKey])
    | .closeBracket => some (p.advance.emit .sequenceEnd)
    | _ => some (p.aim [.node false false, .flowItem false])

/-- Reads a key in braces. -/
def flowKey (dialect : Dialect) (isFirst : Bool) (p : Parse) : Option Parse := do
  if p.head == .closeBrace then some (p.advance.emit .mappingEnd)
  else
    let p ← p.comma isFirst
    if p.head == .key then
      some (p.advance.nodeUnless [.colon, .comma, .closeBrace] (.node false false) .flowValue)
    else if p.head == .closeBrace then some (p.advance.emit .mappingEnd)
    else if p.head == .colon && dialect == .intake then some ((p.emit .empty).aim [.flowValue])
    else some (p.aim [.node false false, .noValue])

/-- Reads a key of a block mapping. Only in a text that is taken in may it be missing. -/
def key (dialect : Dialect) (p : Parse) : Option Parse :=
  match p.head with
  | .key => some (p.advance.nodeUnless [.key, .colon, .blockEnd] (.node true true) .value)
  | .colon => if dialect == .intake then some ((p.emit .empty).aim [.value]) else none
  | .blockEnd => some (p.advance.emit .mappingEnd)
  | _ => none

/-- Reads a value, which is empty without a colon, and then what follows it. -/
def valueThen (p : Parse) (stops : List Token) (node next : Goal) : Parse :=
  if p.head == .colon then p.advance.nodeUnless stops node next else (p.emit .empty).aim [next]

/-- Reads what the first goal asks for. -/
def reach (dialect : Dialect) (p : Parse) : Goal → Option Parse
  | .node isBlock isLoose => p.node dialect isBlock isLoose
  | .item =>
    match p.head with
    | .dash => some (p.advance.nodeUnless [.dash, .blockEnd] (.node true false) .item)
    | .blockEnd => some (p.advance.emit .sequenceEnd)
    | _ => none
  | .looseItem =>
    if p.head == .dash then
      let stops := [.dash, .key, .colon, .blockEnd]
      some (p.advance.nodeUnless stops (.node true false) .looseItem)
    else some (p.emit .sequenceEnd)
  | .key => p.key dialect
  | .value => some (p.valueThen [.key, .colon, .blockEnd] (.node true true) .key)
  | .flowItem isFirst => p.flowItem isFirst
  | .pairKey =>
    if [.colon, .comma, .closeBracket].contains p.head then
      some ((p.advance.emit .empty).aim [.pairValue])
    else some (p.aim [.node false false, .pairValue])
  | .pairValue => some (p.valueThen [.comma, .closeBracket] (.node false false) .pairEnd)
  | .pairEnd => some ((p.emit .mappingEnd).aim [.flowItem false])
  | .flowKey isFirst => p.flowKey dialect isFirst
  | .flowValue => some (p.valueThen [.comma, .closeBrace] (.node false false) (.flowKey false))
  | .noValue => some ((p.emit .empty).aim [.flowKey false])

/-- Reads until no goals are left. -/
def run (dialect : Dialect) (fuel : Nat) (p : Parse) : Option Parse :=
  match fuel, p.goals with
  | _, [] => some p
  | 0, _ => none
  | fuel + 1, goal :: goals =>
    match reach dialect { p with goals } goal with
    | some p => run dialect fuel p
    | none => none

end Parse

/-! ## Documents -/

/-- The handles after a directive. In a text that is taken in, a directive makes those before it
void. In one that is given out, a handle must not be declared twice, and the version is checked. -/
def declare (dialect : Dialect) (handles : Handles) : Directive → Option Handles
  | .version major minor =>
    match dialect with
    | .intake => some []
    | .release => if major == 1 && (minor == 1 || minor == 2) then some handles else none
  | .handle name start =>
    match dialect with
    | .intake => some [(name, start)]
    | .release =>
      if (handles.lookup name).isSome then none else some ((name, untilZero start) :: handles)

/-- Reads the directives of a document, of which only one may be about the version. -/
def directives (dialect : Dialect) (hasVersion : Bool) (handles : Handles) :
    List Token → Option (Handles × List Token)
  | .directive found :: rest => do
    let isVersion : Bool := match found with
      | .version _ _ => true
      | _ => false
    if isVersion && hasVersion then none
    else
      let handles ← declare dialect handles found
      directives dialect (hasVersion || isVersion) handles rest
  | tokens => some (handles, tokens)

/-- The handles that need no declaration. -/
def Dialect.handles : Dialect → Handles
  | .intake => []
  | .release => [(['!'], Text.toBytes ['!']), (['!', '!'], coreHandle)]

/-- The start of a document: the handles that hold in it, and the tokens of its root. Without a mark
a document may start only where `isBare` says so. -/
def documentStart (dialect : Dialect) (isBare : Bool) (tokens : List Token) :
    Option (Handles × Bool × List Token) := do
  match tokens with
  | .directive _ :: _ | .documentStart :: _ =>
    let (handles, rest) ← directives dialect false [] tokens
    match rest with
    | .documentStart :: rest => some (handles ++ dialect.handles, true, rest)
    | _ => none
  | _ => if isBare then some (dialect.handles, false, tokens) else none

/-- Reads a document: its events, and the tokens after it. -/
def document (dialect : Dialect) (isBare : Bool) (tokens : List Token) :
    Option (List Event × List Token) := do
  let (handles, isMarked, rest) ← documentStart dialect isBare tokens
  if isMarked && (rest.headD .malformed).isBoundary then some ([.empty], rest)
  else
    let p ← Parse.run dialect (8 * rest.length + 8)
      { tokens := rest, goals := [.node true false], handles }
    if p.head == .malformed then none else some (p.events.reverse, p.tokens)

/-- The documents of a text by their events. One that cannot be read is nothing, and is the last. In
a text that is taken in, a document may follow `...` without a mark, and a directive must. -/
def documents (dialect : Dialect) (fuel : Nat) (isFirst isBare : Bool) (tokens : List Token) :
    List (Option (List Event)) :=
  match fuel with
  | 0 => [none]
  | fuel + 1 =>
    match tokens with
    | [.ended] => []
    | .documentEnd :: rest =>
      if isFirst && dialect == .release then [none]
      else documents dialect fuel isFirst (isBare || dialect == .intake) rest
    | _ =>
      match document dialect isBare tokens with
      | none => [none]
      | some (events, rest) =>
        let isSevered : Bool := match rest with
          | .directive _ :: _ => dialect == .intake
          | _ => false
        if isSevered then [none]
        else some events :: documents dialect fuel false false rest

end LosslessYaml.Strict
