import VhdlGates.Json.Printer
import VhdlGates.Json.Reader
import VhdlGates.Specification

/-! Specifications as JSON documents. -/
namespace VhdlGates

namespace Signal

def fields (s : Signal) : List (String × Json) :=
  [("name", .ofString s.name), ("signal_type", .ofString s.signalType.spelling),
    ("bit_width", .ofNat s.bitWidth.toNat)]

def toJson (s : Signal) : Json := .ofFields s.fields

def ofValues? (name signalType bitWidth : Json) : Option Signal := do
  return ⟨← name.toString?, ← SignalType.ofSpelling? (← signalType.choice?),
    ← bitWidth.toUInt32?⟩

def ofJson? (j : Json) : Option Signal := do
  match ← j.fields? ["name", "signal_type", "bit_width"] with
  | [name, signalType, bitWidth] => ofValues? name signalType bitWidth
  | _ => none

end Signal

namespace Port

def toJson (p : Port) : Json :=
  .ofFields (p.toSignal.fields ++ [("direction", .ofString p.direction.spelling)])

def ofJson? (j : Json) : Option Port := do
  match ← j.fields? ["name", "signal_type", "bit_width", "direction"] with
  | [name, signalType, bitWidth, direction] =>
    return ⟨← Signal.ofValues? name signalType bitWidth,
      ← Direction.ofSpelling? (← direction.choice?)⟩
  | _ => none

end Port

namespace Element

/-- A reference to a signal is a record of its name. -/
def reference (name : String) : Json := .ofFields [("name", .ofString name)]

def reference? (j : Json) : Option String := do
  match ← j.fields? ["name"] with
  | [name] => name.toString?
  | _ => none

def references (names : List String) : Json := .array (names.map reference)

def references? (j : Json) : Option (List String) := do (← j.toList?).mapM reference?

def toJson (e : Element) : Json :=
  .ofFields [("kind", .ofString e.kind.spelling), ("operation", .ofString e.operation.spelling),
    ("inputs", references e.inputs), ("outputs", references e.outputs)]

def ofJson? (j : Json) : Option Element := do
  match ← j.fields? ["kind", "operation", "inputs", "outputs"] with
  | [kind, operation, inputs, outputs] =>
    return ⟨← ElementKind.ofSpelling? (← kind.choice?),
      ← Operation.ofSpelling? (← operation.choice?), ← references? inputs, ← references? outputs⟩
  | _ => none

end Element

namespace Specification

/-- The ports as the interface of the design. -/
def entityJson (s : Specification) : Json :=
  .ofFields [("ports", .array (s.ports.map Port.toJson))]

/-- The name, the signals and the elements as the inside of the design. -/
def architectureJson (s : Specification) : Json :=
  .ofFields [("name", .ofString s.architectureName),
    ("global_signals", .array (s.signals.map Signal.toJson)),
    ("logic_elements", .array (s.elements.map Element.toJson))]

def toJson (s : Specification) : Json :=
  .ofFields [("version", .ofNat s.version.toNat), ("description", .ofString s.description),
    ("entity", s.entityJson), ("architecture", s.architectureJson)]

def portsOf? (entity : Json) : Option (List Port) := do
  match ← entity.fields? ["ports"] with
  | [ports] => (← ports.toList?).mapM Port.ofJson?
  | _ => none

def ofJson? (j : Json) : Option Specification := do
  match ← j.fields? ["version", "description", "entity", "architecture"] with
  | [version, description, entity, architecture] =>
    match ← architecture.fields? ["name", "global_signals", "logic_elements"] with
    | [name, signals, elements] =>
      return { version := ← version.toUInt32?
               description := ← description.toString?
               ports := ← portsOf? entity
               architectureName := ← name.toString?
               signals := ← (← signals.toList?).mapM Signal.ofJson?
               elements := ← (← elements.toList?).mapM Element.ofJson? }
    | _ => none
  | _ => none

/-- The specification as a JSON text without blanks. -/
def compactText (s : Specification) : String := String.ofList s.toJson.compact

/-- The specification as an indented JSON text. -/
def indentedText (s : Specification) : String := String.ofList (s.toJson.indented 0)

/-- The specification that a JSON text writes. -/
def ofText? (text : String) : Option Specification := do ofJson? (← Json.parse? text)

end Specification

end VhdlGates
