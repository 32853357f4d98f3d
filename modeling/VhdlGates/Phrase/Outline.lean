import VhdlGates.Decimal.Layout
import VhdlGates.Outline
import VhdlGates.Phrase
import VhdlGates.Text.Quoted

/-! Phrases as outlines. -/
namespace VhdlGates

namespace Outline

def quoted (text : String) : Outline := .atom (Text.quoted text)

def flag (value : Bool) : Outline := .atom (if value then "true" else "false")

def option : Option Outline → Outline
  | some outline => .tuple "Some" outline
  | none => .atom "None"

def names (list : List String) : Outline := .list (list.map quoted)

end Outline

def Logic.label : Logic → String
  | and => "And"
  | or => "Or"
  | nand => "Nand"
  | nor => "Nor"
  | xor => "Xor"
  | xnor => "Xnor"
  | not => "Not"

def Shift.label : Shift → String
  | leftLogical => "ShiftLeftLogical"
  | rightLogical => "ShiftRightLogical"
  | leftArithmetic => "ShiftLeftArithmetic"
  | rightArithmetic => "ShiftRightArithmetic"
  | rotateLeft => "RotateLeft"
  | rotateRight => "RotateRight"

def Relation.label : Relation → String
  | equal => "Equal"
  | notEqual => "NotEqual"
  | less => "Less"
  | greater => "Greater"

def Assignment.label : Assignment → String
  | toSignal => "Signal"
  | toVariable => "Variable"

def Operator.outline : Operator → Outline
  | logic o => .tuple "Logic" (.atom o.label)
  | shift o => .tuple "Shift" (.atom o.label)
  | relation o => .tuple "Relational" (.atom o.label)
  | assignment o => .tuple "Assignment" (.atom o.label)
  | concatenation => .tuple "Misc" (.atom "Concatenation")

def Literal.outline : Literal → Outline
  | bit value => .tuple "Bit" (.flag value)
  | numeral value => .tuple "Numeral" (.atom value.detailed)

def Direction.outline : Direction → Outline
  | input => .atom "In"
  | output => .atom "Out"

def SignalDeclaration.outline (d : SignalDeclaration) : Outline :=
  .record "SignalDeclaration" [("names", .names d.names), ("type_name", .quoted d.typeName)]

def PortDeclaration.outline (d : PortDeclaration) : Outline :=
  .record "PortDeclaration" [("names", .names d.names), ("mode", d.direction.outline),
    ("type_name", .quoted d.typeName)]

def EndClause.outline (e : EndClause) : Outline :=
  .record "EndClause" [("repeats_keyword", .flag e.repeatsKeyword),
    ("label", .option (e.label.map .quoted))]

def Entity.outline (e : Entity) : Outline :=
  .record "EntityDeclaration" [("name", .quoted e.name),
    ("ports", .list (e.ports.map PortDeclaration.outline)), ("end", e.ending.outline)]

namespace Phrase

mutual

/-- A phrase as the record of its parts, under the name of its kind. -/
def outline : Phrase → Outline
  | identifier name => .tuple "Identifier" (.quoted name)
  | literal value => .tuple "Constant" value.outline
  | parenthesized inner => .tuple "Parenthesized" (outline inner)
  | binary left operator right terminated =>
    .tuple "Binary" (.record "BinaryOperation" [("left", outline left),
      ("operator", operator.outline), ("right", outline right), ("terminated", .flag terminated)])
  | unary operator operand terminated =>
    .tuple "Unary" (.record "UnaryOperation" [("operator", operator.outline),
      ("operand", outline operand), ("terminated", .flag terminated)])
  | whenElse branches fallback =>
    .tuple "WhenElse" (.record "WhenElse" [("branches", .list (branchOutlines branches)),
      ("default", outline fallback)])
  | ifThen condition thenBody =>
    .tuple "If" (.record "IfStatement" [("condition", outline condition),
      ("then_body", .list (outlines thenBody))])
  | ifElse condition thenBody elseBody =>
    .tuple "IfElse" (.record "IfElseStatement" [("condition", outline condition),
      ("then_body", .list (outlines thenBody)), ("else_body", .list (outlines elseBody))])
  | process sensitivity body =>
    .tuple "Process" (.record "Process" [("sensitivity", .names sensitivity),
      ("body", .list (outlines body))])
  | signal declaration => .tuple "Signal" declaration.outline
  | entity unit => .tuple "Entity" unit.outline
  | architecture name entityName signals body ending =>
    .tuple "Architecture" (.record "ArchitectureBody" [("name", .quoted name),
      ("entity_name", .quoted entityName),
      ("signals", .list (signals.map SignalDeclaration.outline)),
      ("body", .list (outlines body)), ("end", ending.outline)])
  | libraryClause name => .tuple "Library" (.quoted name)
  | useClause library package item =>
    .tuple "Use" (.record "UseClause" [("library", .quoted library),
      ("package", .quoted package), ("item", .quoted item)])

def outlines : List Phrase → List Outline
  | [] => []
  | phrase :: rest => outline phrase :: outlines rest

def branchOutlines : List (Branch Phrase) → List Outline
  | [] => []
  | ⟨value, condition⟩ :: rest =>
    .record "ConditionalBranch" [("value", outline value), ("condition", outline condition)] ::
      branchOutlines rest

end

end Phrase

end VhdlGates
