import VhdlGates.Outline
import VhdlGates.Phrase.Complaint
import VhdlGates.Specification.Flaw
import VhdlGates.Text.Quoted

/-! Everything that can go wrong, by cause, with its wording. -/
namespace VhdlGates

open Decimal (Binary64)

/-- What a phrase is lowered for: the value of a statement, or an operand. -/
inductive Role where
  | value | operand
  deriving DecidableEq, Repr

/-- A construct or an element in a place where it has no meaning. -/
inductive Misuse where
  | outsideArchitecture (construct : Construct)
  | inArchitectureBody (construct : Construct)
  | outsideProcess (construct : Construct)
  | notAssignable (construct : Construct)
  | usedAs (role : Role) (construct : Construct)
  | assignmentAsValue
  | tooManyOperands (operator : Logic)
  | tooFewOperands (operator : Logic)
  | numericLiteral (value : Binary64)
  | drivesNothing (element : Nat) (operation : Operation)
  deriving DecidableEq, Repr

namespace Misuse

def message : Misuse → String
  | outsideArchitecture construct => construct.name ++ " outside an architecture"
  | inArchitectureBody construct => construct.name ++ " in an architecture body"
  | outsideProcess construct => construct.name ++ " outside a process"
  | notAssignable construct => "cannot assign to " ++ construct.name
  | usedAs .value construct => construct.name ++ " used as a value"
  | usedAs .operand construct => construct.name ++ " used as an operand"
  | assignmentAsValue => "assignment used as a value"
  | tooManyOperands operator => "`" ++ operator.spelling ++ "` takes a single operand"
  | tooFewOperands operator => "`" ++ operator.spelling ++ "` needs two operands"
  | numericLiteral value => "numeric literal " ++ value.plain ++ " cannot drive a signal"
  | drivesNothing element operation =>
    "logic element " ++ toString element ++ " (" ++ operation.spelling ++ ") drives nothing"

end Misuse

/-- A construct that a process cannot hold. -/
inductive ProcessMisuse where
  | insideProcess (construct : Construct)
  | insideIf (construct : Construct)
  deriving DecidableEq, Repr

namespace ProcessMisuse

def message : ProcessMisuse → String
  | insideProcess construct => construct.name ++ " inside a process"
  | insideIf construct => construct.name ++ " inside an if statement"

end ProcessMisuse

/-- Why a file cannot be read: the system refuses it, or its bytes are no text. -/
inductive ReadFailure where
  | system (code : Nat) (kind message : String)
  | notText
  deriving DecidableEq, Repr

namespace ReadFailure

def missing : ReadFailure := .system 2 "NotFound" "No such file or directory"

/-- The remark on bytes that are no text. -/
def notTextRemark : String := "stream did not contain valid UTF-8"

def message : ReadFailure → String
  | system code _ message => message ++ " (os error " ++ toString code ++ ")"
  | notText => notTextRemark

def outline : ReadFailure → Outline
  | system code kind message =>
    .record "Os" [("code", .atom (toString code)), ("kind", .atom kind),
      ("message", .atom (Text.quoted message))]
  | notText =>
    .record "Error" [("kind", .atom "InvalidData"),
      ("message", .atom (Text.quoted notTextRemark))]

end ReadFailure

inductive Fault where
  | unparsable (line : Nat) (complaint : Complaint)
  | missingEntity
  | missingArchitecture
  | duplicateEntity (name : String)
  | duplicateArchitecture (name : String)
  | entityMismatch (architecture expected found : String)
  | unresolvedSignal (name : String)
  | duplicateSignal (name : String)
  | reservedSignalName (name : String)
  | invalidStatement (misuse : Misuse)
  | unsupportedProcess (misuse : ProcessMisuse)
  | notImplemented (operator : Operator)
  | danglingReference (element : Nat) (name : String)
  | unreadableFile (path : String) (failure : ReadFailure)
  | malformedDocument
  deriving DecidableEq, Repr

namespace Fault

/-- The fault that a flaw of a specification is. -/
def ofFlaw : Flaw → Fault
  | .danglingReference element name => .danglingReference element name
  | .drivesNothing element operation => .invalidStatement (.drivesNothing element operation)

/-- The name of the kind of a fault. -/
def label : Fault → String
  | unparsable .. => "ParseError"
  | missingEntity => "MissingEntity"
  | missingArchitecture => "MissingArchitecture"
  | duplicateEntity _ => "DuplicateEntity"
  | duplicateArchitecture _ => "DuplicateArchitecture"
  | entityMismatch .. => "EntityMismatch"
  | unresolvedSignal _ => "UnresolvedSignal"
  | duplicateSignal _ => "DuplicateSignal"
  | reservedSignalName _ => "ReservedSignalName"
  | invalidStatement _ => "InvalidStatement"
  | unsupportedProcess _ => "UnsupportedProcess"
  | notImplemented _ => "NotImplemented"
  | danglingReference .. => "DanglingReference"
  | unreadableFile .. => "FileReadError"
  | malformedDocument => "Serialization"

/-- The stage at which a fault arises. -/
inductive Stage where
  | parsing | lowering | files
  deriving DecidableEq, Repr

def stage : Fault → Stage
  | unparsable .. => .parsing
  | unreadableFile .. | malformedDocument => .files
  | _ => .lowering

def isNotImplemented : Fault → Bool
  | notImplemented _ => true
  | _ => false

def message : Fault → String
  | unparsable line complaint =>
    "Parse error at line " ++ toString line ++ ": " ++ complaint.message
  | missingEntity => "No entity declaration found"
  | missingArchitecture => "No architecture declaration found"
  | duplicateEntity name =>
    "Duplicate entity '" ++ name ++ "' (a file must declare exactly one entity)"
  | duplicateArchitecture name =>
    "Duplicate architecture '" ++ name ++ "' (a file must declare exactly one architecture)"
  | entityMismatch architecture expected found =>
    "Architecture '" ++ architecture ++ "' implements entity '" ++ found ++
      "', but the file declares '" ++ expected ++ "'"
  | unresolvedSignal name => "Signal '" ++ name ++ "' is not declared"
  | duplicateSignal name => "Duplicate signal name '" ++ name ++ "'"
  | reservedSignalName name => "Signal name '" ++ name ++ "' is reserved for a constant rail"
  | invalidStatement misuse => "Invalid statement: " ++ misuse.message
  | unsupportedProcess misuse => "Unsupported process: " ++ misuse.message
  | notImplemented operator => "Operator '" ++ operator.spelling ++ "' is not implemented"
  | danglingReference element name =>
    "Logic element " ++ toString element ++ " references undeclared signal '" ++ name ++ "'"
  | unreadableFile path failure =>
    "Failed to read source file '" ++ path ++ "': " ++ failure.message
  | malformedDocument => "Serialization error"

/-- The fault as a record of its parts. -/
def outline (fault : Fault) : Outline :=
  let text (s : String) : Outline := .atom (Text.quoted s)
  let record (fields : List (String × Outline)) : Outline := .record fault.label fields
  match fault with
  | unparsable line complaint =>
    record [("line", .atom (toString line)), ("message", text complaint.message)]
  | duplicateEntity name | duplicateArchitecture name | unresolvedSignal name
  | duplicateSignal name | reservedSignalName name => record [("name", text name)]
  | entityMismatch architecture expected found =>
    record [("architecture", text architecture), ("expected", text expected),
      ("found", text found)]
  | invalidStatement misuse => record [("message", text misuse.message)]
  | unsupportedProcess misuse => record [("message", text misuse.message)]
  | notImplemented operator => record [("operator", text operator.spelling)]
  | danglingReference element name =>
    record [("element", .atom (toString element)), ("name", text name)]
  | unreadableFile path failure => record [("path", text path), ("source", failure.outline)]
  | missingEntity | missingArchitecture | malformedDocument => .atom fault.label

end Fault

end VhdlGates
