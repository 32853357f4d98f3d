import VhdlGates.Lowering

/-! Lowering the statements of an architecture, among them processes, whose if statements become
one multiplexer for each signal that they assign. -/
namespace VhdlGates

/-- Lowers the items of a list in order, and joins their elements. -/
def lowerEach {α : Type} (f : α → Lowering (List Element)) : List α → Lowering (List Element)
  | [] => return []
  | a :: rest => do
    let elements ← f a
    return elements ++ (← lowerEach f rest)

/-- The values that a branch of an if statement assigns, by target, in the order in which the
targets first occur. -/
abbrev Assignments := List (String × Phrase)

namespace Assignments

/-- Assigns a value to a target; an earlier value of the target is replaced in its place. -/
def put (target : String) (value : Phrase) : Assignments → Assignments
  | [] => [(target, value)]
  | (name, old) :: rest =>
    if name = target then (name, value) :: rest else (name, old) :: put target value rest

/-- The target and the value of a statement in a branch. -/
def ofStatement : Phrase → Except Fault (String × Phrase)
  | .binary (.identifier target) (.assignment _) value _ => .ok (target, value)
  | .binary left (.assignment _) _ _ => .error (.invalidStatement (.notAssignable left.construct))
  | other => .error (.unsupportedProcess (.insideIf other.construct))

/-- The assignments of a branch, added to those made before. -/
def collect (made : Assignments) : List Phrase → Except Fault Assignments
  | [] => .ok made
  | statement :: rest => do
    let (target, value) ← ofStatement statement
    collect (made.put target value) rest

def ofBody (body : List Phrase) : Except Fault Assignments := collect [] body

def targets (a : Assignments) : List String := a.map (·.1)

end Assignments

namespace Phrase

variable (config : Config)

/-- The value that a path gives to `output`: an assigned one, or the one that it has. -/
def lowerPath (output : String) : Option Phrase → Lowering Operand
  | some value => value.lowerOperand config
  | none => return ⟨[], output⟩

/-- The multiplexer of one target of an if statement, behind the elements that feed it. It is
sequential if one of the paths keeps the value that the target has. -/
def lowerTarget (selector : String) (thenPath elsePath : Assignments) (target : String) :
    Lowering (List Element) := do
  let output ← NameTable.resolve config target
  let thenValue ← lowerPath config output (thenPath.lookup target)
  let elseValue ← lowerPath config output (elsePath.lookup target)
  let holds := (thenPath.lookup target).isNone || (elsePath.lookup target).isNone
  let kind : ElementKind := if holds then .sequential else .connection
  let mux : Gate := ⟨kind, .mux, [thenValue.signal, selector, elseValue.signal]⟩
  return thenValue.feeds ++ elseValue.feeds ++ [mux.drive output]

/-- The elements of an if statement: those of its condition, then for each target those of its
multiplexer. -/
def lowerIf (condition : Phrase) (thenBody elseBody : List Phrase) :
    Lowering (List Element) := do
  let thenPath ← MonadExcept.ofExcept (Assignments.ofBody thenBody)
  let elsePath ← MonadExcept.ofExcept (Assignments.ofBody elseBody)
  let targets :=
    thenPath.targets ++ elsePath.targets.filter (!thenPath.targets.contains ·)
  let selector ← condition.lowerSelector config
  return selector.feeds ++
    (← lowerEach (lowerTarget config selector.signal thenPath elsePath) targets)

/-- The elements of a statement inside a process. -/
def lowerItem : Phrase → Lowering (List Element)
  | .ifThen condition thenBody => lowerIf config condition thenBody []
  | .ifElse condition thenBody elseBody => lowerIf config condition thenBody elseBody
  | .binary target (.assignment _) (.whenElse branches fallback) _ =>
    target.lowerAssignment config (.whenElse branches fallback)
  | other => throw (.unsupportedProcess (.insideProcess other.construct))

/-- The elements of a statement of an architecture. An operation without a target drives a
temporary that nothing reads. -/
def lowerStatement : Phrase → Lowering (List Element)
  | .binary target (.assignment _) value _ => target.lowerAssignment config value
  | .binary left operator right terminated => do
    let operand ← (Phrase.binary left operator right terminated).lowerOperand config
    return operand.feeds
  | .unary operator operand terminated => do
    let operand ← (Phrase.unary operator operand terminated).lowerOperand config
    return operand.feeds
  | .process sensitivity body => do
    sensitivity.forM fun name => discard (NameTable.resolve config name)
    lowerEach (lowerItem config) body
  | .ifThen .. => throw (.invalidStatement (.outsideProcess .ifThen))
  | .ifElse .. => throw (.invalidStatement (.outsideProcess .ifElse))
  | other => throw (.invalidStatement (.inArchitectureBody other.construct))

end Phrase

end VhdlGates
