import VhdlGates.NameTable

/-! Lowering statements to logic elements. A nested operation drives a temporary signal, and its
element stands before the one that reads it. -/
namespace VhdlGates

/-- An element whose output is still open. -/
structure Gate where
  kind : ElementKind
  operation : Operation
  inputs : List String

namespace Gate

def drive (g : Gate) (output : String) : Element := ⟨g.kind, g.operation, g.inputs, [output]⟩

/-- The gate that passes a signal on. -/
def pass (input : String) : Gate := ⟨.connection, .none, [input]⟩

end Gate

/-- What carries the value of a phrase: a signal, or a gate behind the elements that feed it. -/
inductive Carrier where
  | wire (signal : String)
  | gate (feeds : List Element) (root : Gate)

/-- A signal, and the elements that have to stand before those that read it. -/
structure Operand where
  feeds : List Element
  signal : String

namespace Carrier

/-- The elements that bring the value to a signal. -/
def drive (output : String) : Carrier → List Element
  | wire signal => [(Gate.pass signal).drive output]
  | gate feeds root => feeds ++ [root.drive output]

/-- The value as a signal; that of a gate is a temporary. -/
def toOperand (config : Config) : Carrier → Lowering Operand
  | wire signal => return ⟨[], signal⟩
  | gate feeds root => do
    let signal ← NameTable.temporary config
    return ⟨feeds ++ [root.drive signal], signal⟩

end Carrier

def Logic.operation : Logic → Operation
  | and => .and
  | or => .or
  | nand => .nand
  | nor => .nor
  | xor => .xor
  | xnor => .xnor
  | not => .not

/-- The signal that is compared with a literal, if a condition is such a comparison for
equality. -/
def Phrase.comparedSignal? : Phrase → Option String
  | .parenthesized inner => inner.comparedSignal?
  | .binary (.identifier name) (.relation .equal) (.literal _) _ => some name
  | _ => none

/-- The first occurrences of the names in a list, in order. -/
def firstOccurrences : List String → List String
  | [] => []
  | name :: rest => name :: (firstOccurrences rest).filter (· != name)

namespace Phrase

variable (config : Config)

mutual

/-- Finds what carries the value of a phrase. -/
def lower (role : Role) : Phrase → Lowering Carrier
  | .identifier name => return .wire (← NameTable.resolve config name)
  | .literal (.bit value) => return .wire (← NameTable.rail config value)
  | .literal (.numeral value) => throw (.invalidStatement (.numericLiteral value))
  | .parenthesized inner => lower role inner
  | .binary left (.logic operator) right _ => do
    if operator.arity ≠ 2 then throw (.invalidStatement (.tooManyOperands operator))
    let left ← (← lower .operand left).toOperand config
    let right ← (← lower .operand right).toOperand config
    return .gate (left.feeds ++ right.feeds)
      ⟨.combinational, operator.operation, [left.signal, right.signal]⟩
  | .binary _ (.assignment _) _ _ => throw (.invalidStatement .assignmentAsValue)
  | .binary _ operator _ _ => throw (.notImplemented operator)
  | .unary (.logic operator) operand _ => do
    if operator.arity ≠ 1 then throw (.invalidStatement (.tooFewOperands operator))
    let operand ← (← lower .operand operand).toOperand config
    return .gate operand.feeds ⟨.combinational, operator.operation, [operand.signal]⟩
  | .unary operator _ _ => throw (.notImplemented operator)
  | .whenElse branches fallback => do
    let branches ← lowerBranches branches
    let fallback ← (← lower .operand fallback).toOperand config
    let values := branches.map (·.value.signal)
    let selectors := firstOccurrences (branches.map (·.condition.signal))
    return .gate (branches.flatMap (fun b => b.value.feeds ++ b.condition.feeds) ++ fallback.feeds)
      ⟨.connection, .mux, values ++ selectors ++ [fallback.signal]⟩
  | other => throw (.invalidStatement (.usedAs role other.construct))

/-- The values of the branches of a choice, each followed by the signal that selects it. -/
def lowerBranches : List (Branch Phrase) → Lowering (List (Branch Operand))
  | [] => return []
  | ⟨value, condition⟩ :: rest => do
    let value ← (← lower .operand value).toOperand config
    let selector ←
      match condition.comparedSignal? with
      | some name => do pure ⟨[], ← NameTable.resolve config name⟩
      | none => do (← lower .operand condition).toOperand config
    return ⟨value, selector⟩ :: (← lowerBranches rest)

end

/-- The value of a phrase as a signal. -/
def lowerOperand (phrase : Phrase) : Lowering Operand := do
  (← phrase.lower config .operand).toOperand config

/-- The signal that selects between values. A comparison of a signal with a literal selects by the
signal itself. -/
def lowerSelector (condition : Phrase) : Lowering Operand :=
  match condition.comparedSignal? with
  | some name => return ⟨[], ← NameTable.resolve config name⟩
  | none => condition.lowerOperand config

theorem lower_binary (role : Role) (left right : Phrase) (operator : Logic) (terminated : Bool) :
    lower config role (.binary left (.logic operator) right terminated) =
      if operator.arity = 2 then do
        let left ← left.lowerOperand config
        let right ← right.lowerOperand config
        return .gate (left.feeds ++ right.feeds)
          ⟨.combinational, operator.operation, [left.signal, right.signal]⟩
      else throw (.invalidStatement (.tooManyOperands operator)) := by
  rw [lower]
  by_cases h : operator.arity = 2
  · rw [if_pos h, if_neg (not_not_intro h)]
    simp only [lowerOperand, bind_assoc]
  · rw [if_neg h, if_pos h]
    rfl

theorem lower_unary (role : Role) (operand : Phrase) (operator : Logic) (terminated : Bool) :
    lower config role (.unary (.logic operator) operand terminated) =
      if operator.arity = 1 then do
        let operand ← operand.lowerOperand config
        return .gate operand.feeds ⟨.combinational, operator.operation, [operand.signal]⟩
      else throw (.invalidStatement (.tooFewOperands operator)) := by
  rw [lower]
  by_cases h : operator.arity = 1
  · rw [if_pos h, if_neg (not_not_intro h)]
    simp only [lowerOperand, bind_assoc]
  · rw [if_neg h, if_pos h]
    rfl

theorem lower_whenElse (role : Role) (branches : List (Branch Phrase)) (fallback : Phrase) :
    lower config role (.whenElse branches fallback) = (do
      let branches ← lowerBranches config branches
      let fallback ← fallback.lowerOperand config
      return .gate
        (branches.flatMap (fun b => b.value.feeds ++ b.condition.feeds) ++ fallback.feeds)
        ⟨.connection, .mux, branches.map (·.value.signal) ++
          firstOccurrences (branches.map (·.condition.signal)) ++ [fallback.signal]⟩) := by
  rw [lower]
  simp only [lowerOperand, bind_assoc]

/-- Each branch of a choice gives an operand for its value and one for its selector. -/
theorem lowerBranches_cons (value condition : Phrase) (rest : List (Branch Phrase)) :
    lowerBranches config (⟨value, condition⟩ :: rest) = (do
      let value ← value.lowerOperand config
      let selector ← condition.lowerSelector config
      return ⟨value, selector⟩ :: (← lowerBranches config rest)) := by
  rw [lowerBranches]
  unfold lowerOperand lowerSelector
  cases condition.comparedSignal? <;> simp [lowerOperand, bind_assoc, -bind_pure_comp]

/-- The signal that an assignment drives. -/
def assignmentTarget : Phrase → Lowering String
  | .identifier name => NameTable.resolve config name
  | .parenthesized inner => inner.assignmentTarget
  | other => throw (.invalidStatement (.notAssignable other.construct))

/-- The elements of an assignment. -/
def lowerAssignment (target value : Phrase) : Lowering (List Element) := do
  let output ← target.assignmentTarget config
  return (← value.lower config .value).drive output

end Phrase

end VhdlGates
