import VhdlGates.Phrase.Clause

/-! Reading phrases off the front of a list of tokens. There is no precedence: an operator takes
the primary to its left and everything to its right. -/
namespace VhdlGates

namespace Parser

mutual

/-- Reads the smallest phrase in front, or nothing if no phrase starts there. -/
def primary : (tokens : List Token) → Except Complaint (Option (Reading Token Phrase tokens.length))
  | [] => return none
  | ⟨kind, place⟩ :: rest => do
    match kind with
    | .keyword .library => return some ((← libraryClause rest).widen (Nat.le_succ _))
    | .keyword .use_ => return some ((← useClause rest).widen (Nat.le_succ _))
    | .keyword .if_ => return some ((← ifStatement rest).widen (Nat.le_succ _))
    | .keyword .entity =>
      let ⟨unit, rest, h⟩ ← entity rest
      return some ⟨.entity unit, rest, Nat.lt_succ_of_lt h⟩
    | .keyword .architecture => return some ((← architecture rest).widen (Nat.le_succ _))
    | .keyword .process => return some ((← process rest).widen (Nat.le_succ _))
    | .keyword .signal =>
      let ⟨declaration, rest, h⟩ ← signalDeclaration (⟨.keyword .signal, place⟩ :: rest)
      return some ⟨.signal declaration, rest, h⟩
    | .paren .opening => return some ((← parenthesized rest).widen (Nat.le_succ _))
    | .operator operator => return some ((← unary operator rest).widen (Nat.le_succ _))
    | .identifier name => return some ⟨.identifier name, rest, Nat.lt_succ_self _⟩
    | .number value => return some ⟨.literal (.numeral value), rest, Nat.lt_succ_self _⟩
    | .punctuation .apostrophe =>
      let ⟨value, rest, h⟩ ← bit rest
      return some ⟨.literal (.bit value), rest, Nat.lt_succ_of_lt h⟩
    | _ => return none
termination_by tokens => 4 * tokens.length
decreasing_by all_goals simp only [List.length_cons]; omega

/-- Reads the operand of a prefix operator, which is a primary. -/
def unary (operator : Operator) (tokens : List Token) :
    Except Complaint (Reading Token Phrase tokens.length) := do
  let some ⟨operand, rest, h₁⟩ ← primary tokens
    | throw (unexpected .unary (.operandAfter operator) tokens)
  let ⟨terminated, rest, h₂⟩ := terminator rest
  return ⟨.unary operator operand terminated, rest, by omega⟩
termination_by 4 * tokens.length + 1

/-- Reads a parenthesized expression after its opening parenthesis. -/
def parenthesized (tokens : List Token) :
    Except Complaint (Reading Token Phrase tokens.length) := do
  let some ⟨inner, rest, h₁⟩ ← expression tokens
    | throw (unexpected .parenthesized .expression tokens)
  let ⟨_, rest, h₂⟩ ← paren .parenthesized .closing rest
  return ⟨.parenthesized inner, rest, by omega⟩
termination_by 4 * tokens.length + 2

/-- Reads the primary in front and, if an operator follows it, the operation that it begins. A
primary that ends in a semicolon begins none. -/
def expression (tokens : List Token) :
    Except Complaint (Option (Reading Token Phrase tokens.length)) := do
  let some ⟨left, rest, h₁⟩ ← primary tokens | return none
  if left.isTerminated then return some ⟨left, rest, h₁⟩
  match operator? rest with
  | none => return some ⟨left, rest, h₁⟩
  | some ⟨operator, rest, h₂⟩ =>
    let right ← if operator.isAssignment then conditional rest else expression rest
    let some ⟨right, rest, h₃⟩ := right
      | throw (unexpected .binary (.expressionAfter operator) rest)
    let ⟨terminated, rest, h₄⟩ := terminator rest
    return some ⟨.binary left operator right terminated, rest, by omega⟩
termination_by 4 * tokens.length + 1

/-- Reads the right side of an assignment: an expression, or a choice between several. The
semicolon that ends a choice belongs to the whole of it, also where the last value has taken it. -/
def conditional (tokens : List Token) :
    Except Complaint (Option (Reading Token Phrase tokens.length)) := do
  let some ⟨first, rest, h₁⟩ ← expression tokens | return none
  match keyword? .when_ rest with
  | none => return some ⟨first, rest, h₁⟩
  | some ⟨_, rest, h₂⟩ =>
    let ⟨(branches, fallback), rest, h₃⟩ ← choice first rest
    match fallback.withoutTerminator? with
    | some fallback => return some ⟨.whenElse branches fallback, rest, by omega⟩
    | none =>
      let ⟨_, rest, h₄⟩ ← mark .conditional .semicolon rest
      return some ⟨.whenElse branches fallback, rest, by omega⟩
termination_by 4 * tokens.length + 2

/-- Reads the branches of a choice, the first of which has this value and whose keyword has been
read, and the value that is chosen otherwise. -/
def choice (value : Phrase) (tokens : List Token) :
    Except Complaint (Reading Token (List (Branch Phrase) × Phrase) tokens.length) := do
  let some ⟨condition, rest, h₁⟩ ← expression tokens
    | throw (unexpected .conditional .conditionAfterWhen tokens)
  let ⟨_, rest, h₂⟩ ← keyword .conditional .else_ rest
  let some ⟨next, after, h₃⟩ ← expression rest
    | throw (unexpected .conditional .valueAfterElse rest)
  match keyword? .when_ after with
  | none => return ⟨([⟨value, condition⟩], next), after, by omega⟩
  | some ⟨_, rest, h₄⟩ =>
    let ⟨(branches, fallback), rest, h₅⟩ ← choice next rest
    return ⟨(⟨value, condition⟩ :: branches, fallback), rest, by omega⟩
termination_by 4 * tokens.length + 2

/-- Reads expressions up to a token that starts none. -/
def statements (tokens : List Token) :
    Except Complaint (Reading Token (List Phrase) (tokens.length + 1)) := do
  let some ⟨first, rest, h₁⟩ ← expression tokens | return ⟨[], tokens, Nat.lt_succ_self _⟩
  let ⟨others, rest, h₂⟩ ← statements rest
  return ⟨first :: others, rest, by omega⟩
termination_by 4 * tokens.length + 2

/-- Reads an if statement after its keyword. -/
def ifStatement (tokens : List Token) : Except Complaint (Reading Token Phrase tokens.length) := do
  let some ⟨condition, rest, h₁⟩ ← expression tokens
    | throw (unexpected .ifThen .conditionAfterIf tokens)
  let ⟨_, rest, h₂⟩ ← keyword .ifThen .then_ rest
  let ⟨thenBody, rest, h₃⟩ ← statements rest
  match keyword? .else_ rest with
  | some ⟨_, rest, h₄⟩ =>
    let ⟨elseBody, rest, h₅⟩ ← statements rest
    let ⟨_, rest, h₆⟩ ← endIf .ifElse rest
    return ⟨.ifElse condition thenBody elseBody, rest, by omega⟩
  | none =>
    match keyword? .end_ rest with
    | none => throw (unexpected .ifThen .elseOrEnd rest)
    | some _ =>
      let ⟨_, rest, h₄⟩ ← endIf .ifThen rest
      return ⟨.ifThen condition thenBody, rest, by omega⟩
termination_by 4 * tokens.length + 3

/-- Reads a process after its keyword. -/
def process (tokens : List Token) : Except Complaint (Reading Token Phrase tokens.length) := do
  let ⟨names, rest, h₁⟩ ← sensitivity tokens
  let ⟨body, rest, h₂⟩ ← statements rest
  let ⟨_, rest, h₃⟩ ← endProcess rest
  return ⟨.process names body, rest, by omega⟩
termination_by 4 * tokens.length + 3

/-- Reads an architecture after its keyword. -/
def architecture (tokens : List Token) : Except Complaint (Reading Token Phrase tokens.length) := do
  let ⟨heading, rest, h₁⟩ ← heading tokens
  let ⟨body, rest, h₂⟩ ← statements rest
  let ⟨ending, rest, h₃⟩ ← endClause .architecture .architecture heading.name rest
  return ⟨.architecture heading.name heading.entityName heading.signals body ending, rest,
    by omega⟩
termination_by 4 * tokens.length + 3

end

end Parser

/-- The phrases at the front of a list of tokens, and the tokens after them, where none starts. -/
structure SourceFile where
  phrases : List Phrase
  trailing : List Token

/-- Reads as many phrases as the tokens begin with. -/
def parse (tokens : List Token) : Except Complaint SourceFile :=
  (Parser.statements tokens).map fun r => ⟨r.value, r.rest⟩

end VhdlGates
