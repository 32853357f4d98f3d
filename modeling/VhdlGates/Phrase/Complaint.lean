import VhdlGates.Phrase
import VhdlGates.Token

/-! What the reading of phrases complains about. -/
namespace VhdlGates

/-- What a construct needs next. -/
inductive Expectation where
  | token (kind : TokenKind)
  | identifier
  | expression
  | expressionAfter (operator : Operator)
  | operandAfter (operator : Operator)
  | conditionAfterWhen
  | valueAfterElse
  | conditionAfterIf
  | elseOrEnd
  | bitDigit
  | signalName
  | portName
  | portDirection
  deriving DecidableEq, Repr

def Expectation.describe : Expectation → String
  | token kind => kind.describe
  | identifier => "identifier"
  | expression => "expression"
  | expressionAfter operator => "expression after `" ++ operator.spelling ++ "`"
  | operandAfter operator => "operand after `" ++ operator.spelling ++ "`"
  | conditionAfterWhen => "condition after `when`"
  | valueAfterElse => "value after `else`"
  | conditionAfterIf => "condition after `if`"
  | elseOrEnd => "keyword `else` or `end`"
  | bitDigit => "`0` or `1`"
  | signalName => "signal name"
  | portName => "port name"
  | portDirection => "keyword `in` or `out`"

/-- Why a construct that was begun cannot be completed. -/
inductive Problem where
  | unexpected (expected : Expectation)
  | closingLabel (label name : String)
  deriving DecidableEq, Repr

/-- A problem of a construct, met at a token or after the last one. -/
structure Complaint where
  construct : Construct
  problem : Problem
  found : Option Token
  deriving DecidableEq, Repr

namespace Complaint

def message (c : Complaint) : String :=
  "error parsing " ++ c.construct.name ++ ": " ++
    match c.problem with
    | .unexpected expected =>
      let found := (c.found.map (·.kind)).getD .endOfInput
      "expected " ++ expected.describe ++ ", found " ++ found.describe
    | .closingLabel label name => "closing label `" ++ label ++ "` does not match `" ++ name ++ "`"

/-- The line of the complaint among `tokens`: that of the token found, else that of the last
token. -/
def line (c : Complaint) (tokens : List Token) : Nat :=
  match c.found <|> tokens.getLast? with
  | some token => token.position.line
  | none => 1

end Complaint

end VhdlGates
