import VhdlGates.Decimal.Binary64
import VhdlGates.Direction
import VhdlGates.Vocabulary

/-! Phrases: the design units, declarations, statements and expressions of a source text. Every
phrase knows how many tokens it is written with. -/
namespace VhdlGates

open Decimal (Binary64)

/-- A literal: a bit between apostrophes, or a bare number. -/
inductive Literal where
  | bit (value : Bool)
  | numeral (value : Binary64)
  deriving DecidableEq, Repr

/-- The declaration of signals inside an architecture. -/
structure SignalDeclaration where
  names : List String
  typeName : String
  deriving DecidableEq, Repr

/-- The declaration of ports of one direction. -/
structure PortDeclaration where
  names : List String
  direction : Direction
  typeName : String
  deriving DecidableEq, Repr

/-- The end of a design unit, which may repeat the unit's keyword and name. -/
structure EndClause where
  repeatsKeyword : Bool := false
  label : Option String := none
  deriving DecidableEq, Repr

/-- The interface of a design. -/
structure Entity where
  name : String
  ports : List PortDeclaration
  ending : EndClause
  deriving DecidableEq, Repr

/-- The choice of a value under a condition. -/
structure Branch (α : Type) where
  value : α
  condition : α
  deriving DecidableEq, Repr

/-- A phrase of the language. An operation records whether a semicolon follows its last
operand. -/
inductive Phrase where
  | identifier (name : String)
  | literal (value : Literal)
  | parenthesized (inner : Phrase)
  | binary (left : Phrase) (operator : Operator) (right : Phrase) (terminated : Bool)
  | unary (operator : Operator) (operand : Phrase) (terminated : Bool)
  | whenElse (branches : List (Branch Phrase)) (fallback : Phrase)
  | ifThen (condition : Phrase) (thenBody : List Phrase)
  | ifElse (condition : Phrase) (thenBody elseBody : List Phrase)
  | process (sensitivity : List String) (body : List Phrase)
  | signal (declaration : SignalDeclaration)
  | entity (unit : Entity)
  | architecture (name entityName : String) (signals : List SignalDeclaration)
      (body : List Phrase) (ending : EndClause)
  | libraryClause (name : String)
  | useClause (library package item : String)
  deriving Repr, Inhabited

/-- The kinds of construct that diagnostics name. -/
inductive Construct where
  | identifier | constant | bitConstant | parenthesized | binary | unary | conditional
  | ifThen | ifElse | process | signal | port | entity | architecture | libraryClause | useClause
  deriving DecidableEq, Repr

def Construct.name : Construct → String
  | identifier => "identifier"
  | constant => "constant"
  | bitConstant => "bit constant"
  | parenthesized => "parenthesized expression"
  | binary => "binary operation"
  | unary => "unary operation"
  | conditional => "conditional assignment"
  | ifThen => "if statement"
  | ifElse => "if-else statement"
  | process => "process"
  | signal => "signal declaration"
  | port => "port declaration"
  | entity => "entity"
  | architecture => "architecture"
  | libraryClause => "library clause"
  | useClause => "use clause"

/-- The sum of a count over a list. -/
def sumOf {α : Type} (count : α → Nat) : List α → Nat
  | [] => 0
  | a :: rest => count a + sumOf count rest

/-- The number of tokens of a comma separated list of names. -/
def listTokens (length : Nat) : Nat := 2 * length - 1

def Literal.tokenCount : Literal → Nat
  | bit _ => 3
  | numeral _ => 1

def SignalDeclaration.tokenCount (d : SignalDeclaration) : Nat := 4 + listTokens d.names.length

def PortDeclaration.tokenCount (d : PortDeclaration) : Nat := 3 + listTokens d.names.length

def EndClause.tokenCount (e : EndClause) : Nat :=
  2 + e.repeatsKeyword.toNat + e.label.isSome.toNat

namespace Entity

/-- The number of tokens of the port list with its keyword and its semicolon. -/
def portClauseTokens (e : Entity) : Nat :=
  4 + sumOf PortDeclaration.tokenCount e.ports + (e.ports.length - 1)

def tokenCount (e : Entity) : Nat := 3 + e.portClauseTokens + e.ending.tokenCount

end Entity

namespace Phrase

/-- The kind of construct that a phrase is. -/
def construct : Phrase → Construct
  | identifier _ => .identifier
  | literal _ => .constant
  | parenthesized _ => .parenthesized
  | binary .. => .binary
  | unary .. => .unary
  | whenElse .. => .conditional
  | ifThen .. => .ifThen
  | ifElse .. => .ifElse
  | process .. => .process
  | signal _ => .signal
  | entity _ => .entity
  | architecture .. => .architecture
  | libraryClause _ => .libraryClause
  | useClause .. => .useClause

mutual

/-- The number of tokens that a phrase is written with. -/
def tokenCount : Phrase → Nat
  | identifier _ => 1
  | literal value => value.tokenCount
  | parenthesized inner => 2 + tokenCount inner
  | binary left _ right terminated =>
    tokenCount left + 1 + tokenCount right + terminated.toNat
  | unary _ operand terminated => 1 + tokenCount operand + terminated.toNat
  | whenElse branches fallback => branchTokens branches + tokenCount fallback + 1
  | ifThen condition thenBody => 5 + tokenCount condition + bodyTokens thenBody
  | ifElse condition thenBody elseBody =>
    6 + tokenCount condition + bodyTokens thenBody + bodyTokens elseBody
  | process sensitivity body => 7 + listTokens sensitivity.length + bodyTokens body
  | signal declaration => declaration.tokenCount
  | entity unit => unit.tokenCount
  | architecture _ _ signals body ending =>
    6 + sumOf SignalDeclaration.tokenCount signals + bodyTokens body + ending.tokenCount
  | libraryClause _ => 3
  | useClause .. => 7

/-- The number of tokens of some phrases in a row. -/
def bodyTokens : List Phrase → Nat
  | [] => 0
  | phrase :: rest => tokenCount phrase + bodyTokens rest

/-- The number of tokens of the branches of a conditional assignment. -/
def branchTokens : List (Branch Phrase) → Nat
  | [] => 0
  | ⟨value, condition⟩ :: rest => tokenCount value + tokenCount condition + 2 + branchTokens rest

end

/-- Whether the last token of a phrase is a semicolon that ends a statement. -/
def isTerminated : Phrase → Bool
  | identifier _ | literal _ | parenthesized _ => false
  | binary _ _ right terminated => terminated || isTerminated right
  | unary _ operand terminated => terminated || isTerminated operand
  | _ => true

/-- The phrase without the semicolon that its outermost rightmost operation holds, if one of them
holds any. -/
def withoutTerminator? : Phrase → Option Phrase
  | binary left operator right true => some (binary left operator right false)
  | binary left operator right false =>
    (withoutTerminator? right).map fun right => binary left operator right false
  | unary operator operand true => some (unary operator operand false)
  | unary operator operand false =>
    (withoutTerminator? operand).map fun operand => unary operator operand false
  | _ => none

end Phrase

/-- The number of tokens of one branch, with the keywords around its condition. -/
def Branch.tokenCount (b : Branch Phrase) : Nat :=
  b.value.tokenCount + b.condition.tokenCount + 2

end VhdlGates
