import VhdlGates.Phrase
import VhdlGates.Token

/-! The tokens that a phrase is written with. Their number is the token count of the phrase. -/
namespace VhdlGates

open Decimal (Binary64)

/-- Names with commas between them. -/
def namesWritten (names : List String) : List TokenKind :=
  (names.map .identifier).intersperse (.punctuation .comma)

@[simp] theorem length_namesWritten (names : List String) :
    (namesWritten names).length = listTokens names.length := by
  simp [namesWritten, listTokens]

/-- The semicolon that ends a phrase, where there is one. -/
def terminatorWritten (terminated : Bool) : List TokenKind :=
  if terminated then [.punctuation .semicolon] else []

@[simp] theorem length_terminatorWritten (terminated : Bool) :
    (terminatorWritten terminated).length = terminated.toNat := by
  cases terminated <;> rfl

namespace Literal

def written : Literal → List TokenKind
  | bit value =>
    [.punctuation .apostrophe, .number (if value then Binary64.one else Binary64.zero false),
      .punctuation .apostrophe]
  | numeral value => [.number value]

@[simp] theorem length_written (l : Literal) : l.written.length = l.tokenCount := by
  cases l <;> rfl

end Literal

namespace SignalDeclaration

def written (d : SignalDeclaration) : List TokenKind :=
  [.keyword .signal] ++ namesWritten d.names ++
    [.punctuation .colon, .identifier d.typeName, .punctuation .semicolon]

@[simp] theorem length_written (d : SignalDeclaration) : d.written.length = d.tokenCount := by
  simp [written, tokenCount]; omega

/-- Declarations one after the other. -/
def allWritten : List SignalDeclaration → List TokenKind
  | [] => []
  | d :: rest => d.written ++ allWritten rest

@[simp] theorem length_allWritten (ds : List SignalDeclaration) :
    (allWritten ds).length = sumOf tokenCount ds := by
  induction ds with
  | nil => rfl
  | cons d rest ih => simp [allWritten, sumOf, ih]

end SignalDeclaration

def Direction.keyword : Direction → Keyword
  | input => .in_
  | output => .out

namespace PortDeclaration

def written (d : PortDeclaration) : List TokenKind :=
  namesWritten d.names ++
    [.punctuation .colon, .keyword d.direction.keyword, .identifier d.typeName]

@[simp] theorem length_written (d : PortDeclaration) : d.written.length = d.tokenCount := by
  simp [written, tokenCount]; omega

/-- Declarations with semicolons between them. -/
def allWritten : List PortDeclaration → List TokenKind
  | [] => []
  | [d] => d.written
  | d :: next :: rest => d.written ++ .punctuation .semicolon :: allWritten (next :: rest)

@[simp] theorem length_allWritten (ds : List PortDeclaration) :
    (allWritten ds).length = sumOf tokenCount ds + (ds.length - 1) := by
  fun_induction allWritten ds with
  | case1 => rfl
  | case2 d => simp [sumOf]
  | case3 d next rest ih => simp [sumOf] at ih ⊢; omega

end PortDeclaration

namespace EndClause

/-- The end of a unit of which `k` is the keyword. -/
def written (k : Keyword) (e : EndClause) : List TokenKind :=
  [.keyword .end_] ++ (if e.repeatsKeyword then [.keyword k] else []) ++
    e.label.toList.map .identifier ++ [.punctuation .semicolon]

@[simp] theorem length_written (k : Keyword) (e : EndClause) :
    (e.written k).length = e.tokenCount := by
  obtain ⟨repeats, label⟩ := e
  cases repeats <;> cases label <;> rfl

end EndClause

namespace Entity

def written (e : Entity) : List TokenKind :=
  [.keyword .entity, .identifier e.name, .keyword .is_, .keyword .port, .paren .opening] ++
    PortDeclaration.allWritten e.ports ++ [.paren .closing, .punctuation .semicolon] ++
    e.ending.written .entity

@[simp] theorem length_written (e : Entity) : e.written.length = e.tokenCount := by
  simp [written, tokenCount, portClauseTokens]; omega

end Entity

namespace Phrase

mutual

/-- The kinds of the tokens of a phrase, in order. -/
def written : Phrase → List TokenKind
  | identifier name => [.identifier name]
  | literal value => value.written
  | parenthesized inner => [.paren .opening] ++ written inner ++ [.paren .closing]
  | binary left operator right terminated =>
    written left ++ [.operator operator] ++ written right ++ terminatorWritten terminated
  | unary operator operand terminated =>
    [.operator operator] ++ written operand ++ terminatorWritten terminated
  | whenElse branches fallback =>
    branchesWritten branches ++ written fallback ++ [.punctuation .semicolon]
  | ifThen condition thenBody =>
    [.keyword .if_] ++ written condition ++ [.keyword .then_] ++ bodyWritten thenBody ++
      [.keyword .end_, .keyword .if_, .punctuation .semicolon]
  | ifElse condition thenBody elseBody =>
    [.keyword .if_] ++ written condition ++ [.keyword .then_] ++ bodyWritten thenBody ++
      [.keyword .else_] ++ bodyWritten elseBody ++
      [.keyword .end_, .keyword .if_, .punctuation .semicolon]
  | process sensitivity body =>
    [.keyword .process, .paren .opening] ++ namesWritten sensitivity ++
      [.paren .closing, .keyword .begin_] ++ bodyWritten body ++
      [.keyword .end_, .keyword .process, .punctuation .semicolon]
  | signal declaration => declaration.written
  | entity unit => unit.written
  | architecture name entityName signals body ending =>
    [.keyword .architecture, .identifier name, .keyword .of_, .identifier entityName,
        .keyword .is_] ++
      SignalDeclaration.allWritten signals ++ [.keyword .begin_] ++ bodyWritten body ++
      ending.written .architecture
  | libraryClause name => [.keyword .library, .identifier name, .punctuation .semicolon]
  | useClause library package item =>
    [.keyword .use_, .identifier library, .punctuation .dot, .identifier package,
      .punctuation .dot, .identifier item, .punctuation .semicolon]

/-- The tokens of some phrases in a row. -/
def bodyWritten : List Phrase → List TokenKind
  | [] => []
  | phrase :: rest => written phrase ++ bodyWritten rest

/-- The tokens of the branches of a conditional assignment. -/
def branchesWritten : List (Branch Phrase) → List TokenKind
  | [] => []
  | ⟨value, condition⟩ :: rest =>
    written value ++ [.keyword .when_] ++ written condition ++ [.keyword .else_] ++
      branchesWritten rest

end

mutual

@[simp] theorem length_written : ∀ p : Phrase, (written p).length = tokenCount p
  | identifier _ | signal _ | entity _ | literal _ | libraryClause _ | useClause .. => by
    simp [written, tokenCount]
  | parenthesized inner => by
    have := length_written inner
    simp [written, tokenCount]; omega
  | binary left _ right _ => by
    have := length_written left
    have := length_written right
    simp [written, tokenCount]; omega
  | unary _ operand _ => by
    have := length_written operand
    simp [written, tokenCount]; omega
  | whenElse branches fallback => by
    have := length_branchesWritten branches
    have := length_written fallback
    simp [written, tokenCount]; omega
  | ifThen condition thenBody => by
    have := length_written condition
    have := length_bodyWritten thenBody
    simp [written, tokenCount]; omega
  | ifElse condition thenBody elseBody => by
    have := length_written condition
    have := length_bodyWritten thenBody
    have := length_bodyWritten elseBody
    simp [written, tokenCount]; omega
  | process _ body => by
    have := length_bodyWritten body
    simp [written, tokenCount]; omega
  | architecture _ _ _ body _ => by
    have := length_bodyWritten body
    simp [written, tokenCount]; omega

@[simp] theorem length_bodyWritten : ∀ ps : List Phrase, (bodyWritten ps).length = bodyTokens ps
  | [] => rfl
  | p :: rest => by
    have := length_written p
    have := length_bodyWritten rest
    simp [bodyWritten, bodyTokens]; omega

@[simp] theorem length_branchesWritten :
    ∀ bs : List (Branch Phrase), (branchesWritten bs).length = branchTokens bs
  | [] => rfl
  | ⟨value, condition⟩ :: rest => by
    have := length_written value
    have := length_written condition
    have := length_branchesWritten rest
    simp [branchesWritten, branchTokens]; omega

end

end Phrase

end VhdlGates
