import VhdlGates.Phrase.Complaint
import VhdlGates.Reading

/-! Reading single tokens, lists, declarations and clauses off the front of a list of tokens. -/
namespace VhdlGates

namespace Parser

/-- The complaint that `construct` needs something else than the first of `tokens`. -/
def unexpected (construct : Construct) (expected : Expectation) (tokens : List Token) :
    Complaint :=
  ⟨construct, .unexpected expected, tokens.head?⟩

/-- Reads a token of exactly this kind. -/
def expect (construct : Construct) (kind : TokenKind) :
    (tokens : List Token) → Except Complaint (Reading Token Unit tokens.length)
  | [] => .error (unexpected construct (.token kind) [])
  | token :: rest =>
    if token.kind = kind then .ok ⟨(), rest, Nat.lt_succ_self _⟩
    else .error (unexpected construct (.token kind) (token :: rest))

def keyword (construct : Construct) (k : Keyword) :
    (tokens : List Token) → Except Complaint (Reading Token Unit tokens.length) :=
  expect construct (.keyword k)

def mark (construct : Construct) (p : Punctuation) :
    (tokens : List Token) → Except Complaint (Reading Token Unit tokens.length) :=
  expect construct (.punctuation p)

def paren (construct : Construct) (p : Paren) :
    (tokens : List Token) → Except Complaint (Reading Token Unit tokens.length) :=
  expect construct (.paren p)

/-- Reads an identifier. -/
def identifier (construct : Construct) :
    (tokens : List Token) → Except Complaint (Reading Token String tokens.length)
  | ⟨.identifier name, _⟩ :: rest => .ok ⟨name, rest, Nat.lt_succ_self _⟩
  | tokens => .error (unexpected construct .identifier tokens)

/-- Reads a semicolon if one stands in front. -/
def terminator : (tokens : List Token) → Reading Token Bool (tokens.length + 1)
  | ⟨.punctuation .semicolon, _⟩ :: rest => ⟨true, rest, by simp only [List.length_cons]; omega⟩
  | tokens => ⟨false, tokens, Nat.lt_succ_self _⟩

/-- Reads a keyword if it stands in front. -/
def keyword? (k : Keyword) : (tokens : List Token) → Option (Reading Token Unit tokens.length)
  | [] => none
  | token :: rest =>
    if token.kind = .keyword k then some ⟨(), rest, Nat.lt_succ_self _⟩ else none

/-- Reads an operator if one stands in front. -/
def operator? : (tokens : List Token) → Option (Reading Token Operator tokens.length)
  | ⟨.operator operator, _⟩ :: rest => some ⟨operator, rest, Nat.lt_succ_self _⟩
  | _ => none

def startsWithName : List Token → Bool
  | ⟨.identifier _, _⟩ :: _ => true
  | _ => false

/-- Reads names separated by commas. The list may be empty, and a comma continues it only before a
further name. -/
def names : (tokens : List Token) → Reading Token (List String) (tokens.length + 1)
  | ⟨.identifier name, _⟩ :: ⟨.punctuation .comma, place⟩ :: rest =>
    if startsWithName rest then
      let ⟨more, after, h⟩ := names rest
      ⟨name :: more, after, by simp only [List.length_cons]; omega⟩
    else ⟨[name], ⟨.punctuation .comma, place⟩ :: rest, by simp only [List.length_cons]; omega⟩
  | ⟨.identifier name, _⟩ :: rest => ⟨[name], rest, by simp only [List.length_cons]; omega⟩
  | tokens => ⟨[], tokens, Nat.lt_succ_self _⟩

/-- Reads at least one name; `missing` is what the complaint asks for if there is none. -/
def someNames (construct : Construct) (missing : Expectation) (tokens : List Token) :
    Except Complaint (Reading Token (List String) (tokens.length + 1)) :=
  let list := names tokens
  if list.value.isEmpty then .error (unexpected construct missing tokens) else .ok list

/-- Reads a bit constant after its first apostrophe. -/
def bit : (tokens : List Token) → Except Complaint (Reading Token Bool tokens.length)
  | ⟨.number value, place⟩ :: rest =>
    if value.isZero || value.isOne then do
      let ⟨_, rest, h⟩ ← mark .bitConstant .apostrophe rest
      return ⟨value.isOne, rest, by simp only [List.length_cons]; omega⟩
    else .error (unexpected .bitConstant .bitDigit (⟨.number value, place⟩ :: rest))
  | tokens => .error (unexpected .bitConstant .bitDigit tokens)

/-- Reads a declaration of signals, from its keyword to its semicolon. -/
def signalDeclaration (tokens : List Token) :
    Except Complaint (Reading Token SignalDeclaration tokens.length) := do
  let ⟨_, rest, h₁⟩ ← keyword .signal .signal tokens
  let ⟨names, rest, h₂⟩ ← someNames .signal .signalName rest
  let ⟨_, rest, h₃⟩ ← mark .signal .colon rest
  let ⟨typeName, rest, h₄⟩ ← identifier .signal rest
  let ⟨_, rest, h₅⟩ ← mark .signal .semicolon rest
  return ⟨⟨names, typeName⟩, rest, by omega⟩

/-- Reads declarations of signals as long as they succeed. -/
def moreSignals (tokens : List Token) :
    Reading Token (List SignalDeclaration) (tokens.length + 1) :=
  match signalDeclaration tokens with
  | .error _ => ⟨[], tokens, Nat.lt_succ_self _⟩
  | .ok ⟨first, rest, h⟩ =>
    let ⟨others, rest, h'⟩ := moreSignals rest
    ⟨first :: others, rest, by omega⟩
termination_by tokens.length

/-- Reads the declarations before the body of an architecture. There are none only if the body
follows at once; the first one has to succeed. -/
def signalDeclarations (tokens : List Token) :
    Except Complaint (Reading Token (List SignalDeclaration) (tokens.length + 1)) := do
  if (keyword? .begin_ tokens).isSome then return ⟨[], tokens, Nat.lt_succ_self _⟩
  let ⟨first, rest, h⟩ ← signalDeclaration tokens
  let ⟨others, rest, h'⟩ := moreSignals rest
  return ⟨first :: others, rest, by omega⟩

/-- Reads the direction of a port. -/
def direction : (tokens : List Token) → Except Complaint (Reading Token Direction tokens.length)
  | ⟨.keyword .in_, _⟩ :: rest => .ok ⟨.input, rest, Nat.lt_succ_self _⟩
  | ⟨.keyword .out, _⟩ :: rest => .ok ⟨.output, rest, Nat.lt_succ_self _⟩
  | tokens => .error (unexpected .port .portDirection tokens)

/-- Reads a declaration of ports. -/
def portDeclaration (tokens : List Token) :
    Except Complaint (Reading Token PortDeclaration tokens.length) := do
  let ⟨names, rest, h₁⟩ ← someNames .port .portName tokens
  let ⟨_, rest, h₂⟩ ← mark .port .colon rest
  let ⟨direction, rest, h₃⟩ ← direction rest
  let ⟨typeName, rest, h₄⟩ ← identifier .port rest
  return ⟨⟨names, direction, typeName⟩, rest, by omega⟩

/-- Reads further declarations of ports, each after a semicolon, as long as they succeed. -/
def morePorts (tokens : List Token) : Reading Token (List PortDeclaration) (tokens.length + 1) :=
  match tokens with
  | ⟨.punctuation .semicolon, place⟩ :: rest =>
    match portDeclaration rest with
    | .error _ => ⟨[], ⟨.punctuation .semicolon, place⟩ :: rest, Nat.lt_succ_self _⟩
    | .ok ⟨next, after, h⟩ =>
      let ⟨others, after, h'⟩ := morePorts after
      ⟨next :: others, after, by simp only [List.length_cons]; omega⟩
  | tokens => ⟨[], tokens, Nat.lt_succ_self _⟩
termination_by tokens.length
decreasing_by simp only [List.length_cons]; omega

/-- Reads the name after an end, which has to be that of the unit. -/
def closingLabel (construct : Construct) (name : String) :
    (tokens : List Token) → Except Complaint (Reading Token (Option String) (tokens.length + 1))
  | ⟨.identifier label, place⟩ :: rest =>
    if label = name then .ok ⟨some label, rest, by simp only [List.length_cons]; omega⟩
    else .error ⟨construct, .closingLabel label name, some ⟨.identifier label, place⟩⟩
  | tokens => .ok ⟨none, tokens, Nat.lt_succ_self _⟩

/-- Reads whether a keyword stands in front. -/
def repetition (k : Keyword) (tokens : List Token) : Reading Token Bool (tokens.length + 1) :=
  match keyword? k tokens with
  | some ⟨_, rest, h⟩ => ⟨true, rest, by omega⟩
  | none => ⟨false, tokens, Nat.lt_succ_self _⟩

/-- Reads the end of a design unit. -/
def endClause (construct : Construct) (k : Keyword) (name : String) (tokens : List Token) :
    Except Complaint (Reading Token EndClause tokens.length) := do
  let ⟨_, rest, h₁⟩ ← keyword construct .end_ tokens
  let ⟨repeats, rest, h₂⟩ := repetition k rest
  let ⟨label, rest, h₃⟩ ← closingLabel construct name rest
  let ⟨_, rest, h₄⟩ ← mark construct .semicolon rest
  return ⟨⟨repeats, label⟩, rest, by omega⟩

/-- Reads an entity after its keyword. -/
def entity (tokens : List Token) : Except Complaint (Reading Token Entity tokens.length) := do
  let ⟨name, rest, h₁⟩ ← identifier .entity tokens
  let ⟨_, rest, h₂⟩ ← keyword .entity .is_ rest
  let ⟨_, rest, h₃⟩ ← keyword .entity .port rest
  let ⟨_, rest, h₄⟩ ← paren .entity .opening rest
  let ⟨first, rest, h₅⟩ ← portDeclaration rest
  let ⟨others, rest, h₆⟩ := morePorts rest
  let ⟨_, rest, h₇⟩ ← paren .entity .closing rest
  let ⟨_, rest, h₈⟩ ← mark .entity .semicolon rest
  let ⟨ending, rest, h₉⟩ ← endClause .entity .entity name rest
  return ⟨⟨name, first :: others, ending⟩, rest, by omega⟩

/-- Reads a library clause after its keyword. -/
def libraryClause (tokens : List Token) :
    Except Complaint (Reading Token Phrase tokens.length) := do
  let ⟨name, rest, h₁⟩ ← identifier .libraryClause tokens
  let ⟨_, rest, h₂⟩ ← mark .libraryClause .semicolon rest
  return ⟨.libraryClause name, rest, by omega⟩

/-- Reads a use clause after its keyword. -/
def useClause (tokens : List Token) : Except Complaint (Reading Token Phrase tokens.length) := do
  let ⟨library, rest, h₁⟩ ← identifier .useClause tokens
  let ⟨_, rest, h₂⟩ ← mark .useClause .dot rest
  let ⟨package, rest, h₃⟩ ← identifier .useClause rest
  let ⟨_, rest, h₄⟩ ← mark .useClause .dot rest
  let ⟨item, rest, h₅⟩ ← identifier .useClause rest
  let ⟨_, rest, h₆⟩ ← mark .useClause .semicolon rest
  return ⟨.useClause library package item, rest, by omega⟩

/-- Reads the end of an if statement. -/
def endIf (construct : Construct) (tokens : List Token) :
    Except Complaint (Reading Token Unit tokens.length) := do
  let ⟨_, rest, h₁⟩ ← keyword construct .end_ tokens
  let ⟨_, rest, h₂⟩ ← keyword construct .if_ rest
  let ⟨_, rest, h₃⟩ ← mark construct .semicolon rest
  return ⟨(), rest, by omega⟩

/-- Reads the end of a process. -/
def endProcess (tokens : List Token) : Except Complaint (Reading Token Unit tokens.length) := do
  let ⟨_, rest, h₁⟩ ← keyword .process .end_ tokens
  let ⟨_, rest, h₂⟩ ← keyword .process .process rest
  let ⟨_, rest, h₃⟩ ← mark .process .semicolon rest
  return ⟨(), rest, by omega⟩

/-- Reads the list of signals that a process waits for, up to the start of its body. -/
def sensitivity (tokens : List Token) :
    Except Complaint (Reading Token (List String) tokens.length) := do
  let ⟨_, rest, h₁⟩ ← paren .process .opening tokens
  let ⟨names, rest, h₂⟩ := names rest
  let ⟨_, rest, h₃⟩ ← paren .process .closing rest
  let ⟨_, rest, h₄⟩ ← keyword .process .begin_ rest
  return ⟨names, rest, by omega⟩

/-- What an architecture says before its body. -/
structure Heading where
  name : String
  entityName : String
  signals : List SignalDeclaration

/-- Reads an architecture after its keyword, up to the start of its body. -/
def heading (tokens : List Token) : Except Complaint (Reading Token Heading tokens.length) := do
  let ⟨name, rest, h₁⟩ ← identifier .architecture tokens
  let ⟨_, rest, h₂⟩ ← keyword .architecture .of_ rest
  let ⟨entityName, rest, h₃⟩ ← identifier .architecture rest
  let ⟨_, rest, h₄⟩ ← keyword .architecture .is_ rest
  let ⟨signals, rest, h₅⟩ ← signalDeclarations rest
  let ⟨_, rest, h₆⟩ ← keyword .architecture .begin_ rest
  return ⟨⟨name, entityName, signals⟩, rest, by omega⟩

end Parser

end VhdlGates
