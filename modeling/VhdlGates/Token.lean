import VhdlGates.Decimal.Layout
import VhdlGates.Vocabulary

/-! Tokens and where they stand in a source text. -/
namespace VhdlGates

open Decimal (Binary64)

/-- A place in a text: lines and columns count from one. -/
structure Position where
  line : Nat
  column : Nat
  deriving DecidableEq, Repr

namespace Position

def start : Position := ⟨1, 1⟩

/-- The place after a character. Only a line feed starts a line. -/
def step (p : Position) (c : Char) : Position :=
  if c = '\n' then ⟨p.line + 1, 1⟩ else ⟨p.line, p.column + 1⟩

/-- The place after a text. -/
def after (p : Position) (text : List Char) : Position := text.foldl step p

@[simp] theorem after_nil (p : Position) : p.after [] = p := rfl

@[simp] theorem after_cons (p : Position) (c : Char) (text : List Char) :
    p.after (c :: text) = (p.step c).after text := rfl

@[simp] theorem after_append (p : Position) (s t : List Char) :
    p.after (s ++ t) = (p.after s).after t := List.foldl_append

end Position

/-- What a token is, apart from where it stands. -/
inductive TokenKind where
  | keyword (k : Keyword)
  | punctuation (p : Punctuation)
  | paren (p : Paren)
  | operator (o : Operator)
  | identifier (name : String)
  | number (value : Binary64)
  | endOfInput
  deriving DecidableEq, Repr

namespace TokenKind

/-- The kind of a single-character mark. -/
def ofMark? (c : Char) : Option TokenKind :=
  (Paren.ofChar? c).map paren <|> (Punctuation.ofChar? c).map punctuation

/-- The kind of a word that is reserved as a keyword or an operator. -/
def ofReserved? (word : String) : Option TokenKind :=
  (Keyword.ofWord? word).map keyword <|> (Operator.ofWord? word).map operator

/-- The words in which diagnostics speak of a token. -/
def describe : TokenKind → String
  | keyword k => "keyword `" ++ k.spelling ++ "`"
  | punctuation p => "`" ++ p.char.toString ++ "`"
  | paren p => "`" ++ p.char.toString ++ "`"
  | operator o => "operator `" ++ o.spelling ++ "`"
  | identifier name => "identifier `" ++ name ++ "`"
  | number value => "number " ++ value.plain
  | endOfInput => "end of input"

end TokenKind

structure Token where
  kind : TokenKind
  position : Position
  deriving DecidableEq, Repr

namespace Token

/-- The place and the kind in one line, with `gap` between them. -/
def listing (gap : String) (t : Token) : String :=
  toString t.position.line ++ ":" ++ toString t.position.column ++ gap ++ t.kind.describe

end Token

end VhdlGates
