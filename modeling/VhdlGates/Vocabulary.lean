/-! The fixed words and marks of the language, each with its one spelling. -/
namespace VhdlGates

/-- The reserved words. -/
inductive Keyword where
  | library | use_ | if_ | then_ | else_ | entity | port | in_ | out | of_ | is_
  | architecture | begin_ | end_ | when_ | signal | process
  deriving DecidableEq, Repr

namespace Keyword

def spelling : Keyword → String
  | library => "library"
  | use_ => "use"
  | if_ => "if"
  | then_ => "then"
  | else_ => "else"
  | entity => "entity"
  | port => "port"
  | in_ => "in"
  | out => "out"
  | of_ => "of"
  | is_ => "is"
  | architecture => "architecture"
  | begin_ => "begin"
  | end_ => "end"
  | when_ => "when"
  | signal => "signal"
  | process => "process"

def all : List Keyword :=
  [library, use_, if_, then_, else_, entity, port, in_, out, of_, is_, architecture, begin_, end_,
    when_, signal, process]

/-- The keyword with exactly this spelling. -/
def ofWord? (word : String) : Option Keyword := all.find? (·.spelling == word)

@[simp] theorem ofWord?_spelling (k : Keyword) : ofWord? k.spelling = some k := by
  cases k <;> decide

theorem spelling_of_ofWord? {word : String} {k : Keyword} (h : ofWord? word = some k) :
    k.spelling = word := by
  simpa using List.find?_some h

end Keyword

/-- The marks that divide phrases. -/
inductive Punctuation where
  | colon | semicolon | apostrophe | dot | comma
  deriving DecidableEq, Repr

namespace Punctuation

def char : Punctuation → Char
  | colon => ':'
  | semicolon => ';'
  | apostrophe => '\''
  | dot => '.'
  | comma => ','

def ofChar? : Char → Option Punctuation
  | ':' => some colon
  | ';' => some semicolon
  | '\'' => some apostrophe
  | '.' => some dot
  | ',' => some comma
  | _ => none

@[simp] theorem ofChar?_char (p : Punctuation) : ofChar? p.char = some p := by cases p <;> rfl

end Punctuation

/-- The grouping parentheses. -/
inductive Paren where
  | opening | closing
  deriving DecidableEq, Repr

namespace Paren

def char : Paren → Char
  | opening => '('
  | closing => ')'

def ofChar? : Char → Option Paren
  | '(' => some opening
  | ')' => some closing
  | _ => none

@[simp] theorem ofChar?_char (p : Paren) : ofChar? p.char = some p := by cases p <;> rfl

end Paren

/-- The Boolean operators. -/
inductive Logic where
  | and | or | nand | nor | xor | xnor | not
  deriving DecidableEq, Repr

namespace Logic

def spelling : Logic → String
  | and => "and"
  | or => "or"
  | nand => "nand"
  | nor => "nor"
  | xor => "xor"
  | xnor => "xnor"
  | not => "not"

def all : List Logic := [and, or, nand, nor, xor, xnor, not]

def ofWord? (word : String) : Option Logic := all.find? (·.spelling == word)

@[simp] theorem ofWord?_spelling (o : Logic) : ofWord? o.spelling = some o := by
  cases o <;> decide

/-- The number of operands. -/
def arity : Logic → Nat
  | not => 1
  | _ => 2

end Logic

/-- The shifts and rotations. -/
inductive Shift where
  | leftLogical | rightLogical | leftArithmetic | rightArithmetic | rotateLeft | rotateRight
  deriving DecidableEq, Repr

namespace Shift

def spelling : Shift → String
  | leftLogical => "sll"
  | rightLogical => "srl"
  | leftArithmetic => "sla"
  | rightArithmetic => "sra"
  | rotateLeft => "rol"
  | rotateRight => "ror"

def all : List Shift :=
  [leftLogical, rightLogical, leftArithmetic, rightArithmetic, rotateLeft, rotateRight]

def ofWord? (word : String) : Option Shift := all.find? (·.spelling == word)

@[simp] theorem ofWord?_spelling (o : Shift) : ofWord? o.spelling = some o := by
  cases o <;> decide

end Shift

/-- The comparisons. -/
inductive Relation where
  | equal | notEqual | less | greater
  deriving DecidableEq, Repr

namespace Relation

def spelling : Relation → String
  | equal => "="
  | notEqual => "/="
  | less => "<"
  | greater => ">"

def all : List Relation := [equal, notEqual, less, greater]

def ofWord? (word : String) : Option Relation := all.find? (·.spelling == word)

@[simp] theorem ofWord?_spelling (o : Relation) : ofWord? o.spelling = some o := by
  cases o <;> decide

end Relation

/-- Assignment to a signal or to a variable. -/
inductive Assignment where
  | toSignal | toVariable
  deriving DecidableEq, Repr

namespace Assignment

def spelling : Assignment → String
  | toSignal => "<="
  | toVariable => ":="

def all : List Assignment := [toSignal, toVariable]

def ofWord? (word : String) : Option Assignment := all.find? (·.spelling == word)

@[simp] theorem ofWord?_spelling (o : Assignment) : ofWord? o.spelling = some o := by
  cases o <;> decide

end Assignment

/-- An operator of one of the five families; concatenation is a family of its own. -/
inductive Operator where
  | logic (o : Logic)
  | shift (o : Shift)
  | relation (o : Relation)
  | assignment (o : Assignment)
  | concatenation
  deriving DecidableEq, Repr

namespace Operator

def spelling : Operator → String
  | logic o => o.spelling
  | shift o => o.spelling
  | relation o => o.spelling
  | assignment o => o.spelling
  | concatenation => "&"

def isAssignment : Operator → Bool
  | assignment _ => true
  | _ => false

/-- The operators that stand as whole words, so not concatenation. -/
def ofWord? (word : String) : Option Operator :=
  (Logic.ofWord? word).map logic <|>
  (Shift.ofWord? word).map shift <|>
  (Relation.ofWord? word).map relation <|>
  (Assignment.ofWord? word).map assignment

/-- The operator with exactly this spelling. -/
def ofSpelling? (text : String) : Option Operator :=
  if text = concatenation.spelling then some concatenation else ofWord? text

@[simp] theorem ofSpelling?_spelling (o : Operator) : ofSpelling? o.spelling = some o := by
  cases o with
  | concatenation => rfl
  | _ o => cases o <;> decide

end Operator

end VhdlGates
