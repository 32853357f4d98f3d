/-! The direction of a port. -/
namespace VhdlGates

/-- Whether a port receives its signal or sends it. -/
inductive Direction where
  | input | output
  deriving DecidableEq, Repr

namespace Direction

def spelling : Direction → String
  | input => "in"
  | output => "out"

def all : List Direction := [input, output]

def ofSpelling? (text : String) : Option Direction := all.find? (·.spelling == text)

@[simp] theorem ofSpelling?_spelling (d : Direction) : ofSpelling? d.spelling = some d := by
  cases d <;> decide

end Direction

end VhdlGates
