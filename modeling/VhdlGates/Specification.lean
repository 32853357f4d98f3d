import VhdlGates.Direction

/-! Circuit specifications: the ports of a design, its signals, and the logic elements that drive
them. -/
namespace VhdlGates

inductive SignalType where
  | singleBit | bitVector
  deriving DecidableEq, Repr

/-- How an element relates its outputs to its inputs: as a function of them, possibly keeping an
earlier value, or as a route from one of them. -/
inductive ElementKind where
  | combinational | sequential | connection
  deriving DecidableEq, Repr

/-- What an element computes. -/
inductive Operation where
  | and | or | not | nand | nor | xor | xnor | mux | none
  deriving DecidableEq, Repr

namespace SignalType

def spelling : SignalType → String
  | singleBit => "single-bit"
  | bitVector => "bit-vector"

def all : List SignalType := [singleBit, bitVector]

def ofSpelling? (text : String) : Option SignalType := all.find? (·.spelling == text)

@[simp] theorem ofSpelling?_spelling (t : SignalType) : ofSpelling? t.spelling = some t := by
  cases t <;> decide

end SignalType

namespace ElementKind

def spelling : ElementKind → String
  | combinational => "combinational"
  | sequential => "sequential"
  | connection => "connection"

def all : List ElementKind := [combinational, sequential, connection]

def ofSpelling? (text : String) : Option ElementKind := all.find? (·.spelling == text)

@[simp] theorem ofSpelling?_spelling (k : ElementKind) : ofSpelling? k.spelling = some k := by
  cases k <;> decide

end ElementKind

namespace Operation

def spelling : Operation → String
  | and => "and"
  | or => "or"
  | not => "not"
  | nand => "nand"
  | nor => "nor"
  | xor => "xor"
  | xnor => "xnor"
  | mux => "mux"
  | none => "none"

def all : List Operation := [and, or, not, nand, nor, xor, xnor, mux, none]

def ofSpelling? (text : String) : Option Operation := all.find? (·.spelling == text)

@[simp] theorem ofSpelling?_spelling (o : Operation) : ofSpelling? o.spelling = some o := by
  cases o <;> decide

end Operation

/-- A named wire. -/
structure Signal where
  name : String
  signalType : SignalType
  bitWidth : UInt32
  deriving DecidableEq, Repr

/-- A signal that leads into or out of the design. -/
structure Port extends Signal where
  direction : Direction
  deriving DecidableEq, Repr

def Signal.singleBit (name : String) : Signal := ⟨name, .singleBit, 1⟩

def Port.singleBit (name : String) (direction : Direction) : Port :=
  ⟨.singleBit name, direction⟩

/-- A gate, a multiplexer or a connection, between signals that it names. -/
structure Element where
  kind : ElementKind
  operation : Operation
  inputs : List String
  outputs : List String
  deriving DecidableEq, Repr

namespace Element

/-- The names of all signals of an element, inputs first. -/
def names (e : Element) : List String := e.inputs ++ e.outputs

def describe (e : Element) : String :=
  e.operation.spelling ++ "(" ++ ", ".intercalate e.inputs ++ ") -> [" ++
    ", ".intercalate e.outputs ++ "]"

end Element

structure Specification where
  version : UInt32
  description : String
  ports : List Port
  architectureName : String
  signals : List Signal
  elements : List Element
  deriving DecidableEq, Repr

namespace Specification

/-- The version of the format of specifications. -/
def currentVersion : UInt32 := 1

def findPort? (s : Specification) (name : String) : Option Port :=
  s.ports.find? (·.name == name)

/-- The port of this name, or else the signal of this name. -/
def findSignal? (s : Specification) (name : String) : Option Signal :=
  (s.findPort? name).map Port.toSignal <|> s.signals.find? (·.name == name)

def addPort (s : Specification) (port : Port) : Specification :=
  { s with ports := s.ports ++ [port] }

def addSignal (s : Specification) (signal : Signal) : Specification :=
  { s with signals := s.signals ++ [signal] }

def addElement (s : Specification) (element : Element) : Specification :=
  { s with elements := s.elements ++ [element] }

end Specification

end VhdlGates
