import VhdlGates.Text.Plain

/-! The notices that the stages of a compilation leave behind. -/
namespace VhdlGates

/-- How much is told, from nothing to everything. -/
inductive Verbosity where
  | off | error | warn | info | debug | trace
  deriving DecidableEq, Repr

namespace Verbosity

def rank : Verbosity → Nat
  | off => 0
  | error => 1
  | warn => 2
  | info => 3
  | debug => 4
  | trace => 5

def spelling : Verbosity → String
  | off => "OFF"
  | error => "ERROR"
  | warn => "WARN"
  | info => "INFO"
  | debug => "DEBUG"
  | trace => "TRACE"

def all : List Verbosity := [off, error, warn, info, debug, trace]

/-- The verbosity of this name, in any letter case. -/
def ofWord? (word : String) : Option Verbosity :=
  let upper := String.ofList (word.toList.map Char.toUpper)
  all.find? (·.spelling == upper)

/-- Whether what is told at level `level` is told at this verbosity. -/
def tells (v level : Verbosity) : Bool := level.rank ≤ v.rank

end Verbosity

inductive Notice where
  | tokenized (bytes tokens : Nat)
  | trailing (count line : Nat)
  | parsed (count : Nat)
  | unsupportedType (name typeName : String)
  | temporary (name : String)
  | synthesized (entity : String) (ports signals elements : Nat)
  deriving DecidableEq, Repr

namespace Notice

def level : Notice → Verbosity
  | trailing .. | unsupportedType .. => .warn
  | _ => .debug

/-- The stage that a notice comes from, as log lines name it. -/
def origin : Notice → String
  | tokenized .. => "hdl_netlist::dsl::lexer"
  | trailing .. | parsed .. => "hdl_netlist::dsl::parser"
  | unsupportedType .. | temporary .. => "hdl_netlist::synth::context"
  | synthesized .. => "hdl_netlist::synth"

def text : Notice → String
  | tokenized bytes tokens =>
    "tokenized " ++ toString bytes ++ " bytes into " ++ toString tokens ++ " tokens"
  | trailing count line =>
    "ignoring " ++ toString count ++ " trailing token(s) starting at line " ++ toString line
  | parsed count => "parsed " ++ toString count ++ " top-level expression(s)"
  | unsupportedType name typeName =>
    "'" ++ name ++ "' has unsupported type '" ++ typeName ++ "', treating it as single-bit"
  | temporary name => "created temporary " ++ name
  | synthesized entity ports signals elements =>
    "synthesized " ++ entity ++ ": " ++ toString ports ++ " port(s), " ++ toString signals ++
      " signal(s), " ++ toString elements ++ " element(s)"

/-- The level and the text. -/
def entry (n : Notice) : String := n.level.spelling ++ " " ++ n.text

/-- The line of a log, with the level padded to five columns. A control sequence that the text
leaves open takes the end of the line with it. -/
def logLine (n : Notice) : String :=
  let level := n.level.spelling
  let pad := String.ofList (List.replicate (5 - level.length) ' ')
  Text.plain ("[" ++ level ++ pad ++ " " ++ n.origin ++ "] " ++ n.text ++ "\n")

end Notice

end VhdlGates
