import VhdlGates.Compile
import VhdlGates.Phrase.Outline
import VhdlGates.Specification.Document

/-! The command line as a function from its options and a file to what it prints. -/
namespace VhdlGates

/-- What a run prints: the tokens, the outlines of the phrases, or the specification. -/
inductive Product where
  | tokens | phrases | specification
  deriving DecidableEq, Repr

/-- The product of this name. -/
def Product.ofWord? : String → Option Product
  | "tokens" => some .tokens
  | "ast" => some .phrases
  | "spec" => some .specification
  | _ => none

structure Options where
  product : Product := .specification
  pretty : Bool := false
  description : Option String := none
  verbosity : Verbosity := .warn
  deriving DecidableEq, Repr

/-- The words of a command line: the path of the source file, and what is said of each option. -/
structure Invocation where
  path : Option String := none
  product : Option String := none
  pretty : Bool := false
  description : Option String := none
  verbosity : Option String := none
  deriving DecidableEq, Repr

/-- The end of a run: its exit code and what it has printed. -/
structure Exit where
  code : UInt32
  output : String
  errors : String
  deriving DecidableEq, Repr

namespace Invocation

/-- An option that takes a value. -/
inductive Setting where
  | product | description | verbosity
  deriving DecidableEq, Repr

/-- The option that a word names. -/
def Setting.ofWord? : String → Option Setting
  | "--emit" => some .product
  | "--description" => some .description
  | "-d" => some .description
  | "--log-level" => some .verbosity
  | _ => none

/-- Gives an option its value. No option is given twice. -/
def set? (i : Invocation) (setting : Setting) (value : String) : Option Invocation :=
  match setting with
  | .product => if i.product.isSome then none else some { i with product := some value }
  | .description =>
    if i.description.isSome then none else some { i with description := some value }
  | .verbosity => if i.verbosity.isSome then none else some { i with verbosity := some value }

/-- Takes a word as the path of the source file. There is only one. -/
def setPath? (i : Invocation) (path : String) : Option Invocation :=
  if i.path.isSome then none else some { i with path := some path }

/-- Whether a word has the form of an option. -/
def isOption (word : String) : Bool :=
  match word.toList with
  | '-' :: _ :: _ => true
  | _ => false

/-- The name and the value of an option that is written with an equality sign. -/
def splitSetting (word : String) : String × Option String :=
  let name := word.toList.takeWhile (· != '=')
  match word.toList.drop name.length with
  | [] => (word, none)
  | _ :: value => (String.ofList name, some (String.ofList value))

/-- Reads the words of a command line. -/
def readWords? (i : Invocation) : List String → Option Invocation
  | [] => some i
  | word :: rest =>
    if word = "--" then rest.foldlM setPath? i
    else if word = "--pretty" || word = "-p" then
      if i.pretty then none else readWords? { i with pretty := true } rest
    else if isOption word then do
      let (name, value) := splitSetting word
      let setting ← Setting.ofWord? name
      match value, rest with
      | some value, rest => readWords? (← i.set? setting value) rest
      | none, [] => none
      | none, value :: rest =>
        if isOption value then none else readWords? (← i.set? setting value) rest
    else do readWords? (← i.setPath? word) rest

end Invocation

namespace Options

/-- The options that an invocation asks for, if there are a product and a verbosity of the names
that it gives. -/
def ofInvocation? (i : Invocation) : Option Options := do
  let base : Options := {}
  return { product := ← i.product.elim (some base.product) Product.ofWord?
           pretty := i.pretty
           description := i.description
           verbosity := ← i.verbosity.elim (some base.verbosity) Verbosity.ofWord? }

def config (o : Options) : Config :=
  match o.description with
  | some description => { description }
  | none => {}

/-- Each text as a line. -/
def lines (texts : List String) : String := String.join (texts.map (· ++ "\n"))

/-- What a run prints if nothing goes wrong. -/
def print (o : Options) (path : String) (contents : FileContents) : Report String := do
  match o.product with
  | .tokens =>
    let tokens ← scan (← fileText path contents)
    return lines (tokens.map (·.listing "\t"))
  | .phrases =>
    let phrases ← readSource (← fileText path contents)
    return lines (phrases.map (·.outline.block ""))
  | .specification =>
    let specification ← compileFile o.config path contents
    return lines [if o.pretty then specification.indentedText else specification.compactText]

/-- A run on a file. Notices and the fault go to the error output; after a fault nothing else is
printed. -/
def run (o : Options) (path : String) (contents : FileContents) : Exit :=
  let report := o.print path contents
  let told := report.notices.filter (o.verbosity.tells ·.level)
  let log := String.join (told.map Notice.logLine)
  match report.result with
  | .ok output => ⟨0, output, log⟩
  | .error fault => ⟨1, "", log ++ lines ["Error: " ++ fault.outline.inline]⟩

end Options

end VhdlGates
