import VhdlGates.Compile
import VhdlGates.Specification.Document

/-! Sessions: settings that are kept from one compilation to the next. -/
namespace VhdlGates

structure Session where
  config : Config := {}

namespace Session

def setDescription (s : Session) (description : String) : Session :=
  { s with config := { s.config with description := description } }

def setTemporaryStem (s : Session) (stem : String) : Session :=
  { s with config := { s.config with temporaryStem := stem } }

/-- The specification of the design in a source text, as JSON without blanks. -/
def compile (s : Session) (source : String) : Report String := do
  return (← VhdlGates.compile s.config source).compactText

/-- The tokens of a source text, one entry for each. -/
def tokens (source : String) : List String := (tokenize source).map (·.listing " ")

end Session

end VhdlGates
