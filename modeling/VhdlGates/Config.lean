/-! The settings of a compilation. -/
namespace VhdlGates

structure Config where
  /-- The description of the resulting specification. -/
  description : String := "Synthesis Performer"
  /-- What the name of a temporary signal starts with; a number follows. -/
  temporaryStem : String := "tmp_"
  /-- The name of the signal that is always one. -/
  highRail : String := "VCC"
  /-- The name of the signal that is always zero. -/
  lowRail : String := "GND"
  deriving DecidableEq, Repr

namespace Config

def railName (config : Config) (value : Bool) : String :=
  if value then config.highRail else config.lowRail

/-- The value of the rail of this name. Of two rails of one name it is the high one. -/
def rail? (config : Config) (name : String) : Option Bool :=
  if name = config.highRail then some true
  else if name = config.lowRail then some false
  else none

/-- The name of the temporary signal with this number. -/
def temporaryName (config : Config) (index : Nat) : String :=
  config.temporaryStem ++ toString index

end Config

end VhdlGates
