import VhdlGates.Config
import VhdlGates.Fault
import VhdlGates.Notice

/-! The names known while a design is lowered: declared signals, constant rails and temporaries. -/
namespace VhdlGates

structure NameTable where
  ports : List Port := []
  signals : List Signal := []
  /-- The declared names and the temporaries, but not the rails. -/
  names : List String := []
  /-- The least number that the next temporary may have. -/
  nextTemporary : Nat := 0
  highUsed : Bool := false
  lowUsed : Bool := false
  notices : List Notice := []

/-- A computation on the name table that may fail. What it has changed by then stays. -/
abbrev Lowering (α : Type) := EStateM Fault NameTable α

/-- The types whose signals carry a single bit, in lower case. -/
def singleBitTypes : List String := ["std_logic", "std_ulogic", "bit"]

/-- Whether a type name is that of a single-bit type, in any letter case. -/
def isSingleBitType (typeName : String) : Bool :=
  singleBitTypes.contains (String.ofList (typeName.toList.map Char.toLower))

/-- The least number from `index` on whose temporary name is not in use. A name that is met is
struck off, so the search ends. -/
def firstUnused (config : Config) (used : List String) (index : Nat) : Nat :=
  if _h : config.temporaryName index ∈ used then
    firstUnused config (used.erase (config.temporaryName index)) (index + 1)
  else index
termination_by used.length
decreasing_by
  rw [List.length_erase_of_mem _h]
  exact Nat.sub_lt (List.length_pos_of_mem _h) Nat.one_pos

namespace NameTable

variable (config : Config)

def addNotice (t : NameTable) (n : Notice) : NameTable := { t with notices := t.notices ++ [n] }

def addSignal (t : NameTable) (name : String) : NameTable :=
  { t with signals := t.signals ++ [.singleBit name] }

def addName (t : NameTable) (name : String) : NameTable := { t with names := t.names ++ [name] }

def railUsed (t : NameTable) (value : Bool) : Bool := if value then t.highUsed else t.lowUsed

def useRail (t : NameTable) (value : Bool) : NameTable :=
  if value then { t with highUsed := true } else { t with lowUsed := true }

/-- Declares a signal. The name of a rail is reserved, and no name is declared twice. -/
def declareSignal (name typeName : String) : Lowering Unit := do
  if (config.rail? name).isSome then throw (.reservedSignalName name)
  if (← get).names.contains name then throw (.duplicateSignal name)
  unless isSingleBitType typeName do
    modify (·.addNotice (.unsupportedType name typeName))
  modify fun t => (t.addSignal name).addName name

/-- Declares a port, which is also a signal. -/
def declarePort (name : String) (direction : Direction) (typeName : String) : Lowering Unit := do
  declareSignal config name typeName
  modify fun t => { t with ports := t.ports ++ [.singleBit name direction] }

/-- The rail of a constant, which becomes a signal when it is first used. -/
def rail (value : Bool) : Lowering String := do
  let name := config.railName value
  unless (← get).railUsed value do
    modify fun t => (t.useRail value).addSignal name
  return name

/-- The signal that an identifier names: a rail, a declared signal or a temporary. -/
def resolve (name : String) : Lowering String := do
  match config.rail? name with
  | some value => rail config value
  | none => if (← get).names.contains name then return name else throw (.unresolvedSignal name)

/-- A new signal with a name that is not in use. -/
def temporary : Lowering String := do
  let table ← get
  let index := firstUnused config table.names table.nextTemporary
  let name := config.temporaryName index
  modify fun t =>
    { ((t.addNotice (.temporary name)).addSignal name).addName name with
      nextTemporary := index + 1 }
  return name

end NameTable

end VhdlGates
