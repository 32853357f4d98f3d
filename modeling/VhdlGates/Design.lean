import VhdlGates.Lowering.Statement
import VhdlGates.Report

/-! Designs, one entity with one architecture of it, and the specifications made from them. -/
namespace VhdlGates

/-- The declared signals and the statements of a design. -/
structure Architecture where
  name : String
  entityName : String
  signals : List SignalDeclaration
  body : List Phrase

structure Design where
  entity : Entity
  architecture : Architecture

namespace Design

/-- The units found so far. -/
structure Units where
  entity? : Option Entity := none
  architecture? : Option Architecture := none

namespace Units

/-- Adds a top-level phrase. There is one entity and one architecture, and besides them only
library and use clauses. -/
def add (units : Units) : Phrase → Except Fault Units
  | .libraryClause _ => .ok units
  | .useClause .. => .ok units
  | .entity unit =>
    if units.entity?.isSome then .error (.duplicateEntity unit.name)
    else .ok { units with entity? := some unit }
  | .architecture name entityName signals body _ =>
    if units.architecture?.isSome then .error (.duplicateArchitecture name)
    else .ok { units with architecture? := some ⟨name, entityName, signals, body⟩ }
  | other => .error (.invalidStatement (.outsideArchitecture other.construct))

/-- Adds all phrases in order. -/
def addAll (units : Units) : List Phrase → Except Fault Units
  | [] => .ok units
  | phrase :: rest => do addAll (← units.add phrase) rest

end Units

/-- The design among the phrases of a file. The architecture has to name the entity. -/
def ofPhrases (phrases : List Phrase) : Except Fault Design := do
  match ← Units.addAll {} phrases with
  | ⟨none, _⟩ => throw .missingEntity
  | ⟨some _, none⟩ => throw .missingArchitecture
  | ⟨some entity, some architecture⟩ =>
    if architecture.entityName = entity.name then return ⟨entity, architecture⟩
    else throw (.entityMismatch architecture.name entity.name architecture.entityName)

variable (config : Config)

/-- Declares the ports of the entity. -/
def declarePorts (ports : List PortDeclaration) : Lowering Unit :=
  ports.forM fun d => d.names.forM fun name =>
    NameTable.declarePort config name d.direction d.typeName

/-- Declares the signals of the architecture. -/
def declareSignals (signals : List SignalDeclaration) : Lowering Unit :=
  signals.forM fun d => d.names.forM fun name => NameTable.declareSignal config name d.typeName

/-- The elements of a design: its ports and signals are declared, then its statements lowered. -/
def lower (design : Design) : Lowering (List Element) := do
  declarePorts config design.entity.ports
  declareSignals config design.architecture.signals
  lowerEach (Phrase.lowerStatement config) design.architecture.body

/-- The specification with these elements and with the signals of a name table. -/
def assemble (design : Design) (elements : List Element) (table : NameTable) : Specification where
  version := Specification.currentVersion
  description := config.description
  ports := table.ports
  architectureName := design.architecture.name
  signals := table.signals
  elements := elements

/-- The summary of a finished specification. -/
def summary (design : Design) (s : Specification) : Notice :=
  .synthesized design.entity.name s.ports.length s.signals.length s.elements.length

/-- The specification of a design, which is checked before it is given out. -/
def synthesize (design : Design) : Report Specification :=
  match (design.lower config).run {} with
  | .error fault table => ⟨.error fault, table.notices⟩
  | .ok elements table =>
    let specification := design.assemble config elements table
    match specification.flaw? with
    | some flaw => ⟨.error (.ofFlaw flaw), table.notices⟩
    | none => ⟨.ok specification, table.notices ++ [design.summary specification]⟩

end Design

/-- The specification of the design among the phrases of a file. -/
def synthesize (config : Config) (phrases : List Phrase) : Report Specification := do
  let design ← Report.ofExcept (Design.ofPhrases phrases)
  design.synthesize config

end VhdlGates
