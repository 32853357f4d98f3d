import VhdlGates.Text.Blank
import VhdlGates.Text.Quoted
import VhdlGates.Decimal.Numeral
import VhdlGates.Decimal.Layout
import VhdlGates.Phrase.Written
import VhdlGates.Main
import VhdlGates.Session
import VhdlGates.Proofs.Circuit.Meaning
import VhdlGates.Proofs.Circuit.Realization
import VhdlGates.Proofs.Circuit.Wiring
import VhdlGates.Proofs.Design.Declarations
import VhdlGates.Proofs.Design.Hygiene
import VhdlGates.Proofs.Lowering.Assignments
import VhdlGates.Proofs.Lowering.Closure
import VhdlGates.Proofs.Lowering.Comparison
import VhdlGates.Proofs.Lowering.Derivations.Statement
import VhdlGates.Proofs.Lowering.Equations
import VhdlGates.Proofs.Lowering.Shape
import VhdlGates.Proofs.Lowering.SingleAssignment
import VhdlGates.Proofs.Phrase.Canonical
import VhdlGates.Proofs.Phrase.Clauses
import VhdlGates.Proofs.Phrase.Completeness
import VhdlGates.Proofs.Phrase.Soundness
import VhdlGates.Proofs.Token.Cover
import VhdlGates.Proofs.NameTable.Moves
import VhdlGates.Proofs.Lowering.Drivers
import VhdlGates.Proofs.Lowering.Renaming
import VhdlGates.Proofs.Lowering.Uniform
import VhdlGates.Proofs.Design.TemporaryStem
import VhdlGates.Proofs.Design.StatementOrder
import VhdlGates.Proofs.Json.RoundTrip
import VhdlGates.Proofs.Specification.RoundTrip
import VhdlGates.Proofs.Token.Joined
import VhdlGates.Proofs.Design.SignalNames
import VhdlGates.Proofs.Lowering.Chains
import VhdlGates.Proofs.Token.Spaced
import VhdlGates.Proofs.Design.Layout
import VhdlGates.Proofs.Lowering.Denotation
import VhdlGates.Proofs.Lowering.WhenElse
import VhdlGates.Proofs.Lowering.IfStatements
import VhdlGates.Proofs.Design.ChoicePaths
import VhdlGates.Proofs.Specification.Validity
import VhdlGates.Proofs.Design.Selection
import VhdlGates.Proofs.Lowering.Hereditary
import VhdlGates.Proofs.Lowering.Surface
import VhdlGates.Proofs.Design.Surface
import VhdlGates.Proofs.Lowering.Acceptance
import VhdlGates.Proofs.Token.Discipline
import VhdlGates.Proofs.Phrase.Terminators
import VhdlGates.Proofs.Phrase.Backtracking
import VhdlGates.Proofs.Phrase.Locality
import VhdlGates.Proofs.Phrase.Offsets
import VhdlGates.Proofs.Phrase.LastToken
import VhdlGates.Proofs.NameTable.Calls
