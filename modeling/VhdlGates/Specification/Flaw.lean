import VhdlGates.Specification

/-! What makes a specification invalid: an element that names an unknown signal, or one without
an output. -/
namespace VhdlGates

/-- A flaw of the element with this index. -/
inductive Flaw where
  | danglingReference (element : Nat) (name : String)
  | drivesNothing (element : Nat) (operation : Operation)
  deriving DecidableEq, Repr

/-- The flaw of an element among signals of these names. A dangling reference comes before a lack
of outputs. -/
def Element.flaw? (declared : List String) (index : Nat) (e : Element) : Option Flaw :=
  match e.names.find? (!declared.contains ·) with
  | some name => some (.danglingReference index name)
  | none => if e.outputs.isEmpty then some (.drivesNothing index e.operation) else none

namespace Specification

/-- The names that elements may refer to. -/
def declaredNames (s : Specification) : List String :=
  s.ports.map (·.name) ++ s.signals.map (·.name)

/-- The flaw of the first flawed element. -/
def flaw? (s : Specification) : Option Flaw :=
  s.elements.zipIdx.findSome? fun (element, index) => element.flaw? s.declaredNames index

end Specification

end VhdlGates
