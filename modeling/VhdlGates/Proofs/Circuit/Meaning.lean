import Mathlib.Data.Set.Function
import VhdlGates.Design

/-! The Boolean meaning of phrases and of circuits. A valuation gives every signal a bit; a phrase
has a value under it, and an element holds under it if its outputs have the value that its
operation makes of its inputs. -/
namespace VhdlGates

/-- The bits on all signals. -/
abbrev Valuation := String → Bool

/-- The value of an operator between two operands; negation is none. -/
def Logic.apply? : Logic → Bool → Bool → Option Bool
  | and, a, b => some (a && b)
  | or, a, b => some (a || b)
  | nand, a, b => some (!(a && b))
  | nor, a, b => some (!(a || b))
  | xor, a, b => some (a != b)
  | xnor, a, b => some (a == b)
  | not, _, _ => none

/-- The value that an operation makes of its inputs. A multiplexer gives its first input if the
second one is set, and its third one otherwise. -/
def Operation.value? : Operation → List Bool → Option Bool
  | and, [a, b] => some (a && b)
  | or, [a, b] => some (a || b)
  | nand, [a, b] => some (!(a && b))
  | nor, [a, b] => some (!(a || b))
  | xor, [a, b] => some (a ^^ b)
  | xnor, [a, b] => some (!(a ^^ b))
  | not, [a] => some (!a)
  | mux, [a, selector, b] => some (if selector then a else b)
  | none, [a] => some a
  | _, _ => Option.none

lemma Logic.value?_operation {o : Logic} (h : o.arity = 2) (a b : Bool) :
    o.operation.value? [a, b] = o.apply? a b := by
  cases o with
  | not => cases h
  | _ => cases a <;> cases b <;> rfl

lemma Logic.exists_apply? {o : Logic} (h : o.arity = 2) (a b : Bool) :
    ∃ c, o.apply? a b = some c := by
  cases o with
  | not => cases h
  | _ => exact ⟨_, rfl⟩

namespace Element

/-- The outputs have the value that the operation makes of the inputs. -/
def Holds (w : Valuation) (e : Element) : Prop :=
  ∀ output ∈ e.outputs, e.operation.value? (e.inputs.map w) = some (w output)

/-- All elements of a circuit hold. -/
def AllHold (w : Valuation) (elements : List Element) : Prop := ∀ e ∈ elements, e.Holds w

variable {v w : Valuation}

lemma Holds.congr {e : Element} (h : ∀ name ∈ e.names, v name = w name) (he : e.Holds v) :
    e.Holds w := by
  intro output houtput
  have hin : e.inputs.map w = e.inputs.map v :=
    List.map_congr_left fun name hname => (h name (List.mem_append_left _ hname)).symm
  rw [hin, he output houtput, h output (List.mem_append_right _ houtput)]

@[simp] lemma allHold_nil : AllHold w [] := fun e he => by cases he

@[simp] lemma allHold_append {elements others : List Element} :
    AllHold w (elements ++ others) ↔ AllHold w elements ∧ AllHold w others :=
  List.forall_mem_append

lemma allHold_drive {g : Gate} {output : String} :
    AllHold w [g.drive output] ↔ g.operation.value? (g.inputs.map w) = some (w output) := by
  simp [AllHold, Holds, Gate.drive]

end Element

namespace Phrase

/-- The value of a Boolean expression, in which identifiers stand for the bits on their signals. -/
def value? (v : Valuation) : Phrase → Option Bool
  | .identifier name => some (v name)
  | .literal (.bit value) => some value
  | .parenthesized inner => inner.value? v
  | .binary left (.logic operator) right _ => do
    operator.apply? (← left.value? v) (← right.value? v)
  | .unary (.logic .not) operand _ => (operand.value? v).map (!·)
  | _ => none

/-- Boolean expressions over the names in `known`, of any depth. -/
inductive IsLogic (known : String → Prop) : Phrase → Prop
  | identifier {name : String} (h : known name) : IsLogic known (.identifier name)
  | bit (value : Bool) : IsLogic known (.literal (.bit value))
  | parenthesized {inner : Phrase} (h : IsLogic known inner) :
    IsLogic known (.parenthesized inner)
  | binary {left right : Phrase} {operator : Logic} (terminated : Bool)
    (harity : operator.arity = 2) (hleft : IsLogic known left) (hright : IsLogic known right) :
    IsLogic known (.binary left (.logic operator) right terminated)
  | negation {operand : Phrase} (terminated : Bool) (h : IsLogic known operand) :
    IsLogic known (.unary (.logic .not) operand terminated)

variable {known : String → Prop} {v w : Valuation} {p : Phrase}

/-- The value depends on the known names only. -/
lemma IsLogic.value?_congr (h : p.IsLogic known) (hvw : ∀ name, known name → v name = w name) :
    p.value? v = p.value? w := by
  induction h with
  | @identifier name hname => simp [value?, hvw name hname]
  | bit value => rfl
  | parenthesized _ ih => exact ih
  | binary _ _ _ _ ihleft ihright => simp [value?, ihleft, ihright]
  | negation _ _ ih => simp [value?, ih]

/-- The name of the signal that an assignment to this phrase drives. -/
def targetName? : Phrase → Option String
  | .identifier name => some name
  | .parenthesized inner => inner.targetName?
  | _ => none

/-- The equation that an assignment states: its target has the value of its right side. Other
statements state none. -/
def Equation (v : Valuation) : Phrase → Prop
  | .binary target (.assignment _) value _ =>
    ∃ name, target.targetName? = some name ∧ value.value? v = some (v name)
  | _ => True

/-- An assignment of a Boolean expression to one of the targets, or a Boolean operation that is
assigned to nothing. -/
inductive IsLogicStatement (targets : List String) (known : String → Prop) : Phrase → Prop
  | assignment {target value : Phrase} {name : String} (operator : Assignment) (terminated : Bool)
    (htarget : target.targetName? = some name) (hname : name ∈ targets)
    (hvalue : value.IsLogic known) :
    IsLogicStatement targets known (.binary target (.assignment operator) value terminated)
  | binary {left right : Phrase} {operator : Operator} {terminated : Bool}
    (h : IsLogic known (.binary left operator right terminated)) :
    IsLogicStatement targets known (.binary left operator right terminated)
  | unary {operator : Operator} {operand : Phrase} {terminated : Bool}
    (h : IsLogic known (.unary operator operand terminated)) :
    IsLogicStatement targets known (.unary operator operand terminated)

end Phrase

namespace Config

/-- The high rail carries one, and the low rail zero. -/
def RailsHold (config : Config) (w : Valuation) : Prop :=
  ∀ value, w (config.railName value) = value

/-- The valuation in which the rails have their values, and all else is as in `v`. -/
def withRails (config : Config) (v : Valuation) : Valuation :=
  fun name => (config.rail? name).getD (v name)

end Config

end VhdlGates
