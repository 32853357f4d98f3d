import Mathlib.Data.List.Basic
import VhdlGates.Phrase.Written

/-! Canonical phrases: those in which every semicolon stands where a parser puts it. -/
namespace VhdlGates

namespace Phrase

def isOperation : Phrase → Bool
  | binary .. | unary .. => true
  | _ => false

@[simp] lemma isOperation_binary (left right : Phrase) (operator : Operator) (terminated : Bool) :
    (binary left operator right terminated).isOperation = true := rfl

@[simp] lemma isOperation_unary (operator : Operator) (operand : Phrase) (terminated : Bool) :
    (unary operator operand terminated).isOperation = true := rfl

/-- The phrase with a semicolon on its innermost rightmost operation. -/
def closed : Phrase → Phrase
  | binary left operator right terminated =>
    if right.isOperation then binary left operator (closed right) terminated
    else binary left operator right true
  | unary operator operand terminated =>
    if operand.isOperation then unary operator (closed operand) terminated
    else unary operator operand true
  | p => p

mutual

/-- An operand: a name, a literal, a value in parentheses, or an operator before an operand. -/
inductive IsPrimary : Phrase → Prop
  | identifier (name : String) : IsPrimary (.identifier name)
  | literal (value : Literal) : IsPrimary (.literal value)
  | parenthesized {inner : Phrase} (hinner : IsValue inner) : IsPrimary (.parenthesized inner)
  | unary (operator : Operator) {operand : Phrase} (hoperand : IsPrimary operand) :
    IsPrimary (.unary operator operand false)

/-- An expression without semicolons, in which every operator takes all that is to its right. -/
inductive IsValue : Phrase → Prop
  | primary {p : Phrase} (hp : IsPrimary p) : IsValue p
  | binary {left right : Phrase} {operator : Operator} (hleft : IsPrimary left)
    (hoperator : operator.isAssignment = false) (hright : IsValue right) :
    IsValue (.binary left operator right false)

end

/-- A statement of a body. -/
inductive IsStatement : Phrase → Prop
  | operation {p : Phrase} (hp : IsValue p) (hoperation : p.isOperation = true) :
    IsStatement p.closed
  | assignment {left right : Phrase} {operator : Operator} (hleft : IsPrimary left)
    (hoperator : operator.isAssignment = true) (hright : IsValue right) :
    IsStatement (closed (.binary left operator right false))
  | choice {left fallback : Phrase} {operator : Operator} {branches : List (Branch Phrase)}
    (hleft : IsPrimary left) (hoperator : operator.isAssignment = true) (hne : branches ≠ [])
    (hbranches : ∀ b ∈ branches, IsValue b.value ∧ IsValue b.condition)
    (hfallback : IsValue fallback) :
    IsStatement (.binary left operator (.whenElse branches fallback) false)
  | ifThen {condition : Phrase} {thenBody : List Phrase} (hcondition : IsValue condition)
    (hthen : ∀ s ∈ thenBody, IsStatement s) : IsStatement (.ifThen condition thenBody)
  | ifElse {condition : Phrase} {thenBody elseBody : List Phrase} (hcondition : IsValue condition)
    (hthen : ∀ s ∈ thenBody, IsStatement s) (helse : ∀ s ∈ elseBody, IsStatement s) :
    IsStatement (.ifElse condition thenBody elseBody)
  | process (sensitivity : List String) {body : List Phrase} (hbody : ∀ s ∈ body, IsStatement s) :
    IsStatement (.process sensitivity body)
  | signal {declaration : SignalDeclaration} (hnames : declaration.names ≠ []) :
    IsStatement (.signal declaration)

/-- A design unit or a clause before one. -/
inductive IsUnit : Phrase → Prop
  | libraryClause (name : String) : IsUnit (.libraryClause name)
  | useClause (library package item : String) : IsUnit (.useClause library package item)
  | entity {unit : Entity} (hports : unit.ports ≠ []) (hnames : ∀ d ∈ unit.ports, d.names ≠ [])
    (hlabel : ∀ l ∈ unit.ending.label, l = unit.name) : IsUnit (.entity unit)
  | architecture {name entityName : String} {signals : List SignalDeclaration}
    {body : List Phrase} {ending : EndClause} (hsignals : ∀ d ∈ signals, d.names ≠ [])
    (hbody : ∀ s ∈ body, IsStatement s) (hlabel : ∀ l ∈ ending.label, l = name) :
    IsUnit (.architecture name entityName signals body ending)

lemma closed_of_not_isOperation {p : Phrase} (h : p.isOperation = false) : p.closed = p := by
  cases p with
  | binary | unary => simp [isOperation] at h
  | _ => rfl

lemma closed_binary (left right : Phrase) (operator : Operator) :
    (binary left operator right false).closed =
      binary left operator right.closed (!right.isOperation) := by
  cases h : right.isOperation with
  | true => simp [closed, h]
  | false => simp [closed, h, closed_of_not_isOperation h]

lemma closed_unary (operator : Operator) (operand : Phrase) :
    (unary operator operand false).closed =
      unary operator operand.closed (!operand.isOperation) := by
  cases h : operand.isOperation with
  | true => simp [closed, h]
  | false => simp [closed, h, closed_of_not_isOperation h]

/-- Induction along the right edge of a phrase without semicolons there. -/
@[elab_as_elim]
lemma open_induction {motive : (p : Phrase) → p.isTerminated = false → Prop}
    (binary : ∀ left operator right h h', motive right h →
      motive (.binary left operator right false) h')
    (unary : ∀ operator operand h h', motive operand h → motive (.unary operator operand false) h')
    (other : ∀ p h, p.isOperation = false → motive p h) :
    ∀ p h, motive p h := by
  intro p hopen
  fun_induction isTerminated p with
  | case1 name => exact other _ rfl rfl
  | case2 value => exact other _ rfl rfl
  | case3 inner => exact other _ rfl rfl
  | case4 left operator right terminated ih =>
    obtain ⟨rfl, hright⟩ := Bool.or_eq_false_iff.mp hopen
    exact binary left operator right hright _ (ih hright)
  | case5 operator operand terminated ih =>
    obtain ⟨rfl, hoperand⟩ := Bool.or_eq_false_iff.mp hopen
    exact unary operator operand hoperand _ (ih hoperand)
  | case6 p _ _ _ hbinary hunary =>
    refine other p hopen ?_
    cases p with
    | binary => exact (hbinary _ _ _ _ rfl).elim
    | unary => exact (hunary _ _ _ rfl).elim
    | _ => rfl

section Open

variable {p : Phrase} (hopen : p.isTerminated = false)

include hopen

lemma isTerminated_closed : p.closed.isTerminated = p.isOperation := by
  induction p, hopen using open_induction with
  | binary left operator right _ _ ih => simp [closed_binary, isTerminated, ih, isOperation_binary]
  | unary operator operand _ _ ih => simp [closed_unary, isTerminated, ih, isOperation_unary]
  | other p hopen hp =>
    rw [closed_of_not_isOperation hp, hp]
    exact hopen

lemma written_closed : p.closed.written = p.written ++ terminatorWritten p.isOperation := by
  induction p, hopen using open_induction with
  | binary left operator right _ _ ih =>
    rw [closed_binary, written, written, ih]
    cases right.isOperation <;> simp [terminatorWritten]
  | unary operator operand _ _ ih =>
    rw [closed_unary, written, written, ih]
    cases operand.isOperation <;> simp [terminatorWritten]
  | other p hopen hp =>
    rw [closed_of_not_isOperation hp, hp]
    exact (List.append_nil _).symm

/-- Taking the semicolon away undoes closing. -/
lemma withoutTerminator?_closed :
    p.closed.withoutTerminator? = if p.isOperation then some p else none := by
  induction p, hopen using open_induction with
  | binary left operator right _ _ ih =>
    rw [closed_binary]
    cases hright : right.isOperation with
    | true => simp [withoutTerminator?, ih, hright]
    | false => simp [withoutTerminator?, closed_of_not_isOperation hright]
  | unary operator operand _ _ ih =>
    rw [closed_unary]
    cases hoperand : operand.isOperation with
    | true => simp [withoutTerminator?, ih, hoperand]
    | false => simp [withoutTerminator?, closed_of_not_isOperation hoperand]
  | other p hopen hp =>
    rw [closed_of_not_isOperation hp, hp]
    cases p with
    | binary | unary => simp at hp
    | _ => rfl

end Open

lemma IsPrimary.isTerminated {p : Phrase} (hp : IsPrimary p) : p.isTerminated = false := by
  cases hp with
  | unary operator hoperand => simp [Phrase.isTerminated, hoperand.isTerminated]
  | _ => rfl

lemma IsValue.isTerminated {p : Phrase} (hp : IsValue p) : p.isTerminated = false := by
  cases hp with
  | primary hp => exact hp.isTerminated
  | binary hleft hoperator hright => simp [Phrase.isTerminated, hright.isTerminated]

end Phrase

end VhdlGates
