import Mathlib.Tactic.Common
import VhdlGates.Proofs.Lowering.Assignments

/-! Marks of the surface that carry no logic: parentheses around operands, values and conditions,
the semicolons that operations hold, the end clauses of units, the names of types, and which of the
two assignment operators is written. A phrase without them is lowered by the same computation. -/
namespace VhdlGates

/-- Where a phrase stands: in the body of an architecture, of a process or of a branch of an if
statement; as an operand, a value or a condition, where parentheses carry no logic; or elsewhere in
an expression. -/
inductive Place where
  | statement | item | branch | operand | part
  deriving DecidableEq, Repr

/-- The place of the value that is assigned by an assignment at this place. Parentheses around it
matter in a process, where it has to be a choice. -/
def Place.ofValue : Place → Place
  | statement | branch => .operand
  | _ => .part

namespace Operator

/-- The place of the left operand. -/
def leftPlace : Operator → Place
  | logic _ => .operand
  | _ => .part

/-- The place of the right operand in an operation at this place. -/
def rightPlace (place : Place) : Operator → Place
  | logic _ => .operand
  | assignment _ => place.ofValue
  | _ => .part

/-- The operator, as a signal assignment if it is an assignment. -/
def plain : Operator → Operator
  | assignment _ => .assignment .toSignal
  | other => other

end Operator

def SignalDeclaration.plain (d : SignalDeclaration) : SignalDeclaration := { d with typeName := "" }

def PortDeclaration.plain (d : PortDeclaration) : PortDeclaration := { d with typeName := "" }

def Entity.plain (unit : Entity) : Entity := ⟨unit.name, unit.ports.map (·.plain), {}⟩

namespace Phrase

mutual

/-- A phrase at this place without the marks that carry no logic. -/
def plain (place : Place) : Phrase → Phrase
  | .parenthesized inner =>
    if place = .operand then plain .operand inner else .parenthesized (plain .part inner)
  | .binary left operator right _ =>
    .binary (plain operator.leftPlace left) operator.plain (plain (operator.rightPlace place) right)
      false
  | .unary operator operand _ => .unary operator (plain operator.leftPlace operand) false
  | .whenElse branches fallback => .whenElse (plainBranches branches) (plain .operand fallback)
  | .ifThen condition thenBody => .ifThen (plain .operand condition) (plainBody .branch thenBody)
  | .ifElse condition thenBody elseBody =>
    .ifElse (plain .operand condition) (plainBody .branch thenBody) (plainBody .branch elseBody)
  | .process sensitivity body => .process sensitivity (plainBody .item body)
  | .signal declaration => .signal declaration.plain
  | .entity unit => .entity unit.plain
  | .architecture name entityName signals body _ =>
    .architecture name entityName (signals.map (·.plain)) (plainBody .statement body) {}
  | other => other

/-- The phrases of a body, each at this place. -/
def plainBody (place : Place) : List Phrase → List Phrase
  | [] => []
  | phrase :: rest => plain place phrase :: plainBody place rest

def plainBranches : List (Branch Phrase) → List (Branch Phrase)
  | [] => []
  | ⟨value, condition⟩ :: rest => ⟨plain .operand value, plain .operand condition⟩ :: plainBranches rest

end

lemma plainBody_eq_map (place : Place) (body : List Phrase) :
    plainBody place body = body.map (plain place) := by
  induction body with
  | nil => rfl
  | cons phrase rest ih => rw [plainBody, ih, List.map_cons]

lemma plain_part_eq_identifier {p : Phrase} {name : String} :
    p.plain .part = .identifier name ↔ p = .identifier name := by
  cases p <;> simp [plain]

lemma plain_part_eq_literal {p : Phrase} {value : Literal} :
    p.plain .part = .literal value ↔ p = .literal value := by
  cases p <;> simp [plain]

lemma comparedSignal?_binary {left right : Phrase} {operator : Operator} {terminated : Bool}
    {name : String} : (binary left operator right terminated).comparedSignal? = some name ↔
      operator = .relation .equal ∧ left = .identifier name ∧ ∃ value, right = .literal value := by
  unfold comparedSignal?
  split
  · rename_i h
    cases h
  · rename_i h
    cases h
    simp
  · rename_i hother
    refine ⟨fun h => absurd h (by simp), ?_⟩
    rintro ⟨rfl, rfl, value, rfl⟩
    exact (hother name value terminated rfl).elim

/-- A comparison with a literal is looked for behind parentheses, and its own sides are kept. -/
lemma comparedSignal?_plain (place : Place) : ∀ p : Phrase,
    (p.plain place).comparedSignal? = p.comparedSignal?
  | .parenthesized inner => by
    rw [plain]
    split_ifs
    · exact comparedSignal?_plain .operand inner
    · exact comparedSignal?_plain .part inner
  | .binary left operator right terminated => by
    ext name
    simp only [plain, comparedSignal?_binary]
    cases operator with
    | relation o =>
      simp only [Operator.leftPlace, Operator.rightPlace, Operator.plain, plain_part_eq_identifier, plain_part_eq_literal]
    | _ => simp [Operator.plain]
  | .identifier _ | .literal _ | .unary .. | .whenElse .. | .ifThen .. | .ifElse .. | .process ..
  | .signal _ | .entity _ | .architecture .. | .libraryClause _ | .useClause .. => by
    simp only [plain, comparedSignal?]

variable (config : Config)

lemma lowerOperand_congr {p q : Phrase} (h : q.lower config .operand = p.lower config .operand) :
    q.lowerOperand config = p.lowerOperand config := by
  rw [lowerOperand, lowerOperand, h]

lemma lowerSelector_congr {p q : Phrase} (hcompared : q.comparedSignal? = p.comparedSignal?)
    (h : q.lower config .operand = p.lower config .operand) :
    q.lowerSelector config = p.lowerSelector config := by
  rw [lowerSelector, lowerSelector, hcompared, lowerOperand_congr config h]

mutual

/-- A phrase and its plain form are lowered alike. -/
theorem lower_plain (place : Place) (role : Role) : ∀ p : Phrase,
    (p.plain place).lower config role = p.lower config role
  | .parenthesized inner => by
    rw [plain]
    split_ifs
    · rw [lower_plain .operand role inner, lower]
    · rw [lower, lower_plain .part role inner, lower]
  | .binary left (.logic operator) right _ => by
    simp only [plain, Operator.plain, lower_binary,
      lowerOperand_congr config (lower_plain _ .operand left),
      lowerOperand_congr config (lower_plain _ .operand right)]
  | .unary (.logic operator) operand _ => by
    simp only [plain, lower_unary, lowerOperand_congr config (lower_plain _ .operand operand)]
  | .whenElse branches fallback => by
    rw [plain, lower_whenElse, lower_whenElse, lowerBranches_plain branches,
      lowerOperand_congr config (lower_plain .operand .operand fallback)]
  | .identifier _ | .literal _ | .libraryClause _ | .useClause .. => by simp only [plain]
  | .binary _ (.assignment _) _ _ | .binary _ (.shift _) _ _ | .binary _ (.relation _) _ _
  | .binary _ .concatenation _ _ | .unary (.shift _) _ _ | .unary (.relation _) _ _
  | .unary (.assignment _) _ _ | .unary .concatenation _ _ | .ifThen .. | .ifElse .. | .process ..
  | .signal _ | .entity _ | .architecture .. => by
    simp only [plain, Operator.plain, lower, construct]

theorem lowerBranches_plain : ∀ branches : List (Branch Phrase),
    lowerBranches config (plainBranches branches) = lowerBranches config branches
  | [] => by rw [plainBranches]
  | ⟨value, condition⟩ :: rest => by
    rw [plainBranches, lowerBranches_cons, lowerBranches_cons, lowerBranches_plain rest,
      lowerOperand_congr config (lower_plain .operand .operand value),
      lowerSelector_congr config (comparedSignal?_plain .operand condition)
        (lower_plain .operand .operand condition)]

end

lemma lowerOperand_plain (place : Place) (p : Phrase) :
    (p.plain place).lowerOperand config = p.lowerOperand config :=
  lowerOperand_congr config (lower_plain config place .operand p)

lemma lowerSelector_plain (place : Place) (p : Phrase) :
    (p.plain place).lowerSelector config = p.lowerSelector config :=
  lowerSelector_congr config (comparedSignal?_plain place p) (lower_plain config place .operand p)

lemma assignmentTarget_plain : ∀ target : Phrase,
    (target.plain .part).assignmentTarget config = target.assignmentTarget config
  | .parenthesized inner => by
    simp only [plain, reduceCtorEq, if_false, assignmentTarget, assignmentTarget_plain inner]
  | .identifier _ | .literal _ | .binary .. | .unary .. | .whenElse .. | .ifThen .. | .ifElse ..
  | .process .. | .signal _ | .entity _ | .architecture .. | .libraryClause _ | .useClause .. => by
    simp only [plain, assignmentTarget, construct]

lemma lowerAssignment_plain (place : Place) (target value : Phrase) :
    (target.plain .part).lowerAssignment config (value.plain place) =
      target.lowerAssignment config value := by
  simp only [lowerAssignment, assignmentTarget_plain, lower_plain]

lemma lowerPath_plain (output : String) (value : Option Phrase) :
    lowerPath config output (value.map (plain .operand)) = lowerPath config output value := by
  cases value with
  | none => rfl
  | some value => exact lowerOperand_plain config .operand value

end Phrase

namespace Assignments

/-- The assignments with the plain forms of their values. -/
def plain (made : Assignments) : Assignments := made.map (Prod.map id (Phrase.plain .operand))

lemma plain_cons (target : String) (value : Phrase) (rest : Assignments) :
    plain ((target, value) :: rest) = (target, value.plain .operand) :: rest.plain := rfl

lemma targets_plain (made : Assignments) : made.plain.targets = made.targets := by
  simp [plain, targets]

lemma lookup_plain (made : Assignments) (target : String) :
    made.plain.lookup target = (made.lookup target).map (Phrase.plain .operand) := by
  induction made with
  | nil => rfl
  | cons first rest ih =>
    obtain ⟨name, value⟩ := first
    rw [plain_cons, lookup_cons, lookup_cons, ih]
    split_ifs <;> rfl

lemma put_plain (made : Assignments) (target : String) (value : Phrase) :
    made.plain.put target (value.plain .operand) = (made.put target value).plain := by
  induction made with
  | nil => rfl
  | cons first rest ih =>
    obtain ⟨name, old⟩ := first
    rw [plain_cons, put, put, ih]
    split_ifs <;> rfl

lemma ofStatement_plain (statement : Phrase) : ofStatement (statement.plain .branch) =
    (ofStatement statement).map (Prod.map id (Phrase.plain .operand)) := by
  cases statement with
  | binary left operator right terminated =>
    cases operator with
    | assignment o =>
      cases left <;> simp [Phrase.plain, ofStatement, Operator.plain, Operator.leftPlace, Operator.rightPlace,
        Place.ofValue, Except.map, Phrase.construct]
    | _ => simp [Phrase.plain, Operator.plain, ofStatement, Except.map, Phrase.construct]
  | _ => simp [Phrase.plain, ofStatement, Except.map, Phrase.construct]

/-- The values of a body are collected in their plain forms. -/
lemma collect_plain (made : Assignments) (body : List Phrase) :
    collect made.plain (body.map (Phrase.plain .branch)) = (collect made body).map plain := by
  induction body generalizing made with
  | nil => rfl
  | cons statement rest ih =>
    rw [List.map_cons, collect, collect, ofStatement_plain]
    cases ofStatement statement with
    | error fault => rfl
    | ok assignment =>
      obtain ⟨target, value⟩ := assignment
      exact (congrArg (collect · _) (put_plain made target value)).trans (ih _)

lemma ofBody_plain (body : List Phrase) :
    ofBody (Phrase.plainBody .branch body) = (ofBody body).map plain := by
  rw [Phrase.plainBody_eq_map]
  exact collect_plain [] body

end Assignments

/-- Items are lowered alike if each of them is lowered like another one. -/
lemma lowerEach_map {α β : Type} {f : β → Lowering (List Element)} {g : α → Lowering (List Element)}
    {change : α → β} (h : ∀ a, f (change a) = g a) (items : List α) :
    lowerEach f (items.map change) = lowerEach g items := by
  induction items with
  | nil => rfl
  | cons a rest ih => rw [List.map_cons, lowerEach, lowerEach, h, ih]

namespace Phrase

variable (config : Config)

lemma lowerTarget_plain (selector : String) (thenPath elsePath : Assignments) :
    lowerTarget config selector thenPath.plain elsePath.plain =
      lowerTarget config selector thenPath elsePath := by
  funext target
  simp only [lowerTarget, Assignments.lookup_plain, lowerPath_plain, Option.isNone_map]

lemma lowerIf_plain (condition : Phrase) (thenBody elseBody : List Phrase) :
    lowerIf config (condition.plain .operand) (plainBody .branch thenBody)
      (plainBody .branch elseBody) = lowerIf config condition thenBody elseBody := by
  simp only [lowerIf, Assignments.ofBody_plain, lowerSelector_plain]
  cases Assignments.ofBody thenBody with
  | error fault => rfl
  | ok thenPath =>
    cases Assignments.ofBody elseBody with
    | error fault => rfl
    | ok elsePath =>
      simp only [Except.map, MonadExcept.ofExcept, pure_bind, Assignments.targets_plain,
        lowerTarget_plain]

lemma lowerItem_plain (item : Phrase) :
    lowerItem config (item.plain .item) = lowerItem config item := by
  cases item with
  | ifThen condition thenBody =>
    rw [plain]
    exact lowerIf_plain config condition thenBody []
  | ifElse condition thenBody elseBody =>
    rw [plain]
    exact lowerIf_plain config condition thenBody elseBody
  | binary target operator value terminated =>
    cases operator with
    | assignment o =>
      cases value with
      | whenElse branches fallback =>
        have h := lowerAssignment_plain config .part target (.whenElse branches fallback)
        simp only [plain] at h
        simp only [plain, Operator.plain, Operator.leftPlace, lowerItem, h]
      | _ => simp [plain, Operator.plain, Operator.rightPlace, Place.ofValue, lowerItem, construct]
    | _ => simp [plain, Operator.plain, lowerItem, construct]
  | _ => simp [plain, lowerItem, construct]

theorem lowerStatement_plain (statement : Phrase) :
    lowerStatement config (statement.plain .statement) = lowerStatement config statement := by
  cases statement with
  | binary left operator right terminated =>
    have h := lowerOperand_plain config .statement (.binary left operator right terminated)
    cases operator with
    | assignment o =>
      simp only [plain, Operator.plain, Operator.leftPlace, lowerStatement, lowerAssignment_plain]
    | _ =>
      simp only [plain, Operator.plain] at h
      simp only [plain, Operator.plain, lowerStatement, h]
  | unary operator operand terminated =>
    have h := lowerOperand_plain config .statement (.unary operator operand terminated)
    simp only [plain] at h
    simp only [plain, lowerStatement, h]
  | process sensitivity body =>
    rw [plain, plainBody_eq_map, lowerStatement, lowerStatement]
    simp only [lowerEach_map (lowerItem_plain config)]
  | _ => simp [plain, lowerStatement, construct]

end Phrase

end VhdlGates
