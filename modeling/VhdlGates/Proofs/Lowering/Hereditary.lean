import Mathlib.Tactic.Common
import VhdlGates.Lowering.Statement

/-! Properties of all that lowering does. Whatever a statement is lowered to is a sequence of a few
steps: a rail is taken, a name is resolved, a temporary is created, or a fault ends it. A property
that these steps have and that sequences inherit holds of the lowering of every statement. -/
namespace VhdlGates

/-- Whether a fault refuses a statement. An element that drives nothing is found later. -/
def Fault.refuses : Fault → Bool
  | .invalidStatement (.drivesNothing ..) => false
  | .unresolvedSignal _ | .invalidStatement _ | .unsupportedProcess _ | .notImplemented _ => true
  | _ => false

namespace Lowering

/-- A property of computations that the steps of lowering have and that sequences inherit. -/
structure Hereditary (config : Config) (P : ⦃α : Type⦄ → Lowering α → Prop) : Prop where
  pure {α : Type} (a : α) : P (Pure.pure a : Lowering α)
  throw {α : Type} {fault : Fault} (h : fault.refuses) : P (MonadExcept.throw fault : Lowering α)
  bind {α β : Type} {m : Lowering α} {f : α → Lowering β} (hm : P m) (hf : ∀ a, P (f a)) :
    P (m >>= f)
  rail (value : Bool) : P (NameTable.rail config value)
  resolve (name : String) : P (NameTable.resolve config name)
  temporary : P (NameTable.temporary config)

end Lowering

namespace Assignments

lemma refuses_of_ofStatement {statement : Phrase} {fault : Fault}
    (h : ofStatement statement = .error fault) : fault.refuses := by
  unfold ofStatement at h
  split at h <;> cases h <;> rfl

lemma refuses_of_collect {made : Assignments} {body : List Phrase} {fault : Fault}
    (h : collect made body = .error fault) : fault.refuses := by
  induction body generalizing made with
  | nil => cases h
  | cons statement rest ih =>
    rw [collect] at h
    cases hfirst : ofStatement statement with
    | error other =>
      rw [hfirst] at h
      cases h
      exact refuses_of_ofStatement hfirst
    | ok assignment =>
      rw [hfirst] at h
      exact ih h

end Assignments

namespace Lowering.Hereditary

open Phrase

variable {config : Config} {P : ⦃α : Type⦄ → Lowering α → Prop} (h : Hereditary config P)
include h

lemma forM {α : Type} {f : α → Lowering Unit} (hf : ∀ a, P (f a)) (items : List α) :
    P (items.forM f) := by
  induction items with
  | nil => exact h.pure _
  | cons a rest ih => exact h.bind (hf a) fun _ => ih

lemma lowerEach {α : Type} {f : α → Lowering (List Element)} (hf : ∀ a, P (f a)) (items : List α) :
    P (VhdlGates.lowerEach f items) := by
  induction items with
  | nil => exact h.pure _
  | cons a rest ih => exact h.bind (hf a) fun _ => h.bind ih fun _ => h.pure _

lemma toOperand (c : Carrier) : P (c.toOperand config) := by
  cases c with
  | wire signal => exact h.pure _
  | gate feeds root => exact h.bind h.temporary fun _ => h.pure _

lemma lowerOperand_of {p : Phrase} (hp : P (p.lower config .operand)) :
    P (p.lowerOperand config) :=
  h.bind hp h.toOperand

lemma lowerSelector_of {condition : Phrase} (hp : P (condition.lower config .operand)) :
    P (condition.lowerSelector config) := by
  unfold Phrase.lowerSelector
  cases condition.comparedSignal? with
  | some name => exact h.bind (h.resolve name) fun _ => h.pure _
  | none => exact h.lowerOperand_of hp

mutual

theorem lower (role : Role) : ∀ p : Phrase, P (p.lower config role)
  | .identifier name => by
    rw [Phrase.lower]
    exact h.bind (h.resolve name) fun _ => h.pure _
  | .literal (.bit value) => by
    rw [Phrase.lower]
    exact h.bind (h.rail value) fun _ => h.pure _
  | .parenthesized inner => by
    rw [Phrase.lower]
    exact lower role inner
  | .binary left (.logic operator) right _ => by
    rw [lower_binary]
    split_ifs
    · refine h.bind (h.lowerOperand_of (lower .operand left)) fun _ => ?_
      exact h.bind (h.lowerOperand_of (lower .operand right)) fun _ => h.pure _
    · exact h.throw rfl
  | .unary (.logic operator) operand _ => by
    rw [lower_unary]
    split_ifs
    · exact h.bind (h.lowerOperand_of (lower .operand operand)) fun _ => h.pure _
    · exact h.throw rfl
  | .whenElse branches fallback => by
    rw [lower_whenElse]
    refine h.bind (lowerBranches branches) fun _ => ?_
    exact h.bind (h.lowerOperand_of (lower .operand fallback)) fun _ => h.pure _
  | .literal (.numeral _) | .binary _ (.assignment _) _ _ | .binary _ (.shift _) _ _
  | .binary _ (.relation _) _ _ | .binary _ .concatenation _ _ | .unary (.shift _) _ _
  | .unary (.relation _) _ _ | .unary (.assignment _) _ _ | .unary .concatenation _ _
  | .ifThen .. | .ifElse .. | .process .. | .signal _ | .entity _ | .architecture ..
  | .libraryClause _ | .useClause .. => by
    simp only [Phrase.lower]
    exact h.throw rfl

theorem lowerBranches : ∀ branches : List (Branch Phrase),
    P (Phrase.lowerBranches config branches)
  | [] => by
    rw [Phrase.lowerBranches]
    exact h.pure _
  | ⟨value, condition⟩ :: rest => by
    rw [lowerBranches_cons]
    refine h.bind (h.lowerOperand_of (lower .operand value)) fun _ => ?_
    refine h.bind (h.lowerSelector_of (lower .operand condition)) fun _ => ?_
    exact h.bind (lowerBranches rest) fun _ => h.pure _

end

lemma lowerOperand (p : Phrase) : P (p.lowerOperand config) :=
  h.lowerOperand_of (h.lower .operand p)

lemma lowerSelector (condition : Phrase) : P (condition.lowerSelector config) :=
  h.lowerSelector_of (h.lower .operand condition)

lemma assignmentTarget : ∀ target : Phrase, P (target.assignmentTarget config)
  | .identifier name => h.resolve name
  | .parenthesized inner => assignmentTarget inner
  | .literal _ | .binary .. | .unary .. | .whenElse .. | .ifThen .. | .ifElse .. | .process ..
  | .signal _ | .entity _ | .architecture .. | .libraryClause _ | .useClause .. =>
    h.throw rfl

lemma lowerAssignment (target value : Phrase) : P (target.lowerAssignment config value) := by
  refine h.bind (h.assignmentTarget target) fun _ => ?_
  exact h.bind (h.lower .value value) fun _ => h.pure _

lemma lowerPath (output : String) (value : Option Phrase) :
    P (Phrase.lowerPath config output value) := by
  cases value with
  | some value => exact h.lowerOperand value
  | none => exact h.pure _

lemma lowerTarget (selector : String) (thenPath elsePath : Assignments) (target : String) :
    P (Phrase.lowerTarget config selector thenPath elsePath target) := by
  refine h.bind (h.resolve target) fun _ => ?_
  refine h.bind (h.lowerPath _ _) fun _ => ?_
  exact h.bind (h.lowerPath _ _) fun _ => h.pure _

lemma ofBody (body : List Phrase) :
    P (MonadExcept.ofExcept (Assignments.ofBody body) : Lowering Assignments) := by
  cases hbody : Assignments.ofBody body with
  | error fault => exact h.throw (Assignments.refuses_of_collect hbody)
  | ok made => exact h.pure _

lemma lowerIf (condition : Phrase) (thenBody elseBody : List Phrase) :
    P (Phrase.lowerIf config condition thenBody elseBody) := by
  refine h.bind (h.ofBody thenBody) fun _ => ?_
  refine h.bind (h.ofBody elseBody) fun _ => ?_
  refine h.bind (h.lowerSelector condition) fun _ => ?_
  exact h.bind (h.lowerEach (h.lowerTarget _ _ _) _) fun _ => h.pure _

lemma lowerItem (item : Phrase) : P (Phrase.lowerItem config item) := by
  unfold Phrase.lowerItem
  split
  · exact h.lowerIf _ _ _
  · exact h.lowerIf _ _ _
  · exact h.lowerAssignment _ _
  · exact h.throw rfl

theorem lowerStatement (statement : Phrase) : P (Phrase.lowerStatement config statement) := by
  unfold Phrase.lowerStatement
  split
  · exact h.lowerAssignment _ _
  · exact h.bind (h.lowerOperand _) fun _ => h.pure _
  · exact h.bind (h.lowerOperand _) fun _ => h.pure _
  · refine h.bind (h.forM (fun name => ?_) _) fun _ => h.lowerEach h.lowerItem _
    exact h.bind (h.resolve name) fun _ => h.pure _
  · exact h.throw rfl
  · exact h.throw rfl
  · exact h.throw rfl

end Lowering.Hereditary

end VhdlGates
