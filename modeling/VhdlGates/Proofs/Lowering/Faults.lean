import VhdlGates.Design
import VhdlGates.Proofs.Lowering.Hereditary
import VhdlGates.Proofs.NameTable.Steps

/-! The faults that lowering can end in. A statement is only ever refused, and a declaration fails
for its name. None of these faults is a flaw of a specification, so a flaw can only be found by the
check that follows. -/
namespace VhdlGates

namespace Fault

/-- Whether a fault is a flaw of a specification. -/
def isFlaw : Fault → Bool
  | .danglingReference .. | .invalidStatement (.drivesNothing ..) => true
  | _ => false

lemma not_isFlaw_of_refuses {fault : Fault} (h : fault.refuses) : ¬fault.isFlaw := by
  unfold isFlaw
  split
  · cases h
  · cases h
  · exact Bool.false_ne_true

lemma stage_of_refuses {fault : Fault} (h : fault.refuses) : fault.stage = .lowering := by
  unfold stage
  split
  · cases h
  · cases h
  · cases h
  · rfl

end Fault

namespace Lowering

variable {α β : Type} {P : Fault → Prop}

/-- A sequence fails with its first part, or after it with its second. -/
lemma run_bind_eq_error {m : Lowering α} {f : α → Lowering β} {t t' : NameTable} {fault : Fault} :
    (m >>= f).run t = .error fault t' ↔
      m.run t = .error fault t' ∨ ∃ a s, m.run t = .ok a s ∧ (f a).run s = .error fault t' := by
  rw [EStateM.run_bind]
  cases m.run t <;> simp

lemma run_throw (fault : Fault) (t : NameTable) :
    (throw fault : Lowering α).run t = .error fault t := rfl

/-- A computation that ends in no other faults than these. -/
def FailsWith (P : Fault → Prop) (m : Lowering α) : Prop :=
  ∀ t fault t', m.run t = .error fault t' → P fault

namespace FailsWith

lemma pure (a : α) : FailsWith P (Pure.pure a) := by
  intro t fault t' h
  cases h

lemma throw {fault : Fault} (h : P fault) : FailsWith P (MonadExcept.throw fault : Lowering α) := by
  intro t _ t' hrun
  cases hrun
  exact h

lemma table : FailsWith P (get : Lowering NameTable) := by
  intro t fault t' h
  cases h

lemma bind {m : Lowering α} {f : α → Lowering β} (hm : FailsWith P m)
    (hf : ∀ a, FailsWith P (f a)) : FailsWith P (m >>= f) := by
  intro t fault t' h
  rcases run_bind_eq_error.mp h with h | ⟨a, s, -, h⟩
  · exact hm t fault t' h
  · exact hf a s fault t' h

end FailsWith

end Lowering

open Lowering

section Lowering

variable (config : Config) {P : Fault → Prop}

namespace NameTable

lemma rail_failsWith (value : Bool) : FailsWith P (rail config value) := by
  intro t fault t' h
  rw [run_rail] at h
  cases h

lemma temporary_failsWith : FailsWith P (temporary config) := by
  intro t fault t' h
  rw [run_temporary] at h
  cases h

lemma resolve_failsWith {name : String} (h : P (.unresolvedSignal name)) :
    FailsWith P (resolve config name) := by
  unfold resolve
  cases config.rail? name with
  | some value => exact rail_failsWith config value
  | none =>
    refine FailsWith.table.bind fun t => ?_
    split_ifs
    · exact FailsWith.pure name
    · exact FailsWith.throw h

lemma declareSignal_failsWith {name : String} (hreserved : P (.reservedSignalName name))
    (hduplicate : P (.duplicateSignal name)) (typeName : String) :
    FailsWith P (declareSignal config name typeName) := by
  intro t fault t' h
  cases hrail : config.rail? name with
  | some value =>
    obtain ⟨rfl, -⟩ : Fault.reservedSignalName name = fault ∧ t = t' := by
      simpa [declareSignal, hrail, run_throw] using h
    exact hreserved
  | none =>
    by_cases hname : name ∈ t.names
    · obtain ⟨rfl, -⟩ : Fault.duplicateSignal name = fault ∧ t = t' := by
        simpa [declareSignal, hrail, hname, run_throw] using h
      exact hduplicate
    · cases htype : isSingleBitType typeName <;> simp [declareSignal, hrail, hname, htype] at h

lemma declarePort_failsWith {name : String} (hreserved : P (.reservedSignalName name))
    (hduplicate : P (.duplicateSignal name)) (direction : Direction) (typeName : String) :
    FailsWith P (declarePort config name direction typeName) := by
  refine (declareSignal_failsWith config hreserved hduplicate typeName).bind
    fun _ t fault t' h => ?_
  cases h

end NameTable

/-- Lowering ends in no other faults than those that refuse a statement. -/
lemma Lowering.failsWith_hereditary (hP : ∀ fault, fault.refuses → P fault) :
    Hereditary config fun _ => FailsWith P where
  pure := FailsWith.pure
  throw h := FailsWith.throw (hP _ h)
  bind := FailsWith.bind
  rail := NameTable.rail_failsWith config
  resolve _ := NameTable.resolve_failsWith config (hP _ rfl)
  temporary := NameTable.temporary_failsWith config

namespace Design

theorem lower_flawless (design : Design) :
    FailsWith (fun fault => ¬fault.isFlaw) (design.lower config) := by
  have h : Hereditary config fun _ => FailsWith fun fault => ¬fault.isFlaw :=
    failsWith_hereditary config fun _ => Fault.not_isFlaw_of_refuses
  refine (h.forM (fun d => h.forM (fun name => ?_) _) _).bind fun _ => ?_
  · exact NameTable.declarePort_failsWith config Bool.false_ne_true Bool.false_ne_true _ _
  refine (h.forM (fun d => h.forM (fun name => ?_) _) _).bind fun _ => ?_
  · exact NameTable.declareSignal_failsWith config Bool.false_ne_true Bool.false_ne_true _
  · exact h.lowerEach h.lowerStatement _

end Design

end Lowering

namespace Design

lemma Units.not_isFlaw_of_add {units : Units} {phrase : Phrase} {fault : Fault}
    (h : units.add phrase = .error fault) : ¬fault.isFlaw := by
  unfold Units.add at h
  split at h <;> (try split_ifs at h) <;> cases h <;> simp [Fault.isFlaw]

lemma Units.not_isFlaw_of_addAll {units : Units} {phrases : List Phrase} {fault : Fault}
    (h : units.addAll phrases = .error fault) : ¬fault.isFlaw := by
  induction phrases generalizing units with
  | nil => cases h
  | cons phrase rest ih =>
    rw [addAll] at h
    cases hfirst : units.add phrase with
    | error other =>
      rw [hfirst] at h
      cases h
      exact not_isFlaw_of_add hfirst
    | ok more =>
      rw [hfirst] at h
      exact ih h

lemma not_isFlaw_of_ofPhrases {phrases : List Phrase} {fault : Fault}
    (h : ofPhrases phrases = .error fault) : ¬fault.isFlaw := by
  unfold ofPhrases at h
  cases hunits : Units.addAll {} phrases with
  | error other =>
    rw [hunits] at h
    cases h
    exact Units.not_isFlaw_of_addAll hunits
  | ok units =>
    rw [hunits] at h
    obtain ⟨_ | entity, _ | architecture⟩ := units
    · cases h
      simp [Fault.isFlaw]
    · cases h
      simp [Fault.isFlaw]
    · cases h
      simp [Fault.isFlaw]
    · change (if architecture.entityName = entity.name then Except.ok (⟨entity, architecture⟩ : Design)
        else .error (Fault.entityMismatch architecture.name entity.name architecture.entityName)) = _ at h
      split_ifs at h
      cases h
      simp [Fault.isFlaw]

end Design

end VhdlGates
