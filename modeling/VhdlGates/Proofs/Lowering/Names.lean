import VhdlGates.Proofs.Lowering.Assignments
import VhdlGates.Proofs.Lowering.Derivations.Statement
import VhdlGates.Proofs.Lowering.Equations

/-! The names that statements use: as operands, as targets, as selectors and in sensitivity lists.
Wherever lowering succeeds, all of them are in scope. -/
namespace VhdlGates

open NameTable (Reaches Resolves ResolvesAll)

namespace Phrase

mutual

/-- The identifiers in an expression. -/
def identifiers : Phrase → List String
  | .identifier name => [name]
  | .parenthesized inner => identifiers inner
  | .binary left _ right _ => identifiers left ++ identifiers right
  | .unary _ operand _ => identifiers operand
  | .whenElse branches fallback => branchIdentifiers branches ++ identifiers fallback
  | _ => []

def branchIdentifiers : List (Branch Phrase) → List String
  | [] => []
  | ⟨value, condition⟩ :: rest =>
    identifiers value ++ identifiers condition ++ branchIdentifiers rest

end

/-- The names in the bodies of an if statement. Of the values assigned to a target, only the last
one in each body is used. -/
def bodyNames (thenBody elseBody : List Phrase) : List String :=
  (assignedNames (thenBody ++ elseBody)).flatMap fun target =>
    target :: ((lastValue? thenBody target).elim [] identifiers ++
      (lastValue? elseBody target).elim [] identifiers)

/-- The names that a statement inside a process uses. -/
def itemNames : Phrase → List String
  | .ifThen condition thenBody => condition.identifiers ++ bodyNames thenBody []
  | .ifElse condition thenBody elseBody => condition.identifiers ++ bodyNames thenBody elseBody
  | other => other.identifiers

/-- The names that a statement of an architecture uses. -/
def usedNames : Phrase → List String
  | .process sensitivity body => sensitivity ++ body.flatMap itemNames
  | other => other.identifiers

lemma identifiers_of_comparedSignal? {condition : Phrase} {name : String}
    (h : condition.comparedSignal? = some name) : condition.identifiers = [name] := by
  fun_induction comparedSignal? condition with
  | case1 inner ih => exact ih h
  | case2 other =>
    obtain rfl := Option.some.inj h
    rfl
  | case3 => cases h

end Phrase

namespace NameTable

variable {config : Config} {t t' : NameTable}

lemma Step.scope_subset (h : Step config t t') : t.scope config ⊆ t'.scope config := by
  cases h with
  | rail value => rw [scope_afterRail]
  | temporary =>
    rw [scope_afterTemporary]
    exact Set.subset_insert _ _

lemma Reaches.scope_subset (h : Reaches config t t') : t.scope config ⊆ t'.scope config := by
  induction h with
  | refl => exact subset_rfl
  | tail _ hstep ih => exact ih.trans hstep.scope_subset

lemma Resolves.mem_scope {name : String} (h : Resolves config t name t') :
    name ∈ t'.scope config := by
  cases h with
  | rail hrail => exact Or.inr ⟨_, (Config.railName_of_rail? hrail).symm⟩
  | known _ hname => exact Or.inl hname

lemma ResolvesAll.mem_scope {names : List String} (h : ResolvesAll config names t t') :
    Reaches config t t' ∧ ∀ name ∈ names, name ∈ t'.scope config := by
  induction h with
  | nil => exact ⟨.refl _, by simp⟩
  | cons hname _ ih =>
    obtain ⟨hreach, hrest⟩ := ih
    exact ⟨hname.reaches.trans hreach,
      List.forall_mem_cons.mpr ⟨hreach.scope_subset hname.mem_scope, hrest⟩⟩

end NameTable

namespace Phrase

variable {config : Config}

mutual

/-- The identifiers of a lowered phrase are in scope. -/
theorem Lowers.identifiers_mem {p : Phrase} {t t' : NameTable} {c : Carrier} :
    Lowers config p t c t' → ∀ name ∈ p.identifiers, name ∈ t'.scope config
  | .identifier h => by
    rw [identifiers]
    exact List.forall_mem_singleton.mpr h.mem_scope
  | .bit _ _ => by simp [identifiers]
  | .parenthesized h => by
    rw [identifiers]
    exact h.identifiers_mem
  | .binary _ _ hleft hright => by
    rw [identifiers]
    refine List.forall_mem_append.mpr ⟨fun name hname => ?_, hright.identifiers_mem⟩
    exact hright.reaches.scope_subset (hleft.identifiers_mem name hname)
  | .unary _ _ h => by
    rw [identifiers]
    exact h.identifiers_mem
  | .whenElse hbranches hfallback => by
    rw [identifiers]
    refine List.forall_mem_append.mpr ⟨fun name hname => ?_, hfallback.identifiers_mem⟩
    exact hfallback.reaches.scope_subset (hbranches.identifiers_mem name hname)

theorem LowersOperand.identifiers_mem {p : Phrase} {t t' : NameTable} {o : Operand} :
    LowersOperand config p t o t' → ∀ name ∈ p.identifiers, name ∈ t'.scope config
  | .wire h => h.identifiers_mem
  | .gate h => fun name hname =>
    (NameTable.Step.temporary).scope_subset (h.identifiers_mem name hname)

theorem LowersSelector.identifiers_mem {p : Phrase} {t t' : NameTable} {o : Operand} :
    LowersSelector config p t o t' → ∀ name ∈ p.identifiers, name ∈ t'.scope config
  | .compared hcompared h => by
    rw [identifiers_of_comparedSignal? hcompared]
    exact List.forall_mem_singleton.mpr h.mem_scope
  | .operand _ h => h.identifiers_mem

theorem LowersBranches.identifiers_mem {branches : List (Branch Phrase)} {t t' : NameTable}
    {bs : List (Branch Operand)} : LowersBranches config branches t bs t' →
    ∀ name ∈ branchIdentifiers branches, name ∈ t'.scope config
  | .nil => by simp [branchIdentifiers]
  | .cons hvalue hcondition hrest => by
    rw [branchIdentifiers]
    refine List.forall_mem_append.mpr ⟨List.forall_mem_append.mpr ⟨fun name hname => ?_,
      fun name hname => ?_⟩, hrest.identifiers_mem⟩
    · have hmem := hcondition.reaches.scope_subset (hvalue.identifiers_mem name hname)
      exact hrest.reaches.scope_subset hmem
    · exact hrest.reaches.scope_subset (hcondition.identifiers_mem name hname)

end

variable {t t' : NameTable} {elements : List Element}

lemma LowersTo.identifiers_mem {target : Phrase} {output : String}
    (h : LowersTo config target t output t') :
    target.identifiers = [output] ∧ output ∈ t'.scope config := by
  induction h with
  | identifier h => exact ⟨rfl, h.mem_scope⟩
  | parenthesized _ ih => exact ih

lemma LowersAssignment.names_mem {target value : Phrase}
    (h : LowersAssignment config target value t elements t') :
    ∀ name ∈ target.identifiers ++ value.identifiers, name ∈ t'.scope config := by
  obtain ⟨htarget, hvalue⟩ := h
  obtain ⟨htarget, hmem⟩ := htarget.identifiers_mem
  refine List.forall_mem_append.mpr ⟨?_, hvalue.identifiers_mem⟩
  rw [htarget]
  exact List.forall_mem_singleton.mpr (hvalue.reaches.scope_subset hmem)

lemma LowersPath.names_mem {output : String} {value : Option Phrase} {o : Operand}
    (h : LowersPath config output value t o t') :
    ∀ name ∈ value.elim [] identifiers, name ∈ t'.scope config := by
  cases h with
  | assigned hvalue => exact hvalue.identifiers_mem
  | kept => simp

lemma LowersTarget.names_mem {selector target : String} {thenPath elsePath : Assignments}
    {muxes : List Element}
    (h : LowersTarget config selector thenPath elsePath target t muxes elements t') :
    ∀ name ∈ target :: ((thenPath.lookup target).elim [] identifiers ++
      (elsePath.lookup target).elim [] identifiers), name ∈ t'.scope config := by
  obtain ⟨htarget, hthen, helse⟩ := h
  refine List.forall_mem_cons.mpr ⟨?_, List.forall_mem_append.mpr ⟨fun name hname => ?_,
    helse.names_mem⟩⟩
  · exact helse.reaches.scope_subset (hthen.reaches.scope_subset htarget.mem_scope)
  · exact helse.reaches.scope_subset (hthen.names_mem name hname)

lemma LowersIf.names_mem {condition : Phrase} {thenBody elseBody : List Phrase} {selector : String}
    {muxes : List Element}
    (h : LowersIf config condition thenBody elseBody t selector muxes elements t') :
    ∀ name ∈ condition.identifiers ++ bodyNames thenBody elseBody, name ∈ t'.scope config := by
  obtain ⟨hthen, helse, hselector, htargets⟩ := h
  refine List.forall_mem_append.mpr ⟨fun name hname => ?_, fun name hname => ?_⟩
  · exact (htargets.reaches LowersTarget.reaches).scope_subset (hselector.identifiers_mem name hname)
  · obtain ⟨target, htarget, hname⟩ := List.mem_flatMap.mp hname
    rw [← Assignments.targets_append_filter hthen helse] at htarget
    obtain ⟨s, _, _, s', hlowers, -, hreach, -⟩ := htargets.exists_of_mem LowersTarget.reaches htarget
    rw [← Assignments.lookup_ofBody hthen, ← Assignments.lookup_ofBody helse] at hname
    exact hreach.scope_subset (hlowers.names_mem name hname)

lemma LowersItem.names_mem {item : Phrase} {choices : List Choice}
    (h : LowersItem config item t choices elements t') :
    ∀ name ∈ item.itemNames, name ∈ t'.scope config := by
  cases h with
  | ifThen hif => exact hif.names_mem
  | ifElse hif => exact hif.names_mem
  | assignment _ _ hassignment => exact hassignment.names_mem

/-- The names that a lowered statement uses are in scope. -/
theorem LowersStatement.names_mem {statement : Phrase} {choices : List Choice}
    (h : LowersStatement config statement t choices elements t') :
    ∀ name ∈ statement.usedNames, name ∈ t'.scope config := by
  cases h with
  | assignment _ _ hassignment => exact hassignment.names_mem
  | binary hoperand => exact hoperand.identifiers_mem
  | unary hoperand => exact hoperand.identifiers_mem
  | process hnames hbody =>
    refine List.forall_mem_append.mpr ⟨fun name hname => ?_, fun name hname => ?_⟩
    · exact (hbody.reaches LowersItem.reaches).scope_subset (hnames.mem_scope.2 name hname)
    · obtain ⟨item, hitem, hname⟩ := List.mem_flatMap.mp hname
      obtain ⟨s, _, _, s', hlowers, -, hreach, -⟩ := hbody.exists_of_mem LowersItem.reaches hitem
      exact hreach.scope_subset (hlowers.names_mem name hname)

end Phrase

end VhdlGates
