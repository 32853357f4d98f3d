import VhdlGates.Proofs.Lowering.Derivations.Statement
import VhdlGates.Proofs.Lowering.Equations

/-! The form of the elements that lowering emits, whatever the phrases and the settings. An element
drives one signal, its kind fits its operation, and its operation fits the number of its inputs. -/
namespace VhdlGates

/-- The number of inputs of an operation that computes a bit from bits. -/
def Operation.gateArity? : Operation → Option ℕ
  | and | or | nand | nor | xor | xnor => some 2
  | not => some 1
  | mux | none => Option.none

@[simp] lemma Logic.gateArity?_operation (operator : Logic) :
    operator.operation.gateArity? = some operator.arity := by
  cases operator <;> rfl

/-- An element of the form that lowering gives to its elements. -/
structure Element.WellFormed (e : Element) : Prop where
  one_output : ∃ output, e.outputs = [output]
  combinational_iff : e.kind = .combinational ↔ ∃ arity, e.operation.gateArity? = some arity
  gate_inputs : ∀ arity, e.operation.gateArity? = some arity → e.inputs.length = arity
  pass : e.operation = .none → e.kind = .connection ∧ e.inputs.length = 1
  /-- Only a multiplexer keeps a value, and it does so by reading its own output. -/
  sequential : e.kind = .sequential → e.operation = .mux ∧ ∃ first selector last,
    e.inputs = [first, selector, last] ∧ (e.outputs = [first] ∨ e.outputs = [last])

/-- A gate that keeps no value, and whose kind and inputs fit its operation. -/
structure Gate.WellFormed (g : Gate) : Prop where
  not_sequential : g.kind ≠ .sequential
  combinational_iff : g.kind = .combinational ↔ ∃ arity, g.operation.gateArity? = some arity
  gate_inputs : ∀ arity, g.operation.gateArity? = some arity → g.inputs.length = arity
  pass : g.operation = .none → g.kind = .connection ∧ g.inputs.length = 1

namespace Gate

lemma WellFormed.drive {g : Gate} (h : g.WellFormed) (output : String) :
    (g.drive output).WellFormed where
  one_output := ⟨output, rfl⟩
  combinational_iff := h.combinational_iff
  gate_inputs := h.gate_inputs
  pass := h.pass
  sequential hkind := absurd hkind h.not_sequential

lemma wellFormed_logic {operator : Logic} {inputs : List String}
    (h : inputs.length = operator.arity) :
    (⟨.combinational, operator.operation, inputs⟩ : Gate).WellFormed where
  not_sequential := by simp
  combinational_iff := by simp
  gate_inputs arity harity := by
    rw [Logic.gateArity?_operation, Option.some.injEq] at harity
    exact h.trans harity
  pass hnone := by cases operator <;> cases hnone

lemma wellFormed_mux (inputs : List String) :
    (⟨.connection, .mux, inputs⟩ : Gate).WellFormed where
  not_sequential := by simp
  combinational_iff := by simp [Operation.gateArity?]
  gate_inputs arity harity := by cases harity
  pass hnone := by cases hnone

lemma wellFormed_pass (input : String) : (Gate.pass input).WellFormed where
  not_sequential := by simp [pass]
  combinational_iff := by simp [pass, Operation.gateArity?]
  gate_inputs arity harity := by cases harity
  pass _ := ⟨rfl, rfl⟩

end Gate

namespace Phrase

variable {config : Config}

mutual

/-- What carries the value of a phrase is of the right form throughout. -/
theorem Lowers.wellFormed {p : Phrase} {t t' : NameTable} {c : Carrier} :
    Lowers config p t c t' → (∀ e ∈ c.feeds, e.WellFormed) ∧ c.root.WellFormed
  | .identifier _ => ⟨by simp [Carrier.feeds], Gate.wellFormed_pass _⟩
  | .bit _ _ => ⟨by simp [Carrier.feeds], Gate.wellFormed_pass _⟩
  | .parenthesized h => h.wellFormed
  | .binary _ harity hleft hright =>
    ⟨List.forall_mem_append.mpr ⟨hleft.wellFormed, hright.wellFormed⟩,
      Gate.wellFormed_logic harity.symm⟩
  | .unary _ harity h => ⟨h.wellFormed, Gate.wellFormed_logic harity.symm⟩
  | .whenElse hbranches hfallback =>
    ⟨List.forall_mem_append.mpr ⟨hbranches.wellFormed, hfallback.wellFormed⟩,
      Gate.wellFormed_mux _⟩

theorem LowersOperand.wellFormed {p : Phrase} {t t' : NameTable} {o : Operand} :
    LowersOperand config p t o t' → ∀ e ∈ o.feeds, e.WellFormed
  | .wire _ => by simp
  | .gate h =>
    List.forall_mem_append.mpr ⟨h.wellFormed.1, List.forall_mem_singleton.mpr (h.wellFormed.2.drive _)⟩

theorem LowersSelector.wellFormed {p : Phrase} {t t' : NameTable} {o : Operand} :
    LowersSelector config p t o t' → ∀ e ∈ o.feeds, e.WellFormed
  | .compared _ _ => by simp
  | .operand _ h => h.wellFormed

theorem LowersBranches.wellFormed {branches : List (Branch Phrase)} {t t' : NameTable}
    {bs : List (Branch Operand)} : LowersBranches config branches t bs t' →
    ∀ e ∈ bs.flatMap (fun b => b.value.feeds ++ b.condition.feeds), e.WellFormed
  | .nil => by simp
  | .cons hvalue hcondition hrest => by
    rw [List.flatMap_cons]
    refine List.forall_mem_append.mpr ⟨?_, hrest.wellFormed⟩
    exact List.forall_mem_append.mpr ⟨hvalue.wellFormed, hcondition.wellFormed⟩

end

lemma LowersAssignment.wellFormed {target value : Phrase} {t t' : NameTable}
    {elements : List Element} (h : LowersAssignment config target value t elements t') :
    ∀ e ∈ elements, e.WellFormed := by
  obtain ⟨-, hvalue⟩ := h
  rw [Carrier.drive_eq]
  obtain ⟨hfeeds, hroot⟩ := hvalue.wellFormed
  exact List.forall_mem_append.mpr ⟨hfeeds, List.forall_mem_singleton.mpr (hroot.drive _)⟩

lemma LowersPath.wellFormed {output : String} {value : Option Phrase} {t t' : NameTable}
    {o : Operand} (h : LowersPath config output value t o t') : ∀ e ∈ o.feeds, e.WellFormed := by
  cases h with
  | assigned hvalue => exact hvalue.wellFormed
  | kept => simp

lemma LowersPath.signal_eq {output : String} {value : Option Phrase} {t t' : NameTable}
    {o : Operand} (h : LowersPath config output value t o t') (hnone : value.isNone) :
    o.signal = output := by
  cases h with
  | assigned => cases hnone
  | kept => rfl

/-- The multiplexer of a target keeps a value only if one of the paths gives back the target. -/
lemma targetMux_wellFormed {selector target a b : String} {thenPath elsePath : Assignments}
    (ha : (thenPath.lookup target).isNone → a = target)
    (hb : (elsePath.lookup target).isNone → b = target) :
    (targetMux selector thenPath elsePath target a b).WellFormed where
  one_output := ⟨target, rfl⟩
  combinational_iff := by
    simp only [targetMux, Gate.drive, Operation.gateArity?]
    split_ifs <;> simp
  gate_inputs arity harity := by cases harity
  pass hnone := by cases hnone
  sequential hkind := by
    refine ⟨rfl, a, selector, b, rfl, ?_⟩
    simp only [targetMux, Gate.drive] at hkind ⊢
    split_ifs at hkind with hholds
    rcases Bool.or_eq_true_iff.mp hholds with hthen | helse
    · exact .inl (by rw [ha hthen])
    · exact .inr (by rw [hb helse])

lemma LowersTarget.wellFormed {selector target : String} {thenPath elsePath : Assignments}
    {t t' : NameTable} {muxes elements : List Element}
    (h : LowersTarget config selector thenPath elsePath target t muxes elements t') :
    ∀ e ∈ elements, e.WellFormed := by
  obtain ⟨-, hthen, helse⟩ := h
  refine List.forall_mem_append.mpr ⟨?_, List.forall_mem_singleton.mpr ?_⟩
  · exact List.forall_mem_append.mpr ⟨hthen.wellFormed, helse.wellFormed⟩
  · exact targetMux_wellFormed hthen.signal_eq helse.signal_eq

variable {t t' : NameTable} {elements : List Element}

lemma LowersIf.wellFormed {condition : Phrase} {thenBody elseBody : List Phrase} {selector : String}
    {muxes : List Element}
    (h : LowersIf config condition thenBody elseBody t selector muxes elements t') :
    ∀ e ∈ elements, e.WellFormed := by
  obtain ⟨-, -, hselector, htargets⟩ := h
  exact List.forall_mem_append.mpr
    ⟨hselector.wellFormed, htargets.forall_elements LowersTarget.wellFormed⟩

lemma LowersItem.wellFormed {item : Phrase} {choices : List Choice}
    (h : LowersItem config item t choices elements t') : ∀ e ∈ elements, e.WellFormed := by
  cases h with
  | ifThen hif => exact hif.wellFormed
  | ifElse hif => exact hif.wellFormed
  | assignment _ _ hassignment => exact hassignment.wellFormed

theorem LowersStatement.wellFormed {statement : Phrase} {choices : List Choice}
    (h : LowersStatement config statement t choices elements t') :
    ∀ e ∈ elements, e.WellFormed := by
  cases h with
  | assignment _ _ hassignment => exact hassignment.wellFormed
  | binary hoperand => exact hoperand.wellFormed
  | unary hoperand => exact hoperand.wellFormed
  | process _ hbody => exact hbody.forall_elements LowersItem.wellFormed

end Phrase

end VhdlGates
