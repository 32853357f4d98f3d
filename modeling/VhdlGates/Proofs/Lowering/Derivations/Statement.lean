import VhdlGates.Proofs.Lowering.Derivations

/-! The relations for statements. A derivation for an architecture also lists what its if
statements come to: the signal that each of them selects by, and its multiplexers. -/
namespace VhdlGates

open NameTable (Reaches Resolves ResolvesAll)

/-- Items are lowered one after the other. Besides its elements, each leaves a trace. -/
inductive LowersEach {α β : Type} (R : α → NameTable → List β → List Element → NameTable → Prop) :
    List α → NameTable → List β → List Element → NameTable → Prop
  | nil {t : NameTable} : LowersEach R [] t [] [] t
  | cons {a : α} {rest : List α} {t s t' : NameTable} {trace traces : List β}
    {elements others : List Element} (h : R a t trace elements s)
    (hrest : LowersEach R rest s traces others t') :
    LowersEach R (a :: rest) t (trace ++ traces) (elements ++ others) t'

lemma run_lowerEach_iff {α β : Type} {f : α → Lowering (List Element)}
    {R : α → NameTable → List β → List Element → NameTable → Prop}
    (h : ∀ a t elements t', (f a).run t = .ok elements t' ↔ ∃ trace, R a t trace elements t')
    {items : List α} {t t' : NameTable} {elements : List Element} :
    (lowerEach f items).run t = .ok elements t' ↔
      ∃ traces, LowersEach R items t traces elements t' := by
  induction items generalizing t t' elements with
  | nil =>
    rw [lowerEach, Lowering.run_pure_eq_ok]
    constructor
    · rintro ⟨rfl, rfl⟩
      exact ⟨[], .nil⟩
    · rintro ⟨traces, hnil⟩
      cases hnil with
      | nil => exact ⟨rfl, rfl⟩
  | cons a rest ih =>
    rw [lowerEach]
    simp only [Lowering.run_bind_eq_ok, Lowering.run_pure_eq_ok, h, ih]
    constructor
    · rintro ⟨first, s, ⟨trace, ha⟩, others, s', ⟨traces, hrest⟩, rfl, rfl⟩
      exact ⟨trace ++ traces, .cons ha hrest⟩
    · rintro ⟨traces, hcons⟩
      cases hcons with
      | cons ha hrest => exact ⟨_, _, ⟨_, ha⟩, _, _, ⟨_, hrest⟩, rfl, rfl⟩

/-- What an if statement comes to: the signal that it selects by, and one multiplexer for each of
its targets. -/
structure Choice where
  statement : Phrase
  selector : String
  muxes : List Element

namespace Phrase

section Statements

variable (config : Config)

/-- The signal that an assignment to a phrase drives is found. -/
inductive LowersTo : Phrase → NameTable → String → NameTable → Prop
  | identifier {name : String} {t t' : NameTable} (h : Resolves config t name t') :
    LowersTo (.identifier name) t name t'
  | parenthesized {inner : Phrase} {name : String} {t t' : NameTable}
    (h : LowersTo inner t name t') : LowersTo (.parenthesized inner) t name t'

inductive LowersAssignment (target value : Phrase) : NameTable → List Element → NameTable → Prop
  | mk {t s t' : NameTable} {output : String} {c : Carrier}
    (htarget : LowersTo config target t output s) (hvalue : Lowers config value s c t') :
    LowersAssignment target value t (c.drive output) t'

/-- A path gives `output` a value: an assigned one, or the one that it has. -/
inductive LowersPath (output : String) : Option Phrase → NameTable → Operand → NameTable → Prop
  | assigned {value : Phrase} {t t' : NameTable} {o : Operand}
    (h : LowersOperand config value t o t') : LowersPath output (some value) t o t'
  | kept {t : NameTable} : LowersPath output none t ⟨[], output⟩ t

/-- The multiplexer of a target, between the values of the two paths. -/
def targetMux (selector : String) (thenPath elsePath : Assignments) (target : String)
    (thenValue elseValue : String) : Element :=
  let holds := (thenPath.lookup target).isNone || (elsePath.lookup target).isNone
  (⟨if holds then .sequential else .connection, .mux, [thenValue, selector, elseValue]⟩ : Gate).drive
    target

/-- A target of an if statement leaves its multiplexer as its trace. -/
inductive LowersTarget (selector : String) (thenPath elsePath : Assignments) :
    String → NameTable → List Element → List Element → NameTable → Prop
  | mk {target : String} {t s s' t' : NameTable} {a b : Operand}
    (htarget : Resolves config t target s)
    (hthen : LowersPath config target (thenPath.lookup target) s a s')
    (helse : LowersPath config target (elsePath.lookup target) s' b t') :
    LowersTarget selector thenPath elsePath target t
      [targetMux selector thenPath elsePath target a.signal b.signal]
      (a.feeds ++ b.feeds ++ [targetMux selector thenPath elsePath target a.signal b.signal]) t'

inductive LowersIf (condition : Phrase) (thenBody elseBody : List Phrase) :
    NameTable → String → List Element → List Element → NameTable → Prop
  | mk {t s t' : NameTable} {thenPath elsePath : Assignments} {selector : Operand}
    {muxes elements : List Element} (hthen : Assignments.ofBody thenBody = .ok thenPath)
    (helse : Assignments.ofBody elseBody = .ok elsePath)
    (hselector : LowersSelector config condition t selector s)
    (htargets : LowersEach (LowersTarget config selector.signal thenPath elsePath)
      (thenPath.targets ++ elsePath.targets.filter (!thenPath.targets.contains ·)) s muxes
      elements t') :
    LowersIf condition thenBody elseBody t selector.signal muxes (selector.feeds ++ elements) t'

/-- A statement inside a process leaves the choice that it makes as its trace. -/
inductive LowersItem : Phrase → NameTable → List Choice → List Element → NameTable → Prop
  | ifThen {condition : Phrase} {thenBody : List Phrase} {t t' : NameTable} {selector : String}
    {muxes elements : List Element}
    (h : LowersIf config condition thenBody [] t selector muxes elements t') :
    LowersItem (.ifThen condition thenBody) t [⟨.ifThen condition thenBody, selector, muxes⟩]
      elements t'
  | ifElse {condition : Phrase} {thenBody elseBody : List Phrase} {t t' : NameTable}
    {selector : String} {muxes elements : List Element}
    (h : LowersIf config condition thenBody elseBody t selector muxes elements t') :
    LowersItem (.ifElse condition thenBody elseBody) t
      [⟨.ifElse condition thenBody elseBody, selector, muxes⟩] elements t'
  | assignment {target fallback : Phrase} {branches : List (Branch Phrase)} (operator : Assignment)
    (terminated : Bool) {t t' : NameTable} {elements : List Element}
    (h : LowersAssignment config target (.whenElse branches fallback) t elements t') :
    LowersItem (.binary target (.assignment operator) (.whenElse branches fallback) terminated) t
      [] elements t'

/-- A statement of an architecture leaves the choices that its if statements make. -/
inductive LowersStatement : Phrase → NameTable → List Choice → List Element → NameTable → Prop
  | assignment {target value : Phrase} (operator : Assignment) (terminated : Bool)
    {t t' : NameTable} {elements : List Element}
    (h : LowersAssignment config target value t elements t') :
    LowersStatement (.binary target (.assignment operator) value terminated) t [] elements t'
  | binary {left right : Phrase} {operator : Operator} {terminated : Bool} {t t' : NameTable}
    {o : Operand} (h : LowersOperand config (.binary left operator right terminated) t o t') :
    LowersStatement (.binary left operator right terminated) t [] o.feeds t'
  | unary {operator : Operator} {operand : Phrase} {terminated : Bool} {t t' : NameTable}
    {o : Operand} (h : LowersOperand config (.unary operator operand terminated) t o t') :
    LowersStatement (.unary operator operand terminated) t [] o.feeds t'
  | process {sensitivity : List String} {body : List Phrase} {t s t' : NameTable}
    {choices : List Choice} {elements : List Element} (hnames : ResolvesAll config sensitivity t s)
    (hbody : LowersEach (LowersItem config) body s choices elements t') :
    LowersStatement (.process sensitivity body) t choices elements t'

end Statements

variable {config : Config} {t t' : NameTable} {elements : List Element}

lemma run_assignmentTarget_iff : ∀ (target : Phrase) {name : String},
    (target.assignmentTarget config).run t = .ok name t' ↔ LowersTo config target t name t'
  | .identifier name, output => by
    rw [assignmentTarget, NameTable.run_resolve_iff]
    constructor
    · rintro ⟨rfl, hresolve⟩
      exact .identifier hresolve
    · intro h
      cases h with
      | identifier hresolve => exact ⟨rfl, hresolve⟩
  | .parenthesized inner, output => by
    rw [assignmentTarget, run_assignmentTarget_iff inner]
    constructor
    · exact .parenthesized
    · intro h
      cases h with
      | parenthesized hinner => exact hinner
  | .literal _, output | .binary .., output | .unary .., output | .whenElse .., output
  | .ifThen .., output | .ifElse .., output | .process .., output | .signal _, output
  | .entity _, output | .architecture .., output | .libraryClause _, output
  | .useClause .., output => by
    refine ⟨fun h => absurd h Lowering.run_throw_ne_ok, fun h => ?_⟩
    cases h

lemma run_lowerAssignment_iff {target value : Phrase} :
    (target.lowerAssignment config value).run t = .ok elements t' ↔
      LowersAssignment config target value t elements t' := by
  unfold lowerAssignment
  simp only [Lowering.run_bind_eq_ok, Lowering.run_pure_eq_ok, run_assignmentTarget_iff,
    run_lower_iff]
  constructor
  · rintro ⟨output, s, htarget, c, s', hvalue, rfl, rfl⟩
    exact ⟨htarget, hvalue⟩
  · rintro ⟨htarget, hvalue⟩
    exact ⟨_, _, htarget, _, _, hvalue, rfl, rfl⟩

lemma run_lowerPath_iff {output : String} {value : Option Phrase} {o : Operand} :
    (lowerPath config output value).run t = .ok o t' ↔ LowersPath config output value t o t' := by
  cases value with
  | some value =>
    rw [lowerPath, run_lowerOperand_iff]
    constructor
    · exact .assigned
    · intro h
      cases h with
      | assigned hvalue => exact hvalue
  | none =>
    rw [lowerPath, Lowering.run_pure_eq_ok]
    constructor
    · rintro ⟨rfl, rfl⟩
      exact .kept
    · intro h
      cases h with
      | kept => exact ⟨rfl, rfl⟩

lemma run_lowerTarget_iff {selector : String} {thenPath elsePath : Assignments} {target : String} :
    (lowerTarget config selector thenPath elsePath target).run t = .ok elements t' ↔
      ∃ muxes, LowersTarget config selector thenPath elsePath target t muxes elements t' := by
  unfold lowerTarget
  simp only [Lowering.run_bind_eq_ok, Lowering.run_pure_eq_ok, NameTable.run_resolve_iff,
    run_lowerPath_iff]
  constructor
  · rintro ⟨output, s, ⟨rfl, htarget⟩, a, s', hthen, b, s'', helse, rfl, rfl⟩
    exact ⟨_, ⟨htarget, hthen, helse⟩⟩
  · rintro ⟨muxes, htarget, hthen, helse⟩
    exact ⟨_, _, ⟨rfl, htarget⟩, _, _, hthen, _, _, helse, rfl, rfl⟩

lemma run_ofExcept_iff {α : Type} {x : Except Fault α} {a : α} :
    (MonadExcept.ofExcept x : Lowering α).run t = .ok a t' ↔ x = .ok a ∧ t = t' := by
  cases x with
  | error fault =>
    refine ⟨fun h => absurd h Lowering.run_throw_ne_ok, ?_⟩
    rintro ⟨h, -⟩
    cases h
  | ok b =>
    rw [Except.ok.injEq]
    exact Lowering.run_pure_eq_ok

lemma run_lowerIf_iff {condition : Phrase} {thenBody elseBody : List Phrase} :
    (lowerIf config condition thenBody elseBody).run t = .ok elements t' ↔
      ∃ selector muxes,
        LowersIf config condition thenBody elseBody t selector muxes elements t' := by
  unfold lowerIf
  simp only [Lowering.run_bind_eq_ok, Lowering.run_pure_eq_ok, run_ofExcept_iff,
    run_lowerSelector_iff, run_lowerEach_iff fun _ _ _ _ => run_lowerTarget_iff]
  constructor
  · rintro ⟨thenPath, s₁, ⟨hthen, rfl⟩, elsePath, s₂, ⟨helse, rfl⟩, selector, s₃, hselector,
      others, s₄, ⟨muxes, htargets⟩, rfl, rfl⟩
    exact ⟨_, muxes, ⟨hthen, helse, hselector, htargets⟩⟩
  · rintro ⟨selector, muxes, hthen, helse, hselector, htargets⟩
    exact ⟨_, _, ⟨hthen, rfl⟩, _, _, ⟨helse, rfl⟩, _, _, hselector, _, _, ⟨_, htargets⟩, rfl, rfl⟩

lemma run_lowerItem_iff (item : Phrase) :
    (lowerItem config item).run t = .ok elements t' ↔
      ∃ choices, LowersItem config item t choices elements t' := by
  unfold lowerItem
  split
  · rw [run_lowerIf_iff]
    constructor
    · rintro ⟨selector, muxes, h⟩
      exact ⟨_, .ifThen h⟩
    · rintro ⟨choices, h⟩
      cases h with
      | ifThen hif => exact ⟨_, _, hif⟩
  · rw [run_lowerIf_iff]
    constructor
    · rintro ⟨selector, muxes, h⟩
      exact ⟨_, .ifElse h⟩
    · rintro ⟨choices, h⟩
      cases h with
      | ifElse hif => exact ⟨_, _, hif⟩
  · rw [run_lowerAssignment_iff]
    constructor
    · intro h
      exact ⟨[], .assignment _ _ h⟩
    · rintro ⟨choices, h⟩
      cases h with
      | assignment _ _ hassignment => exact hassignment
  · rename_i hthen helse hassignment
    refine ⟨fun h => absurd h Lowering.run_throw_ne_ok, ?_⟩
    rintro ⟨choices, h⟩
    cases h with
    | ifThen => exact absurd rfl (hthen _ _)
    | ifElse => exact absurd rfl (helse _ _ _)
    | assignment => exact absurd rfl (hassignment _ _ _ _ _)

/-- An operation that is assigned to nothing leaves the elements that feed its signal. -/
lemma run_lowerOperand_feeds_iff {p : Phrase} :
    (do return (← p.lowerOperand config).feeds : Lowering _).run t = .ok elements t' ↔
      ∃ o, LowersOperand config p t o t' ∧ elements = o.feeds := by
  simp only [Lowering.run_bind_eq_ok, Lowering.run_pure_eq_ok, run_lowerOperand_iff]
  constructor
  · rintro ⟨o, s, h, rfl, rfl⟩
    exact ⟨o, h, rfl⟩
  · rintro ⟨o, h, rfl⟩
    exact ⟨o, _, h, rfl, rfl⟩

theorem run_lowerStatement_iff (statement : Phrase) :
    (lowerStatement config statement).run t = .ok elements t' ↔
      ∃ choices, LowersStatement config statement t choices elements t' := by
  unfold lowerStatement
  split
  · rw [run_lowerAssignment_iff]
    constructor
    · intro h
      exact ⟨[], .assignment _ _ h⟩
    · rintro ⟨choices, h⟩
      cases h with
      | assignment _ _ hassignment => exact hassignment
      | binary hoperand => cases hoperand <;> rename_i hlowers <;> cases hlowers
  · rename_i hassignment
    rw [run_lowerOperand_feeds_iff]
    constructor
    · rintro ⟨o, h, rfl⟩
      exact ⟨[], .binary h⟩
    · rintro ⟨choices, h⟩
      cases h with
      | assignment => exact absurd rfl (hassignment _)
      | binary hoperand => exact ⟨_, hoperand, rfl⟩
  · rw [run_lowerOperand_feeds_iff]
    constructor
    · rintro ⟨o, h, rfl⟩
      exact ⟨[], .unary h⟩
    · rintro ⟨choices, h⟩
      cases h with
      | unary hoperand => exact ⟨_, hoperand, rfl⟩
  · simp only [Lowering.run_bind_eq_ok, NameTable.run_sensitivity_iff,
      run_lowerEach_iff fun item _ _ _ => run_lowerItem_iff item]
    constructor
    · rintro ⟨-, s, hnames, choices, hbody⟩
      exact ⟨choices, .process hnames hbody⟩
    · rintro ⟨choices, h⟩
      cases h with
      | process hnames hbody => exact ⟨(), _, hnames, _, hbody⟩
  · refine ⟨fun h => absurd h Lowering.run_throw_ne_ok, ?_⟩
    rintro ⟨choices, h⟩
    cases h
  · refine ⟨fun h => absurd h Lowering.run_throw_ne_ok, ?_⟩
    rintro ⟨choices, h⟩
    cases h
  · rename_i hassignment hbinary hunary hprocess hthen helse
    refine ⟨fun h => absurd h Lowering.run_throw_ne_ok, ?_⟩
    rintro ⟨choices, h⟩
    cases h with
    | assignment => exact absurd rfl (hassignment _ _ _ _)
    | binary => exact absurd rfl (hbinary _ _ _ _)
    | unary => exact absurd rfl (hunary _ _ _)
    | process => exact absurd rfl (hprocess _ _)

lemma LowersTo.reaches {target : Phrase} {output : String}
    (h : LowersTo config target t output t') : Reaches config t t' := by
  induction h with
  | identifier h => exact h.reaches
  | parenthesized _ ih => exact ih

lemma LowersPath.reaches {output : String} {value : Option Phrase} {o : Operand}
    (h : LowersPath config output value t o t') : Reaches config t t' := by
  cases h with
  | assigned hvalue => exact hvalue.reaches
  | kept => exact .refl t

lemma LowersTarget.reaches {selector target : String} {thenPath elsePath : Assignments}
    {muxes : List Element}
    (h : LowersTarget config selector thenPath elsePath target t muxes elements t') :
    Reaches config t t' := by
  obtain ⟨htarget, hthen, helse⟩ := h
  exact (htarget.reaches.trans hthen.reaches).trans helse.reaches

lemma LowersItem.reaches {item : Phrase} {choices : List Choice}
    (h : LowersItem config item t choices elements t') : Reaches config t t' :=
  (lowerItem_closed config [] item t elements t' ((run_lowerItem_iff item).mpr ⟨choices, h⟩)).1

lemma LowersStatement.reaches {statement : Phrase} {choices : List Choice}
    (h : LowersStatement config statement t choices elements t') : Reaches config t t' :=
  (lowerStatement_closed config [] statement t elements t'
    ((run_lowerStatement_iff statement).mpr ⟨choices, h⟩)).1

end Phrase

section Each

variable {α β : Type} {R : α → NameTable → List β → List Element → NameTable → Prop}
  {config : Config} {items : List α} {t t' : NameTable} {traces : List β} {elements : List Element}

lemma LowersEach.reaches
    (hR : ∀ {a t trace elements t'}, R a t trace elements t' → Reaches config t t')
    (h : LowersEach R items t traces elements t') : Reaches config t t' := by
  induction h with
  | nil => exact .refl _
  | cons ha _ ih => exact (hR ha).trans ih

/-- Items that can be lowered one by one, whenever it is their turn, can be lowered in a row. -/
lemma LowersEach.exists_of_forall
    (hR : ∀ {a t trace elements t'}, R a t trace elements t' → Reaches config t t')
    (h : ∀ a ∈ items, ∀ s, Reaches config t s → ∃ trace block s', R a s trace block s') :
    ∃ traces elements t', LowersEach R items t traces elements t' := by
  induction items generalizing t with
  | nil => exact ⟨[], [], t, .nil⟩
  | cons a rest ih =>
    obtain ⟨ha, hrest⟩ := List.forall_mem_cons.mp h
    obtain ⟨_, _, s, hfirst⟩ := ha t (.refl t)
    obtain ⟨_, _, t', hothers⟩ := ih fun b hb s' hreach => hrest b hb s' ((hR hfirst).trans hreach)
    exact ⟨_, _, t', .cons hfirst hothers⟩

/-- Each item is lowered at some point between the two tables, and its elements are among all. -/
lemma LowersEach.exists_of_mem
    (hR : ∀ {a t trace elements t'}, R a t trace elements t' → Reaches config t t')
    (h : LowersEach R items t traces elements t') {a : α} (ha : a ∈ items) :
    ∃ s trace block s', R a s trace block s' ∧ Reaches config t s ∧ Reaches config s' t' ∧
      block ⊆ elements := by
  induction h with
  | nil => cases ha
  | cons hfirst hrest ih =>
    rcases List.mem_cons.mp ha with rfl | ha
    · exact ⟨_, _, _, _, hfirst, .refl _, hrest.reaches hR, List.subset_append_left _ _⟩
    · obtain ⟨s, trace, block, s', hlowers, hbefore, hafter, hblock⟩ := ih ha
      exact ⟨s, trace, block, s', hlowers, (hR hfirst).trans hbefore, hafter,
        List.subset_append_of_subset_right _ hblock⟩

/-- What holds of the elements of every item holds of all elements. -/
lemma LowersEach.forall_elements {P : Element → Prop}
    (hR : ∀ {a t trace elements t'}, R a t trace elements t' → ∀ e ∈ elements, P e)
    (h : LowersEach R items t traces elements t') : ∀ e ∈ elements, P e := by
  induction h with
  | nil => simp
  | cons ha _ ih => exact List.forall_mem_append.mpr ⟨hR ha, ih⟩

/-- What the trace of an item says of it, the traces of all items say in the same order. -/
lemma LowersEach.map_traces {γ : Type} (f : β → γ) (g : α → List γ)
    (hR : ∀ {a t trace elements t'}, R a t trace elements t' → trace.map f = g a)
    (h : LowersEach R items t traces elements t') : traces.map f = items.flatMap g := by
  induction h with
  | nil => rfl
  | cons ha _ ih => rw [List.map_append, hR ha, ih, List.flatMap_cons]

lemma LowersEach.forall_traces {P : β → Prop}
    (hR : ∀ {a t trace elements t'}, R a t trace elements t' → ∀ b ∈ trace, P b)
    (h : LowersEach R items t traces elements t') : ∀ b ∈ traces, P b := by
  induction h with
  | nil => simp
  | cons ha _ ih => exact List.forall_mem_append.mpr ⟨hR ha, ih⟩

end Each

namespace Design

variable (config : Config)

/-- The statements of a design are lowered after its declarations, with these choices. -/
def Lowers (design : Design) (choices : List Choice) (elements : List Element) (t : NameTable) :
    Prop :=
  ∃ s, (do
      declarePorts config design.entity.ports
      declareSignals config design.architecture.signals : Lowering Unit).run {} = .ok () s ∧
    LowersEach (Phrase.LowersStatement config) design.architecture.body s choices elements t

theorem run_lower_iff {design : Design} {elements : List Element} {t : NameTable} :
    (design.lower config).run {} = .ok elements t ↔
      ∃ choices, design.Lowers config choices elements t := by
  unfold lower Lowers
  rw [← bind_assoc, Lowering.run_bind_eq_ok]
  simp only [run_lowerEach_iff fun statement _ _ _ => Phrase.run_lowerStatement_iff statement]
  constructor
  · rintro ⟨⟨⟩, s, hdeclare, choices, hbody⟩
    exact ⟨choices, s, hdeclare, hbody⟩
  · rintro ⟨choices, s, hdeclare, hbody⟩
    exact ⟨(), s, hdeclare, choices, hbody⟩

end Design

end VhdlGates
