import VhdlGates.Proofs.Design.Hygiene
import VhdlGates.Proofs.Lowering.Drivers
import VhdlGates.Proofs.Lowering.IfStatements

/-! The statements that synthesis accepts. Which they are is said by rules on their form alone,
without a table of names: there is a rule for each place of a phrase, and it depends on the names
only through which of them are known. Of the values that a branch of an if statement assigns to one
name, only the last has to be an operand. -/
namespace VhdlGates

open NameTable (Reaches)

lemma Logic.eq_not_of_arity {operator : Logic} (h : operator.arity = 1) : operator = .not := by
  cases operator <;> first | rfl | cases h

namespace Phrase

section Rules

variable (known : String → Prop)

mutual

/-- A phrase that gives a value: a known name, a bit, or an operation or a choice between such
phrases. -/
inductive IsOperand : Phrase → Prop
  | identifier {name : String} (h : known name) : IsOperand (.identifier name)
  | bit (value : Bool) : IsOperand (.literal (.bit value))
  | parenthesized {inner : Phrase} (h : IsOperand inner) : IsOperand (.parenthesized inner)
  | binary {left right : Phrase} {operator : Logic} (terminated : Bool)
    (harity : operator.arity = 2) (hleft : IsOperand left) (hright : IsOperand right) :
    IsOperand (.binary left (.logic operator) right terminated)
  | negation {operand : Phrase} (terminated : Bool) (h : IsOperand operand) :
    IsOperand (.unary (.logic .not) operand terminated)
  | whenElse {branches : List (Branch Phrase)} {fallback : Phrase}
    (hvalues : ∀ b ∈ branches, IsOperand b.value)
    (hconditions : ∀ b ∈ branches, IsSelector b.condition) (hfallback : IsOperand fallback) :
    IsOperand (.whenElse branches fallback)

/-- A phrase that selects a value: an operand, or the comparison of a known name with a literal. -/
inductive IsSelector : Phrase → Prop
  | operand {p : Phrase} (h : IsOperand p) : IsSelector p
  | parenthesized {inner : Phrase} (h : IsSelector inner) : IsSelector (.parenthesized inner)
  | comparison {name : String} (value : Literal) (terminated : Bool) (h : known name) :
    IsSelector (.binary (.identifier name) (.relation .equal) (.literal value) terminated)

end

/-- A branch of an if statement. A value that a later assignment replaces may be any phrase. -/
structure IsBranchBody (body : List Phrase) : Prop where
  assigns : ∀ statement ∈ body, ∃ target value,
    statement.assignment? = some (target, value) ∧ known target
  isOperand : ∀ target value, lastValue? body target = some value → value.IsOperand known

/-- A statement inside a process. -/
inductive IsProcessItem : Phrase → Prop
  | assignment {target fallback : Phrase} {name : String} {branches : List (Branch Phrase)}
    (operator : Assignment) (terminated : Bool) (htarget : target.targetName? = some name)
    (hname : known name) (hvalue : (Phrase.whenElse branches fallback).IsOperand known) :
    IsProcessItem (.binary target (.assignment operator) (.whenElse branches fallback) terminated)
  | ifThen {condition : Phrase} {thenBody : List Phrase} (hcondition : condition.IsSelector known)
    (hthen : IsBranchBody known thenBody) : IsProcessItem (.ifThen condition thenBody)
  | ifElse {condition : Phrase} {thenBody elseBody : List Phrase}
    (hcondition : condition.IsSelector known) (hthen : IsBranchBody known thenBody)
    (helse : IsBranchBody known elseBody) : IsProcessItem (.ifElse condition thenBody elseBody)

/-- A statement of an architecture. -/
inductive IsSupported : Phrase → Prop
  | assignment {target value : Phrase} {name : String} (operator : Assignment) (terminated : Bool)
    (htarget : target.targetName? = some name) (hname : known name)
    (hvalue : value.IsOperand known) :
    IsSupported (.binary target (.assignment operator) value terminated)
  | binary {left right : Phrase} {operator : Operator} {terminated : Bool}
    (h : (Phrase.binary left operator right terminated).IsOperand known) :
    IsSupported (.binary left operator right terminated)
  | unary {operator : Operator} {operand : Phrase} {terminated : Bool}
    (h : (Phrase.unary operator operand terminated).IsOperand known) :
    IsSupported (.unary operator operand terminated)
  | process {sensitivity : List String} {body : List Phrase}
    (hnames : ∀ name ∈ sensitivity, known name) (hbody : ∀ item ∈ body, item.IsProcessItem known) :
    IsSupported (.process sensitivity body)

end Rules

variable {config : Config} {known : String → Prop}

lemma IsOperand.comparedSignal?_eq {p : Phrase} (h : p.IsOperand known) :
    p.comparedSignal? = none := by
  fun_induction comparedSignal? p with
  | case1 inner ih =>
    cases h with
    | parenthesized h => exact ih h
  | case2 => cases h
  | case3 => rfl

lemma IsSelector.of_comparedSignal? {condition : Phrase} {name : String}
    (h : condition.comparedSignal? = some name) (hname : known name) :
    condition.IsSelector known := by
  fun_induction comparedSignal? condition with
  | case1 inner ih => exact .parenthesized (ih h)
  | case2 =>
    cases h
    exact .comparison _ _ hname
  | case3 => cases h

mutual

/-- What has been lowered is an operand, if the names in it are known. -/
theorem Lowers.isOperand {p : Phrase} {t t' : NameTable} {c : Carrier} :
    Lowers config p t c t' → (∀ name ∈ p.identifiers, known name) → p.IsOperand known
  | .identifier _, hnames => .identifier (hnames _ List.mem_cons_self)
  | .bit value _, _ => .bit value
  | .parenthesized h, hnames => .parenthesized (h.isOperand hnames)
  | .binary terminated harity hleft hright, hnames => by
    obtain ⟨hnamesl, hnamesr⟩ := List.forall_mem_append.mp hnames
    exact .binary terminated harity (hleft.isOperand hnamesl) (hright.isOperand hnamesr)
  | .unary terminated harity h, hnames => by
    obtain rfl := Logic.eq_not_of_arity harity
    exact .negation terminated (h.isOperand hnames)
  | .whenElse hbranches hfallback, hnames => by
    obtain ⟨hnamesb, hnamesf⟩ := List.forall_mem_append.mp hnames
    have hb := hbranches.isOperand hnamesb
    exact .whenElse (fun b h => (hb b h).1) (fun b h => (hb b h).2) (hfallback.isOperand hnamesf)

theorem LowersOperand.isOperand {p : Phrase} {t t' : NameTable} {o : Operand} :
    LowersOperand config p t o t' → (∀ name ∈ p.identifiers, known name) → p.IsOperand known
  | .wire h, hnames => h.isOperand hnames
  | .gate h, hnames => h.isOperand hnames

theorem LowersSelector.isSelector {condition : Phrase} {t t' : NameTable} {o : Operand} :
    LowersSelector config condition t o t' → (∀ name ∈ condition.identifiers, known name) →
      condition.IsSelector known
  | .compared hcompared _, hnames => by
    rw [identifiers_of_comparedSignal? hcompared] at hnames
    exact .of_comparedSignal? hcompared (hnames _ List.mem_cons_self)
  | .operand _ h, hnames => .operand (h.isOperand hnames)

theorem LowersBranches.isOperand {branches : List (Branch Phrase)} {t t' : NameTable}
    {bs : List (Branch Operand)} : LowersBranches config branches t bs t' →
      (∀ name ∈ branchIdentifiers branches, known name) →
      ∀ b ∈ branches, b.value.IsOperand known ∧ b.condition.IsSelector known
  | .nil, _ => by simp
  | .cons hvalue hcondition hrest, hnames => by
    rw [branchIdentifiers] at hnames
    obtain ⟨hnames, hnamesr⟩ := List.forall_mem_append.mp hnames
    obtain ⟨hnamesv, hnamesc⟩ := List.forall_mem_append.mp hnames
    refine List.forall_mem_cons.mpr ⟨⟨?_, ?_⟩, hrest.isOperand hnamesr⟩
    · exact hvalue.isOperand hnamesv
    · exact hcondition.isSelector hnamesc

end

variable {t t' : NameTable} {elements : List Element}

lemma LowersAssignment.isOperand {target value : Phrase}
    (h : LowersAssignment config target value t elements t')
    (hnames : ∀ name ∈ target.identifiers ++ value.identifiers, known name) :
    (∃ name, target.targetName? = some name ∧ known name) ∧ value.IsOperand known := by
  obtain ⟨htarget, hvalue⟩ := h
  obtain ⟨hnamest, hnamesv⟩ := List.forall_mem_append.mp hnames
  rw [htarget.identifiers_mem.1] at hnamest
  exact ⟨⟨_, htarget.drives.1, hnamest _ List.mem_cons_self⟩, hvalue.isOperand hnamesv⟩

lemma LowersPath.isOperand {output : String} {path : Option Phrase} {o : Operand}
    (h : LowersPath config output path t o t')
    (hnames : ∀ name ∈ path.elim [] identifiers, known name) :
    ∀ value, path = some value → value.IsOperand known := by
  rintro value rfl
  cases h with
  | assigned hvalue => exact hvalue.isOperand hnames

/-- A branch obeys the rules if it has been collected, and if this is so for every name that it
assigns. -/
lemma isBranchBody_of_ofBody {body : List Phrase} {path : Assignments}
    (hbody : Assignments.ofBody body = .ok path)
    (h : ∀ target ∈ assignedNames body,
      known target ∧ ∀ value, lastValue? body target = some value → value.IsOperand known) :
    IsBranchBody known body where
  assigns statement hstatement := by
    obtain ⟨⟨target, value⟩, hassignment⟩ :=
      Assignments.exists_collect_iff.mp ⟨path, hbody⟩ statement hstatement
    have htarget := mem_assignedNames.mpr ⟨value, statement, hstatement, hassignment⟩
    exact ⟨target, value, hassignment, (h target htarget).1⟩
  isOperand target value hvalue := by
    obtain ⟨statement, hstatement, hassignment⟩ := exists_of_lastValue? hvalue
    have htarget := mem_assignedNames.mpr ⟨value, statement, hstatement, hassignment⟩
    exact (h target htarget).2 value hvalue

lemma mem_assignedNames_append {body others : List Phrase} {target : String} :
    target ∈ assignedNames (body ++ others) ↔
      target ∈ assignedNames body ∨ target ∈ assignedNames others := by
  simp only [assignedNames, mem_firstOccurrences, List.filterMap_append, List.map_append,
    List.mem_append]

lemma LowersIf.isBranchBody {condition : Phrase} {thenBody elseBody : List Phrase}
    {selector : String} {muxes : List Element}
    (h : LowersIf config condition thenBody elseBody t selector muxes elements t')
    (hnames : ∀ name ∈ condition.identifiers ++ bodyNames thenBody elseBody, known name) :
    condition.IsSelector known ∧ IsBranchBody known thenBody ∧ IsBranchBody known elseBody := by
  obtain ⟨hthen, helse, hselector, htargets⟩ := h
  obtain ⟨hnamesc, hnamesb⟩ := List.forall_mem_append.mp hnames
  -- Every assigned name has a turn of its own, and with it its last value in either branch.
  have hpaths : ∀ target ∈ assignedNames (thenBody ++ elseBody), known target ∧
      (∀ value, lastValue? thenBody target = some value → value.IsOperand known) ∧
      ∀ value, lastValue? elseBody target = some value → value.IsOperand known := by
    intro target htarget
    have hnames := fun name hname => hnamesb name (List.mem_flatMap.mpr ⟨target, htarget, hname⟩)
    obtain ⟨hknown, hnames⟩ := List.forall_mem_cons.mp hnames
    obtain ⟨hnamest, hnamese⟩ := List.forall_mem_append.mp hnames
    rw [← Assignments.targets_append_filter hthen helse] at htarget
    obtain ⟨_, _, _, _, ⟨-, ha, hb⟩, -⟩ := htargets.exists_of_mem LowersTarget.reaches htarget
    rw [Assignments.lookup_ofBody hthen] at ha
    rw [Assignments.lookup_ofBody helse] at hb
    exact ⟨hknown, ha.isOperand hnamest, hb.isOperand hnamese⟩
  refine ⟨hselector.isSelector hnamesc, isBranchBody_of_ofBody hthen fun target htarget => ?_,
    isBranchBody_of_ofBody helse fun target htarget => ?_⟩
  · obtain ⟨hknown, hvalues, -⟩ := hpaths target (mem_assignedNames_append.mpr (.inl htarget))
    exact ⟨hknown, hvalues⟩
  · obtain ⟨hknown, -, hvalues⟩ := hpaths target (mem_assignedNames_append.mpr (.inr htarget))
    exact ⟨hknown, hvalues⟩

lemma LowersItem.isProcessItem {item : Phrase} {choices : List Choice}
    (h : LowersItem config item t choices elements t')
    (hnames : ∀ name ∈ item.itemNames, known name) : item.IsProcessItem known := by
  cases h with
  | ifThen hif =>
    obtain ⟨hcondition, hthen, -⟩ := hif.isBranchBody hnames
    exact .ifThen hcondition hthen
  | ifElse hif =>
    obtain ⟨hcondition, hthen, helse⟩ := hif.isBranchBody hnames
    exact .ifElse hcondition hthen helse
  | assignment operator terminated hassignment =>
    obtain ⟨⟨name, htarget, hname⟩, hvalue⟩ := hassignment.isOperand hnames
    exact .assignment operator terminated htarget hname hvalue

/-- A statement that has been lowered is supported, if the names that it uses are known. -/
theorem LowersStatement.isSupported {statement : Phrase} {choices : List Choice}
    (h : LowersStatement config statement t choices elements t')
    (hnames : ∀ name ∈ statement.usedNames, known name) : statement.IsSupported known := by
  cases h with
  | assignment operator terminated hassignment =>
    obtain ⟨⟨name, htarget, hname⟩, hvalue⟩ := hassignment.isOperand hnames
    exact .assignment operator terminated htarget hname hvalue
  | binary hoperand => exact .binary (hoperand.isOperand hnames)
  | unary hoperand => exact .unary (hoperand.isOperand hnames)
  | process _ hbody =>
    obtain ⟨hnamess, hnamesb⟩ := List.forall_mem_append.mp hnames
    refine .process hnamess fun item hitem => ?_
    obtain ⟨_, _, _, _, hlowers, -⟩ := hbody.exists_of_mem LowersItem.reaches hitem
    exact hlowers.isProcessItem fun name hname =>
      hnamesb name (List.mem_flatMap.mpr ⟨item, hitem, hname⟩)

section Scope

variable {s s' : NameTable}

lemma LowersOperand.parenthesized {inner : Phrase} {o : Operand}
    (h : LowersOperand config inner s o s') :
    LowersOperand config (.parenthesized inner) s o s' := by
  cases h with
  | wire h => exact .wire (.parenthesized h)
  | gate h => exact .gate (.parenthesized h)

lemma LowersSelector.parenthesized {inner : Phrase} {o : Operand}
    (h : LowersSelector config inner s o s') :
    LowersSelector config (.parenthesized inner) s o s' := by
  cases h with
  | compared hname h => exact .compared hname h
  | operand hnone h => exact .operand hnone h.parenthesized

lemma exists_lowersOperand_of {p : Phrase} (h : ∃ c s', Lowers config p s c s') :
    ∃ o s', LowersOperand config p s o s' := by
  obtain ⟨c, s', hc⟩ := h
  cases c with
  | wire signal => exact ⟨_, s', .wire hc⟩
  | gate feeds root => exact ⟨_, _, .gate hc⟩

mutual

/-- An operand over the names of a table is lowered from there on. -/
theorem IsOperand.exists_lowers {p : Phrase} {s : NameTable} :
    p.IsOperand (· ∈ t.scope config) → Reaches config t s → ∃ c s', Lowers config p s c s'
  | .identifier h, hreach => by
    obtain ⟨s', hresolves, -⟩ := NameTable.exists_resolves (hreach.scope_subset h)
    exact ⟨_, s', .identifier hresolves⟩
  | .bit value, _ => ⟨_, _, .bit value s⟩
  | .parenthesized h, hreach => by
    obtain ⟨c, s', hc⟩ := h.exists_lowers hreach
    exact ⟨c, s', .parenthesized hc⟩
  | .binary terminated harity hleft hright, hreach => by
    obtain ⟨l, s₁, hl⟩ := exists_lowersOperand_of (hleft.exists_lowers hreach)
    obtain ⟨r, s', hr⟩ := exists_lowersOperand_of (hright.exists_lowers (hreach.trans hl.reaches))
    exact ⟨_, s', .binary terminated harity hl hr⟩
  | .negation terminated h, hreach => by
    obtain ⟨o, s', ho⟩ := exists_lowersOperand_of (h.exists_lowers hreach)
    exact ⟨_, s', .unary terminated rfl ho⟩
  | .whenElse hvalues hconditions hfallback, hreach => by
    obtain ⟨bs, s₁, hbs⟩ := LowersBranches.exists_of_forall fun b hb u hu =>
      ⟨exists_lowersOperand_of ((hvalues b hb).exists_lowers (hreach.trans hu)),
        (hconditions b hb).exists_lowersSelector (hreach.trans hu)⟩
    obtain ⟨o, s', ho⟩ :=
      exists_lowersOperand_of (hfallback.exists_lowers (hreach.trans hbs.reaches))
    exact ⟨_, s', .whenElse hbs ho⟩

theorem IsSelector.exists_lowersSelector {condition : Phrase} {s : NameTable} :
    condition.IsSelector (· ∈ t.scope config) → Reaches config t s →
      ∃ o s', LowersSelector config condition s o s'
  | .operand h, hreach => by
    obtain ⟨o, s', ho⟩ := exists_lowersOperand_of (h.exists_lowers hreach)
    exact ⟨o, s', .operand h.comparedSignal?_eq ho⟩
  | .parenthesized h, hreach => by
    obtain ⟨o, s', ho⟩ := h.exists_lowersSelector hreach
    exact ⟨o, s', ho.parenthesized⟩
  | .comparison value terminated h, hreach => by
    obtain ⟨s', hresolves, -⟩ := NameTable.exists_resolves (hreach.scope_subset h)
    exact ⟨_, s', .compared rfl hresolves⟩

end

lemma exists_lowersAssignment_of {target value : Phrase} {name : String}
    (htarget : target.targetName? = some name) (hname : name ∈ t.scope config)
    (hvalue : value.IsOperand (· ∈ t.scope config)) (hreach : Reaches config t s) :
    ∃ elements s', LowersAssignment config target value s elements s' := by
  obtain ⟨s₁, hrun, -⟩ := run_assignmentTarget htarget (hreach.scope_subset hname)
  have hoperand := (run_assignmentTarget_iff target).mp hrun
  obtain ⟨c, s', hc⟩ := hvalue.exists_lowers (hreach.trans hoperand.reaches)
  exact ⟨_, s', hoperand, hc⟩

namespace IsBranchBody

variable {body thenBody elseBody : List Phrase}

lemma nil : IsBranchBody known [] where
  assigns := by simp
  isOperand target value h := by cases h

lemma exists_ofBody (h : IsBranchBody known body) :
    ∃ path, Assignments.ofBody body = .ok path := by
  refine Assignments.exists_collect_iff.mpr fun statement hstatement => ?_
  obtain ⟨target, value, hassignment, -⟩ := h.assigns statement hstatement
  exact ⟨_, hassignment⟩

lemma known_of_mem (h : IsBranchBody known body) {target : String}
    (htarget : target ∈ assignedNames body) : known target := by
  obtain ⟨value, statement, hstatement, hassignment⟩ := mem_assignedNames.mp htarget
  obtain ⟨_, _, hassignment', hknown⟩ := h.assigns statement hstatement
  rw [hassignment'] at hassignment
  cases hassignment
  exact hknown

lemma exists_lowersOperand (h : IsBranchBody (· ∈ t.scope config) body) {path : Assignments}
    (hpath : Assignments.ofBody body = .ok path) {target : String} {value : Phrase}
    (hvalue : value ∈ path.lookup target) (hreach : Reaches config t s) :
    ∃ o s', LowersOperand config value s o s' := by
  rw [Assignments.lookup_ofBody hpath] at hvalue
  exact exists_lowersOperand_of ((h.isOperand target value hvalue).exists_lowers hreach)

lemma exists_lowersIf {condition : Phrase} (hthen : IsBranchBody (· ∈ t.scope config) thenBody)
    (helse : IsBranchBody (· ∈ t.scope config) elseBody)
    (hcondition : condition.IsSelector (· ∈ t.scope config)) (hreach : Reaches config t s) :
    ∃ selector muxes elements s',
      LowersIf config condition thenBody elseBody s selector muxes elements s' := by
  obtain ⟨thenPath, hthenPath⟩ := hthen.exists_ofBody
  obtain ⟨elsePath, helsePath⟩ := helse.exists_ofBody
  obtain ⟨o, s₁, hselector⟩ := hcondition.exists_lowersSelector hreach
  have hreach := hreach.trans hselector.reaches
  have htargets : ∀ target ∈ assignedNames (thenBody ++ elseBody), ∀ u, Reaches config s₁ u →
      ∃ muxes block s',
        LowersTarget config o.signal thenPath elsePath target u muxes block s' := by
    intro target htarget u hu
    have hknown := (mem_assignedNames_append.mp htarget).elim hthen.known_of_mem helse.known_of_mem
    have hu := hreach.trans hu
    refine exists_lowersTarget o.signal (hu.scope_subset hknown) (fun v hv s' hs' => ?_)
      fun v hv s' hs' => ?_
    · exact hthen.exists_lowersOperand hthenPath hv (hu.trans hs')
    · exact helse.exists_lowersOperand helsePath hv (hu.trans hs')
  rw [← Assignments.targets_append_filter hthenPath helsePath] at htargets
  obtain ⟨muxes, elements, s', hmuxes⟩ := LowersEach.exists_of_forall LowersTarget.reaches htargets
  exact ⟨_, muxes, _, s', hthenPath, helsePath, hselector, hmuxes⟩

end IsBranchBody

lemma IsProcessItem.exists_lowersItem {item : Phrase}
    (h : item.IsProcessItem (· ∈ t.scope config)) (hreach : Reaches config t s) :
    ∃ choices elements s', LowersItem config item s choices elements s' := by
  cases h with
  | assignment operator terminated htarget hname hvalue =>
    obtain ⟨elements, s', h⟩ := exists_lowersAssignment_of htarget hname hvalue hreach
    exact ⟨[], elements, s', .assignment operator terminated h⟩
  | ifThen hcondition hthen =>
    obtain ⟨_, _, elements, s', h⟩ := hthen.exists_lowersIf .nil hcondition hreach
    exact ⟨_, elements, s', .ifThen h⟩
  | ifElse hcondition hthen helse =>
    obtain ⟨_, _, elements, s', h⟩ := hthen.exists_lowersIf helse hcondition hreach
    exact ⟨_, elements, s', .ifElse h⟩

/-- A supported statement over the names of a table is lowered from there on. -/
theorem IsSupported.exists_lowersStatement {statement : Phrase}
    (h : statement.IsSupported (· ∈ t.scope config)) (hreach : Reaches config t s) :
    ∃ choices elements s', LowersStatement config statement s choices elements s' := by
  cases h with
  | assignment operator terminated htarget hname hvalue =>
    obtain ⟨elements, s', h⟩ := exists_lowersAssignment_of htarget hname hvalue hreach
    exact ⟨[], elements, s', .assignment operator terminated h⟩
  | binary hoperand =>
    obtain ⟨o, s', h⟩ := exists_lowersOperand_of (hoperand.exists_lowers hreach)
    exact ⟨[], _, s', .binary h⟩
  | unary hoperand =>
    obtain ⟨o, s', h⟩ := exists_lowersOperand_of (hoperand.exists_lowers hreach)
    exact ⟨[], _, s', .unary h⟩
  | process hnames hbody =>
    obtain ⟨s₁, hresolves, -⟩ := NameTable.exists_resolvesAll fun name hname =>
      hreach.scope_subset (hnames name hname)
    have hreach := hreach.trans hresolves.mem_scope.1
    obtain ⟨choices, elements, s', h⟩ := LowersEach.exists_of_forall LowersItem.reaches
      fun item hitem u hu => (hbody item hitem).exists_lowersItem (hreach.trans hu)
    exact ⟨choices, elements, s', .process hresolves h⟩

end Scope

end Phrase

namespace Design

variable {config : Config} {design : Design} {elements : List Element} {t : NameTable}

/-- A design that has been lowered consists of supported statements, if it does not borrow the names
of temporaries. -/
lemma isSupported_of_run_lower (h : (design.lower config).run {} = .ok elements t)
    (hnames : ∀ statement ∈ design.architecture.body, ∀ name ∈ statement.usedNames,
      ∀ index, name = config.temporaryName index → design.Knows config name) :
    ∀ statement ∈ design.architecture.body, statement.IsSupported (design.Knows config) := by
  intro statement hstatement
  have hknown : ∀ name ∈ statement.usedNames, design.Knows config name := by
    intro name hname
    rcases names_of_run_lower h hstatement hname with hknows | ⟨-, index, hindex⟩
    · exact hknows
    · exact hnames statement hstatement name hname index hindex
  obtain ⟨choices, s, -, hbody⟩ := (run_lower_iff config).mp h
  obtain ⟨_, _, _, _, hlowers, -⟩ :=
    hbody.exists_of_mem Phrase.LowersStatement.reaches hstatement
  exact hlowers.isSupported hknown

/-- A design with valid declarations and supported statements is lowered. -/
lemma exists_run_lower (hdecl : design.ValidDeclarations config)
    (h : ∀ statement ∈ design.architecture.body, statement.IsSupported (design.Knows config)) :
    ∃ elements t, (design.lower config).run {} = .ok elements t := by
  obtain ⟨s, hdeclare, hdeclares⟩ := run_declare config hdecl
  have hscope : design.Knows config = (· ∈ s.scope config) := by
    rw [scope_of_declares hdeclares]
    rfl
  rw [hscope] at h
  obtain ⟨choices, elements, t, hbody⟩ := LowersEach.exists_of_forall
    Phrase.LowersStatement.reaches fun statement hstatement u hu =>
      (h statement hstatement).exists_lowersStatement hu
  exact ⟨elements, t, (run_lower_iff config).mpr ⟨choices, s, hdeclare, hbody⟩⟩

/-- If its declarations are valid, a design fails only by the refusal of a statement. -/
lemma refuses_of_run_lower (hdecl : design.ValidDeclarations config) {fault : Fault}
    (h : (design.lower config).run {} = .error fault t) : fault.refuses := by
  obtain ⟨s, hdeclare, -⟩ := run_declare config hdecl
  rw [run_lower_of_declare config hdeclare] at h
  have hrefuses := Lowering.failsWith_hereditary config fun _ h => h
  exact hrefuses.lowerEach hrefuses.lowerStatement _ s fault t h

end Design

/-- Synthesis accepts exactly the supported statements. A design with valid declarations, which uses
the name of a temporary only if it is a known one, has a specification if and only if all its
statements obey the rules; otherwise one of them is refused. -/
theorem synthesize_accepts_iff {config : Config} {phrases : List Phrase} {design : Design}
    (hdesign : Design.ofPhrases phrases = .ok design) (hdecl : design.ValidDeclarations config)
    (hnames : ∀ statement ∈ design.architecture.body, ∀ name ∈ statement.usedNames,
      ∀ index, name = config.temporaryName index → design.Knows config name) :
    ((∃ spec, (synthesize config phrases).result = .ok spec) ↔
      ∀ statement ∈ design.architecture.body, statement.IsSupported (design.Knows config)) ∧
    ∀ fault, (synthesize config phrases).result = .error fault →
      fault.refuses ∧ fault.stage = .lowering := by
  cases hrun : (design.lower config).run {} with
  | ok elements t =>
    have hresult := Design.result_of_run_ok hdesign hrun
    refine ⟨iff_of_true ⟨_, hresult⟩ (Design.isSupported_of_run_lower hrun hnames), ?_⟩
    intro fault hfault
    rw [hresult] at hfault
    cases hfault
  | error other t =>
    have hresult := Design.result_of_run_error hdesign hrun
    refine ⟨iff_of_false ?_ fun hsupported => ?_, fun fault hfault => ?_⟩
    · rintro ⟨spec, hspec⟩
      rw [hresult] at hspec
      cases hspec
    · obtain ⟨elements, t', hrun'⟩ := Design.exists_run_lower hdecl hsupported
      rw [hrun] at hrun'
      cases hrun'
    · rw [hresult] at hfault
      cases hfault
      have hrefuses := Design.refuses_of_run_lower hdecl hrun
      exact ⟨hrefuses, Fault.stage_of_refuses hrefuses⟩

/-- `Y <= value;`. -/
def assigningY (value : Phrase) : Phrase :=
  .binary (.identifier "Y") (.assignment .toSignal) value true

/-- A process with `if S = '0' then Y <= first; Y <= last; end if;`. -/
def assigningTwice (first last : Phrase) : Phrase :=
  .process ["S"] [.ifThen isZero [assigningY first, assigningY last]]

lemma isSupported_assigningTwice {known : String → Prop} (hS : known "S") (hY : known "Y")
    {first last : Phrase} :
    (assigningTwice first last).IsSupported known ↔ last.IsOperand known := by
  have hlast : ∀ target, Phrase.lastValue? [assigningY first, assigningY last] target =
      if target = "Y" then some last else none := by
    intro target
    change List.lookup target [("Y", last), ("Y", first)] = _
    rw [Assignments.lookup_cons, Assignments.lookup_cons, List.lookup_nil]
    split_ifs <;> rfl
  constructor
  · intro h
    cases h with
    | process _ hbody =>
      cases hbody _ List.mem_cons_self with
      | ifThen _ hthen => exact hthen.isOperand "Y" last (hlast "Y")
  · intro h
    refine .process (List.forall_mem_singleton.mpr hS) (List.forall_mem_singleton.mpr ?_)
    refine .ifThen (.comparison _ _ hS) ⟨?_, fun target value hvalue => ?_⟩
    · exact List.forall_mem_cons.mpr ⟨⟨_, _, rfl, hY⟩,
        List.forall_mem_singleton.mpr ⟨_, _, rfl, hY⟩⟩
    · rw [hlast] at hvalue
      split_ifs at hvalue
      exact Option.some.inj hvalue ▸ h

/-- A comparison is no value, but it may be assigned where the next statement replaces it. -/
theorem synthesize_accepts_iff_replaced :
    (∃ spec, (synthesize {} (selecting (assigningTwice isZero (.identifier "A"))).phrases).result =
      .ok spec) ∧
    ¬∃ spec, (synthesize {} (selecting (assigningTwice (.identifier "A") isZero)).phrases).result =
      .ok spec := by
  have hdeclared : ∀ statement, (selecting statement).declaredNames = ["S", "A", "B", "Y"] :=
    fun _ => rfl
  have hknows : ∀ statement, ∀ name ∈ ["S", "A", "Y"], (selecting statement).Knows {} name := by
    intro statement name hname
    left
    rw [hdeclared]
    revert name
    decide
  have haccepts : ∀ first last, (assigningTwice first last).usedNames ⊆ ["S", "A", "Y"] →
      ((∃ spec, (synthesize {} (selecting (assigningTwice first last)).phrases).result = .ok spec) ↔
        last.IsOperand ((selecting (assigningTwice first last)).Knows {})) := by
    intro first last hsubset
    have hdecl : (selecting (assigningTwice first last)).ValidDeclarations {} := by
      constructor <;> rw [hdeclared] <;> decide
    rw [(synthesize_accepts_iff rfl hdecl ?_).1]
    · refine List.forall_mem_singleton.trans (isSupported_assigningTwice ?_ ?_)
      · exact hknows _ "S" (by decide)
      · exact hknows _ "Y" (by decide)
    · intro statement hstatement name hname _ _
      rw [List.mem_singleton.mp hstatement] at hname
      exact hknows _ name (hsubset hname)
  rw [haccepts _ _ (by decide), haccepts _ _ (by decide)]
  refine ⟨.identifier (hknows _ "A" (by decide)), fun h => ?_⟩
  cases h

end VhdlGates
