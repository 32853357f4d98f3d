import VhdlGates.Proofs.Circuit.Realization
import VhdlGates.Proofs.Design.Declarations
import VhdlGates.Proofs.Lowering.Closure
import VhdlGates.Proofs.Specification.Validity

/-! The circuit of a body of Boolean assignments has the same solutions as the equations that the
assignments state. Temporaries are determined by the declared signals. -/
namespace VhdlGates

open Element (AllHold)

/-- No rail has a name that a temporary could get. -/
def Config.RailsApart (config : Config) : Prop :=
  ∀ value index, config.railName value ≠ config.temporaryName index

namespace NameTable

variable (config : Config)

/-- The signals that a phrase may refer to: the names of the table, and the rails. -/
def scope (t : NameTable) : Set String :=
  { name | name ∈ t.names ∨ ∃ value, name = config.railName value }

lemma rail_mem_scope (t : NameTable) (value : Bool) : config.railName value ∈ t.scope config :=
  Or.inr ⟨value, rfl⟩

@[simp] lemma scope_afterRail (t : NameTable) (value : Bool) :
    (t.afterRail config value).scope config = t.scope config := by
  simp [scope]

@[simp] lemma scope_afterTemporary (t : NameTable) :
    (t.afterTemporary config).scope config = insert (t.freshName config) (t.scope config) := by
  ext name
  simp only [scope, names_afterTemporary, List.mem_append, List.mem_singleton, Set.mem_ofPred_eq,
    Set.mem_insert_iff]
  tauto

lemma freshName_notMem_scope (h : config.RailsApart) (t : NameTable) :
    t.freshName config ∉ t.scope config := by
  rintro (hmem | ⟨value, hrail⟩)
  · exact freshName_notMem config t hmem
  · exact h value _ hrail.symm

/-- Every name of the scope resolves to itself, and the scope stays. -/
lemma run_resolve_of_mem_scope {t : NameTable} {name : String} (h : name ∈ t.scope config) :
    ∃ t', (resolve config name).run t = .ok name t' ∧ t'.scope config = t.scope config := by
  cases hrail : config.rail? name with
  | some value =>
    refine ⟨t.afterRail config value, ?_, scope_afterRail config t value⟩
    exact (run_resolve_eq_ok config).mpr ⟨rfl, .inl ⟨value, hrail, rfl⟩⟩
  | none =>
    have hmem : name ∈ t.names := by
      rcases h with hmem | ⟨value, hvalue⟩
      · exact hmem
      · exact absurd hvalue (Config.rail?_eq_none.mp hrail value)
    exact ⟨t, (run_resolve_eq_ok config).mpr ⟨rfl, .inr ⟨hrail, hmem, rfl⟩⟩, rfl⟩

end NameTable

namespace Carrier

/-- The elements that have to stand before those that read the value. -/
def feeds : Carrier → List Element
  | wire _ => []
  | gate feeds _ => feeds

/-- The gate that yields the value; that of a signal passes it on. -/
def root : Carrier → Gate
  | wire signal => Gate.pass signal
  | gate _ root => root

lemma drive_eq (c : Carrier) (output : String) : c.drive output = c.feeds ++ [c.root.drive output] := by
  cases c <;> rfl

/-- The value under a valuation of all signals. -/
def value? (w : Valuation) (c : Carrier) : Option Bool :=
  c.root.operation.value? (c.root.inputs.map w)

/-- Lowering a phrase between these two tables has given a carrier of its value. -/
structure Carries (config : Config) (t t' : NameTable) (p : Phrase) (c : Carrier) : Prop where
  realizes : Realizes config (t.scope config) (t'.scope config) c.feeds fun _ => True
  inputs_mem : ∀ name ∈ c.root.inputs, name ∈ t'.scope config
  value_total : ∀ w, ∃ b, c.value? w = some b
  value_eq : ∀ w, config.RailsHold w → AllHold w c.feeds → c.value? w = p.value? w

lemma carries_wire {config : Config} {t t' : NameTable} {p : Phrase} {signal : String}
    (hscope : t'.scope config = t.scope config) (hmem : signal ∈ t.scope config)
    (hvalue : ∀ w, config.RailsHold w → some (w signal) = p.value? w) :
    (wire signal).Carries config t t' p where
  realizes := by
    rw [hscope]
    exact Realizes.nil (NameTable.rail_mem_scope config t)
  inputs_mem name hname := by
    obtain rfl := List.mem_singleton.mp hname
    rw [hscope]
    exact hmem
  value_total w := ⟨w signal, rfl⟩
  value_eq w hrails _ := hvalue w hrails

end Carrier

namespace Operand

/-- Lowering a phrase between these two tables has given a signal with its value. -/
structure Carries (config : Config) (t t' : NameTable) (p : Phrase) (o : Operand) : Prop where
  realizes : Realizes config (t.scope config) (t'.scope config) o.feeds fun _ => True
  signal_mem : o.signal ∈ t'.scope config
  value_eq : ∀ w, config.RailsHold w → AllHold w o.feeds → some (w o.signal) = p.value? w

end Operand

/-- The value of a gate is put on a new temporary, on which the phrase then has its value. -/
lemma Carrier.Carries.run_toOperand {config : Config} (hapart : config.RailsApart)
    {t t' : NameTable} {p : Phrase} {c : Carrier} (h : c.Carries config t t' p) :
    ∃ o t'', (c.toOperand config).run t' = .ok o t'' ∧ o.Carries config t t'' p := by
  cases c with
  | wire signal =>
    refine ⟨⟨[], signal⟩, t', rfl, h.realizes, ?_, h.value_eq⟩
    exact h.inputs_mem signal List.mem_cons_self
  | gate feeds root =>
    have hdef := Realizes.definition (NameTable.rail_mem_scope config t')
      (NameTable.freshName_notMem_scope config hapart t') h.inputs_mem h.value_total
    rw [← NameTable.scope_afterTemporary] at hdef
    refine ⟨⟨feeds ++ [root.drive (t'.freshName config)], t'.freshName config⟩,
      t'.afterTemporary config, rfl, h.realizes.append_true hdef, ?_, ?_⟩
    · simp
    · intro w hrails hhold
      obtain ⟨hfeeds, hroot⟩ := Element.allHold_append.mp hhold
      rw [← h.value_eq w hrails hfeeds]
      exact (Element.allHold_drive.mp hroot).symm

namespace Operand.Carries

variable {config : Config} {t s t' : NameTable} {left right operand : Phrase} {l r o : Operand}

/-- The gate of an operator between two operands, of which the right one is lowered last. -/
lemma binary (hl : l.Carries config t s left) (hr : r.Carries config s t' right)
    {operator : Logic} (harity : operator.arity = 2) (terminated : Bool) :
    (Carrier.gate (l.feeds ++ r.feeds)
      ⟨.combinational, operator.operation, [l.signal, r.signal]⟩).Carries config t t'
      (.binary left (.logic operator) right terminated) where
  realizes := hl.realizes.append_true hr.realizes
  inputs_mem name hname := by
    simp only [Carrier.root, List.mem_cons, List.not_mem_nil, or_false] at hname
    rcases hname with rfl | rfl
    · exact hr.realizes.subset hl.signal_mem
    · exact hr.signal_mem
  value_total w := by
    obtain ⟨b, hb⟩ := Logic.exists_apply? harity (w l.signal) (w r.signal)
    exact ⟨b, (Logic.value?_operation harity _ _).trans hb⟩
  value_eq w hrails hhold := by
    obtain ⟨hfeedsl, hfeedsr⟩ := Element.allHold_append.mp hhold
    simp only [Phrase.value?, ← hl.value_eq w hrails hfeedsl, ← hr.value_eq w hrails hfeedsr]
    exact Logic.value?_operation harity _ _

lemma negation (ho : o.Carries config t t' operand) (terminated : Bool) :
    (Carrier.gate o.feeds ⟨.combinational, .not, [o.signal]⟩).Carries config t t'
      (.unary (.logic .not) operand terminated) where
  realizes := ho.realizes
  inputs_mem name hname := by
    obtain rfl := List.mem_singleton.mp hname
    exact ho.signal_mem
  value_total w := ⟨!(w o.signal), rfl⟩
  value_eq w hrails hhold := by
    rw [Phrase.value?, ← ho.value_eq w hrails hhold]
    rfl

end Operand.Carries

namespace Phrase

variable {config : Config} {known : String → Prop} {p : Phrase}

/-- The lowering of a phrase is correct from every table whose scope has the known names. -/
def LowersWell (config : Config) (known : String → Prop) (p : Phrase) : Prop :=
  ∀ role t, (∀ name, known name → name ∈ t.scope config) →
    ∃ c t', (p.lower config role).run t = .ok c t' ∧ c.Carries config t t' p

lemma LowersWell.run_lowerOperand (hapart : config.RailsApart) (h : p.LowersWell config known)
    {t : NameTable} (ht : ∀ name, known name → name ∈ t.scope config) :
    ∃ o t', (p.lowerOperand config).run t = .ok o t' ∧ o.Carries config t t' p := by
  obtain ⟨c, s, hrun, hc⟩ := h .operand t ht
  obtain ⟨o, t', hrun', ho⟩ := hc.run_toOperand hapart
  exact ⟨o, t', Lowering.run_bind_eq_ok.mpr ⟨c, s, hrun, hrun'⟩, ho⟩

/-- Every Boolean expression over the known names is lowered to a carrier of its value. -/
theorem IsLogic.lowersWell (hapart : config.RailsApart) (hp : p.IsLogic known) :
    p.LowersWell config known := by
  induction hp with
  | @identifier name hname =>
    intro role t ht
    obtain ⟨t', hrun, hscope⟩ := NameTable.run_resolve_of_mem_scope config (ht name hname)
    refine ⟨.wire name, t', ?_, ?_⟩
    · rw [lower]
      exact Lowering.run_bind_eq_ok.mpr ⟨name, t', hrun, rfl⟩
    · exact Carrier.carries_wire hscope (ht name hname) fun w _ => rfl
  | bit value =>
    intro role t ht
    refine ⟨.wire (config.railName value), t.afterRail config value, ?_, ?_⟩
    · rw [lower]
      exact Lowering.run_bind_eq_ok.mpr ⟨_, _, NameTable.run_rail config value t, rfl⟩
    · refine Carrier.carries_wire (NameTable.scope_afterRail config t value)
        (NameTable.rail_mem_scope config t value) fun w hrails => ?_
      rw [hrails value]
      rfl
  | @parenthesized inner _ ih =>
    intro role t ht
    obtain ⟨c, t', hrun, hc⟩ := ih role t ht
    refine ⟨c, t', ?_, hc.realizes, hc.inputs_mem, hc.value_total, hc.value_eq⟩
    rw [lower]
    exact hrun
  | @binary left right operator terminated harity _ _ ihleft ihright =>
    intro role t ht
    obtain ⟨l, s, hrunl, hl⟩ := ihleft.run_lowerOperand hapart ht
    obtain ⟨r, t', hrunr, hr⟩ := ihright.run_lowerOperand hapart
      fun name hname => hl.realizes.subset (ht name hname)
    refine ⟨_, t', ?_, hl.binary hr harity terminated⟩
    rw [lower_binary, if_pos harity]
    refine Lowering.run_bind_eq_ok.mpr ⟨l, s, hrunl, ?_⟩
    exact Lowering.run_bind_eq_ok.mpr ⟨r, t', hrunr, rfl⟩
  | @negation operand terminated _ ih =>
    intro role t ht
    obtain ⟨o, t', hrun, ho⟩ := ih.run_lowerOperand hapart ht
    refine ⟨_, t', ?_, ho.negation terminated⟩
    have harity : Logic.not.arity = 1 := rfl
    rw [lower_unary, if_pos harity]
    exact Lowering.run_bind_eq_ok.mpr ⟨o, t', hrun, rfl⟩

lemma run_assignmentTarget {target : Phrase} {name : String} {t : NameTable}
    (htarget : target.targetName? = some name) (hname : name ∈ t.scope config) :
    ∃ t', (target.assignmentTarget config).run t = .ok name t' ∧
      t'.scope config = t.scope config := by
  fun_induction targetName? target with
  | case1 =>
    obtain rfl := Option.some.inj htarget
    exact NameTable.run_resolve_of_mem_scope config hname
  | case2 inner ih => exact ih htarget
  | case3 => cases htarget

/-- The equation of a statement is one on the known names. -/
lemma IsLogicStatement.equation_congr {targets : List String}
    (htargets : ∀ name ∈ targets, known name) {s : Phrase} (hs : s.IsLogicStatement targets known)
    {v w : Valuation} (hvw : ∀ name, known name → v name = w name) (h : s.Equation v) :
    s.Equation w := by
  cases hs with
  | assignment operator terminated htarget hname hvalue =>
    obtain ⟨name, htarget', heq⟩ := h
    obtain rfl := Option.some.inj (htarget.symm.trans htarget')
    refine ⟨_, htarget, ?_⟩
    rw [← hvalue.value?_congr hvw, ← hvw _ (htargets _ hname)]
    exact heq
  | binary hlogic =>
    cases hlogic with
    | binary => exact trivial
  | unary => exact trivial

/-- A statement is lowered to elements that realize its equation. -/
def StatementLowersWell (config : Config) (known : String → Prop) (s : Phrase) : Prop :=
  ∀ t, (∀ name, known name → name ∈ t.scope config) →
    ∃ elements t', (s.lowerStatement config).run t = .ok elements t' ∧
      Realizes config (t.scope config) (t'.scope config) elements s.Equation

lemma assignment_lowersWell (hapart : config.RailsApart) {target value : Phrase} {name : String}
    (operator : Assignment) (terminated : Bool) (htarget : target.targetName? = some name)
    (hname : known name) (hvalue : value.IsLogic known) :
    (Phrase.binary target (.assignment operator) value terminated).StatementLowersWell config
      known := by
  intro t ht
  have hstatement : IsLogicStatement [name] known
      (.binary target (.assignment operator) value terminated) :=
    .assignment operator terminated htarget List.mem_cons_self hvalue
  obtain ⟨s, hrunt, hscope⟩ := run_assignmentTarget htarget (ht name hname)
  obtain ⟨c, t', hrunv, hc⟩ := hvalue.lowersWell hapart .value s (hscope.symm ▸ ht)
  have hfeeds := hc.realizes
  rw [hscope] at hfeeds
  have hroot := Realizes.constraint (NameTable.rail_mem_scope config t') hc.inputs_mem
    (hfeeds.subset (ht name hname))
  have hlocal : ∀ v w, Set.EqOn v w (t.scope config) →
      (Phrase.binary target (.assignment operator) value terminated).Equation v →
      (Phrase.binary target (.assignment operator) value terminated).Equation w := by
    intro v w heq
    exact hstatement.equation_congr (List.forall_mem_singleton.mpr hname)
      fun name hname => heq (ht name hname)
  have hiff : ∀ w, config.RailsHold w → AllHold w c.feeds →
      (c.value? w = some (w name) ↔
        (Phrase.binary target (.assignment operator) value terminated).Equation w) := by
    intro w hrails hhold
    rw [hc.value_eq w hrails hhold]
    simp [Equation, htarget]
  refine ⟨c.drive name, t', ?_, ?_⟩
  · refine Lowering.run_bind_eq_ok.mpr ⟨name, s, hrunt, ?_⟩
    exact Lowering.run_bind_eq_ok.mpr ⟨c, t', hrunv, rfl⟩
  · rw [Carrier.drive_eq]
    simpa using hfeeds.append hroot hlocal hiff

/-- An operation that is assigned to nothing states no equation, and only adds signals. -/
lemma IsLogic.run_lowerOperand (hapart : config.RailsApart) (hp : p.IsLogic known) {t : NameTable}
    (ht : ∀ name, known name → name ∈ t.scope config) :
    ∃ elements t', (do return (← p.lowerOperand config).feeds : Lowering _).run t =
        .ok elements t' ∧
      Realizes config (t.scope config) (t'.scope config) elements fun _ => True := by
  obtain ⟨o, t', hrun, ho⟩ := (hp.lowersWell hapart).run_lowerOperand hapart ht
  exact ⟨o.feeds, t', Lowering.run_bind_eq_ok.mpr ⟨o, t', hrun, rfl⟩, ho.realizes⟩

theorem IsLogicStatement.lowersWell (hapart : config.RailsApart) {targets : List String}
    (htargets : ∀ name ∈ targets, known name) {s : Phrase} (hs : s.IsLogicStatement targets known) :
    s.StatementLowersWell config known := by
  cases hs with
  | assignment operator terminated htarget hname hvalue =>
    exact assignment_lowersWell hapart operator terminated htarget (htargets _ hname) hvalue
  | binary h =>
    intro t ht
    obtain ⟨elements, t', hrun, hrealizes⟩ := h.run_lowerOperand hapart ht
    cases h with
    | binary => exact ⟨elements, t', hrun, hrealizes⟩
  | unary h =>
    intro t ht
    obtain ⟨elements, t', hrun, hrealizes⟩ := h.run_lowerOperand hapart ht
    exact ⟨elements, t', hrun, hrealizes⟩

/-- The elements of a body realize all of its equations. -/
theorem run_lowerEach_lowerStatement (hapart : config.RailsApart) {targets : List String}
    (htargets : ∀ name ∈ targets, known name) (body : List Phrase)
    (hbody : ∀ s ∈ body, s.IsLogicStatement targets known) (t : NameTable)
    (ht : ∀ name, known name → name ∈ t.scope config) :
    ∃ elements t', (lowerEach (lowerStatement config) body).run t = .ok elements t' ∧
      Realizes config (t.scope config) (t'.scope config) elements
        fun w => ∀ s ∈ body, s.Equation w := by
  induction body generalizing t with
  | nil =>
    refine ⟨[], t, rfl, ?_⟩
    simpa using Realizes.nil (NameTable.rail_mem_scope config t)
  | cons statement rest ih =>
    obtain ⟨hfirst, hrest⟩ := List.forall_mem_cons.mp hbody
    obtain ⟨elements, s, hrun, hrealizes⟩ := hfirst.lowersWell hapart htargets t ht
    obtain ⟨others, t', hrun', hrealizes'⟩ := ih hrest s
      fun name hname => hrealizes.subset (ht name hname)
    have hlocal : ∀ v w, Set.EqOn v w (t.scope config) → (∀ s ∈ rest, s.Equation v) →
        ∀ s ∈ rest, s.Equation w := by
      intro v w heq hv s hs
      exact (hrest s hs).equation_congr htargets (fun name hname => heq (ht name hname)) (hv s hs)
    refine ⟨elements ++ others, t', ?_, ?_⟩
    · refine Lowering.run_bind_eq_ok.mpr ⟨elements, s, hrun, ?_⟩
      exact Lowering.run_bind_eq_ok.mpr ⟨others, t', hrun', rfl⟩
    · simpa using hrealizes.append hrealizes' hlocal fun _ _ _ => Iff.rfl

end Phrase

namespace Specification

lemma flaw?_eq_none {s : Specification}
    (hnames : Element.mentions s.elements ⊆ s.declaredNames)
    (hdrives : ∀ e ∈ s.elements, e.outputs ≠ []) : s.flaw? = none := by
  refine flaw?_eq_none_iff.mpr fun e he => ⟨fun name hname => ?_, hdrives e he⟩
  exact isSome_findSignal?.mpr (hnames (List.mem_flatMap.mpr ⟨e, he, hname⟩))

end Specification

namespace Design

variable {config : Config} {design : Design}

/-- The names that the statements of a design may use: those that it declares, and the rails. -/
def Knows (config : Config) (design : Design) (name : String) : Prop :=
  name ∈ design.declaredNames ∨ ∃ value, name = config.railName value

/-- A valuation that agrees with `v` on the declared signals and gives the rails their values. -/
structure Extends (config : Config) (design : Design) (v w : Valuation) : Prop where
  declared_eq : ∀ name ∈ design.declaredNames, w name = v name
  rails_hold : config.RailsHold w

lemma scope_of_declares {t : NameTable} (h : NameTable.Declares {} design.declaredNames t) :
    t.scope config = { name | design.Knows config name } := by
  ext name
  simp [NameTable.scope, Knows, h.names_eq]

/-- A design of Boolean statements is lowered to elements that realize its equations, and these
elements mention listed signals only. -/
theorem run_lower (hapart : config.RailsApart) (hdecl : design.ValidDeclarations config)
    (hbody : ∀ s ∈ design.architecture.body,
      s.IsLogicStatement design.declaredNames (design.Knows config)) :
    ∃ elements t, (design.lower config).run {} = .ok elements t ∧ t.Coherent config ∧
      Element.mentions elements ⊆ t.signalNames ∧
      Realizes config { name | design.Knows config name } (t.scope config) elements
        fun w => ∀ s ∈ design.architecture.body, s.Equation w := by
  obtain ⟨s, hdeclare, hs⟩ := run_declare config hdecl
  have hscope : s.scope config = { name | design.Knows config name } := scope_of_declares hs
  obtain ⟨elements, t, hlower, hrealizes⟩ := Phrase.run_lowerEach_lowerStatement hapart
    (fun name hname => Or.inl hname) design.architecture.body hbody s (fun name hname => hscope ▸ hname)
  have hcoherent := hs.coherent (NameTable.coherent_empty config)
  have hclosed := lowerEach_closed config [] design.architecture.body
    fun more => Phrase.lowerStatement_closed config ([] ++ more)
  obtain ⟨hreach, hmentions⟩ := hclosed s elements t hlower
  refine ⟨elements, t, ?_, hreach.coherent hcoherent, ?_, hscope ▸ hrealizes⟩
  · unfold lower
    rw [← bind_assoc]
    exact Lowering.run_bind_eq_ok.mpr ⟨(), s, hdeclare, hlower⟩
  · exact hmentions hcoherent (List.nil_subset _)

lemma synthesize_result {phrases : List Phrase} {elements : List Element} {t : NameTable}
    (hdesign : ofPhrases phrases = .ok design) (hrun : (design.lower config).run {} = .ok elements t)
    (hflaw : (design.assemble config elements t).flaw? = none) :
    (VhdlGates.synthesize config phrases).result = .ok (design.assemble config elements t) := by
  have hbind : (VhdlGates.synthesize config phrases).result = (design.synthesize config).result := by
    unfold VhdlGates.synthesize
    rw [hdesign]
    rfl
  rw [hbind, synthesize, hrun]
  simp only [hflaw]

end Design

lemma Config.rail?_railName {config : Config} (h : config.highRail ≠ config.lowRail)
    (value : Bool) : config.rail? (config.railName value) = some value := by
  cases value with
  | true => simp [rail?, railName]
  | false => simp [rail?, railName, h.symm]

lemma Config.railsHold_withRails {config : Config} (h : config.highRail ≠ config.lowRail)
    (v : Valuation) : config.RailsHold (config.withRails v) := by
  intro value
  rw [withRails, Config.rail?_railName h]
  rfl

lemma Design.Extends.iff_eqOn {config : Config} {design : Design} (h : config.highRail ≠ config.lowRail)
    (hdecl : design.ValidDeclarations config) {v w : Valuation} :
    design.Extends config v w ↔
      Set.EqOn (config.withRails v) w { name | design.Knows config name } := by
  have hrails := config.railsHold_withRails h v
  have hdeclared : ∀ name ∈ design.declaredNames, config.withRails v name = v name := by
    intro name hname
    rw [Config.withRails, Config.rail?_eq_none.mpr (hdecl.not_rail name hname)]
    rfl
  constructor
  · rintro ⟨hw, hwrails⟩ name (hname | ⟨value, rfl⟩)
    · rw [hdeclared name hname, hw name hname]
    · rw [hrails value, hwrails value]
  · intro heq
    refine ⟨fun name hname => ?_, fun value => ?_⟩
    · rw [← heq (Or.inl hname), hdeclared name hname]
    · rw [← heq (Or.inr ⟨value, rfl⟩), hrails value]

/-- Lowering keeps the meaning of Boolean designs. The specification exists, its elements can be
satisfied on top of a valuation of the declared signals exactly if the valuation solves all source
equations, and then in one way only. -/
theorem synthesize_realizes_equations {config : Config}
    (hdistinct : config.highRail ≠ config.lowRail) (hapart : config.RailsApart)
    {phrases : List Phrase} {design : Design} (hdesign : Design.ofPhrases phrases = .ok design)
    (hdecl : design.ValidDeclarations config)
    (hbody : ∀ s ∈ design.architecture.body,
      s.IsLogicStatement design.declaredNames (design.Knows config)) :
    ∃ spec, (synthesize config phrases).result = .ok spec ∧ ∀ v : Valuation,
      ((∀ s ∈ design.architecture.body, s.Equation (config.withRails v)) ↔
        ∃ w, design.Extends config v w ∧ AllHold w spec.elements) ∧
      ∀ w w', design.Extends config v w → design.Extends config v w' →
        AllHold w spec.elements → AllHold w' spec.elements →
        ∀ signal ∈ spec.signals, w signal.name = w' signal.name := by
  obtain ⟨elements, t, hrun, hcoherent, hmentions, hrealizes⟩ :=
    Design.run_lower hapart hdecl hbody
  have hflaw : (design.assemble config elements t).flaw? = none :=
    Specification.flaw?_eq_none (List.subset_append_of_subset_right _ hmentions) hrealizes.drives
  refine ⟨_, Design.synthesize_result hdesign hrun hflaw, fun v => ⟨?_, ?_⟩⟩
  · have hrails := config.railsHold_withRails hdistinct v
    simp only [Design.Extends.iff_eqOn hdistinct hdecl]
    exact hrealizes.iff_exists hrails
  · intro w w' hw hw' hhold hhold' signal hsignal
    rw [Design.Extends.iff_eqOn hdistinct hdecl] at hw hw'
    have heq := hrealizes.unique w w' (hw.symm.trans hw') hhold hhold'
    -- Every listed signal is a name of the table or a rail, and so in the scope.
    have hlisted : signal.name ∈ t.signalNames := List.mem_map_of_mem hsignal
    apply heq
    rcases (hcoherent signal.name).mp hlisted with hname | ⟨value, -, hname⟩
    · exact Or.inl hname
    · exact Or.inr ⟨value, hname⟩

lemma Config.railsApart_default : Config.RailsApart {} := by
  intro value index h
  have hlists := congrArg String.toList h
  cases value <;> simp [railName, temporaryName] at hlists

/-- A design with a nested negation, a bit constant, a rail by name and an operation that is
assigned to nothing. -/
def nestedDesign : Design where
  entity := ⟨"E", [⟨["A", "B"], .input, "bit"⟩, ⟨["Y"], .output, "bit"⟩], {}⟩
  architecture := ⟨"R", "E", [],
    [.binary (.identifier "Y") (.assignment .toSignal)
        (.binary (.unary (.logic .not) (.parenthesized (.binary (.identifier "A") (.logic .and)
          (.literal (.bit true)) false)) false) (.logic .xor) (.identifier "B") true) false,
      .binary (.identifier "A") (.logic .or) (.identifier "VCC") true]⟩

theorem synthesize_realizes_equations_nested :
    ∃ spec, (synthesize {} [.entity nestedDesign.entity,
        .architecture "R" "E" [] nestedDesign.architecture.body {}]).result = .ok spec ∧
      ∀ v : Valuation, ((∀ s ∈ nestedDesign.architecture.body, s.Equation (Config.withRails {} v)) ↔
        ∃ w, nestedDesign.Extends {} v w ∧ AllHold w spec.elements) := by
  have hdesign : Design.ofPhrases [.entity nestedDesign.entity,
      .architecture "R" "E" [] nestedDesign.architecture.body {}] = .ok nestedDesign := rfl
  have hdecl : nestedDesign.ValidDeclarations {} := ⟨by decide, by decide⟩
  have hA : nestedDesign.Knows {} "A" := Or.inl (by decide)
  have hB : nestedDesign.Knows {} "B" := Or.inl (by decide)
  have hVCC : nestedDesign.Knows {} "VCC" := Or.inr ⟨true, rfl⟩
  have hbody : ∀ s ∈ nestedDesign.architecture.body,
      s.IsLogicStatement nestedDesign.declaredNames (nestedDesign.Knows {}) := by
    refine List.forall_mem_cons.mpr ⟨?_, List.forall_mem_singleton.mpr ?_⟩
    · refine .assignment .toSignal false rfl (by decide) (.binary true rfl ?_ (.identifier hB))
      exact .negation false (.parenthesized (.binary false rfl (.identifier hA) (.bit true)))
    · exact .binary (.binary true rfl (.identifier hA) (.identifier hVCC))
  obtain ⟨spec, hresult, h⟩ :=
    synthesize_realizes_equations (by decide) Config.railsApart_default hdesign hdecl hbody
  exact ⟨spec, hresult, fun v => (h v).1⟩

end VhdlGates
