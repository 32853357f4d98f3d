import VhdlGates.Proofs.Lowering.Drivers

/-! The names of the signals of a specification. Declared names, temporaries and rails are each
pairwise distinct, and no declared name is that of a temporary or of a rail. But a temporary may get
the name of a rail, and if the rail is in use as well, the name is listed twice. -/
namespace VhdlGates

open NameTable (Resolves ResolvesAll)

namespace Phrase

variable (config : Config)

mutual

/-- The rails that the value of an expression refers to, by a bit or by name. -/
def rails : Phrase → List Bool
  | .identifier name => (config.rail? name).toList
  | .literal (.bit value) => [value]
  | .parenthesized inner => rails inner
  | .binary left _ right _ => rails left ++ rails right
  | .unary _ operand _ => rails operand
  | .whenElse branches fallback => branchRails branches ++ rails fallback
  | _ => []

/-- The rails that the branches of a choice refer to. A comparison with a literal refers to its
signal only. -/
def branchRails : List (Branch Phrase) → List Bool
  | [] => []
  | ⟨value, condition⟩ :: rest =>
    rails value ++
      (match condition.comparedSignal? with
        | some name => (config.rail? name).toList
        | none => rails condition) ++
      branchRails rest

end

/-- The rails that a condition refers to. -/
def selectorRails (condition : Phrase) : List Bool :=
  match condition.comparedSignal? with
  | some name => (config.rail? name).toList
  | none => condition.rails config

/-- The rails that a target of an if statement refers to, with the values that it gets. -/
def targetRails (thenValue elseValue : Option Phrase) (target : String) : List Bool :=
  (config.rail? target).toList ++
    (thenValue.elim [] (rails config) ++ elseValue.elim [] (rails config))

/-- The rails that the bodies of an if statement refer to. Of the values assigned to a target, only
the last one in each body is used. -/
def bodyRails (thenBody elseBody : List Phrase) : List Bool :=
  (assignedNames (thenBody ++ elseBody)).flatMap fun target =>
    targetRails config (lastValue? thenBody target) (lastValue? elseBody target) target

/-- The rails that a statement inside a process refers to. -/
def itemRails : Phrase → List Bool
  | .ifThen condition thenBody => condition.selectorRails config ++ bodyRails config thenBody []
  | .ifElse condition thenBody elseBody =>
    condition.selectorRails config ++ bodyRails config thenBody elseBody
  | other => other.rails config

/-- The rails that a statement of an architecture refers to. -/
def usedRails : Phrase → List Bool
  | .process sensitivity body =>
    sensitivity.flatMap (fun name => (config.rail? name).toList) ++ body.flatMap (itemRails config)
  | other => other.rails config

end Phrase

namespace NameTable

variable {config : Config} {t s t' : NameTable} {rails others : List Bool}

/-- From `t` to `t'` these rails come into use, as far as they are not yet, and no others. -/
def Uses (rails : List Bool) (t t' : NameTable) : Prop :=
  ∀ value, t'.railUsed value = true ↔ t.railUsed value = true ∨ value ∈ rails

namespace Uses

lemma refl (t : NameTable) : Uses [] t t := by simp [Uses]

lemma trans (h : Uses rails t s) (h' : Uses others s t') : Uses (rails ++ others) t t' := by
  intro value
  rw [h' value, h value, List.mem_append, or_assoc]

lemma rail (config : Config) (t : NameTable) (value : Bool) :
    Uses [value] t (t.afterRail config value) := by
  intro other
  simp [railUsed_afterRail]

/-- A new temporary leaves the rails as they are. -/
lemma temporary (h : Uses rails t t') : Uses rails t (t'.afterTemporary config) := h

end Uses

lemma Resolves.uses {name : String} (h : Resolves config t name t') :
    Uses (config.rail? name).toList t t' := by
  cases h with
  | rail h =>
    rw [h]
    exact .rail config t _
  | known h =>
    rw [h]
    exact .refl t

lemma ResolvesAll.uses {names : List String} (h : ResolvesAll config names t t') :
    Uses (names.flatMap fun name => (config.rail? name).toList) t t' := by
  induction h with
  | nil => exact .refl _
  | cons hname _ ih => exact hname.uses.trans ih

end NameTable

open NameTable (Uses)

lemma LowersEach.uses {α β : Type} {R : α → NameTable → List β → List Element → NameTable → Prop}
    (rails : α → List Bool)
    (hR : ∀ {a t trace elements t'}, R a t trace elements t' → Uses (rails a) t t')
    {items : List α} {t t' : NameTable} {traces : List β} {elements : List Element}
    (h : LowersEach R items t traces elements t') : Uses (items.flatMap rails) t t' := by
  induction h with
  | nil => exact .refl _
  | cons ha _ ih => exact (hR ha).trans ih

namespace Phrase

variable {config : Config}

mutual

/-- Lowering a phrase brings the rails into use that it refers to. -/
theorem Lowers.uses {p : Phrase} {t t' : NameTable} {c : Carrier} :
    Lowers config p t c t' → Uses (p.rails config) t t'
  | .identifier h => h.uses
  | .bit value t => .rail config t value
  | .parenthesized h => h.uses
  | .binary _ _ hleft hright => hleft.uses.trans hright.uses
  | .unary _ _ h => h.uses
  | .whenElse hbranches hfallback => hbranches.uses.trans hfallback.uses

theorem LowersOperand.uses {p : Phrase} {t t' : NameTable} {o : Operand} :
    LowersOperand config p t o t' → Uses (p.rails config) t t'
  | .wire h => h.uses
  | .gate h => h.uses.temporary

theorem LowersSelector.uses {p : Phrase} {t t' : NameTable} {o : Operand} :
    LowersSelector config p t o t' → Uses (p.selectorRails config) t t'
  | .compared hcompared h => by
    rw [selectorRails, hcompared]
    exact h.uses
  | .operand hnone h => by
    rw [selectorRails, hnone]
    exact h.uses

theorem LowersBranches.uses {branches : List (Branch Phrase)} {t t' : NameTable}
    {bs : List (Branch Operand)} :
    LowersBranches config branches t bs t' → Uses (branchRails config branches) t t'
  | .nil => .refl _
  | .cons hvalue hcondition hrest => (hvalue.uses.trans hcondition.uses).trans hrest.uses

end

variable {t t' : NameTable} {elements : List Element}

lemma LowersTo.uses {target : Phrase} {output : String} (h : LowersTo config target t output t') :
    Uses (target.rails config) t t' := by
  induction h with
  | identifier h => exact h.uses
  | parenthesized _ ih => exact ih

lemma LowersAssignment.uses {target value : Phrase}
    (h : LowersAssignment config target value t elements t') :
    Uses (target.rails config ++ value.rails config) t t' := by
  obtain ⟨htarget, hvalue⟩ := h
  exact htarget.uses.trans hvalue.uses

lemma LowersPath.uses {output : String} {value : Option Phrase} {o : Operand}
    (h : LowersPath config output value t o t') : Uses (value.elim [] (rails config)) t t' := by
  cases h with
  | assigned hvalue => exact hvalue.uses
  | kept => exact .refl t

lemma LowersTarget.uses {selector target : String} {thenPath elsePath : Assignments}
    {muxes : List Element}
    (h : LowersTarget config selector thenPath elsePath target t muxes elements t') :
    Uses (targetRails config (thenPath.lookup target) (elsePath.lookup target) target) t t' := by
  obtain ⟨htarget, hthen, helse⟩ := h
  exact htarget.uses.trans (hthen.uses.trans helse.uses)

lemma LowersIf.uses {condition : Phrase} {thenBody elseBody : List Phrase} {selector : String}
    {muxes : List Element}
    (h : LowersIf config condition thenBody elseBody t selector muxes elements t') :
    Uses (condition.selectorRails config ++ bodyRails config thenBody elseBody) t t' := by
  cases h with
  | @mk _ _ thenPath elsePath _ _ _ hthen helse hselector htargets =>
    have hbodies := htargets.uses
      (fun target => targetRails config (thenPath.lookup target) (elsePath.lookup target) target)
      LowersTarget.uses
    rw [Assignments.targets_append_filter hthen helse] at hbodies
    simp only [Assignments.lookup_ofBody hthen, Assignments.lookup_ofBody helse] at hbodies
    exact hselector.uses.trans hbodies

lemma LowersItem.uses {item : Phrase} {choices : List Choice}
    (h : LowersItem config item t choices elements t') : Uses (item.itemRails config) t t' := by
  cases h with
  | ifThen hif => exact hif.uses
  | ifElse hif => exact hif.uses
  | assignment _ _ hassignment => exact hassignment.uses

/-- Lowering a statement brings the rails into use that it refers to, and no others. -/
theorem LowersStatement.uses {statement : Phrase} {choices : List Choice}
    (h : LowersStatement config statement t choices elements t') :
    Uses (statement.usedRails config) t t' := by
  cases h with
  | assignment _ _ hassignment => exact hassignment.uses
  | binary hoperand => exact hoperand.uses
  | unary hoperand => exact hoperand.uses
  | process hnames hbody => exact hnames.uses.trans (hbody.uses (itemRails config) LowersItem.uses)

end Phrase

namespace NameTable

lemma railUsed_after (config : Config) (t : NameTable) (moves : List Move) (value : Bool) :
    (t.after config moves).railUsed value = true ↔
      t.railUsed value = true ∨ .rail value ∈ moves := by
  induction moves generalizing t with
  | nil => simp
  | cons move rest ih =>
    refine (ih (t.afterMove config move)).trans ?_
    cases move with
    | rail other =>
      simp only [afterMove, railUsed_afterRail, Bool.or_eq_true, beq_iff_eq, List.mem_cons,
        Move.rail.injEq, or_assoc]
    | temporary => simp only [List.mem_cons, reduceCtorEq, false_or]; rfl

/-- Up to their order, the names of the signals after some moves are those before, the temporaries
and the rails that come into use. -/
lemma signalNames_after_perm (config : Config) (t : NameTable) (moves : List Move) :
    (t.after config moves).signalNames.Perm
      (t.signalNames ++ t.created config moves ++ (t.newRails moves).map config.railName) := by
  have h := (signals_after_perm config t moves).map Signal.name
  simpa [signalNames, Function.comp_def, Signal.singleBit] using h

end NameTable

lemma Config.railName_injective {config : Config} (h : config.highRail ≠ config.lowRail) :
    Function.Injective config.railName := by
  intro value other heq
  cases value <;> cases other
  · rfl
  · exact absurd heq.symm h
  · exact absurd heq h
  · rfl

namespace Design

variable {config : Config} {design : Design}

/-- The rails that the statements of a design refer to. -/
def rails (config : Config) (design : Design) : List Bool :=
  design.architecture.body.flatMap (Phrase.usedRails config)

variable {phrases : List Phrase} {spec : Specification}

/-- Behind a specification there is a table with the declared names, from which moves lead to the
signals of the specification. They create its temporaries, and bring the rails into use that the
design refers to. -/
lemma moves_of_result (hdesign : ofPhrases phrases = .ok design)
    (hresult : (VhdlGates.synthesize config phrases).result = .ok spec) :
    ∃ s moves, design.ValidDeclarations config ∧ NameTable.Declares {} design.declaredNames s ∧
      (VhdlGates.synthesize config phrases).temporaries = s.created config moves ∧
      spec.signals = (s.after config moves).signals ∧
      Uses (design.rails config) s (s.after config moves) := by
  obtain ⟨_, elements, t, hdesign', hrun, rfl⟩ := run_of_result_ok hresult
  obtain rfl := Except.ok.inj (hdesign.symm.trans hdesign')
  obtain ⟨choices, s, hdeclare, hbody⟩ := (run_lower_iff config).mp hrun
  obtain ⟨hvalid, hdeclares⟩ := declares_of_run config hdeclare
  have huses := hbody.uses (Phrase.usedRails config) Phrase.LowersStatement.uses
  obtain ⟨moves, rfl, -⟩ := hbody.drives Phrase.targets Phrase.LowersStatement.drives
  exact ⟨s, moves, hvalid, hdeclares, temporaries_of_run hdesign hdeclare hrun, rfl, huses⟩

/-- Up to their order, the signals of a specification are the declared ones, the temporaries, and
the rails that the design refers to, each once. -/
theorem signals_perm (hdesign : ofPhrases phrases = .ok design)
    (hresult : (VhdlGates.synthesize config phrases).result = .ok spec) :
    (spec.signals.map (·.name)).Perm
      (design.declaredNames ++ (VhdlGates.synthesize config phrases).temporaries ++
        (design.rails config).dedup.map config.railName) := by
  obtain ⟨s, moves, -, hdeclares, htemporaries, hsignals, huses⟩ := moves_of_result hdesign hresult
  -- no rail is in use after the declarations, so those in use at the end are referred to
  have hrails : (s.newRails moves).Perm (design.rails config).dedup := by
    refine (List.perm_ext_iff_of_nodup (s.nodup_newRails moves) (List.nodup_dedup _)).mpr ?_
    intro value
    have hunused : s.railUsed value = false := by
      rw [hdeclares.railUsed_eq]
      cases value <;> rfl
    have hvalue := (NameTable.railUsed_after config s moves value).symm.trans (huses value)
    simpa [NameTable.mem_newRails, hunused] using hvalue
  have hperm := NameTable.signalNames_after_perm config s moves
  rw [hdeclares.signalNames_eq] at hperm
  rw [htemporaries, hsignals]
  exact hperm.trans ((hrails.map _).append_left _)

/-- No temporary gets a declared name, nor that of another temporary. -/
theorem nodup_temporaries (hdesign : ofPhrases phrases = .ok design)
    (hresult : (VhdlGates.synthesize config phrases).result = .ok spec) :
    design.ValidDeclarations config ∧
      (design.declaredNames ++ (VhdlGates.synthesize config phrases).temporaries).Nodup := by
  obtain ⟨s, moves, hvalid, hdeclares, htemporaries, -, -⟩ := moves_of_result hdesign hresult
  obtain ⟨hnodup, hnew⟩ := NameTable.nodup_created config s moves
  rw [htemporaries]
  refine ⟨hvalid, List.nodup_append.mpr ⟨hvalid.nodup, hnodup, ?_⟩⟩
  rintro name hname _ hcreated rfl
  refine hnew name hcreated ?_
  rw [hdeclares.names_eq]
  exact List.mem_append_right _ hname

end Design

/-- No declared name and no temporary is listed twice. All names of signals are distinct exactly if
no temporary has got the name of a rail that the design refers to. -/
theorem synthesize_signals_nodup_iff {config : Config} (hrails : config.highRail ≠ config.lowRail)
    {phrases : List Phrase} {design : Design} (hdesign : Design.ofPhrases phrases = .ok design)
    {spec : Specification} (hresult : (synthesize config phrases).result = .ok spec) :
    (design.declaredNames ++ (synthesize config phrases).temporaries).Nodup ∧
      ((spec.signals.map (·.name)).Nodup ↔ ∀ value ∈ design.rails config,
        config.railName value ∉ (synthesize config phrases).temporaries) := by
  obtain ⟨hvalid, hnodup⟩ := Design.nodup_temporaries hdesign hresult
  have hdistinct : ((design.rails config).dedup.map config.railName).Nodup :=
    (List.nodup_dedup _).map (Config.railName_injective hrails)
  refine ⟨hnodup, ?_⟩
  rw [(Design.signals_perm hdesign hresult).nodup_iff, List.nodup_append]
  constructor
  · rintro ⟨-, -, hapart⟩ value hvalue htemporary
    refine hapart _ (List.mem_append_right _ htemporary) _ ?_ rfl
    exact List.mem_map_of_mem (List.mem_dedup.mpr hvalue)
  · intro hapart
    refine ⟨hnodup, hdistinct, ?_⟩
    rintro name hname _ hrail rfl
    obtain ⟨value, hvalue, rfl⟩ := List.mem_map.mp hrail
    rcases List.mem_append.mp hname with hdeclared | htemporary
    · exact hvalid.not_rail _ hdeclared value rfl
    · exact hapart value (List.mem_dedup.mp hvalue) htemporary

theorem synthesize_signals_nodup_temporary :
    ∃ spec, (synthesize { highRail := "tmp_0" } railTemporary.phrases).result = .ok spec ∧
      spec.signals.map (·.name) = ["A", "B", "tmp_0"] ∧ (spec.signals.map (·.name)).Nodup := by
  have hdesign : Design.ofPhrases railTemporary.phrases = .ok railTemporary := rfl
  have hresult : (synthesize { highRail := "tmp_0" } railTemporary.phrases).result = .ok
      ⟨1, "Synthesis Performer", [.singleBit "A" .input, .singleBit "B" .input], "R",
        [.singleBit "A", .singleBit "B", .singleBit "tmp_0"],
        [⟨.combinational, .and, ["A", "B"], ["tmp_0"]⟩]⟩ := by cbv
  have hrails : railTemporary.rails { highRail := "tmp_0" } = [] := by decide
  have h := synthesize_signals_nodup_iff (by decide) hdesign hresult
  refine ⟨_, hresult, rfl, h.2.mpr ?_⟩
  rw [hrails]
  simp

/-- `Y <= (A and B) or '1';`. -/
def railAndTemporary : Design where
  entity := ⟨"E", [⟨["A", "B"], .input, "bit"⟩, ⟨["Y"], .output, "bit"⟩], {}⟩
  architecture := ⟨"R", "E", [], [.binary (.identifier "Y") (.assignment .toSignal)
    (.binary (.parenthesized (.binary (.identifier "A") (.logic .and) (.identifier "B") false))
      (.logic .or) (.literal (.bit true)) true) false]⟩

/-- The name of the high rail is listed for the rail and for a temporary. -/
theorem synthesize_signals_repeated :
    ∃ spec, (synthesize { highRail := "tmp_0" } railAndTemporary.phrases).result = .ok spec ∧
      spec.signals.map (·.name) = ["A", "B", "Y", "tmp_0", "tmp_0"] ∧
      ¬(spec.signals.map (·.name)).Nodup := by
  have hresult : (synthesize { highRail := "tmp_0" } railAndTemporary.phrases).result = .ok
      ⟨1, "Synthesis Performer",
        [.singleBit "A" .input, .singleBit "B" .input, .singleBit "Y" .output], "R",
        [.singleBit "A", .singleBit "B", .singleBit "Y", .singleBit "tmp_0", .singleBit "tmp_0"],
        [⟨.combinational, .and, ["A", "B"], ["tmp_0"]⟩,
          ⟨.combinational, .or, ["tmp_0", "tmp_0"], ["Y"]⟩]⟩ := by cbv
  exact ⟨_, hresult, rfl, by decide⟩

end VhdlGates
