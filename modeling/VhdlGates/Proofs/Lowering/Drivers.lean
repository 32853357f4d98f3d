import VhdlGates.Proofs.Lowering.SingleAssignment
import VhdlGates.Proofs.NameTable.Moves

/-! The signals that a circuit drives. Each temporary is driven once, and each target of an
assignment as often as it is assigned; nothing else is driven, for all settings. So a constant rail
is driven only if a statement assigns it, or if a temporary has got its name. -/
namespace VhdlGates

open NameTable (Move Resolves ResolvesAll)

/-- The signals that some elements drive, as often as they are driven. -/
def Element.driven (elements : List Element) : List String := elements.flatMap (·.outputs)

@[simp] lemma Element.driven_append (elements others : List Element) :
    driven (elements ++ others) = driven elements ++ driven others :=
  List.flatMap_append

namespace Phrase

/-- The names that a statement inside a process assigns. -/
def itemTargets : Phrase → List String
  | .binary target (.assignment _) _ _ => target.targetName?.toList
  | other => other.branchTargets

/-- The names that a statement of an architecture assigns. -/
def targets : Phrase → List String
  | .binary target (.assignment _) _ _ => target.targetName?.toList
  | .process _ body => body.flatMap itemTargets
  | _ => []

end Phrase

namespace NameTable

variable {config : Config} {t s t' : NameTable} {targets others : List String}
  {elements block : List Element}

/-- The table goes from `t` to `t'` while these elements are made, which drive the temporaries
created on the way, and the targets. -/
def Drives (config : Config) (targets : List String) (elements : List Element)
    (t t' : NameTable) : Prop :=
  ∃ moves, t' = t.after config moves ∧
    (Element.driven elements).Perm (t.created config moves ++ targets)

namespace Drives

lemma refl (t : NameTable) : Drives config [] [] t t := ⟨[], rfl, .nil⟩

lemma trans (h : Drives config targets elements t s) (h' : Drives config others block s t') :
    Drives config (targets ++ others) (elements ++ block) t t' := by
  obtain ⟨moves, rfl, hperm⟩ := h
  obtain ⟨more, rfl, hperm'⟩ := h'
  refine ⟨moves ++ more, (after_append config t moves more).symm, ?_⟩
  rw [Element.driven_append, created_append]
  refine (hperm.append hperm').trans ?_
  rw [List.append_assoc, List.append_assoc]
  exact (List.perm_append_comm_assoc ..).append_left _

/-- One more element, that drives a signal of its own. -/
lemma drive (h : Drives config [] elements t t') (g : Gate) (output : String) :
    Drives config [output] (elements ++ [g.drive output]) t t' :=
  h.trans ⟨[], rfl, .refl _⟩

/-- One more element, that drives a new temporary. -/
lemma define (h : Drives config [] elements t t') (g : Gate) :
    Drives config [] (elements ++ [g.drive (t'.freshName config)]) t (t'.afterTemporary config) :=
  h.trans ⟨[.temporary], rfl, .refl _⟩

end Drives

lemma Resolves.drives {name : String} (h : Resolves config t name t') : Drives config [] [] t t' := by
  cases h with
  | rail => exact ⟨[.rail _], rfl, .nil⟩
  | known => exact .refl t

lemma ResolvesAll.drives {names : List String} (h : ResolvesAll config names t t') :
    Drives config [] [] t t' := by
  induction h with
  | nil => exact .refl _
  | cons hname _ ih => exact hname.drives.trans ih

end NameTable

open NameTable (Drives)

lemma LowersEach.drives {α β : Type} {config : Config}
    {R : α → NameTable → List β → List Element → NameTable → Prop} (targets : α → List String)
    (hR : ∀ {a t trace elements t'}, R a t trace elements t' → Drives config (targets a) elements t t')
    {items : List α} {t t' : NameTable} {traces : List β} {elements : List Element}
    (h : LowersEach R items t traces elements t') :
    Drives config (items.flatMap targets) elements t t' := by
  induction h with
  | nil => exact .refl _
  | cons ha _ ih => exact (hR ha).trans ih

namespace Phrase

variable {config : Config}

mutual

/-- The feeds of a lowered phrase drive the temporaries that it creates. -/
theorem Lowers.drives {p : Phrase} {t t' : NameTable} {c : Carrier} :
    Lowers config p t c t' → Drives config [] c.feeds t t'
  | .identifier h => h.drives
  | .bit value t => ⟨[.rail value], rfl, .nil⟩
  | .parenthesized h => h.drives
  | .binary _ _ hleft hright => hleft.drives.trans hright.drives
  | .unary _ _ h => h.drives
  | .whenElse hbranches hfallback => hbranches.drives.trans hfallback.drives

theorem LowersOperand.drives {p : Phrase} {t t' : NameTable} {o : Operand} :
    LowersOperand config p t o t' → Drives config [] o.feeds t t'
  | .wire h => h.drives
  | .gate h => h.drives.define _

theorem LowersSelector.drives {p : Phrase} {t t' : NameTable} {o : Operand} :
    LowersSelector config p t o t' → Drives config [] o.feeds t t'
  | .compared _ h => h.drives
  | .operand _ h => h.drives

theorem LowersBranches.drives {branches : List (Branch Phrase)} {t t' : NameTable}
    {bs : List (Branch Operand)} : LowersBranches config branches t bs t' →
      Drives config [] (bs.flatMap fun b => b.value.feeds ++ b.condition.feeds) t t'
  | .nil => .refl _
  | .cons hvalue hcondition hrest => (hvalue.drives.trans hcondition.drives).trans hrest.drives

end

variable {t t' : NameTable} {elements : List Element}

lemma LowersTo.drives {target : Phrase} {output : String} (h : LowersTo config target t output t') :
    target.targetName? = some output ∧ Drives config [] [] t t' := by
  induction h with
  | identifier h => exact ⟨rfl, h.drives⟩
  | parenthesized _ ih => exact ih

lemma LowersAssignment.drives {target value : Phrase}
    (h : LowersAssignment config target value t elements t') :
    Drives config target.targetName?.toList elements t t' := by
  obtain ⟨htarget, hvalue⟩ := h
  obtain ⟨hname, htarget⟩ := htarget.drives
  rw [hname, Carrier.drive_eq]
  exact (htarget.trans hvalue.drives).drive _ _

lemma LowersPath.drives {output : String} {value : Option Phrase} {o : Operand}
    (h : LowersPath config output value t o t') : Drives config [] o.feeds t t' := by
  cases h with
  | assigned hvalue => exact hvalue.drives
  | kept => exact .refl t

lemma LowersTarget.drives {selector target : String} {thenPath elsePath : Assignments}
    {muxes : List Element}
    (h : LowersTarget config selector thenPath elsePath target t muxes elements t') :
    Drives config [target] elements t t' := by
  obtain ⟨htarget, hthen, helse⟩ := h
  exact ((htarget.drives.trans hthen.drives).trans helse.drives).drive _ target

lemma LowersIf.drives {condition : Phrase} {thenBody elseBody : List Phrase} {selector : String}
    {muxes : List Element}
    (h : LowersIf config condition thenBody elseBody t selector muxes elements t') :
    Drives config (assignedNames (thenBody ++ elseBody)) elements t t' := by
  obtain ⟨hthen, helse, hselector, htargets⟩ := h
  have hmuxes := htargets.drives ([·]) LowersTarget.drives
  rw [Assignments.targets_append_filter hthen helse, List.flatMap_singleton'] at hmuxes
  exact hselector.drives.trans hmuxes

lemma LowersItem.drives {item : Phrase} {choices : List Choice}
    (h : LowersItem config item t choices elements t') :
    Drives config item.itemTargets elements t t' := by
  cases h with
  | ifThen hif => simpa [itemTargets, branchTargets] using hif.drives
  | ifElse hif => exact hif.drives
  | assignment _ _ hassignment => exact hassignment.drives

theorem LowersStatement.drives {statement : Phrase} {choices : List Choice}
    (h : LowersStatement config statement t choices elements t') :
    Drives config statement.targets elements t t' := by
  cases h with
  | assignment _ _ hassignment => exact hassignment.drives
  | @binary _ _ operator _ _ _ _ hoperand =>
    cases operator with
    | assignment => cases hoperand <;> rename_i hlowers <;> cases hlowers
    | _ => exact hoperand.drives
  | unary hoperand => exact hoperand.drives
  | process hnames hbody => exact hnames.drives.trans (hbody.drives itemTargets LowersItem.drives)

end Phrase

namespace Design

variable {config : Config} {design : Design} {elements : List Element} {t : NameTable}

lemma filterMap_notices_of_declare
    (h : (design.declare config).run {} = .ok () t) :
    t.notices.filterMap Notice.temporary? = [] := by
  refine List.eq_nil_iff_forall_not_mem.mpr fun name hname => ?_
  have hnoted := Notice.mem_filterMap_temporary?.mp hname
  simpa using declare_notesNone config design {} t h name hnoted

/-- The temporaries of a synthesis are those that the moves of its lowering create. -/
lemma temporaries_of_run {phrases : List Phrase} {s : NameTable} {moves : List Move}
    (hdesign : ofPhrases phrases = .ok design)
    (hdeclare : (design.declare config).run {} = .ok () s)
    (hrun : (design.lower config).run {} = .ok elements (s.after config moves)) :
    (VhdlGates.synthesize config phrases).temporaries = s.created config moves := by
  have hid : Notice.temporary? ∘ Notice.temporary = some := rfl
  rw [Report.temporaries, notices_of_run_ok hdesign hrun, NameTable.notices_after,
    List.filterMap_append, List.filterMap_append, filterMap_notices_of_declare hdeclare,
    List.filterMap_map, hid, List.filterMap_some]
  simp [summary, Notice.temporary?]

/-- A specification drives its temporaries and the targets of its statements. -/
theorem driven_perm {phrases : List Phrase} (hdesign : ofPhrases phrases = .ok design)
    {spec : Specification} (hresult : (VhdlGates.synthesize config phrases).result = .ok spec) :
    (Element.driven spec.elements).Perm ((VhdlGates.synthesize config phrases).temporaries ++
      design.architecture.body.flatMap Phrase.targets) := by
  obtain ⟨_, elements, t, hdesign', hrun, rfl⟩ := run_of_result_ok hresult
  obtain rfl := Except.ok.inj (hdesign.symm.trans hdesign')
  obtain ⟨choices, s, hdeclare, hbody⟩ := (run_lower_iff config).mp hrun
  obtain ⟨moves, rfl, hperm⟩ := hbody.drives Phrase.targets Phrase.LowersStatement.drives
  rw [temporaries_of_run hdesign hdeclare hrun]
  exact hperm

end Design

/-- A constant rail is driven in two cases only: a statement assigns it, or a temporary has got its
name. -/
theorem synthesize_rail_driven_iff {config : Config} {phrases : List Phrase} {design : Design}
    (hdesign : Design.ofPhrases phrases = .ok design) {spec : Specification}
    (hresult : (synthesize config phrases).result = .ok spec) (value : Bool) :
    (∃ e ∈ spec.elements, config.railName value ∈ e.outputs) ↔
      (∃ statement ∈ design.architecture.body, config.railName value ∈ statement.targets) ∨
        config.railName value ∈ (synthesize config phrases).temporaries := by
  have hdriven : (∃ e ∈ spec.elements, config.railName value ∈ e.outputs) ↔
      config.railName value ∈ Element.driven spec.elements := List.mem_flatMap.symm
  rw [hdriven, (Design.driven_perm hdesign hresult).mem_iff, List.mem_append, List.mem_flatMap,
    or_comm]

/-- `A and B;`, with the name of the first temporary for the high rail. -/
def railTemporary : Design where
  entity := ⟨"E", [⟨["A", "B"], .input, "bit"⟩], {}⟩
  architecture := ⟨"R", "E", [], [.binary (.identifier "A") (.logic .and) (.identifier "B") true]⟩

theorem synthesize_rail_driven_temporary :
    ∃ spec, (synthesize { highRail := "tmp_0" } railTemporary.phrases).result = .ok spec ∧
      (∃ e ∈ spec.elements, "tmp_0" ∈ e.outputs) ∧ ¬∃ e ∈ spec.elements, "GND" ∈ e.outputs := by
  have hdesign : Design.ofPhrases railTemporary.phrases = .ok railTemporary := rfl
  have hresult : (synthesize { highRail := "tmp_0" } railTemporary.phrases).result = .ok
      ⟨1, "Synthesis Performer", [.singleBit "A" .input, .singleBit "B" .input], "R",
        [.singleBit "A", .singleBit "B", .singleBit "tmp_0"],
        [⟨.combinational, .and, ["A", "B"], ["tmp_0"]⟩]⟩ := by cbv
  have htemporaries :
      (synthesize { highRail := "tmp_0" } railTemporary.phrases).temporaries = ["tmp_0"] := by cbv
  have h := synthesize_rail_driven_iff hdesign hresult
  refine ⟨_, hresult, (h true).mpr (.inr ?_), fun hdriven => ?_⟩
  · rw [htemporaries]
    exact List.mem_cons_self
  · have hlow := (h false).mp hdriven
    rw [htemporaries] at hlow
    revert hlow
    decide

/-- A design that assigns rails: by an assignment, by a choice inside a process, and by a branch of
an if statement. -/
def railTargets : Design where
  entity := ⟨"E", [⟨["A", "S"], .input, "bit"⟩], {}⟩
  architecture := ⟨"R", "E", [],
    [.binary (.identifier "VCC") (.assignment .toSignal) (.identifier "A") true,
      .process ["A", "S"]
        [.binary (.identifier "GND") (.assignment .toSignal)
            (.whenElse [⟨.identifier "A", .identifier "S"⟩] (.identifier "S")) false,
          .ifThen (.identifier "S")
            [.binary (.identifier "VCC") (.assignment .toSignal) (.identifier "A") true]]]⟩

/-- The rails are driven although they are constant. -/
theorem synthesize_drives_rails :
    ∃ spec, (synthesize {} railTargets.phrases).result = .ok spec ∧
      spec.elements = [⟨.connection, .none, ["A"], ["VCC"]⟩,
        ⟨.connection, .mux, ["A", "S", "S"], ["GND"]⟩,
        ⟨.sequential, .mux, ["A", "S", "VCC"], ["VCC"]⟩] ∧
      ∀ value, ∃ e ∈ spec.elements, Config.railName {} value ∈ e.outputs := by
  have hresult : (synthesize {} railTargets.phrases).result = .ok
      ⟨1, "Synthesis Performer", [.singleBit "A" .input, .singleBit "S" .input], "R",
        [.singleBit "A", .singleBit "S", .singleBit "VCC", .singleBit "GND"],
        [⟨.connection, .none, ["A"], ["VCC"]⟩, ⟨.connection, .mux, ["A", "S", "S"], ["GND"]⟩,
          ⟨.sequential, .mux, ["A", "S", "VCC"], ["VCC"]⟩]⟩ := by cbv
  exact ⟨_, hresult, rfl, by decide⟩

end VhdlGates
