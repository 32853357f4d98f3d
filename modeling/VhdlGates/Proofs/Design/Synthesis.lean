import VhdlGates.Proofs.Lowering.Faults
import VhdlGates.Proofs.Lowering.Shape

/-! Specifications as outcomes of runs. The check at the end of synthesis never fails, so synthesis
gives a specification exactly if lowering succeeds. -/
namespace VhdlGates

namespace Design

variable {config : Config} {design : Design} {elements : List Element} {t : NameTable}

/-- The elements of a design mention only signals that the table lists in the end. -/
theorem mentions_of_run_lower (h : (design.lower config).run {} = .ok elements t) :
    t.Coherent config ∧ Element.mentions elements ⊆ t.signalNames := by
  obtain ⟨choices, s, hdeclare, hbody⟩ := (run_lower_iff config).mp h
  have hcoherent := (declares_of_run config hdeclare).2.coherent (NameTable.coherent_empty config)
  have hrun := (run_lowerEach_iff fun statement _ _ _ =>
    Phrase.run_lowerStatement_iff statement).mpr ⟨choices, hbody⟩
  have hclosed := lowerEach_closed config [] design.architecture.body
    fun more => Phrase.lowerStatement_closed config ([] ++ more)
  obtain ⟨hreach, hmentions⟩ := hclosed s elements t hrun
  exact ⟨hreach.coherent hcoherent, hmentions hcoherent (List.nil_subset _)⟩

theorem wellFormed_of_run_lower (h : (design.lower config).run {} = .ok elements t) :
    ∀ e ∈ elements, e.WellFormed := by
  obtain ⟨choices, s, -, hbody⟩ := (run_lower_iff config).mp h
  exact hbody.forall_elements Phrase.LowersStatement.wellFormed

/-- The check of the assembled specification finds no flaw. -/
theorem flaw?_assemble_of_run_lower (h : (design.lower config).run {} = .ok elements t) :
    (design.assemble config elements t).flaw? = none := by
  refine Specification.flaw?_eq_none ?_ fun e he => ?_
  · exact List.subset_append_of_subset_right _ (mentions_of_run_lower h).2
  · obtain ⟨output, houtput⟩ := (wellFormed_of_run_lower h e he).one_output
    rw [houtput]
    exact List.cons_ne_nil _ _

section Result

variable {phrases : List Phrase}

lemma result_of_ofPhrases_error {fault : Fault} (h : ofPhrases phrases = .error fault) :
    (VhdlGates.synthesize config phrases).result = .error fault := by
  unfold VhdlGates.synthesize
  rw [h]
  rfl

lemma result_of_run_error {fault : Fault} (hdesign : ofPhrases phrases = .ok design)
    (hrun : (design.lower config).run {} = .error fault t) :
    (VhdlGates.synthesize config phrases).result = .error fault := by
  have hresult : (VhdlGates.synthesize config phrases).result = (design.synthesize config).result := by
    unfold VhdlGates.synthesize
    rw [hdesign]
    rfl
  rw [hresult, synthesize, hrun]

lemma result_of_run_ok (hdesign : ofPhrases phrases = .ok design)
    (hrun : (design.lower config).run {} = .ok elements t) :
    (VhdlGates.synthesize config phrases).result = .ok (design.assemble config elements t) :=
  synthesize_result hdesign hrun (flaw?_assemble_of_run_lower hrun)

/-- A specification is the outcome of a run of the design among the phrases. -/
theorem run_of_result_ok {spec : Specification}
    (h : (VhdlGates.synthesize config phrases).result = .ok spec) :
    ∃ design elements t, ofPhrases phrases = .ok design ∧
      (design.lower config).run {} = .ok elements t ∧
      design.assemble config elements t = spec := by
  cases hdesign : ofPhrases phrases with
  | error fault =>
    rw [result_of_ofPhrases_error hdesign] at h
    cases h
  | ok design =>
    cases hrun : (design.lower config).run {} with
    | error fault t =>
      rw [result_of_run_error hdesign hrun] at h
      cases h
    | ok elements t =>
      rw [result_of_run_ok hdesign hrun] at h
      exact ⟨design, elements, t, rfl, hrun, Except.ok.inj h⟩

/-- A failure of synthesis is one of finding the design, or of lowering it. -/
theorem not_isFlaw_of_result_error {fault : Fault}
    (h : (VhdlGates.synthesize config phrases).result = .error fault) : ¬fault.isFlaw := by
  cases hdesign : ofPhrases phrases with
  | error other =>
    rw [result_of_ofPhrases_error hdesign] at h
    cases h
    exact not_isFlaw_of_ofPhrases hdesign
  | ok design =>
    cases hrun : (design.lower config).run {} with
    | error other t =>
      rw [result_of_run_error hdesign hrun] at h
      cases h
      exact lower_flawless config design {} fault t hrun
    | ok elements t =>
      rw [result_of_run_ok hdesign hrun] at h
      cases h

end Result

/-- The phrases of a file with this design and nothing else. -/
def phrases (design : Design) : List Phrase :=
  [.entity design.entity,
    .architecture design.architecture.name design.architecture.entityName
      design.architecture.signals design.architecture.body {}]

end Design

/-- Synthesis is closed and gives well-formed circuits, for all phrases and all settings. No
reference dangles, the final check of a lowered design never fails, and the elements of a
specification refer to its signals and are of the right form. -/
theorem synthesize_wellFormed (config : Config) (phrases : List Phrase) :
    (∀ element name,
      (synthesize config phrases).result ≠ .error (.danglingReference element name)) ∧
    (∀ design elements t, Design.ofPhrases phrases = .ok design →
      (design.lower config).run {} = .ok elements t →
      (design.assemble config elements t).flaw? = none) ∧
    ∀ spec, (synthesize config phrases).result = .ok spec → ∀ e ∈ spec.elements,
      e.WellFormed ∧ ∀ name ∈ e.inputs ++ e.outputs, name ∈ spec.signals.map (·.name) := by
  refine ⟨fun element name h => ?_, fun design elements t _ hrun => ?_, fun spec h e he => ?_⟩
  · exact Design.not_isFlaw_of_result_error h rfl
  · exact Design.flaw?_assemble_of_run_lower hrun
  · obtain ⟨design, elements, t, -, hrun, rfl⟩ := Design.run_of_result_ok h
    refine ⟨Design.wellFormed_of_run_lower hrun e he, fun name hname => ?_⟩
    exact (Design.mentions_of_run_lower hrun).2 (List.mem_flatMap.mpr ⟨e, he, hname⟩)

/-- A latch: `Q` follows `D` while `G` is set, and keeps its value otherwise. -/
def latch : List Phrase :=
  [.entity ⟨"Latch", [⟨["D", "G"], .input, "bit"⟩, ⟨["Q"], .output, "bit"⟩], {}⟩,
    .architecture "R" "Latch" []
      [.process ["D", "G"]
        [.ifThen (.binary (.identifier "G") (.relation .equal) (.literal (.bit true)) false)
          [.binary (.identifier "Q") (.assignment .toSignal) (.identifier "D") true]]] {}]

theorem synthesize_wellFormed_latch :
    ∃ spec, (synthesize { highRail := "", lowRail := "" } latch).result = .ok spec ∧
      spec.elements = [⟨.sequential, .mux, ["D", "G", "Q"], ["Q"]⟩] ∧
      ∀ e ∈ spec.elements, e.WellFormed ∧
        ∀ name ∈ e.inputs ++ e.outputs, name ∈ spec.signals.map (·.name) := by
  have hresult : (synthesize { highRail := "", lowRail := "" } latch).result = .ok
      ⟨1, "Synthesis Performer", [.singleBit "D" .input, .singleBit "G" .input,
        .singleBit "Q" .output], "R", [.singleBit "D", .singleBit "G", .singleBit "Q"],
        [⟨.sequential, .mux, ["D", "G", "Q"], ["Q"]⟩]⟩ := by rfl
  exact ⟨_, hresult, rfl, (synthesize_wellFormed _ latch).2.2 _ hresult⟩

end VhdlGates
