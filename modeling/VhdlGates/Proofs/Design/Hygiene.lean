import Mathlib
import VhdlGates.Proofs.Design.Synthesis
import VhdlGates.Proofs.Lowering.Names

/-! Names that are not declared. A statement that uses one makes synthesis fail, with one exception:
the name may be that of a temporary that has been created before. -/
namespace VhdlGates

namespace NameTable

variable {config : Config} {t t' : NameTable}

lemma Coherent.mem_scope (ht : t.Coherent config) {name : String} (h : name ∈ t.signalNames) :
    name ∈ t.scope config :=
  ((ht name).mp h).imp_right fun ⟨value, _, hrail⟩ => ⟨value, hrail⟩

/-- Whatever name comes to a table is that of a temporary, and its creation is noted. -/
lemma Reaches.names_noted (h : Reaches config t t') :
    ∀ name ∈ t'.names, name ∈ t.names ∨
      Notice.temporary name ∈ t'.notices ∧ ∃ index, name = config.temporaryName index := by
  induction h with
  | refl => exact fun name hname => .inl hname
  | tail _ hstep ih =>
    intro name hname
    cases hstep with
    | rail value =>
      rw [names_afterRail] at hname
      rw [notices_afterRail]
      exact ih name hname
    | temporary =>
      rw [names_afterTemporary, List.mem_append, List.mem_singleton] at hname
      rw [notices_afterTemporary]
      rcases hname with hname | rfl
      · refine (ih name hname).imp_right fun ⟨hnoted, hindex⟩ => ⟨?_, hindex⟩
        exact List.mem_append_left _ hnoted
      · exact .inr ⟨by simp, _, rfl⟩

/-- Whatever temporary is noted is a name of the table that was not in scope before. -/
lemma Reaches.noted_names (hapart : config.RailsApart) (h : Reaches config t t') :
    ∀ name, Notice.temporary name ∈ t'.notices →
      Notice.temporary name ∈ t.notices ∨ name ∈ t'.names ∧ name ∉ t.scope config := by
  induction h with
  | refl => exact fun name hname => .inl hname
  | @tail s _ hreach hstep ih =>
    intro name hname
    cases hstep with
    | rail value =>
      rw [notices_afterRail] at hname
      rw [names_afterRail]
      exact ih name hname
    | temporary =>
      rw [notices_afterTemporary, List.mem_append, List.mem_singleton] at hname
      rw [names_afterTemporary]
      rcases hname with hname | hname
      · refine (ih name hname).imp_right fun ⟨hmem, hscope⟩ => ⟨?_, hscope⟩
        exact List.mem_append_left _ hmem
      · obtain rfl := Notice.temporary.inj hname
        refine .inr ⟨by simp, fun hscope => ?_⟩
        exact freshName_notMem_scope config hapart s (Reaches.scope_subset hreach hscope)

end NameTable

namespace Design

variable {config : Config} {design : Design} {elements : List Element} {t : NameTable}

lemma notices_of_run_ok {phrases : List Phrase} (hdesign : ofPhrases phrases = .ok design)
    (hrun : (design.lower config).run {} = .ok elements t) :
    (VhdlGates.synthesize config phrases).notices =
      t.notices ++ [design.summary (design.assemble config elements t)] := by
  have hnotices : (VhdlGates.synthesize config phrases).notices =
      [] ++ (design.synthesize config).notices := by
    unfold VhdlGates.synthesize
    rw [hdesign]
    rfl
  rw [hnotices, List.nil_append, synthesize, hrun]
  simp only [flaw?_assemble_of_run_lower hrun]

/-- The temporaries that synthesis notes are those that lowering has noted. -/
lemma temporary_mem_notices {phrases : List Phrase} (hdesign : ofPhrases phrases = .ok design)
    (hrun : (design.lower config).run {} = .ok elements t) {name : String} :
    Notice.temporary name ∈ (VhdlGates.synthesize config phrases).notices ↔
      Notice.temporary name ∈ t.notices := by
  simp [notices_of_run_ok hdesign hrun, summary]

/-- In a design that can be lowered, every used name is declared, that of a rail, or that of a
temporary. -/
lemma names_of_run_lower (h : (design.lower config).run {} = .ok elements t) {statement : Phrase}
    (hstatement : statement ∈ design.architecture.body) {name : String}
    (hname : name ∈ statement.usedNames) : design.Knows config name ∨
      Notice.temporary name ∈ t.notices ∧ ∃ index, name = config.temporaryName index := by
  obtain ⟨choices, s, hdeclare, hbody⟩ := (run_lower_iff config).mp h
  have hdeclares := (declares_of_run config hdeclare).2
  obtain ⟨_, _, _, u, hlowers, -, hreach, -⟩ :=
    hbody.exists_of_mem Phrase.LowersStatement.reaches hstatement
  rcases hreach.scope_subset (hlowers.names_mem name hname) with hmem | hrail
  · rcases (hbody.reaches Phrase.LowersStatement.reaches).names_noted name hmem with hmem | hnoted
    · rw [hdeclares.names_eq] at hmem
      exact .inl (.inl (by simpa using hmem))
    · exact .inr hnoted
  · exact .inl (.inr hrail)

/-- The temporaries that lowering notes are the listed signals that are neither declared nor
rails. -/
lemma temporary_mem_notices_iff (hapart : config.RailsApart)
    (h : (design.lower config).run {} = .ok elements t) {name : String} :
    Notice.temporary name ∈ t.notices ↔ name ∈ t.signalNames ∧ ¬design.Knows config name := by
  have hcoherent := (mentions_of_run_lower h).1
  obtain ⟨choices, s, hdeclare, hbody⟩ := (run_lower_iff config).mp h
  have hreach := hbody.reaches Phrase.LowersStatement.reaches
  have hscope : s.scope config = { name | design.Knows config name } :=
    scope_of_declares (declares_of_run config hdeclare).2
  constructor
  · intro hnoted
    obtain ⟨hname, hnew⟩ := (hreach.noted_names hapart name hnoted).resolve_left fun hearlier => by
      simpa using declare_notesNone config design {} s hdeclare name hearlier
    rw [hscope] at hnew
    exact ⟨hcoherent.mem_signalNames hname, hnew⟩
  · rintro ⟨hlisted, hunknown⟩
    have hname : name ∈ t.names :=
      (hcoherent.mem_scope hlisted).resolve_right fun hrail => hunknown (.inr hrail)
    refine ((hreach.names_noted name hname).resolve_left fun hdeclared => ?_).1
    exact hunknown (hscope.subset (Or.inl hdeclared))

end Design

/-- Synthesis fails on a statement that uses a name which is neither declared nor that of a rail,
wherever the statement stands. The only such names that get through are those of temporaries which
the same run creates. -/
theorem synthesize_undeclared {config : Config} {phrases : List Phrase} {design : Design}
    (hdesign : Design.ofPhrases phrases = .ok design) {statement : Phrase}
    (hstatement : statement ∈ design.architecture.body) {name : String}
    (hname : name ∈ statement.usedNames) (hunknown : ¬design.Knows config name) :
    (∃ fault, (synthesize config phrases).result = .error fault) ∨
      Notice.temporary name ∈ (synthesize config phrases).notices ∧
        ∃ index, name = config.temporaryName index := by
  cases hrun : (design.lower config).run {} with
  | error fault t => exact .inl ⟨fault, Design.result_of_run_error hdesign hrun⟩
  | ok elements t =>
    refine .inr ?_
    obtain ⟨hnoted, hindex⟩ :=
      (Design.names_of_run_lower hrun hstatement hname).resolve_left hunknown
    exact ⟨(Design.temporary_mem_notices hdesign hrun).mpr hnoted, hindex⟩

/-- A design whose first statement creates a temporary, and whose second one passes on the signal
of this name. -/
def borrowing (name : String) : Design where
  entity := ⟨"E", [⟨["A", "B"], .input, "bit"⟩, ⟨["Y"], .output, "bit"⟩], {}⟩
  architecture := ⟨"R", "E", [],
    [.binary (.identifier "A") (.logic .and) (.identifier "B") true,
      .binary (.identifier "Y") (.assignment .toSignal) (.identifier name) true]⟩

theorem synthesize_undeclared_later :
    "tmp_1" ∈ Phrase.usedNames (.binary (.identifier "Y") (.assignment .toSignal)
        (.identifier "tmp_1") true) ∧
      ∃ fault, (synthesize {} (borrowing "tmp_1").phrases).result = .error fault := by
  have hdesign : Design.ofPhrases (borrowing "tmp_1").phrases = .ok (borrowing "tmp_1") := rfl
  have hname : "tmp_1" ∈ Phrase.usedNames (.binary (.identifier "Y") (.assignment .toSignal)
      (.identifier "tmp_1") true) := by decide
  have hunknown : ¬(borrowing "tmp_1").Knows {} "tmp_1" := by
    simp [Design.Knows, Design.declaredNames, borrowing, Config.railName]
  have hnotices : (synthesize {} (borrowing "tmp_1").phrases).notices = [.temporary "tmp_0"] := by
    cbv
  have h := synthesize_undeclared hdesign (by simp [borrowing]) hname hunknown
  refine ⟨hname, h.resolve_right ?_⟩
  rw [hnotices]
  simp

/-- The name of a temporary that an earlier statement has created is taken for a signal, although
nothing declares it. -/
theorem synthesize_borrows_temporary :
    Design.ofPhrases (borrowing "tmp_0").phrases = .ok (borrowing "tmp_0") ∧
      (borrowing "tmp_0").ValidDeclarations {} ∧ ¬(borrowing "tmp_0").Knows {} "tmp_0" ∧
      (∃ s ∈ (borrowing "tmp_0").architecture.body, "tmp_0" ∈ s.usedNames) ∧
      ∃ spec, (synthesize {} (borrowing "tmp_0").phrases).result = .ok spec ∧
        spec.elements = [⟨.combinational, .and, ["A", "B"], ["tmp_0"]⟩,
          ⟨.connection, .none, ["tmp_0"], ["Y"]⟩] := by
  have hresult : (synthesize {} (borrowing "tmp_0").phrases).result = .ok
      ⟨1, "Synthesis Performer", [.singleBit "A" .input, .singleBit "B" .input,
        .singleBit "Y" .output], "R",
        [.singleBit "A", .singleBit "B", .singleBit "Y", .singleBit "tmp_0"],
        [⟨.combinational, .and, ["A", "B"], ["tmp_0"]⟩,
          ⟨.connection, .none, ["tmp_0"], ["Y"]⟩]⟩ := by cbv
  refine ⟨rfl, ⟨by decide, by decide⟩, ?_, ?_, _, hresult, rfl⟩
  · simp [Design.Knows, Design.declaredNames, borrowing, Config.railName]
  · refine ⟨_, List.mem_cons_of_mem _ List.mem_cons_self, by decide⟩

end VhdlGates
