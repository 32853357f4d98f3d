import VhdlGates.Proofs.Lowering.Drivers
import VhdlGates.Proofs.Lowering.Uniform

/-! The stem of the temporary names. Runs that differ in the stem alone go side by side: they fail
alike, or they give the same specification but for the names of the temporaries. -/
namespace VhdlGates

open NameTable (Move)

/-- The settings with another stem. -/
def Config.withStem (config : Config) (stem : String) : Config :=
  { config with temporaryStem := stem }

namespace NameTable

variable {config other : Config} {s t : NameTable} {moves : List Move}

/-- The same moves from tables that are the same up to renaming lead to such tables. -/
lemma signals_after_rename {ρ : String → String}
    (hrail : ∀ value, other.railName value = ρ (config.railName value))
    (hused : ∀ value, t.railUsed value = s.railUsed value)
    (hsignals : t.signals = s.signals.map (Signal.rename ρ))
    (hcreated : (s.created config moves).map ρ = t.created other moves) :
    (t.after other moves).signals = (s.after config moves).signals.map (Signal.rename ρ) := by
  induction moves generalizing s t with
  | nil => exact hsignals
  | cons move rest ih =>
    cases move with
    | rail value =>
      refine ih (fun v => ?_) ?_ hcreated
      · simp only [afterMove, railUsed_afterRail, hused]
      · simp only [afterMove, signals_afterRail, hused, hsignals, hrail]
        split_ifs <;> simp
    | temporary =>
      obtain ⟨hfirst, hrest⟩ := List.cons.inj hcreated
      refine ih hused ?_ hrest
      simp only [afterMove, signals_afterTemporary, hsignals, List.map_append, List.map_cons,
        List.map_nil, Signal.rename_singleBit, hfirst]

end NameTable

namespace Design

variable {config : Config} {design : Design}

/-- A stem that keeps the temporaries apart from the rails and from the undeclared names of a
design. -/
structure AllowsStem (config : Config) (design : Design) (stem : String) : Prop where
  rails_apart : (config.withStem stem).RailsApart
  names_apart : ∀ statement ∈ design.architecture.body, ∀ name ∈ statement.usedNames,
    name ∉ design.declaredNames → ∀ index, name ≠ (config.withStem stem).temporaryName index

variable {s : NameTable}

/-- The sites of the runs with all allowed stems, after the declarations. -/
lemma comparable_stems (hdeclares : NameTable.Declares {} design.declaredNames s) :
    Comparable config.railName design.sources { name | name ∈ design.declaredNames }
      fun stem : { stem // design.AllowsStem config stem } => ⟨config.withStem stem, s⟩ where
  railName_eq _ _ := rfl
  mem_names_iff _ name _ := by simp [hdeclares.names_eq]
  apart stem name := fun ⟨statement, hstatement, hname⟩ hunknown =>
    stem.2.names_apart statement hstatement name hname hunknown

section Stems

variable {first second stem : String} {moves : List Move}
  (hdeclares : NameTable.Declares {} design.declaredNames s)

include hdeclares

lemma AllowsStem.known_notMem_created (h : design.AllowsStem config stem) {name : String}
    (hname : design.Knows config name) : name ∉ s.created (config.withStem stem) moves := by
  intro hcreated
  apply NameTable.created_notMem_scope h.rails_apart hcreated
  rw [scope_of_declares hdeclares]
  exact hname

lemma AllowsStem.source_notMem_created (h : design.AllowsStem config stem) {name : String}
    (hname : name ∈ design.sources) : name ∉ s.created (config.withStem stem) moves := by
  by_cases hdeclared : name ∈ design.declaredNames
  · exact h.known_notMem_created hdeclares (.inl hdeclared)
  · obtain ⟨statement, hstatement, hname⟩ := hname
    intro hcreated
    obtain ⟨index, hindex⟩ := NameTable.created_isTemporary hcreated
    exact h.names_apart statement hstatement name hname hdeclared index hindex

/-- The temporaries of one run can be replaced by those of the other one within a permutation of all
names, which keeps the rails and the names of the design. -/
lemma exists_renames_stems (hfirst : design.AllowsStem config first)
    (hsecond : design.AllowsStem config second) (moves : List Move) :
    ∃ π : Equiv.Perm String,
      Site.Renames config.railName design.sources ⟨config.withStem first, s⟩
        ⟨config.withStem second, s⟩ moves π ∧
      ∀ name ∈ (s.after (config.withStem first) moves).scope config,
        π name = replace (s.created (config.withStem first) moves)
          (s.created (config.withStem second) moves) name := by
  have hold := (NameTable.nodup_created (config.withStem first) s moves).1
  have hnew := (NameTable.nodup_created (config.withStem second) s moves).1
  have hlength : (s.created (config.withStem first) moves).length =
      (s.created (config.withStem second) moves).length := by
    rw [NameTable.length_created, NameTable.length_created]
  obtain ⟨π, hπ⟩ := exists_perm_replace hold hnew hlength
  have hkept {name : String} (hfirst : name ∉ s.created (config.withStem first) moves)
      (hsecond : name ∉ s.created (config.withStem second) moves) : π name = name := by
    rw [hπ name (.inr hsecond), replace_of_notMem _ hfirst]
  refine ⟨π, ⟨?_, fun name hname => ?_, fun value => ?_⟩, fun name hname => hπ name ?_⟩
  · exact map_eq_of_replace hold hlength fun name hname => hπ name (.inl hname)
  · exact hkept (hfirst.source_notMem_created hdeclares hname)
      (hsecond.source_notMem_created hdeclares hname)
  · exact hkept (hfirst.known_notMem_created hdeclares (.inr ⟨value, rfl⟩))
      (hsecond.known_notMem_created hdeclares (.inr ⟨value, rfl⟩))
  · rcases NameTable.mem_scope_after.mp hname with hscope | hcreated
    · rw [scope_of_declares hdeclares] at hscope
      exact .inr (hsecond.known_notMem_created hdeclares hscope)
    · exact .inl hcreated

end Stems

lemma declare_withStem (config : Config) (design : Design) (stem : String) :
    design.declare (config.withStem stem) = design.declare config := rfl

/-- Lowering with two stems fails alike, or it makes the same moves, and the elements are the same
up to the renaming of the temporaries. -/
lemma run_lower_withStem {first second : String} (hfirst : design.AllowsStem config first)
    (hsecond : design.AllowsStem config second) :
    (∃ fault t t', (design.lower (config.withStem first)).run {} = .error fault t ∧
      (design.lower (config.withStem second)).run {} = .error fault t') ∨
    ∃ s moves elements, (design.declare config).run {} = .ok () s ∧
      (design.lower (config.withStem first)).run {} =
        .ok elements (s.after (config.withStem first) moves) ∧
      ∀ π, Site.Renames config.railName design.sources ⟨config.withStem first, s⟩
          ⟨config.withStem second, s⟩ moves π →
        (design.lower (config.withStem second)).run {} =
          .ok (elements.map (Element.rename π)) (s.after (config.withStem second) moves) := by
  cases hdeclare : (design.declare config).run {} with
  | error fault t =>
    exact .inl ⟨fault, t, t, run_lower_of_declare_error (config.withStem first) hdeclare,
      run_lower_of_declare_error (config.withStem second) hdeclare⟩
  | ok _ s =>
    rw [run_lower_of_declare (config.withStem first) hdeclare,
      run_lower_of_declare (config.withStem second) hdeclare]
    rcases body_uniform (comparable_stems (declares_of_run config hdeclare).2) [] with
      ⟨fault, hfails⟩ | ⟨moves, elements, hruns, hrelated⟩
    · obtain ⟨t, ht⟩ := hfails ⟨first, hfirst⟩
      obtain ⟨t', ht'⟩ := hfails ⟨second, hsecond⟩
      exact .inl ⟨fault, t, t', ht, ht'⟩
    · refine .inr ⟨s, moves, elements ⟨first, hfirst⟩, rfl, hruns ⟨first, hfirst⟩, fun π hπ => ?_⟩
      have helements : elements ⟨second, hsecond⟩ =
          (elements ⟨first, hfirst⟩).map (Element.rename π) :=
        hrelated ⟨first, hfirst⟩ ⟨second, hsecond⟩ π hπ
      rw [← helements]
      exact hruns ⟨second, hsecond⟩

/-- The specifications of two such runs are the same up to the renaming of the temporaries. -/
lemma assemble_withStem {first second : String} {s : NameTable} {moves : List Move}
    {elements : List Element} {π : Equiv.Perm String}
    (hdeclares : NameTable.Declares {} design.declaredNames s)
    (hπ : Site.Renames config.railName design.sources ⟨config.withStem first, s⟩
      ⟨config.withStem second, s⟩ moves π)
    (hkept : ∀ name ∈ design.declaredNames, π name = name) :
    design.assemble (config.withStem second) (elements.map (Element.rename π))
        (s.after (config.withStem second) moves) =
      (design.assemble (config.withStem first) elements
        (s.after (config.withStem first) moves)).rename π := by
  have hnames : s.signalNames = design.declaredNames := by
    simpa [NameTable.signalNames] using hdeclares.signalNames_eq
  have hsignals : s.signals.map (Signal.rename π) = s.signals := by
    refine Signal.map_rename_eq_self fun name hname => hkept name ?_
    rw [← hnames]
    exact hname
  have hafter : (s.after (config.withStem second) moves).signals =
      (s.after (config.withStem first) moves).signals.map (Signal.rename π) :=
    NameTable.signals_after_rename (fun value => (hπ.rail_eq value).symm) (fun _ => rfl)
      hsignals.symm hπ.map_created
  simp only [assemble, Specification.rename, NameTable.ports_after, hafter]
  rfl

end Design

/-- The stem of the temporary names only renames. With two stems that keep the temporaries apart
from the rails and from the undeclared names, synthesis fails with the same fault, or it gives
specifications that are the same once the temporaries of the one are replaced by those of the other
in the order of their creation. No declared name is replaced, whatever it looks like. -/
theorem synthesize_withStem {config : Config} {phrases : List Phrase} {first second : String}
    (hfirst : ∀ design, Design.ofPhrases phrases = .ok design → design.AllowsStem config first)
    (hsecond : ∀ design, Design.ofPhrases phrases = .ok design → design.AllowsStem config second) :
    (∃ fault, (synthesize (config.withStem first) phrases).result = .error fault ∧
      (synthesize (config.withStem second) phrases).result = .error fault) ∨
    ∃ design spec old new, Design.ofPhrases phrases = .ok design ∧
      old = (synthesize (config.withStem first) phrases).temporaries ∧
      new = (synthesize (config.withStem second) phrases).temporaries ∧
      old.length = new.length ∧ old.Nodup ∧ new.Nodup ∧
      (∀ name ∈ design.declaredNames, name ∉ old ∧ name ∉ new) ∧
      (synthesize (config.withStem first) phrases).result = .ok spec ∧
      (synthesize (config.withStem second) phrases).result =
        .ok (spec.rename (replace old new)) := by
  cases hdesign : Design.ofPhrases phrases with
  | error fault =>
    exact .inl ⟨fault, Design.result_of_ofPhrases_error hdesign,
      Design.result_of_ofPhrases_error hdesign⟩
  | ok design =>
    replace hfirst := hfirst design hdesign
    replace hsecond := hsecond design hdesign
    rcases Design.run_lower_withStem hfirst hsecond with
      ⟨fault, t, t', hrun, hrun'⟩ | ⟨s, moves, elements, hdeclare, hrun, hrun'⟩
    · exact .inl ⟨fault, Design.result_of_run_error hdesign hrun,
        Design.result_of_run_error hdesign hrun'⟩
    · have hdeclares := (Design.declares_of_run config hdeclare).2
      obtain ⟨π, hπ, hreplace⟩ := Design.exists_renames_stems hdeclares hfirst hsecond moves
      have hunchanged : ∀ name ∈ design.declaredNames,
          name ∉ s.created (config.withStem first) moves ∧
            name ∉ s.created (config.withStem second) moves :=
        fun name hname => ⟨hfirst.known_notMem_created hdeclares (.inl hname),
          hsecond.known_notMem_created hdeclares (.inl hname)⟩
      have htemporaries {stem : String} {elements : List Element}
          (hrun : (design.lower (config.withStem stem)).run {} =
            .ok elements (s.after (config.withStem stem) moves)) :
          s.created (config.withStem stem) moves =
            (synthesize (config.withStem stem) phrases).temporaries := by
        rw [← Design.declare_withStem config design stem] at hdeclare
        exact (Design.temporaries_of_run hdesign hdeclare hrun).symm
      have hkept : ∀ name ∈ design.declaredNames, π name = name := by
        intro name hname
        have hscope : name ∈ s.scope config := by
          rw [Design.scope_of_declares hdeclares]
          exact .inl hname
        rw [hreplace name (NameTable.mem_scope_after.mpr (.inl hscope)),
          replace_of_notMem _ (hunchanged name hname).1]
      obtain ⟨hcoherent, hmentions⟩ := Design.mentions_of_run_lower hrun
      have hspec := Design.result_of_run_ok hdesign (hrun' π hπ)
      rw [(Design.assemble_withStem hdeclares hπ hkept).trans (Specification.rename_congr hmentions
        fun name hname => hreplace name (hcoherent.mem_scope hname))] at hspec
      refine .inr ⟨design, _, _, _, rfl, htemporaries hrun, htemporaries (hrun' π hπ), ?_, ?_, ?_,
        hunchanged, Design.result_of_run_ok hdesign hrun, hspec⟩
      · rw [NameTable.length_created, NameTable.length_created]
      · exact (NameTable.nodup_created _ s moves).1
      · exact (NameTable.nodup_created _ s moves).1

/-- A design that declares the name which the second temporary would get with the stem `t`. -/
def skippedName : Design where
  entity := ⟨"E", [⟨["A", "B"], .input, "bit"⟩, ⟨["Y"], .output, "bit"⟩], {}⟩
  architecture := ⟨"R", "E", [⟨["t1"], "bit"⟩],
    [.binary (.identifier "t1") (.assignment .toSignal)
        (.binary (.parenthesized (.binary (.identifier "A") (.logic .and) (.identifier "B") false))
          (.logic .or) (.identifier "A") true) false,
      .binary (.identifier "Y") (.assignment .toSignal)
        (.binary (.unary (.logic .not) (.identifier "t1") false) (.logic .and) (.identifier "B")
          true) false]⟩

theorem synthesize_withStem_skipped :
    ∃ spec, (synthesize (Config.withStem {} "t") skippedName.phrases).result = .ok spec ∧
      spec.elements = [⟨.combinational, .and, ["A", "B"], ["t0"]⟩,
        ⟨.combinational, .or, ["t0", "A"], ["t1"]⟩, ⟨.combinational, .not, ["t1"], ["t2"]⟩,
        ⟨.combinational, .and, ["t2", "B"], ["Y"]⟩] ∧
      (synthesize (Config.withStem {} "u") skippedName.phrases).result =
        .ok (spec.rename (replace ["t0", "t2"] ["u0", "u1"])) := by
  have hdeclared : ∀ statement ∈ skippedName.architecture.body, ∀ name ∈ statement.usedNames,
      name ∈ skippedName.declaredNames := by decide
  have hallows (stem : String) (hrails : (Config.withStem {} stem).RailsApart) (design : Design)
      (hdesign : Design.ofPhrases skippedName.phrases = .ok design) :
      design.AllowsStem {} stem := by
    obtain rfl : skippedName = design := Except.ok.inj hdesign
    exact ⟨hrails, fun statement hstatement name hname hunknown =>
      absurd (hdeclared statement hstatement name hname) hunknown⟩
  have hapart : (Config.withStem {} "t").RailsApart ∧ (Config.withStem {} "u").RailsApart := by
    refine ⟨fun value index h => ?_, fun value index h => ?_⟩
    all_goals
      have hlists := congrArg String.toList h
      cases value <;> simp [Config.railName, Config.temporaryName, Config.withStem] at hlists
  have hresult : (synthesize (Config.withStem {} "t") skippedName.phrases).result = .ok
      ⟨1, "Synthesis Performer", [.singleBit "A" .input, .singleBit "B" .input,
        .singleBit "Y" .output], "R", [.singleBit "A", .singleBit "B", .singleBit "Y",
        .singleBit "t1", .singleBit "t0", .singleBit "t2"],
        [⟨.combinational, .and, ["A", "B"], ["t0"]⟩, ⟨.combinational, .or, ["t0", "A"], ["t1"]⟩,
          ⟨.combinational, .not, ["t1"], ["t2"]⟩, ⟨.combinational, .and, ["t2", "B"], ["Y"]⟩]⟩ := by
    cbv
  have hold : (synthesize (Config.withStem {} "t") skippedName.phrases).temporaries =
      ["t0", "t2"] := by cbv
  have hnew : (synthesize (Config.withStem {} "u") skippedName.phrases).temporaries =
      ["u0", "u1"] := by cbv
  rcases synthesize_withStem (hallows "t" hapart.1) (hallows "u" hapart.2) with
    ⟨fault, hfails, -⟩ | ⟨design, spec, old, new, -, rfl, rfl, -, -, -, -, hspec, hrenamed⟩
  · rw [hresult] at hfails
    cases hfails
  · rw [hold, hnew] at hrenamed
    rw [hresult] at hspec
    obtain rfl := Except.ok.inj hspec
    exact ⟨_, hresult, rfl, hrenamed⟩

end VhdlGates
