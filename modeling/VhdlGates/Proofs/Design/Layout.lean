import VhdlGates.Proofs.Design.SignalNames
import VhdlGates.Proofs.NameTable.Numbering

/-! What the declarations of a design come to. The first name that cannot be declared decides the
fault. If there is none, the specification lists the declared names in their order, and behind them
the temporaries and the rails that come into use. -/
namespace VhdlGates

open NameTable (Admits Declares Move)

namespace Config

/-- The fault of a name that cannot be declared. That of a rail is reserved, and any other one is
declared already. -/
def nameFault (config : Config) (name : String) : Fault :=
  match config.rail? name with
  | some _ => .reservedSignalName name
  | none => .duplicateSignal name

/-- The name at this place is that of a rail, or it stands in the list before. -/
def Clashes (config : Config) (names : List String) (i : ℕ) : Prop :=
  ∃ name, names[i]? = some name ∧ (config.rail? name ≠ none ∨ name ∈ names.take i)

/-- The first place at which a list of names clashes, and the name there. -/
structure FirstClash (config : Config) (names : List String) (i : ℕ) (name : String) : Prop where
  name_eq : names[i]? = some name
  clashes : config.rail? name ≠ none ∨ name ∈ names.take i
  least : ∀ j < i, ¬config.Clashes names j

lemma exists_firstClash {config : Config} {names : List String}
    (h : ∃ i, config.Clashes names i) : ∃ i name, config.FirstClash names i name := by
  classical
  obtain ⟨name, hname, hclash⟩ := Nat.find_spec h
  exact ⟨Nat.find h, name, hname, hclash, fun j hlt => Nat.find_min h hlt⟩

/-- Names that do not clash can be declared. -/
lemma admits_take {config : Config} {names : List String} {i : ℕ}
    (h : ∀ j < i, ¬config.Clashes names j) : Admits config {} (names.take i) := by
  induction i with
  | zero => exact ⟨List.nodup_nil, by simp, by simp⟩
  | succ i ih =>
    have hbefore := ih fun j hlt => h j (Nat.lt_succ_of_lt hlt)
    rw [List.take_add_one]
    cases hname : names[i]? with
    | none => simpa using hbefore
    | some name =>
      have hclash := h i (Nat.lt_succ_self i)
      simp only [Clashes, hname, Option.some.injEq, exists_eq_left', not_or, not_not] at hclash
      obtain ⟨hrail, hnew⟩ := hclash
      refine ⟨List.nodup_append.mpr ⟨hbefore.nodup, List.nodup_singleton name, ?_⟩, ?_, by simp⟩
      · rintro other hother _ hmem rfl
        obtain rfl := List.mem_singleton.mp hmem
        exact hnew hother
      · exact List.forall_mem_append.mpr ⟨hbefore.not_rail, List.forall_mem_singleton.mpr hrail⟩

end Config

namespace Lowering

variable {config : Config} {names more : List String} {m n : Lowering Unit}

/-- A computation that fails at the first of these names that cannot be declared. -/
def Refusing (config : Config) (names : List String) (m : Lowering Unit) : Prop :=
  ∀ t before name after, names = before ++ name :: after → Admits config t before →
    config.rail? name ≠ none ∨ name ∈ t.names ++ before →
    ∃ t', m.run t = .error (config.nameFault name) t'

lemma Refusing.pure : Refusing config [] (Pure.pure ()) := by
  intro t before name after hnames
  simp at hnames

lemma Refusing.bind (hm : Refusing config names m) (hdecl : Declaring config names m)
    (hn : Refusing config more n) : Refusing config (names ++ more) (m >>= fun _ => n) := by
  intro t before name after hnames hbefore hclash
  rcases List.append_eq_append_iff.mp hnames with ⟨mid, rfl, hmore⟩ | ⟨mid, rfl, hafter⟩
  · -- The first part succeeds, and the name comes in the second one.
    obtain ⟨s, hrun, hs⟩ := hdecl t hbefore.left
    have hclash' : config.rail? name ≠ none ∨ name ∈ s.names ++ mid := by
      rwa [hs.names_eq, List.append_assoc]
    obtain ⟨t', hrun'⟩ := hn s mid name after hmore (hbefore.right hs) hclash'
    exact ⟨t', by rw [EStateM.run_bind, hrun]; exact hrun'⟩
  · cases mid with
    | nil =>
      obtain ⟨s, hrun, hs⟩ := hdecl t (by simpa using hbefore)
      have hclash' : config.rail? name ≠ none ∨ name ∈ s.names ++ [] := by
        simpa [hs.names_eq] using hclash
      have hnone : Admits config s [] := ⟨List.nodup_nil, by simp, by simp⟩
      obtain ⟨t', hrun'⟩ := hn s [] name after (by simpa using hafter.symm) hnone hclash'
      exact ⟨t', by rw [EStateM.run_bind, hrun]; exact hrun'⟩
    | cons first mid =>
      obtain ⟨rfl, -⟩ := List.cons.inj hafter
      obtain ⟨t', hrun⟩ := hm t before name mid rfl hbefore hclash
      exact ⟨t', by rw [EStateM.run_bind, hrun]⟩

lemma Refusing.forM {α : Type} {f : α → Lowering Unit} {namesOf : α → List String}
    (hf : ∀ a, Refusing config (namesOf a) (f a)) (hdecl : ∀ a, Declaring config (namesOf a) (f a))
    (items : List α) : Refusing config (items.flatMap namesOf) (items.forM f) := by
  induction items with
  | nil => exact Refusing.pure
  | cons a rest ih => exact (hf a).bind (hdecl a) ih

lemma Refusing.forM_names {f : String → Lowering Unit}
    (hf : ∀ name, Refusing config [name] (f name)) (hdecl : ∀ name, Declaring config [name] (f name))
    (names : List String) : Refusing config names (names.forM f) := by
  have h := Refusing.forM hf hdecl names
  rwa [List.flatMap_singleton'] at h

lemma declareSignal_refusing (name typeName : String) :
    Refusing config [name] (NameTable.declareSignal config name typeName) := by
  intro t before other after hnames _ hclash
  obtain ⟨rfl, rfl, rfl⟩ : before = [] ∧ other = name ∧ after = [] := by
    cases before with
    | nil => simpa [eq_comm] using hnames
    | cons first rest => simp at hnames
  refine ⟨t, ?_⟩
  cases hrail : config.rail? other with
  | some value => simp [NameTable.declareSignal, Config.nameFault, hrail]
  | none =>
    have hmem : other ∈ t.names := by simpa [hrail] using hclash
    simp [NameTable.declareSignal, Config.nameFault, hrail, hmem]

lemma declarePort_refusing (name : String) (direction : Direction) (typeName : String) :
    Refusing config [name] (NameTable.declarePort config name direction typeName) := by
  intro t before other after hnames hbefore hclash
  obtain ⟨t', hrun⟩ := declareSignal_refusing name typeName t before other after hnames hbefore hclash
  exact ⟨t', by rw [NameTable.declarePort, EStateM.run_bind, hrun]⟩

/-- A computation that adds these ports and the signals of these names, if it succeeds. -/
def Listing (ports : List Port) (names : List String) (m : Lowering Unit) : Prop :=
  ∀ t t', m.run t = .ok () t' →
    t'.ports = t.ports ++ ports ∧ t'.signals = t.signals ++ names.map .singleBit

variable {ports others : List Port}

lemma Listing.bind (hm : Listing ports names m) (hn : Listing others more n) :
    Listing (ports ++ others) (names ++ more) (m >>= fun _ => n) := by
  intro t t' hrun
  obtain ⟨⟨⟩, s, hrun₁, hrun₂⟩ := run_bind_eq_ok.mp hrun
  obtain ⟨hports, hsignals⟩ := hm t s hrun₁
  obtain ⟨hports', hsignals'⟩ := hn s t' hrun₂
  rw [hports', hports, hsignals', hsignals]
  simp

lemma Listing.forM {α : Type} {f : α → Lowering Unit} {portsOf : α → List Port}
    {namesOf : α → List String} (hf : ∀ a, Listing (portsOf a) (namesOf a) (f a)) (items : List α) :
    Listing (items.flatMap portsOf) (items.flatMap namesOf) (items.forM f) := by
  induction items with
  | nil =>
    intro t t' hrun
    obtain ⟨-, rfl⟩ := run_pure_eq_ok.mp hrun
    simp
  | cons a rest ih => exact (hf a).bind ih

lemma declareSignal_listing (config : Config) (name typeName : String) :
    Listing [] [name] (NameTable.declareSignal config name typeName) := by
  intro t t' hrun
  obtain ⟨-, hrail, hname⟩ := declareSignal_demanding name typeName t t' hrun
  simp only [List.mem_singleton, forall_eq] at hrail hname
  cases htype : isSingleBitType typeName with
  | true =>
    obtain rfl : (t.addSignal name).addName name = t' := by
      simpa [NameTable.declareSignal, hrail, hname, htype] using hrun
    exact ⟨(List.append_nil _).symm, rfl⟩
  | false =>
    obtain rfl :
        ((t.addNotice (.unsupportedType name typeName)).addSignal name).addName name = t' := by
      simpa [NameTable.declareSignal, hrail, hname, htype] using hrun
    exact ⟨(List.append_nil _).symm, rfl⟩

lemma declarePort_listing (config : Config) (name : String) (direction : Direction)
    (typeName : String) :
    Listing [.singleBit name direction] [name]
      (NameTable.declarePort config name direction typeName) := by
  intro t t' hrun
  obtain ⟨⟨⟩, s, hsignal, hport⟩ := run_bind_eq_ok.mp hrun
  obtain ⟨hports, hsignals⟩ := declareSignal_listing config name typeName t s hsignal
  rw [List.append_nil] at hports
  cases hport
  exact ⟨by rw [← hports], hsignals⟩

end Lowering

namespace Design

variable {config : Config} {design : Design}

/-- The ports that an entity declares, in order, with their directions. -/
def declaredPorts (design : Design) : List Port :=
  design.entity.ports.flatMap fun d => d.names.map (.singleBit · d.direction)

lemma declare_refusing (config : Config) (design : Design) :
    Lowering.Refusing config design.declaredNames (design.declare config) := by
  refine .bind (.forM (fun d => ?_) (portDeclaration_declaring config) _)
    (.forM (portDeclaration_declaring config) _)
    (.forM (fun d => ?_) (signalDeclaration_declaring config) _)
  · exact .forM_names (fun name => Lowering.declarePort_refusing name d.direction d.typeName)
      (fun name => Lowering.declarePort_declaring name d.direction d.typeName) d.names
  · exact .forM_names (fun name => Lowering.declareSignal_refusing name d.typeName)
      (fun name => Lowering.declareSignal_declaring name d.typeName) d.names

lemma declare_listing (config : Config) (design : Design) :
    Lowering.Listing design.declaredPorts design.declaredNames (design.declare config) := by
  have hports (d : PortDeclaration) : Lowering.Listing (d.names.map (.singleBit · d.direction))
      d.names (d.names.forM fun name => NameTable.declarePort config name d.direction d.typeName) := by
    have h := Lowering.Listing.forM
      (fun name => Lowering.declarePort_listing config name d.direction d.typeName) d.names
    rwa [← List.map_eq_flatMap, List.flatMap_singleton'] at h
  have hsignals (d : SignalDeclaration) : Lowering.Listing [] d.names
      (d.names.forM fun name => NameTable.declareSignal config name d.typeName) := by
    have h := Lowering.Listing.forM
      (fun name => Lowering.declareSignal_listing config name d.typeName) d.names
    rwa [List.flatMap_singleton', List.flatMap_eq_nil_iff.mpr fun _ _ => rfl] at h
  have h := (Lowering.Listing.forM hports design.entity.ports).bind
    (Lowering.Listing.forM hsignals design.architecture.signals)
  rwa [List.flatMap_eq_nil_iff.mpr fun (_ : SignalDeclaration) _ => rfl, List.append_nil] at h

/-- Synthesis fails at the first name that cannot be declared, whatever the statements are. -/
theorem result_of_firstClash {phrases : List Phrase} (hdesign : ofPhrases phrases = .ok design)
    {i : ℕ} {name : String} (h : config.FirstClash design.declaredNames i name) :
    (VhdlGates.synthesize config phrases).result = .error (config.nameFault name) := by
  obtain ⟨hi, heq⟩ := List.getElem?_eq_some_iff.mp h.name_eq
  have hsplit : design.declaredNames =
      design.declaredNames.take i ++ name :: design.declaredNames.drop (i + 1) := by
    rw [← heq, ← List.drop_eq_getElem_cons hi, List.take_append_drop]
  have hadmits := Config.admits_take h.least
  obtain ⟨t, hrun⟩ := declare_refusing config design {} _ name _ hsplit hadmits h.clashes
  exact result_of_run_error hdesign (run_lower_of_declare_error config hrun)

end Design

namespace Phrase

lemma targetName?_mem_identifiers {target : Phrase} {name : String}
    (h : target.targetName? = some name) : name ∈ target.identifiers := by
  fun_induction targetName? target with
  | case1 other =>
    obtain rfl := Option.some.inj h
    exact List.mem_cons_self
  | case2 inner ih => exact ih h
  | case3 => cases h

lemma assignedNames_subset_bodyNames (thenBody elseBody : List Phrase) :
    assignedNames (thenBody ++ elseBody) ⊆ bodyNames thenBody elseBody := fun target htarget =>
  List.mem_flatMap.mpr ⟨target, htarget, List.mem_cons_self⟩

lemma itemTargets_subset (item : Phrase) : item.itemTargets ⊆ item.itemNames := by
  intro name hname
  unfold itemTargets at hname
  split at hname
  · rw [Option.mem_toList] at hname
    exact List.mem_append_left _ (targetName?_mem_identifiers hname)
  · unfold branchTargets at hname
    split at hname
    · rename_i thenBody _
      rw [← List.append_nil thenBody] at hname
      exact List.mem_append_right _ (assignedNames_subset_bodyNames _ _ hname)
    · exact List.mem_append_right _ (assignedNames_subset_bodyNames _ _ hname)
    · cases hname

/-- The names that a statement assigns are among those that it uses. -/
lemma targets_subset (statement : Phrase) : statement.targets ⊆ statement.usedNames := by
  intro name hname
  unfold targets at hname
  split at hname
  · rw [Option.mem_toList] at hname
    exact List.mem_append_left _ (targetName?_mem_identifiers hname)
  · obtain ⟨item, hitem, hname⟩ := List.mem_flatMap.mp hname
    exact List.mem_append_right _ (List.mem_flatMap.mpr ⟨item, hitem, itemTargets_subset item hname⟩)
  · cases hname

end Phrase

/-- Of elements with one output each, as many drive certain signals as such signals are driven. -/
lemma Element.countP_driven (p : String → Bool) {elements : List Element}
    (h : ∀ e ∈ elements, ∃ output, e.outputs = [output]) :
    elements.countP (fun e => e.outputs.any p) = (driven elements).countP p := by
  induction elements with
  | nil => rfl
  | cons e rest ih =>
    obtain ⟨⟨output, houtput⟩, hrest⟩ := List.forall_mem_cons.mp h
    have hdriven : driven (e :: rest) = output :: driven rest := by
      simp [driven, houtput]
    rw [hdriven, List.countP_cons, List.countP_cons, ih hrest, houtput]
    simp

namespace Design

variable {config : Config} {design : Design} {phrases : List Phrase} {spec : Specification}

/-- What a specification lists: the declared ports, the declared names, and behind them what is
added, which are the temporaries in the order of their creation and each rail in use once. The
temporaries have the first free numbers. -/
structure Layout (config : Config) (design : Design) (temporaries : List String)
    (spec : Specification) (added : List String) (rails : List Bool) : Prop where
  ports_eq : spec.ports = design.declaredPorts
  signals_eq : spec.signals = (design.declaredNames ++ added).map .singleBit
  added_perm : added.Perm (temporaries ++ rails.map config.railName)
  rails_nodup : rails.Nodup
  temporaries_sublist : temporaries.Sublist added
  numbered : ∃ bound,
    temporaries = (config.freeNumbers design.declaredNames bound).map config.temporaryName

/-- The specification of a design is laid out by the moves of its lowering. -/
lemma exists_layout (hdesign : ofPhrases phrases = .ok design)
    (hresult : (VhdlGates.synthesize config phrases).result = .ok spec) :
    ∃ s moves, design.ValidDeclarations config ∧ Declares {} design.declaredNames s ∧
      (VhdlGates.synthesize config phrases).temporaries = s.created config moves ∧
      design.Layout config (VhdlGates.synthesize config phrases).temporaries spec
        (s.added config moves) (s.newRails moves) := by
  obtain ⟨_, elements, t, hdesign', hrun, rfl⟩ := run_of_result_ok hresult
  obtain rfl := Except.ok.inj (hdesign.symm.trans hdesign')
  obtain ⟨choices, s, hdeclare, hbody⟩ := (run_lower_iff config).mp hrun
  obtain ⟨hvalid, hdeclares⟩ := declares_of_run config hdeclare
  obtain ⟨hports, hsignals⟩ := declare_listing config design {} s hdeclare
  obtain ⟨moves, rfl, -⟩ := hbody.drives Phrase.targets Phrase.LowersStatement.drives
  have htemporaries := temporaries_of_run hdesign hdeclare hrun
  refine ⟨s, moves, hvalid, hdeclares, htemporaries, ?_⟩
  rw [htemporaries]
  refine ⟨?_, ?_, NameTable.added_perm config s moves, s.nodup_newRails moves,
    NameTable.created_sublist_added config s moves, ?_⟩
  · exact (NameTable.ports_after config s moves).trans hports
  · refine (NameTable.signals_after config s moves).trans ?_
    rw [hsignals, List.map_append]
    rfl
  · exact NameTable.created_eq_freeNumbers hdeclares.names_eq hdeclares.nextTemporary_eq moves

/-- If all names are declared or those of rails, then there are as many temporaries as elements that
drive one. -/
lemma countP_temporaries (hapart : config.RailsApart) (hdesign : ofPhrases phrases = .ok design)
    (hnames : ∀ statement ∈ design.architecture.body, ∀ name ∈ statement.usedNames,
      design.Knows config name)
    (hresult : (VhdlGates.synthesize config phrases).result = .ok spec) :
    spec.elements.countP (fun e =>
        e.outputs.any (VhdlGates.synthesize config phrases).temporaries.contains) =
      (VhdlGates.synthesize config phrases).temporaries.length := by
  obtain ⟨s, moves, -, hdeclares, htemporaries, -⟩ := exists_layout hdesign hresult
  have hone : ∀ e ∈ spec.elements, ∃ output, e.outputs = [output] := by
    obtain ⟨_, elements, t, -, hrun, rfl⟩ := run_of_result_ok hresult
    exact fun e he => (wellFormed_of_run_lower hrun e he).one_output
  rw [Element.countP_driven _ hone, (driven_perm hdesign hresult).countP_eq, List.countP_append]
  have htargets : ∀ name ∈ design.architecture.body.flatMap Phrase.targets,
      ¬(VhdlGates.synthesize config phrases).temporaries.contains name = true := by
    intro name hname
    obtain ⟨statement, hstatement, hname⟩ := List.mem_flatMap.mp hname
    have hknown := hnames statement hstatement name (statement.targets_subset hname)
    rw [List.contains_iff_mem, htemporaries]
    intro hcreated
    refine NameTable.created_notMem_scope hapart hcreated ?_
    rw [scope_of_declares hdeclares]
    exact hknown
  rw [List.countP_eq_zero.mpr htargets, Nat.add_zero, List.countP_eq_length]
  exact fun name hname => List.contains_iff_mem.mpr hname

lemma Layout.count_railName {temporaries added : List String} {rails : List Bool}
    (h : design.Layout config temporaries spec added rails)
    (hvalid : design.ValidDeclarations config) (hrails : config.highRail ≠ config.lowRail)
    (hapart : ∀ value, config.railName value ∉ temporaries) (value : Bool) :
    (spec.signals.map (·.name)).count (config.railName value) ≤ 1 := by
  have hnames : spec.signals.map (·.name) = design.declaredNames ++ added := by
    rw [h.signals_eq, List.map_map]
    exact List.map_id _
  have hdeclared : config.railName value ∉ design.declaredNames :=
    fun hmem => hvalid.not_rail _ hmem value rfl
  have hdistinct : (rails.map config.railName).Nodup :=
    h.rails_nodup.map (Config.railName_injective hrails)
  rw [hnames, List.count_append, h.added_perm.count_eq, List.count_append,
    List.count_eq_zero_of_not_mem hdeclared, List.count_eq_zero_of_not_mem (hapart value),
    Nat.zero_add, Nat.zero_add]
  exact List.nodup_iff_count_le_one.mp hdistinct _

end Design

/-- The declarations of a design decide how its specification is laid out. If a name clashes,
synthesis fails at the first one that does. Otherwise, if it succeeds, the ports and the declared
names are listed first and in order, and then only temporaries and rails, all of them single bits. A
temporary number is left out only if its name is declared. Each rail is listed once at most. Where no
temporary can have the name of a rail, the temporaries are what is left without the rails, and in a
design that uses known names only, each of them has its element. -/
theorem synthesize_layout {config : Config} {phrases : List Phrase} {design : Design}
    (hdesign : Design.ofPhrases phrases = .ok design) :
    ((∃ i, config.Clashes design.declaredNames i) → ∃ i name,
      config.FirstClash design.declaredNames i name ∧
        (synthesize config phrases).result = .error (config.nameFault name)) ∧
    ∀ spec, (synthesize config phrases).result = .ok spec → ∃ added rails,
      design.Layout config (synthesize config phrases).temporaries spec added rails ∧
      (config.highRail ≠ config.lowRail → (rails.map config.railName).Nodup) ∧
      (config.RailsApart →
        (added.filter fun name => (config.rail? name).isNone) =
          (synthesize config phrases).temporaries ∧
        (config.highRail ≠ config.lowRail →
          ∀ value, (spec.signals.map (·.name)).count (config.railName value) ≤ 1) ∧
        ((∀ statement ∈ design.architecture.body, ∀ name ∈ statement.usedNames,
            design.Knows config name) →
          (synthesize config phrases).temporaries.length = spec.elements.countP fun e =>
            e.outputs.any (synthesize config phrases).temporaries.contains)) := by
  refine ⟨fun hclash => ?_, fun spec hresult => ?_⟩
  · obtain ⟨i, name, hfirst⟩ := Config.exists_firstClash hclash
    exact ⟨i, name, hfirst, Design.result_of_firstClash hdesign hfirst⟩
  · obtain ⟨s, moves, hvalid, -, htemporaries, hlayout⟩ := Design.exists_layout hdesign hresult
    refine ⟨_, _, hlayout, fun hrails => ?_, fun hapart => ⟨?_, fun hrails => ?_, fun hnames => ?_⟩⟩
    · exact hlayout.rails_nodup.map (Config.railName_injective hrails)
    · rw [htemporaries]
      exact NameTable.filter_added hapart s moves
    · refine hlayout.count_railName hvalid hrails fun value hmem => ?_
      rw [htemporaries] at hmem
      obtain ⟨index, hindex⟩ := NameTable.created_isTemporary hmem
      exact hapart value index hindex
    · exact (Design.countP_temporaries hapart hdesign hnames hresult).symm

/-- A design that declares a port twice, and after it a signal with the name of a rail. -/
def repeatedPort : Design where
  entity := ⟨"E", [⟨["A", "B"], .input, "bit"⟩, ⟨["A"], .output, "bit"⟩], {}⟩
  architecture := ⟨"R", "E", [⟨["GND"], "bit"⟩], []⟩

/-- A design that declares the name of the second temporary, and uses a rail between the others. -/
def skippedNumber : Design where
  entity := ⟨"E", [⟨["A", "B"], .input, "bit"⟩, ⟨["Y"], .output, "bit"⟩], {}⟩
  architecture := ⟨"R", "E", [⟨["tmp_1"], "bit"⟩],
    [.binary (.identifier "tmp_1") (.assignment .toSignal)
        (.binary (.parenthesized (.binary (.identifier "A") (.logic .and) (.identifier "B") false))
          (.logic .or) (.literal (.bit true)) true) false,
      .binary (.identifier "Y") (.assignment .toSignal)
        (.binary (.unary (.logic .not) (.identifier "tmp_1") false) (.logic .and) (.identifier "B")
          true) false]⟩

theorem synthesize_layout_skipped :
    (∃ i name, Config.FirstClash {} repeatedPort.declaredNames i name ∧
      (synthesize {} repeatedPort.phrases).result = .error (Config.nameFault {} name)) ∧
    (synthesize {} repeatedPort.phrases).result = .error (.duplicateSignal "A") ∧
    ∃ spec added rails, (synthesize {} skippedNumber.phrases).result = .ok spec ∧
      spec.signals.map (·.name) = ["A", "B", "Y", "tmp_1", "tmp_0", "VCC", "tmp_2"] ∧
      skippedNumber.Layout {} ["tmp_0", "tmp_2"] spec added rails ∧
      (added.filter fun name => (Config.rail? {} name).isNone) = ["tmp_0", "tmp_2"] ∧
      (∀ value, (spec.signals.map (·.name)).count (Config.railName {} value) ≤ 1) ∧
      (spec.elements.countP fun e => e.outputs.any ["tmp_0", "tmp_2"].contains) = 2 := by
  have hrepeated : Design.ofPhrases repeatedPort.phrases = .ok repeatedPort := rfl
  have hskipped : Design.ofPhrases skippedNumber.phrases = .ok skippedNumber := rfl
  have hclash : Config.Clashes {} repeatedPort.declaredNames 2 := ⟨"A", rfl, .inr (by decide)⟩
  have hfails : (synthesize {} repeatedPort.phrases).result = .error (.duplicateSignal "A") := by cbv
  have hresult : (synthesize {} skippedNumber.phrases).result = .ok
      ⟨1, "Synthesis Performer", [.singleBit "A" .input, .singleBit "B" .input,
        .singleBit "Y" .output], "R", [.singleBit "A", .singleBit "B", .singleBit "Y",
        .singleBit "tmp_1", .singleBit "tmp_0", .singleBit "VCC", .singleBit "tmp_2"],
        [⟨.combinational, .and, ["A", "B"], ["tmp_0"]⟩,
          ⟨.combinational, .or, ["tmp_0", "VCC"], ["tmp_1"]⟩,
          ⟨.combinational, .not, ["tmp_1"], ["tmp_2"]⟩,
          ⟨.combinational, .and, ["tmp_2", "B"], ["Y"]⟩]⟩ := by cbv
  have htemporaries : (synthesize {} skippedNumber.phrases).temporaries = ["tmp_0", "tmp_2"] := by
    cbv
  have hdeclared : ∀ statement ∈ skippedNumber.architecture.body, ∀ name ∈ statement.usedNames,
      name ∈ skippedNumber.declaredNames := by decide
  obtain ⟨added, rails, hlayout, -, hapart⟩ := (synthesize_layout hskipped).2 _ hresult
  rw [htemporaries] at hlayout hapart
  obtain ⟨hfilter, hcount, hlength⟩ := hapart Config.railsApart_default
  refine ⟨(synthesize_layout hrepeated).1 ⟨2, hclash⟩, hfails, _, added, rails, hresult, rfl, hlayout,
    hfilter, hcount (by decide), (hlength fun statement hstatement name hname => ?_).symm⟩
  exact .inl (hdeclared statement hstatement name hname)

end VhdlGates
