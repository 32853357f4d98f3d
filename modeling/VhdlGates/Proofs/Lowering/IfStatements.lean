import VhdlGates.Proofs.Lowering.Denotation

/-! If statements whose branches assign Boolean expressions. There is one multiplexer for each
assigned name, in the order of the first assignments, and all of them have the same selector, which
has the value of the condition. The values of the two branches are those of their last assignments;
a branch without one keeps the name as it is. -/
namespace VhdlGates

open NameTable (Reaches)

namespace Phrase

/-- An assignment of a Boolean expression over known names to a known name. -/
inductive IsLogicAssignment (known : String → Prop) (statement : Phrase) : Prop
  | mk {target : String} {value : Phrase} (h : statement.assignment? = some (target, value))
    (htarget : known target) (hvalue : value.IsLogic known)

/-- What a branch gives to a target: a signal with the value that it assigns, or the target. -/
def PathDenotes (config : Config) (t : NameTable) (elements : List Element) (target : String) :
    Option Phrase → String → Prop
  | some value, name => Denotes config t elements value.value? name
  | none, name => name = target

/-- The multiplexer of a target between the last values that the two branches assign to it. If one
of them assigns none, the multiplexer is sequential. -/
inductive IsTargetMux (config : Config) (t : NameTable) (elements : List Element)
    (selector : String) (thenBody elseBody : List Phrase) (target : String) : Element → Prop
  | mk {p q : String} (hp : PathDenotes config t elements target (lastValue? thenBody target) p)
    (hq : PathDenotes config t elements target (lastValue? elseBody target) q) :
    IsTargetMux config t elements selector thenBody elseBody target
      ⟨if target ∈ assignedNames thenBody ∧ target ∈ assignedNames elseBody then .connection
        else .sequential, .mux, [p, selector, q], [target]⟩

section Bodies

variable {body : List Phrase} {target : String} {value : Phrase} {known : String → Prop}

lemma mem_assignedNames : target ∈ assignedNames body ↔
    ∃ value, ∃ statement ∈ body, statement.assignment? = some (target, value) := by
  simp [assignedNames]

lemma isNone_lastValue? : (lastValue? body target).isNone ↔ target ∉ assignedNames body := by
  rw [Option.isNone_iff_eq_none, lastValue?, List.lookup_eq_none_iff, assignedNames,
    mem_firstOccurrences]
  simp only [List.mem_reverse, List.mem_map, bne_iff_ne, not_exists, not_and]
  exact forall₂_congr fun assignment _ => ne_comm

lemma exists_of_lastValue? (h : lastValue? body target = some value) :
    ∃ statement ∈ body, statement.assignment? = some (target, value) := by
  obtain ⟨before, behind, heq, -⟩ := List.lookup_eq_some_iff.mp h
  have hmem : (target, value) ∈ body.filterMap assignment? := by
    rw [← List.mem_reverse, heq]
    simp
  exact List.mem_filterMap.mp hmem

variable (hbody : ∀ statement ∈ body, IsLogicAssignment known statement)
include hbody

lemma known_of_mem_assignedNames (h : target ∈ assignedNames body) : known target := by
  obtain ⟨value, statement, hmem, hassignment⟩ := mem_assignedNames.mp h
  obtain ⟨hassignment', htarget, -⟩ := hbody statement hmem
  rw [hassignment'] at hassignment
  cases hassignment
  exact htarget

lemma isLogic_of_lastValue? (h : lastValue? body target = some value) : value.IsLogic known := by
  obtain ⟨statement, hmem, hassignment⟩ := exists_of_lastValue? h
  obtain ⟨hassignment', -, hvalue⟩ := hbody statement hmem
  rw [hassignment'] at hassignment
  cases hassignment
  exact hvalue

end Bodies

section Existence

variable {config : Config} {s : NameTable} {target : String}

lemma exists_lowersPath (target : String) {value : Option Phrase}
    (h : ∀ v ∈ value, ∃ o s', LowersOperand config v s o s') :
    ∃ o s', LowersPath config target value s o s' := by
  cases value with
  | none => exact ⟨_, s, .kept⟩
  | some v =>
    obtain ⟨o, s', h⟩ := h v rfl
    exact ⟨o, s', .assigned h⟩

/-- A target in scope has its multiplexer if the values of both paths can be lowered. -/
lemma exists_lowersTarget (selector : String) {thenPath elsePath : Assignments}
    (htarget : target ∈ s.scope config)
    (hthen : ∀ v ∈ thenPath.lookup target, ∀ u, Reaches config s u →
      ∃ o s', LowersOperand config v u o s')
    (helse : ∀ v ∈ elsePath.lookup target, ∀ u, Reaches config s u →
      ∃ o s', LowersOperand config v u o s') :
    ∃ muxes block s', LowersTarget config selector thenPath elsePath target s muxes block s' := by
  obtain ⟨s₁, hresolves, -⟩ := NameTable.exists_resolves htarget
  obtain ⟨a, s₂, ha⟩ := exists_lowersPath target fun v hv => hthen v hv s₁ hresolves.reaches
  have hreach := hresolves.reaches.trans ha.reaches
  obtain ⟨b, s', hb⟩ := exists_lowersPath target fun v hv => helse v hv s₂ hreach
  exact ⟨_, _, s', hresolves, ha, hb⟩

end Existence

section Paths

variable {config : Config} {t s s' : NameTable} {elements : List Element} {target : String}
  {value : Option Phrase} {o : Operand}

variable (hapart : config.RailsApart) (hreach : Reaches config t s)
  (hvalue : ∀ v ∈ value, v.IsLogic (· ∈ t.scope config))
include hapart hreach hvalue

lemma LowersPath.isFeed (h : LowersPath config target value s o s') :
    ∀ e ∈ o.feeds, e.IsFeed (t.scope config) := by
  cases h with
  | assigned h => exact h.isFeed hapart hreach (hvalue _ rfl)
  | kept => simp

lemma LowersPath.denotes (h : LowersPath config target value s o s') (hsub : o.feeds ⊆ elements) :
    PathDenotes config t elements target value o.signal := by
  cases h with
  | assigned h => exact h.denotes hapart hreach (hvalue _ rfl) hsub
  | kept => exact rfl

end Paths

lemma targetMux_ofBody {thenBody elseBody : List Phrase} {thenPath elsePath : Assignments}
    (hthen : Assignments.ofBody thenBody = .ok thenPath)
    (helse : Assignments.ofBody elseBody = .ok elsePath) (selector target p q : String) :
    targetMux selector thenPath elsePath target p q =
      ⟨if target ∈ assignedNames thenBody ∧ target ∈ assignedNames elseBody then .connection
        else .sequential, .mux, [p, selector, q], [target]⟩ := by
  simp only [targetMux, Gate.drive, Assignments.lookup_ofBody hthen,
    Assignments.lookup_ofBody helse, Bool.or_eq_true, isNone_lastValue?, ← not_and_or, ite_not]

/-- The branches of an if statement as they are collected, with Boolean expressions for values. -/
structure CollectsLogic (known : String → Prop) (body : List Phrase) (path : Assignments) :
    Prop where
  ofBody_eq : Assignments.ofBody body = .ok path
  isLogic : ∀ target, ∀ value ∈ path.lookup target, value.IsLogic known

lemma exists_collectsLogic {body : List Phrase} {known : String → Prop}
    (hbody : ∀ statement ∈ body, IsLogicAssignment known statement) :
    ∃ path, CollectsLogic known body path := by
  have hassigns : ∀ statement ∈ body, ∃ assignment, statement.assignment? = some assignment := by
    intro statement hmem
    obtain ⟨hassignment, -, -⟩ := hbody statement hmem
    exact ⟨_, hassignment⟩
  obtain ⟨path, hpath⟩ := Assignments.exists_collect_iff.mpr hassigns
  refine ⟨path, hpath, fun target value hvalue => ?_⟩
  rw [Assignments.lookup_ofBody hpath] at hvalue
  exact isLogic_of_lastValue? hbody hvalue

section Targets

variable {config : Config} {t s s' : NameTable} {elements block muxes : List Element}
  {selector target : String} {thenBody elseBody : List Phrase} {thenPath elsePath : Assignments}

variable (hapart : config.RailsApart)
  (hthen : CollectsLogic (· ∈ t.scope config) thenBody thenPath)
  (helse : CollectsLogic (· ∈ t.scope config) elseBody elsePath)
include hapart hthen helse

lemma exists_lowersTargets (selector : String) {targets : List String}
    (hreach : Reaches config t s) (htargets : ∀ target ∈ targets, target ∈ t.scope config) :
    ∃ muxes block s',
      LowersEach (LowersTarget config selector thenPath elsePath) targets s muxes block s' := by
  refine LowersEach.exists_of_forall LowersTarget.reaches fun target htarget u hu => ?_
  have hu := hreach.trans hu
  refine exists_lowersTarget selector (hu.scope_subset (htargets target htarget))
    (fun v hv s' hs' => ?_) fun v hv s' hs' => ?_
  · exact (hthen.isLogic target v hv).exists_lowersOperand_after hapart (hu.trans hs')
  · exact (helse.isLogic target v hv).exists_lowersOperand_after hapart (hu.trans hs')

/-- The elements of a target are gates, and behind them its multiplexer. -/
lemma LowersTarget.exists_isTargetMux (hreach : Reaches config t s)
    (h : LowersTarget config selector thenPath elsePath target s muxes block s')
    (hsub : block ⊆ elements) : ∃ feeds mux, block = feeds ++ [mux] ∧
      (∀ e ∈ feeds, e.IsFeed (t.scope config)) ∧
      IsTargetMux config t elements selector thenBody elseBody target mux := by
  obtain ⟨hresolves, ha, hb⟩ := h
  obtain ⟨hfeeds, -⟩ := List.append_subset.mp hsub
  obtain ⟨hsuba, hsubb⟩ := List.append_subset.mp hfeeds
  have hreach := hreach.trans hresolves.reaches
  have hreach' := hreach.trans ha.reaches
  have hp := ha.denotes hapart hreach (hthen.isLogic target) hsuba
  have hq := hb.denotes hapart hreach' (helse.isLogic target) hsubb
  rw [Assignments.lookup_ofBody hthen.ofBody_eq] at hp
  rw [Assignments.lookup_ofBody helse.ofBody_eq] at hq
  refine ⟨_, _, rfl, List.forall_mem_append.mpr ⟨ha.isFeed hapart hreach (hthen.isLogic target),
    hb.isFeed hapart hreach' (helse.isLogic target)⟩, ?_⟩
  rw [targetMux_ofBody hthen.ofBody_eq helse.ofBody_eq]
  exact .mk hp hq

/-- Of the elements of all targets, the multiplexers are those of the targets, in their order. -/
lemma lowersTargets_isTargetMux {targets : List String} (hreach : Reaches config t s)
    (h : LowersEach (LowersTarget config selector thenPath elsePath) targets s muxes block s')
    (hsub : block ⊆ elements) :
    List.Forall₂ (IsTargetMux config t elements selector thenBody elseBody) targets
        (block.filter (·.operation = .mux)) ∧
      ∀ e ∈ block, e.operation ≠ .mux → e.IsFeed (t.scope config) := by
  induction h with
  | nil => exact ⟨.nil, by simp⟩
  | cons hfirst hrest ih =>
    obtain ⟨hsubfirst, hsubrest⟩ := List.append_subset.mp hsub
    obtain ⟨feeds, mux, rfl, hfeeds, hmux⟩ :=
      hfirst.exists_isTargetMux hapart hthen helse hreach hsubfirst
    obtain ⟨hmuxes, hothers⟩ := ih (hreach.trans hfirst.reaches) hsubrest
    have hoperation : mux.operation = .mux := by
      cases hmux
      rfl
    refine ⟨?_, ?_⟩
    · rw [List.filter_append, List.filter_append, Element.filter_mux_eq_nil hfeeds]
      simpa [hoperation] using ⟨hmux, hmuxes⟩
    · simp only [List.forall_mem_append, List.forall_mem_singleton]
      exact ⟨⟨fun e he _ => hfeeds e he, fun hne => absurd hoperation hne⟩, hothers⟩

end Targets

/-- The selector has the value of the condition. -/
lemma LowersSelector.denotes_truth? {config : Config} {t s s' : NameTable} {condition : Phrase}
    {o : Operand} {elements : List Element} (hapart : config.RailsApart)
    (hcondition : condition.IsLogic (· ∈ t.scope config) ∨
      ∃ x ∈ t.scope config, condition.Compares x (.bit true))
    (hreach : Reaches config t s) (h : LowersSelector config condition s o s')
    (hsub : o.feeds ⊆ elements) : Denotes config t elements condition.truth? o.signal := by
  intro w hrails hhold
  rcases hcondition with hlogic | ⟨x, -, hcompares⟩
  · rw [hlogic.truth?_eq]
    exact (h.lowersOperand hlogic).denotes hapart hreach hlogic hsub w hrails hhold
  · obtain rfl := h.eq_of_compares hcompares
    rw [hcompares.truth?_eq, beq_true]

end Phrase

open Phrase in
/-- An if statement over Boolean expressions is lowered. Its multiplexers are one for each assigned
name, in the order of the first assignments, and choose by a signal with the value of the condition
between the last values that the two branches assign; all other elements are gates for new
signals. -/
theorem lowerIf_targetMuxes {config : Config} (hapart : config.RailsApart) {t : NameTable}
    {condition : Phrase} {thenBody elseBody : List Phrase}
    (hcondition : condition.IsLogic (· ∈ t.scope config) ∨
      ∃ x ∈ t.scope config, condition.Compares x (.bit true))
    (hthen : ∀ statement ∈ thenBody, IsLogicAssignment (· ∈ t.scope config) statement)
    (helse : ∀ statement ∈ elseBody, IsLogicAssignment (· ∈ t.scope config) statement) :
    ∃ elements selector t', (lowerIf config condition thenBody elseBody).run t = .ok elements t' ∧
      Denotes config t elements condition.truth? selector ∧
      (assignedNames (thenBody ++ elseBody)).Nodup ∧
      List.Forall₂ (IsTargetMux config t elements selector thenBody elseBody)
        (assignedNames (thenBody ++ elseBody)) (elements.filter (·.operation = .mux)) ∧
      ∀ e ∈ elements, e.operation ≠ .mux → e.IsFeed (t.scope config) := by
  have hcondition' : condition.IsCondition (· ∈ t.scope config) :=
    hcondition.elim .logic fun ⟨_, hx, hcompares⟩ => .comparison hcompares hx
  have hscope : ∀ target ∈ assignedNames (thenBody ++ elseBody), target ∈ t.scope config :=
    fun _ => known_of_mem_assignedNames (List.forall_mem_append.mpr ⟨hthen, helse⟩)
  obtain ⟨thenPath, hthenPath⟩ := exists_collectsLogic hthen
  obtain ⟨elsePath, helsePath⟩ := exists_collectsLogic helse
  obtain ⟨o, s, hselector⟩ := hcondition'.exists_lowersSelector hapart (Reaches.refl t)
  obtain ⟨muxes, block, t', htargets⟩ :=
    exists_lowersTargets hapart hthenPath helsePath o.signal hselector.reaches hscope
  have hrun : (lowerIf config condition thenBody elseBody).run t = .ok (o.feeds ++ block) t' := by
    rw [← Assignments.targets_append_filter hthenPath.ofBody_eq helsePath.ofBody_eq] at htargets
    exact run_lowerIf_iff.mpr
      ⟨_, _, hthenPath.ofBody_eq, helsePath.ofBody_eq, hselector, htargets⟩
  obtain ⟨hmuxes, hothers⟩ := lowersTargets_isTargetMux hapart hthenPath helsePath
    hselector.reaches htargets (List.subset_append_right o.feeds block)
  have hfeeds := hselector.isFeed hapart (Reaches.refl t) hcondition'
  refine ⟨_, o.signal, t', hrun, ?_, nodup_firstOccurrences _, ?_, ?_⟩
  · exact hselector.denotes_truth? hapart hcondition (Reaches.refl t)
      (List.subset_append_left _ _)
  · rwa [List.filter_append, Element.filter_mux_eq_nil hfeeds, List.nil_append]
  · exact List.forall_mem_append.mpr ⟨fun e he _ => hfeeds e he, hothers⟩

/-- `Y <= A; Z <= A and B; Y <= not B;`. -/
def repeatedTarget : List Phrase :=
  [.binary (.identifier "Y") (.assignment .toSignal) (.identifier "A") true,
    .binary (.identifier "Z") (.assignment .toSignal)
      (.binary (.identifier "A") (.logic .and) (.identifier "B") true) false,
    .binary (.identifier "Y") (.assignment .toSignal)
      (.unary (.logic .not) (.identifier "B") true) false]

/-- `Y <= A;`. -/
def singleTarget : List Phrase :=
  [.binary (.identifier "Y") (.assignment .toSignal) (.identifier "A") true]

open Phrase in
theorem lowerIf_targetMuxes_repeated : ∃ elements selector t' p q p',
    (lowerIf {} (.parenthesized (.identifier "S")) repeatedTarget singleTarget).run
        { names := ["S", "A", "B", "Y", "Z"] } = .ok elements t' ∧
      elements.filter (·.operation = .mux) =
        [⟨.connection, .mux, [p, selector, q], ["Y"]⟩,
          ⟨.sequential, .mux, [p', selector, "Z"], ["Z"]⟩] ∧
      ∀ w, Config.RailsHold {} w →
        Element.HoldOutside (NameTable.scope {} { names := ["S", "A", "B", "Y", "Z"] }) w elements →
        w selector = w "S" ∧ w p = !w "B" ∧ w q = w "A" ∧ w p' = (w "A" && w "B") := by
  have hknown : ∀ name ∈ ["S", "A", "B", "Y", "Z"],
      name ∈ NameTable.scope {} { names := ["S", "A", "B", "Y", "Z"] } := fun name hname => .inl hname
  have hthen : ∀ statement ∈ repeatedTarget, IsLogicAssignment
      (· ∈ NameTable.scope {} { names := ["S", "A", "B", "Y", "Z"] }) statement := by
    refine List.forall_mem_cons.mpr ⟨⟨rfl, hknown "Y" (by decide), ?_⟩,
      List.forall_mem_cons.mpr ⟨⟨rfl, hknown "Z" (by decide), ?_⟩,
        List.forall_mem_singleton.mpr ⟨rfl, hknown "Y" (by decide), ?_⟩⟩⟩
    · exact .identifier (hknown "A" (by decide))
    · exact .binary true rfl (.identifier (hknown "A" (by decide)))
        (.identifier (hknown "B" (by decide)))
    · exact .negation true (.identifier (hknown "B" (by decide)))
  have helse : ∀ statement ∈ singleTarget, IsLogicAssignment
      (· ∈ NameTable.scope {} { names := ["S", "A", "B", "Y", "Z"] }) statement :=
    List.forall_mem_singleton.mpr
      ⟨rfl, hknown "Y" (by decide), .identifier (hknown "A" (by decide))⟩
  have hcondition : (Phrase.parenthesized (.identifier "S")).IsLogic
      (· ∈ NameTable.scope {} { names := ["S", "A", "B", "Y", "Z"] }) :=
    .parenthesized (.identifier (hknown "S" (by decide)))
  obtain ⟨elements, selector, t', hrun, hselector, -, hmuxes, -⟩ :=
    lowerIf_targetMuxes Config.railsApart_default (.inl hcondition) hthen helse
  have hnames : assignedNames (repeatedTarget ++ singleTarget) = ["Y", "Z"] := rfl
  rw [hnames] at hmuxes
  generalize hfilter : elements.filter (·.operation = .mux) = muxes at hmuxes
  obtain - | ⟨⟨hp, hq⟩, - | ⟨⟨hp', rfl⟩, - | -⟩⟩ := hmuxes
  refine ⟨elements, selector, t', _, _, _, hrun, hfilter, fun w hrails hhold => ?_⟩
  have hs := hselector w hrails hhold
  have hp := hp w hrails hhold
  have hq := hq w hrails hhold
  have hp' := hp' w hrails hhold
  simp only [truth?, Phrase.value?, Logic.apply?, Option.bind_eq_bind, Option.bind_some,
    Option.map_some, Option.some.injEq] at hs hp hq hp'
  exact ⟨hs.symm, hp.symm, hq.symm, hp'.symm⟩

end VhdlGates
