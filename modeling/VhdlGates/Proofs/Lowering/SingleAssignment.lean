import VhdlGates.Proofs.Circuit.Wiring
import VhdlGates.Proofs.Design.Hygiene

/-! The temporaries of a circuit are in single-assignment form. Each is driven by one element and
read behind it, by one element at most; only the signal that an if statement selects by is read by
all of its multiplexers. -/
namespace VhdlGates

open Element (readers DrivenBeforeRead)
open NameTable (Resolves ResolvesAll)

namespace NameTable

variable {config : Config} {t t' : NameTable}

lemma Resolves.scope_eq {name : String} (h : Resolves config t name t') :
    t'.scope config = t.scope config := by
  cases h with
  | rail => exact scope_afterRail config t _
  | known => rfl

lemma ResolvesAll.scope_eq {names : List String} (h : ResolvesAll config names t t') :
    t'.scope config = t.scope config := by
  induction h with
  | nil => rfl
  | cons hname _ ih => exact ih.trans hname.scope_eq

/-- The names in `known` can be referred to, and so can the rails; no temporary gets their names. -/
structure Offers (config : Config) (known : Set String) (t : NameTable) : Prop where
  apart : config.RailsApart
  rail_mem : ∀ value, config.railName value ∈ known
  subset : known ⊆ t.scope config

lemma Offers.mono {known : Set String} (h : t.Offers config known)
    (hscope : t.scope config ⊆ t'.scope config) : t'.Offers config known :=
  ⟨h.apart, h.rail_mem, h.subset.trans hscope⟩

end NameTable

namespace Phrase

variable {config : Config} {known : Set String}

mutual

/-- The feeds of a lowered phrase supply the inputs of its root. -/
theorem Lowers.supplies {p : Phrase} {t t' : NameTable} {c : Carrier} :
    Lowers config p t c t' → t.Offers config known → (∀ name ∈ p.identifiers, name ∈ known) →
      Supplies known (t.scope config) (t'.scope config) c.feeds c.root.inputs
  | .identifier h, ht, hnames => by
    rw [h.scope_eq]
    exact .nil ht.subset hnames
  | .bit value t, ht, _ => by
    rw [NameTable.scope_afterRail]
    exact .nil ht.subset (List.forall_mem_singleton.mpr (ht.rail_mem value))
  | .parenthesized h, ht, hnames => h.supplies ht hnames
  | .binary _ _ hleft hright, ht, hnames => by
    obtain ⟨hnamesl, hnamesr⟩ := List.forall_mem_append.mp hnames
    have hl := hleft.supplies ht hnamesl
    have hr := hright.supplies (ht.mono hl.subset) hnamesr
    exact hl.append hr
  | .unary _ _ h, ht, hnames => h.supplies ht hnames
  | .whenElse hbranches hfallback, ht, hnames => by
    obtain ⟨hnamesb, hnamesf⟩ := List.forall_mem_append.mp hnames
    have hb := hbranches.supplies ht hnamesb
    have hf := hfallback.supplies (ht.mono hb.subset) hnamesf
    exact hb.append hf

theorem LowersOperand.supplies {p : Phrase} {t t' : NameTable} {o : Operand} :
    LowersOperand config p t o t' → t.Offers config known →
      (∀ name ∈ p.identifiers, name ∈ known) →
      Supplies known (t.scope config) (t'.scope config) o.feeds [o.signal]
  | .wire h, ht, hnames => h.supplies ht hnames
  | .gate h, ht, hnames => by
    rw [NameTable.scope_afterTemporary]
    exact (h.supplies ht hnames).define (NameTable.freshName_notMem_scope config ht.apart _)

theorem LowersSelector.supplies {p : Phrase} {t t' : NameTable} {o : Operand} :
    LowersSelector config p t o t' → t.Offers config known →
      (∀ name ∈ p.identifiers, name ∈ known) →
      Supplies known (t.scope config) (t'.scope config) o.feeds [o.signal]
  | .compared hcompared h, ht, hnames => by
    rw [h.scope_eq]
    rw [identifiers_of_comparedSignal? hcompared] at hnames
    exact .nil ht.subset hnames
  | .operand _ h, ht, hnames => h.supplies ht hnames

/-- The values of all branches are supplied, and so are their selectors. -/
theorem LowersBranches.supplies {branches : List (Branch Phrase)} {t t' : NameTable}
    {bs : List (Branch Operand)} : LowersBranches config branches t bs t' →
      t.Offers config known → (∀ name ∈ branchIdentifiers branches, name ∈ known) →
      Supplies known (t.scope config) (t'.scope config)
        (bs.flatMap fun b => b.value.feeds ++ b.condition.feeds)
        (bs.map (·.value.signal) ++ firstOccurrences (bs.map (·.condition.signal)))
  | .nil, ht, _ => .nil ht.subset (by simp [firstOccurrences])
  | .cons hvalue hcondition hrest, ht, hnames => by
    rw [branchIdentifiers] at hnames
    obtain ⟨hnames, hnamesr⟩ := List.forall_mem_append.mp hnames
    obtain ⟨hnamesv, hnamesc⟩ := List.forall_mem_append.mp hnames
    have hv := hvalue.supplies ht hnamesv
    have hc := hcondition.supplies (ht.mono hv.subset) hnamesc
    have hr := hrest.supplies ((ht.mono hv.subset).mono hc.subset) hnamesr
    refine ((hv.append hc).append hr).of_subset fun name hname => ?_
    simp only [List.map_cons, List.cons_append, List.nil_append, List.mem_cons, List.mem_append,
      mem_firstOccurrences] at hname ⊢
    exact hname.imp_right or_left_comm.mp

end

variable {t t' : NameTable} {elements : List Element}

lemma LowersTo.scope_eq {target : Phrase} {output : String}
    (h : LowersTo config target t output t') : t'.scope config = t.scope config := by
  induction h with
  | identifier h => exact h.scope_eq
  | parenthesized _ ih => exact ih

/-- An assignment puts the value of a gate on a known signal. -/
lemma LowersAssignment.supplies {target value : Phrase}
    (h : LowersAssignment config target value t elements t') (ht : t.Offers config known)
    (hnames : ∀ name ∈ target.identifiers ++ value.identifiers, name ∈ known) :
    Supplies known (t.scope config) (t'.scope config) elements [] := by
  obtain ⟨htarget, hvalue⟩ := h
  obtain ⟨hnamest, hnamesv⟩ := List.forall_mem_append.mp hnames
  rw [htarget.identifiers_mem.1] at hnamest
  have hv := hvalue.supplies (ht.mono htarget.scope_eq.superset) hnamesv
  rw [htarget.scope_eq] at hv
  rw [Carrier.drive_eq]
  exact hv.drive (List.forall_mem_singleton.mp hnamest)

lemma LowersPath.supplies {output : String} {value : Option Phrase} {o : Operand}
    (h : LowersPath config output value t o t') (ht : t.Offers config known)
    (houtput : output ∈ known) (hnames : ∀ name ∈ value.elim [] identifiers, name ∈ known) :
    Supplies known (t.scope config) (t'.scope config) o.feeds [o.signal] := by
  cases h with
  | assigned hvalue => exact hvalue.supplies ht hnames
  | kept => exact .nil ht.subset (List.forall_mem_singleton.mpr houtput)

end Phrase

/-- The elements for targets of an if statement, of which `muxes` are the multiplexers that read the
signal that it selects by. -/
structure WiresTargets (known : Set String) (selector : String) (scope scope' : Set String)
    (muxes elements : List Element) : Prop
    extends Wires (insert selector known) known scope scope' elements where
  read_once : ∀ name ∈ scope' \ scope, (readers name elements).length ≤ 1
  /-- A known signal may be read by other elements as well. -/
  readers_selector : selector ∉ known → readers selector elements = muxes

namespace WiresTargets

variable {known scope scope' scope'' : Set String} {selector : String}
  {muxes others elements block : List Element}

lemma nil (hknown : known ⊆ scope) (hselector : selector ∈ scope) :
    WiresTargets known selector scope scope [] [] where
  toWires := .nil (Set.insert_subset hselector hknown) hknown
  read_once _ _ := by simp
  readers_selector _ := rfl

lemma append (h : WiresTargets known selector scope scope' muxes elements)
    (h' : WiresTargets known selector scope' scope'' others block) :
    WiresTargets known selector scope scope'' (muxes ++ others) (elements ++ block) where
  toWires := h.toWires.append h'.toWires Set.subset_union_left
  read_once := h.forall_readers_append (P := fun _ reading => reading.length ≤ 1) h'.toWires
    h.readable_subset h.read_once h'.read_once
  readers_selector hselector := by
    rw [Element.readers_append, h.readers_selector hselector, h'.readers_selector hselector]

end WiresTargets

/-- A multiplexer reads the values of both paths, besides the signal that selects between them. -/
lemma Supplies.target {known scope scope' : Set String} {feeds : List Element}
    {a b selector : String} (h : Supplies known scope scope' feeds [a, b])
    (hselector : selector ∈ scope) {mux : Element} (hin : mux.inputs = [a, selector, b])
    (hout : ∀ output ∈ mux.outputs, output ∈ known) :
    WiresTargets known selector scope scope' [mux] (feeds ++ [mux]) := by
  have hreadable : insert selector known ⊆ scope := Set.insert_subset hselector h.readable_subset
  have hfeeds := h.toWires.mono (Set.subset_insert selector known) hreadable
  have hread : mux.inputs ⊆ selector :: [a, b] := by
    rw [hin]
    simp
  have hinputs : ∀ input ∈ mux.inputs, input ∈ insert selector known ∪ scope' \ scope := by
    intro input hinput
    rcases List.mem_cons.mp (hread hinput) with rfl | hsupplied
    · exact .inl (Set.mem_insert _ _)
    · exact (h.signals_mem input hsupplied).imp_left (Set.mem_insert_of_mem _)
  have hmux : Wires (insert selector known ∪ scope' \ scope) known scope' scope' [mux] :=
    .drive hfeeds.readable_union_subset (h.readable_subset.trans h.subset) hinputs hout
  refine ⟨hfeeds.append hmux subset_rfl, h.read_once_append fun input hinput => ?_,
    fun hunknown => ?_⟩
  · -- The selector is no signal that the feeds add, so only the two values count.
    rcases List.mem_cons.mp (hread hinput) with rfl | hsupplied
    · exact .inl hselector
    · exact .inr hsupplied
  · rw [Element.readers_append, Element.readers_singleton (by simp [hin]),
      h.readers_eq_nil hunknown fun hnew => hnew.2 hselector, List.nil_append]

namespace Choice

/-- The elements that read a signal are those that some choices call for: the multiplexers of a
choice by this signal, and one element at most if there is no such choice. -/
def Explain (choices : List Choice) (name : String) (reading : List Element) : Prop :=
  (∀ choice ∈ choices, choice.selector = name → reading = choice.muxes) ∧
    ((∀ choice ∈ choices, choice.selector ≠ name) → reading.length ≤ 1)

lemma Explain.append_left {choices others : List Choice} {name : String} {reading : List Element}
    (h : Explain choices name reading) (hothers : ∀ choice ∈ others, choice.selector ≠ name) :
    Explain (choices ++ others) name reading := by
  refine ⟨List.forall_mem_append.mpr ⟨h.1, fun choice hchoice heq => ?_⟩, fun hne => ?_⟩
  · exact absurd heq (hothers choice hchoice)
  · exact h.2 (List.forall_mem_append.mp hne).1

lemma Explain.append_right {choices others : List Choice} {name : String} {reading : List Element}
    (h : Explain others name reading) (hchoices : ∀ choice ∈ choices, choice.selector ≠ name) :
    Explain (choices ++ others) name reading := by
  refine ⟨List.forall_mem_append.mpr ⟨fun choice hchoice heq => ?_, h.1⟩, fun hne => ?_⟩
  · exact absurd heq (hchoices choice hchoice)
  · exact h.2 (List.forall_mem_append.mp hne).2

end Choice

/-- The elements of statements, whose choices explain who reads the added signals. -/
structure WiresChoices (known scope scope' : Set String) (choices : List Choice)
    (elements : List Element) : Prop extends Wires known known scope scope' elements where
  selectors_mem : ∀ choice ∈ choices, choice.selector ∈ known ∪ scope' \ scope
  explained : ∀ name ∈ scope' \ scope, Choice.Explain choices name (readers name elements)

namespace WiresChoices

variable {known scope scope' scope'' : Set String} {choices others : List Choice}
  {elements block : List Element}

lemma of_supplies (h : Supplies known scope scope' elements []) :
    WiresChoices known scope scope' [] elements where
  toWires := h.toWires
  selectors_mem := by simp
  explained name hname := ⟨by simp, fun _ => h.read_once name hname⟩

lemma append (h : WiresChoices known scope scope' choices elements)
    (h' : WiresChoices known scope' scope'' others block) :
    WiresChoices known scope scope'' (choices ++ others) (elements ++ block) where
  toWires := h.toWires.append h'.toWires Set.subset_union_left
  selectors_mem := by
    refine List.forall_mem_append.mpr ⟨fun choice hchoice => ?_, fun choice hchoice => ?_⟩
    · exact h'.added_left (h.selectors_mem choice hchoice)
    · exact h.added_right (h'.selectors_mem choice hchoice)
  explained := by
    refine h.forall_readers_append (P := Choice.Explain (choices ++ others)) h'.toWires
      h.readable_subset (fun name hname => ?_) fun name hname => ?_
    · refine (h.explained name hname).append_left fun choice hchoice heq => ?_
      rcases h'.selectors_mem choice hchoice with hknown | hnew
      · exact hname.2 (heq ▸ h.readable_subset hknown)
      · exact hnew.2 (heq ▸ hname.1)
    · refine (h'.explained name hname).append_right fun choice hchoice heq => ?_
      exact hname.2 (heq ▸ h.readable_union_subset (h.selectors_mem choice hchoice))

/-- The elements of a condition, and behind them those of the targets. -/
lemma of_targets {statement : Phrase} {selector : String} {feeds muxes : List Element}
    (h : Supplies known scope scope' feeds [selector])
    (h' : WiresTargets known selector scope' scope'' muxes elements) :
    WiresChoices known scope scope'' [⟨statement, selector, muxes⟩] (feeds ++ elements) := by
  have hselector := h.signals_mem selector List.mem_cons_self
  have hread : insert selector known ⊆ known ∪ scope' \ scope :=
    Set.insert_subset hselector Set.subset_union_left
  refine ⟨h.toWires.append h'.toWires hread,
    List.forall_mem_singleton.mpr (h'.added_left hselector), fun name hname => ?_⟩
  have hunknown : name ∉ known := fun hknown => hname.2 (h.readable_subset hknown)
  by_cases hchosen : selector = name
  · subst hchosen
    have hunread := h.unread selector (hselector.resolve_left hunknown) List.mem_cons_self
    refine ⟨List.forall_mem_singleton.mpr fun _ => ?_, fun hne => ?_⟩
    · rw [Element.readers_append, hunread, h'.readers_selector hunknown, List.nil_append]
    · exact absurd rfl (hne _ List.mem_cons_self)
  · -- Any other signal of the condition is not read by the targets, nor the other way round.
    refine ⟨List.forall_mem_singleton.mpr fun heq => absurd heq hchosen, fun _ => ?_⟩
    by_cases hfirst : name ∈ scope'
    · have hunread : name ∉ insert selector known :=
        fun hmem => hmem.elim (fun heq => hchosen heq.symm) hunknown
      rw [h'.readers_append_of_mem hunread hfirst]
      exact h.read_once name ⟨hfirst, hname.2⟩
    · rw [h.readers_append_of_notMem hfirst]
      exact h'.read_once name ⟨hname.1, hfirst⟩

end WiresChoices

/-- The elements of items in a row are wired if those of each item are. -/
lemma LowersEach.wiresChoices {α : Type} {config : Config} {known : Set String}
    {R : α → NameTable → List Choice → List Element → NameTable → Prop} (names : α → List String)
    (hR : ∀ {a t choices elements t'}, R a t choices elements t' → t.Offers config known →
      (∀ name ∈ names a, name ∈ known) →
      WiresChoices known (t.scope config) (t'.scope config) choices elements)
    {items : List α} {t t' : NameTable} {choices : List Choice} {elements : List Element}
    (h : LowersEach R items t choices elements t') (ht : t.Offers config known)
    (hnames : ∀ a ∈ items, ∀ name ∈ names a, name ∈ known) :
    WiresChoices known (t.scope config) (t'.scope config) choices elements := by
  induction h with
  | nil => exact .of_supplies (.nil ht.subset (by simp))
  | cons ha _ ih =>
    obtain ⟨hfirst, hrest⟩ := List.forall_mem_cons.mp hnames
    have hwires := hR ha ht hfirst
    exact hwires.append (ih (ht.mono hwires.subset) hrest)

namespace Phrase

variable {config : Config} {known : Set String} {t t' : NameTable} {elements : List Element}

lemma LowersTarget.wiresTargets {selector target : String} {thenPath elsePath : Assignments}
    {muxes : List Element}
    (h : LowersTarget config selector thenPath elsePath target t muxes elements t')
    (ht : t.Offers config known) (hselector : selector ∈ t.scope config)
    (hnames : ∀ name ∈ target :: ((thenPath.lookup target).elim [] identifiers ++
      (elsePath.lookup target).elim [] identifiers), name ∈ known) :
    WiresTargets known selector (t.scope config) (t'.scope config) muxes elements := by
  obtain ⟨htarget, hthen, helse⟩ := h
  obtain ⟨hknown, hnames⟩ := List.forall_mem_cons.mp hnames
  obtain ⟨hnamest, hnamese⟩ := List.forall_mem_append.mp hnames
  have ha := hthen.supplies (ht.mono htarget.scope_eq.superset) hknown hnamest
  have hb := helse.supplies ((ht.mono htarget.scope_eq.superset).mono ha.subset) hknown hnamese
  rw [htarget.scope_eq] at ha
  exact (ha.append hb).target hselector rfl (List.forall_mem_singleton.mpr hknown)

lemma lowersTargets_wiresTargets {selector : String} {thenPath elsePath : Assignments}
    {targets : List String} {muxes : List Element}
    (h : LowersEach (LowersTarget config selector thenPath elsePath) targets t muxes elements t')
    (ht : t.Offers config known) (hselector : selector ∈ t.scope config)
    (hnames : ∀ target ∈ targets, ∀ name ∈ target ::
      ((thenPath.lookup target).elim [] identifiers ++ (elsePath.lookup target).elim [] identifiers),
      name ∈ known) :
    WiresTargets known selector (t.scope config) (t'.scope config) muxes elements := by
  induction h with
  | nil => exact .nil ht.subset hselector
  | cons htarget _ ih =>
    obtain ⟨hfirst, hrest⟩ := List.forall_mem_cons.mp hnames
    have hwires := htarget.wiresTargets ht hselector hfirst
    exact hwires.append (ih (ht.mono hwires.subset) (hwires.subset hselector) hrest)

lemma LowersIf.wiresChoices {condition : Phrase} {thenBody elseBody : List Phrase}
    {selector : String} {muxes : List Element} (statement : Phrase)
    (h : LowersIf config condition thenBody elseBody t selector muxes elements t')
    (ht : t.Offers config known)
    (hnames : ∀ name ∈ condition.identifiers ++ bodyNames thenBody elseBody, name ∈ known) :
    WiresChoices known (t.scope config) (t'.scope config) [⟨statement, selector, muxes⟩]
      elements := by
  obtain ⟨hthen, helse, hselector, htargets⟩ := h
  obtain ⟨hnamesc, hnamesb⟩ := List.forall_mem_append.mp hnames
  have hs := hselector.supplies ht hnamesc
  refine .of_targets hs (lowersTargets_wiresTargets htargets (ht.mono hs.subset)
    (hs.mem_scope List.mem_cons_self) fun target htarget name hname => ?_)
  rw [Assignments.targets_append_filter hthen helse] at htarget
  rw [Assignments.lookup_ofBody hthen, Assignments.lookup_ofBody helse] at hname
  exact hnamesb name (List.mem_flatMap.mpr ⟨target, htarget, hname⟩)

lemma LowersItem.wiresChoices {item : Phrase} {choices : List Choice}
    (h : LowersItem config item t choices elements t') (ht : t.Offers config known)
    (hnames : ∀ name ∈ item.itemNames, name ∈ known) :
    WiresChoices known (t.scope config) (t'.scope config) choices elements := by
  cases h with
  | ifThen hif => exact hif.wiresChoices _ ht hnames
  | ifElse hif => exact hif.wiresChoices _ ht hnames
  | assignment _ _ hassignment => exact .of_supplies (hassignment.supplies ht hnames)

/-- The elements of a statement are wired, and its if statements explain who reads what it adds. -/
theorem LowersStatement.wiresChoices {statement : Phrase} {choices : List Choice}
    (h : LowersStatement config statement t choices elements t') (ht : t.Offers config known)
    (hnames : ∀ name ∈ statement.usedNames, name ∈ known) :
    WiresChoices known (t.scope config) (t'.scope config) choices elements := by
  cases h with
  | assignment _ _ hassignment => exact .of_supplies (hassignment.supplies ht hnames)
  | binary hoperand =>
    exact .of_supplies ((hoperand.supplies ht hnames).of_subset (List.nil_subset _))
  | unary hoperand =>
    exact .of_supplies ((hoperand.supplies ht hnames).of_subset (List.nil_subset _))
  | process hresolves hbody =>
    obtain ⟨-, hnames⟩ := List.forall_mem_append.mp hnames
    have hs := ht.mono hresolves.scope_eq.superset
    rw [← hresolves.scope_eq]
    refine hbody.wiresChoices itemNames LowersItem.wiresChoices hs fun item hitem name hname => ?_
    exact hnames name (List.mem_flatMap.mpr ⟨item, hitem, hname⟩)

/-- Whether a phrase is an if statement. -/
def isIf : Phrase → Bool
  | .ifThen .. | .ifElse .. => true
  | _ => false

/-- The if statements in a statement of an architecture. -/
def ifStatements : Phrase → List Phrase
  | .process _ body => body.filter isIf
  | _ => []

/-- The names that the branches of an if statement assign, without repetition. -/
def branchTargets : Phrase → List String
  | .ifThen _ thenBody => assignedNames thenBody
  | .ifElse _ thenBody elseBody => assignedNames (thenBody ++ elseBody)
  | _ => []

lemma nodup_branchTargets (statement : Phrase) : statement.branchTargets.Nodup := by
  unfold branchTargets
  split
  · exact nodup_firstOccurrences _
  · exact nodup_firstOccurrences _
  · exact List.nodup_nil

end Phrase

/-- A choice has one multiplexer for each target of its statement, selected by its signal. -/
structure Choice.Covers (choice : Choice) : Prop where
  outputs_eq : choice.muxes.map (·.outputs) = choice.statement.branchTargets.map ([·])
  selected : ∀ mux ∈ choice.muxes,
    mux.operation = .mux ∧ ∃ a b, mux.inputs = [a, choice.selector, b]

namespace Phrase

variable {config : Config} {t t' : NameTable} {elements : List Element}

lemma LowersIf.covers {condition : Phrase} {thenBody elseBody : List Phrase} {selector : String}
    {muxes : List Element}
    (h : LowersIf config condition thenBody elseBody t selector muxes elements t') :
    muxes.map (·.outputs) = (assignedNames (thenBody ++ elseBody)).map ([·]) ∧
      ∀ mux ∈ muxes, mux.operation = .mux ∧ ∃ a b, mux.inputs = [a, selector, b] := by
  obtain ⟨hthen, helse, -, htargets⟩ := h
  rw [← Assignments.targets_append_filter hthen helse]
  refine ⟨?_, htargets.forall_traces fun h => ?_⟩
  · rw [htargets.map_traces (·.outputs) (fun target => [[target]]) fun h => ?_, List.map_eq_flatMap]
    cases h
    rfl
  · cases h
    exact List.forall_mem_singleton.mpr ⟨rfl, _, _, rfl⟩

lemma LowersItem.covers {item : Phrase} {choices : List Choice}
    (h : LowersItem config item t choices elements t') : ∀ choice ∈ choices, choice.Covers := by
  cases h with
  | ifThen hif =>
    obtain ⟨houtputs, hselected⟩ := hif.covers
    rw [List.append_nil] at houtputs
    exact List.forall_mem_singleton.mpr ⟨houtputs, hselected⟩
  | ifElse hif =>
    obtain ⟨houtputs, hselected⟩ := hif.covers
    exact List.forall_mem_singleton.mpr ⟨houtputs, hselected⟩
  | assignment => simp

lemma LowersStatement.covers {statement : Phrase} {choices : List Choice}
    (h : LowersStatement config statement t choices elements t') :
    ∀ choice ∈ choices, choice.Covers := by
  cases h with
  | process _ hbody => exact hbody.forall_traces LowersItem.covers
  | _ => simp

lemma LowersItem.map_statement {item : Phrase} {choices : List Choice}
    (h : LowersItem config item t choices elements t') :
    choices.map (·.statement) = (Option.guard isIf item).toList := by
  cases h <;> rfl

/-- There is a choice for each if statement, in their order. -/
lemma LowersStatement.map_statement {statement : Phrase} {choices : List Choice}
    (h : LowersStatement config statement t choices elements t') :
    choices.map (·.statement) = statement.ifStatements := by
  cases h with
  | process _ hbody =>
    rw [ifStatements, ← List.filterMap_eq_filter, List.filterMap_eq_flatMap_toList]
    exact hbody.map_traces _ (fun item => (Option.guard isIf item).toList) LowersItem.map_statement
  | _ => rfl

end Phrase

/-- Temporaries are in single-assignment form. In a design whose statements use only known names,
the temporaries are the listed signals that are not known. Each is driven by one element, before it
is read. An if statement that selects by a temporary reads it with its multiplexers, of which there
is one for each target, and nothing else reads it; any other temporary is read once at most. -/
theorem synthesize_singleAssignment {config : Config} (hapart : config.RailsApart)
    {phrases : List Phrase} {design : Design} (hdesign : Design.ofPhrases phrases = .ok design)
    (hnames : ∀ statement ∈ design.architecture.body, ∀ name ∈ statement.usedNames,
      design.Knows config name)
    {spec : Specification} (hresult : (synthesize config phrases).result = .ok spec) :
    ∃ choices t, design.Lowers config choices spec.elements t ∧
      choices.map (·.statement) = design.architecture.body.flatMap Phrase.ifStatements ∧
      (∀ choice ∈ choices, choice.Covers ∧ choice.statement.branchTargets.Nodup) ∧
      ∀ name, (Notice.temporary name ∈ (synthesize config phrases).notices ↔
          name ∈ spec.signals.map (·.name) ∧ ¬design.Knows config name) ∧
        (Notice.temporary name ∈ (synthesize config phrases).notices →
          DrivenBeforeRead name spec.elements ∧
            Choice.Explain choices name (readers name spec.elements)) := by
  obtain ⟨_, elements, t, hdesign', hrun, rfl⟩ := Design.run_of_result_ok hresult
  obtain rfl := Except.ok.inj (hdesign.symm.trans hdesign')
  obtain ⟨choices, s, hdeclare, hbody⟩ := (Design.run_lower_iff config).mp hrun
  have hscope : s.scope config = { name | design.Knows config name } :=
    Design.scope_of_declares (Design.declares_of_run config hdeclare).2
  have hoffers : s.Offers config { name | design.Knows config name } :=
    ⟨hapart, fun value => .inr ⟨value, rfl⟩, hscope.superset⟩
  have hwires :=
    hbody.wiresChoices Phrase.usedNames Phrase.LowersStatement.wiresChoices hoffers hnames
  refine ⟨choices, t, ⟨s, hdeclare, hbody⟩, ?_, fun choice hchoice => ?_, fun name => ?_⟩
  · exact hbody.map_traces _ _ Phrase.LowersStatement.map_statement
  · exact ⟨hbody.forall_traces Phrase.LowersStatement.covers choice hchoice,
      choice.statement.nodup_branchTargets⟩
  · rw [Design.temporary_mem_notices hdesign hrun]
    have hiff : Notice.temporary name ∈ t.notices ↔ _ :=
      Design.temporary_mem_notices_iff hapart hrun
    refine ⟨hiff, fun hnoted => ?_⟩
    obtain ⟨hlisted, hunknown⟩ := hiff.mp hnoted
    have hnew : name ∈ t.scope config \ s.scope config := by
      refine ⟨(Design.mentions_of_run_lower hrun).1.mem_scope hlisted, ?_⟩
      rw [hscope]
      exact hunknown
    exact ⟨hwires.driven name hnew, hwires.explained name hnew⟩

/-- `if A and B then Y <= not S; Z <= A; else Y <= B; end if;`. -/
def gatedChoice : Phrase :=
  .ifElse (.binary (.identifier "A") (.logic .and) (.identifier "B") false)
    [.binary (.identifier "Y") (.assignment .toSignal)
        (.unary (.logic .not) (.identifier "S") true) false,
      .binary (.identifier "Z") (.assignment .toSignal) (.identifier "A") true]
    [.binary (.identifier "Y") (.assignment .toSignal) (.identifier "B") true]

def gatedDesign : Design where
  entity := ⟨"E", [⟨["A", "B", "S"], .input, "bit"⟩, ⟨["Y", "Z"], .output, "bit"⟩], {}⟩
  architecture := ⟨"R", "E", [], [.process ["A", "B", "S"] [gatedChoice]]⟩

theorem synthesize_singleAssignment_gated :
    ∃ spec, (synthesize {} gatedDesign.phrases).result = .ok spec ∧
      DrivenBeforeRead "tmp_0" spec.elements ∧ DrivenBeforeRead "tmp_1" spec.elements ∧
      ∃ choice : Choice, choice.statement = gatedChoice ∧ choice.Covers ∧
        readers "tmp_0" spec.elements = [⟨.connection, .mux, ["tmp_1", "tmp_0", "B"], ["Y"]⟩,
          ⟨.sequential, .mux, ["A", "tmp_0", "Z"], ["Z"]⟩] ∧
        Choice.Explain [choice] "tmp_0" (readers "tmp_0" spec.elements) := by
  have hdesign : Design.ofPhrases gatedDesign.phrases = .ok gatedDesign := rfl
  have hdeclared : ∀ statement ∈ gatedDesign.architecture.body, ∀ name ∈ statement.usedNames,
      name ∈ gatedDesign.declaredNames := by decide
  have hresult : (synthesize {} gatedDesign.phrases).result = .ok
      ⟨1, "Synthesis Performer", [.singleBit "A" .input, .singleBit "B" .input,
        .singleBit "S" .input, .singleBit "Y" .output, .singleBit "Z" .output], "R",
        [.singleBit "A", .singleBit "B", .singleBit "S", .singleBit "Y", .singleBit "Z",
          .singleBit "tmp_0", .singleBit "tmp_1"],
        [⟨.combinational, .and, ["A", "B"], ["tmp_0"]⟩,
          ⟨.combinational, .not, ["S"], ["tmp_1"]⟩,
          ⟨.connection, .mux, ["tmp_1", "tmp_0", "B"], ["Y"]⟩,
          ⟨.sequential, .mux, ["A", "tmp_0", "Z"], ["Z"]⟩]⟩ := by cbv
  have hnotices : (synthesize {} gatedDesign.phrases).notices =
      [.temporary "tmp_0", .temporary "tmp_1", .synthesized "E" 5 7 4] := by cbv
  have hnames : ∀ statement ∈ gatedDesign.architecture.body, ∀ name ∈ statement.usedNames,
      gatedDesign.Knows {} name := fun statement hstatement name hname =>
    .inl (hdeclared statement hstatement name hname)
  obtain ⟨choices, t, -, hstatements, hcovers, htemporaries⟩ :=
    synthesize_singleAssignment Config.railsApart_default hdesign hnames hresult
  obtain ⟨choice, rfl, hchoice⟩ := List.map_eq_singleton_iff.mp hstatements
  obtain ⟨hdriven, hread⟩ := (htemporaries "tmp_0").2 (by simp [hnotices])
  refine ⟨_, hresult, hdriven, ((htemporaries "tmp_1").2 (by simp [hnotices])).1, choice, hchoice,
    (hcovers choice List.mem_cons_self).1, by decide, hread⟩

end VhdlGates
