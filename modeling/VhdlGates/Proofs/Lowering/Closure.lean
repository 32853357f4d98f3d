import VhdlGates.Design
import VhdlGates.Proofs.Lowering.Assignments
import VhdlGates.Proofs.NameTable.Steps

/-! Lowering emits closed circuits: every element refers only to signals that the name table
lists by the time it is emitted. So the final check of a specification never fails. -/
namespace VhdlGates

open NameTable (Reaches)

/-- All names that some elements refer to. -/
def Element.mentions (elements : List Element) : List String := elements.flatMap Element.names

def Carrier.mentions : Carrier → List String
  | wire signal => [signal]
  | gate feeds root => Element.mentions feeds ++ root.inputs

def Operand.mentions (o : Operand) : List String := Element.mentions o.feeds ++ [o.signal]

/-- The names in the values and the selectors of the branches of a choice. -/
def Operand.branchMentions (branches : List (Branch Operand)) : List String :=
  branches.flatMap fun b => b.value.mentions ++ b.condition.mentions

@[simp] lemma Element.mentions_nil : Element.mentions [] = [] := rfl

@[simp] lemma Element.mentions_append (elements others : List Element) :
    Element.mentions (elements ++ others) = Element.mentions elements ++ Element.mentions others :=
  List.flatMap_append

@[simp] lemma Element.mentions_drive (g : Gate) (output : String) :
    Element.mentions [g.drive output] = g.inputs ++ [output] := by
  simp [Element.mentions, Element.names, Gate.drive]

namespace Lowering

variable {α β : Type} {config : Config} {known : List String} {mentions : α → List String}
  {mentions' : β → List String}

/-- A computation that changes the table by steps only, and whose result mentions no other names
than those listed in the end, if those in `known` are listed at the start. -/
def Closed (config : Config) (known : List String) (mentions : α → List String)
    (m : Lowering α) : Prop :=
  ∀ t a t', m.run t = .ok a t' → Reaches config t t' ∧
    (t.Coherent config → known ⊆ t.signalNames → mentions a ⊆ t'.signalNames)

namespace Closed

lemma pure {a : α} (h : mentions a ⊆ known) : Closed config known mentions (Pure.pure a) := by
  intro t b t' hrun
  obtain ⟨rfl, rfl⟩ := run_pure_eq_ok.mp hrun
  exact ⟨Reaches.refl t, fun _ hknown => List.Subset.trans h hknown⟩

lemma throw (fault : Fault) : Closed config known mentions (MonadExcept.throw fault) := by
  intro t a t' hrun
  exact absurd hrun run_throw_ne_ok

/-- What the first part mentions is known to the second. -/
lemma bind {m : Lowering α} {f : α → Lowering β} (hm : Closed config known mentions m)
    (hf : ∀ a, Closed config (known ++ mentions a) mentions' (f a)) :
    Closed config known mentions' (m >>= f) := by
  intro t b t' hrun
  obtain ⟨a, s, hrun₁, hrun₂⟩ := run_bind_eq_ok.mp hrun
  obtain ⟨hreach₁, hfirst⟩ := hm t a s hrun₁
  obtain ⟨hreach₂, hsecond⟩ := hf a s b t' hrun₂
  refine ⟨hreach₁.trans hreach₂, fun ht hknown => ?_⟩
  refine hsecond (hreach₁.coherent ht) (List.append_subset.mpr ⟨?_, hfirst ht hknown⟩)
  exact List.Subset.trans hknown hreach₁.signalNames_subset

end Closed

end Lowering

open Lowering

section Statements

variable (config : Config) (known : List String)

lemma NameTable.rail_closed (value : Bool) :
    Closed config known (fun signal => [signal]) (NameTable.rail config value) := by
  intro t signal t' hrun
  rw [NameTable.run_rail, EStateM.Result.ok.injEq] at hrun
  obtain ⟨rfl, rfl⟩ := hrun
  refine ⟨.single (.rail value), fun ht _ => ?_⟩
  simpa using NameTable.rail_mem_signalNames_afterRail ht value

lemma NameTable.resolve_closed (name : String) :
    Closed config known (fun signal => [signal]) (NameTable.resolve config name) := by
  intro t signal t' hrun
  obtain ⟨hreach, hlisted⟩ := NameTable.resolve_reaches hrun
  exact ⟨hreach, fun ht _ => by simpa using hlisted ht⟩

lemma NameTable.temporary_closed :
    Closed config known (fun signal => [signal]) (NameTable.temporary config) := by
  intro t signal t' hrun
  rw [NameTable.run_temporary, EStateM.Result.ok.injEq] at hrun
  obtain ⟨rfl, rfl⟩ := hrun
  refine ⟨.single .temporary, fun _ _ => ?_⟩
  rw [NameTable.signalNames_afterTemporary]
  exact List.subset_append_right _ _

lemma Carrier.toOperand_closed {c : Carrier} (h : c.mentions ⊆ known) :
    Closed config known Operand.mentions (c.toOperand config) := by
  cases c with
  | wire signal => exact Closed.pure h
  | gate feeds root =>
    refine (NameTable.temporary_closed config known).bind fun signal => Closed.pure ?_
    obtain ⟨hfeeds, hroot⟩ := List.append_subset.mp h
    simp only [Operand.mentions, Element.mentions_append, Element.mentions_drive]
    grind

namespace Phrase

variable {config known}

lemma lowerOperand_closed_of {p : Phrase}
    (h : Closed config known Carrier.mentions (p.lower config .operand)) :
    Closed config known Operand.mentions (p.lowerOperand config) :=
  h.bind fun _ => Carrier.toOperand_closed config _ (List.subset_append_right _ _)

/-- A selector is closed if its condition is; a comparison needs no elements at all. -/
lemma lowerSelector_closed_of {condition : Phrase}
    (h : Closed config known Carrier.mentions (condition.lower config .operand)) :
    Closed config known Operand.mentions (condition.lowerSelector config) := by
  unfold lowerSelector
  cases condition.comparedSignal? with
  | some name =>
    refine (NameTable.resolve_closed config known name).bind fun signal => Closed.pure ?_
    exact List.subset_append_right _ _
  | none => exact lowerOperand_closed_of h

/-- A choice mentions nothing but what its branches and its last value mention. -/
lemma mux_mentions (branches : List (Branch Operand)) (fallback : Operand) :
    (Carrier.gate (branches.flatMap (fun b => b.value.feeds ++ b.condition.feeds) ++ fallback.feeds)
      ⟨.connection, .mux, branches.map (·.value.signal) ++
        firstOccurrences (branches.map (·.condition.signal)) ++ [fallback.signal]⟩).mentions ⊆
      Operand.branchMentions branches ++ fallback.mentions := by
  have hbranch {b : Branch Operand} {name : String} (hb : b ∈ branches)
      (h : name ∈ b.value.mentions ++ b.condition.mentions) :
      name ∈ Operand.branchMentions branches := List.mem_flatMap.mpr ⟨b, hb, h⟩
  intro name hname
  simp only [Carrier.mentions, Element.mentions_append, List.mem_append, List.mem_map,
    List.mem_singleton] at hname
  rw [List.mem_append]
  rcases hname with (hfeeds | hfeeds) | (⟨b, hb, rfl⟩ | hselector) | rfl
  · obtain ⟨e, he, hname⟩ := List.mem_flatMap.mp hfeeds
    obtain ⟨b, hb, hmem⟩ := List.mem_flatMap.mp he
    refine Or.inl (hbranch hb ?_)
    simp only [Operand.mentions, Element.mentions, List.mem_append, List.mem_flatMap] at hmem ⊢
    grind
  · exact Or.inr (List.mem_append_left _ hfeeds)
  · exact Or.inl (hbranch hb (by simp [Operand.mentions]))
  · obtain ⟨b, hb, rfl⟩ := List.mem_map.mp (mem_firstOccurrences.mp hselector)
    exact Or.inl (hbranch hb (by simp [Operand.mentions]))
  · exact Or.inr (by simp [Operand.mentions])

variable (config known)

mutual

/-- What carries the value of a phrase mentions only signals that are listed by then. -/
theorem lower_closed (known : List String) (role : Role) : ∀ p : Phrase,
    Closed config known Carrier.mentions (p.lower config role)
  | .identifier name => by
    rw [lower]
    refine (NameTable.resolve_closed config known name).bind fun signal => Closed.pure ?_
    exact List.subset_append_right _ _
  | .literal (.bit value) => by
    rw [lower]
    refine (NameTable.rail_closed config known value).bind fun signal => Closed.pure ?_
    exact List.subset_append_right _ _
  | .parenthesized inner => by
    rw [lower]
    exact lower_closed known role inner
  | .binary left (.logic operator) right _ => by
    rw [lower_binary]
    split_ifs
    · refine (lowerOperand_closed_of (lower_closed _ .operand left)).bind fun l => ?_
      refine (lowerOperand_closed_of (lower_closed _ .operand right)).bind fun r => Closed.pure ?_
      simp only [Carrier.mentions, Operand.mentions, Element.mentions_append]
      grind
    · exact Closed.throw _
  | .unary (.logic operator) operand _ => by
    rw [lower_unary]
    split_ifs
    · refine (lowerOperand_closed_of (lower_closed _ .operand operand)).bind fun o => Closed.pure ?_
      simp only [Carrier.mentions, Operand.mentions]
      grind
    · exact Closed.throw _
  | .whenElse branches fallback => by
    rw [lower_whenElse]
    refine (lowerBranches_closed _ branches).bind fun bs => ?_
    refine (lowerOperand_closed_of (lower_closed _ .operand fallback)).bind fun o => Closed.pure ?_
    exact List.Subset.trans (mux_mentions bs o) (by grind)
  | .literal (.numeral _) | .binary _ (.assignment _) _ _ | .binary _ (.shift _) _ _
  | .binary _ (.relation _) _ _ | .binary _ .concatenation _ _ | .unary (.shift _) _ _
  | .unary (.relation _) _ _ | .unary (.assignment _) _ _ | .unary .concatenation _ _
  | .ifThen .. | .ifElse .. | .process .. | .signal _ | .entity _ | .architecture ..
  | .libraryClause _ | .useClause .. => by
    simp only [lower]
    exact Closed.throw _

theorem lowerBranches_closed (known : List String) : ∀ branches : List (Branch Phrase),
    Closed config known Operand.branchMentions (lowerBranches config branches)
  | [] => by
    rw [lowerBranches]
    exact Closed.pure (List.nil_subset _)
  | ⟨value, condition⟩ :: rest => by
    rw [lowerBranches_cons]
    refine (lowerOperand_closed_of (lower_closed _ .operand value)).bind fun v => ?_
    refine (lowerSelector_closed_of (lower_closed _ .operand condition)).bind fun c => ?_
    refine (lowerBranches_closed _ rest).bind fun bs => Closed.pure ?_
    simp only [Operand.branchMentions, List.flatMap_cons]
    grind

end

lemma lowerOperand_closed (p : Phrase) :
    Closed config known Operand.mentions (p.lowerOperand config) :=
  lowerOperand_closed_of (lower_closed config known .operand p)

lemma assignmentTarget_closed : ∀ target : Phrase,
    Closed config known (fun signal => [signal]) (target.assignmentTarget config)
  | .identifier name => NameTable.resolve_closed config known name
  | .parenthesized inner => assignmentTarget_closed inner
  | .literal _ | .binary .. | .unary .. | .whenElse .. | .ifThen .. | .ifElse .. | .process ..
  | .signal _ | .entity _ | .architecture .. | .libraryClause _ | .useClause .. =>
    Closed.throw _

lemma lowerAssignment_closed (target value : Phrase) :
    Closed config known Element.mentions (target.lowerAssignment config value) := by
  refine (assignmentTarget_closed config known target).bind fun output => ?_
  refine (lower_closed config _ .value value).bind fun c => Closed.pure ?_
  cases c with
  | wire signal =>
    simp only [Carrier.drive, Element.mentions_drive, Carrier.mentions, Gate.pass]
    grind
  | gate feeds root =>
    simp only [Carrier.drive, Element.mentions_append, Element.mentions_drive, Carrier.mentions]
    grind

lemma lowerPath_closed {output : String} (h : output ∈ known) (value : Option Phrase) :
    Closed config known Operand.mentions (lowerPath config output value) := by
  cases value with
  | some value => exact lowerOperand_closed config known value
  | none => exact Closed.pure (by simpa [Operand.mentions] using h)

lemma lowerTarget_closed {selector : String} (h : selector ∈ known)
    (thenPath elsePath : Assignments) (target : String) :
    Closed config known Element.mentions
      (lowerTarget config selector thenPath elsePath target) := by
  refine (NameTable.resolve_closed config known target).bind fun output => ?_
  refine (lowerPath_closed config _ (by simp) _).bind fun thenValue => ?_
  refine (lowerPath_closed config _ (by simp) _).bind fun elseValue => Closed.pure ?_
  simp only [Element.mentions_append, Element.mentions_drive, Operand.mentions]
  grind

end Phrase

/-- The elements of a list of items are closed if those of every item are. -/
lemma lowerEach_closed {α : Type} {f : α → Lowering (List Element)} (items : List α)
    (hf : ∀ more a, Closed config (known ++ more) Element.mentions (f a)) :
    Closed config known Element.mentions (lowerEach f items) := by
  induction items generalizing known with
  | nil => exact Closed.pure (List.nil_subset _)
  | cons a rest ih =>
    rw [lowerEach]
    have hfirst : Closed config known Element.mentions (f a) := by simpa using hf [] a
    refine hfirst.bind fun elements => ?_
    have hrest : Closed config (known ++ Element.mentions elements) Element.mentions
        (lowerEach f rest) := ih _ fun more b => by simpa using hf (_ ++ more) b
    refine hrest.bind fun others => Closed.pure ?_
    rw [Element.mentions_append]
    grind

lemma Lowering.ofExcept_closed {α : Type} (x : Except Fault α) :
    Closed config known (fun _ => []) (MonadExcept.ofExcept x : Lowering α) := by
  cases x with
  | error fault => exact Closed.throw fault
  | ok a => exact Closed.pure (List.nil_subset _)

namespace Phrase

lemma lowerIf_closed (condition : Phrase) (thenBody elseBody : List Phrase) :
    Closed config known Element.mentions (lowerIf config condition thenBody elseBody) := by
  refine (Lowering.ofExcept_closed config known _).bind fun thenPath => ?_
  refine (Lowering.ofExcept_closed config _ _).bind fun elsePath => ?_
  refine (lowerSelector_closed_of (lower_closed config _ .operand condition)).bind fun s => ?_
  have heach := lowerEach_closed config
    ((known ++ []) ++ [] ++ s.mentions) (f := lowerTarget config s.signal thenPath elsePath)
    (thenPath.targets ++ elsePath.targets.filter (!thenPath.targets.contains ·))
    fun more target => lowerTarget_closed config _ (by simp [Operand.mentions]) _ _ target
  refine heach.bind fun elements => Closed.pure ?_
  simp only [Element.mentions_append, Operand.mentions]
  grind

lemma lowerItem_closed (item : Phrase) :
    Closed config known Element.mentions (lowerItem config item) := by
  unfold lowerItem
  split
  · exact lowerIf_closed config known _ _ _
  · exact lowerIf_closed config known _ _ _
  · exact lowerAssignment_closed config known _ _
  · exact Closed.throw _

lemma discard_resolve_closed (name : String) :
    Closed config known (fun _ => []) (discard (NameTable.resolve config name)) := by
  intro t u t' hrun
  have hbind : (NameTable.resolve config name >>= fun _ => pure ()).run t = .ok u t' := hrun
  obtain ⟨signal, s, hresolve, hpure⟩ := run_bind_eq_ok.mp hbind
  obtain ⟨-, rfl⟩ := run_pure_eq_ok.mp hpure
  exact ⟨(NameTable.resolve_reaches hresolve).1, fun _ _ => List.nil_subset _⟩

lemma sensitivity_closed (sensitivity : List String) :
    Closed config known (fun _ => [])
      (sensitivity.forM fun name => discard (NameTable.resolve config name)) := by
  induction sensitivity generalizing known with
  | nil => exact Closed.pure (List.nil_subset _)
  | cons name rest ih => exact (discard_resolve_closed config known name).bind fun _ => ih _

theorem lowerStatement_closed (statement : Phrase) :
    Closed config known Element.mentions (lowerStatement config statement) := by
  unfold lowerStatement
  split
  · exact lowerAssignment_closed config known _ _
  · refine (lowerOperand_closed config known _).bind fun o => Closed.pure ?_
    simp only [Operand.mentions]
    grind
  · refine (lowerOperand_closed config known _).bind fun o => Closed.pure ?_
    simp only [Operand.mentions]
    grind
  · exact (sensitivity_closed config known _).bind fun _ =>
      lowerEach_closed config _ _ fun more item => lowerItem_closed config _ item
  · exact Closed.throw _
  · exact Closed.throw _
  · exact Closed.throw _

end Phrase

end Statements

end VhdlGates
