import VhdlGates.Proofs.Lowering.Comparison
import VhdlGates.Proofs.Lowering.Drivers
import VhdlGates.Proofs.Lowering.Shape

/-! What the signals of a lowered phrase stand for. The elements in front of a multiplexer are gates
that drive new signals. Wherever they hold, the signal of an expression has its value, and so has
the signal that a condition selects by. -/
namespace VhdlGates

open Element (AllHold)
open NameTable (Drives Reaches)

namespace Element

/-- The elements that drive no signal of the scope hold. -/
def HoldOutside (scope : Set String) (w : Valuation) (elements : List Element) : Prop :=
  ∀ e ∈ elements, (∀ name ∈ e.outputs, name ∉ scope) → e.Holds w

/-- A gate that drives one signal, which is not in the scope. -/
structure IsFeed (scope : Set String) (e : Element) : Prop extends e.WellFormed where
  kind_eq : e.kind = .combinational
  output_notMem : ∀ name ∈ e.outputs, name ∉ scope

variable {scope : Set String} {elements feeds : List Element}

lemma HoldOutside.allHold {w : Valuation} (h : HoldOutside scope w elements)
    (hfeeds : ∀ e ∈ feeds, e.IsFeed scope) (hsub : feeds ⊆ elements) : AllHold w feeds := by
  intro e he
  exact h e (hsub he) (hfeeds e he).output_notMem

lemma IsFeed.operation_ne {e : Element} (h : e.IsFeed scope) : e.operation ≠ .mux := by
  intro hmux
  obtain ⟨arity, harity⟩ := h.combinational_iff.mp h.kind_eq
  rw [hmux] at harity
  cases harity

lemma filter_mux_eq_nil (h : ∀ e ∈ feeds, e.IsFeed scope) :
    feeds.filter (·.operation = .mux) = [] := by
  simpa using fun e he => (h e he).operation_ne

end Element

/-- Wherever the rails and the elements that drive new signals hold, the signal has this value. -/
def Denotes (config : Config) (t : NameTable) (elements : List Element)
    (value : Valuation → Option Bool) (signal : String) : Prop :=
  ∀ w, config.RailsHold w → Element.HoldOutside (t.scope config) w elements →
    value w = some (w signal)

namespace Phrase

/-- A comparison of a signal with a literal for equality, in any number of parentheses. -/
inductive Compares (x : String) (literal : Literal) : Phrase → Prop
  | equal (terminated : Bool) :
    Compares x literal (.binary (.identifier x) (.relation .equal) (.literal literal) terminated)
  | parenthesized {inner : Phrase} (h : Compares x literal inner) :
    Compares x literal (.parenthesized inner)

/-- The value of a condition: that of a Boolean expression, or of a comparison of a signal with a
bit. -/
def truth? (condition : Phrase) (w : Valuation) : Option Bool :=
  match condition with
  | .parenthesized inner => inner.truth? w
  | .binary (.identifier x) (.relation .equal) (.literal (.bit value)) _ => some (w x == value)
  | other => other.value? w

/-- What the signal of a selector stands for. That of a comparison is the compared signal itself,
whatever it is compared with; that of any other condition has the value of the condition. -/
structure Selects (config : Config) (t : NameTable) (elements : List Element) (condition : Phrase)
    (signal : String) : Prop where
  compared : ∀ x literal, condition.Compares x literal → signal = x
  value : (∀ x literal, ¬condition.Compares x literal) →
    Denotes config t elements condition.value? signal

/-- A condition that a choice may be made by: a Boolean expression over known names, or a comparison
of a known name. -/
inductive IsCondition (known : String → Prop) (condition : Phrase) : Prop
  | logic (h : condition.IsLogic known)
  | comparison {x : String} {literal : Literal} (h : condition.Compares x literal) (hx : known x)

section Conditions

variable {condition : Phrase} {x : String} {literal : Literal} {known : String → Prop}

lemma Compares.comparedSignal?_eq (h : condition.Compares x literal) :
    condition.comparedSignal? = some x := by
  induction h with
  | equal => rfl
  | parenthesized _ ih => exact ih

lemma Compares.truth?_eq {value : Bool} (h : condition.Compares x (.bit value)) (w : Valuation) :
    condition.truth? w = some (w x == value) := by
  induction h with
  | equal => rfl
  | parenthesized _ ih => exact ih

lemma IsLogic.comparedSignal?_eq (h : condition.IsLogic known) :
    condition.comparedSignal? = none := by
  induction h with
  | parenthesized _ ih => exact ih
  | _ => simp [comparedSignal?]

lemma IsLogic.not_compares (h : condition.IsLogic known) : ¬condition.Compares x literal := by
  intro hcompares
  have hsome := hcompares.comparedSignal?_eq
  rw [h.comparedSignal?_eq] at hsome
  cases hsome

lemma IsLogic.truth?_eq (h : condition.IsLogic known) (w : Valuation) :
    condition.truth? w = condition.value? w := by
  induction h with
  | parenthesized _ ih => exact ih
  | _ => simp [truth?]

end Conditions

variable {config : Config} {t s s' : NameTable} {elements : List Element} {p : Phrase}
  {o : Operand}

/-- All elements of an expression are gates. -/
lemma IsLogic.kind_feeds {known : String → Prop} (hp : p.IsLogic known) :
    ∀ {s s' : NameTable} {o : Operand}, LowersOperand config p s o s' →
      ∀ e ∈ o.feeds, e.kind = .combinational := by
  induction hp with
  | identifier _ =>
    intro s s' o h
    cases h with
    | wire => simp
    | gate h => cases h
  | bit _ =>
    intro s s' o h
    cases h with
    | wire => simp
    | gate h => cases h
  | parenthesized _ ih =>
    intro s s' o h
    cases h with
    | wire h =>
      cases h with
      | parenthesized h => exact ih (.wire h)
    | gate h =>
      cases h with
      | parenthesized h => exact ih (.gate h)
  | binary _ _ _ _ ihleft ihright =>
    intro s s' o h
    cases h with
    | wire h => cases h
    | gate h =>
      cases h with
      | binary _ _ hleft hright =>
        refine List.forall_mem_append.mpr ⟨?_, List.forall_mem_singleton.mpr rfl⟩
        exact List.forall_mem_append.mpr ⟨ihleft hleft, ihright hright⟩
  | negation _ _ ih =>
    intro s s' o h
    cases h with
    | wire h => cases h
    | gate h =>
      cases h with
      | unary _ _ h =>
        exact List.forall_mem_append.mpr ⟨ih h, List.forall_mem_singleton.mpr rfl⟩

/-- What the elements drive is new, also to every table before. -/
lemma output_notMem_scope (hapart : config.RailsApart) (hreach : Reaches config t s)
    (h : Drives config [] elements s s') :
    ∀ e ∈ elements, ∀ name ∈ e.outputs, name ∉ t.scope config := by
  intro e he name hname hmem
  obtain ⟨moves, -, hperm⟩ := h
  rw [List.append_nil] at hperm
  have hcreated := hperm.mem_iff.mp (List.mem_flatMap.mpr ⟨e, he, hname⟩)
  exact NameTable.created_notMem_scope hapart hcreated (hreach.scope_subset hmem)

lemma LowersSelector.eq_of_compares {condition : Phrase} {x : String} {literal : Literal}
    (h : LowersSelector config condition s o s') (hcompares : condition.Compares x literal) :
    o = ⟨[], x⟩ := by
  have hcompared := hcompares.comparedSignal?_eq
  cases h with
  | compared hname _ =>
    obtain rfl := Option.some.inj (hname.symm.trans hcompared)
    rfl
  | operand hnone _ =>
    rw [hcompared] at hnone
    cases hnone

lemma LowersSelector.lowersOperand {condition : Phrase} {known : String → Prop}
    (h : LowersSelector config condition s o s') (hlogic : condition.IsLogic known) :
    LowersOperand config condition s o s' := by
  cases h with
  | compared hname _ =>
    rw [hlogic.comparedSignal?_eq] at hname
    cases hname
  | operand _ hoperand => exact hoperand

section Scope

variable (hapart : config.RailsApart) (hreach : Reaches config t s)
include hapart hreach

lemma LowersOperand.isFeed (hp : p.IsLogic (· ∈ t.scope config))
    (h : LowersOperand config p s o s') : ∀ e ∈ o.feeds, e.IsFeed (t.scope config) := by
  intro e he
  exact ⟨h.wellFormed e he, hp.kind_feeds h e he,
    output_notMem_scope hapart hreach h.drives e he⟩

/-- The signal of an expression has its value. -/
lemma LowersOperand.denotes (hp : p.IsLogic (· ∈ t.scope config))
    (h : LowersOperand config p s o s') (hsub : o.feeds ⊆ elements) :
    Denotes config t elements p.value? o.signal := by
  intro w hrails hhold
  have hcarries := h.carries hapart hp fun name hname => hreach.scope_subset hname
  have hfeeds := hhold.allHold (h.isFeed hapart hreach hp) hsub
  exact (hcarries.value_eq w hrails hfeeds).symm

lemma LowersSelector.isFeed {condition : Phrase} (hc : condition.IsCondition (· ∈ t.scope config))
    (h : LowersSelector config condition s o s') : ∀ e ∈ o.feeds, e.IsFeed (t.scope config) := by
  cases hc with
  | logic hlogic => exact (h.lowersOperand hlogic).isFeed hapart hreach hlogic
  | comparison hcompares =>
    obtain rfl := h.eq_of_compares hcompares
    simp

/-- The signal that a condition selects by stands for the condition. -/
lemma LowersSelector.selects {condition : Phrase}
    (hc : condition.IsCondition (· ∈ t.scope config)) (h : LowersSelector config condition s o s')
    (hsub : o.feeds ⊆ elements) : Selects config t elements condition o.signal where
  compared x literal hcompares := congrArg Operand.signal (h.eq_of_compares hcompares)
  value hnot := by
    cases hc with
    | logic hlogic => exact (h.lowersOperand hlogic).denotes hapart hreach hlogic hsub
    | comparison hcompares => exact absurd hcompares (hnot _ _)

lemma IsLogic.exists_lowersOperand_after (hp : p.IsLogic (· ∈ t.scope config)) :
    ∃ o s', LowersOperand config p s o s' := by
  obtain ⟨o, s', h, -⟩ := hp.exists_lowersOperand hapart fun _ hname => hreach.scope_subset hname
  exact ⟨o, s', h⟩

lemma IsCondition.exists_lowersSelector {condition : Phrase}
    (hc : condition.IsCondition (· ∈ t.scope config)) :
    ∃ o s', LowersSelector config condition s o s' := by
  cases hc with
  | logic hlogic =>
    obtain ⟨o, s', h⟩ := hlogic.exists_lowersOperand_after hapart hreach
    exact ⟨o, s', .operand hlogic.comparedSignal?_eq h⟩
  | comparison hcompares hx =>
    obtain ⟨s', h, -⟩ := NameTable.exists_resolves (hreach.scope_subset hx)
    exact ⟨_, s', .compared hcompares.comparedSignal?_eq h⟩

end Scope

end Phrase

end VhdlGates
