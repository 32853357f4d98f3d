import VhdlGates.Proofs.Design.Synthesis
import VhdlGates.Proofs.Lowering.Names

/-! Choices by a comparison of a signal with a bit. The multiplexer is selected by the signal alone,
whatever the bit is. So the choice is the right one for a comparison with one, and the opposite one
for a comparison with zero. -/
namespace VhdlGates

open Element (AllHold)
open NameTable (Resolves ResolvesAll)

/-- The target `y` has the value of `a` where the signal `x` carries the bit `c`, and that of `b`
elsewhere. -/
def Chooses (w : Valuation) (y x : String) (c : Bool) (a b : Phrase) : Prop :=
  some (w y) = if w x = c then a.value? w else b.value? w

/-- A choice by the signal alone is the choice by a bit only if the bit is one, or if there is
nothing to choose. -/
lemma Chooses.iff {w : Valuation} {y x : String} {a b : Phrase} (h : Chooses w y x true a b)
    (c : Bool) : Chooses w y x c a b ↔ c = true ∨ a.value? w = b.value? w := by
  cases c with
  | true => exact iff_of_true h (.inl rfl)
  | false =>
    unfold Chooses at h ⊢
    cases hx : w x <;> simp only [hx, Bool.false_eq_true, Bool.true_eq_false, if_true, if_false,
      false_or] at h ⊢ <;> rw [h]
    exact eq_comm

namespace Phrase

/-- The signal and the bit that a condition compares for equality. -/
def bitComparison? : Phrase → Option (String × Bool)
  | .parenthesized inner => inner.bitComparison?
  | .binary (.identifier name) (.relation .equal) (.literal (.bit value)) _ => some (name, value)
  | _ => none

lemma comparedSignal?_of_bitComparison? {condition : Phrase} {name : String} {value : Bool}
    (h : condition.bitComparison? = some (name, value)) :
    condition.comparedSignal? = some name := by
  fun_induction bitComparison? condition with
  | case1 inner ih => exact ih h
  | case2 =>
    cases h
    rfl
  | case3 => cases h

/-- A statement that gives `y` the value of `a` if `x = c`, and that of `b` otherwise. -/
inductive IsBitChoice (y x : String) (c : Bool) (a b : Phrase) : Phrase → Prop
  | whenElse {condition statement : Phrase} (hcondition : condition.bitComparison? = some (x, c))
    (h : statement.assignment? = some (y, .whenElse [⟨a, condition⟩] b)) :
    IsBitChoice y x c a b statement
  | ifElse {condition thenStatement elseStatement : Phrase}
    (hcondition : condition.bitComparison? = some (x, c))
    (hthen : thenStatement.assignment? = some (y, a))
    (helse : elseStatement.assignment? = some (y, b)) :
    IsBitChoice y x c a b (.ifElse condition [thenStatement] [elseStatement])

lemma exists_of_assignment? {statement value : Phrase} {target : String}
    (h : statement.assignment? = some (target, value)) : ∃ operator terminated,
      statement = .binary (.identifier target) (.assignment operator) value terminated := by
  unfold assignment? at h
  split at h <;> cases h
  exact ⟨_, _, rfl⟩

lemma ofBody_of_assignment? {statement value : Phrase} {target : String}
    (h : statement.assignment? = some (target, value)) :
    Assignments.ofBody [statement] = .ok [(target, value)] := by
  obtain ⟨operator, terminated, rfl⟩ := exists_of_assignment? h
  rfl

lemma targets_singleton (target : String) (value other : Phrase) :
    Assignments.targets [(target, value)] ++ (Assignments.targets [(target, other)]).filter
      (!(Assignments.targets [(target, value)]).contains ·) = [target] := by
  simp [Assignments.targets]

lemma lookup_singleton (target : String) (value : Phrase) :
    List.lookup target [(target, value)] = some value := by
  simp

variable {config : Config} {known : String → Prop} {t t' : NameTable}

lemma IsLogic.exists_lowersOperand (hapart : config.RailsApart) {p : Phrase} (hp : p.IsLogic known)
    (ht : ∀ name, known name → name ∈ t.scope config) :
    ∃ o s, LowersOperand config p t o s ∧ o.Carries config t s p := by
  obtain ⟨o, s, hrun, ho⟩ := (hp.lowersWell hapart).run_lowerOperand hapart ht
  exact ⟨o, s, run_lowerOperand_iff.mp hrun, ho⟩

/-- The signal of a lowered expression has its value. -/
lemma LowersOperand.carries (hapart : config.RailsApart) {p : Phrase} (hp : p.IsLogic known)
    (ht : ∀ name, known name → name ∈ t.scope config) {o : Operand}
    (h : LowersOperand config p t o t') : o.Carries config t t' p := by
  obtain ⟨o', s, hrun, ho⟩ := (hp.lowersWell hapart).run_lowerOperand hapart ht
  rw [run_lowerOperand_iff.mpr h] at hrun
  cases hrun
  exact ho

end Phrase

namespace NameTable

variable {config : Config} {t : NameTable}

lemma exists_resolves {name : String} (h : name ∈ t.scope config) :
    ∃ s, Resolves config t name s ∧ s.scope config = t.scope config := by
  obtain ⟨s, hrun, hscope⟩ := run_resolve_of_mem_scope config h
  exact ⟨s, (run_resolve_iff.mp hrun).2, hscope⟩

lemma exists_resolvesAll {names : List String} (h : ∀ name ∈ names, name ∈ t.scope config) :
    ∃ s, ResolvesAll config names t s ∧ s.scope config = t.scope config := by
  induction names generalizing t with
  | nil => exact ⟨t, .nil, rfl⟩
  | cons name rest ih =>
    obtain ⟨hname, hrest⟩ := List.forall_mem_cons.mp h
    obtain ⟨s, hs, hscope⟩ := exists_resolves hname
    obtain ⟨t', ht', hscope'⟩ := ih (hscope.symm ▸ hrest)
    exact ⟨t', .cons hs ht', hscope'.trans hscope⟩

end NameTable

namespace Phrase

variable {config : Config} {known : String → Prop} {t t' : NameTable} {y x : String} {c : Bool}
  {a b item : Phrase} {elements : List Element}

/-- A comparison with a bit selects by its signal. The bit is not looked at. -/
lemma lowersSelector_bitComparison_iff {condition : Phrase} {o : Operand}
    (hcondition : condition.bitComparison? = some (x, c)) :
    LowersSelector config condition t o t' ↔ o = ⟨[], x⟩ ∧ Resolves config t x t' := by
  have hcompared := comparedSignal?_of_bitComparison? hcondition
  constructor
  · intro h
    cases h with
    | compared hname hresolves =>
      obtain rfl := Option.some.inj (hname.symm.trans hcompared)
      exact ⟨rfl, hresolves⟩
    | operand hnone =>
      rw [hcompared] at hnone
      cases hnone
  · rintro ⟨rfl, hresolves⟩
    exact .compared hcompared hresolves

/-- Between two tables, the elements of both values are followed by a multiplexer that `x`
selects. -/
inductive LowersChoice (config : Config) (y x : String) (a b : Phrase) (t : NameTable) :
    List Element → NameTable → Prop
  | mk {s s₁ s₂ t' : NameTable} {u v : Operand} {kind : ElementKind}
    (hstart : NameTable.Reaches config t s) (hvalue : LowersOperand config a s u s₁)
    (hmiddle : NameTable.Reaches config s₁ s₂) (hfallback : LowersOperand config b s₂ v t') :
    LowersChoice config y x a b t
      (u.feeds ++ v.feeds ++ [(⟨kind, .mux, [u.signal, x, v.signal]⟩ : Gate).drive y]) t'

lemma LowersAssignment.lowersChoice {condition : Phrase}
    (hcondition : condition.bitComparison? = some (x, c))
    (h : LowersAssignment config (.identifier y) (.whenElse [⟨a, condition⟩] b) t elements t') :
    LowersChoice config y x a b t elements t' := by
  obtain ⟨⟨hy⟩, hvalue⟩ := h
  cases hvalue with
  | whenElse hbranches hfallback =>
    cases hbranches with
    | cons hvalue hselector hrest =>
      cases hrest
      obtain ⟨rfl, hx⟩ := (lowersSelector_bitComparison_iff hcondition).mp hselector
      simpa [Carrier.drive, firstOccurrences] using
        LowersChoice.mk hy.reaches hvalue hx.reaches hfallback

lemma LowersIf.lowersChoice {condition thenStatement elseStatement : Phrase} {selector : String}
    {muxes : List Element} (hcondition : condition.bitComparison? = some (x, c))
    (hthen : thenStatement.assignment? = some (y, a))
    (helse : elseStatement.assignment? = some (y, b))
    (h : LowersIf config condition [thenStatement] [elseStatement] t selector muxes elements t') :
    LowersChoice config y x a b t elements t' := by
  obtain ⟨hthenPath, helsePath, hselector, htargets⟩ := h
  obtain rfl := Except.ok.inj ((ofBody_of_assignment? hthen).symm.trans hthenPath)
  obtain rfl := Except.ok.inj ((ofBody_of_assignment? helse).symm.trans helsePath)
  obtain ⟨rfl, hx⟩ := (lowersSelector_bitComparison_iff hcondition).mp hselector
  rw [targets_singleton] at htargets
  cases htargets with
  | cons htarget hrest =>
    cases hrest
    obtain ⟨hy, hvalue, hfallback⟩ := htarget
    rw [lookup_singleton] at hvalue hfallback
    cases hvalue with
    | assigned hvalue =>
      cases hfallback with
      | assigned hfallback =>
        simpa [targetMux] using
          LowersChoice.mk (hx.reaches.trans hy.reaches) hvalue (.refl _) hfallback

/-- However it is written, a choice by a comparison becomes a multiplexer. -/
lemma LowersItem.lowersChoice {choices : List Choice} (hitem : IsBitChoice y x c a b item)
    (h : LowersItem config item t choices elements t') :
    LowersChoice config y x a b t elements t' := by
  cases hitem with
  | whenElse hcondition hstatement =>
    obtain ⟨operator, terminated, rfl⟩ := exists_of_assignment? hstatement
    cases h with
    | assignment _ _ hassignment => exact hassignment.lowersChoice hcondition
  | ifElse hcondition hthen helse =>
    cases h with
    | ifElse hif => exact hif.lowersChoice hcondition hthen helse

section Scope

variable (hapart : config.RailsApart) (ha : a.IsLogic known) (hb : b.IsLogic known)
include hapart ha hb

lemma LowersChoice.chooses (h : LowersChoice config y x a b t elements t')
    (ht : ∀ name, known name → name ∈ t.scope config) {w : Valuation}
    (hrails : config.RailsHold w) (hhold : AllHold w elements) : Chooses w y x true a b := by
  obtain ⟨hstart, hvalue, hmiddle, hfallback⟩ := h
  have hs := fun name hname => hstart.scope_subset (ht name hname)
  have hs₁ := fun name hname => hvalue.reaches.scope_subset (hs name hname)
  have hu := hvalue.carries hapart ha hs
  have hv := hfallback.carries hapart hb fun name hname => hmiddle.scope_subset (hs₁ name hname)
  simp only [Element.allHold_append, Element.allHold_drive] at hhold
  obtain ⟨⟨hfeedsu, hfeedsv⟩, hmux⟩ := hhold
  unfold Chooses
  rw [← hu.value_eq w hrails hfeedsu, ← hv.value_eq w hrails hfeedsv, ← hmux]
  cases hx : w x <;> simp [Operation.value?, hx]

lemma exists_lowersAssignment {condition : Phrase}
    (hcondition : condition.bitComparison? = some (x, c)) (hy : known y) (hx : known x)
    (ht : ∀ name, known name → name ∈ t.scope config) : ∃ elements t',
      LowersAssignment config (.identifier y) (.whenElse [⟨a, condition⟩] b) t elements t' := by
  obtain ⟨s, hresolves, hscope⟩ := NameTable.exists_resolves (ht y hy)
  rw [← hscope] at ht
  obtain ⟨u, s₁, hvalue, hu⟩ := ha.exists_lowersOperand hapart ht
  have hs₁ := fun name hname => hu.realizes.subset (ht name hname)
  obtain ⟨s₂, hselector, hscope₁⟩ := NameTable.exists_resolves (hs₁ x hx)
  rw [← hscope₁] at hs₁
  obtain ⟨v, t', hfallback, -⟩ := hb.exists_lowersOperand hapart hs₁
  have hcondition := (lowersSelector_bitComparison_iff hcondition).mpr ⟨rfl, hselector⟩
  exact ⟨_, t', .identifier hresolves, .whenElse (.cons hvalue hcondition .nil) hfallback⟩

lemma exists_lowersIf {condition thenStatement elseStatement : Phrase}
    (hcondition : condition.bitComparison? = some (x, c))
    (hthen : thenStatement.assignment? = some (y, a))
    (helse : elseStatement.assignment? = some (y, b)) (hy : known y) (hx : known x)
    (ht : ∀ name, known name → name ∈ t.scope config) : ∃ selector muxes elements t',
      LowersIf config condition [thenStatement] [elseStatement] t selector muxes elements t' := by
  obtain ⟨s, hselector, hscope⟩ := NameTable.exists_resolves (ht x hx)
  rw [← hscope] at ht
  obtain ⟨s₁, hresolves, hscope₁⟩ := NameTable.exists_resolves (ht y hy)
  rw [← hscope₁] at ht
  obtain ⟨u, s₂, hvalue, hu⟩ := ha.exists_lowersOperand hapart ht
  obtain ⟨v, t', hfallback, -⟩ := hb.exists_lowersOperand hapart
    fun name hname => hu.realizes.subset (ht name hname)
  have hthenPath : LowersPath config y (List.lookup y [(y, a)]) s₁ u s₂ := by
    rw [lookup_singleton]
    exact .assigned hvalue
  have helsePath : LowersPath config y (List.lookup y [(y, b)]) s₂ v t' := by
    rw [lookup_singleton]
    exact .assigned hfallback
  have htargets : LowersEach (LowersTarget config x [(y, a)] [(y, b)]) [y] s _ _ t' :=
    .cons (.mk hresolves hthenPath helsePath) .nil
  rw [← targets_singleton y a b] at htargets
  exact ⟨_, _, _, t', ofBody_of_assignment? hthen, ofBody_of_assignment? helse,
    (lowersSelector_bitComparison_iff hcondition).mpr ⟨rfl, hselector⟩, htargets⟩

lemma IsBitChoice.exists_lowersItem (hitem : IsBitChoice y x c a b item) (hy : known y)
    (hx : known x) (ht : ∀ name, known name → name ∈ t.scope config) :
    ∃ choices elements t', LowersItem config item t choices elements t' := by
  cases hitem with
  | whenElse hcondition hstatement =>
    obtain ⟨operator, terminated, rfl⟩ := exists_of_assignment? hstatement
    obtain ⟨elements, t', h⟩ := exists_lowersAssignment hapart ha hb hcondition hy hx ht
    exact ⟨[], elements, t', .assignment operator terminated h⟩
  | ifElse hcondition hthen helse =>
    obtain ⟨_, _, elements, t', h⟩ := exists_lowersIf hapart ha hb hcondition hthen helse hy hx ht
    exact ⟨_, elements, t', .ifElse h⟩

end Scope

end Phrase

open Phrase in
/-- A choice by a comparison of a signal with a bit is lowered, in an architecture and in a process.
Wherever its elements hold, the target has the value that the statement asks for exactly if the bit
is one or if both values agree. -/
theorem lowerStatement_bitChoice {config : Config} (hapart : config.RailsApart) {t : NameTable}
    {y x : String} (c : Bool) {a b : Phrase} (hy : y ∈ t.scope config) (hx : x ∈ t.scope config)
    (ha : a.IsLogic (· ∈ t.scope config)) (hb : b.IsLogic (· ∈ t.scope config)) :
    (∀ condition statement : Phrase, condition.bitComparison? = some (x, c) →
      statement.assignment? = some (y, .whenElse [⟨a, condition⟩] b) →
      ∃ elements t', (statement.lowerStatement config).run t = .ok elements t' ∧
        ∀ w, config.RailsHold w → AllHold w elements →
          (Chooses w y x c a b ↔ c = true ∨ a.value? w = b.value? w)) ∧
    ∀ item, IsBitChoice y x c a b item → ∀ sensitivity,
      ((∀ name ∈ sensitivity, name ∈ t.scope config) → ∃ elements t',
        ((Phrase.process sensitivity [item]).lowerStatement config).run t = .ok elements t') ∧
      ∀ body elements t', item ∈ body →
        ((Phrase.process sensitivity body).lowerStatement config).run t = .ok elements t' →
        ∀ w, config.RailsHold w → AllHold w elements →
          (Chooses w y x c a b ↔ c = true ∨ a.value? w = b.value? w) := by
  refine ⟨fun condition statement hcondition hstatement => ?_,
    fun item hitem sensitivity => ⟨fun hnames => ?_, fun body elements t' hmem hrun => ?_⟩⟩
  · obtain ⟨elements, t', h⟩ :=
      exists_lowersAssignment hapart ha hb hcondition hy hx fun _ hname => hname
    obtain ⟨operator, terminated, rfl⟩ := exists_of_assignment? hstatement
    refine ⟨elements, t', (run_lowerStatement_iff _).mpr ⟨[], .assignment _ _ h⟩, ?_⟩
    intro w hrails hhold
    have hchoice := h.lowersChoice hcondition
    exact (hchoice.chooses hapart ha hb (fun _ hname => hname) hrails hhold).iff c
  · obtain ⟨s, hs, hscope⟩ := NameTable.exists_resolvesAll hnames
    obtain ⟨choices, elements, t', h⟩ :=
      hitem.exists_lowersItem hapart ha hb hy hx fun name hname => hscope.symm ▸ hname
    exact ⟨_, t', (run_lowerStatement_iff _).mpr ⟨_, .process hs (.cons h .nil)⟩⟩
  · obtain ⟨choices, h⟩ := (run_lowerStatement_iff _).mp hrun
    cases h with
    | process hs hbody =>
      obtain ⟨s', _, block, _, hlowers, hreach, -, hblock⟩ :=
        hbody.exists_of_mem LowersItem.reaches hmem
      intro w hrails hhold
      have hchoice := hlowers.lowersChoice hitem
      have hscope := (hs.mem_scope.1.trans hreach).scope_subset
      exact (hchoice.chooses hapart ha hb (fun _ hname => hscope hname) hrails
        fun e he => hhold e (hblock he)).iff c

/-- `not (A and '1')`. -/
def nestedValue : Phrase :=
  .unary (.logic .not) (.parenthesized
    (.binary (.identifier "A") (.logic .and) (.literal (.bit true)) false)) true

/-- `if S = '1' then Y <= not (A and '1'); else Y <= B; end if;`. -/
def nestedChoice : Phrase :=
  .ifElse (.binary (.identifier "S") (.relation .equal) (.literal (.bit true)) false)
    [.binary (.identifier "Y") (.assignment .toSignal) nestedValue false]
    [.binary (.identifier "Y") (.assignment .toSignal) (.identifier "B") true]

theorem lowerStatement_bitChoice_nested : ∃ elements t',
    ((Phrase.process ["S"] [nestedChoice]).lowerStatement {}).run
        { names := ["S", "A", "B", "Y"] } = .ok elements t' ∧
      ∀ w, Config.RailsHold {} w → AllHold w elements →
        w "Y" = if w "S" = true then !(w "A") else w "B" := by
  have hknown : ∀ name ∈ ["S", "A", "B", "Y"],
      name ∈ NameTable.scope {} { names := ["S", "A", "B", "Y"] } := fun name hname => .inl hname
  have hvalue : nestedValue.IsLogic (· ∈ NameTable.scope {} { names := ["S", "A", "B", "Y"] }) :=
    .negation true (.parenthesized (.binary false rfl (.identifier (hknown "A" (by decide)))
      (.bit true)))
  have h := lowerStatement_bitChoice Config.railsApart_default true (hknown "Y" (by decide))
    (hknown "S" (by decide)) hvalue (.identifier (hknown "B" (by decide)))
  obtain ⟨hlowers, hchooses⟩ := h.2 nestedChoice (.ifElse rfl rfl rfl) ["S"]
  obtain ⟨elements, t', hrun⟩ := hlowers fun name hname => hknown name (by simp_all)
  refine ⟨elements, t', hrun, fun w hrails hhold => ?_⟩
  have hw := (hchooses _ elements t' List.mem_cons_self hrun w hrails hhold).mpr (.inl rfl)
  simpa [Chooses, nestedValue, Phrase.value?, Logic.apply?, ← apply_ite some] using hw

/-- A design with the inputs `S`, `A` and `B`, the output `Y` and one statement. -/
def selecting (statement : Phrase) : Design where
  entity := ⟨"E", [⟨["S", "A", "B"], .input, "bit"⟩, ⟨["Y"], .output, "bit"⟩], {}⟩
  architecture := ⟨"R", "E", [], [statement]⟩

/-- `S = '0'`. -/
def isZero : Phrase := .binary (.identifier "S") (.relation .equal) (.literal (.bit false)) false

/-- `Y <= A when S = '0' else B;`. -/
def whenZero : Phrase :=
  .binary (.identifier "Y") (.assignment .toSignal)
    (.whenElse [⟨.identifier "A", isZero⟩] (.identifier "B")) true

/-- A process with `if S = '0' then Y <= A; else Y <= B; end if;`. -/
def ifZero : Phrase :=
  .process ["S", "A", "B"]
    [.ifElse isZero [.binary (.identifier "Y") (.assignment .toSignal) (.identifier "A") true]
      [.binary (.identifier "Y") (.assignment .toSignal) (.identifier "B") true]]

/-- However a choice by `S = '0'` is written, its circuit can hold with `A` not on `Y` although `S`
is zero. -/
theorem synthesize_inverts_comparison :
    ∃ spec spec', (synthesize {} (selecting whenZero).phrases).result = .ok spec ∧
      (synthesize {} (selecting ifZero).phrases).result = .ok spec' ∧
      spec.elements = spec'.elements ∧ ∃ w, Config.RailsHold {} w ∧ AllHold w spec.elements ∧
        ¬Chooses w "Y" "S" false (.identifier "A") (.identifier "B") := by
  -- Both statements come to the multiplexer that lets `A` through while `S` is one.
  have hwrong : ∃ w, Config.RailsHold {} w ∧
      AllHold w [⟨.connection, .mux, ["A", "S", "B"], ["Y"]⟩] ∧
      ¬Chooses w "Y" "S" false (.identifier "A") (.identifier "B") := by
    refine ⟨fun name => name = "VCC" ∨ name = "A", fun value => ?_, ?_, ?_⟩
    · cases value <;> rfl
    · simp [AllHold, Element.Holds, Operation.value?]
    · simp [Chooses, Phrase.value?]
  exact ⟨_, _, by rfl, by rfl, rfl, hwrong⟩

end VhdlGates
