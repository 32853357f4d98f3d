import Mathlib.Data.List.Forall2
import VhdlGates.Proofs.Lowering.Comparison

/-! Choices between signals, and the multiplexers that they become. A multiplexer lists each of its
selectors once, and does not say which branch a selector belongs to. So it determines the choice
only together with the branches at which a new selector comes in. -/
namespace VhdlGates

/-- For each name of a list whether it is new, that is neither seen before nor earlier in the
list. -/
def newNames (seen : List String) : List String → List Bool
  | [] => []
  | name :: rest => (!seen.contains name) :: newNames (name :: seen) rest

/-- The members of a list that are marked. -/
def marked {α : Type} : List Bool → List α → List α
  | true :: marks, a :: rest => a :: marked marks rest
  | false :: marks, _ :: rest => marked marks rest
  | [], _ => []
  | _ :: _, [] => []

lemma length_newNames (seen names : List String) : (newNames seen names).length = names.length := by
  induction names generalizing seen with
  | nil => rfl
  | cons name rest ih => rw [newNames, List.length_cons, ih, List.length_cons]

lemma marked_map {α β : Type} (f : α → β) (marks : List Bool) (l : List α) :
    marked marks (l.map f) = (marked marks l).map f := by
  fun_induction marked marks l with
  | case1 marks a rest ih => rw [List.map_cons, marked, ih, List.map_cons]
  | case2 marks a rest ih => rw [List.map_cons, marked, ih]
  | case3 => rw [marked, List.map_nil]
  | case4 => simp only [List.map_nil, marked]

/-- The new names of a list are the first occurrences in it. -/
lemma marked_newNames (seen names : List String) :
    marked (newNames seen names) names = (firstOccurrences names).filter (!seen.contains ·) := by
  induction names generalizing seen with
  | nil => rfl
  | cons name rest ih =>
    have hfilter : (firstOccurrences rest).filter (!(name :: seen).contains ·) =
        ((firstOccurrences rest).filter (· != name)).filter (!seen.contains ·) := by
      rw [List.filter_filter]
      refine List.filter_congr fun other _ => ?_
      by_cases h : other = name <;> simp [h]
    rw [newNames, firstOccurrences, List.filter_cons]
    cases hseen : seen.contains name with
    | true => simp only [Bool.not_true, marked, ih, hfilter, Bool.false_eq_true, if_false]
    | false => simp only [Bool.not_false, marked, ih, hfilter, if_true]

/-- A choice between signals: the value of the first branch whose condition carries one, or the
fallback. -/
structure Chain where
  branches : List (Branch String)
  fallback : String
  deriving DecidableEq, Repr

namespace Chain

def values (c : Chain) : List String := c.branches.map (·.value)

def conditions (c : Chain) : List String := c.branches.map (·.condition)

def names (c : Chain) : List String := c.values ++ c.conditions ++ [c.fallback]

/-- The bit that a choice yields. -/
def value (w : Valuation) (c : Chain) : Bool :=
  ((c.branches.find? fun b => w b.condition).elim (w c.fallback) fun b => w b.value)

/-- For each branch whether its condition is tested for the first time. -/
def newConditions (c : Chain) : List Bool := newNames [] c.conditions

/-- The multiplexer of a choice: its inputs are the values, each condition once, and the
fallback. -/
def mux (y : String) (c : Chain) : Element :=
  ⟨.connection, .mux, c.values ++ firstOccurrences c.conditions ++ [c.fallback], [y]⟩

/-- The branches that can be taken. The condition of any other branch has been tested before. -/
def live (c : Chain) : List (Branch String) := marked c.newConditions c.branches

lemma live_eq (c : Chain) : c.live =
    List.zipWith Branch.mk (marked c.newConditions c.values) (firstOccurrences c.conditions) := by
  have hconditions : firstOccurrences c.conditions = marked c.newConditions c.conditions := by
    rw [newConditions, marked_newNames]
    simp
  rw [hconditions, values, conditions, marked_map, marked_map, List.zipWith_map, List.zipWith_self]
  exact (List.map_id _).symm

/-- The first branch to be taken is found among the new ones, while nothing seen before carries
one. -/
lemma find?_marked (w : Valuation) (seen : List String) (branches : List (Branch String))
    (h : ∀ name ∈ seen, w name = false) :
    (marked (newNames seen (branches.map (·.condition))) branches).find? (fun b => w b.condition) =
      branches.find? fun b => w b.condition := by
  induction branches generalizing seen with
  | nil => rfl
  | cons b rest ih =>
    rw [List.map_cons, newNames, List.find?_cons]
    cases hb : w b.condition with
    | true =>
      have hnew : seen.contains b.condition = false := by
        simp only [List.contains_eq_mem, decide_eq_false_iff_not]
        intro hmem
        rw [h _ hmem] at hb
        cases hb
      rw [hnew, Bool.not_false, marked, List.find?_cons, hb]
    | false =>
      have hrest := ih (b.condition :: seen) (List.forall_mem_cons.mpr ⟨hb, h⟩)
      cases seen.contains b.condition with
      | true => rw [Bool.not_true, marked, hrest]
      | false => rw [Bool.not_false, marked, List.find?_cons, hb, hrest]

lemma value_eq_live (w : Valuation) (c : Chain) :
    c.value w = (c.live.find? fun b => w b.condition).elim (w c.fallback) fun b => w b.value := by
  rw [value, live, newConditions, conditions, find?_marked w [] c.branches (by simp)]

/-- A multiplexer and the places of its new conditions determine the choice. -/
lemma value_eq_of_mux {c d : Chain} {y z : String} (hmux : c.mux y = d.mux z)
    (hnew : c.newConditions = d.newConditions) (w : Valuation) : c.value w = d.value w := by
  have hlength : c.values.length = d.values.length := by
    have h := congrArg List.length hnew
    simpa [newConditions, length_newNames, conditions, values] using h
  have hinputs : c.values ++ (firstOccurrences c.conditions ++ [c.fallback]) =
      d.values ++ (firstOccurrences d.conditions ++ [d.fallback]) := by
    simpa [mux] using congrArg Element.inputs hmux
  obtain ⟨hvalues, hrest⟩ := List.append_inj hinputs hlength
  obtain ⟨hconditions, hfallback⟩ := List.append_inj' hrest rfl
  rw [value_eq_live, value_eq_live, live_eq, live_eq, hnew, hvalues, hconditions,
    List.singleton_inj.mp hfallback]

end Chain

namespace Phrase

/-- The branch of a choice between signals, whose condition compares a signal with one. -/
structure IsChainBranch (b : Branch String) (branch : Branch Phrase) : Prop where
  value_eq : branch.value = .identifier b.value
  condition_eq : branch.condition.bitComparison? = some (b.condition, true)

/-- The phrases that stand for a choice between signals. -/
inductive IsChain (c : Chain) : Phrase → Prop
  | whenElse {branches : List (Branch Phrase)}
    (h : List.Forall₂ IsChainBranch c.branches branches) :
    IsChain c (.whenElse branches (.identifier c.fallback))

/-- The signals of a branch as operands, which nothing has to stand before. -/
def wires (b : Branch String) : Branch Operand := ⟨⟨[], b.value⟩, ⟨[], b.condition⟩⟩

lemma feeds_wires (bs : List (Branch String)) :
    (bs.map wires).flatMap (fun b => b.value.feeds ++ b.condition.feeds) = [] := by
  induction bs with
  | nil => rfl
  | cons b bs ih => exact ih

variable {config : Config} {t : NameTable}

lemma exists_lowersOperand_identifier {name : String} (h : name ∈ t.scope config) :
    ∃ t', LowersOperand config (.identifier name) t ⟨[], name⟩ t' ∧
      t'.scope config = t.scope config := by
  obtain ⟨t', hresolves, hscope⟩ := NameTable.exists_resolves h
  exact ⟨t', .wire (.identifier hresolves), hscope⟩

/-- The branches of a choice between signals need no elements. -/
lemma exists_lowersBranches {bs : List (Branch String)} {branches : List (Branch Phrase)}
    (h : List.Forall₂ IsChainBranch bs branches)
    (hscope : ∀ b ∈ bs, b.value ∈ t.scope config ∧ b.condition ∈ t.scope config) :
    ∃ t', LowersBranches config branches t (bs.map wires) t' ∧
      t'.scope config = t.scope config := by
  induction h generalizing t with
  | nil => exact ⟨t, .nil, rfl⟩
  | @cons b branch bs branches hbranch _ ih =>
    obtain ⟨value, condition⟩ := branch
    obtain ⟨rfl, hcondition⟩ := hbranch
    obtain ⟨⟨hvalue, hselector⟩, hrest⟩ := List.forall_mem_cons.mp hscope
    obtain ⟨s, hvalue, hs⟩ := exists_lowersOperand_identifier hvalue
    obtain ⟨s', hresolves, hs'⟩ := NameTable.exists_resolves (hs.symm ▸ hselector)
    have hscope' : s'.scope config = t.scope config := hs'.trans hs
    rw [← hscope'] at hrest
    obtain ⟨t', hbranches, ht'⟩ := ih hrest
    have hcondition := (lowersSelector_bitComparison_iff hcondition).mpr ⟨rfl, hresolves⟩
    exact ⟨t', .cons hvalue hcondition hbranches, ht'.trans hscope'⟩

/-- The assignment of a choice between signals becomes its multiplexer, and nothing else. -/
lemma IsChain.run_lowerStatement {c : Chain} {value statement : Phrase} {y : String}
    (hvalue : IsChain c value) (hstatement : statement.assignment? = some (y, value))
    (hscope : ∀ name ∈ y :: c.names, name ∈ t.scope config) :
    ∃ t', (statement.lowerStatement config).run t = .ok [c.mux y] t' := by
  obtain ⟨operator, terminated, rfl⟩ := exists_of_assignment? hstatement
  obtain ⟨hbranches⟩ := hvalue
  obtain ⟨hy, hnames⟩ := List.forall_mem_cons.mp hscope
  simp only [Chain.names, Chain.values, Chain.conditions, List.forall_mem_append,
    List.forall_mem_map, List.forall_mem_singleton] at hnames
  obtain ⟨⟨hvalues, hconditions⟩, hfallback⟩ := hnames
  obtain ⟨s, hresolves, hs⟩ := NameTable.exists_resolves hy
  rw [← hs] at hvalues hconditions hfallback
  obtain ⟨s', hlowers, hs'⟩ :=
    exists_lowersBranches hbranches fun b hb => ⟨hvalues b hb, hconditions b hb⟩
  obtain ⟨t', hlast, -⟩ := exists_lowersOperand_identifier (hs'.symm ▸ hfallback)
  have hassignment : LowersAssignment config (.identifier y) _ t _ t' :=
    .mk (.identifier hresolves) (.whenElse hlowers hlast)
  refine ⟨t', (run_lowerStatement_iff _).mpr ⟨[], ?_⟩⟩
  have hmux := LowersStatement.assignment operator terminated hassignment
  rw [Carrier.drive, feeds_wires, List.map_map, List.map_map] at hmux
  exact hmux

end Phrase

/-- Assignments of choices between signals become multiplexers. If the multiplexers of two choices
are equal, and the same of their branches test a signal that no earlier branch tests, then the
choices yield the same bit, whatever the signals carry. -/
theorem lowerStatement_mux_determines {config : Config} {t s : NameTable} {y z : String}
    {c d : Chain} {p q statement other : Phrase} (hp : p.IsChain c) (hq : q.IsChain d)
    (hstatement : statement.assignment? = some (y, p)) (hother : other.assignment? = some (z, q))
    (ht : ∀ name ∈ y :: c.names, name ∈ t.scope config)
    (hs : ∀ name ∈ z :: d.names, name ∈ s.scope config) :
    (∃ t', (statement.lowerStatement config).run t = .ok [c.mux y] t') ∧
      (∃ s', (other.lowerStatement config).run s = .ok [d.mux z] s') ∧
      (c.mux y = d.mux z → c.newConditions = d.newConditions → ∀ w, c.value w = d.value w) :=
  ⟨hp.run_lowerStatement hstatement ht, hq.run_lowerStatement hother hs, Chain.value_eq_of_mux⟩

namespace Chain

/-- A choice as it is written. -/
def phrase (c : Chain) : Phrase :=
  .whenElse (c.branches.map fun b => ⟨.identifier b.value,
    .binary (.identifier b.condition) (.relation .equal) (.literal (.bit true)) false⟩)
    (.identifier c.fallback)

/-- The assignment of a choice. -/
def assign (y : String) (c : Chain) : Phrase :=
  .binary (.identifier y) (.assignment .toSignal) c.phrase false

lemma phrase_isChain (c : Chain) : c.phrase.IsChain c := by
  refine .whenElse ?_
  rw [List.forall₂_map_right_iff, List.forall₂_same]
  exact fun b _ => ⟨rfl, rfl⟩

end Chain

/-- `A when S = '1' else B when T = '1' else D when x = '1' else C`. -/
def thirdTest (x : String) : Chain := ⟨[⟨"A", "S"⟩, ⟨"B", "T"⟩, ⟨"D", x⟩], "C"⟩

theorem lowerStatement_mux_determines_repeated :
    (∃ t', (((thirdTest "S").assign "Y").lowerStatement {}).run
        { names := ["A", "B", "C", "D", "S", "T", "Y"] } =
          .ok [⟨.connection, .mux, ["A", "B", "D", "S", "T", "C"], ["Y"]⟩] t') ∧
      ∀ w, (thirdTest "S").value w = (thirdTest "T").value w := by
  have hnames : ∀ x ∈ ["S", "T"], ∀ name ∈ "Y" :: (thirdTest x).names,
      name ∈ ["A", "B", "C", "D", "S", "T", "Y"] := by decide
  have hscope : ∀ x ∈ ["S", "T"], ∀ name ∈ "Y" :: (thirdTest x).names,
      name ∈ NameTable.scope {} { names := ["A", "B", "C", "D", "S", "T", "Y"] } :=
    fun x hx name hname => .inl (hnames x hx name hname)
  have hassign : ∀ x, ((thirdTest x).assign "Y").assignment? = some ("Y", (thirdTest x).phrase) :=
    fun x => rfl
  have h := lowerStatement_mux_determines (thirdTest "S").phrase_isChain
    (thirdTest "T").phrase_isChain (hassign "S") (hassign "T") (hscope "S" (by decide))
    (hscope "T" (by decide))
  exact ⟨h.1, h.2.2 (by decide) (by decide)⟩

/-- A design that assigns some choices to `Y`, one after the other. -/
def choosing (chains : List Chain) : Design where
  entity := ⟨"E", [⟨["A", "B", "C", "D", "S", "T"], .input, "bit"⟩, ⟨["Y"], .output, "bit"⟩], {}⟩
  architecture := ⟨"R", "E", [], chains.map (Chain.assign "Y")⟩

/-- Two choices become the same multiplexer of one design, although they differ. -/
def Chain.Confused (c d : Chain) : Prop :=
  ∃ spec e w, (synthesize {} (choosing [c, d]).phrases).result = .ok spec ∧
    spec.elements = [e, e] ∧ e.operation = .mux ∧ c.value w ≠ d.value w

/-- A multiplexer does not determine its choice: neither the number of branches, nor which branch a
selector belongs to. -/
theorem synthesize_confuses_chains :
    Chain.Confused ⟨[⟨"A", "S"⟩, ⟨"B", "T"⟩], "C"⟩
        ⟨[⟨"A", "T"⟩, ⟨"B", "T"⟩, ⟨"S", "T"⟩], "C"⟩ ∧
      Chain.Confused ⟨[⟨"A", "S"⟩, ⟨"B", "T"⟩, ⟨"D", "S"⟩], "C"⟩
        ⟨[⟨"A", "S"⟩, ⟨"B", "S"⟩, ⟨"D", "T"⟩], "C"⟩ :=
  ⟨⟨_, _, fun name => name = "A" ∨ name = "S", by rfl, rfl, rfl, by decide⟩,
    ⟨_, _, fun name => name = "B" ∨ name = "T", by rfl, rfl, rfl, by decide⟩⟩

end VhdlGates
