import Mathlib.Data.List.Basic
import Mathlib.Tactic.Common
import VhdlGates.Fault

/-! Valid specifications. The check of a specification compares the names of its elements with the
declared names, and look-up searches the ports and then the signals. Both know the same names, so
the check passes exactly if look-up finds every name of every element, and no element is without an
output. Otherwise it reports what is wrong with the first element that is not so. -/
namespace VhdlGates

variable {s : Specification}

/-- Look-up finds the declared names and no others. -/
lemma Specification.isSome_findSignal? {name : String} :
    (s.findSignal? name).isSome ↔ name ∈ s.declaredNames := by
  simp [findSignal?, findPort?, declaredNames]

namespace Element

/-- Look-up finds all signals of an element, and there is one that it drives. -/
structure Connected (s : Specification) (e : Element) : Prop where
  found : ∀ name ∈ e.inputs ++ e.outputs, (s.findSignal? name).isSome
  drives : e.outputs ≠ []

/-- What is wrong with the element that has this index: the first of its names that look-up does not
find, or the lack of outputs if look-up finds them all. -/
inductive Faulty (s : Specification) (index : ℕ) (e : Element) : Fault → Prop
  | dangling {before after : List String} {name : String}
    (hnames : e.inputs ++ e.outputs = before ++ name :: after)
    (hbefore : ∀ other ∈ before, (s.findSignal? other).isSome)
    (hname : s.findSignal? name = none) : Faulty s index e (.danglingReference index name)
  | idle (hfound : ∀ name ∈ e.inputs ++ e.outputs, (s.findSignal? name).isSome)
    (houtputs : e.outputs = []) :
    Faulty s index e (.invalidStatement (.drivesNothing index e.operation))

variable {e : Element} {index : ℕ} {fault : Fault}

/-- The name that the check reports is the first one that look-up does not find. -/
lemma find?_names_eq_some {name : String} :
    e.names.find? (!s.declaredNames.contains ·) = some name ↔
      s.findSignal? name = none ∧ ∃ before after, e.inputs ++ e.outputs = before ++ name :: after ∧
        ∀ other ∈ before, (s.findSignal? other).isSome := by
  rw [List.find?_eq_some_iff_append]
  simp [names, ← Specification.isSome_findSignal?]

lemma find?_names_eq_none : e.names.find? (!s.declaredNames.contains ·) = none ↔
    ∀ name ∈ e.inputs ++ e.outputs, (s.findSignal? name).isSome := by
  rw [List.find?_eq_none]
  simp only [names, Bool.not_eq_true, Bool.not_eq_false', List.contains_iff_mem,
    Specification.isSome_findSignal?]

lemma flaw?_eq_none_iff : e.flaw? s.declaredNames index = none ↔ e.Connected s := by
  unfold flaw?
  cases hfind : e.names.find? (!s.declaredNames.contains ·) with
  | some name =>
    refine ⟨fun h => absurd h (by simp), fun h => ?_⟩
    rw [find?_names_eq_none.mpr h.found] at hfind
    cases hfind
  | none =>
    have hfound := find?_names_eq_none.mp hfind
    by_cases houtputs : e.outputs = []
    · simp only [houtputs, List.isEmpty_nil, if_true]
      exact ⟨fun h => absurd h (by simp), fun h => absurd houtputs h.drives⟩
    · simp only [List.isEmpty_iff, houtputs, if_false]
      exact ⟨fun _ => ⟨hfound, houtputs⟩, fun _ => trivial⟩

lemma flaw?_eq_some_iff :
    (e.flaw? s.declaredNames index).map Fault.ofFlaw = some fault ↔ e.Faulty s index fault := by
  unfold flaw?
  cases hfind : e.names.find? (!s.declaredNames.contains ·) with
  | some name =>
    obtain ⟨hname, before, after, hnames, hbefore⟩ := find?_names_eq_some.mp hfind
    constructor
    · intro h
      obtain rfl := Option.some.inj h
      exact .dangling hnames hbefore hname
    · rintro (⟨hnames', hbefore', hname'⟩ | ⟨hfound, -⟩)
      · rw [find?_names_eq_some.mpr ⟨hname', _, _, hnames', hbefore'⟩] at hfind
        obtain rfl := Option.some.inj hfind
        rfl
      · rw [find?_names_eq_none.mpr hfound] at hfind
        cases hfind
  | none =>
    have hfound := find?_names_eq_none.mp hfind
    constructor
    · intro h
      by_cases houtputs : e.outputs = []
      · simp only [houtputs, List.isEmpty_nil, if_true] at h
        obtain rfl := Option.some.inj h
        exact .idle hfound houtputs
      · simp [houtputs] at h
    · rintro (⟨hnames, hbefore, hname⟩ | ⟨-, houtputs⟩)
      · rw [find?_names_eq_some.mpr ⟨hname, _, _, hnames, hbefore⟩] at hfind
        cases hfind
      · simp [houtputs, Fault.ofFlaw]

end Element

namespace Specification

open Element (Connected)

/-- Some elements are connected exactly if none of them has a flaw at its place. -/
lemma forall_zipIdx_flaw? {elements : List Element} :
    (∀ place ∈ elements.zipIdx, place.1.flaw? s.declaredNames place.2 = none) ↔
      ∀ e ∈ elements, e.Connected s := by
  constructor
  · intro h e he
    obtain ⟨index, hindex⟩ := List.mem_iff_getElem?.mp he
    have hflaw := h (e, index) (List.mem_zipIdx_iff_getElem?.mpr hindex)
    exact Element.flaw?_eq_none_iff.mp hflaw
  · rintro h ⟨e, index⟩ hmem
    exact Element.flaw?_eq_none_iff.mpr (h e (List.fst_mem_of_mem_zipIdx hmem))

/-- The check passes exactly if all elements are connected. -/
lemma flaw?_eq_none_iff : s.flaw? = none ↔ ∀ e ∈ s.elements, e.Connected s := by
  rw [flaw?, List.findSome?_eq_none_iff]
  exact forall_zipIdx_flaw?

/-- A flaw is found exactly if it is that of the first element which is not connected. -/
lemma flaw?_eq_some_iff {flaw : Flaw} : s.flaw? = some flaw ↔
    ∃ before e after, s.elements = before ++ e :: after ∧ (∀ b ∈ before, b.Connected s) ∧
      e.flaw? s.declaredNames before.length = some flaw := by
  rw [flaw?, List.findSome?_eq_some_iff]
  constructor
  · rintro ⟨earlier, ⟨e, index⟩, later, helements, hflaw, hearlier⟩
    obtain ⟨before, rest, hsplit, rfl, hrest⟩ := List.zipIdx_eq_append_iff.mp helements
    obtain ⟨first, after, rfl, hfirst, -⟩ := List.zipIdx_eq_cons_iff.mp hrest.symm
    obtain ⟨rfl, rfl⟩ := Prod.mk.inj hfirst
    rw [Nat.zero_add] at hflaw
    exact ⟨before, e, after, hsplit, forall_zipIdx_flaw?.mp hearlier, hflaw⟩
  · rintro ⟨before, e, after, helements, hbefore, hflaw⟩
    refine ⟨before.zipIdx, (e, before.length), after.zipIdx (before.length + 1), ?_, hflaw, ?_⟩
    · rw [helements, List.zipIdx_append, List.zipIdx_cons, Nat.zero_add]
    · exact forall_zipIdx_flaw?.mpr hbefore

lemma isSome_findSignal?_append {name : String} (ports : List Port) (signals : List Signal)
    (h : (s.findSignal? name).isSome) :
    ({ s with ports := s.ports ++ ports, signals := s.signals ++ signals }.findSignal?
      name).isSome := by
  rw [isSome_findSignal?] at h ⊢
  simp only [declaredNames, List.map_append, List.mem_append] at h ⊢
  exact h.imp Or.inl Or.inl

/-- Elements are not looked up, so those that are connected do not depend on the others. -/
lemma connected_addElement {e other : Element} :
    other.Connected (s.addElement e) ↔ other.Connected s :=
  ⟨fun h => ⟨h.found, h.drives⟩, fun h => ⟨h.found, h.drives⟩⟩

end Specification

/-- The check of a specification passes exactly if all its elements are connected. Otherwise it
reports what is wrong with the first element that is not. So more ports and signals do no harm, and
an element can be added exactly if it is connected. -/
theorem flaw?_reports_first_fault (s : Specification) :
    (s.flaw? = none ↔ ∀ e ∈ s.elements, e.Connected s) ∧
    (∀ fault, s.flaw?.map Fault.ofFlaw = some fault ↔
      ∃ before e after, s.elements = before ++ e :: after ∧ (∀ b ∈ before, b.Connected s) ∧
        e.Faulty s before.length fault) ∧
    (∀ ports signals, s.flaw? = none →
      { s with ports := s.ports ++ ports, signals := s.signals ++ signals }.flaw? = none) ∧
    ∀ e, s.flaw? = none → ((s.addElement e).flaw? = none ↔ e.Connected s) := by
  refine ⟨Specification.flaw?_eq_none_iff, fun fault => ?_, fun ports signals h => ?_, fun e h => ?_⟩
  · simp only [Option.map_eq_some_iff, Specification.flaw?_eq_some_iff,
      ← Element.flaw?_eq_some_iff]
    constructor
    · rintro ⟨flaw, ⟨before, e, after, helements, hbefore, hflaw⟩, hfault⟩
      exact ⟨before, e, after, helements, hbefore, flaw, hflaw, hfault⟩
    · rintro ⟨before, e, after, helements, hbefore, flaw, hflaw, hfault⟩
      exact ⟨flaw, ⟨before, e, after, helements, hbefore, hflaw⟩, hfault⟩
  · rw [Specification.flaw?_eq_none_iff] at h ⊢
    intro e he
    obtain ⟨hfound, hdrives⟩ := h e he
    refine ⟨fun name hname => ?_, hdrives⟩
    exact Specification.isSome_findSignal?_append ports signals (hfound name hname)
  · rw [Specification.flaw?_eq_none_iff] at h ⊢
    simp only [Specification.connected_addElement]
    constructor
    · intro hall
      exact hall e (List.mem_append_right _ (List.mem_singleton_self e))
    · intro he
      exact List.forall_mem_append.mpr ⟨h, List.forall_mem_singleton.mpr he⟩

/-- A specification whose second element drives nothing, while the third one refers to a signal
that does not exist. The port `A` hides the signal of its name. -/
def unfinished : Specification where
  version := 1
  description := ""
  ports := [.singleBit "A" .input]
  architectureName := "R"
  signals := [⟨"A", .bitVector, 8⟩, .singleBit "T"]
  elements := [⟨.combinational, .not, ["A"], ["T"]⟩, ⟨.connection, .none, ["T"], []⟩,
    ⟨.connection, .none, ["Z"], ["T"]⟩]

theorem flaw?_reports_first_fault_unfinished :
    unfinished.flaw?.map Fault.ofFlaw = some (.invalidStatement (.drivesNothing 1 .none)) ∧
      ({ unfinished with elements := unfinished.elements.take 1 }.addElement
        ⟨.connection, .none, ["T", "Z"], ["A"]⟩).flaw? ≠ none := by
  have hfirst : ∀ e ∈ unfinished.elements.take 1, e.Connected unfinished := by
    intro e he
    obtain rfl := List.mem_singleton.mp he
    exact ⟨by decide, by decide⟩
  refine ⟨?_, fun h => ?_⟩
  · refine ((flaw?_reports_first_fault unfinished).2.1 _).mpr ⟨_, _, _, rfl, hfirst, ?_⟩
    exact .idle (by decide) rfl
  · let sound : Specification := { unfinished with elements := unfinished.elements.take 1 }
    have hsound : sound.flaw? = none := by decide
    have hconnected := ((flaw?_reports_first_fault sound).2.2.2 _ hsound).mp h
    exact absurd (hconnected.found "Z" (by decide)) (by decide)

end VhdlGates
