import Mathlib.Order.BooleanAlgebra.Set
import VhdlGates.Lowering

/-! How the elements of a circuit are wired. A circuit that leads from one scope to a larger one
drives each of the added signals once, and reads it only after it is driven. -/
namespace VhdlGates

namespace Element

/-- The elements that read a signal, in order. -/
def readers (name : String) (elements : List Element) : List Element :=
  elements.filter (name ∈ ·.inputs)

/-- Exactly one element drives the signal, and those that read it stand behind this one. -/
def DrivenBeforeRead (name : String) (elements : List Element) : Prop :=
  ∃ before driver after, elements = before ++ driver :: after ∧ driver.outputs = [name] ∧
    (∀ e ∈ before ++ after, name ∉ e.outputs) ∧ ∀ e ∈ before ++ [driver], name ∉ e.inputs

variable {name : String} {elements others : List Element}

@[simp] lemma readers_nil : readers name [] = [] := rfl

@[simp] lemma readers_append :
    readers name (elements ++ others) = readers name elements ++ readers name others :=
  List.filter_append ..

lemma readers_eq_nil : readers name elements = [] ↔ ∀ e ∈ elements, name ∉ e.inputs := by
  simp [readers]

lemma readers_singleton {e : Element} (h : name ∈ e.inputs) : readers name [e] = [e] := by
  simp [readers, h]

lemma DrivenBeforeRead.append_right (h : DrivenBeforeRead name elements)
    (hothers : ∀ e ∈ others, name ∉ e.outputs) : DrivenBeforeRead name (elements ++ others) := by
  obtain ⟨before, driver, after, rfl, houtput, hdriven, hread⟩ := h
  refine ⟨before, driver, after ++ others, by simp, houtput, ?_, hread⟩
  rw [← List.append_assoc]
  exact List.forall_mem_append.mpr ⟨hdriven, hothers⟩

lemma DrivenBeforeRead.append_left (h : DrivenBeforeRead name others)
    (hinputs : ∀ e ∈ elements, name ∉ e.inputs) (houtputs : ∀ e ∈ elements, name ∉ e.outputs) :
    DrivenBeforeRead name (elements ++ others) := by
  obtain ⟨before, driver, after, rfl, houtput, hdriven, hread⟩ := h
  refine ⟨elements ++ before, driver, after, by simp, houtput, ?_, ?_⟩
  · rw [List.append_assoc]
    exact List.forall_mem_append.mpr ⟨houtputs, hdriven⟩
  · rw [List.append_assoc]
    exact List.forall_mem_append.mpr ⟨hinputs, hread⟩

end Element

open Element (readers DrivenBeforeRead)

/-- The elements lead from `scope` to `scope'`. They drive each added signal once, before it is
read; apart from the added signals, they read and drive only those that they may. -/
structure Wires (readable drivable scope scope' : Set String) (elements : List Element) : Prop where
  readable_subset : readable ⊆ scope
  drivable_subset : drivable ⊆ scope
  subset : scope ⊆ scope'
  inputs_mem : ∀ e ∈ elements, ∀ name ∈ e.inputs, name ∈ readable ∪ scope' \ scope
  outputs_mem : ∀ e ∈ elements, ∀ name ∈ e.outputs, name ∈ drivable ∪ scope' \ scope
  driven : ∀ name ∈ scope' \ scope, DrivenBeforeRead name elements

namespace Wires

variable {readable readable' drivable scope scope' scope'' : Set String}
  {elements others : List Element} {name : String}

lemma nil (hread : readable ⊆ scope) (hdrive : drivable ⊆ scope) :
    Wires readable drivable scope scope [] where
  readable_subset := hread
  drivable_subset := hdrive
  subset := subset_rfl
  inputs_mem := by simp
  outputs_mem := by simp
  driven name hname := absurd hname.1 hname.2

/-- A gate may drive a new signal. -/
lemma define {g : Gate} (hread : readable ⊆ scope) (hdrive : drivable ⊆ scope)
    (hin : ∀ input ∈ g.inputs, input ∈ readable) (hnew : name ∉ scope) :
    Wires readable drivable scope (insert name scope) [g.drive name] where
  readable_subset := hread
  drivable_subset := hdrive
  subset := Set.subset_insert _ _
  inputs_mem := List.forall_mem_singleton.mpr fun input hinput => .inl (hin input hinput)
  outputs_mem := List.forall_mem_singleton.mpr <| List.forall_mem_singleton.mpr <|
    .inr ⟨Set.mem_insert _ _, hnew⟩
  driven other hother := by
    obtain rfl := hother.1.resolve_right hother.2
    refine ⟨[], g.drive other, [], rfl, rfl, by simp, List.forall_mem_singleton.mpr fun hmem => ?_⟩
    exact hnew (hread (hin other hmem))

/-- An element may drive a signal of the scope. -/
lemma drive {e : Element} (hread : readable ⊆ scope) (hdrive : drivable ⊆ scope)
    (hin : ∀ input ∈ e.inputs, input ∈ readable) (hout : ∀ output ∈ e.outputs, output ∈ drivable) :
    Wires readable drivable scope scope [e] where
  readable_subset := hread
  drivable_subset := hdrive
  subset := subset_rfl
  inputs_mem := List.forall_mem_singleton.mpr fun input hinput => .inl (hin input hinput)
  outputs_mem := List.forall_mem_singleton.mpr fun output houtput => .inl (hout output houtput)
  driven _ hname := absurd hname.1 hname.2

/-- The signals that a circuit may read and those that it adds can be read behind it. -/
lemma readable_union_subset (h : Wires readable drivable scope scope' elements) :
    readable ∪ scope' \ scope ⊆ scope' :=
  Set.union_subset (h.readable_subset.trans h.subset) Set.sdiff_subset

/-- Elements do not read signals that they may not read and do not add. -/
lemma readers_eq_nil (h : Wires readable drivable scope scope' elements) (hread : name ∉ readable)
    (hnew : name ∉ scope' \ scope) : readers name elements = [] := by
  refine Element.readers_eq_nil.mpr fun e he hname => ?_
  exact (h.inputs_mem e he name hname).elim hread hnew

lemma readers_eq_nil_of_notMem (h : Wires readable drivable scope scope' elements)
    (hname : name ∉ scope') : readers name elements = [] := by
  refine h.readers_eq_nil (fun hread => ?_) fun hnew => hname hnew.1
  exact hname (h.subset (h.readable_subset hread))

/-- Behind the circuit that adds a signal, only those that may read it do. -/
lemma readers_append_of_mem (h' : Wires readable' drivable scope' scope'' others)
    (hread : name ∉ readable') (hname : name ∈ scope') :
    readers name (elements ++ others) = readers name elements := by
  rw [Element.readers_append, h'.readers_eq_nil hread fun hnew => hnew.2 hname, List.append_nil]

/-- A signal that is added later is not read before. -/
lemma readers_append_of_notMem (h : Wires readable drivable scope scope' elements)
    (hname : name ∉ scope') : readers name (elements ++ others) = readers name others := by
  rw [Element.readers_append, h.readers_eq_nil_of_notMem hname, List.nil_append]

/-- What a circuit adds is also added by it and a later one together. -/
lemma added_left {names : Set String} (h' : Wires readable' drivable scope' scope'' others) :
    names ∪ scope' \ scope ⊆ names ∪ scope'' \ scope :=
  Set.union_subset_union_right _ (Set.sdiff_subset_sdiff_left h'.subset)

/-- What a circuit adds is also added by it and an earlier one together. -/
lemma added_right {names : Set String} (h : Wires readable drivable scope scope' elements) :
    names ∪ scope'' \ scope' ⊆ names ∪ scope'' \ scope :=
  Set.union_subset_union_right _ (Set.sdiff_subset_sdiff_right h.subset)

/-- Two circuits in a row. The second one may also read what the first one adds. -/
lemma append (h : Wires readable drivable scope scope' elements)
    (h' : Wires readable' drivable scope' scope'' others)
    (hread : readable' ⊆ readable ∪ scope' \ scope) :
    Wires readable drivable scope scope'' (elements ++ others) where
  readable_subset := h.readable_subset
  drivable_subset := h.drivable_subset
  subset := h.subset.trans h'.subset
  inputs_mem := by
    refine List.forall_mem_append.mpr ⟨fun e he name hname => ?_, fun e he name hname => ?_⟩
    · exact h'.added_left (h.inputs_mem e he name hname)
    · rcases h'.inputs_mem e he name hname with hmem | hnew
      · exact h'.added_left (hread hmem)
      · exact .inr (Set.sdiff_subset_sdiff_right h.subset hnew)
  outputs_mem := by
    refine List.forall_mem_append.mpr ⟨fun e he name hname => ?_, fun e he name hname => ?_⟩
    · exact h'.added_left (h.outputs_mem e he name hname)
    · exact h.added_right (h'.outputs_mem e he name hname)
  driven name hname := by
    by_cases hfirst : name ∈ scope'
    · -- The first circuit adds the signal, so the second one does not drive it.
      refine (h.driven name ⟨hfirst, hname.2⟩).append_right fun e he houtput => ?_
      rcases h'.outputs_mem e he name houtput with hmem | hnew
      · exact hname.2 (h.drivable_subset hmem)
      · exact hnew.2 hfirst
    · -- The second one adds it, and the first one does not know it.
      refine (h'.driven name ⟨hname.1, hfirst⟩).append_left
        (Element.readers_eq_nil.mp (h.readers_eq_nil_of_notMem hfirst)) fun e he houtput => ?_
      rcases h.outputs_mem e he name houtput with hmem | hnew
      · exact hfirst (h.subset (h.drivable_subset hmem))
      · exact hfirst hnew.1

/-- What holds of the readers of all signals that two circuits add holds of those that both together
add, if the second circuit does not read what the first one adds. -/
lemma forall_readers_append {P : String → List Element → Prop}
    (h : Wires readable drivable scope scope' elements)
    (h' : Wires readable' drivable scope' scope'' others) (hread : readable' ⊆ scope)
    (hP : ∀ name ∈ scope' \ scope, P name (readers name elements))
    (hP' : ∀ name ∈ scope'' \ scope', P name (readers name others)) :
    ∀ name ∈ scope'' \ scope, P name (readers name (elements ++ others)) := by
  intro name hname
  by_cases hfirst : name ∈ scope'
  · rw [h'.readers_append_of_mem (fun hmem => hname.2 (hread hmem)) hfirst]
    exact hP name ⟨hfirst, hname.2⟩
  · rw [h.readers_append_of_notMem hfirst]
    exact hP' name ⟨hname.1, hfirst⟩

lemma mono (h : Wires readable drivable scope scope' elements) (hread : readable ⊆ readable')
    (hscope : readable' ⊆ scope) : Wires readable' drivable scope scope' elements where
  readable_subset := hscope
  drivable_subset := h.drivable_subset
  subset := h.subset
  inputs_mem e he name hname := Set.union_subset_union_left _ hread (h.inputs_mem e he name hname)
  outputs_mem := h.outputs_mem
  driven := h.driven

end Wires

/-- The elements supply signals to an element behind them. No added signal is read twice, and the
supplied ones are not read yet. -/
structure Supplies (known scope scope' : Set String) (elements : List Element)
    (signals : List String) : Prop extends Wires known known scope scope' elements where
  signals_mem : ∀ name ∈ signals, name ∈ known ∪ scope' \ scope
  read_once : ∀ name ∈ scope' \ scope, (readers name elements).length ≤ 1
  unread : ∀ name ∈ scope' \ scope, name ∈ signals → readers name elements = []

namespace Supplies

variable {known scope scope' scope'' : Set String} {elements others : List Element}
  {signals signals' : List String} {name : String}

lemma nil (hknown : known ⊆ scope) (hsignals : ∀ name ∈ signals, name ∈ known) :
    Supplies known scope scope [] signals where
  toWires := .nil hknown hknown
  signals_mem name hname := .inl (hsignals name hname)
  read_once name _ := by simp
  unread name _ _ := rfl

lemma of_subset (h : Supplies known scope scope' elements signals) (hsub : signals' ⊆ signals) :
    Supplies known scope scope' elements signals' where
  toWires := h.toWires
  signals_mem name hname := h.signals_mem name (hsub hname)
  read_once := h.read_once
  unread name hnew hname := h.unread name hnew (hsub hname)

/-- A supplied signal is known, or one of those that the elements add. -/
lemma mem_scope (h : Supplies known scope scope' elements signals) (hname : name ∈ signals) :
    name ∈ scope' :=
  h.readable_union_subset (h.signals_mem name hname)

/-- Behind one another, the elements supply the signals of both. -/
lemma append (h : Supplies known scope scope' elements signals)
    (h' : Supplies known scope' scope'' others signals') :
    Supplies known scope scope'' (elements ++ others) (signals ++ signals') where
  toWires := h.toWires.append h'.toWires Set.subset_union_left
  signals_mem := by
    refine List.forall_mem_append.mpr ⟨fun name hname => ?_, fun name hname => ?_⟩
    · exact h'.added_left (h.signals_mem name hname)
    · exact h.added_right (h'.signals_mem name hname)
  read_once := h.forall_readers_append (P := fun _ reading => reading.length ≤ 1) h'.toWires
    h.readable_subset h.read_once h'.read_once
  unread := by
    refine h.forall_readers_append
      (P := fun name reading => name ∈ signals ++ signals' → reading = []) h'.toWires
      h.readable_subset (fun name hname hsignal => ?_) fun name hname hsignal => ?_
    · refine h.unread name hname ((List.mem_append.mp hsignal).resolve_right fun hlater => ?_)
      rcases h'.signals_mem name hlater with hknown | hnew
      · exact hname.2 (h.readable_subset hknown)
      · exact hnew.2 hname.1
    · refine h'.unread name hname ((List.mem_append.mp hsignal).resolve_left fun hearlier => ?_)
      exact hname.2 (h.mem_scope hearlier)

/-- An element that reads supplied signals is the only one to read those of them that are added. -/
lemma read_once_append (h : Supplies known scope scope' elements signals) {e : Element}
    (he : ∀ input ∈ e.inputs, input ∈ scope ∨ input ∈ signals) :
    ∀ name ∈ scope' \ scope, (readers name (elements ++ [e])).length ≤ 1 := by
  intro name hname
  by_cases hread : name ∈ e.inputs
  · rw [Element.readers_append, Element.readers_singleton hread,
      h.unread name hname ((he name hread).resolve_left hname.2)]
    exact le_rfl
  · rw [Element.readers_append, Element.readers_eq_nil.mpr (List.forall_mem_singleton.mpr hread),
      List.append_nil]
    exact h.read_once name hname

/-- A gate that reads the supplied signals may put its value on a new one. -/
lemma define {g : Gate} (h : Supplies known scope scope' elements g.inputs) (hnew : name ∉ scope') :
    Supplies known scope (insert name scope') (elements ++ [g.drive name]) [name] := by
  have hgate : Wires (known ∪ scope' \ scope) known scope' _ _ :=
    .define (h.readable_union_subset) (h.readable_subset.trans h.subset) h.signals_mem hnew
  have hunread : readers name (elements ++ [g.drive name]) = [] := by
    rw [h.readers_append_of_notMem hnew]
    refine Element.readers_eq_nil.mpr (List.forall_mem_singleton.mpr fun hmem => ?_)
    exact hnew (h.mem_scope hmem)
  refine ⟨h.toWires.append hgate subset_rfl, ?_, fun other hother => ?_, ?_⟩
  · refine List.forall_mem_singleton.mpr (.inr ⟨Set.mem_insert _ _, fun hscope => ?_⟩)
    exact hnew (h.subset hscope)
  · rcases hother.1 with rfl | hmem
    · rw [hunread]
      exact Nat.zero_le _
    · exact h.read_once_append (fun input hinput => .inr hinput) other ⟨hmem, hother.2⟩
  · rintro other - hother
    obtain rfl := List.mem_singleton.mp hother
    exact hunread

/-- A gate that reads the supplied signals may drive a known one. -/
lemma drive {g : Gate} (h : Supplies known scope scope' elements g.inputs) (hknown : name ∈ known) :
    Supplies known scope scope' (elements ++ [g.drive name]) [] := by
  have hgate : Wires (known ∪ scope' \ scope) known scope' scope' [g.drive name] :=
    .drive (h.readable_union_subset) (h.readable_subset.trans h.subset) h.signals_mem
      (List.forall_mem_singleton.mpr hknown)
  refine ⟨h.toWires.append hgate subset_rfl, by simp, ?_, by simp⟩
  exact h.read_once_append fun input hinput => .inr hinput

end Supplies

end VhdlGates
