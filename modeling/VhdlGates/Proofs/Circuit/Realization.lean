import VhdlGates.Proofs.Circuit.Meaning

/-! Circuits as systems of equations. A circuit that realizes a condition on the signals of a
scope adds signals of its own; these have exactly one value each wherever the condition is met,
and no values at all where it is not. -/
namespace VhdlGates

open Element (AllHold)

/-- Over the signals in `scope`, the elements realize the condition `P`; the further signals in
`scope'` are their own. -/
structure Realizes (config : Config) (scope scope' : Set String) (elements : List Element)
    (P : Valuation → Prop) : Prop where
  rails_mem : ∀ value, config.railName value ∈ scope
  subset : scope ⊆ scope'
  names_mem : ∀ e ∈ elements, ∀ name ∈ e.names, name ∈ scope'
  drives : ∀ e ∈ elements, e.outputs ≠ []
  /-- The condition is one on the signals of the scope. -/
  local_to : ∀ v w, Set.EqOn v w scope → P v → P w
  solvable : ∀ v, config.RailsHold v → P v → ∃ w, Set.EqOn v w scope ∧ AllHold w elements
  sound : ∀ w, config.RailsHold w → AllHold w elements → P w
  unique : ∀ v w, Set.EqOn v w scope → AllHold v elements → AllHold w elements →
    Set.EqOn v w scope'

namespace Realizes

variable {config : Config} {scope scope' scope'' : Set String} {elements others : List Element}
  {P Q R : Valuation → Prop}

lemma railsHold_congr {v w : Valuation} (hscope : ∀ value, config.railName value ∈ scope)
    (heq : Set.EqOn v w scope) (h : config.RailsHold v) : config.RailsHold w := by
  intro value
  rw [← heq (hscope value)]
  exact h value

lemma allHold_congr {v w : Valuation} (h : Realizes config scope scope' elements P)
    (heq : Set.EqOn v w scope') (hv : AllHold v elements) : AllHold w elements := by
  intro e he
  exact (hv e he).congr fun name hname => heq (h.names_mem e he name hname)

/-- The condition is met exactly where the further signals can be given values. -/
lemma iff_exists (h : Realizes config scope scope' elements P) {v : Valuation}
    (hv : config.RailsHold v) :
    P v ↔ ∃ w, Set.EqOn v w scope ∧ AllHold w elements := by
  constructor
  · exact h.solvable v hv
  · rintro ⟨w, heq, hw⟩
    have hrails := railsHold_congr h.rails_mem heq hv
    exact h.local_to w v heq.symm (h.sound w hrails hw)

/-- No elements realize the condition that is always met. -/
lemma nil (hrails : ∀ value, config.railName value ∈ scope) :
    Realizes config scope scope [] fun _ => True where
  rails_mem := hrails
  subset := subset_rfl
  names_mem _ he := by cases he
  drives _ he := by cases he
  local_to _ _ _ _ := trivial
  solvable v _ _ := ⟨v, Set.eqOn_refl _ _, Element.allHold_nil⟩
  sound _ _ _ := trivial
  unique _ _ heq _ _ := heq

/-- A gate may drive a new signal, which then has the value of the gate. -/
lemma definition {g : Gate} {output : String} (hrails : ∀ value, config.railName value ∈ scope)
    (hnew : output ∉ scope) (hin : ∀ name ∈ g.inputs, name ∈ scope)
    (hvalue : ∀ w : Valuation, ∃ b, g.operation.value? (g.inputs.map w) = some b) :
    Realizes config scope (insert output scope) [g.drive output] fun _ => True where
  rails_mem := hrails
  subset := Set.subset_insert _ _
  names_mem e he name hname := by
    obtain rfl := List.mem_singleton.mp he
    rcases List.mem_append.mp hname with hname | hname
    · exact Set.mem_insert_of_mem _ (hin name hname)
    · obtain rfl := List.mem_singleton.mp hname
      exact Set.mem_insert _ _
  drives e he := by
    obtain rfl := List.mem_singleton.mp he
    exact List.cons_ne_nil _ _
  local_to _ _ _ _ := trivial
  solvable v _ _ := by
    obtain ⟨b, hb⟩ := hvalue v
    have heq : Set.EqOn v (Function.update v output b) scope := by
      intro name hname
      exact (Function.update_of_ne (ne_of_mem_of_not_mem hname hnew) b v).symm
    refine ⟨Function.update v output b, heq, Element.allHold_drive.mpr ?_⟩
    rw [Function.update_self, ← hb]
    exact congrArg _ (List.map_congr_left fun name hname => (heq (hin name hname)).symm)
  sound _ _ _ := trivial
  unique v w heq hv hw := by
    rw [Element.allHold_drive] at hv hw
    have hinputs : g.inputs.map v = g.inputs.map w :=
      List.map_congr_left fun name hname => heq (hin name hname)
    rw [hinputs, hw, Option.some.injEq] at hv
    intro name hname
    rcases Set.mem_insert_iff.mp hname with rfl | hname
    · exact hv.symm
    · exact heq hname

/-- A gate that drives a signal of the scope demands that the signal has the value of the gate. -/
lemma constraint {g : Gate} {output : String} (hrails : ∀ value, config.railName value ∈ scope)
    (hin : ∀ name ∈ g.inputs, name ∈ scope) (hout : output ∈ scope) :
    Realizes config scope scope [g.drive output] fun w =>
      g.operation.value? (g.inputs.map w) = some (w output) where
  rails_mem := hrails
  subset := subset_rfl
  names_mem e he name hname := by
    obtain rfl := List.mem_singleton.mp he
    rcases List.mem_append.mp hname with hname | hname
    · exact hin name hname
    · obtain rfl := List.mem_singleton.mp hname
      exact hout
  drives e he := by
    obtain rfl := List.mem_singleton.mp he
    exact List.cons_ne_nil _ _
  local_to v w heq hv := by
    have hinputs : g.inputs.map v = g.inputs.map w :=
      List.map_congr_left fun name hname => heq (hin name hname)
    rw [← hinputs, ← heq hout]
    exact hv
  solvable v _ hv := ⟨v, Set.eqOn_refl _ _, Element.allHold_drive.mpr hv⟩
  sound w _ hw := Element.allHold_drive.mp hw
  unique _ _ heq _ _ := heq

/-- Two circuits in a row realize both conditions. That of the second may speak of the signals of
the first, as long as it amounts to one on the scope where the first circuit holds. -/
lemma append (h : Realizes config scope scope' elements P)
    (h' : Realizes config scope' scope'' others Q)
    (hlocal : ∀ v w, Set.EqOn v w scope → R v → R w)
    (hiff : ∀ w, config.RailsHold w → AllHold w elements → (Q w ↔ R w)) :
    Realizes config scope scope'' (elements ++ others) fun w => P w ∧ R w where
  rails_mem := h.rails_mem
  subset := h.subset.trans h'.subset
  names_mem e he name hname := by
    rcases List.mem_append.mp he with he | he
    · exact h'.subset (h.names_mem e he name hname)
    · exact h'.names_mem e he name hname
  drives e he := (List.mem_append.mp he).elim (h.drives e) (h'.drives e)
  local_to v w heq hv := ⟨h.local_to v w heq hv.1, hlocal v w heq hv.2⟩
  solvable v hv hcond := by
    obtain ⟨w, heq, hw⟩ := h.solvable v hv hcond.1
    have hrails := railsHold_congr h.rails_mem heq hv
    have hQ : Q w := (hiff w hrails hw).mpr (hlocal v w heq hcond.2)
    obtain ⟨w', heq', hw'⟩ := h'.solvable w hrails hQ
    refine ⟨w', heq.trans (heq'.mono h.subset), Element.allHold_append.mpr ⟨?_, hw'⟩⟩
    exact h.allHold_congr heq' hw
  sound w hw hhold := by
    obtain ⟨hfirst, hsecond⟩ := Element.allHold_append.mp hhold
    exact ⟨h.sound w hw hfirst, (hiff w hw hfirst).mp (h'.sound w hw hsecond)⟩
  unique v w heq hv hw := by
    obtain ⟨hvfirst, hvsecond⟩ := Element.allHold_append.mp hv
    obtain ⟨hwfirst, hwsecond⟩ := Element.allHold_append.mp hw
    exact h'.unique v w (h.unique v w heq hvfirst hwfirst) hvsecond hwsecond

/-- Two circuits that are always solvable form one. -/
lemma append_true (h : Realizes config scope scope' elements fun _ => True)
    (h' : Realizes config scope' scope'' others fun _ => True) :
    Realizes config scope scope'' (elements ++ others) fun _ => True := by
  simpa using h.append h' (fun _ _ _ _ => trivial) fun _ _ _ => Iff.rfl

end Realizes

end VhdlGates
