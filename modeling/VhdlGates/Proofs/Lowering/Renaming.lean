import Mathlib.Logic.Equiv.Basic
import VhdlGates.Proofs.Lowering.Closure

/-! Renaming the signals of a circuit. -/
namespace VhdlGates

namespace Gate

def rename (ρ : String → String) (g : Gate) : Gate := { g with inputs := g.inputs.map ρ }

end Gate

namespace Element

def rename (ρ : String → String) (e : Element) : Element :=
  { e with inputs := e.inputs.map ρ, outputs := e.outputs.map ρ }

@[simp] lemma rename_drive (ρ : String → String) (g : Gate) (output : String) :
    (g.drive output).rename ρ = (g.rename ρ).drive (ρ output) := rfl

/-- Only what a renaming does to the mentioned names matters. -/
lemma map_rename_congr {ρ ρ' : String → String} {elements : List Element}
    (h : ∀ name ∈ mentions elements, ρ name = ρ' name) :
    elements.map (rename ρ) = elements.map (rename ρ') := by
  refine List.map_congr_left fun e he => ?_
  have hnames : ∀ name ∈ e.inputs ++ e.outputs, ρ name = ρ' name :=
    fun name hname => h name (List.mem_flatMap.mpr ⟨e, he, hname⟩)
  obtain ⟨hinputs, houtputs⟩ := List.forall_mem_append.mp hnames
  simp only [rename, List.map_congr_left hinputs, List.map_congr_left houtputs]

end Element

namespace Operand

def rename (ρ : String → String) (o : Operand) : Operand :=
  ⟨o.feeds.map (Element.rename ρ), ρ o.signal⟩

/-- Renames the values and the selectors of the branches of a choice. -/
def renameBranch (ρ : String → String) (b : Branch Operand) : Branch Operand :=
  ⟨b.value.rename ρ, b.condition.rename ρ⟩

end Operand

namespace Signal

def rename (ρ : String → String) (s : Signal) : Signal := { s with name := ρ s.name }

@[simp] lemma rename_singleBit (ρ : String → String) (name : String) :
    (singleBit name).rename ρ = singleBit (ρ name) := rfl

lemma map_rename_congr {ρ ρ' : String → String} {signals : List Signal}
    (h : ∀ name ∈ signals.map (·.name), ρ name = ρ' name) :
    signals.map (rename ρ) = signals.map (rename ρ') := by
  refine List.map_congr_left fun s hs => ?_
  rw [rename, rename, h s.name (List.mem_map_of_mem hs)]

lemma map_rename_eq_self {ρ : String → String} {signals : List Signal}
    (h : ∀ name ∈ signals.map (·.name), ρ name = name) : signals.map (rename ρ) = signals :=
  (map_rename_congr h).trans (List.map_id signals)

end Signal

/-- Renames the signals of a specification, inside and at its elements. -/
def Specification.rename (ρ : String → String) (s : Specification) : Specification :=
  { s with
    signals := s.signals.map (Signal.rename ρ)
    elements := s.elements.map (Element.rename ρ) }

lemma Specification.rename_congr {ρ ρ' : String → String} {s : Specification}
    (hmentions : Element.mentions s.elements ⊆ s.signals.map (·.name))
    (h : ∀ name ∈ s.signals.map (·.name), ρ name = ρ' name) : s.rename ρ = s.rename ρ' := by
  rw [rename, rename, Signal.map_rename_congr h,
    Element.map_rename_congr fun name hname => h name (hmentions hname)]

/-- A renaming that keeps names apart commutes with dropping repetitions. -/
lemma firstOccurrences_map {ρ : String → String} (hρ : Function.Injective ρ) (names : List String) :
    firstOccurrences (names.map ρ) = (firstOccurrences names).map ρ := by
  induction names with
  | nil => rfl
  | cons first rest ih =>
    have hne : ((· != ρ first) ∘ ρ) = (· != first) := by
      funext name
      simp [bne, hρ.eq_iff]
    rw [List.map_cons, firstOccurrences, firstOccurrences, ih, List.map_cons, List.filter_map, hne]

/-- The renaming that replaces the names of `old` by those of `new`, one by one, and no others. -/
def replace : (old new : List String) → String → String
  | first :: old, other :: new, name => if name = first then other else replace old new name
  | _, _, name => name

lemma replace_of_notMem {old : List String} (new : List String) {name : String}
    (h : name ∉ old) : replace old new name = name := by
  fun_induction replace old new name with
  | case1 => exact absurd List.mem_cons_self h
  | case2 first old other new name hne ih => exact ih fun hmem => h (List.mem_cons_of_mem _ hmem)
  | case3 => rfl

lemma map_replace {old new : List String} (hold : old.Nodup) (hlength : old.length = new.length) :
    old.map (replace old new) = new := by
  induction old generalizing new with
  | nil => exact (List.eq_nil_of_length_eq_zero hlength.symm).symm
  | cons first old ih =>
    obtain ⟨hfirst, hold⟩ := List.nodup_cons.mp hold
    cases new with
    | nil => cases hlength
    | cons other new =>
      have hrest : ∀ name ∈ old,
          replace (first :: old) (other :: new) name = replace old new name := by
        intro name hname
        have hne : name ≠ first := fun heq => hfirst (heq ▸ hname)
        rw [replace, if_neg hne]
      rw [List.map_cons, List.map_congr_left hrest, ih hold (Nat.succ.inj hlength)]
      simp [replace]

/-- A renaming that agrees with the replacement on the old names takes them to the new ones. -/
lemma map_eq_of_replace {ρ : String → String} {old new : List String} (hold : old.Nodup)
    (hlength : old.length = new.length) (hρ : ∀ name ∈ old, ρ name = replace old new name) :
    old.map ρ = new :=
  (List.map_congr_left hρ).trans (map_replace hold hlength)

/-- A replacement of different names by different names is part of a permutation of all names. -/
lemma exists_perm_replace {old new : List String} (hold : old.Nodup) (hnew : new.Nodup)
    (hlength : old.length = new.length) :
    ∃ π : Equiv.Perm String, ∀ name, name ∈ old ∨ name ∉ new → π name = replace old new name := by
  induction old generalizing new with
  | nil => exact ⟨Equiv.refl _, fun name _ => by simp [replace]⟩
  | cons first old ih =>
    cases new with
    | nil => cases hlength
    | cons other new =>
      obtain ⟨hfirst, hold⟩ := List.nodup_cons.mp hold
      obtain ⟨hother, hnew⟩ := List.nodup_cons.mp hnew
      have hlength := Nat.succ.inj hlength
      obtain ⟨π, hπ⟩ := ih hold hnew hlength
      refine ⟨π.trans (Equiv.swap (π first) other), fun name hname => ?_⟩
      by_cases heq : name = first
      · simp [replace, heq]
      -- The swap only moves the image of `first` and `other`; no other image is one of these.
      have hmoved : π name ≠ π first := fun h => heq (π.injective h)
      have himage : π name = replace old new name ∧ replace old new name ≠ other := by
        by_cases hmem : name ∈ old
        · have hnew : replace old new name ∈ old.map (replace old new) := List.mem_map_of_mem hmem
          rw [map_replace hold hlength] at hnew
          exact ⟨hπ name (.inl hmem), fun h => hother (h ▸ hnew)⟩
        · have hunknown := hname.resolve_left (by simp [heq, hmem])
          obtain ⟨hne, hunknown⟩ := not_or.mp (List.mem_cons.not.mp hunknown)
          rw [hπ name (.inr hunknown), replace_of_notMem new hmem]
          exact ⟨rfl, hne⟩
      rw [Equiv.trans_apply, Equiv.swap_apply_of_ne_of_ne hmoved (himage.1 ▸ himage.2), himage.1]
      simp [replace, heq]

end VhdlGates
