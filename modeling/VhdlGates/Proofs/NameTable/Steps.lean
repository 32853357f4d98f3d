import Mathlib.Logic.Relation
import Mathlib.Tactic.Common
import VhdlGates.NameTable

/-! What can happen to a name table while statements are lowered. A rail is marked as used, or a
temporary is added; everything that lowering does to the table is a sequence of these two steps. -/
namespace VhdlGates

namespace Config

lemma temporaryName_injective (config : Config) : Function.Injective config.temporaryName := by
  intro m n h
  have hlists : (config.temporaryName m).toList = (config.temporaryName n).toList :=
    congrArg String.toList h
  simp only [temporaryName, String.toList_append] at hlists
  have hdigits : Nat.toDigits 10 m = Nat.toDigits 10 n := by
    simpa only [Nat.toString_eq_repr, Nat.toList_repr] using List.append_cancel_left hlists
  simpa using congrArg (fun digits => Nat.ofDigitChars 10 digits 0) hdigits

lemma railName_of_rail? {config : Config} {name : String} {value : Bool}
    (h : config.rail? name = some value) : config.railName value = name := by
  unfold rail? at h
  split_ifs at h with hhigh hlow
  · obtain rfl := Option.some.inj h
    exact hhigh.symm
  · obtain rfl := Option.some.inj h
    exact hlow.symm

lemma rail?_eq_none {config : Config} {name : String} :
    config.rail? name = none ↔ ∀ value, name ≠ config.railName value := by
  simp only [rail?, railName, Bool.forall_bool]
  split_ifs <;> simp_all

end Config

section FirstUnused

variable (config : Config)

lemma le_firstUnused (used : List String) (index : ℕ) : index ≤ firstUnused config used index := by
  fun_induction firstUnused config used index with
  | case1 used index h ih => exact Nat.le_of_succ_le ih
  | case2 used index h => exact Nat.le_refl index

/-- The names struck off during the search belong to smaller numbers, so the number found is
unused among all names. -/
lemma temporaryName_firstUnused_notMem (used : List String) (index : ℕ) :
    config.temporaryName (firstUnused config used index) ∉ used := by
  fun_induction firstUnused config used index with
  | case1 used index h ih =>
    intro hmem
    have hle := le_firstUnused config (used.erase (config.temporaryName index)) (index + 1)
    apply ih
    refine (List.mem_erase_of_ne ?_).mpr hmem
    intro heq
    have := config.temporaryName_injective heq
    omega
  | case2 used index h => exact h

end FirstUnused

namespace Lowering

variable {α β : Type}

/-- A sequence succeeds exactly if both of its parts do, one after the other. -/
lemma run_bind_eq_ok {m : Lowering α} {f : α → Lowering β} {t t' : NameTable} {b : β} :
    (m >>= f).run t = .ok b t' ↔ ∃ a s, m.run t = .ok a s ∧ (f a).run s = .ok b t' := by
  rw [EStateM.run_bind]
  cases m.run t <;> simp

lemma run_pure_eq_ok {a b : α} {t t' : NameTable} :
    (pure a : Lowering α).run t = .ok b t' ↔ a = b ∧ t = t' := by
  rw [EStateM.run_pure, EStateM.Result.ok.injEq]

lemma run_throw_ne_ok {fault : Fault} {a : α} {t t' : NameTable} :
    (throw fault : Lowering α).run t ≠ .ok a t' := by
  intro h
  cases h

end Lowering

namespace NameTable

variable (config : Config)

/-- The names of the signals of a table, in the order of their declaration. -/
def signalNames (t : NameTable) : List String := t.signals.map (·.name)

/-- The table after a reference to a rail. -/
def afterRail (t : NameTable) (value : Bool) : NameTable :=
  if t.railUsed value then t else (t.useRail value).addSignal (config.railName value)

/-- The name that the next temporary gets. -/
def freshName (t : NameTable) : String :=
  config.temporaryName (firstUnused config t.names t.nextTemporary)

/-- The table after the creation of a temporary. -/
def afterTemporary (t : NameTable) : NameTable :=
  { ((t.addNotice (.temporary (t.freshName config))).addSignal (t.freshName config)).addName
      (t.freshName config) with
    nextTemporary := firstUnused config t.names t.nextTemporary + 1 }

lemma run_rail (value : Bool) (t : NameTable) :
    (rail config value).run t = .ok (config.railName value) (t.afterRail config value) := by
  cases h : t.railUsed value with
  | true => simp [rail, afterRail, h]
  | false => simp [rail, afterRail, h, -bind_pure_comp]

lemma run_temporary (t : NameTable) :
    (temporary config).run t = .ok (t.freshName config) (t.afterTemporary config) := rfl

/-- An identifier stands for itself: either it names a rail, which is then in use, or the table
knows it. -/
lemma run_resolve_eq_ok {name signal : String} {t t' : NameTable} :
    (resolve config name).run t = .ok signal t' ↔ signal = name ∧
      ((∃ value, config.rail? name = some value ∧ t' = t.afterRail config value) ∨
        config.rail? name = none ∧ name ∈ t.names ∧ t' = t) := by
  unfold resolve
  cases hrail : config.rail? name with
  | some value =>
    simp only [run_rail, EStateM.Result.ok.injEq, Config.railName_of_rail? hrail]
    simp [eq_comm]
  | none =>
    simp only [Lowering.run_bind_eq_ok, EStateM.run_get, EStateM.Result.ok.injEq]
    by_cases hmem : name ∈ t.names
    · simp [hmem, eq_comm]
    · simp [hmem, Lowering.run_throw_ne_ok]

@[simp] lemma names_afterRail (t : NameTable) (value : Bool) :
    (t.afterRail config value).names = t.names := by
  unfold afterRail useRail addSignal
  split_ifs <;> rfl

@[simp] lemma names_afterTemporary (t : NameTable) :
    (t.afterTemporary config).names = t.names ++ [t.freshName config] := rfl

lemma notices_afterRail (t : NameTable) (value : Bool) :
    (t.afterRail config value).notices = t.notices := by
  unfold afterRail useRail addSignal
  split_ifs <;> rfl

lemma notices_afterTemporary (t : NameTable) :
    (t.afterTemporary config).notices = t.notices ++ [.temporary (t.freshName config)] := rfl

lemma ports_afterRail (t : NameTable) (value : Bool) :
    (t.afterRail config value).ports = t.ports := by
  unfold afterRail useRail addSignal
  split_ifs <;> rfl

lemma signals_afterRail (t : NameTable) (value : Bool) :
    (t.afterRail config value).signals =
      if t.railUsed value then t.signals else t.signals ++ [.singleBit (config.railName value)] := by
  unfold afterRail useRail addSignal
  split_ifs <;> rfl

lemma signals_afterTemporary (t : NameTable) :
    (t.afterTemporary config).signals = t.signals ++ [.singleBit (t.freshName config)] := rfl

@[simp] lemma signalNames_afterTemporary (t : NameTable) :
    (t.afterTemporary config).signalNames = t.signalNames ++ [t.freshName config] := by
  simp [signalNames, afterTemporary, addSignal, addNotice, addName, Signal.singleBit]

lemma signalNames_afterRail (t : NameTable) (value : Bool) :
    (t.afterRail config value).signalNames =
      if t.railUsed value then t.signalNames else t.signalNames ++ [config.railName value] := by
  unfold afterRail
  split_ifs
  · rfl
  · cases value <;> simp [signalNames, useRail, addSignal, Signal.singleBit]

lemma freshName_notMem (t : NameTable) : t.freshName config ∉ t.names :=
  temporaryName_firstUnused_notMem config t.names t.nextTemporary

/-- One change of the table. -/
inductive Step (t : NameTable) : NameTable → Prop
  | rail (value : Bool) : Step t (t.afterRail config value)
  | temporary : Step t (t.afterTemporary config)

/-- Any number of changes of the table. -/
def Reaches : NameTable → NameTable → Prop := Relation.ReflTransGen (Step config)

/-- The signals of a table are its names and the rails in use. -/
def Coherent (t : NameTable) : Prop :=
  ∀ name, name ∈ t.signalNames ↔
    name ∈ t.names ∨ ∃ value, t.railUsed value = true ∧ name = config.railName value

variable {config} {t t' t'' : NameTable}

lemma Step.signalNames_subset (h : Step config t t') : t.signalNames ⊆ t'.signalNames := by
  cases h with
  | rail value =>
    rw [signalNames_afterRail]
    split_ifs
    · exact List.Subset.refl _
    · exact List.subset_append_left _ _
  | temporary =>
    rw [signalNames_afterTemporary]
    exact List.subset_append_left _ _

lemma railUsed_afterRail (t : NameTable) (value other : Bool) :
    (t.afterRail config value).railUsed other = (t.railUsed other || other == value) := by
  cases h : t.railUsed value with
  | true => cases value <;> cases other <;> simp_all [afterRail]
  | false => cases value <;> cases other <;> simp_all [afterRail, useRail, addSignal, railUsed]

lemma Coherent.mem_signalNames (ht : t.Coherent config) {name : String} (h : name ∈ t.names) :
    name ∈ t.signalNames :=
  (ht name).mpr (.inl h)

lemma Coherent.rail_mem_signalNames (ht : t.Coherent config) {value : Bool}
    (h : t.railUsed value = true) : config.railName value ∈ t.signalNames :=
  (ht _).mpr (.inr ⟨value, h, rfl⟩)

lemma Step.coherent (h : Step config t t') (ht : t.Coherent config) : t'.Coherent config := by
  intro name
  cases h with
  | rail value =>
    simp only [signalNames_afterRail, names_afterRail, railUsed_afterRail, Bool.or_eq_true,
      beq_iff_eq]
    split_ifs with hused
    · rw [ht name]
      refine or_congr_right (exists_congr fun other => and_congr_left fun _ => ?_)
      exact ⟨.inl, fun h => h.elim id fun heq => heq ▸ hused⟩
    · rw [List.mem_append, ht name, List.mem_singleton, or_assoc]
      refine or_congr_right ⟨?_, ?_⟩
      · rintro (⟨other, hother, hname⟩ | hname)
        · exact ⟨other, .inl hother, hname⟩
        · exact ⟨value, .inr rfl, hname⟩
      · rintro ⟨other, hother | rfl, hname⟩
        · exact .inl ⟨other, hother, hname⟩
        · exact .inr hname
  | temporary =>
    rw [signalNames_afterTemporary, names_afterTemporary, List.mem_append, List.mem_append, ht name]
    exact or_right_comm

lemma rail_mem_signalNames_afterRail (ht : t.Coherent config) (value : Bool) :
    config.railName value ∈ (t.afterRail config value).signalNames :=
  ((Step.rail value).coherent ht).rail_mem_signalNames (by simp [railUsed_afterRail])

namespace Reaches

lemma refl (t : NameTable) : Reaches config t t := Relation.ReflTransGen.refl

lemma trans (h : Reaches config t t') (h' : Reaches config t' t'') : Reaches config t t'' :=
  Relation.ReflTransGen.trans h h'

lemma single (h : Step config t t') : Reaches config t t' := Relation.ReflTransGen.single h

lemma signalNames_subset (h : Reaches config t t') : t.signalNames ⊆ t'.signalNames := by
  induction h with
  | refl => exact List.Subset.refl _
  | tail _ hstep ih => exact List.Subset.trans ih hstep.signalNames_subset

lemma coherent (h : Reaches config t t') (ht : t.Coherent config) : t'.Coherent config := by
  induction h with
  | refl => exact ht
  | tail _ hstep ih => exact hstep.coherent ih

end Reaches

/-- Resolving an identifier changes the table by a step at most, and the signal is listed
afterwards. -/
lemma resolve_reaches {name signal : String} (h : (resolve config name).run t = .ok signal t') :
    Reaches config t t' ∧ (t.Coherent config → signal ∈ t'.signalNames) := by
  obtain ⟨rfl, ⟨value, hrail, rfl⟩ | ⟨-, hmem, rfl⟩⟩ := (run_resolve_eq_ok config).mp h
  · refine ⟨Reaches.single (.rail value), fun ht => ?_⟩
    rw [← Config.railName_of_rail? hrail]
    exact rail_mem_signalNames_afterRail ht value
  · exact ⟨Reaches.refl _, fun ht => ht.mem_signalNames hmem⟩

end NameTable

end VhdlGates
