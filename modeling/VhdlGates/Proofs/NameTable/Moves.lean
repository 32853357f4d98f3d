import Mathlib.Data.List.Basic
import VhdlGates.Proofs.Lowering.Equations

/-! Steps of a name table, apart from the table that they are done to. The same moves can be made
from different tables; then the temporaries get different names, and all else is the same. -/
namespace VhdlGates

/-- The temporary whose creation is noted. -/
def Notice.temporary? : Notice → Option String
  | .temporary name => some name
  | _ => none

/-- The temporaries that a stage has created, in the order of their creation. -/
def Report.temporaries {α : Type} (r : Report α) : List String :=
  r.notices.filterMap Notice.temporary?

lemma Notice.mem_filterMap_temporary? {notices : List Notice} {name : String} :
    name ∈ notices.filterMap Notice.temporary? ↔ Notice.temporary name ∈ notices := by
  rw [List.mem_filterMap]
  constructor
  · rintro ⟨notice, hmem, hname⟩
    cases notice with
    | temporary other =>
      obtain rfl := Option.some.inj hname
      exact hmem
    | _ => cases hname
  · intro h
    exact ⟨_, h, rfl⟩

namespace NameTable

/-- What a step does. -/
inductive Move where
  | rail (value : Bool)
  | temporary
  deriving DecidableEq

section Definitions

variable (config : Config)

def afterMove (t : NameTable) : Move → NameTable
  | .rail value => t.afterRail config value
  | .temporary => t.afterTemporary config

/-- The table after some moves. -/
def after (t : NameTable) (moves : List Move) : NameTable := moves.foldl (afterMove config) t

/-- The temporaries that some moves create, in the order of their creation. -/
def created (t : NameTable) : List Move → List String
  | [] => []
  | .rail value :: rest => created (t.afterRail config value) rest
  | .temporary :: rest => t.freshName config :: created (t.afterTemporary config) rest

end Definitions

variable {config : Config} {t : NameTable}

@[simp] lemma after_nil (config : Config) (t : NameTable) : t.after config [] = t := rfl

lemma after_append (config : Config) (t : NameTable) (moves more : List Move) :
    t.after config (moves ++ more) = (t.after config moves).after config more :=
  List.foldl_append

@[simp] lemma after_rail (config : Config) (t : NameTable) (value : Bool) :
    t.after config [.rail value] = t.afterRail config value := rfl

@[simp] lemma after_temporary (config : Config) (t : NameTable) :
    t.after config [.temporary] = t.afterTemporary config := rfl

lemma created_append (config : Config) (t : NameTable) (moves more : List Move) :
    t.created config (moves ++ more) =
      t.created config moves ++ (t.after config moves).created config more := by
  induction moves generalizing t with
  | nil => rfl
  | cons move rest ih =>
    cases move with
    | rail value => exact ih (t.afterRail config value)
    | temporary => exact congrArg _ (ih (t.afterTemporary config))

/-- How many temporaries are created does not depend on the table. -/
lemma length_created (config : Config) (t : NameTable) (moves : List Move) :
    (t.created config moves).length = moves.count .temporary := by
  induction moves generalizing t with
  | nil => rfl
  | cons move rest ih =>
    cases move with
    | rail value => rw [created, ih, List.count_cons_of_ne (by simp)]
    | temporary => rw [created, List.length_cons, ih, List.count_cons_self]

@[simp] lemma names_after (config : Config) (t : NameTable) (moves : List Move) :
    (t.after config moves).names = t.names ++ t.created config moves := by
  induction moves generalizing t with
  | nil => simp [created]
  | cons move rest ih =>
    cases move with
    | rail value =>
      rw [created, ← names_afterRail config t value]
      exact ih (t.afterRail config value)
    | temporary =>
      rw [created, List.append_cons, ← names_afterTemporary config t]
      exact ih (t.afterTemporary config)

lemma notices_after (config : Config) (t : NameTable) (moves : List Move) :
    (t.after config moves).notices = t.notices ++ (t.created config moves).map .temporary := by
  induction moves generalizing t with
  | nil => simp [created]
  | cons move rest ih =>
    cases move with
    | rail value =>
      rw [created, ← notices_afterRail config t value]
      exact ih (t.afterRail config value)
    | temporary =>
      rw [created, List.map_cons, List.append_cons]
      exact ih (t.afterTemporary config)

@[simp] lemma ports_after (config : Config) (t : NameTable) (moves : List Move) :
    (t.after config moves).ports = t.ports := by
  induction moves generalizing t with
  | nil => rfl
  | cons move rest ih =>
    cases move with
    | rail value => exact (ih (t.afterRail config value)).trans (ports_afterRail config t value)
    | temporary => exact ih (t.afterTemporary config)

lemma reaches_after (config : Config) (t : NameTable) (moves : List Move) :
    Reaches config t (t.after config moves) := by
  induction moves generalizing t with
  | nil => exact Reaches.refl t
  | cons move rest ih =>
    cases move with
    | rail value => exact (Reaches.single (.rail value)).trans (ih (t.afterRail config value))
    | temporary => exact (Reaches.single .temporary).trans (ih (t.afterTemporary config))

lemma created_isTemporary {moves : List Move} {name : String}
    (h : name ∈ t.created config moves) : ∃ index, name = config.temporaryName index := by
  induction moves generalizing t with
  | nil => cases h
  | cons move rest ih =>
    cases move with
    | rail value => exact ih h
    | temporary =>
      rcases List.mem_cons.mp h with rfl | h
      · exact ⟨_, rfl⟩
      · exact ih h

/-- No temporary gets a name that the table knows, nor one that another temporary has got. -/
lemma nodup_created (config : Config) (t : NameTable) (moves : List Move) :
    (t.created config moves).Nodup ∧ ∀ name ∈ t.created config moves, name ∉ t.names := by
  induction moves generalizing t with
  | nil => simp [created]
  | cons move rest ih =>
    cases move with
    | rail value => simpa [created] using ih (t.afterRail config value)
    | temporary =>
      obtain ⟨hnodup, hnew⟩ := ih (t.afterTemporary config)
      simp only [names_afterTemporary, List.mem_append, List.mem_singleton, not_or] at hnew
      refine ⟨List.nodup_cons.mpr ⟨fun hmem => (hnew _ hmem).2 rfl, hnodup⟩, ?_⟩
      exact List.forall_mem_cons.mpr ⟨freshName_notMem config t, fun name hname => (hnew name hname).1⟩

/-- The temporaries that are created from a table are new to its scope. -/
lemma created_notMem_scope {moves : List Move} (hapart : config.RailsApart) {name : String}
    (h : name ∈ t.created config moves) : name ∉ t.scope config := by
  rintro (hname | ⟨value, hrail⟩)
  · exact (nodup_created config t moves).2 name h hname
  · obtain ⟨index, hindex⟩ := created_isTemporary h
    exact hapart value index (hrail.symm.trans hindex)

lemma mem_scope_after {moves : List Move} {name : String} :
    name ∈ (t.after config moves).scope config ↔
      name ∈ t.scope config ∨ name ∈ t.created config moves := by
  simp only [scope, Set.mem_ofPred_eq, names_after, List.mem_append]
  exact or_right_comm

section Signals

/-- The rails that some moves bring into use. -/
def newRails (t : NameTable) (moves : List Move) : List Bool :=
  [true, false].filter fun value => !t.railUsed value && moves.contains (.rail value)

lemma mem_newRails {moves : List Move} {value : Bool} :
    value ∈ t.newRails moves ↔ t.railUsed value = false ∧ .rail value ∈ moves := by
  cases value <;> simp [newRails]

lemma nodup_newRails (t : NameTable) (moves : List Move) : (t.newRails moves).Nodup :=
  List.Pairwise.filter _ (by decide)

/-- The moves bring the same rails into use, in whatever order they are made. -/
lemma newRails_congr {moves others : List Move} (h : moves.Perm others) :
    t.newRails moves = t.newRails others :=
  List.filter_congr fun value _ => by rw [h.contains_eq]

lemma newRails_rail (config : Config) (t : NameTable) (value : Bool) (rest : List Move) :
    (t.newRails (.rail value :: rest)).Perm
      ((if t.railUsed value then [] else [value]) ++ (t.afterRail config value).newRails rest) := by
  refine (List.perm_ext_iff_of_nodup (nodup_newRails t _) ?_).mpr fun other => ?_
  · refine List.nodup_append.mpr ⟨?_, nodup_newRails _ rest, ?_⟩
    · split_ifs <;> simp
    · simp +contextual [mem_newRails, railUsed_afterRail]
  · simp only [mem_newRails, List.mem_append, railUsed_afterRail, List.mem_cons, Move.rail.injEq]
    grind

/-- Up to their order, the signals after some moves are those before, the temporaries and the rails
that come into use. -/
lemma signals_after_perm (config : Config) (t : NameTable) (moves : List Move) :
    (t.after config moves).signals.Perm (t.signals ++ (t.created config moves).map .singleBit ++
      (t.newRails moves).map fun value => .singleBit (config.railName value)) := by
  induction moves generalizing t with
  | nil => simp [created, newRails]
  | cons move rest ih =>
    cases move with
    | rail value =>
      refine (ih (t.afterRail config value)).trans ?_
      have hrails := (newRails_rail config t value rest).map fun v =>
        Signal.singleBit (config.railName v)
      refine .trans ?_ (hrails.symm.append_left _)
      rw [signals_afterRail, created]
      split_ifs
      · exact List.Perm.refl _
      · simp only [List.map_cons, List.append_assoc, List.cons_append, List.nil_append]
        exact List.perm_middle.symm.append_left _
    | temporary =>
      refine (ih (t.afterTemporary config)).trans ?_
      simp only [signals_afterTemporary, created, List.map_cons, List.append_assoc,
        List.cons_append, List.nil_append]
      exact List.Perm.refl _

end Signals

end NameTable

end VhdlGates
