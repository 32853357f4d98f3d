import VhdlGates.Proofs.NameTable.Moves

/-! The signals that moves add to a table, in the order in which they come in. The numbers of the
temporaries have no gaps: a number is left out only if its name is declared. -/
namespace VhdlGates

/-- The numbers below a bound whose temporary names are not among `names`. -/
def Config.freeNumbers (config : Config) (names : List String) (bound : ℕ) : List ℕ :=
  (List.range bound).filter fun n => config.temporaryName n ∉ names

section FreeNumbers

variable {config : Config} {names : List String}

lemma Config.mem_freeNumbers {bound n : ℕ} :
    n ∈ config.freeNumbers names bound ↔ n < bound ∧ config.temporaryName n ∉ names := by
  simp [freeNumbers]

/-- A bound can be raised over numbers whose names are taken. -/
lemma Config.freeNumbers_raise {low high : ℕ} (hle : low ≤ high)
    (h : ∀ n, low ≤ n → n < high → config.temporaryName n ∈ names) :
    config.freeNumbers names high = config.freeNumbers names low := by
  induction high, hle using Nat.le_induction with
  | base => rfl
  | succ high hle ih =>
    have hlast : config.temporaryName high ∈ names := h high hle (Nat.lt_succ_self high)
    rw [← ih fun n hlow hhigh => h n hlow (Nat.lt_succ_of_lt hhigh)]
    simp [freeNumbers, List.range_succ, hlast]

lemma Config.freeNumbers_succ {bound : ℕ} (h : config.temporaryName bound ∉ names) :
    config.freeNumbers names (bound + 1) = config.freeNumbers names bound ++ [bound] := by
  simp [freeNumbers, List.range_succ, h]

/-- The search for an unused number passes over used ones only. -/
lemma mem_of_lt_firstUnused {used : List String} {index n : ℕ} (hle : index ≤ n)
    (hlt : n < firstUnused config used index) : config.temporaryName n ∈ used := by
  fun_induction firstUnused config used index with
  | case1 used index h ih =>
    rcases Nat.eq_or_lt_of_le hle with rfl | hnext
    · exact h
    · exact List.mem_of_mem_erase (ih hnext hlt)
  | case2 used index h => omega

end FreeNumbers

namespace NameTable

variable {config : Config} {declared : List String} {t t' : NameTable} {moves : List Move}

/-- Besides the declared names, the table knows the names of all free numbers below its counter. -/
def Numbered (config : Config) (declared : List String) (t : NameTable) : Prop :=
  t.names = declared ++ (config.freeNumbers declared t.nextTemporary).map config.temporaryName

lemma Numbered.mem_declared (h : t.Numbered config declared) {n : ℕ} (hle : t.nextTemporary ≤ n)
    (hn : config.temporaryName n ∈ t.names) : config.temporaryName n ∈ declared := by
  rw [h, List.mem_append] at hn
  refine hn.resolve_right fun hcreated => ?_
  obtain ⟨m, hm, heq⟩ := List.mem_map.mp hcreated
  have hlt := (Config.mem_freeNumbers.mp hm).1
  obtain rfl := config.temporaryName_injective heq
  omega

lemma Numbered.afterRail (h : t.Numbered config declared) (value : Bool) :
    (t.afterRail config value).Numbered config declared := by
  have hnext : (t.afterRail config value).nextTemporary = t.nextTemporary := by
    unfold NameTable.afterRail useRail addSignal
    split_ifs <;> rfl
  rw [Numbered, names_afterRail, hnext]
  exact h

lemma Numbered.afterTemporary (h : t.Numbered config declared) :
    (t.afterTemporary config).Numbered config declared := by
  let index := firstUnused config t.names t.nextTemporary
  have hle : t.nextTemporary ≤ index := le_firstUnused config t.names t.nextTemporary
  have hskipped : ∀ n, t.nextTemporary ≤ n → n < index → config.temporaryName n ∈ declared :=
    fun n hlow hhigh => h.mem_declared hlow (mem_of_lt_firstUnused hlow hhigh)
  have hfree : config.temporaryName index ∉ declared := by
    intro hmem
    refine freshName_notMem config t ?_
    rw [h]
    exact List.mem_append_left _ hmem
  change t.names ++ [config.temporaryName index] =
    declared ++ (config.freeNumbers declared (index + 1)).map config.temporaryName
  rw [Config.freeNumbers_succ hfree, Config.freeNumbers_raise hle hskipped, h, List.map_append,
    List.append_assoc]
  rfl

lemma Numbered.after (h : t.Numbered config declared) (moves : List Move) :
    (t.after config moves).Numbered config declared := by
  induction moves generalizing t with
  | nil => exact h
  | cons move rest ih =>
    cases move with
    | rail value => exact ih (h.afterRail value)
    | temporary => exact ih h.afterTemporary

/-- From a table with the declared names, the temporaries get the free numbers in their order. -/
theorem created_eq_freeNumbers (hnames : t.names = declared) (hnext : t.nextTemporary = 0)
    (moves : List Move) : ∃ bound,
      t.created config moves = (config.freeNumbers declared bound).map config.temporaryName := by
  have hstart : t.Numbered config declared := by
    rw [Numbered, hnames, hnext]
    simp [Config.freeNumbers]
  have hafter := hstart.after moves
  rw [Numbered, names_after, hnames] at hafter
  exact ⟨_, List.append_cancel_left hafter⟩

/-- The names of the signals that some moves add, in order. -/
def added (config : Config) (t : NameTable) : List Move → List String
  | [] => []
  | .rail value :: rest =>
    (if t.railUsed value then [] else [config.railName value]) ++
      added config (t.afterRail config value) rest
  | .temporary :: rest => t.freshName config :: added config (t.afterTemporary config) rest

lemma signals_after (config : Config) (t : NameTable) (moves : List Move) :
    (t.after config moves).signals = t.signals ++ (t.added config moves).map .singleBit := by
  induction moves generalizing t with
  | nil => simp [added]
  | cons move rest ih =>
    cases move with
    | rail value =>
      refine (ih (t.afterRail config value)).trans ?_
      rw [signals_afterRail, added]
      split_ifs <;> simp
    | temporary =>
      refine (ih (t.afterTemporary config)).trans ?_
      simp [signals_afterTemporary, added]

/-- Up to their order, the added signals are the temporaries and the rails that come into use. -/
lemma added_perm (config : Config) (t : NameTable) (moves : List Move) :
    (t.added config moves).Perm
      (t.created config moves ++ (t.newRails moves).map config.railName) := by
  have h := signals_after_perm config t moves
  rw [signals_after, List.append_assoc, List.perm_append_left_iff] at h
  have hnames := h.map Signal.name
  simpa [Function.comp_def, Signal.singleBit] using hnames

/-- Among the added signals, the temporaries stand in the order of their creation. -/
lemma created_sublist_added (config : Config) (t : NameTable) (moves : List Move) :
    (t.created config moves).Sublist (t.added config moves) := by
  induction moves generalizing t with
  | nil => exact List.Sublist.refl _
  | cons move rest ih =>
    cases move with
    | rail value => exact (ih (t.afterRail config value)).trans (List.sublist_append_right _ _)
    | temporary => exact (ih (t.afterTemporary config)).cons_cons _

/-- Where no temporary has the name of a rail, the temporaries are what is left without the rails. -/
lemma filter_added (hapart : config.RailsApart) (t : NameTable) (moves : List Move) :
    ((t.added config moves).filter fun name => (config.rail? name).isNone) =
      t.created config moves := by
  have hrail (value : Bool) : (config.rail? (config.railName value)).isNone = false := by
    rw [Option.isNone_eq_false_iff, Option.isSome_iff_ne_none]
    exact fun hnone => Config.rail?_eq_none.mp hnone value rfl
  have hfresh (t : NameTable) : (config.rail? (t.freshName config)).isNone = true := by
    rw [Option.isNone_iff_eq_none, Config.rail?_eq_none]
    exact fun value heq => hapart value _ heq.symm
  induction moves generalizing t with
  | nil => rfl
  | cons move rest ih =>
    cases move with
    | rail value =>
      rw [added, List.filter_append, ih, created]
      split_ifs <;> simp [hrail]
    | temporary => simp only [added, List.filter_cons, hfresh t, if_true, ih, created]

end NameTable

end VhdlGates
