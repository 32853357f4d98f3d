import Mathlib.Data.List.FinRange
import VhdlGates.Proofs.Lowering.Drivers
import VhdlGates.Proofs.Lowering.Uniform

/-! The order of the statements of an architecture. Each statement is lowered to a block of elements
of its own. In another order of the statements the blocks stand in that order, and are the same but
for the names of the temporaries. -/
namespace VhdlGates

open NameTable (Move)

namespace NameTable

/-- The signals after the same moves in another order. -/
lemma signals_after_reorder {config : Config} {t : NameTable} {moves others : List Move}
    {π : Equiv.Perm String} (hmoves : moves.Perm others)
    (hcreated : ((t.created config moves).map π).Perm (t.created config others))
    (hrail : ∀ value, π (config.railName value) = config.railName value)
    (hsignals : ∀ name ∈ t.signalNames, π name = name) :
    ((t.after config moves).signals.map (Signal.rename π)).Perm (t.after config others).signals := by
  have hrails : (t.newRails moves).map (Signal.rename π ∘ fun value =>
      .singleBit (config.railName value)) =
      (t.newRails others).map fun value => .singleBit (config.railName value) := by
    rw [newRails_congr hmoves]
    refine List.map_congr_left fun value _ => ?_
    rw [Function.comp_apply, Signal.rename_singleBit, hrail]
  refine ((signals_after_perm config t moves).map _).trans
    (.trans ?_ (signals_after_perm config t others).symm)
  simp only [List.map_append, List.map_map, Signal.map_rename_eq_self hsignals]
  refine (List.Perm.append_left _ ?_).append (.of_eq hrails)
  have h := hcreated.map Signal.singleBit
  rwa [List.map_map] at h

end NameTable

/-- The elements of a statement that is lowered from this table; none if that fails. -/
def Phrase.blockAt (config : Config) (statement : Phrase) (t : NameTable) : List Element :=
  match (lowerStatement config statement).run t with
  | .ok elements _ => elements
  | .error _ _ => []

lemma lowerEach_eq {α : Type} (f : α → Lowering (List Element)) (items : List α) :
    lowerEach f items = List.flatten <$> items.mapM f := by
  induction items with
  | nil => simp [lowerEach]
  | cons item rest ih => simp [lowerEach, ih, List.mapM_cons]

namespace Design

variable (config : Config)

/-- The elements of a design, a block for each statement. -/
def lowerBlocks (design : Design) : Lowering (List (List Element)) := do
  design.declare config
  design.architecture.body.mapM (Phrase.lowerStatement config)

/-- The design with its statements in another order: the statement `j` is the one that was at
`σ j`. -/
def reorder (design : Design) (σ : Equiv.Perm (Fin design.architecture.body.length)) : Design :=
  { design with architecture :=
    { design.architecture with body := List.ofFn (design.architecture.body.get ∘ σ) } }

lemma lower_eq_flatten (design : Design) :
    design.lower config = List.flatten <$> design.lowerBlocks config := by
  rw [lower_eq, lowerEach_eq, lowerBlocks, map_bind]

end Design

section Along

variable {α β : Type} (config : Config) (moves : α → List Move)

/-- What `f` finds for each of some items at the table where its turn comes, if the moves of the
items are made one after the other. -/
def along (f : α → NameTable → β) : List α → NameTable → List β
  | [], _ => []
  | item :: rest, t => f item t :: along f rest (t.after config (moves item))

/-- The table when it is the turn of the item `k`. -/
def tableAt {n : ℕ} (body : Fin n → α) (t : NameTable) (k : Fin n) : NameTable :=
  t.after config (((List.ofFn body).take k).flatMap moves)

lemma along_ofFn (f : α → NameTable → β) {n : ℕ} (body : Fin n → α) (t : NameTable) :
    along config moves f (List.ofFn body) t =
      List.ofFn fun k => f (body k) (tableAt config moves body t k) := by
  induction n generalizing t with
  | zero => simp [along]
  | succ n ih =>
    rw [List.ofFn_succ, along, ih, List.ofFn_succ]
    simp [tableAt, NameTable.after_append]

/-- All temporaries of some items. -/
def allCreated {n : ℕ} (body : Fin n → α) (t : NameTable) : List String :=
  t.created config ((List.ofFn body).flatMap moves)

lemma flatten_created_tableAt {n : ℕ} (body : Fin n → α) (t : NameTable) :
    (List.ofFn fun k => (tableAt config moves body t k).created config (moves (body k))).flatten =
      allCreated config moves body t := by
  have hflatten (items : List α) (t : NameTable) : List.flatten (along config moves
      (fun item t => t.created config (moves item)) items t) =
        t.created config (items.flatMap moves) := by
    induction items generalizing t with
    | nil => rfl
    | cons item rest ih =>
      rw [along, List.flatten_cons, ih, List.flatMap_cons, NameTable.created_append]
  rw [allCreated, ← hflatten, along_ofFn]

/-- The renaming of the temporaries when some items are put into another order, as a permutation of
all names, and as a function that changes the temporaries only. It takes those of an item to those
that the same item gets in its new place. -/
structure Reorders {n : ℕ} (body : Fin n → α) (σ : Equiv.Perm (Fin n)) (t : NameTable)
    (π : Equiv.Perm String) (ρ : String → String) : Prop where
  map_created : ∀ j,
    ((tableAt config moves body t (σ j)).created config (moves (body (σ j)))).map π =
      (tableAt config moves (body ∘ σ) t j).created config (moves (body (σ j)))
  perm : ((allCreated config moves body t).map π).Perm (allCreated config moves (body ∘ σ) t)
  kept : ∀ name ∉ allCreated config moves body t, ρ name = name
  agree : ∀ name, name ∈ allCreated config moves body t ∨
    name ∉ allCreated config moves (body ∘ σ) t → π name = ρ name

lemma exists_reorders {n : ℕ} (body : Fin n → α) (σ : Equiv.Perm (Fin n)) (t : NameTable) :
    ∃ π ρ, Reorders config moves body σ t π ρ := by
  let old k := (tableAt config moves body t k).created config (moves (body k))
  let new j := (tableAt config moves (body ∘ σ) t j).created config (moves (body (σ j)))
  have hold : (List.ofFn old).flatten = allCreated config moves body t :=
    flatten_created_tableAt config moves body t
  have hnew : (List.ofFn new).flatten = allCreated config moves (body ∘ σ) t :=
    flatten_created_tableAt config moves (body ∘ σ) t
  have hperm : (List.ofFn (old ∘ σ)).flatten.Perm (List.ofFn old).flatten :=
    (σ.ofFn_comp_perm old).flatten
  have hlengths : (List.ofFn (old ∘ σ)).map List.length = (List.ofFn new).map List.length := by
    simp only [List.map_ofFn]
    congr 1
    funext j
    simp [old, new, NameTable.length_created]
  have hlength : (List.ofFn (old ∘ σ)).flatten.length = (List.ofFn new).flatten.length := by
    rw [List.length_flatten, List.length_flatten, hlengths]
  have hnodup : (List.ofFn (old ∘ σ)).flatten.Nodup :=
    hperm.nodup_iff.mpr (hold ▸ (NameTable.nodup_created config t _).1)
  have hnodup' : (List.ofFn new).flatten.Nodup := hnew ▸ (NameTable.nodup_created config t _).1
  obtain ⟨π, hπ⟩ := exists_perm_replace hnodup hnodup' hlength
  have hmap : (List.ofFn (old ∘ σ)).flatten.map π = (List.ofFn new).flatten :=
    map_eq_of_replace hnodup hlength fun name hname => hπ name (.inl hname)
  refine ⟨π, replace (List.ofFn (old ∘ σ)).flatten (List.ofFn new).flatten, ?_, ?_, ?_, ?_⟩
  · -- The two lists agree as a whole, and so do their parts, since these have the same lengths.
    have hparts : (List.ofFn (old ∘ σ)).map (List.map π) = List.ofFn new := by
      refine List.eq_iff_flatten_eq.mpr ⟨?_, ?_⟩
      · rw [← List.map_flatten, hmap]
      · rw [← hlengths, List.map_map]
        exact List.map_congr_left fun part _ => List.length_map _
    rw [List.map_ofFn] at hparts
    exact congrFun (List.ofFn_injective hparts)
  · rw [← hold, ← hnew, ← hmap]
    exact hperm.symm.map π
  · intro name hname
    rw [← hold] at hname
    exact replace_of_notMem _ (mt hperm.mem_iff.mp hname)
  · intro name hname
    rw [← hold, ← hnew] at hname
    exact hπ name (hname.imp_left hperm.mem_iff.mpr)

variable {config moves} {n : ℕ} {body : Fin n → α} {σ : Equiv.Perm (Fin n)} {t : NameTable}
  {π : Equiv.Perm String} {ρ : String → String}

namespace Reorders

lemma bijOn (h : Reorders config moves body σ t π ρ) :
    Set.BijOn ρ { name | name ∈ allCreated config moves body t }
      { name | name ∈ allCreated config moves (body ∘ σ) t } := by
  refine ⟨fun name hname => ?_, fun name hname other hother heq => ?_, fun name hname => ?_⟩
  · rw [← h.agree name (.inl hname)]
    exact h.perm.mem_iff.mp (List.mem_map_of_mem hname)
  · rw [← h.agree name (.inl hname), ← h.agree other (.inl hother)] at heq
    exact π.injective heq
  · obtain ⟨old, hold, rfl⟩ := List.mem_map.mp (h.perm.mem_iff.mpr hname)
    exact ⟨old, hold, (h.agree old (.inl hold)).symm⟩

/-- Whatever is in scope before the items keeps its name. -/
lemma eq_of_mem_scope (h : Reorders config moves body σ t π ρ) (hapart : config.RailsApart)
    {name : String} (hname : name ∈ t.scope config) : π name = name := by
  have hold : name ∉ allCreated config moves body t := fun hcreated =>
    NameTable.created_notMem_scope hapart hcreated hname
  have hnew : name ∉ allCreated config moves (body ∘ σ) t := fun hcreated =>
    NameTable.created_notMem_scope hapart hcreated hname
  rw [h.agree name (.inr hnew), h.kept name hold]

/-- The two renamings agree on whatever is in scope after the items. -/
lemma agree_of_mem_scope (h : Reorders config moves body σ t π ρ) (hapart : config.RailsApart)
    {name : String}
    (hname : name ∈ (t.after config ((List.ofFn body).flatMap moves)).scope config) :
    π name = ρ name := by
  refine h.agree name ((NameTable.mem_scope_after.mp hname).symm.imp_right fun hscope => ?_)
  exact fun hcreated => NameTable.created_notMem_scope hapart hcreated hscope

/-- The permutation renames what an item creates to what it creates in its new place. -/
lemma renames (h : Reorders config moves body σ t π ρ) (hapart : config.RailsApart)
    {sources : Set String} (hsources : sources ⊆ t.scope config) (j : Fin n) :
    Site.Renames config.railName sources ⟨config, tableAt config moves body t (σ j)⟩
      ⟨config, tableAt config moves (body ∘ σ) t j⟩ (moves (body (σ j))) π where
  map_created := h.map_created j
  source_eq _ hname := h.eq_of_mem_scope hapart (hsources hname)
  rail_eq value := h.eq_of_mem_scope hapart (NameTable.rail_mem_scope config t value)

/-- The signals after the items, and those after the items in their new order. -/
lemma signals_perm (h : Reorders config moves body σ t π ρ) (hapart : config.RailsApart)
    (hcoherent : t.Coherent config) :
    ((t.after config ((List.ofFn body).flatMap moves)).signals.map (Signal.rename ρ)).Perm
      (t.after config ((List.ofFn (body ∘ σ)).flatMap moves)).signals := by
  have hmoves : ((List.ofFn body).flatMap moves).Perm ((List.ofFn (body ∘ σ)).flatMap moves) :=
    (σ.ofFn_comp_perm body).symm.flatMap_right moves
  have hafter := (NameTable.reaches_after config t ((List.ofFn body).flatMap moves)).coherent
    hcoherent
  have hperm := NameTable.signals_after_reorder hmoves h.perm
    (fun value => h.eq_of_mem_scope hapart (NameTable.rail_mem_scope config t value))
    fun name hname => h.eq_of_mem_scope hapart (hcoherent.mem_scope hname)
  rwa [Signal.map_rename_congr fun name hname =>
    h.agree_of_mem_scope hapart (hafter.mem_scope hname)] at hperm

end Reorders

end Along

namespace Design

variable {config : Config} {design : Design}

/-- A table that knows of the names of a design those that are declared. -/
def Fits (design : Design) (t : NameTable) : Prop :=
  ∀ name ∈ design.sources, name ∈ t.names ↔ name ∈ design.declaredNames

/-- From all fitting tables a statement is lowered by the same moves, and to the same block up to
the renaming of the temporaries. -/
structure Lowered (config : Config) (design : Design) (statement : Phrase) (moves : List Move) :
    Prop where
  run_eq : ∀ t, design.Fits t → (Phrase.lowerStatement config statement).run t =
    .ok (statement.blockAt config t) (t.after config moves)
  block_eq : ∀ t t', design.Fits t → design.Fits t' → ∀ π,
    Site.Renames config.railName design.sources ⟨config, t⟩ ⟨config, t'⟩ moves π →
      statement.blockAt config t' = (statement.blockAt config t).map (Element.rename π)

section Statements

variable (hapart : config.RailsApart)
  (hnames : ∀ statement ∈ design.architecture.body, ∀ name ∈ statement.usedNames,
    design.Knows config name)

include hapart hnames

lemma comparable_fits :
    Comparable config.railName design.sources { name | name ∈ design.declaredNames }
      fun t : { t // design.Fits t } => ⟨config, t⟩ where
  railName_eq _ _ := rfl
  mem_names_iff t := t.2
  apart t name := by
    rintro ⟨statement, hstatement, hname⟩ hunknown index rfl
    obtain ⟨value, hrail⟩ := (hnames statement hstatement _ hname).resolve_left hunknown
    exact hapart value index hrail.symm

lemma Fits.after {t : NameTable} (ht : design.Fits t) (moves : List Move) :
    design.Fits (t.after config moves) := fun _ hname =>
  (comparable_fits hapart hnames).mem_names_after_iff ⟨t, ht⟩ hname

lemma lowered_or_fails {statement : Phrase} (hstatement : statement ∈ design.architecture.body) :
    (∃ moves, Lowered config design statement moves) ∨ ∀ t, design.Fits t →
      ∃ fault t', (Phrase.lowerStatement config statement).run t = .error fault t' := by
  have huniform : Uniform _ [] _ _ := Phrase.lowerStatement_uniform (comparable_fits hapart hnames)
    statement fun name hname => ⟨statement, hstatement, hname⟩
  rcases huniform with ⟨fault, hfails⟩ | ⟨moves, block, hruns, hrelated⟩
  · exact .inr fun t ht => ⟨fault, hfails ⟨t, ht⟩⟩
  · have hblock (t : { t // design.Fits t }) : statement.blockAt config t = block t := by
      have hrun : (Phrase.lowerStatement config statement).run t = _ := hruns t
      rw [Phrase.blockAt, hrun]
    refine .inl ⟨moves, fun t ht => ?_, fun t t' ht ht' π hπ => ?_⟩
    · rw [hblock ⟨t, ht⟩]
      exact hruns ⟨t, ht⟩
    · rw [hblock ⟨t, ht⟩, hblock ⟨t', ht'⟩]
      exact hrelated ⟨t, ht⟩ ⟨t', ht'⟩ π hπ

/-- Statements that are lowered one after the other are lowered alike from all fitting tables. -/
lemma lowered_of_run {statements : List Phrase} (hbody : statements ⊆ design.architecture.body)
    {t t' : NameTable} {blocks : List (List Element)} (ht : design.Fits t)
    (hrun : (statements.mapM (Phrase.lowerStatement config)).run t = .ok blocks t') :
    ∀ statement ∈ statements, ∃ moves, Lowered config design statement moves := by
  induction statements generalizing t t' blocks with
  | nil => simp
  | cons statement rest ih =>
    obtain ⟨hstatement, hrest⟩ := List.cons_subset.mp hbody
    rw [List.mapM_cons] at hrun
    obtain ⟨block, s, hfirst, hrun⟩ := Lowering.run_bind_eq_ok.mp hrun
    obtain ⟨others, s', hothers, -⟩ := Lowering.run_bind_eq_ok.mp hrun
    rcases lowered_or_fails hapart hnames hstatement with ⟨moves, hlowered⟩ | hfails
    · have hs := hfirst.symm.trans (hlowered.run_eq t ht)
      cases hs
      have hothers := ih hrest (ht.after hapart hnames moves) hothers
      exact List.forall_mem_cons.mpr ⟨⟨moves, hlowered⟩, hothers⟩
    · obtain ⟨fault, s, hfails⟩ := hfails t ht
      rw [hfails] at hfirst
      cases hfirst

/-- The blocks of statements whose moves are known. -/
lemma run_mapM_lowered {moves : Phrase → List Move} {statements : List Phrase} {t : NameTable}
    (ht : design.Fits t)
    (h : ∀ statement ∈ statements, Lowered config design statement (moves statement)) :
    (statements.mapM (Phrase.lowerStatement config)).run t =
      .ok (along config moves (Phrase.blockAt config) statements t)
        (t.after config (statements.flatMap moves)) := by
  induction statements generalizing t with
  | nil => rfl
  | cons statement rest ih =>
    obtain ⟨hstatement, hrest⟩ := List.forall_mem_cons.mp h
    rw [List.mapM_cons, EStateM.run_bind, hstatement.run_eq t ht]
    simp only [EStateM.run_bind, ih (ht.after hapart hnames _) hrest, EStateM.run_pure, along,
      List.flatMap_cons, NameTable.after_append]

lemma run_mapM_ofFn {moves : Phrase → List Move} {n : ℕ} {body : Fin n → Phrase} {t : NameTable}
    (ht : design.Fits t) (h : ∀ k, Lowered config design (body k) (moves (body k))) :
    ((List.ofFn body).mapM (Phrase.lowerStatement config)).run t =
      .ok (List.ofFn fun k => (body k).blockAt config (tableAt config moves body t k))
        (t.after config ((List.ofFn body).flatMap moves)) := by
  rw [← along_ofFn]
  exact run_mapM_lowered hapart hnames ht (List.forall_mem_ofFn_iff.mpr h)

end Statements

lemma fits_of_declares {t : NameTable} (h : NameTable.Declares {} design.declaredNames t) :
    design.Fits t := fun name _ => by simp [h.names_eq]

/-- Lowering is lowering by blocks. -/
lemma run_lower_eq_ok {elements : List Element} {t : NameTable} :
    (design.lower config).run {} = .ok elements t ↔
      ∃ blocks, (design.lowerBlocks config).run {} = .ok blocks t ∧ blocks.flatten = elements := by
  rw [lower_eq_flatten, ← bind_pure_comp, Lowering.run_bind_eq_ok]
  simp only [Lowering.run_pure_eq_ok]
  constructor
  · rintro ⟨blocks, s, hrun, hflatten, rfl⟩
    exact ⟨blocks, hrun, hflatten⟩
  · rintro ⟨blocks, hrun, hflatten⟩
    exact ⟨blocks, t, hrun, hflatten, rfl⟩

lemma run_lowerBlocks_of_declare {s : NameTable} (h : (design.declare config).run {} = .ok () s) :
    (design.lowerBlocks config).run {} =
      (design.architecture.body.mapM (Phrase.lowerStatement config)).run s := by
  rw [lowerBlocks, EStateM.run_bind, h]

section Reorder

variable (hapart : config.RailsApart)
  (hnames : ∀ statement ∈ design.architecture.body, ∀ name ∈ statement.usedNames,
    design.Knows config name)

include hapart hnames

/-- Statements of a design, in any order and number, behind the same declarations can be lowered
exactly if each of them can. -/
lemma succeeds_iff {phrases : List Phrase} {other : Design} (hother : ofPhrases phrases = .ok other)
    (hdeclare : other.declare config = design.declare config)
    (hbody : other.architecture.body ⊆ design.architecture.body) :
    (∃ spec, (VhdlGates.synthesize config phrases).result = .ok spec) ↔
      (∃ s, (design.declare config).run {} = .ok () s) ∧
        ∀ statement ∈ other.architecture.body, ∃ moves, Lowered config design statement moves := by
  rw [← hdeclare]
  constructor
  · rintro ⟨spec, hresult⟩
    obtain ⟨_, elements, t, hother', hrun, -⟩ := run_of_result_ok hresult
    obtain rfl := Except.ok.inj (hother.symm.trans hother')
    obtain ⟨blocks, hblocks, -⟩ := run_lower_eq_ok.mp hrun
    obtain ⟨⟨⟩, s, hs, hblocks⟩ := Lowering.run_bind_eq_ok.mp hblocks
    refine ⟨⟨s, hs⟩, lowered_of_run hapart hnames hbody (fits_of_declares ?_) hblocks⟩
    exact (declares_of_run config (hdeclare ▸ hs)).2
  · rintro ⟨⟨s, hs⟩, hlowered⟩
    choose! moves hlowered using hlowered
    have hfits : design.Fits s := fits_of_declares (declares_of_run config (hdeclare ▸ hs)).2
    have hrun := run_mapM_lowered hapart hnames hfits hlowered
    rw [← run_lowerBlocks_of_declare hs] at hrun
    exact ⟨_, result_of_run_ok hother (run_lower_eq_ok.mpr ⟨_, hrun, rfl⟩)⟩

variable {σ : Equiv.Perm (Fin design.architecture.body.length)} {s : NameTable}
  {moves : Phrase → List Move} {π : Equiv.Perm String} {ρ : String → String}

/-- The blocks of a design, and those of the same design in another order. -/
lemma run_lowerBlocks_reorder (hdeclare : (design.declare config).run {} = .ok () s)
    (hlowered : ∀ statement ∈ design.architecture.body,
      Lowered config design statement (moves statement))
    (h : Reorders config moves design.architecture.body.get σ s π ρ) :
    ∃ blocks : Fin design.architecture.body.length → List Element,
      (design.lowerBlocks config).run {} = .ok (List.ofFn blocks)
        (s.after config (design.architecture.body.flatMap moves)) ∧
      ((design.reorder σ).lowerBlocks config).run {} =
        .ok (List.ofFn fun j => (blocks (σ j)).map (Element.rename ρ))
          (s.after config ((design.reorder σ).architecture.body.flatMap moves)) := by
  have hdeclares := (declares_of_run config hdeclare).2
  have hfits := fits_of_declares hdeclares
  have hget (k : Fin design.architecture.body.length) : Lowered config design
      (design.architecture.body.get k) (moves (design.architecture.body.get k)) :=
    hlowered _ (List.get_mem _ k)
  have hget' (j : Fin design.architecture.body.length) : Lowered config design
      ((design.architecture.body.get ∘ σ) j) (moves ((design.architecture.body.get ∘ σ) j)) :=
    hget (σ j)
  have hrun := run_mapM_ofFn hapart hnames hfits hget
  have hrun' : ((design.reorder σ).architecture.body.mapM
      (Phrase.lowerStatement config)).run s = _ := run_mapM_ofFn hapart hnames hfits hget'
  have hdeclare' : ((design.reorder σ).declare config).run {} = .ok () s := hdeclare
  rw [← run_lowerBlocks_of_declare hdeclare'] at hrun'
  have hagree {name : String}
      (hname : name ∈ (s.after config (design.architecture.body.flatMap moves)).scope config) :
      π name = ρ name := by
    rw [← List.ofFn_get design.architecture.body] at hname
    exact h.agree_of_mem_scope hapart hname
  rw [List.ofFn_get, ← run_lowerBlocks_of_declare hdeclare] at hrun
  obtain ⟨hcoherent, hmentions⟩ := mentions_of_run_lower (run_lower_eq_ok.mpr ⟨_, hrun, rfl⟩)
  refine ⟨_, hrun, hrun'.trans ?_⟩
  congr 2
  funext j
  have hsources : design.sources ⊆ s.scope config := by
    rintro name ⟨statement, hstatement, hname⟩
    rw [scope_of_declares hdeclares]
    exact hnames statement hstatement name hname
  refine ((hget (σ j)).block_eq _ _ (hfits.after hapart hnames _) (hfits.after hapart hnames _) π
    (h.renames hapart hsources j)).trans (Element.map_rename_congr fun name hname => ?_)
  obtain ⟨e, he, hname⟩ := List.mem_flatMap.mp hname
  refine hagree (hcoherent.mem_scope (hmentions (List.mem_flatMap.mpr ⟨e, ?_, hname⟩)))
  exact List.mem_flatten.mpr ⟨_, List.mem_ofFn.mpr ⟨σ j, rfl⟩, he⟩

omit hnames in
/-- The signals of a design, and those of the same design in another order. -/
lemma signals_reorder (hcoherent : s.Coherent config)
    (h : Reorders config moves design.architecture.body.get σ s π ρ) :
    ((s.after config (design.architecture.body.flatMap moves)).signals.map (Signal.rename ρ)).Perm
      (s.after config ((design.reorder σ).architecture.body.flatMap moves)).signals := by
  have hperm := h.signals_perm hapart hcoherent
  rw [List.ofFn_get] at hperm
  exact hperm

end Reorder

end Design

/-- The order of the statements of an architecture does not matter. If all names are declared or
those of rails, synthesis succeeds in one order exactly if it does in another one. The specifications
then have the same version, description, ports and architecture name. Some bijection between the
temporaries, which keeps all other names, takes the signals of the one to those of the other, and
the block of every statement to the block that the statement has in its new place. -/
theorem synthesize_reorder {config : Config} (hapart : config.RailsApart) {design : Design}
    (σ : Equiv.Perm (Fin design.architecture.body.length)) {phrases phrases' : List Phrase}
    (hdesign : Design.ofPhrases phrases = .ok design)
    (hreordered : Design.ofPhrases phrases' = .ok (design.reorder σ))
    (hnames : ∀ statement ∈ design.architecture.body, ∀ name ∈ statement.usedNames,
      design.Knows config name) :
    ((∃ spec, (synthesize config phrases).result = .ok spec) ↔
      ∃ spec', (synthesize config phrases').result = .ok spec') ∧
    ∀ spec spec', (synthesize config phrases).result = .ok spec →
      (synthesize config phrases').result = .ok spec' →
      spec'.version = spec.version ∧ spec'.description = spec.description ∧
      spec'.ports = spec.ports ∧ spec'.architectureName = spec.architectureName ∧
      ∃ ρ : String → String,
        Set.BijOn ρ { name | name ∈ (synthesize config phrases).temporaries }
          { name | name ∈ (synthesize config phrases').temporaries } ∧
        (∀ name ∉ (synthesize config phrases).temporaries, ρ name = name) ∧
        (spec.signals.map (Signal.rename ρ)).Perm spec'.signals ∧
        ∃ (blocks : Fin design.architecture.body.length → List Element) (t t' : NameTable),
          (design.lowerBlocks config).run {} = .ok (List.ofFn blocks) t ∧
          ((design.reorder σ).lowerBlocks config).run {} =
            .ok (List.ofFn fun j => (blocks (σ j)).map (Element.rename ρ)) t' ∧
          spec.elements = (List.ofFn blocks).flatten ∧
          spec'.elements = (List.ofFn fun j => (blocks (σ j)).map (Element.rename ρ)).flatten := by
  have hbody (statement : Phrase) : statement ∈ (design.reorder σ).architecture.body ↔
      statement ∈ design.architecture.body := by
    have hperm := σ.ofFn_comp_perm design.architecture.body.get
    rw [List.ofFn_get] at hperm
    exact hperm.mem_iff
  have hiff := Design.succeeds_iff hapart hnames hdesign rfl (List.Subset.refl _)
  have hiff' := Design.succeeds_iff hapart hnames hreordered rfl fun s => (hbody s).mp
  simp only [hbody] at hiff'
  refine ⟨hiff.trans hiff'.symm, fun spec spec' hspec hspec' => ?_⟩
  obtain ⟨⟨s, hdeclare⟩, hlowered⟩ := hiff.mp ⟨spec, hspec⟩
  choose! moves hlowered using hlowered
  obtain ⟨π, ρ, hρ⟩ := exists_reorders config moves design.architecture.body.get σ s
  obtain ⟨blocks, hrun, hrun'⟩ := Design.run_lowerBlocks_reorder hapart hnames hdeclare hlowered hρ
  have hlower := Design.run_lower_eq_ok.mpr ⟨_, hrun, rfl⟩
  have hlower' := Design.run_lower_eq_ok.mpr ⟨_, hrun', rfl⟩
  obtain rfl := Except.ok.inj ((Design.result_of_run_ok hdesign hlower).symm.trans hspec)
  obtain rfl := Except.ok.inj ((Design.result_of_run_ok hreordered hlower').symm.trans hspec')
  have htemporaries : (synthesize config phrases).temporaries =
      allCreated config moves design.architecture.body.get s := by
    rw [allCreated, List.ofFn_get]
    exact Design.temporaries_of_run hdesign hdeclare hlower
  have htemporaries' : (synthesize config phrases').temporaries =
      allCreated config moves (design.architecture.body.get ∘ σ) s :=
    Design.temporaries_of_run hreordered hdeclare hlower'
  have hcoherent := (Design.declares_of_run config hdeclare).2.coherent
    (NameTable.coherent_empty config)
  rw [htemporaries, htemporaries']
  refine ⟨rfl, rfl, ?_, rfl, ρ, hρ.bijOn, hρ.kept, ?_, blocks, _, _, hrun, hrun', rfl, rfl⟩
  · simp only [Design.assemble, NameTable.ports_after]
  · exact Design.signals_reorder hapart hcoherent hρ

/-- Two statements with a temporary each; the second one also reads a rail. -/
def twoGates : Design where
  entity := ⟨"E", [⟨["A", "B"], .input, "bit"⟩, ⟨["Y", "Z"], .output, "bit"⟩], {}⟩
  architecture := ⟨"R", "E", [],
    [.binary (.identifier "Y") (.assignment .toSignal)
        (.binary (.parenthesized (.binary (.identifier "A") (.logic .and) (.identifier "B") false))
          (.logic .or) (.identifier "A") true) false,
      .binary (.identifier "Z") (.assignment .toSignal)
        (.binary (.parenthesized (.binary (.identifier "A") (.logic .xor) (.literal (.bit true))
          false)) (.logic .and) (.identifier "B") true) false]⟩

theorem synthesize_reorder_reversed :
    ∃ spec spec', (synthesize {} twoGates.phrases).result = .ok spec ∧
      (synthesize {} (twoGates.reorder Fin.revPerm).phrases).result = .ok spec' ∧
      spec'.elements = [⟨.combinational, .xor, ["A", "VCC"], ["tmp_0"]⟩,
        ⟨.combinational, .and, ["tmp_0", "B"], ["Z"]⟩, ⟨.combinational, .and, ["A", "B"], ["tmp_1"]⟩,
        ⟨.combinational, .or, ["tmp_1", "A"], ["Y"]⟩] ∧
      ∃ (ρ : String → String) (blocks : Fin 2 → List Element),
        spec.elements = blocks 0 ++ blocks 1 ∧
        spec'.elements = (blocks 1 ++ blocks 0).map (Element.rename ρ) ∧
        (spec.signals.map (Signal.rename ρ)).Perm spec'.signals := by
  have hdeclared : ∀ statement ∈ twoGates.architecture.body, ∀ name ∈ statement.usedNames,
      name ∈ twoGates.declaredNames := by decide
  have hdesign : Design.ofPhrases twoGates.phrases = .ok twoGates := rfl
  have hreordered : Design.ofPhrases (twoGates.reorder Fin.revPerm).phrases =
      .ok (twoGates.reorder Fin.revPerm) := rfl
  obtain ⟨hiff, h⟩ := synthesize_reorder Config.railsApart_default _ hdesign hreordered
    fun statement hstatement name hname => .inl (hdeclared statement hstatement name hname)
  have hresult : (synthesize {} (twoGates.reorder Fin.revPerm).phrases).result = .ok
      ⟨1, "Synthesis Performer", [.singleBit "A" .input, .singleBit "B" .input,
        .singleBit "Y" .output, .singleBit "Z" .output], "R",
        [.singleBit "A", .singleBit "B", .singleBit "Y", .singleBit "Z", .singleBit "VCC",
          .singleBit "tmp_0", .singleBit "tmp_1"],
        [⟨.combinational, .xor, ["A", "VCC"], ["tmp_0"]⟩,
          ⟨.combinational, .and, ["tmp_0", "B"], ["Z"]⟩,
          ⟨.combinational, .and, ["A", "B"], ["tmp_1"]⟩,
          ⟨.combinational, .or, ["tmp_1", "A"], ["Y"]⟩]⟩ := by cbv
  obtain ⟨spec, hspec⟩ := hiff.mpr ⟨_, hresult⟩
  obtain ⟨-, -, -, -, ρ, -, -, hsignals, (blocks : Fin 2 → List Element), t, t', -, -, helements,
    helements'⟩ := h spec _ hspec hresult
  refine ⟨spec, _, hspec, hresult, rfl, ρ, blocks, ?_, ?_, hsignals⟩
  · exact helements.trans (congrArg (blocks 0 ++ ·) (List.append_nil (blocks 1)))
  · rw [List.map_append]
    exact helements'.trans (congrArg (_ ++ ·) (List.append_nil _))

end VhdlGates
