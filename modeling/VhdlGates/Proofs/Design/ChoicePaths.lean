import VhdlGates.Proofs.Design.StatementOrder
import VhdlGates.Proofs.Lowering.Comparison

/-! The two ways to write a choice between two values, as a conditional assignment and as an if
statement in a process. The operands of the choice are lowered in different orders. Both ways
succeed or fail together, and their circuits are the same but for the order of the elements and the
names of the temporaries. -/
namespace VhdlGates

open NameTable (Move)

namespace Phrase

variable {config : Config} {y : String} {a b c : Phrase}

/-- The computations of the operands of a choice: the value, the selector and the default. -/
def choiceParts (config : Config) (a c b : Phrase) : Fin 3 → Lowering Operand :=
  ![a.lowerOperand config, c.lowerSelector config, b.lowerOperand config]

/-- The multiplexer of a choice between the operands `u` and `v`. -/
def choiceMux (y : String) (u s v : Operand) : Element :=
  ⟨.connection, .mux, [u.signal, s.signal, v.signal], [y]⟩

lemma lowerStatement_whenElse {statement : Phrase}
    (h : statement.assignment? = some (y, .whenElse [⟨a, c⟩] b)) :
    lowerStatement config statement = (do
      let output ← NameTable.resolve config y
      let u ← a.lowerOperand config
      let s ← c.lowerSelector config
      let v ← b.lowerOperand config
      return u.feeds ++ s.feeds ++ v.feeds ++ [choiceMux output u s v]) := by
  obtain ⟨operator, terminated, rfl⟩ := exists_of_assignment? h
  have hnil : lowerBranches config [] = pure [] := by rw [lowerBranches]
  simp [lowerStatement, lowerAssignment, assignmentTarget, lower_whenElse, lowerBranches_cons, hnil,
    Carrier.drive, Gate.drive, firstOccurrences, choiceMux]

lemma lowerStatement_ifElse {thenStatement elseStatement : Phrase}
    (hthen : thenStatement.assignment? = some (y, a))
    (helse : elseStatement.assignment? = some (y, b)) :
    lowerStatement config (.process [] [.ifElse c [thenStatement] [elseStatement]]) = (do
      let s ← c.lowerSelector config
      let output ← NameTable.resolve config y
      let u ← a.lowerOperand config
      let v ← b.lowerOperand config
      return s.feeds ++ u.feeds ++ v.feeds ++ [choiceMux output u s v]) := by
  simp [lowerStatement, lowerItem, lowerEach, lowerIf, ofBody_of_assignment? hthen,
    ofBody_of_assignment? helse, MonadExcept.ofExcept, Assignments.targets, lowerTarget, lowerPath,
    Gate.drive, choiceMux]

lemma usedNames_whenElse {statement : Phrase}
    (h : statement.assignment? = some (y, .whenElse [⟨a, c⟩] b)) :
    statement.usedNames = y :: (a.identifiers ++ c.identifiers ++ b.identifiers) := by
  obtain ⟨operator, terminated, rfl⟩ := exists_of_assignment? h
  simp [usedNames, identifiers, branchIdentifiers]

end Phrase

/-- The operand that a computation finds from this table; an empty one if it fails. -/
def operandAt (m : Lowering Operand) (t : NameTable) : Operand :=
  match m.run t with
  | .ok o _ => o
  | .error _ _ => ⟨[], ""⟩

section TableAt

variable {α : Type} (config : Config) (moves : α → List Move) (body : Fin 3 → α) (t : NameTable)

lemma tableAt_zero : tableAt config moves body t 0 = t := by
  simp [tableAt]

lemma tableAt_one : tableAt config moves body t 1 = t.after config (moves (body 0)) := by
  simp [tableAt]

lemma tableAt_two : tableAt config moves body t 2 =
    (t.after config (moves (body 0))).after config (moves (body 1)) := by
  simp [tableAt, NameTable.after_append]

lemma after_ofFn : t.after config ((List.ofFn body).flatMap moves) =
    ((t.after config (moves (body 0))).after config (moves (body 1))).after config
      (moves (body 2)) := by
  simp [NameTable.after_append]

lemma swap_two : Equiv.swap (0 : Fin 3) 1 2 = 2 := by decide

end TableAt

namespace Design

/-- The design with other statements. -/
def withBody (design : Design) (body : List Phrase) : Design :=
  { design with architecture := { design.architecture with body } }

variable {config : Config} {design : Design} {m : Lowering Operand} {t t' : NameTable}

/-- From all fitting tables a computation makes the same moves, and finds the same operand up to the
renaming of the temporaries. -/
structure FindsOperand (config : Config) (design : Design) (m : Lowering Operand)
    (moves : List Move) : Prop where
  run_eq : ∀ t, design.Fits t → m.run t = .ok (operandAt m t) (t.after config moves)
  rename_eq : ∀ t t', design.Fits t → design.Fits t' → ∀ π,
    Site.Renames config.railName design.sources ⟨config, t⟩ ⟨config, t'⟩ moves π →
      operandAt m t' = (operandAt m t).rename π

/-- The runs of a computation from all fitting tables go side by side. -/
def Steady (config : Config) (design : Design) (m : Lowering Operand) : Prop :=
  Uniform (fun t : { t // design.Fits t } => ⟨config, t⟩) []
    (OperandsRelated config.railName design.sources
      fun t : { t // design.Fits t } => ⟨config, t⟩) fun _ => m

lemma Steady.exists_findsOperand (h : Steady config design m) (ht : design.Fits t) {o : Operand}
    (hrun : m.run t = .ok o t') : ∃ moves, FindsOperand config design m moves := by
  rcases h with ⟨fault, hfails⟩ | ⟨moves, found, hruns, hrelated⟩
  · obtain ⟨s, hfails⟩ := hfails ⟨t, ht⟩
    cases hrun.symm.trans hfails
  · have hfound (t : { t // design.Fits t }) : operandAt m t = found t := by
      have hrun : m.run t = _ := hruns t
      rw [operandAt, hrun]
    refine ⟨moves, fun t ht => ?_, fun t t' ht ht' π hπ => ?_⟩
    · rw [hfound ⟨t, ht⟩]
      exact hruns ⟨t, ht⟩
    · rw [hfound ⟨t, ht⟩, hfound ⟨t', ht'⟩]
      exact hrelated ⟨t, ht⟩ ⟨t', ht'⟩ π hπ

/-- Computations whose operands are found by these moves. -/
def FindsAll (config : Config) (design : Design) {n : ℕ} (parts : Fin n → Lowering Operand)
    (moves : Fin n → List Move) : Prop :=
  ∀ k, FindsOperand config design (parts k) (moves k)

lemma FindsAll.choice {a b c : Phrase} {first second third : List Move}
    (hvalue : FindsOperand config design (a.lowerOperand config) first)
    (hselector : FindsOperand config design (c.lowerSelector config) second)
    (hfallback : FindsOperand config design (b.lowerOperand config) third) :
    FindsAll config design (Phrase.choiceParts config a c b) ![first, second, third] := by
  intro k
  fin_cases k
  · exact hvalue
  · exact hselector
  · exact hfallback

section Parts

variable {y : String} {a b c statement thenStatement elseStatement : Phrase}
  {moves : Fin 3 → List Move} {elements : List Element}

variable (hapart : config.RailsApart)
  (hnames : ∀ statement ∈ design.architecture.body, ∀ name ∈ statement.usedNames,
    design.Knows config name)
include hapart hnames

/-- If a computation succeeds from one fitting table, it does so from all of them, and leads to
fitting tables. -/
lemma Steady.of_run (h : Steady config design m) (ht : design.Fits t) {o : Operand}
    (hrun : m.run t = .ok o t') :
    (∃ moves, FindsOperand config design m moves) ∧ design.Fits t' := by
  obtain ⟨moves, hfinds⟩ := h.exists_findsOperand ht hrun
  cases hrun.symm.trans (hfinds.run_eq t ht)
  exact ⟨⟨moves, hfinds⟩, ht.after hapart hnames moves⟩

/-- The runs of all operands of a choice go side by side. -/
lemma steady_choice
    (hparts : ∀ name ∈ a.identifiers ++ c.identifiers ++ b.identifiers, name ∈ design.sources) :
    Steady config design (a.lowerOperand config) ∧
      Steady config design (c.lowerSelector config) ∧
      Steady config design (b.lowerOperand config) := by
  have hsites := comparable_fits hapart hnames
  obtain ⟨hac, hb⟩ := List.forall_mem_append.mp hparts
  obtain ⟨ha, hc⟩ := List.forall_mem_append.mp hac
  exact ⟨Phrase.lowerOperand_uniform hsites ha,
    Phrase.lowerSelector_uniform_of hsites hc (Phrase.lower_uniform hsites .operand c [] hc),
    Phrase.lowerOperand_uniform hsites hb⟩

/-- In another order the same operands are found, up to the renaming of the temporaries. -/
lemma FindsAll.rename_eq {n : ℕ} {parts : Fin n → Lowering Operand} {moves : Fin n → List Move}
    {σ : Equiv.Perm (Fin n)} {π : Equiv.Perm String} {ρ : String → String}
    (h : FindsAll config design parts moves) (ht : design.Fits t)
    (hsources : design.sources ⊆ t.scope config) (hρ : Reorders config id moves σ t π ρ)
    (j : Fin n) :
    operandAt (parts (σ j)) (tableAt config id (moves ∘ σ) t j) =
      (operandAt (parts (σ j)) (tableAt config id moves t (σ j))).rename π :=
  (h (σ j)).rename_eq _ _ (ht.after hapart hnames _) (ht.after hapart hnames _) π
    (hρ.renames hapart hsources j)

variable (hy : ∀ t, design.Fits t → (NameTable.resolve config y).run t = .ok y t)
include hy

lemma exists_findsAll_of_whenElse (ht : design.Fits t)
    (hparts : ∀ name ∈ a.identifiers ++ c.identifiers ++ b.identifiers, name ∈ design.sources)
    (hstatement : statement.assignment? = some (y, .whenElse [⟨a, c⟩] b))
    (hrun : (statement.lowerStatement config).run t = .ok elements t') :
    ∃ moves, FindsAll config design (Phrase.choiceParts config a c b) moves := by
  obtain ⟨ha, hc, hb⟩ := steady_choice hapart hnames hparts
  rw [Phrase.lowerStatement_whenElse hstatement] at hrun
  obtain ⟨_, t₀, hresolve, hrun⟩ := Lowering.run_bind_eq_ok.mp hrun
  cases hresolve.symm.trans (hy t ht)
  obtain ⟨u, t₁, hu, hrun⟩ := Lowering.run_bind_eq_ok.mp hrun
  obtain ⟨s, t₂, hs, hrun⟩ := Lowering.run_bind_eq_ok.mp hrun
  obtain ⟨v, t₃, hv, -⟩ := Lowering.run_bind_eq_ok.mp hrun
  obtain ⟨⟨first, hvalue⟩, ht₁⟩ := ha.of_run hapart hnames ht hu
  obtain ⟨⟨second, hselector⟩, ht₂⟩ := hc.of_run hapart hnames ht₁ hs
  obtain ⟨⟨third, hfallback⟩, -⟩ := hb.of_run hapart hnames ht₂ hv
  exact ⟨_, .choice hvalue hselector hfallback⟩

lemma exists_findsAll_of_ifElse (ht : design.Fits t)
    (hparts : ∀ name ∈ a.identifiers ++ c.identifiers ++ b.identifiers, name ∈ design.sources)
    (hthen : thenStatement.assignment? = some (y, a))
    (helse : elseStatement.assignment? = some (y, b))
    (hrun : ((Phrase.process [] [.ifElse c [thenStatement] [elseStatement]]).lowerStatement
      config).run t = .ok elements t') :
    ∃ moves, FindsAll config design (Phrase.choiceParts config a c b) moves := by
  obtain ⟨ha, hc, hb⟩ := steady_choice hapart hnames hparts
  rw [Phrase.lowerStatement_ifElse hthen helse] at hrun
  obtain ⟨s, t₁, hs, hrun⟩ := Lowering.run_bind_eq_ok.mp hrun
  obtain ⟨⟨second, hselector⟩, ht₁⟩ := hc.of_run hapart hnames ht hs
  obtain ⟨_, t₂, hresolve, hrun⟩ := Lowering.run_bind_eq_ok.mp hrun
  cases hresolve.symm.trans (hy t₁ ht₁)
  obtain ⟨u, t₃, hu, hrun⟩ := Lowering.run_bind_eq_ok.mp hrun
  obtain ⟨v, t₄, hv, -⟩ := Lowering.run_bind_eq_ok.mp hrun
  obtain ⟨⟨first, hvalue⟩, ht₃⟩ := ha.of_run hapart hnames ht₁ hu
  obtain ⟨⟨third, hfallback⟩, -⟩ := hb.of_run hapart hnames ht₃ hv
  exact ⟨_, .choice hvalue hselector hfallback⟩

lemma FindsAll.run_whenElse {o : Fin 3 → Operand} (ht : design.Fits t)
    (h : FindsAll config design (Phrase.choiceParts config a c b) moves)
    (ho : ∀ k, o k = operandAt (Phrase.choiceParts config a c b k) (tableAt config id moves t k))
    (hstatement : statement.assignment? = some (y, .whenElse [⟨a, c⟩] b)) :
    (statement.lowerStatement config).run t =
      .ok ((o 0).feeds ++ (o 1).feeds ++ (o 2).feeds ++ [Phrase.choiceMux y (o 0) (o 1) (o 2)])
        (t.after config ((List.ofFn moves).flatMap id)) := by
  have ht₁ := ht.after hapart hnames (moves 0)
  have hvalue := (h 0).run_eq t ht
  have hselector := (h 1).run_eq _ ht₁
  have hfallback := (h 2).run_eq _ (ht₁.after hapart hnames (moves 1))
  simp only [Phrase.choiceParts, Matrix.cons_val] at hvalue hselector hfallback
  rw [Phrase.lowerStatement_whenElse hstatement, ho 0, ho 1, ho 2, tableAt_zero, tableAt_one,
    tableAt_two, after_ofFn]
  simp only [EStateM.run_bind, hy t ht, hvalue, hselector, hfallback, EStateM.run_pure, id,
    Phrase.choiceParts, Matrix.cons_val]

lemma FindsAll.run_ifElse {o : Fin 3 → Operand} (ht : design.Fits t)
    (h : FindsAll config design (Phrase.choiceParts config a c b) moves)
    (ho : ∀ j, o j = operandAt (Phrase.choiceParts config a c b (Equiv.swap 0 1 j))
      (tableAt config id (moves ∘ Equiv.swap 0 1) t j))
    (hthen : thenStatement.assignment? = some (y, a))
    (helse : elseStatement.assignment? = some (y, b)) :
    ((Phrase.process [] [.ifElse c [thenStatement] [elseStatement]]).lowerStatement config).run t =
      .ok ((o 0).feeds ++ (o 1).feeds ++ (o 2).feeds ++ [Phrase.choiceMux y (o 1) (o 0) (o 2)])
        (t.after config ((List.ofFn (moves ∘ Equiv.swap 0 1)).flatMap id)) := by
  have ht₁ := ht.after hapart hnames (moves 1)
  have hselector := (h 1).run_eq t ht
  have hvalue := (h 0).run_eq _ ht₁
  have hfallback := (h 2).run_eq _ (ht₁.after hapart hnames (moves 0))
  simp only [Phrase.choiceParts, Matrix.cons_val] at hvalue hselector hfallback
  rw [Phrase.lowerStatement_ifElse hthen helse, ho 0, ho 1, ho 2, tableAt_zero, tableAt_one,
    tableAt_two, after_ofFn]
  simp only [EStateM.run_bind, hy _ ht₁, hvalue, hselector, hfallback, EStateM.run_pure, id,
    Phrase.choiceParts, Matrix.cons_val, Function.comp_apply, Equiv.swap_apply_left,
    Equiv.swap_apply_right, swap_two]

/-- The elements of a choice, and those of the same choice written the other way. -/
lemma FindsAll.run_choices {π : Equiv.Perm String} {ρ : String → String}
    (h : FindsAll config design (Phrase.choiceParts config a c b) moves) (ht : design.Fits t)
    (hsources : design.sources ⊆ t.scope config) (hπ : π y = y)
    (hρ : Reorders config id moves (Equiv.swap 0 1) t π ρ)
    (hstatement : statement.assignment? = some (y, .whenElse [⟨a, c⟩] b))
    (hthen : thenStatement.assignment? = some (y, a))
    (helse : elseStatement.assignment? = some (y, b)) :
    ∃ feeds feeds' u s v,
      (statement.lowerStatement config).run t = .ok (feeds ++ [Phrase.choiceMux y u s v])
        (t.after config ((List.ofFn moves).flatMap id)) ∧
      ((Phrase.process [] [.ifElse c [thenStatement] [elseStatement]]).lowerStatement config).run t =
        .ok (feeds' ++ [(Phrase.choiceMux y u s v).rename π])
          (t.after config ((List.ofFn (moves ∘ Equiv.swap 0 1)).flatMap id)) ∧
      (feeds.map (Element.rename π)).Perm feeds' := by
  let o (k : Fin 3) := operandAt (Phrase.choiceParts config a c b k) (tableAt config id moves t k)
  have hrun := h.run_whenElse hapart hnames hy ht (fun _ => rfl : ∀ k, o k = _) hstatement
  have hrun' := h.run_ifElse hapart hnames hy ht
    (fun j => (h.rename_eq hapart hnames ht hsources hρ j).symm) hthen helse
  have hmux : Phrase.choiceMux y ((o 0).rename π) ((o 1).rename π) ((o 2).rename π) =
      (Phrase.choiceMux y (o 0) (o 1) (o 2)).rename π := by
    simp [Phrase.choiceMux, Element.rename, Operand.rename, hπ]
  rw [Equiv.swap_apply_left, Equiv.swap_apply_right, swap_two, hmux] at hrun'
  refine ⟨_, _, o 0, o 1, o 2, hrun, hrun', ?_⟩
  rw [List.map_append, List.map_append]
  exact List.perm_append_comm.append_right _

end Parts

section Statement

variable {statement : Phrase} {phrases : List Phrase} {elements : List Element} {s : NameTable}

lemma run_lower_withBody (hdeclare : (design.declare config).run {} = .ok () s) :
    ((design.withBody [statement]).lower config).run {} =
      (statement.lowerStatement config).run s := by
  have hdeclare' : ((design.withBody [statement]).declare config).run {} = .ok () s := hdeclare
  rw [run_lower_of_declare config hdeclare']
  simp [withBody, lowerEach]

/-- A design with one statement is synthesized exactly if the statement is lowered. -/
lemma succeeds_withBody_iff (hdesign : ofPhrases phrases = .ok (design.withBody [statement])) :
    (∃ spec, (VhdlGates.synthesize config phrases).result = .ok spec) ↔
      ∃ s, (design.declare config).run {} = .ok () s ∧
        ∃ elements t, (statement.lowerStatement config).run s = .ok elements t := by
  constructor
  · rintro ⟨spec, hresult⟩
    obtain ⟨_, elements, t, hdesign', hrun, -⟩ := run_of_result_ok hresult
    obtain rfl := Except.ok.inj (hdesign.symm.trans hdesign')
    obtain ⟨-, s, hdeclare, -⟩ := (run_lower_iff config).mp hrun
    exact ⟨s, hdeclare, elements, t, (run_lower_withBody hdeclare).symm.trans hrun⟩
  · rintro ⟨s, hdeclare, elements, t, hrun⟩
    exact ⟨_, result_of_run_ok hdesign ((run_lower_withBody hdeclare).trans hrun)⟩

end Statement

section Choice

variable {y : String} {a b c statement thenStatement elseStatement : Phrase} {s : NameTable}

variable (hapart : config.RailsApart)
  (hstatement : statement.assignment? = some (y, .whenElse [⟨a, c⟩] b))
  (hthen : thenStatement.assignment? = some (y, a))
  (helse : elseStatement.assignment? = some (y, b)) (hy : y ∈ design.declaredNames)
  (hknown : ∀ name ∈ a.identifiers ++ c.identifiers ++ b.identifiers, design.Knows config name)
  (hdeclare : (design.declare config).run {} = .ok () s)

include hstatement hy hknown in
lemma known_withBody : ∀ other ∈ (design.withBody [statement]).architecture.body,
    ∀ name ∈ other.usedNames, (design.withBody [statement]).Knows config name := by
  refine List.forall_mem_singleton.mpr ?_
  rw [Phrase.usedNames_whenElse hstatement]
  exact List.forall_mem_cons.mpr ⟨.inl hy, hknown⟩

include hstatement in
lemma mem_sources_withBody : ∀ name ∈ y :: (a.identifiers ++ c.identifiers ++ b.identifiers),
    name ∈ (design.withBody [statement]).sources := by
  intro name hname
  rw [← Phrase.usedNames_whenElse hstatement] at hname
  exact ⟨statement, List.mem_singleton_self _, hname⟩

include hdeclare in
lemma fits_withBody : (design.withBody [statement]).Fits s :=
  fits_of_declares (declares_of_run config hdeclare).2

include hstatement hy hdeclare in
/-- A declared name is no rail, so the table does not change when it is resolved. -/
lemma run_resolve_withBody : ∀ t, (design.withBody [statement]).Fits t →
    (NameTable.resolve config y).run t = .ok y t := by
  intro t ht
  have hrail := Config.rail?_eq_none.mpr ((declares_of_run config hdeclare).1.not_rail y hy)
  have hmem := (ht y (mem_sources_withBody hstatement y List.mem_cons_self)).mpr hy
  exact (NameTable.run_resolve_eq_ok config).mpr ⟨rfl, .inr ⟨hrail, hmem, rfl⟩⟩

include hapart hstatement hthen helse hy hknown hdeclare

/-- Written in either way, a choice is lowered exactly if its operands can be found. -/
lemma lowers_choice_iff :
    ((∃ elements t, (statement.lowerStatement config).run s = .ok elements t) ↔
      ∃ moves, FindsAll config (design.withBody [statement]) (Phrase.choiceParts config a c b)
        moves) ∧
    ((∃ elements t, ((Phrase.process [] [.ifElse c [thenStatement] [elseStatement]]).lowerStatement
        config).run s = .ok elements t) ↔
      ∃ moves, FindsAll config (design.withBody [statement]) (Phrase.choiceParts config a c b)
        moves) := by
  have hnames := known_withBody hstatement hy hknown
  have hfits : (design.withBody [statement]).Fits s := fits_withBody hdeclare
  obtain ⟨-, hparts⟩ : y ∈ (design.withBody [statement]).sources ∧ _ :=
    List.forall_mem_cons.mp (mem_sources_withBody hstatement)
  have hresolve := run_resolve_withBody hstatement hy hdeclare
  refine ⟨⟨?_, ?_⟩, ?_, ?_⟩
  · rintro ⟨elements, t, hrun⟩
    exact exists_findsAll_of_whenElse hapart hnames hresolve hfits hparts hstatement hrun
  · rintro ⟨moves, h⟩
    exact ⟨_, _, h.run_whenElse hapart hnames hresolve hfits (fun _ => rfl) hstatement⟩
  · rintro ⟨elements, t, hrun⟩
    exact exists_findsAll_of_ifElse hapart hnames hresolve hfits hparts hthen helse hrun
  · rintro ⟨moves, h⟩
    exact ⟨_, _, h.run_ifElse hapart hnames hresolve hfits (fun _ => rfl) hthen helse⟩

/-- The circuits of a choice that is written in the two ways. -/
lemma run_lower_choices {moves : Fin 3 → List Move} {π : Equiv.Perm String} {ρ : String → String}
    (h : FindsAll config (design.withBody [statement]) (Phrase.choiceParts config a c b) moves)
    (hρ : Reorders config id moves (Equiv.swap 0 1) s π ρ) :
    ∃ feeds feeds' p selector q,
      ((design.withBody [statement]).lower config).run {} =
        .ok (feeds ++ [⟨.connection, .mux, [p, selector, q], [y]⟩])
          (s.after config ((List.ofFn moves).flatMap id)) ∧
      ((design.withBody [.process [] [.ifElse c [thenStatement] [elseStatement]]]).lower config).run
          {} = .ok (feeds' ++ [⟨.connection, .mux, [ρ p, ρ selector, ρ q], [ρ y]⟩])
            (s.after config ((List.ofFn (moves ∘ Equiv.swap 0 1)).flatMap id)) ∧
      (feeds.map (Element.rename ρ)).Perm feeds' ∧ ρ y = y := by
  have hnames := known_withBody hstatement hy hknown
  have hscope : s.scope config = { name | design.Knows config name } :=
    scope_of_declares (declares_of_run config hdeclare).2
  have hsources : (design.withBody [statement]).sources ⊆ s.scope config := by
    rintro name ⟨other, hother, hname⟩
    rw [hscope]
    exact hnames other hother name hname
  have hmem : y ∈ s.scope config := hscope ▸ .inl hy
  have hkept : ρ y = y :=
    hρ.kept y fun hcreated => NameTable.created_notMem_scope hapart hcreated hmem
  obtain ⟨feeds, feeds', u, selector, v, hrun, hrun', hperm⟩ :=
    h.run_choices hapart hnames (run_resolve_withBody hstatement hy hdeclare)
      (fits_withBody hdeclare) hsources (hρ.eq_of_mem_scope hapart hmem) hρ hstatement hthen helse
  rw [← run_lower_withBody hdeclare] at hrun hrun'
  -- Whatever the elements mention is in scope at the end, where the two renamings agree.
  obtain ⟨hcoherent, hmentions⟩ := mentions_of_run_lower hrun
  have hcongr := Element.map_rename_congr fun name hname =>
    hρ.agree_of_mem_scope hapart (hcoherent.mem_scope (hmentions hname))
  rw [List.map_append, List.map_append] at hcongr
  obtain ⟨hfeeds, hmux⟩ := List.append_inj hcongr (by simp)
  obtain ⟨hmux, -⟩ := List.cons.inj hmux
  rw [hmux] at hrun'
  rw [hfeeds] at hperm
  exact ⟨feeds, feeds', u.signal, selector.signal, v.signal, hrun, hrun', hperm, hkept⟩

end Choice

end Design

/-- The two ways to write a choice agree. If `y` is declared and all names in the operands are
declared or those of rails, `y <= a when c else b` can be synthesized exactly if a process with
`if c then y <= a; else y <= b; end if` can. Some bijection between the temporaries, which keeps all
other names, then takes the signals and the elements of the one to those of the other, up to their
order. The multiplexer that drives `y` is the last element of both. -/
theorem synthesize_choicePaths {config : Config} (hapart : config.RailsApart) {design : Design}
    {y : String} {a b c statement thenStatement elseStatement : Phrase}
    {phrases phrases' : List Phrase}
    (hstatement : statement.assignment? = some (y, .whenElse [⟨a, c⟩] b))
    (hthen : thenStatement.assignment? = some (y, a))
    (helse : elseStatement.assignment? = some (y, b))
    (hdesign : Design.ofPhrases phrases = .ok (design.withBody [statement]))
    (hdesign' : Design.ofPhrases phrases' =
      .ok (design.withBody [.process [] [.ifElse c [thenStatement] [elseStatement]]]))
    (hy : y ∈ design.declaredNames)
    (hnames : ∀ name ∈ a.identifiers ++ c.identifiers ++ b.identifiers,
      design.Knows config name) :
    ((∃ spec, (synthesize config phrases).result = .ok spec) ↔
      ∃ spec', (synthesize config phrases').result = .ok spec') ∧
    ∀ spec spec', (synthesize config phrases).result = .ok spec →
      (synthesize config phrases').result = .ok spec' →
      ∃ ρ : String → String,
        Set.BijOn ρ { name | name ∈ (synthesize config phrases).temporaries }
          { name | name ∈ (synthesize config phrases').temporaries } ∧
        (∀ name ∉ (synthesize config phrases).temporaries, ρ name = name) ∧
        (spec.signals.map (Signal.rename ρ)).Perm spec'.signals ∧
        (spec.elements.map (Element.rename ρ)).Perm spec'.elements ∧
        ∃ p s q, spec.elements.getLast? = some ⟨.connection, .mux, [p, s, q], [y]⟩ ∧
          spec'.elements.getLast? = some ⟨.connection, .mux, [ρ p, ρ s, ρ q], [y]⟩ := by
  have hfinds {s : NameTable} (hdeclare : (design.declare config).run {} = .ok () s) :=
    Design.lowers_choice_iff hapart hstatement hthen helse hy hnames hdeclare
  refine ⟨?_, fun spec spec' hspec hspec' => ?_⟩
  · rw [Design.succeeds_withBody_iff hdesign, Design.succeeds_withBody_iff hdesign']
    refine exists_congr fun s => and_congr_right fun hdeclare => ?_
    rw [(hfinds hdeclare).1, (hfinds hdeclare).2]
  obtain ⟨s, hdeclare, hrun⟩ := (Design.succeeds_withBody_iff hdesign).mp ⟨spec, hspec⟩
  obtain ⟨moves, hmoves⟩ := (hfinds hdeclare).1.mp hrun
  obtain ⟨π, ρ, hρ⟩ := exists_reorders config id moves (Equiv.swap 0 1) s
  obtain ⟨feeds, feeds', p, selector, q, hlower, hlower', hperm, hkept⟩ :=
    Design.run_lower_choices hapart hstatement hthen helse hy hnames hdeclare hmoves hρ
  obtain rfl := Except.ok.inj ((Design.result_of_run_ok hdesign hlower).symm.trans hspec)
  obtain rfl := Except.ok.inj ((Design.result_of_run_ok hdesign' hlower').symm.trans hspec')
  have hcoherent := (Design.declares_of_run config hdeclare).2.coherent
    (NameTable.coherent_empty config)
  rw [Design.temporaries_of_run hdesign hdeclare hlower,
    Design.temporaries_of_run hdesign' hdeclare hlower']
  refine ⟨ρ, hρ.bijOn, hρ.kept, ?_, ?_, p, selector, q, ?_, ?_⟩
  · exact hρ.signals_perm hapart hcoherent
  · simp only [Design.assemble, List.map_append]
    exact hperm.append_right _
  · simp [Design.assemble]
  · simp [Design.assemble, hkept]

/-- `A and B`. -/
def bothInputs : Phrase := .binary (.identifier "A") (.logic .and) (.identifier "B") false

/-- `not S`. -/
def notSelected : Phrase := .unary (.logic .not) (.identifier "S") false

/-- `Y <= A and B when not S else '1';`. -/
def whenNot : Phrase :=
  .binary (.identifier "Y") (.assignment .toSignal)
    (.whenElse [⟨bothInputs, notSelected⟩] (.literal (.bit true))) true

/-- A process with `if not S then Y <= A and B; else Y <= '1'; end if;`. -/
def ifNot : Phrase :=
  .process [] [.ifElse notSelected
    [.binary (.identifier "Y") (.assignment .toSignal) bothInputs true]
    [.binary (.identifier "Y") (.assignment .toSignal) (.literal (.bit true)) true]]

theorem synthesize_choicePaths_exchanged :
    ∃ spec spec', (synthesize {} (selecting whenNot).phrases).result = .ok spec ∧
      (synthesize {} (selecting ifNot).phrases).result = .ok spec' ∧
      spec.elements = [⟨.combinational, .and, ["A", "B"], ["tmp_0"]⟩,
        ⟨.combinational, .not, ["S"], ["tmp_1"]⟩,
        ⟨.connection, .mux, ["tmp_0", "tmp_1", "VCC"], ["Y"]⟩] ∧
      ∃ ρ : String → String, ρ "tmp_0" = "tmp_1" ∧ ρ "tmp_1" = "tmp_0" ∧
        (spec.signals.map (Signal.rename ρ)).Perm spec'.signals ∧
        (spec.elements.map (Element.rename ρ)).Perm spec'.elements := by
  have hresult : (synthesize {} (selecting whenNot).phrases).result = .ok
      ⟨1, "Synthesis Performer", [.singleBit "S" .input, .singleBit "A" .input,
        .singleBit "B" .input, .singleBit "Y" .output], "R",
        [.singleBit "S", .singleBit "A", .singleBit "B", .singleBit "Y", .singleBit "tmp_0",
          .singleBit "tmp_1", .singleBit "VCC"],
        [⟨.combinational, .and, ["A", "B"], ["tmp_0"]⟩, ⟨.combinational, .not, ["S"], ["tmp_1"]⟩,
          ⟨.connection, .mux, ["tmp_0", "tmp_1", "VCC"], ["Y"]⟩]⟩ := by cbv
  have hresult' : (synthesize {} (selecting ifNot).phrases).result = .ok
      ⟨1, "Synthesis Performer", [.singleBit "S" .input, .singleBit "A" .input,
        .singleBit "B" .input, .singleBit "Y" .output], "R",
        [.singleBit "S", .singleBit "A", .singleBit "B", .singleBit "Y", .singleBit "tmp_0",
          .singleBit "tmp_1", .singleBit "VCC"],
        [⟨.combinational, .not, ["S"], ["tmp_0"]⟩, ⟨.combinational, .and, ["A", "B"], ["tmp_1"]⟩,
          ⟨.connection, .mux, ["tmp_1", "tmp_0", "VCC"], ["Y"]⟩]⟩ := by cbv
  have hdesign : Design.ofPhrases (selecting whenNot).phrases =
      .ok ((selecting whenNot).withBody [whenNot]) := rfl
  have hdesign' : Design.ofPhrases (selecting ifNot).phrases =
      .ok ((selecting whenNot).withBody [ifNot]) := rfl
  have hstatement : whenNot.assignment? =
      some ("Y", .whenElse [⟨bothInputs, notSelected⟩] (.literal (.bit true))) := rfl
  have hdeclared : ∀ name ∈ bothInputs.identifiers ++ notSelected.identifiers ++
      (Phrase.literal (.bit true)).identifiers, name ∈ (selecting whenNot).declaredNames := by decide
  obtain ⟨-, h⟩ := synthesize_choicePaths Config.railsApart_default hstatement rfl rfl hdesign
    hdesign' (by decide) fun name hname => .inl (hdeclared name hname)
  obtain ⟨ρ, -, -, hsignals, helements, p, s, q, hlast, hlast'⟩ := h _ _ hresult hresult'
  simp only [List.getLast?_cons_cons, List.getLast?_singleton, Option.some.injEq,
    Element.mk.injEq, List.cons.injEq, true_and, and_true] at hlast hlast'
  obtain ⟨rfl, rfl, rfl⟩ := hlast
  exact ⟨_, _, hresult, hresult', rfl, ρ, hlast'.1.symm, hlast'.2.1.symm, hsignals, helements⟩

end VhdlGates
