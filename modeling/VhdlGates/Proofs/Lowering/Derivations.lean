import VhdlGates.Proofs.Lowering.Closure

/-! Lowering as a relation between the table before, what is found, and the table after. There is
a rule for each way in which lowering succeeds, so a property of all successful runs is proved by
one case for each rule. The relations hold exactly of the runs. -/
namespace VhdlGates

namespace NameTable

/-- The table `t` takes a name for a signal, and is `t'` afterwards. -/
inductive Resolves (config : Config) (t : NameTable) (name : String) : NameTable → Prop
  | rail {value : Bool} (h : config.rail? name = some value) :
    Resolves config t name (t.afterRail config value)
  | known (hrail : config.rail? name = none) (hname : name ∈ t.names) : Resolves config t name t

/-- The table takes all names of a list for signals, one after the other. -/
inductive ResolvesAll (config : Config) : List String → NameTable → NameTable → Prop
  | nil {t : NameTable} : ResolvesAll config [] t t
  | cons {name : String} {rest : List String} {t s t' : NameTable}
    (h : Resolves config t name s) (hrest : ResolvesAll config rest s t') :
    ResolvesAll config (name :: rest) t t'

variable {config : Config} {t t' : NameTable}

lemma Resolves.reaches {name : String} (h : Resolves config t name t') : Reaches config t t' := by
  cases h with
  | rail => exact .single (.rail _)
  | known => exact .refl t

lemma run_resolve_iff {name signal : String} :
    (resolve config name).run t = .ok signal t' ↔ signal = name ∧ Resolves config t name t' := by
  rw [run_resolve_eq_ok]
  refine and_congr_right fun _ => ⟨?_, ?_⟩
  · rintro (⟨value, hrail, rfl⟩ | ⟨hrail, hname, rfl⟩)
    · exact .rail hrail
    · exact .known hrail hname
  · rintro (⟨hrail⟩ | ⟨hrail, hname⟩)
    · exact .inl ⟨_, hrail, rfl⟩
    · exact .inr ⟨hrail, hname, rfl⟩

lemma run_discard_resolve_iff {name : String} {u : Unit} :
    (discard (resolve config name)).run t = .ok u t' ↔ Resolves config t name t' := by
  have hbind : (discard (resolve config name) : Lowering Unit) =
      resolve config name >>= fun _ => pure () := rfl
  rw [hbind, Lowering.run_bind_eq_ok]
  constructor
  · rintro ⟨signal, s, hrun, hpure⟩
    obtain ⟨-, rfl⟩ := Lowering.run_pure_eq_ok.mp hpure
    exact (run_resolve_iff.mp hrun).2
  · intro h
    exact ⟨name, t', run_resolve_iff.mpr ⟨rfl, h⟩, rfl⟩

lemma run_sensitivity_iff {names : List String} {u : Unit} :
    (names.forM fun name => discard (resolve config name)).run t = .ok u t' ↔
      ResolvesAll config names t t' := by
  induction names generalizing t with
  | nil =>
    rw [List.forM, Lowering.run_pure_eq_ok]
    constructor
    · rintro ⟨-, rfl⟩
      exact .nil
    · intro h
      cases h with
      | nil => exact ⟨rfl, rfl⟩
  | cons name rest ih =>
    rw [List.forM, Lowering.run_bind_eq_ok]
    simp only [run_discard_resolve_iff, ih]
    constructor
    · rintro ⟨-, s, hname, hrest⟩
      exact .cons hname hrest
    · intro h
      cases h with
      | cons hname hrest => exact ⟨(), _, hname, hrest⟩

end NameTable

open NameTable (Reaches Resolves ResolvesAll)

namespace Phrase

mutual

/-- Between the tables `t` and `t'` a carrier is found for the value of a phrase. -/
inductive Lowers (config : Config) : Phrase → NameTable → Carrier → NameTable → Prop
  | identifier {name : String} {t t' : NameTable} (h : Resolves config t name t') :
    Lowers config (.identifier name) t (.wire name) t'
  | bit (value : Bool) (t : NameTable) :
    Lowers config (.literal (.bit value)) t (.wire (config.railName value))
      (t.afterRail config value)
  | parenthesized {inner : Phrase} {t t' : NameTable} {c : Carrier} (h : Lowers config inner t c t') :
    Lowers config (.parenthesized inner) t c t'
  | binary {left right : Phrase} {operator : Logic} (terminated : Bool) {t s t' : NameTable}
    {l r : Operand} (harity : operator.arity = 2) (hleft : LowersOperand config left t l s)
    (hright : LowersOperand config right s r t') :
    Lowers config (.binary left (.logic operator) right terminated) t
      (.gate (l.feeds ++ r.feeds) ⟨.combinational, operator.operation, [l.signal, r.signal]⟩) t'
  | unary {operand : Phrase} {operator : Logic} (terminated : Bool) {t t' : NameTable}
    {o : Operand} (harity : operator.arity = 1) (h : LowersOperand config operand t o t') :
    Lowers config (.unary (.logic operator) operand terminated) t
      (.gate o.feeds ⟨.combinational, operator.operation, [o.signal]⟩) t'
  | whenElse {branches : List (Branch Phrase)} {fallback : Phrase} {t s t' : NameTable}
    {bs : List (Branch Operand)} {o : Operand} (hbranches : LowersBranches config branches t bs s)
    (hfallback : LowersOperand config fallback s o t') :
    Lowers config (.whenElse branches fallback) t
      (.gate (bs.flatMap (fun b => b.value.feeds ++ b.condition.feeds) ++ o.feeds)
        ⟨.connection, .mux, bs.map (·.value.signal) ++
          firstOccurrences (bs.map (·.condition.signal)) ++ [o.signal]⟩) t'

/-- A signal is found for the value of a phrase. That of a gate is a new temporary. -/
inductive LowersOperand (config : Config) : Phrase → NameTable → Operand → NameTable → Prop
  | wire {p : Phrase} {t t' : NameTable} {signal : String} (h : Lowers config p t (.wire signal) t') :
    LowersOperand config p t ⟨[], signal⟩ t'
  | gate {p : Phrase} {t t' : NameTable} {feeds : List Element} {root : Gate}
    (h : Lowers config p t (.gate feeds root) t') :
    LowersOperand config p t ⟨feeds ++ [root.drive (t'.freshName config)], t'.freshName config⟩
      (t'.afterTemporary config)

/-- A signal is found that selects under a condition. -/
inductive LowersSelector (config : Config) : Phrase → NameTable → Operand → NameTable → Prop
  | compared {condition : Phrase} {name : String} {t t' : NameTable}
    (hname : condition.comparedSignal? = some name) (h : Resolves config t name t') :
    LowersSelector config condition t ⟨[], name⟩ t'
  | operand {condition : Phrase} {t t' : NameTable} {o : Operand}
    (hnone : condition.comparedSignal? = none) (h : LowersOperand config condition t o t') :
    LowersSelector config condition t o t'

/-- Signals are found for the values and the conditions of some branches. -/
inductive LowersBranches (config : Config) :
    List (Branch Phrase) → NameTable → List (Branch Operand) → NameTable → Prop
  | nil {t : NameTable} : LowersBranches config [] t [] t
  | cons {value condition : Phrase} {rest : List (Branch Phrase)} {t s s' t' : NameTable}
    {v c : Operand} {bs : List (Branch Operand)} (hvalue : LowersOperand config value t v s)
    (hcondition : LowersSelector config condition s c s')
    (hrest : LowersBranches config rest s' bs t') :
    LowersBranches config (⟨value, condition⟩ :: rest) t (⟨v, c⟩ :: bs) t'

end

variable {config : Config} {t t' : NameTable}

lemma run_toOperand_iff {c : Carrier} {o : Operand} :
    (c.toOperand config).run t = .ok o t' ↔
      (∃ signal, c = .wire signal ∧ o = ⟨[], signal⟩ ∧ t' = t) ∨
      ∃ feeds root, c = .gate feeds root ∧ t' = t.afterTemporary config ∧
        o = ⟨feeds ++ [root.drive (t.freshName config)], t.freshName config⟩ := by
  cases c with
  | wire signal => simp [Carrier.toOperand, eq_comm]
  | gate feeds root =>
    simp only [Carrier.toOperand, Lowering.run_bind_eq_ok, NameTable.run_temporary,
      Lowering.run_pure_eq_ok, EStateM.Result.ok.injEq]
    simp [eq_comm, and_comm]

/-- The relation for operands follows the one for carriers. -/
lemma run_lowerOperand_iff_of {p : Phrase} {o : Operand}
    (h : ∀ c s, (p.lower config .operand).run t = .ok c s ↔ Lowers config p t c s) :
    (p.lowerOperand config).run t = .ok o t' ↔ LowersOperand config p t o t' := by
  unfold lowerOperand
  rw [Lowering.run_bind_eq_ok]
  constructor
  · rintro ⟨c, s, hrun, hoperand⟩
    rw [h] at hrun
    rcases run_toOperand_iff.mp hoperand with ⟨signal, rfl, rfl, rfl⟩ | ⟨feeds, root, rfl, rfl, rfl⟩
    · exact .wire hrun
    · exact .gate hrun
  · rintro (hwire | hgate)
    · exact ⟨_, _, (h _ _).mpr hwire, rfl⟩
    · exact ⟨_, _, (h _ _).mpr hgate, rfl⟩

lemma run_lowerSelector_iff_of {condition : Phrase} {o : Operand}
    (h : ∀ c s, (condition.lower config .operand).run t = .ok c s ↔ Lowers config condition t c s) :
    (condition.lowerSelector config).run t = .ok o t' ↔ LowersSelector config condition t o t' := by
  unfold lowerSelector
  cases hcompared : condition.comparedSignal? with
  | some name =>
    simp only [Lowering.run_bind_eq_ok, NameTable.run_resolve_iff, Lowering.run_pure_eq_ok]
    constructor
    · rintro ⟨signal, s, ⟨rfl, hresolve⟩, rfl, rfl⟩
      exact .compared hcompared hresolve
    · rintro (⟨hname, hresolve⟩ | ⟨hnone, -⟩)
      · obtain rfl := Option.some.inj (hcompared.symm.trans hname)
        exact ⟨_, _, ⟨rfl, hresolve⟩, rfl, rfl⟩
      · rw [hcompared] at hnone
        cases hnone
  | none =>
    simp only [run_lowerOperand_iff_of h]
    constructor
    · exact .operand hcompared
    · rintro (⟨hname, -⟩ | ⟨-, hoperand⟩)
      · rw [hcompared] at hname
        cases hname
      · exact hoperand

mutual

/-- A run of lowering is a derivation. -/
theorem run_lower_iff (role : Role) : ∀ (p : Phrase) {t t' : NameTable} {c : Carrier},
    (p.lower config role).run t = .ok c t' ↔ Lowers config p t c t'
  | .identifier name, t, t', c => by
    rw [lower]
    simp only [Lowering.run_bind_eq_ok, NameTable.run_resolve_iff, Lowering.run_pure_eq_ok]
    constructor
    · rintro ⟨signal, s, ⟨rfl, hresolve⟩, rfl, rfl⟩
      exact .identifier hresolve
    · intro h
      cases h with
      | identifier hresolve => exact ⟨_, _, ⟨rfl, hresolve⟩, rfl, rfl⟩
  | .literal (.bit value), t, t', c => by
    rw [lower]
    simp only [Lowering.run_bind_eq_ok, NameTable.run_rail, Lowering.run_pure_eq_ok,
      EStateM.Result.ok.injEq]
    constructor
    · rintro ⟨signal, s, ⟨rfl, rfl⟩, rfl, rfl⟩
      exact .bit value t
    · intro h
      cases h with
      | bit => exact ⟨_, _, ⟨rfl, rfl⟩, rfl, rfl⟩
  | .parenthesized inner, t, t', c => by
    rw [lower, run_lower_iff role inner]
    constructor
    · exact .parenthesized
    · intro h
      cases h with
      | parenthesized hinner => exact hinner
  | .binary left (.logic operator) right terminated, t, t', c => by
    rw [lower_binary]
    split_ifs with harity
    · simp only [Lowering.run_bind_eq_ok, Lowering.run_pure_eq_ok,
        run_lowerOperand_iff_of fun c s => run_lower_iff .operand left,
        run_lowerOperand_iff_of fun c s => run_lower_iff .operand right]
      constructor
      · rintro ⟨l, s, hleft, r, s', hright, rfl, rfl⟩
        exact .binary terminated harity hleft hright
      · intro h
        cases h with
        | binary _ _ hleft hright => exact ⟨_, _, hleft, _, _, hright, rfl, rfl⟩
    · refine ⟨fun h => absurd h Lowering.run_throw_ne_ok, fun h => ?_⟩
      cases h with
      | binary _ harity' _ _ => exact absurd harity' harity
  | .unary (.logic operator) operand terminated, t, t', c => by
    rw [lower_unary]
    split_ifs with harity
    · simp only [Lowering.run_bind_eq_ok, Lowering.run_pure_eq_ok,
        run_lowerOperand_iff_of fun c s => run_lower_iff .operand operand]
      constructor
      · rintro ⟨o, s, hoperand, rfl, rfl⟩
        exact .unary terminated harity hoperand
      · intro h
        cases h with
        | unary _ _ hoperand => exact ⟨_, _, hoperand, rfl, rfl⟩
    · refine ⟨fun h => absurd h Lowering.run_throw_ne_ok, fun h => ?_⟩
      cases h with
      | unary _ harity' _ => exact absurd harity' harity
  | .whenElse branches fallback, t, t', c => by
    rw [lower_whenElse]
    simp only [Lowering.run_bind_eq_ok, Lowering.run_pure_eq_ok, run_lowerBranches_iff branches,
      run_lowerOperand_iff_of fun c s => run_lower_iff .operand fallback]
    constructor
    · rintro ⟨bs, s, hbranches, o, s', hfallback, rfl, rfl⟩
      exact .whenElse hbranches hfallback
    · intro h
      cases h with
      | whenElse hbranches hfallback => exact ⟨_, _, hbranches, _, _, hfallback, rfl, rfl⟩
  | .literal (.numeral _), t, t', c | .binary _ (.assignment _) _ _, t, t', c
  | .binary _ (.shift _) _ _, t, t', c | .binary _ (.relation _) _ _, t, t', c
  | .binary _ .concatenation _ _, t, t', c | .unary (.shift _) _ _, t, t', c
  | .unary (.relation _) _ _, t, t', c | .unary (.assignment _) _ _, t, t', c
  | .unary .concatenation _ _, t, t', c | .ifThen .., t, t', c | .ifElse .., t, t', c
  | .process .., t, t', c | .signal _, t, t', c | .entity _, t, t', c
  | .architecture .., t, t', c | .libraryClause _, t, t', c | .useClause .., t, t', c => by
    simp only [lower]
    refine ⟨fun h => absurd h Lowering.run_throw_ne_ok, fun h => ?_⟩
    cases h

theorem run_lowerBranches_iff : ∀ (branches : List (Branch Phrase)) {t t' : NameTable}
    {bs : List (Branch Operand)},
    (lowerBranches config branches).run t = .ok bs t' ↔ LowersBranches config branches t bs t'
  | [], t, t', bs => by
    rw [lowerBranches, Lowering.run_pure_eq_ok]
    constructor
    · rintro ⟨rfl, rfl⟩
      exact .nil
    · intro h
      cases h with
      | nil => exact ⟨rfl, rfl⟩
  | ⟨value, condition⟩ :: rest, t, t', bs => by
    rw [lowerBranches_cons]
    simp only [Lowering.run_bind_eq_ok, Lowering.run_pure_eq_ok, run_lowerBranches_iff rest,
      run_lowerOperand_iff_of fun c s => run_lower_iff .operand value,
      run_lowerSelector_iff_of fun c s => run_lower_iff .operand condition]
    constructor
    · rintro ⟨v, s, hvalue, o, s', hcondition, os, s'', hrest, rfl, rfl⟩
      exact .cons hvalue hcondition hrest
    · intro h
      cases h with
      | cons hvalue hcondition hrest =>
        exact ⟨_, _, hvalue, _, _, hcondition, _, _, hrest, rfl, rfl⟩

end

lemma run_lowerOperand_iff {p : Phrase} {o : Operand} :
    (p.lowerOperand config).run t = .ok o t' ↔ LowersOperand config p t o t' :=
  run_lowerOperand_iff_of fun _ _ => run_lower_iff .operand p

lemma run_lowerSelector_iff {condition : Phrase} {o : Operand} :
    (condition.lowerSelector config).run t = .ok o t' ↔ LowersSelector config condition t o t' :=
  run_lowerSelector_iff_of fun _ _ => run_lower_iff .operand condition

lemma Lowers.reaches {p : Phrase} {c : Carrier} (h : Lowers config p t c t') :
    Reaches config t t' :=
  (lower_closed config [] .operand p t c t' ((run_lower_iff .operand p).mpr h)).1

lemma LowersOperand.reaches {p : Phrase} {o : Operand} (h : LowersOperand config p t o t') :
    Reaches config t t' :=
  (lowerOperand_closed config [] p t o t' (run_lowerOperand_iff.mpr h)).1

lemma LowersSelector.reaches {condition : Phrase} {o : Operand}
    (h : LowersSelector config condition t o t') : Reaches config t t' :=
  (lowerSelector_closed_of (lower_closed config [] .operand condition) t o t'
    (run_lowerSelector_iff.mpr h)).1

lemma LowersBranches.reaches {branches : List (Branch Phrase)} {bs : List (Branch Operand)}
    (h : LowersBranches config branches t bs t') : Reaches config t t' :=
  (lowerBranches_closed config [] branches t bs t' ((run_lowerBranches_iff branches).mpr h)).1

/-- Branches whose values and conditions can be lowered whenever it is their turn can be lowered in
a row. -/
lemma LowersBranches.exists_of_forall {branches : List (Branch Phrase)}
    (h : ∀ b ∈ branches, ∀ s, Reaches config t s →
      (∃ o s', LowersOperand config b.value s o s') ∧
        ∃ o s', LowersSelector config b.condition s o s') :
    ∃ bs t', LowersBranches config branches t bs t' := by
  induction branches generalizing t with
  | nil => exact ⟨[], t, .nil⟩
  | cons b rest ih =>
    obtain ⟨hb, hrest⟩ := List.forall_mem_cons.mp h
    obtain ⟨v, s, hvalue⟩ := (hb t (.refl t)).1
    obtain ⟨c, s', hcondition⟩ := (hb s hvalue.reaches).2
    have hreach := hvalue.reaches.trans hcondition.reaches
    obtain ⟨bs, t', hothers⟩ := ih fun b hb u hu => hrest b hb u (hreach.trans hu)
    exact ⟨⟨v, c⟩ :: bs, t', .cons hvalue hcondition hothers⟩

end Phrase

end VhdlGates
