import VhdlGates.Proofs.Lowering.Denotation

/-! Choices of any length between Boolean expressions. Such a choice becomes one multiplexer, behind
gates that drive new signals. Its inputs stand for the values of the branches, in order, then come
the signals that the conditions select by, each once, and at last the value of the default. -/
namespace VhdlGates

open Element (HoldOutside)
open NameTable (Reaches)

namespace Phrase

/-- A branch between Boolean expressions over known names. -/
structure IsLogicBranch (known : String → Prop) (b : Branch Phrase) : Prop where
  value : b.value.IsLogic known
  condition : b.condition.IsCondition known

variable {config : Config} {t s s' : NameTable} {branches : List (Branch Phrase)}
  {bs : List (Branch Operand)} {elements : List Element}

/-- The elements in front of a choice, without those of its default. -/
def branchFeeds (bs : List (Branch Operand)) : List Element :=
  bs.flatMap fun b => b.value.feeds ++ b.condition.feeds

section Scope

variable (hapart : config.RailsApart)
  (hbranches : ∀ b ∈ branches, IsLogicBranch (· ∈ t.scope config) b)
include hapart hbranches

lemma exists_lowersBranches_of_logic (hreach : Reaches config t s) :
    ∃ bs s', LowersBranches config branches s bs s' := by
  refine LowersBranches.exists_of_forall fun b hb u hu => ⟨?_, ?_⟩
  · exact (hbranches b hb).value.exists_lowersOperand_after hapart (hreach.trans hu)
  · exact (hbranches b hb).condition.exists_lowersSelector hapart (hreach.trans hu)

lemma LowersBranches.isFeed (hreach : Reaches config t s)
    (h : LowersBranches config branches s bs s') :
    ∀ e ∈ branchFeeds bs, e.IsFeed (t.scope config) := by
  induction branches generalizing s bs with
  | nil =>
    cases h
    simp [branchFeeds]
  | cons b rest ih =>
    obtain ⟨hb, hrest⟩ := List.forall_mem_cons.mp hbranches
    cases h with
    | cons hvalue hcondition hlowers =>
      have hreach' := hreach.trans hvalue.reaches
      refine List.forall_mem_append.mpr ⟨List.forall_mem_append.mpr ⟨?_, ?_⟩, ?_⟩
      · exact hvalue.isFeed hapart hreach hb.value
      · exact hcondition.isFeed hapart hreach' hb.condition
      · exact ih hrest (hreach'.trans hcondition.reaches) hlowers

/-- Every branch has a signal for its value and one for its condition, in the same order. -/
lemma LowersBranches.denotes (hreach : Reaches config t s)
    (h : LowersBranches config branches s bs s') (hsub : branchFeeds bs ⊆ elements) :
    List.Forall₂ (fun b signal => Denotes config t elements b.value.value? signal) branches
        (bs.map (·.value.signal)) ∧
      List.Forall₂ (fun b signal => Selects config t elements b.condition signal) branches
        (bs.map (·.condition.signal)) := by
  induction branches generalizing s bs with
  | nil =>
    cases h
    exact ⟨.nil, .nil⟩
  | cons b rest ih =>
    obtain ⟨hb, hrest⟩ := List.forall_mem_cons.mp hbranches
    cases h with
    | cons hvalue hcondition hlowers =>
      obtain ⟨hfirst, hsub⟩ := List.append_subset.mp hsub
      obtain ⟨hv, hc⟩ := List.append_subset.mp hfirst
      have hreach' := hreach.trans hvalue.reaches
      obtain ⟨hvalues, hselectors⟩ := ih hrest (hreach'.trans hcondition.reaches) hlowers hsub
      exact ⟨.cons (hvalue.denotes hapart hreach hb.value hv) hvalues,
        .cons (hcondition.selects hapart hreach' hb.condition hc) hselectors⟩

end Scope

end Phrase

/-- A choice between Boolean expressions is lowered, to gates for new signals and one multiplexer
behind them. Its inputs stand for the values of the branches, then for the conditions, each signal
once, and for the default. -/
theorem lower_whenElse_denotes {config : Config} (hapart : config.RailsApart) (role : Role)
    {t : NameTable} {branches : List (Branch Phrase)} {fallback : Phrase}
    (hbranches : ∀ b ∈ branches, Phrase.IsLogicBranch (· ∈ t.scope config) b)
    (hfallback : fallback.IsLogic (· ∈ t.scope config)) :
    ∃ feeds values selectors default t',
      (Phrase.lower config role (.whenElse branches fallback)).run t =
        .ok (.gate feeds
          ⟨.connection, .mux, values ++ firstOccurrences selectors ++ [default]⟩) t' ∧
      (∀ e ∈ feeds, e.IsFeed (t.scope config)) ∧
      List.Forall₂ (fun b signal => Denotes config t feeds b.value.value? signal) branches values ∧
      List.Forall₂ (fun b signal => Phrase.Selects config t feeds b.condition signal) branches
        selectors ∧
      (firstOccurrences selectors).Nodup ∧ Denotes config t feeds fallback.value? default := by
  obtain ⟨bs, s, hlowers⟩ :=
    Phrase.exists_lowersBranches_of_logic hapart hbranches (NameTable.Reaches.refl t)
  obtain ⟨o, t', hlast⟩ := hfallback.exists_lowersOperand_after hapart hlowers.reaches
  have hsub : Phrase.branchFeeds bs ⊆ Phrase.branchFeeds bs ++ o.feeds :=
    List.subset_append_left _ _
  obtain ⟨hvalues, hselectors⟩ := hlowers.denotes hapart hbranches (.refl t) hsub
  refine ⟨_, _, _, o.signal, t', (Phrase.run_lower_iff role _).mpr (.whenElse hlowers hlast), ?_,
    hvalues, hselectors, nodup_firstOccurrences _, ?_⟩
  · exact List.forall_mem_append.mpr ⟨hlowers.isFeed hapart hbranches (.refl t),
      hlast.isFeed hapart hlowers.reaches hfallback⟩
  · exact hlast.denotes hapart hlowers.reaches hfallback (List.subset_append_right _ _)

/-- `A and B when (S = '0') else B when not S else '1' when S = '1' else …`. -/
def sharedBranches : List (Branch Phrase) :=
  [⟨.binary (.identifier "A") (.logic .and) (.identifier "B") false, .parenthesized isZero⟩,
    ⟨.identifier "B", .unary (.logic .not) (.identifier "S") false⟩,
    ⟨.literal (.bit true),
      .binary (.identifier "S") (.relation .equal) (.literal (.bit true)) false⟩]

theorem lower_whenElse_denotes_shared : ∃ feeds a b c inverted default t',
    ((Phrase.whenElse sharedBranches (.identifier "A")).lower {} .value).run
        { names := ["A", "B", "S"] } =
        .ok (.gate feeds ⟨.connection, .mux,
          [a, b, c] ++ firstOccurrences ["S", inverted, "S"] ++ [default]⟩) t' ∧
      ∀ w, Config.RailsHold {} w →
        HoldOutside (NameTable.scope {} { names := ["A", "B", "S"] }) w feeds →
        w a = (w "A" && w "B") ∧ w b = w "B" ∧ w c = true ∧ w inverted = !w "S" ∧
          w default = w "A" := by
  have hA : "A" ∈ NameTable.scope {} { names := ["A", "B", "S"] } := .inl (by decide)
  have hB : "B" ∈ NameTable.scope {} { names := ["A", "B", "S"] } := .inl (by decide)
  have hS : "S" ∈ NameTable.scope {} { names := ["A", "B", "S"] } := .inl (by decide)
  have hnot : (Phrase.unary (.logic .not) (.identifier "S") false).IsLogic
      (· ∈ NameTable.scope {} { names := ["A", "B", "S"] }) := .negation false (.identifier hS)
  have hbranches : ∀ b ∈ sharedBranches,
      Phrase.IsLogicBranch (· ∈ NameTable.scope {} { names := ["A", "B", "S"] }) b := by
    refine List.forall_mem_cons.mpr ⟨⟨?_, .comparison (.parenthesized (.equal false)) hS⟩, ?_⟩
    · exact .binary false rfl (.identifier hA) (.identifier hB)
    · exact List.forall_mem_cons.mpr ⟨⟨.identifier hB, .logic hnot⟩,
        List.forall_mem_singleton.mpr ⟨.bit true, .comparison (.equal false) hS⟩⟩
  obtain ⟨feeds, _, _, default, t', hrun, -, hvalues, hselectors, -, hdefault⟩ :=
    lower_whenElse_denotes Config.railsApart_default .value hbranches (.identifier hA)
  obtain - | ⟨ha, - | ⟨hb, - | ⟨hc, - | -⟩⟩⟩ := hvalues
  obtain - | ⟨hfirst, - | ⟨hsecond, - | ⟨hthird, - | -⟩⟩⟩ := hselectors
  obtain rfl := hfirst.compared "S" _ (.parenthesized (.equal false))
  obtain rfl := hthird.compared "S" _ (.equal false)
  refine ⟨feeds, _, _, _, _, default, t', hrun, fun w hrails hhold => ?_⟩
  have hinverted := hsecond.value (fun _ _ => hnot.not_compares) w hrails hhold
  have ha := ha w hrails hhold
  have hb := hb w hrails hhold
  have hc := hc w hrails hhold
  have hdefault := hdefault w hrails hhold
  simp only [Phrase.value?, Logic.apply?, Option.bind_eq_bind, Option.bind_some, Option.map_some,
    Option.some.injEq] at ha hb hc hinverted hdefault
  exact ⟨ha.symm, hb.symm, hc.symm, hinverted.symm, hdefault.symm⟩

end VhdlGates
