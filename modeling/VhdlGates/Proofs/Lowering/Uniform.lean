import VhdlGates.Proofs.Lowering.Faults
import VhdlGates.Proofs.Lowering.Names
import VhdlGates.Proofs.Lowering.Renaming
import VhdlGates.Proofs.NameTable.Moves

/-! Lowering the same phrases at different sites, that is from different tables and with different
names for the temporaries. The runs go side by side: they all fail with the same fault, or they all
make the same moves, and their results differ in the names of the temporaries only. -/
namespace VhdlGates

open NameTable (Move)

/-- Where lowering starts: the settings, and the table. -/
structure Site where
  config : Config
  table : NameTable

namespace Site

/-- The table after some moves. -/
def after (site : Site) (moves : List Move) : NameTable := site.table.after site.config moves

/-- The temporaries that some moves create. -/
def created (site : Site) (moves : List Move) : List String :=
  site.table.created site.config moves

/-- A renaming that takes the temporaries created at `a` to those created at `b`, and keeps the
rails and the names in `sources`. -/
structure Renames (rail : Bool → String) (sources : Set String) (a b : Site) (done : List Move)
    (ρ : Equiv.Perm String) : Prop where
  map_created : (a.created done).map ρ = b.created done
  source_eq : ∀ name ∈ sources, ρ name = name
  rail_eq : ∀ value, ρ (rail value) = rail value

lemma created_append (site : Site) (moves more : List Move) :
    site.created (moves ++ more) =
      site.created moves ++ (site.after moves).created site.config more :=
  NameTable.created_append ..

lemma length_created (site : Site) (moves : List Move) :
    (site.created moves).length = moves.count .temporary :=
  NameTable.length_created ..

variable {rail : Bool → String} {sources : Set String} {a b : Site} {done more : List Move}
  {ρ : Equiv.Perm String}

/-- What is created later can only be appended to, so a renaming also fits the moves before. -/
lemma Renames.before (h : Renames rail sources a b (done ++ more) ρ) :
    Renames rail sources a b done ρ := by
  refine ⟨?_, h.source_eq, h.rail_eq⟩
  have hmap := h.map_created
  rw [created_append, created_append, List.map_append] at hmap
  refine List.append_inj_left hmap ?_
  rw [List.length_map, length_created, length_created]

/-- The temporary that is created last is taken to the one created last. -/
lemma Renames.freshName (h : Renames rail sources a b (done ++ [.temporary]) ρ) :
    (b.after done).freshName b.config = ρ ((a.after done).freshName a.config) := by
  have hmap := h.map_created
  rw [created_append, created_append, List.map_append, h.before.map_created] at hmap
  exact (List.head_eq_of_cons_eq (List.append_cancel_left hmap)).symm

end Site

section Uniform

variable {ι α β : Type} {rail : Bool → String} {sources declared : Set String} {site : ι → Site}
  {done more : List Move}

/-- Sites at which phrases with names in `sources` are lowered alike. Their rails have the same
names, and their tables know the same names of the sources: those in `declared`, since the others
cannot become names of temporaries. -/
structure Comparable (rail : Bool → String) (sources declared : Set String) (site : ι → Site) :
    Prop where
  railName_eq : ∀ i value, (site i).config.railName value = rail value
  mem_names_iff : ∀ i, ∀ name ∈ sources, name ∈ (site i).table.names ↔ name ∈ declared
  apart : ∀ i, ∀ name ∈ sources, name ∉ declared →
    ∀ index, name ≠ (site i).config.temporaryName index

lemma Comparable.mem_names_after_iff (h : Comparable rail sources declared site) (i : ι)
    {name : String} (hname : name ∈ sources) :
    name ∈ ((site i).after done).names ↔ name ∈ declared := by
  rw [Site.after, NameTable.names_after, List.mem_append, h.mem_names_iff i name hname]
  refine or_iff_left_of_imp fun hcreated => ?_
  obtain ⟨index, hindex⟩ := NameTable.created_isTemporary hcreated
  by_contra hunknown
  exact h.apart i name hname hunknown index hindex

lemma Comparable.rail?_eq (h : Comparable rail sources declared site) (i j : ι) (name : String) :
    (site i).config.rail? name = (site j).config.rail? name := by
  have hhigh : (site i).config.highRail = (site j).config.highRail :=
    (h.railName_eq i true).trans (h.railName_eq j true).symm
  have hlow : (site i).config.lowRail = (site j).config.lowRail :=
    (h.railName_eq i false).trans (h.railName_eq j false).symm
  rw [Config.rail?, Config.rail?, hhigh, hlow]

/-- The values found at the sites are the same up to renaming. -/
def Related (rail : Bool → String) (sources : Set String) (site : ι → Site)
    (rename : (String → String) → α → α) (done : List Move) (x : ι → α) : Prop :=
  ∀ i j ρ, Site.Renames rail sources (site i) (site j) done ρ → x j = rename ρ (x i)

lemma Related.after {rename : (String → String) → α → α} {x : ι → α}
    (h : Related rail sources site rename done x) :
    Related rail sources site rename (done ++ more) x :=
  fun i j ρ hρ => h i j ρ hρ.before

/-- Computations, one for each site, that go side by side after the moves `done`. They fail with the
same fault, or they make the same moves, and then `R` holds of what they give. -/
def Uniform (site : ι → Site) (done : List Move) (R : List Move → (ι → α) → Prop)
    (m : ι → Lowering α) : Prop :=
  (∃ fault, ∀ i, ∃ t, (m i).run ((site i).after done) = .error fault t) ∨
    ∃ moves x, (∀ i, (m i).run ((site i).after done) = .ok (x i) ((site i).after (done ++ moves))) ∧
      R (done ++ moves) x

namespace Uniform

variable {R : List Move → (ι → α) → Prop} {S : List Move → (ι → β) → Prop}

lemma pure {x : ι → α} (h : R done x) : Uniform site done R fun i => Pure.pure (x i) := by
  refine .inr ⟨[], x, fun i => ?_, ?_⟩
  · rw [List.append_nil, EStateM.run_pure]
  · rw [List.append_nil]
    exact h

lemma throw (fault : Fault) : Uniform site done R fun _ => MonadExcept.throw fault :=
  .inl ⟨fault, fun i => ⟨(site i).after done, rfl⟩⟩

lemma bind {m : ι → Lowering α} {f : ι → α → Lowering β} (hm : Uniform site done R m)
    (hf : ∀ moves x, R (done ++ moves) x → Uniform site (done ++ moves) S fun i => f i (x i)) :
    Uniform site done S fun i => m i >>= f i := by
  rcases hm with ⟨fault, hm⟩ | ⟨moves, x, hm, hR⟩
  · refine .inl ⟨fault, fun i => ?_⟩
    obtain ⟨t, hrun⟩ := hm i
    exact ⟨t, by rw [EStateM.run_bind, hrun]⟩
  · rcases hf moves x hR with ⟨fault, hf⟩ | ⟨others, y, hf, hS⟩
    · refine .inl ⟨fault, fun i => ?_⟩
      obtain ⟨t, hrun⟩ := hf i
      exact ⟨t, by rw [EStateM.run_bind, hm i, ← hrun]⟩
    · rw [List.append_assoc] at hS
      refine .inr ⟨moves ++ others, y, fun i => ?_, hS⟩
      rw [EStateM.run_bind, hm i, ← List.append_assoc]
      exact hf i

end Uniform

/-- Signals that are the same up to renaming. -/
abbrev SignalsRelated (rail : Bool → String) (sources : Set String) (site : ι → Site) :
    List Move → (ι → String) → Prop :=
  Related rail sources site id

abbrev ElementsRelated (rail : Bool → String) (sources : Set String) (site : ι → Site) :
    List Move → (ι → List Element) → Prop :=
  Related rail sources site fun ρ => List.map (Element.rename ρ)

abbrev OperandsRelated (rail : Bool → String) (sources : Set String) (site : ι → Site) :
    List Move → (ι → Operand) → Prop :=
  Related rail sources site Operand.rename

/-- Carriers of the same form, with parts that are the same up to renaming. -/
inductive CarriersRelated (rail : Bool → String) (sources : Set String) (site : ι → Site)
    (done : List Move) : (ι → Carrier) → Prop
  | wire {signal : ι → String} (h : SignalsRelated rail sources site done signal) :
    CarriersRelated rail sources site done fun i => .wire (signal i)
  | gate {feeds : ι → List Element} {root : ι → Gate}
    (hfeeds : ElementsRelated rail sources site done feeds)
    (hroot : Related rail sources site Gate.rename done root) :
    CarriersRelated rail sources site done fun i => .gate (feeds i) (root i)

lemma Related.append {x y : ι → List Element} (hx : ElementsRelated rail sources site done x)
    (hy : ElementsRelated rail sources site done y) :
    ElementsRelated rail sources site done fun i => x i ++ y i := by
  intro i j ρ hρ
  simp only [hx i j ρ hρ, hy i j ρ hρ, List.map_append]

namespace NameTable

lemma rail_uniform (h : Comparable rail sources declared site) (value : Bool) :
    Uniform site done (SignalsRelated rail sources site) fun i =>
      NameTable.rail (site i).config value := by
  refine .inr ⟨[.rail value], fun _ => rail value, fun i => ?_, fun i j ρ hρ => ?_⟩
  · rw [run_rail, h.railName_eq, Site.after, Site.after, after_append, after_rail]
  · exact (hρ.rail_eq value).symm

lemma resolve_uniform (h : Comparable rail sources declared site) {name : String}
    (hname : name ∈ sources) :
    Uniform site done (SignalsRelated rail sources site) fun i =>
      NameTable.resolve (site i).config name := by
  have hkept (moves : List Move) : SignalsRelated rail sources site moves fun _ => name :=
    fun i j ρ hρ => (hρ.source_eq name hname).symm
  rcases isEmpty_or_nonempty ι with hempty | ⟨⟨first⟩⟩
  · exact .inl ⟨.unresolvedSignal name, fun i => hempty.elim i⟩
  cases hrail : (site first).config.rail? name with
  | some value =>
    refine .inr ⟨[.rail value], fun _ => name, fun i => ?_, hkept _⟩
    rw [run_resolve_eq_ok, h.rail?_eq i first, Site.after, Site.after, after_append, after_rail]
    exact ⟨rfl, .inl ⟨value, hrail, rfl⟩⟩
  | none =>
    by_cases hdeclared : name ∈ declared
    · refine .inr ⟨[], fun _ => name, fun i => ?_, hkept _⟩
      rw [run_resolve_eq_ok, h.rail?_eq i first, List.append_nil]
      exact ⟨rfl, .inr ⟨hrail, (h.mem_names_after_iff i hname).mpr hdeclared, rfl⟩⟩
    · refine .inl ⟨.unresolvedSignal name, fun i => ⟨(site i).after done, ?_⟩⟩
      have hunknown : name ∉ ((site i).after done).names :=
        mt (h.mem_names_after_iff i hname).mp hdeclared
      simp [resolve, h.rail?_eq i first, hrail, hunknown, Lowering.run_throw]

lemma temporary_uniform (rail : Bool → String) (sources : Set String) (site : ι → Site) :
    Uniform site done (SignalsRelated rail sources site) fun i =>
      NameTable.temporary (site i).config := by
  refine .inr ⟨[.temporary], fun i => ((site i).after done).freshName (site i).config,
    fun i => ?_, fun i j ρ hρ => hρ.freshName⟩
  simp only [run_temporary, Site.after, after_append, after_temporary]

end NameTable

lemma Carrier.toOperand_uniform {c : ι → Carrier} (h : CarriersRelated rail sources site done c) :
    Uniform site done (OperandsRelated rail sources site) fun i =>
      (c i).toOperand (site i).config := by
  cases h with
  | wire hsignal =>
    refine Uniform.pure fun i j ρ hρ => ?_
    simp only [Operand.rename, hsignal i j ρ hρ, List.map_nil, id]
  | gate hfeeds hroot =>
    refine (NameTable.temporary_uniform rail sources site).bind fun moves signal hsignal =>
      Uniform.pure fun i j ρ hρ => ?_
    simp only [Operand.rename, hfeeds.after i j ρ hρ, hroot.after i j ρ hρ, hsignal i j ρ hρ,
      List.map_append, List.map_cons, List.map_nil, Element.rename_drive, id]

namespace Phrase

lemma lowerOperand_uniform_of {p : Phrase}
    (h : Uniform site done (CarriersRelated rail sources site) fun i =>
      p.lower (site i).config .operand) :
    Uniform site done (OperandsRelated rail sources site) fun i => p.lowerOperand (site i).config :=
  h.bind fun _ _ hc => Carrier.toOperand_uniform hc

lemma lowerSelector_uniform_of (hsites : Comparable rail sources declared site) {condition : Phrase}
    (hnames : ∀ name ∈ condition.identifiers, name ∈ sources)
    (h : Uniform site done (CarriersRelated rail sources site)
      fun i => condition.lower (site i).config .operand) :
    Uniform site done (OperandsRelated rail sources site)
      fun i => condition.lowerSelector (site i).config := by
  unfold lowerSelector
  cases hcompared : condition.comparedSignal? with
  | some name =>
    rw [identifiers_of_comparedSignal? hcompared, List.forall_mem_singleton] at hnames
    refine (NameTable.resolve_uniform hsites hnames).bind fun moves signal hsignal =>
      Uniform.pure fun i j ρ hρ => ?_
    simp only [Operand.rename, hsignal i j ρ hρ, List.map_nil, id]
  | none => exact lowerOperand_uniform_of h

/-- Branches of a choice that are the same up to renaming. -/
abbrev BranchesRelated (rail : Bool → String) (sources : Set String) (site : ι → Site) :
    List Move → (ι → List (Branch Operand)) → Prop :=
  Related rail sources site fun ρ => List.map (Operand.renameBranch ρ)

/-- The multiplexer of a choice. Its selectors are the same up to renaming because a renaming keeps
different signals apart. -/
lemma mux_related {bs : ι → List (Branch Operand)} {o : ι → Operand}
    (hbs : BranchesRelated rail sources site done bs)
    (ho : OperandsRelated rail sources site done o) :
    CarriersRelated rail sources site done fun i =>
      .gate ((bs i).flatMap (fun b => b.value.feeds ++ b.condition.feeds) ++ (o i).feeds)
        ⟨.connection, .mux, (bs i).map (·.value.signal) ++
          firstOccurrences ((bs i).map (·.condition.signal)) ++ [(o i).signal]⟩ := by
  refine .gate (fun i j ρ hρ => ?_) fun i j ρ hρ => ?_
  · simp only [hbs i j ρ hρ, ho i j ρ hρ, List.map_append, List.flatMap_map, List.map_flatMap,
      Operand.rename, Operand.renameBranch]
  · have hselectors : (bs j).map (·.condition.signal) = ((bs i).map (·.condition.signal)).map ρ := by
      simp [hbs i j ρ hρ, Operand.renameBranch, Operand.rename]
    rw [hselectors, firstOccurrences_map ρ.injective]
    simp [hbs i j ρ hρ, ho i j ρ hρ, Gate.rename, Operand.renameBranch, Operand.rename]

mutual

theorem lower_uniform (hsites : Comparable rail sources declared site) (role : Role) :
    ∀ (p : Phrase) (done : List Move), (∀ name ∈ p.identifiers, name ∈ sources) →
      Uniform site done (CarriersRelated rail sources site) fun i => p.lower (site i).config role
  | .identifier name, done, hnames => by
    simp only [lower]
    have hname : name ∈ sources := hnames name List.mem_cons_self
    exact (NameTable.resolve_uniform hsites hname).bind fun _ _ hsignal =>
      Uniform.pure (.wire hsignal)
  | .literal (.bit value), done, _ => by
    simp only [lower]
    exact (NameTable.rail_uniform hsites value).bind fun _ _ hsignal => Uniform.pure (.wire hsignal)
  | .parenthesized inner, done, hnames => by
    simp only [lower]
    exact lower_uniform hsites role inner done hnames
  | .binary left (.logic operator) right _, done, hnames => by
    simp only [lower_binary]
    split_ifs
    · obtain ⟨hleft, hright⟩ := List.forall_mem_append.mp hnames
      refine (lowerOperand_uniform_of (lower_uniform hsites .operand left done hleft)).bind
        fun moves l hl => ?_
      refine (lowerOperand_uniform_of (lower_uniform hsites .operand right _ hright)).bind
        fun more r hr => Uniform.pure (.gate (fun i j ρ hρ => ?_) fun i j ρ hρ => ?_)
      · simp only [hl.after i j ρ hρ, hr i j ρ hρ, Operand.rename, List.map_append]
      · simp only [hl.after i j ρ hρ, hr i j ρ hρ, Operand.rename, Gate.rename, List.map_cons,
          List.map_nil]
    · exact Uniform.throw _
  | .unary (.logic operator) operand _, done, hnames => by
    simp only [lower_unary]
    split_ifs
    · refine (lowerOperand_uniform_of (lower_uniform hsites .operand operand done hnames)).bind
        fun moves o ho => Uniform.pure (.gate (fun i j ρ hρ => ?_) fun i j ρ hρ => ?_)
      · simp only [ho i j ρ hρ, Operand.rename]
      · simp only [ho i j ρ hρ, Operand.rename, Gate.rename, List.map_cons, List.map_nil]
    · exact Uniform.throw _
  | .whenElse branches fallback, done, hnames => by
    simp only [lower_whenElse]
    obtain ⟨hbranches, hfallback⟩ := List.forall_mem_append.mp hnames
    refine (lowerBranches_uniform hsites branches done hbranches).bind fun moves bs hbs => ?_
    refine (lowerOperand_uniform_of (lower_uniform hsites .operand fallback _ hfallback)).bind
      fun more o ho => Uniform.pure (mux_related hbs.after ho)
  | .literal (.numeral _), done, _ | .binary _ (.assignment _) _ _, done, _
  | .binary _ (.shift _) _ _, done, _ | .binary _ (.relation _) _ _, done, _
  | .binary _ .concatenation _ _, done, _ | .unary (.shift _) _ _, done, _
  | .unary (.relation _) _ _, done, _ | .unary (.assignment _) _ _, done, _
  | .unary .concatenation _ _, done, _ | .ifThen .., done, _ | .ifElse .., done, _
  | .process .., done, _ | .signal _, done, _ | .entity _, done, _ | .architecture .., done, _
  | .libraryClause _, done, _ | .useClause .., done, _ => by
    simp only [lower]
    exact Uniform.throw _

theorem lowerBranches_uniform (hsites : Comparable rail sources declared site) :
    ∀ (branches : List (Branch Phrase)) (done : List Move),
      (∀ name ∈ branchIdentifiers branches, name ∈ sources) →
      Uniform site done (BranchesRelated rail sources site) fun i =>
        lowerBranches (site i).config branches
  | [], done, _ => by
    simp only [lowerBranches]
    exact Uniform.pure fun i j ρ hρ => rfl
  | ⟨value, condition⟩ :: rest, done, hnames => by
    simp only [lowerBranches_cons]
    rw [branchIdentifiers] at hnames
    obtain ⟨hnames, hrest⟩ := List.forall_mem_append.mp hnames
    obtain ⟨hvalue, hcondition⟩ := List.forall_mem_append.mp hnames
    refine (lowerOperand_uniform_of (lower_uniform hsites .operand value done hvalue)).bind
      fun moves v hv => ?_
    refine (lowerSelector_uniform_of hsites hcondition
      (lower_uniform hsites .operand condition _ hcondition)).bind fun more c hc => ?_
    refine (lowerBranches_uniform hsites rest _ hrest).bind fun others bs hbs =>
      Uniform.pure fun i j ρ hρ => ?_
    simp only [hv.after.after i j ρ hρ, hc.after i j ρ hρ, hbs i j ρ hρ, List.map_cons,
      Operand.renameBranch]

end

lemma lowerOperand_uniform (hsites : Comparable rail sources declared site) {p : Phrase}
    (hnames : ∀ name ∈ p.identifiers, name ∈ sources) :
    Uniform site done (OperandsRelated rail sources site) fun i => p.lowerOperand (site i).config :=
  lowerOperand_uniform_of (lower_uniform hsites .operand p done hnames)

lemma assignmentTarget_uniform (hsites : Comparable rail sources declared site) :
    ∀ target : Phrase, (∀ name ∈ target.identifiers, name ∈ sources) →
      Uniform site done (SignalsRelated rail sources site) fun i =>
        target.assignmentTarget (site i).config
  | .identifier name, hnames => NameTable.resolve_uniform hsites (hnames name List.mem_cons_self)
  | .parenthesized inner, hnames => assignmentTarget_uniform hsites inner hnames
  | .literal _, _ | .binary .., _ | .unary .., _ | .whenElse .., _ | .ifThen .., _ | .ifElse .., _
  | .process .., _ | .signal _, _ | .entity _, _ | .architecture .., _ | .libraryClause _, _
  | .useClause .., _ => Uniform.throw _

lemma lowerAssignment_uniform (hsites : Comparable rail sources declared site)
    {target value : Phrase}
    (hnames : ∀ name ∈ target.identifiers ++ value.identifiers, name ∈ sources) :
    Uniform site done (ElementsRelated rail sources site) fun i =>
      target.lowerAssignment (site i).config value := by
  obtain ⟨htarget, hvalue⟩ := List.forall_mem_append.mp hnames
  refine (assignmentTarget_uniform hsites target htarget).bind fun moves output houtput => ?_
  refine (lower_uniform hsites .value value _ hvalue).bind fun more c hc =>
    Uniform.pure fun i j ρ hρ => ?_
  cases hc with
  | wire hsignal =>
    simp only [Carrier.drive, hsignal i j ρ hρ, houtput.after i j ρ hρ, List.map_cons, List.map_nil,
      Element.rename_drive, id]
    rfl
  | gate hfeeds hroot =>
    simp only [Carrier.drive, hfeeds i j ρ hρ, hroot i j ρ hρ, houtput.after i j ρ hρ,
      List.map_append, List.map_cons, List.map_nil, Element.rename_drive, id]

lemma lowerPath_uniform (hsites : Comparable rail sources declared site) {output : ι → String}
    (houtput : SignalsRelated rail sources site done output) {value : Option Phrase}
    (hnames : ∀ name ∈ value.elim [] identifiers, name ∈ sources) :
    Uniform site done (OperandsRelated rail sources site) fun i =>
      lowerPath (site i).config (output i) value := by
  cases value with
  | some value => exact lowerOperand_uniform hsites hnames
  | none =>
    refine Uniform.pure fun i j ρ hρ => ?_
    simp only [Operand.rename, houtput i j ρ hρ, List.map_nil, id]

lemma lowerTarget_uniform (hsites : Comparable rail sources declared site) {selector : ι → String}
    (hselector : SignalsRelated rail sources site done selector) {thenPath elsePath : Assignments}
    {target : String}
    (hnames : ∀ name ∈ target :: ((thenPath.lookup target).elim [] identifiers ++
      (elsePath.lookup target).elim [] identifiers), name ∈ sources) :
    Uniform site done (ElementsRelated rail sources site) fun i =>
      lowerTarget (site i).config (selector i) thenPath elsePath target := by
  obtain ⟨htarget, hnames⟩ := List.forall_mem_cons.mp hnames
  obtain ⟨hthen, helse⟩ := List.forall_mem_append.mp hnames
  refine (NameTable.resolve_uniform hsites htarget).bind fun moves output houtput => ?_
  refine (lowerPath_uniform hsites houtput hthen).bind fun more a ha => ?_
  refine (lowerPath_uniform hsites houtput.after helse).bind fun others b hb =>
    Uniform.pure fun i j ρ hρ => ?_
  simp only [hselector.after.after.after i j ρ hρ, houtput.after.after i j ρ hρ, ha.after i j ρ hρ,
    hb i j ρ hρ, Operand.rename, Gate.rename, List.map_append, List.map_cons, List.map_nil,
    Element.rename_drive, id]

end Phrase

lemma lowerEach_uniform {f : ι → β → Lowering (List Element)} (items : List β)
    (hf : ∀ item ∈ items, ∀ moves,
      Uniform site (done ++ moves) (ElementsRelated rail sources site) fun i => f i item) :
    Uniform site done (ElementsRelated rail sources site) fun i => lowerEach (f i) items := by
  induction items generalizing done with
  | nil => exact Uniform.pure fun i j ρ hρ => rfl
  | cons item rest ih =>
    obtain ⟨hitem, hrest⟩ := List.forall_mem_cons.mp hf
    have hfirst := hitem []
    rw [List.append_nil] at hfirst
    refine hfirst.bind fun moves elements helements => ?_
    refine (ih fun other hother more => ?_).bind fun more others hothers =>
      Uniform.pure (helements.after.append hothers)
    rw [List.append_assoc]
    exact hrest other hother _

lemma sensitivity_uniform (hsites : Comparable rail sources declared site) (names : List String)
    (hnames : ∀ name ∈ names, name ∈ sources) :
    Uniform site done (fun _ _ => True) fun i =>
      names.forM fun name => discard (NameTable.resolve (site i).config name) := by
  induction names generalizing done with
  | nil => exact Uniform.pure trivial
  | cons name rest ih =>
    obtain ⟨hname, hrest⟩ := List.forall_mem_cons.mp hnames
    have hfirst : Uniform site done (fun _ _ => True) fun i =>
        (discard (NameTable.resolve (site i).config name) : Lowering Unit) :=
      (NameTable.resolve_uniform hsites hname).bind fun _ _ _ => Uniform.pure trivial
    exact hfirst.bind fun _ _ _ => ih hrest

/-- Which assignments a branch makes does not depend on the site. -/
lemma Assignments.ofBody_uniform (body : List Phrase) :
    Uniform site done (fun _ paths => ∃ path, ofBody body = .ok path ∧ paths = fun _ => path)
      fun _ => MonadExcept.ofExcept (ofBody body) := by
  cases hbody : ofBody body with
  | error fault => exact Uniform.throw fault
  | ok path => exact Uniform.pure ⟨path, rfl, rfl⟩

namespace Phrase

lemma lowerIf_uniform (hsites : Comparable rail sources declared site) {condition : Phrase}
    {thenBody elseBody : List Phrase}
    (hnames : ∀ name ∈ condition.identifiers ++ bodyNames thenBody elseBody, name ∈ sources) :
    Uniform site done (ElementsRelated rail sources site) fun i =>
      lowerIf (site i).config condition thenBody elseBody := by
  obtain ⟨hcondition, hbody⟩ := List.forall_mem_append.mp hnames
  refine (Assignments.ofBody_uniform thenBody).bind fun first _ ⟨thenPath, hthen, heq⟩ => ?_
  subst heq
  refine (Assignments.ofBody_uniform elseBody).bind fun second _ ⟨elsePath, helse, heq⟩ => ?_
  subst heq
  refine (lowerSelector_uniform_of hsites hcondition
    (lower_uniform hsites .operand condition _ hcondition)).bind fun moves s hs => ?_
  have hsignal {more : List Move} : SignalsRelated rail sources site
      (done ++ first ++ second ++ moves ++ more) fun i => (s i).signal := by
    intro i j ρ hρ
    simp only [hs.after i j ρ hρ, Operand.rename, id]
  refine (lowerEach_uniform _ fun target htarget more =>
    lowerTarget_uniform hsites hsignal fun name hname => hbody name ?_).bind
    fun more es hes => Uniform.pure fun i j ρ hρ => ?_
  · rw [Assignments.targets_append_filter hthen helse] at htarget
    rw [Assignments.lookup_ofBody hthen, Assignments.lookup_ofBody helse] at hname
    exact List.mem_flatMap.mpr ⟨target, htarget, hname⟩
  · simp only [hs.after i j ρ hρ, hes i j ρ hρ, Operand.rename, List.map_append]

lemma lowerItem_uniform (hsites : Comparable rail sources declared site) (item : Phrase)
    (hnames : ∀ name ∈ item.itemNames, name ∈ sources) :
    Uniform site done (ElementsRelated rail sources site) fun i =>
      lowerItem (site i).config item := by
  unfold lowerItem
  split
  · exact lowerIf_uniform hsites hnames
  · exact lowerIf_uniform hsites hnames
  · exact lowerAssignment_uniform hsites hnames
  · exact Uniform.throw _

/-- A statement is lowered alike at sites that know the same of its names. -/
theorem lowerStatement_uniform (hsites : Comparable rail sources declared site)
    (statement : Phrase) (hnames : ∀ name ∈ statement.usedNames, name ∈ sources) :
    Uniform site done (ElementsRelated rail sources site) fun i =>
      lowerStatement (site i).config statement := by
  have hfeeds {p : Phrase} (hp : ∀ name ∈ p.identifiers, name ∈ sources) :
      Uniform site done (ElementsRelated rail sources site) fun i => do
        let operand ← p.lowerOperand (site i).config
        return operand.feeds := by
    refine (lowerOperand_uniform hsites hp).bind fun moves o ho => Uniform.pure fun i j ρ hρ => ?_
    simp only [ho i j ρ hρ, Operand.rename]
  unfold lowerStatement
  split
  · exact lowerAssignment_uniform hsites hnames
  · exact hfeeds hnames
  · exact hfeeds hnames
  · obtain ⟨hsensitivity, hbody⟩ := List.forall_mem_append.mp hnames
    refine (sensitivity_uniform hsites _ hsensitivity).bind fun moves _ _ =>
      lowerEach_uniform _ fun item hitem more => lowerItem_uniform hsites item fun name hname => ?_
    exact hbody name (List.mem_flatMap.mpr ⟨item, hitem, hname⟩)
  · exact Uniform.throw _
  · exact Uniform.throw _
  · exact Uniform.throw _

end Phrase

end Uniform

namespace Design

/-- The names that the statements of a design use. -/
def sources (design : Design) : Set String :=
  { name | ∃ statement ∈ design.architecture.body, name ∈ statement.usedNames }

lemma body_uniform {ι : Type} {rail : Bool → String} {declared : Set String} {site : ι → Site}
    {design : Design} (hsites : Comparable rail design.sources declared site) (done : List Move) :
    Uniform site done (ElementsRelated rail design.sources site) fun i =>
      lowerEach (Phrase.lowerStatement (site i).config) design.architecture.body :=
  lowerEach_uniform _ fun statement hstatement _ =>
    Phrase.lowerStatement_uniform hsites statement fun _ hname => ⟨statement, hstatement, hname⟩

end Design

end VhdlGates
