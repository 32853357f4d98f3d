import Mathlib
import VhdlGates.Proofs.Design.Synthesis
import VhdlGates.Proofs.Lowering.Surface

/-! Files that differ in marks of the surface only. The names of types show in the notices, which
nothing reads while a design is lowered; all other marks show nowhere. So synthesis gives the same
specification for such files, or the same fault. -/
namespace VhdlGates

/-- The table without its notices. -/
def NameTable.silent (t : NameTable) : NameTable := { t with notices := [] }

lemma NameTable.eq_of_silent_eq {t t' : NameTable} (h : t.silent = t'.silent) :
    t' = { t with notices := t'.notices } := by
  obtain ⟨_, _, _, _, _, _, _⟩ := t
  obtain ⟨_, _, _, _, _, _, _⟩ := t'
  simp only [silent, NameTable.mk.injEq] at h
  simp [h]

namespace Lowering

variable {α β : Type}

/-- What a run comes to, apart from the notices. -/
def outcome : EStateM.Result Fault NameTable α → Except Fault (α × NameTable)
  | .ok a t => .ok (a, t.silent)
  | .error fault _ => .error fault

/-- Two computations that come to the same from tables which differ in their notices only. -/
def Alike (m n : Lowering α) : Prop :=
  ∀ t notices, outcome (m.run t) = outcome (n.run { t with notices := notices })

namespace Alike

lemma pure (a : α) : Alike (Pure.pure a) (Pure.pure a) := fun _ _ => rfl

lemma throw (fault : Fault) :
    Alike (MonadExcept.throw fault : Lowering α) (MonadExcept.throw fault) := fun _ _ => rfl

lemma bind {m n : Lowering α} {f g : α → Lowering β} (hm : Alike m n)
    (hf : ∀ a, Alike (f a) (g a)) : Alike (m >>= f) (n >>= g) := by
  intro t notices
  have hrun := hm t notices
  rw [EStateM.run_bind, EStateM.run_bind]
  cases hfirst : m.run t with
  | error fault s =>
    cases hsecond : n.run { t with notices := notices } with
    | error fault' s' => simpa [hfirst, hsecond, outcome] using hrun
    | ok a s' => simp [hfirst, hsecond, outcome] at hrun
  | ok a s =>
    cases hsecond : n.run { t with notices := notices } with
    | error fault' s' => simp [hfirst, hsecond, outcome] at hrun
    | ok a' s' =>
      obtain ⟨rfl, htable⟩ : a = a' ∧ s.silent = s'.silent := by
        simpa [hfirst, hsecond, outcome] using hrun
      have happly := hf a s s'.notices
      rwa [← NameTable.eq_of_silent_eq htable] at happly

lemma forM {f g : α → Lowering Unit} (h : ∀ a, Alike (f a) (g a)) (items : List α) :
    Alike (items.forM f) (items.forM g) := by
  induction items with
  | nil => exact pure _
  | cons a rest ih => exact (h a).bind fun _ => ih

end Alike

variable (config : Config)

lemma rail_alike (value : Bool) :
    Alike (NameTable.rail config value) (NameTable.rail config value) := by
  intro t notices
  have hused : ({ t with notices := notices } : NameTable).railUsed value = t.railUsed value := rfl
  rw [NameTable.run_rail, NameTable.run_rail, NameTable.afterRail, NameTable.afterRail, hused]
  cases t.railUsed value <;> cases value <;> rfl

lemma temporary_alike : Alike (NameTable.temporary config) (NameTable.temporary config) :=
  fun _ _ => rfl

lemma resolve_alike (name : String) :
    Alike (NameTable.resolve config name) (NameTable.resolve config name) := by
  unfold NameTable.resolve
  cases config.rail? name with
  | some value => exact rail_alike config value
  | none =>
    intro t notices
    by_cases hname : name ∈ t.names
    · simp [hname, outcome, NameTable.silent]
    · simp [hname, outcome, run_throw]

/-- Nothing that lowering does depends on the notices. -/
lemma alike_hereditary : Hereditary config fun _ m => Alike m m where
  pure := Alike.pure
  throw _ := Alike.throw _
  bind := Alike.bind
  rail := rail_alike config
  resolve := resolve_alike config
  temporary := temporary_alike config

/-- The type of a signal shows in a notice at most. -/
lemma declareSignal_alike (name typeName other : String) :
    Alike (NameTable.declareSignal config name typeName)
      (NameTable.declareSignal config name other) := by
  intro t notices
  cases hrail : config.rail? name with
  | some value => simp [NameTable.declareSignal, hrail, outcome]
  | none =>
    by_cases hname : name ∈ t.names
    · simp [NameTable.declareSignal, hrail, hname, outcome]
    · cases htype : isSingleBitType typeName <;> cases hother : isSingleBitType other <;>
        simp [NameTable.declareSignal, hrail, hname, htype, hother, outcome, NameTable.silent,
          NameTable.addName, NameTable.addSignal, NameTable.addNotice]

lemma declarePort_alike (name : String) (direction : Direction) (typeName other : String) :
    Alike (NameTable.declarePort config name direction typeName)
      (NameTable.declarePort config name direction other) :=
  (declareSignal_alike config name typeName other).bind fun _ _ _ => rfl

end Lowering

/-- The architecture without the marks that carry no logic. -/
def Architecture.plain (a : Architecture) : Architecture :=
  { a with signals := a.signals.map (·.plain), body := Phrase.plainBody .statement a.body }

namespace Design

open Lowering (Alike)

/-- The design without the marks that carry no logic. -/
def plain (design : Design) : Design := ⟨design.entity.plain, design.architecture.plain⟩

variable (config : Config)

lemma declarePorts_plain (ports : List PortDeclaration) :
    Alike (declarePorts config (ports.map (·.plain))) (declarePorts config ports) := by
  rw [declarePorts, List.forM_eq_forM, List.forM_map]
  refine Alike.forM (fun d => Alike.forM (fun name => ?_) d.names) ports
  exact Lowering.declarePort_alike config name d.direction "" d.typeName

lemma declareSignals_plain (signals : List SignalDeclaration) :
    Alike (declareSignals config (signals.map (·.plain))) (declareSignals config signals) := by
  rw [declareSignals, List.forM_eq_forM, List.forM_map]
  refine Alike.forM (fun d => Alike.forM (fun name => ?_) d.names) signals
  exact Lowering.declareSignal_alike config name "" d.typeName

theorem lower_plain (design : Design) :
    Alike (design.plain.lower config) (design.lower config) := by
  refine (declarePorts_plain config design.entity.ports).bind fun _ => ?_
  refine (declareSignals_plain config design.architecture.signals).bind fun _ => ?_
  have hbody : lowerEach (Phrase.lowerStatement config) design.plain.architecture.body =
      lowerEach (Phrase.lowerStatement config) design.architecture.body := by
    rw [plain, Architecture.plain, Phrase.plainBody_eq_map, lowerEach_map (Phrase.lowerStatement_plain config)]
  have h := Lowering.alike_hereditary config
  rw [hbody]
  exact h.lowerEach h.lowerStatement _

/-- The notices of a table do not get into the specification. -/
lemma synthesize_plain (design : Design) :
    (design.plain.synthesize config).result = (design.synthesize config).result := by
  have hrun := lower_plain config design {} []
  unfold synthesize
  cases hplain : (design.plain.lower config).run {} with
  | error fault s =>
    cases hlower : (design.lower config).run {} with
    | error fault' s' => simpa [hplain, hlower, Lowering.outcome] using hrun
    | ok elements s' => simp [hplain, hlower, Lowering.outcome] at hrun
  | ok elements s =>
    cases hlower : (design.lower config).run {} with
    | error fault' s' => simp [hplain, hlower, Lowering.outcome] at hrun
    | ok elements' s' =>
      obtain ⟨rfl, htable⟩ : elements = elements' ∧ s.silent = s'.silent := by
        simpa [hplain, hlower, Lowering.outcome] using hrun
      have hspec : design.plain.assemble config elements s = design.assemble config elements s' := by
        rw [NameTable.eq_of_silent_eq htable]
        rfl
      simp only [hspec]
      cases (design.assemble config elements s').flaw? <;> rfl

/-- The units found so far, without the marks that carry no logic. -/
def Units.plain (units : Units) : Units :=
  ⟨units.entity?.map (·.plain), units.architecture?.map (·.plain)⟩

lemma Units.add_plain (units : Units) (p : Phrase) :
    units.plain.add (p.plain .statement) = (units.add p).map Units.plain := by
  cases p with
  | entity unit => cases h : units.entity? <;> simp [Phrase.plain, add, plain, h, Except.map, Entity.plain]
  | architecture name entityName signals body ending =>
    cases h : units.architecture? <;>
      simp [Phrase.plain, add, plain, h, Except.map, Architecture.plain]
  | _ => simp [Phrase.plain, add, Except.map, Phrase.construct]

lemma Units.addAll_plain (units : Units) (phrases : List Phrase) :
    units.plain.addAll (phrases.map (Phrase.plain .statement)) =
      (units.addAll phrases).map Units.plain := by
  induction phrases generalizing units with
  | nil => rfl
  | cons p rest ih =>
    rw [List.map_cons, addAll, addAll, add_plain]
    cases units.add p with
    | error fault => rfl
    | ok more => exact ih more

lemma ofPhrases_plain (phrases : List Phrase) :
    ofPhrases (phrases.map (Phrase.plain .statement)) = (ofPhrases phrases).map plain := by
  have hunits : Units.addAll {} (phrases.map (Phrase.plain .statement)) =
      (Units.addAll {} phrases).map Units.plain := Units.addAll_plain {} phrases
  rw [ofPhrases, ofPhrases, hunits]
  cases Units.addAll {} phrases with
  | error fault => rfl
  | ok units =>
    obtain ⟨_ | entity, _ | architecture⟩ := units
    · rfl
    · rfl
    · rfl
    · change (if architecture.entityName = entity.name then _ else _) =
        Except.map plain (if architecture.entityName = entity.name then _ else _)
      split_ifs <;> rfl

end Design

/-- A file and its plain form have the same specification, or the same fault. -/
lemma result_plain (config : Config) (phrases : List Phrase) :
    (synthesize config (phrases.map (Phrase.plain .statement))).result =
      (synthesize config phrases).result := by
  unfold synthesize
  rw [Design.ofPhrases_plain]
  cases Design.ofPhrases phrases with
  | error fault => rfl
  | ok design => exact Design.synthesize_plain config design

/-- Two files whose phrases are equal but for the marks that carry no logic have the same
specification, with the same names and orders, or the same fault. -/
theorem synthesize_eq_of_plain_eq (config : Config) {phrases others : List Phrase}
    (h : phrases.map (Phrase.plain .statement) = others.map (Phrase.plain .statement)) :
    (synthesize config phrases).result = (synthesize config others).result := by
  calc (synthesize config phrases).result
    _ = (synthesize config (phrases.map (Phrase.plain .statement))).result :=
      (result_plain config phrases).symm
    _ = (synthesize config (others.map (Phrase.plain .statement))).result := by rw [h]
    _ = (synthesize config others).result := result_plain config others

/-- A conditional inverter with a latch behind it, written with few marks. -/
def plainWriting : List Phrase :=
  [.entity ⟨"E", [⟨["A", "S"], .input, "bit"⟩, ⟨["Y"], .output, "bit"⟩], {}⟩,
    .architecture "R" "E" [⟨["T"], "bit"⟩]
      [.binary (.identifier "T") (.assignment .toSignal)
        (.whenElse [⟨.unary (.logic .not) (.identifier "A") false,
          .binary (.identifier "S") (.relation .equal) (.literal (.bit true)) false⟩]
          (.binary (.identifier "A") (.logic .and) (.identifier "S") false)) false,
        .process ["S"] [.ifThen (.identifier "S")
          [.binary (.identifier "Y") (.assignment .toSignal) (.identifier "T") false]]] {}]

/-- The same with parentheses, other operators of assignment, semicolons, types and end clauses. -/
def markedWriting : List Phrase :=
  [.entity ⟨"E", [⟨["A", "S"], .input, "std_logic"⟩, ⟨["Y"], .output, "integer"⟩],
      ⟨true, some "E"⟩⟩,
    .architecture "R" "E" [⟨["T"], "real"⟩]
      [.binary (.identifier "T") (.assignment .toVariable)
        (.parenthesized (.whenElse
          [⟨.parenthesized (.unary (.logic .not) (.parenthesized (.identifier "A")) true),
            .parenthesized (.parenthesized
              (.binary (.identifier "S") (.relation .equal) (.literal (.bit true)) true))⟩]
          (.binary (.parenthesized (.identifier "A")) (.logic .and) (.identifier "S") true))) true,
        .process ["S"] [.ifThen (.parenthesized (.identifier "S"))
          [.binary (.identifier "Y") (.assignment .toVariable)
            (.parenthesized (.identifier "T")) true]]] ⟨false, some "R"⟩]

theorem synthesize_eq_of_plain_eq_marked :
    markedWriting.map (Phrase.plain .statement) = plainWriting.map (Phrase.plain .statement) ∧
      (synthesize {} markedWriting).result = (synthesize {} plainWriting).result ∧
      ∃ spec, (synthesize {} markedWriting).result = .ok spec ∧
        spec.elements = [⟨.combinational, .not, ["A"], ["tmp_0"]⟩,
          ⟨.combinational, .and, ["A", "S"], ["tmp_1"]⟩,
          ⟨.connection, .mux, ["tmp_0", "S", "tmp_1"], ["T"]⟩,
          ⟨.sequential, .mux, ["T", "S", "Y"], ["Y"]⟩] := by
  have hplain : markedWriting.map (Phrase.plain .statement) =
      plainWriting.map (Phrase.plain .statement) := by rfl
  have hresult := synthesize_eq_of_plain_eq {} hplain
  have hspec : (synthesize {} plainWriting).result = .ok
      ⟨1, "Synthesis Performer", [.singleBit "A" .input, .singleBit "S" .input,
        .singleBit "Y" .output], "R", [.singleBit "A", .singleBit "S", .singleBit "Y",
          .singleBit "T", .singleBit "tmp_0", .singleBit "tmp_1"],
        [⟨.combinational, .not, ["A"], ["tmp_0"]⟩,
          ⟨.combinational, .and, ["A", "S"], ["tmp_1"]⟩,
          ⟨.connection, .mux, ["tmp_0", "S", "tmp_1"], ["T"]⟩,
          ⟨.sequential, .mux, ["T", "S", "Y"], ["Y"]⟩]⟩ := by cbv
  exact ⟨hplain, hresult, _, hresult.trans hspec, rfl⟩

end VhdlGates
