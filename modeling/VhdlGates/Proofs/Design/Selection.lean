import Mathlib.Data.List.Induction
import Mathlib.Data.List.Permutation
import VhdlGates.Proofs.Design.Synthesis

/-! The units of a file. Synthesis works on one entity and one architecture, which may stand in any
order among library and use clauses. In any other file it fails, and the fault is that of the first
phrase that does not fit those before it, or else that of the unit which is missing. -/
namespace VhdlGates

namespace Phrase

/-- Whether a phrase is a library or a use clause. -/
def isClause : Phrase → Bool
  | .libraryClause _ | .useClause .. => true
  | _ => false

def entity? : Phrase → Option Entity
  | .entity unit => some unit
  | _ => none

def architecture? : Phrase → Option Architecture
  | .architecture name entityName signals body _ => some ⟨name, entityName, signals, body⟩
  | _ => none

end Phrase

namespace Design

/-- A phrase that does not fit the phrases before it: a second entity, a second architecture, or
neither a unit nor a clause. -/
inductive Offends (before : List Phrase) : Phrase → Fault → Prop
  | entity {unit : Entity} (h : ∃ p ∈ before, p.entity?.isSome) :
    Offends before (.entity unit) (.duplicateEntity unit.name)
  | architecture {name entityName : String} {signals : List SignalDeclaration}
    {body : List Phrase} {ending : EndClause} (h : ∃ p ∈ before, p.architecture?.isSome) :
    Offends before (.architecture name entityName signals body ending) (.duplicateArchitecture name)
  | stray {p : Phrase} (hentity : p.entity? = none) (harchitecture : p.architecture? = none)
    (hclause : p.isClause = false) :
    Offends before p (.invalidStatement (.outsideArchitecture p.construct))

/-- Every phrase fits those before it. -/
def Orderly (phrases : List Phrase) : Prop :=
  ∀ before p after fault, phrases = before ++ p :: after → ¬Offends before p fault

/-- Besides clauses the phrases are this entity and this architecture, in any order. -/
structure ConsistsOf (phrases : List Phrase) (entity architecture : Phrase) : Prop where
  perm : (phrases.filter (!·.isClause)).Perm [entity, architecture]
  isEntity : entity.entity?.isSome
  isArchitecture : architecture.architecture?.isSome

/-- Why phrases are no design: the first one that does not fit, or if all do, the unit that is
missing. -/
inductive NoDesign (phrases : List Phrase) : Fault → Prop
  | offence {before after : List Phrase} {p : Phrase} {fault : Fault}
    (hphrases : phrases = before ++ p :: after) (hbefore : Orderly before)
    (h : Offends before p fault) : NoDesign phrases fault
  | noEntity (horderly : Orderly phrases) (h : ∀ p ∈ phrases, p.entity? = none) :
    NoDesign phrases .missingEntity
  | noArchitecture (horderly : Orderly phrases) (hentity : ∃ p ∈ phrases, p.entity?.isSome)
    (h : ∀ p ∈ phrases, p.architecture? = none) : NoDesign phrases .missingArchitecture

variable {phrases before : List Phrase} {p : Phrase} {fault : Fault}

lemma orderly_nil : Orderly [] := by
  intro before p after fault h
  simp at h

/-- The last phrase has to fit the others, which do not depend on it. -/
lemma orderly_concat : Orderly (before ++ [p]) ↔
    Orderly before ∧ ∀ fault, ¬Offends before p fault := by
  constructor
  · intro h
    refine ⟨fun earlier q after fault hsplit => ?_, fun fault => ?_⟩
    · exact h earlier q (after ++ [p]) fault (by simp [hsplit])
    · exact h before p [] fault rfl
  · rintro ⟨hbefore, hlast⟩ earlier q after fault hsplit
    rcases List.eq_nil_or_concat after with rfl | ⟨rest, last, rfl⟩
    · obtain ⟨rfl, hq⟩ := List.append_inj' hsplit rfl
      obtain rfl := List.head_eq_of_cons_eq hq
      exact hlast fault
    · have hconcat : before ++ [p] = (earlier ++ q :: rest) ++ [last] := by simpa using hsplit
      exact hbefore earlier q rest fault (List.append_inj' hconcat rfl).1

namespace Units

/-- The first entity and the first architecture among some phrases. -/
def first (phrases : List Phrase) : Units :=
  ⟨phrases.findSome? Phrase.entity?, phrases.findSome? Phrase.architecture?⟩

lemma add_of_offends (h : Offends before p fault) : (first before).add p = .error fault := by
  cases h with
  | entity h => simp [add, first, List.findSome?_isSome_iff.mpr h]
  | architecture h => simp [add, first, List.findSome?_isSome_iff.mpr h]
  | stray hentity harchitecture hclause =>
    cases p <;> first | rfl | simp [Phrase.entity?, Phrase.architecture?, Phrase.isClause] at *

/-- A phrase that fits is taken up, if it is a unit, or passed over. -/
lemma add_of_fits (h : ∀ fault, ¬Offends before p fault) :
    (first before).add p = .ok (first (before ++ [p])) := by
  cases p with
  | libraryClause | useClause =>
    simp [add, first, List.findSome?_append, Phrase.entity?, Phrase.architecture?]
  | entity unit =>
    have hnew : before.findSome? Phrase.entity? = none := by
      rw [List.findSome?_eq_none_iff]
      intro q hq
      by_contra hsome
      exact h _ (.entity ⟨q, hq, Option.isSome_iff_ne_none.mpr hsome⟩)
    simp [add, first, List.findSome?_append, hnew, Phrase.entity?, Phrase.architecture?]
  | architecture name entityName signals body ending =>
    have hnew : before.findSome? Phrase.architecture? = none := by
      rw [List.findSome?_eq_none_iff]
      intro q hq
      by_contra hsome
      exact h _ (.architecture ⟨q, hq, Option.isSome_iff_ne_none.mpr hsome⟩)
    simp [add, first, List.findSome?_append, hnew, Phrase.entity?, Phrase.architecture?]
  | _ => exact absurd (.stray rfl rfl rfl) (h _)

lemma addAll_append (units : Units) (phrases more : List Phrase) :
    units.addAll (phrases ++ more) = (units.addAll phrases >>= fun u => u.addAll more) := by
  induction phrases generalizing units with
  | nil => rfl
  | cons p rest ih =>
    rw [List.cons_append, addAll, addAll]
    cases units.add p with
    | error fault => rfl
    | ok u => exact ih u

/-- Phrases that all fit leave their first units. -/
lemma addAll_of_orderly (h : Orderly phrases) : addAll {} phrases = .ok (first phrases) := by
  induction phrases using List.reverseRecOn with
  | nil => rfl
  | append_singleton before p ih =>
    obtain ⟨hbefore, hlast⟩ := orderly_concat.mp h
    rw [addAll_append, ih hbefore]
    change ((first before).add p >>= fun u => u.addAll []) = _
    rw [add_of_fits hlast]
    rfl

/-- Clauses are passed over. -/
lemma addAll_filter (units : Units) (phrases : List Phrase) :
    units.addAll (phrases.filter (!·.isClause)) = units.addAll phrases := by
  induction phrases generalizing units with
  | nil => rfl
  | cons p rest ih =>
    cases p with
    | libraryClause | useClause => exact ih units
    | _ =>
      rw [List.filter_cons_of_pos rfl, addAll, addAll]
      congr 1
      funext u
      exact ih u

end Units

/-- The units are found in whatever order they stand. -/
lemma ofPhrases_of_consistsOf {entity architecture : Phrase}
    (h : ConsistsOf phrases entity architecture) :
    ofPhrases phrases = ofPhrases [entity, architecture] := by
  obtain ⟨hperm, hentity, harchitecture⟩ := h
  have haddAll : Units.addAll {} phrases = Units.addAll {} [entity, architecture] := by
    rw [← Units.addAll_filter]
    rcases List.perm_pair.mp hperm with heq | heq
    · rw [heq]
    · rw [heq]
      cases entity <;> simp [Phrase.entity?] at hentity
      cases architecture <;> simp [Phrase.architecture?] at harchitecture
      rfl
  rw [ofPhrases, haddAll, ofPhrases]

lemma ofPhrases_mismatch {entity architecture : Phrase} {unit : Entity} {described : Architecture}
    (hentity : entity.entity? = some unit) (harchitecture : architecture.architecture? = some described)
    (hname : described.entityName ≠ unit.name) : ofPhrases [entity, architecture] =
      .error (.entityMismatch described.name unit.name described.entityName) := by
  cases entity <;> simp [Phrase.entity?] at hentity
  cases architecture <;> simp [Phrase.architecture?] at harchitecture
  subst hentity harchitecture
  change (if _ then _ else _) = _
  rw [if_neg hname]
  rfl

lemma ofPhrases_of_noDesign (h : NoDesign phrases fault) : ofPhrases phrases = .error fault := by
  cases h with
  | @offence before after p _ hphrases hbefore h =>
    have hadd : Units.addAll {} phrases = .error fault := by
      rw [hphrases, Units.addAll_append, Units.addAll_of_orderly hbefore]
      change ((Units.first before).add p >>= fun u => u.addAll after) = _
      rw [Units.add_of_offends h]
      rfl
    rw [ofPhrases, hadd]
    rfl
  | noEntity horderly h =>
    rw [ofPhrases, Units.addAll_of_orderly horderly, Units.first, List.findSome?_eq_none_iff.mpr h]
    rfl
  | noArchitecture horderly hentity h =>
    obtain ⟨unit, hunit⟩ := Option.isSome_iff_exists.mp (List.findSome?_isSome_iff.mpr hentity)
    rw [ofPhrases, Units.addAll_of_orderly horderly, Units.first, List.findSome?_eq_none_iff.mpr h,
      hunit]
    rfl

/-- Phrases that do not all fit have a first one that does not. -/
lemma exists_offence (h : ¬Orderly phrases) : ∃ before p after fault,
    phrases = before ++ p :: after ∧ Orderly before ∧ Offends before p fault := by
  induction phrases using List.reverseRecOn with
  | nil => exact absurd orderly_nil h
  | append_singleton before last ih =>
    by_cases hbefore : Orderly before
    · have hlast : ∃ fault, Offends before last fault := by
        by_contra hfits
        exact h (orderly_concat.mpr ⟨hbefore, not_exists.mp hfits⟩)
      obtain ⟨fault, hlast⟩ := hlast
      exact ⟨before, last, [], fault, rfl, hbefore, hlast⟩
    · obtain ⟨earlier, p, after, fault, hsplit, hearlier, hoffends⟩ := ih hbefore
      exact ⟨earlier, p, after ++ [last], fault, by simp [hsplit], hearlier, hoffends⟩

/-- Besides clauses, phrases that all fit are an entity and an architecture, as far as they have
them. -/
lemma Orderly.perm (h : Orderly phrases) : (phrases.filter (!·.isClause)).Perm
    ((phrases.find? (·.entity?.isSome)).toList ++
      (phrases.find? (·.architecture?.isSome)).toList) := by
  induction phrases using List.reverseRecOn with
  | nil => exact List.Perm.refl _
  | append_singleton before p ih =>
    obtain ⟨hbefore, hlast⟩ := orderly_concat.mp h
    have ih := ih hbefore
    rw [List.filter_append, List.find?_append, List.find?_append]
    cases p with
    | libraryClause | useClause =>
      simpa [Phrase.isClause, Phrase.entity?, Phrase.architecture?] using ih
    | entity unit =>
      have hnew : before.find? (·.entity?.isSome) = none := by
        rw [List.find?_eq_none]
        exact fun q hq hsome => hlast _ (.entity ⟨q, hq, hsome⟩)
      rw [hnew] at ih ⊢
      simpa [Phrase.isClause, Phrase.entity?, Phrase.architecture?] using
        (List.perm_append_singleton _ _).trans (ih.cons _)
    | architecture name entityName signals body ending =>
      have hnew : before.find? (·.architecture?.isSome) = none := by
        rw [List.find?_eq_none]
        exact fun q hq hsome => hlast _ (.architecture ⟨q, hq, hsome⟩)
      rw [hnew] at ih ⊢
      simpa [Phrase.isClause, Phrase.entity?, Phrase.architecture?] using ih.append_right _
    | _ => exact absurd (.stray rfl rfl rfl) (hlast _)

/-- Phrases are a design with clauses around it, or there is a reason why not. -/
lemma exists_noDesign (h : ¬∃ entity architecture, ConsistsOf phrases entity architecture) :
    ∃ fault, NoDesign phrases fault := by
  by_cases horderly : Orderly phrases
  · have hperm := horderly.perm
    cases hentity : phrases.find? (·.entity?.isSome) with
    | none =>
      refine ⟨_, .noEntity horderly fun p hp => ?_⟩
      simpa using List.find?_eq_none.mp hentity p hp
    | some entity =>
      have hisEntity : entity.entity?.isSome := (List.find?_eq_some_iff_append.mp hentity).1
      cases harchitecture : phrases.find? (·.architecture?.isSome) with
      | none =>
        refine ⟨_, .noArchitecture horderly ⟨entity, ?_, hisEntity⟩ fun p hp => ?_⟩
        · exact List.mem_of_find?_eq_some hentity
        · simpa using List.find?_eq_none.mp harchitecture p hp
      | some architecture =>
        rw [hentity, harchitecture] at hperm
        refine absurd ⟨entity, architecture, hperm, hisEntity, ?_⟩ h
        exact (List.find?_eq_some_iff_append.mp harchitecture).1
  · obtain ⟨before, p, after, fault, hphrases, hbefore, hoffends⟩ := exists_offence horderly
    exact ⟨fault, .offence hphrases hbefore hoffends⟩

end Design

open Design (ConsistsOf NoDesign)

/-- Synthesis of a file with one entity, one architecture and any clauses is synthesis of the two
units, wherever they stand. If the architecture names another entity, it fails with the three names
before anything is declared. In any other file it fails with the reason why there is no design, and
there always is one. -/
theorem synthesize_selects_units (config : Config) (phrases : List Phrase) :
    (∀ entity architecture, ConsistsOf phrases entity architecture →
      synthesize config phrases = synthesize config [entity, architecture] ∧
      ∀ unit described, entity.entity? = some unit → architecture.architecture? = some described →
        described.entityName ≠ unit.name → (synthesize config phrases).result =
          .error (.entityMismatch described.name unit.name described.entityName)) ∧
    (∀ fault, NoDesign phrases fault → (synthesize config phrases).result = .error fault) ∧
    ((¬∃ entity architecture, ConsistsOf phrases entity architecture) →
      ∃ fault, NoDesign phrases fault) := by
  refine ⟨fun entity architecture h => ⟨?_, ?_⟩, fun fault h => ?_, Design.exists_noDesign⟩
  · rw [synthesize, Design.ofPhrases_of_consistsOf h, synthesize]
  · intro unit described hentity harchitecture hname
    apply Design.result_of_ofPhrases_error
    rw [Design.ofPhrases_of_consistsOf h]
    exact Design.ofPhrases_mismatch hentity harchitecture hname
  · exact Design.result_of_ofPhrases_error (Design.ofPhrases_of_noDesign h)

/-- A file whose architecture stands before its entity and names another one, with two declarations
of one port. -/
def mismatchedUnits : List Phrase :=
  [.useClause "ieee" "std_logic_1164" "all", .architecture "R" "F" [] [] {},
    .libraryClause "ieee", .entity ⟨"E", [⟨["A", "A"], .input, "bit"⟩], {}⟩]

/-- The mismatch comes before the repeated port. A phrase outside the units comes before the second
entity after it, and before the architecture that is missing. -/
theorem synthesize_selects_units_mismatched :
    (synthesize {} mismatchedUnits).result = .error (.entityMismatch "R" "E" "F") ∧
      (synthesize {} [.entity ⟨"E", [], {}⟩, .identifier "A", .entity ⟨"F", [], {}⟩]).result =
        .error (.invalidStatement (.outsideArchitecture .identifier)) := by
  constructor
  · have hunits : ConsistsOf mismatchedUnits (.entity ⟨"E", [⟨["A", "A"], .input, "bit"⟩], {}⟩)
        (.architecture "R" "F" [] [] {}) :=
      ⟨List.perm_pair.mpr (.inr rfl), rfl, rfl⟩
    exact ((synthesize_selects_units {} mismatchedUnits).1 _ _ hunits).2 _ _ rfl rfl (by decide)
  · refine (synthesize_selects_units {} _).2.1 _ ?_
    have hbefore : Design.Orderly [.entity ⟨"E", [], {}⟩] := by
      refine Design.orderly_concat.mpr ⟨Design.orderly_nil, fun fault h => ?_⟩
      cases h with
      | entity h => simp at h
      | stray hentity => cases hentity
    have hstray : Design.Offends [.entity ⟨"E", [], {}⟩] (.identifier "A")
        (.invalidStatement (.outsideArchitecture .identifier)) := .stray rfl rfl rfl
    exact .offence rfl hbefore hstray

end VhdlGates
