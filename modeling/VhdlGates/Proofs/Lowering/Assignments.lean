import Mathlib.Data.List.Basic
import VhdlGates.Lowering.Statement

/-! The assignments of a branch of an if statement: which targets it has, in which order, and which
value each of them gets. The last assignment to a target decides. -/
namespace VhdlGates

section FirstOccurrences

@[simp] lemma mem_firstOccurrences {names : List String} {name : String} :
    name ∈ firstOccurrences names ↔ name ∈ names := by
  induction names with
  | nil => rfl
  | cons first rest ih =>
    by_cases h : name = first
    · simp [firstOccurrences, h]
    · simp [firstOccurrences, h, ih]

lemma nodup_firstOccurrences (names : List String) : (firstOccurrences names).Nodup := by
  induction names with
  | nil => exact List.nodup_nil
  | cons first rest ih =>
    rw [firstOccurrences, List.nodup_cons]
    exact ⟨by simp, ih.filter _⟩

lemma firstOccurrences_append (names others : List String) :
    firstOccurrences (names ++ others) =
      firstOccurrences names ++ (firstOccurrences others).filter (!names.contains ·) := by
  induction names with
  | nil => simp [firstOccurrences]
  | cons first rest ih =>
    rw [List.cons_append, firstOccurrences, ih, firstOccurrences, List.filter_append,
      List.filter_filter, List.cons_append]
    congr 2
    refine List.filter_congr fun name _ => ?_
    by_cases h : name = first <;> simp [h]

end FirstOccurrences

namespace Phrase

/-- The target and the value of an assignment to an identifier. -/
def assignment? : Phrase → Option (String × Phrase)
  | .binary (.identifier target) (.assignment _) value _ => some (target, value)
  | _ => none

/-- The names that some statements assign, in the order of their first assignments. -/
def assignedNames (body : List Phrase) : List String :=
  firstOccurrences ((body.filterMap assignment?).map (·.1))

/-- The value of the last assignment to a name. -/
def lastValue? (body : List Phrase) (target : String) : Option Phrase :=
  (body.filterMap assignment?).reverse.lookup target

end Phrase

namespace Assignments

open Phrase (assignment? assignedNames lastValue?)

lemma ofStatement_eq_ok {statement : Phrase} {assignment : String × Phrase} :
    ofStatement statement = .ok assignment ↔ statement.assignment? = some assignment := by
  constructor
  · intro h
    unfold ofStatement at h
    split at h <;> cases h
    rfl
  · intro h
    unfold assignment? at h
    split at h <;> cases h
    rfl

/-- A branch is accepted exactly if all of it assigns to identifiers, whatever the values are. -/
lemma exists_collect_iff {made : Assignments} {body : List Phrase} :
    (∃ path, collect made body = .ok path) ↔
      ∀ statement ∈ body, ∃ assignment, statement.assignment? = some assignment := by
  induction body generalizing made with
  | nil => exact iff_of_true ⟨made, rfl⟩ (by simp)
  | cons statement rest ih =>
    rw [List.forall_mem_cons]
    cases hfirst : ofStatement statement with
    | error fault =>
      refine iff_of_false ?_ ?_
      · rintro ⟨path, hpath⟩
        rw [collect, hfirst] at hpath
        cases hpath
      · rintro ⟨⟨assignment, hassignment⟩, -⟩
        rw [ofStatement_eq_ok.mpr hassignment] at hfirst
        cases hfirst
    | ok assignment =>
      rw [collect, hfirst, and_iff_right ⟨assignment, ofStatement_eq_ok.mp hfirst⟩]
      exact ih

lemma lookup_cons (name other : String) (value : Phrase) (rest : Assignments) :
    List.lookup name ((other, value) :: rest) =
      if name = other then some value else rest.lookup name := by
  by_cases h : name = other
  · simp [h]
  · simp [List.lookup_cons, beq_false_of_ne h, h]

lemma lookup_put (made : Assignments) (target name : String) (value : Phrase) :
    (made.put target value).lookup name = if name = target then some value else made.lookup name := by
  induction made with
  | nil => rw [put, lookup_cons]
  | cons first rest ih =>
    obtain ⟨other, old⟩ := first
    rw [put]
    by_cases hother : other = target
    · rw [if_pos hother, lookup_cons, lookup_cons, hother]
      split_ifs <;> rfl
    · rw [if_neg hother, lookup_cons, lookup_cons, ih]
      by_cases hname : name = other
      · rw [if_pos hname, if_pos hname, if_neg (hname ▸ hother)]
      · rw [if_neg hname, if_neg hname]

lemma targets_put (made : Assignments) (target : String) (value : Phrase) :
    (made.put target value).targets =
      if target ∈ made.targets then made.targets else made.targets ++ [target] := by
  induction made with
  | nil => simp [put, targets]
  | cons first rest ih =>
    obtain ⟨other, old⟩ := first
    rw [put]
    by_cases hother : other = target
    · simp [hother, targets]
    · have hmem : target ∈ targets ((other, old) :: rest) ↔ target ∈ targets rest := by
        simp [targets, Ne.symm hother]
      simp only [if_neg hother, hmem]
      change other :: (put target value rest).targets = _
      rw [ih]
      split_ifs <;> rfl

/-- What is collected gives every name the last value that it is assigned, or else the one that it
had before. -/
lemma lookup_collect {made path : Assignments} {body : List Phrase}
    (h : collect made body = .ok path) (name : String) :
    path.lookup name = (lastValue? body name).or (made.lookup name) := by
  induction body generalizing made with
  | nil =>
    cases h
    simp [lastValue?]
  | cons statement rest ih =>
    rw [collect] at h
    cases hfirst : ofStatement statement with
    | error fault =>
      rw [hfirst] at h
      cases h
    | ok assignment =>
      obtain ⟨target, value⟩ := assignment
      rw [hfirst] at h
      have hlast : lastValue? (statement :: rest) name =
          (lastValue? rest name).or (if name = target then some value else none) := by
        simp only [lastValue?, List.filterMap_cons, ofStatement_eq_ok.mp hfirst,
          List.reverse_cons, List.lookup_append, lookup_cons, List.lookup_nil]
      rw [ih h, lookup_put, hlast, Option.or_assoc]
      split_ifs <;> simp

/-- The collected targets are those had before, then the newly assigned ones. -/
lemma targets_collect {made path : Assignments} {body : List Phrase}
    (h : collect made body = .ok path) :
    path.targets = made.targets ++ (assignedNames body).filter (!made.targets.contains ·) := by
  induction body generalizing made with
  | nil =>
    cases h
    simp [assignedNames, firstOccurrences]
  | cons statement rest ih =>
    rw [collect] at h
    cases hfirst : ofStatement statement with
    | error fault =>
      rw [hfirst] at h
      cases h
    | ok assignment =>
      obtain ⟨target, value⟩ := assignment
      rw [hfirst] at h
      have hnames : assignedNames (statement :: rest) =
          target :: (assignedNames rest).filter (· != target) := by
        simp only [assignedNames, List.filterMap_cons, ofStatement_eq_ok.mp hfirst,
          List.map_cons, firstOccurrences]
      rw [ih h, targets_put, hnames, List.filter_cons, List.filter_filter]
      by_cases hmem : target ∈ made.targets
      · simp only [hmem, if_true, List.contains_eq_mem, decide_true, Bool.not_true,
          Bool.false_eq_true, if_false]
        congr 1
        refine List.filter_congr fun name _ => ?_
        by_cases hname : name = target <;> simp [hname, hmem]
      · simp only [hmem, if_false, List.contains_eq_mem, decide_false, Bool.not_false, if_true,
          List.append_assoc, List.singleton_append]
        congr 2
        refine List.filter_congr fun name _ => ?_
        by_cases hname : name = target <;> simp [hname]

lemma lookup_ofBody {body : List Phrase} {path : Assignments} (h : ofBody body = .ok path)
    (name : String) : path.lookup name = lastValue? body name := by
  simpa using lookup_collect h name

lemma targets_ofBody {body : List Phrase} {path : Assignments} (h : ofBody body = .ok path) :
    path.targets = assignedNames body := by
  simpa [targets] using targets_collect h

/-- The targets of an if statement are the names that its branches assign. -/
lemma targets_append_filter {thenBody elseBody : List Phrase} {thenPath elsePath : Assignments}
    (hthen : ofBody thenBody = .ok thenPath) (helse : ofBody elseBody = .ok elsePath) :
    thenPath.targets ++ elsePath.targets.filter (!thenPath.targets.contains ·) =
      assignedNames (thenBody ++ elseBody) := by
  rw [targets_ofBody hthen, targets_ofBody helse]
  simp only [assignedNames, List.filterMap_append, List.map_append, firstOccurrences_append]
  congr 1
  refine List.filter_congr fun name _ => ?_
  simp only [List.contains_eq_mem, mem_firstOccurrences]

end Assignments

end VhdlGates
