import VhdlGates.Proofs.Phrase.Soundness

/-! Where the semicolons of operations stand. An operation takes a semicolon wherever one follows
its last operand, so that a semicolon ends a statement, but also what stands between parentheses, a
condition or the value of a choice. Nowhere else is one accepted. -/
namespace VhdlGates

namespace Phrase

/-- Whether the phrase is an operation with a semicolon of its own. -/
def holdsTerminator : Phrase → Bool
  | binary _ _ _ terminated => terminated
  | unary _ _ terminated => terminated
  | _ => false

/-- The left operand of an operation, behind which its other tokens follow. -/
def leading : Phrase → List Phrase
  | binary left _ _ _ => [left]
  | _ => []

/-- The expressions that stand inside a phrase and are no statements: what is between parentheses,
conditions, and the values that are chosen under them. -/
def enclosed : Phrase → List Phrase
  | parenthesized inner => [inner]
  | whenElse branches _ => branches.flatMap fun b => [b.value, b.condition]
  | ifThen condition _ => [condition]
  | ifElse condition _ _ => [condition]
  | _ => []

/-- The last operand of an operation, the last value of a choice, and the statements of a body. -/
def lasts : Phrase → List Phrase
  | binary _ _ right _ => [right]
  | unary _ operand _ => [operand]
  | whenElse _ fallback => [fallback]
  | ifThen _ body => body
  | ifElse _ thenBody elseBody => thenBody ++ elseBody
  | process _ body => body
  | architecture _ _ _ body _ => body
  | _ => []

/-- The phrases directly inside a phrase. -/
def children (p : Phrase) : List Phrase := p.leading ++ p.enclosed ++ p.lasts

/-- The phrase itself, or one inside it at any depth. -/
inductive IsPart (s : Phrase) : Phrase → Prop
  | refl : IsPart s s
  | child {c p : Phrase} (hc : c ∈ p.children) (h : IsPart s c) : IsPart s p

/-- A part behind which only semicolons follow before the phrase, or a statement in it, ends. -/
inductive Ends (s : Phrase) : Phrase → Prop
  | refl : Ends s s
  | last {c p : Phrase} (hc : c ∈ p.lasts) (h : Ends s c) : Ends s p

/-- No operation inside parentheses, a condition or a chosen value holds a semicolon. -/
def IsSealed (p : Phrase) : Prop :=
  ∀ q e s, IsPart q p → e ∈ q.enclosed → IsPart s e → s.holdsTerminator = false

/-- Only what has not yet ended is the left operand of an operation. -/
def OpenLefts (p : Phrase) : Prop :=
  ∀ q, IsPart q p → ∀ left ∈ q.leading, left.isTerminated = false

variable {p q s : Phrase}

lemma IsPart.trans (hs : IsPart s q) (hq : IsPart q p) : IsPart s p := by
  induction hq with
  | refl => exact hs
  | child hc _ ih => exact .child hc ih

lemma IsPart.of_mem_enclosed {e : Phrase} (hs : IsPart s e) (he : e ∈ q.enclosed)
    (hq : IsPart q p) : IsPart s p := by
  have hchild : e ∈ q.children := List.mem_append_left _ (List.mem_append_right _ he)
  exact IsPart.trans (.child hchild hs) hq

lemma Ends.isPart (h : Ends s p) : IsPart s p := by
  induction h with
  | refl => exact .refl
  | @last c p hc _ ih =>
    have hchild : c ∈ p.children := List.mem_append_right _ hc
    exact .child hchild ih

/-- A phrase that has not yet ended holds no semicolon at its end. -/
lemma Ends.holdsTerminator_eq_false (h : Ends s p) (hp : p.isTerminated = false) :
    s.holdsTerminator = false := by
  induction h with
  | refl => cases s <;> simp_all [isTerminated, holdsTerminator]
  | @last c p hc _ ih =>
    apply ih
    cases p <;> simp_all [isTerminated, lasts]

lemma openLefts_iff : OpenLefts p ↔
    (∀ left ∈ p.leading, left.isTerminated = false) ∧ ∀ c ∈ p.children, OpenLefts c := by
  constructor
  · intro h
    exact ⟨h p .refl, fun c hc q hq => h q (.child hc hq)⟩
  · rintro ⟨hleading, hchildren⟩ q (- | ⟨hc, hq⟩)
    · exact hleading
    · exact hchildren _ hc q hq

/-- Every semicolon ends the phrase, or an expression that is enclosed in it. -/
lemma OpenLefts.ends_or_enclosed (hopen : OpenLefts p) (hs : IsPart s p)
    (hterminated : s.holdsTerminator = true) :
    Ends s p ∨ ∃ q e, IsPart q p ∧ e ∈ q.enclosed ∧ Ends s e := by
  induction hs with
  | refl => exact .inl .refl
  | @child c p hc _ ih =>
    obtain ⟨hleading, hchildren⟩ := openLefts_iff.mp hopen
    rcases ih (hchildren c hc) with hends | ⟨q, e, hq, he, hends⟩
    · simp only [children, List.mem_append] at hc
      rcases hc with (hc | hc) | hc
      · -- a left operand has not ended, so it cannot end in a semicolon
        rw [hends.holdsTerminator_eq_false (hleading c hc)] at hterminated
        cases hterminated
      · exact .inr ⟨p, c, .refl, hc, hends⟩
      · exact .inl (.last hc hends)
    · exact .inr ⟨q, e, .child hc hq, he, hends⟩

lemma OpenLefts.isSealed_iff (hopen : OpenLefts p) : IsSealed p ↔
    ∀ q e s, IsPart q p → e ∈ q.enclosed → Ends s e → s.holdsTerminator = false := by
  constructor
  · exact fun h q e s hq he hs => h q e s hq he hs.isPart
  · intro h q e s hq he hs
    by_contra hterminated
    rw [Bool.not_eq_false] at hterminated
    have hinner : OpenLefts e := fun r hr => hopen r (hr.of_mem_enclosed he hq)
    rcases hinner.ends_or_enclosed hs hterminated with hends | ⟨q', e', hq', he', hends⟩
    · rw [h q e s hq he hends] at hterminated
      cases hterminated
    · rw [h q' e' s (hq'.of_mem_enclosed he hq) he' hends] at hterminated
      cases hterminated

/-- Without a left operand, only the parts count. -/
lemma openLefts_iff_parts {parts : List Phrase} (hleading : p.leading = [])
    (hparts : p.children = parts) : OpenLefts p ↔ ∀ c ∈ parts, OpenLefts c := by
  rw [openLefts_iff, hleading, hparts]
  simp

lemma openLefts_of_children_eq_nil (h : p.children = []) : OpenLefts p := by
  have hleading : p.leading = [] := (List.append_eq_nil_iff.mp (List.append_eq_nil_iff.mp h).1).1
  rw [openLefts_iff_parts hleading h]
  simp

@[simp] lemma openLefts_parenthesized : OpenLefts (parenthesized p) ↔ OpenLefts p := by
  have hparts : (parenthesized p).children = [p] := rfl
  rw [openLefts_iff_parts rfl hparts]
  simp

@[simp] lemma openLefts_binary {operator : Operator} {terminated : Bool} :
    OpenLefts (binary p operator q terminated) ↔
      p.isTerminated = false ∧ OpenLefts p ∧ OpenLefts q := by
  have hleading : (binary p operator q terminated).leading = [p] := rfl
  have hparts : (binary p operator q terminated).children = [p, q] := rfl
  rw [openLefts_iff, hleading, hparts]
  simp

@[simp] lemma openLefts_unary {operator : Operator} {terminated : Bool} :
    OpenLefts (unary operator p terminated) ↔ OpenLefts p := by
  have hparts : (unary operator p terminated).children = [p] := rfl
  rw [openLefts_iff_parts rfl hparts]
  simp

@[simp] lemma openLefts_whenElse {branches : List (Branch Phrase)} :
    OpenLefts (whenElse branches p) ↔
      (∀ b ∈ branches, OpenLefts b.value ∧ OpenLefts b.condition) ∧ OpenLefts p := by
  have hparts : (whenElse branches p).children =
    branches.flatMap (fun b => [b.value, b.condition]) ++ [p] := rfl
  rw [openLefts_iff_parts rfl hparts, List.forall_mem_append, List.forall_mem_flatMap]
  simp

@[simp] lemma openLefts_ifThen {body : List Phrase} :
    OpenLefts (ifThen p body) ↔ OpenLefts p ∧ ∀ s ∈ body, OpenLefts s := by
  have hparts : (ifThen p body).children = p :: body := rfl
  rw [openLefts_iff_parts rfl hparts, List.forall_mem_cons]

@[simp] lemma openLefts_ifElse {thenBody elseBody : List Phrase} :
    OpenLefts (ifElse p thenBody elseBody) ↔
      OpenLefts p ∧ (∀ s ∈ thenBody, OpenLefts s) ∧ ∀ s ∈ elseBody, OpenLefts s := by
  have hparts : (ifElse p thenBody elseBody).children = p :: (thenBody ++ elseBody) := rfl
  rw [openLefts_iff_parts rfl hparts, List.forall_mem_cons, List.forall_mem_append]

@[simp] lemma openLefts_process {names : List String} {body : List Phrase} :
    OpenLefts (process names body) ↔ ∀ s ∈ body, OpenLefts s := openLefts_iff_parts rfl rfl

@[simp] lemma openLefts_architecture {name entityName : String} {signals : List SignalDeclaration}
    {body : List Phrase} {ending : EndClause} :
    OpenLefts (architecture name entityName signals body ending) ↔ ∀ s ∈ body, OpenLefts s :=
  openLefts_iff_parts rfl rfl

/-- Taking the last semicolon away changes no left operand. -/
lemma OpenLefts.withoutTerminator? (h : OpenLefts p) (hq : p.withoutTerminator? = some q) :
    OpenLefts q := by
  fun_induction Phrase.withoutTerminator? p generalizing q with
  | case1 left operator right =>
    obtain rfl := Option.some.inj hq
    simpa using h
  | case2 left operator right ih =>
    obtain ⟨right', hright, rfl⟩ := Option.map_eq_some_iff.mp hq
    rw [openLefts_binary] at h ⊢
    exact ⟨h.1, h.2.1, ih h.2.2 hright⟩
  | case3 operator operand =>
    obtain rfl := Option.some.inj hq
    simpa using h
  | case4 operator operand ih =>
    obtain ⟨operand', hoperand, rfl⟩ := Option.map_eq_some_iff.mp hq
    rw [openLefts_unary] at h ⊢
    exact ih h hoperand
  | case5 => cases hq

end Phrase

namespace Parser

open Phrase (OpenLefts)

lemma libraryClause_openLefts (tokens : List Token) :
    Ensures (libraryClause tokens) fun r => OpenLefts r.value := by
  refine (identifier_sound _ tokens).bind ?_
  rintro ⟨name, rest, _⟩ _
  refine (mark_sound _ rest _).bind ?_
  exact fun _ _ => .pure (Phrase.openLefts_of_children_eq_nil rfl)

lemma useClause_openLefts (tokens : List Token) :
    Ensures (useClause tokens) fun r => OpenLefts r.value := by
  refine (identifier_sound _ tokens).bind ?_
  rintro ⟨library, rest₁, _⟩ _
  refine (mark_sound _ rest₁ _).bind ?_
  rintro ⟨_, rest₂, _⟩ _
  refine (identifier_sound _ rest₂).bind ?_
  rintro ⟨package, rest₃, _⟩ _
  refine (mark_sound _ rest₃ _).bind ?_
  rintro ⟨_, rest₄, _⟩ _
  refine (identifier_sound _ rest₄).bind ?_
  rintro ⟨item, rest₅, _⟩ _
  refine (mark_sound _ rest₅ _).bind ?_
  exact fun _ _ => .pure (Phrase.openLefts_of_children_eq_nil rfl)

/-- What a reader has found, if anything, extends no phrase that had ended. -/
def FindsOpenLefts {n : ℕ} (found : Option (Reading Token Phrase n)) : Prop :=
  ∀ r ∈ found, OpenLefts r.value

lemma findsOpenLefts_none {n : ℕ} : FindsOpenLefts (none : Option (Reading Token Phrase n)) := by
  simp [FindsOpenLefts]

lemma findsOpenLefts_some {n : ℕ} {r : Reading Token Phrase n} :
    FindsOpenLefts (some r) ↔ OpenLefts r.value := by
  simp [FindsOpenLefts]

mutual

theorem primary_openLefts : ∀ tokens : List Token, Ensures (primary tokens) FindsOpenLefts
  | [] => by
    rw [primary]
    exact .pure findsOpenLefts_none
  | ⟨kind, place⟩ :: rest => by
    unfold primary
    split
    · refine (libraryClause_openLefts rest).bind ?_
      exact fun r h => .pure (findsOpenLefts_some.mpr h)
    · refine (useClause_openLefts rest).bind ?_
      exact fun r h => .pure (findsOpenLefts_some.mpr h)
    · refine (ifStatement_openLefts rest).bind ?_
      exact fun r h => .pure (findsOpenLefts_some.mpr h)
    · refine (entity_sound rest place).bind ?_
      rintro ⟨unit, after, _⟩ _
      exact .pure (findsOpenLefts_some.mpr (Phrase.openLefts_of_children_eq_nil rfl))
    · refine (architecture_openLefts rest).bind ?_
      exact fun r h => .pure (findsOpenLefts_some.mpr h)
    · refine (process_openLefts rest).bind ?_
      exact fun r h => .pure (findsOpenLefts_some.mpr h)
    · refine (signalDeclaration_sound _).bind ?_
      rintro ⟨declaration, after, _⟩ _
      exact .pure (findsOpenLefts_some.mpr (Phrase.openLefts_of_children_eq_nil rfl))
    · refine (parenthesized_openLefts rest).bind ?_
      exact fun r h => .pure (findsOpenLefts_some.mpr h)
    · refine (unary_openLefts _ rest).bind ?_
      exact fun r h => .pure (findsOpenLefts_some.mpr h)
    · exact .pure (findsOpenLefts_some.mpr (Phrase.openLefts_of_children_eq_nil rfl))
    · exact .pure (findsOpenLefts_some.mpr (Phrase.openLefts_of_children_eq_nil rfl))
    · refine (bit_sound rest).bind ?_
      rintro ⟨value, after, _⟩ _
      exact .pure (findsOpenLefts_some.mpr (Phrase.openLefts_of_children_eq_nil rfl))
    · exact .pure findsOpenLefts_none
termination_by tokens => 4 * tokens.length

theorem unary_openLefts (operator : Operator) (tokens : List Token) :
    Ensures (unary operator tokens) fun r => OpenLefts r.value := by
  rw [unary]
  refine (primary_openLefts tokens).bind ?_
  rintro (_ | ⟨operand, rest, _⟩) h
  · exact .throw _
  · rw [findsOpenLefts_some] at h
    exact .pure (Phrase.openLefts_unary.mpr h)
termination_by 4 * tokens.length + 1

theorem parenthesized_openLefts (tokens : List Token) :
    Ensures (parenthesized tokens) fun r => OpenLefts r.value := by
  rw [parenthesized]
  refine (expression_openLefts tokens).bind ?_
  rintro (_ | ⟨inner, rest, _⟩) h
  · exact .throw _
  · rw [findsOpenLefts_some] at h
    refine (paren_sound _ rest _).bind ?_
    exact fun _ _ => .pure (Phrase.openLefts_parenthesized.mpr h)
termination_by 4 * tokens.length + 2

theorem expression_openLefts (tokens : List Token) :
    Ensures (expression tokens) FindsOpenLefts := by
  rw [expression]
  refine (primary_openLefts tokens).bind ?_
  rintro (_ | ⟨left, rest₁, _⟩) h₁
  · exact .pure findsOpenLefts_none
  dsimp only
  split_ifs with hended
  · exact .pure h₁
  split
  next => exact .pure h₁
  next operator rest₂ _ hoperator =>
    rw [findsOpenLefts_some] at h₁
    -- the primary is extended only here, where it has not ended
    have hbinary : ∀ {right : Phrase} {terminated : Bool}, OpenLefts right →
        OpenLefts (.binary left operator right terminated) := fun h₂ =>
      Phrase.openLefts_binary.mpr ⟨Bool.not_eq_true _ ▸ hended, h₁, h₂⟩
    split_ifs
    · refine (conditional_openLefts rest₂).bind ?_
      rintro (_ | ⟨right, rest₃, _⟩) h₂
      · exact .throw _
      · exact .pure (findsOpenLefts_some.mpr (hbinary (findsOpenLefts_some.mp h₂)))
    · refine (expression_openLefts rest₂).bind ?_
      rintro (_ | ⟨right, rest₃, _⟩) h₂
      · exact .throw _
      · exact .pure (findsOpenLefts_some.mpr (hbinary (findsOpenLefts_some.mp h₂)))
termination_by 4 * tokens.length + 1

theorem conditional_openLefts (tokens : List Token) :
    Ensures (conditional tokens) FindsOpenLefts := by
  rw [conditional]
  refine (expression_openLefts tokens).bind ?_
  rintro (_ | ⟨first, rest₁, _⟩) h₁
  · exact .pure h₁
  dsimp only
  split
  next => exact .pure h₁
  next rest₂ _ hwhen =>
    refine (choice_openLefts first rest₂ (findsOpenLefts_some.mp h₁)).bind ?_
    rintro ⟨⟨branches, fallback⟩, rest₃, _⟩ ⟨hbranches, hlast⟩
    dsimp only
    split
    next fallback' hfallback =>
      have hlast' := hlast.withoutTerminator? hfallback
      exact .pure (findsOpenLefts_some.mpr (Phrase.openLefts_whenElse.mpr ⟨hbranches, hlast'⟩))
    next =>
      refine (mark_sound _ rest₃ _).bind ?_
      rintro ⟨_, rest, _⟩ _
      exact .pure (findsOpenLefts_some.mpr (Phrase.openLefts_whenElse.mpr ⟨hbranches, hlast⟩))
termination_by 4 * tokens.length + 2

theorem choice_openLefts (value : Phrase) (tokens : List Token) (hvalue : OpenLefts value) :
    Ensures (choice value tokens) fun r =>
      (∀ b ∈ r.value.1, OpenLefts b.value ∧ OpenLefts b.condition) ∧ OpenLefts r.value.2 := by
  rw [choice]
  refine (expression_openLefts tokens).bind ?_
  rintro (_ | ⟨condition, rest₁, _⟩) h₁
  · exact .throw _
  rw [findsOpenLefts_some] at h₁
  refine (keyword_sound _ rest₁ _).bind ?_
  rintro ⟨_, rest₂, _⟩ _
  refine (expression_openLefts rest₂).bind ?_
  rintro (_ | ⟨next, rest₃, _⟩) h₂
  · exact .throw _
  rw [findsOpenLefts_some] at h₂
  dsimp only
  split
  next => exact .pure ⟨by simpa using ⟨hvalue, h₁⟩, h₂⟩
  next rest₄ _ hwhen =>
    refine (choice_openLefts next rest₄ h₂).bind ?_
    rintro ⟨⟨branches, fallback⟩, rest, _⟩ ⟨hbranches, hlast⟩
    exact .pure ⟨List.forall_mem_cons.mpr ⟨⟨hvalue, h₁⟩, hbranches⟩, hlast⟩
termination_by 4 * tokens.length + 2

theorem statements_openLefts (tokens : List Token) :
    Ensures (statements tokens) fun r => ∀ s ∈ r.value, OpenLefts s := by
  rw [statements]
  refine (expression_openLefts tokens).bind ?_
  rintro (_ | ⟨first, rest₁, _⟩) h₁
  · exact .pure (by simp)
  · refine (statements_openLefts rest₁).bind ?_
    rintro ⟨others, rest, _⟩ h₂
    exact .pure (List.forall_mem_cons.mpr ⟨findsOpenLefts_some.mp h₁, h₂⟩)
termination_by 4 * tokens.length + 2

theorem ifStatement_openLefts (tokens : List Token) :
    Ensures (ifStatement tokens) fun r => OpenLefts r.value := by
  rw [ifStatement]
  refine (expression_openLefts tokens).bind ?_
  rintro (_ | ⟨condition, rest₁, _⟩) h₁
  · exact .throw _
  rw [findsOpenLefts_some] at h₁
  refine (keyword_sound _ rest₁ _).bind ?_
  rintro ⟨_, rest₂, _⟩ _
  refine (statements_openLefts rest₂).bind ?_
  rintro ⟨thenBody, rest₃, _⟩ h₂
  dsimp only
  split
  next rest₄ _ helse =>
    refine (statements_openLefts rest₄).bind ?_
    rintro ⟨elseBody, rest₅, _⟩ h₃
    refine (endIf_sound _ rest₅).bind ?_
    exact fun _ _ => .pure (Phrase.openLefts_ifElse.mpr ⟨h₁, h₂, h₃⟩)
  next =>
    split
    next => exact .throw _
    next =>
      refine (endIf_sound _ rest₃).bind ?_
      exact fun _ _ => .pure (Phrase.openLefts_ifThen.mpr ⟨h₁, h₂⟩)
termination_by 4 * tokens.length + 3

theorem process_openLefts (tokens : List Token) :
    Ensures (process tokens) fun r => OpenLefts r.value := by
  rw [process]
  refine (sensitivity_sound tokens).bind ?_
  rintro ⟨names, rest₁, _⟩ _
  refine (statements_openLefts rest₁).bind ?_
  rintro ⟨body, rest₂, _⟩ h
  refine (endProcess_sound rest₂).bind ?_
  exact fun _ _ => .pure (Phrase.openLefts_process.mpr h)
termination_by 4 * tokens.length + 3

theorem architecture_openLefts (tokens : List Token) :
    Ensures (architecture tokens) fun r => OpenLefts r.value := by
  rw [architecture]
  refine (heading_sound tokens).bind ?_
  rintro ⟨heading, rest₁, _⟩ _
  refine (statements_openLefts rest₁).bind ?_
  rintro ⟨body, rest₂, _⟩ h
  refine (endClause_sound _ rest₂ _ heading.name).bind ?_
  exact fun _ _ => .pure (Phrase.openLefts_architecture.mpr h)
termination_by 4 * tokens.length + 3

end

end Parser

/-- In what is parsed, a semicolon ends its phrase or an expression that is enclosed in it: one
between parentheses, a condition, or a chosen value. So none is hidden exactly if no enclosed
expression ends in one. -/
theorem parse_terminators {tokens : List Token} {file : SourceFile}
    (hparse : parse tokens = .ok file) :
    (∀ p ∈ file.phrases, ∀ s : Phrase, s.IsPart p → s.holdsTerminator = true →
        s.Ends p ∨ ∃ q e : Phrase, q.IsPart p ∧ e ∈ q.enclosed ∧ s.Ends e) ∧
      ((∀ p ∈ file.phrases, p.IsSealed) ↔
        ∀ p ∈ file.phrases, ∀ q e s : Phrase, q.IsPart p → e ∈ q.enclosed → s.Ends e →
          s.holdsTerminator = false) := by
  have hopen : ∀ p ∈ file.phrases, p.OpenLefts := by
    obtain ⟨_, hstatements⟩ := gives_of_parse hparse
    exact Parser.statements_openLefts tokens _ hstatements
  constructor
  · exact fun p hp s hs hterminated => (hopen p hp).ends_or_enclosed hs hterminated
  · exact forall₂_congr fun p hp => (hopen p hp).isSealed_iff

/-- Semicolons between parentheses, after a value, after the condition it depends on, and after the
condition of an if statement. -/
def hidingTokens : List Token :=
  [.identifier "y", .operator (.assignment .toSignal), .paren .opening, .identifier "a",
    .operator (.logic .and), .identifier "b", .punctuation .semicolon, .paren .closing,
    .punctuation .semicolon,
    .identifier "y", .operator (.assignment .toSignal), .operator (.logic .not), .identifier "a",
    .punctuation .semicolon, .keyword .when_, .operator (.logic .not), .identifier "b",
    .punctuation .semicolon, .keyword .else_, .identifier "c", .punctuation .semicolon,
    .keyword .if_, .operator (.logic .not), .identifier "a", .punctuation .semicolon,
    .keyword .then_, .keyword .end_, .keyword .if_, .punctuation .semicolon].map (⟨·, ⟨1, 1⟩⟩)

def hidingPhrases : List Phrase :=
  [.binary (.identifier "y") (.assignment .toSignal)
      (.parenthesized (.binary (.identifier "a") (.logic .and) (.identifier "b") true)) true,
    .binary (.identifier "y") (.assignment .toSignal)
      (.whenElse [⟨.unary (.logic .not) (.identifier "a") true,
        .unary (.logic .not) (.identifier "b") true⟩] (.identifier "c")) false,
    .ifThen (.unary (.logic .not) (.identifier "a") true) []]

theorem parse_terminators_hidden :
    parse hidingTokens = .ok ⟨hidingPhrases, []⟩ ∧
      ((∀ p ∈ hidingPhrases, p.IsSealed) ↔
        ∀ p ∈ hidingPhrases, ∀ q e s : Phrase, q.IsPart p → e ∈ q.enclosed → s.Ends e →
          s.holdsTerminator = false) := by
  have hparse : parse hidingTokens = .ok ⟨hidingPhrases, []⟩ := by cbv
  exact ⟨hparse, (parse_terminators hparse).2⟩

/-- All of these are parsed, and every one of the phrases hides a semicolon. -/
theorem parse_hides_terminators :
    parse hidingTokens = .ok ⟨hidingPhrases, []⟩ ∧ ∀ p ∈ hidingPhrases, ¬p.IsSealed := by
  refine ⟨by cbv, ?_⟩
  have hhidden {p q e : Phrase} (hq : q.IsPart p) (he : e ∈ q.enclosed)
      (hterminated : e.holdsTerminator = true) : ¬p.IsSealed := by
    intro h
    rw [h q e e hq he .refl] at hterminated
    cases hterminated
  have hright {left right : Phrase} {operator : Operator} {terminated : Bool} :
      right.IsPart (.binary left operator right terminated) :=
    .child (List.mem_cons_of_mem _ List.mem_cons_self) .refl
  simp only [hidingPhrases, List.forall_mem_cons]
  refine ⟨?_, ?_, ?_, by simp⟩
  · exact hhidden hright List.mem_cons_self rfl
  · exact hhidden hright List.mem_cons_self rfl
  · exact hhidden .refl List.mem_cons_self rfl

end VhdlGates
