import VhdlGates.Phrase.Parser
import VhdlGates.Proofs.Phrase.Parallel

/-! If statements by trial. The parser reads the condition and the first body of an if statement
once, and the token after them decides between the two forms. A parser that tries the form with an
else first, and on any failure starts again with the other form, accepts the same tokens and gives
the same phrases. -/
namespace VhdlGates

namespace Parser.Backtracking

-- The productions are those of the parser, down to `ifElse`, so that trials nest in each other.
mutual

def primary : (tokens : List Token) → Except Complaint (Option (Reading Token Phrase tokens.length))
  | [] => return none
  | ⟨kind, place⟩ :: rest => do
    match kind with
    | .keyword .library => return some ((← libraryClause rest).widen (Nat.le_succ _))
    | .keyword .use_ => return some ((← useClause rest).widen (Nat.le_succ _))
    | .keyword .if_ => return some ((← ifStatement rest).widen (Nat.le_succ _))
    | .keyword .entity =>
      let ⟨unit, rest, h⟩ ← entity rest
      return some ⟨.entity unit, rest, Nat.lt_succ_of_lt h⟩
    | .keyword .architecture => return some ((← architecture rest).widen (Nat.le_succ _))
    | .keyword .process => return some ((← process rest).widen (Nat.le_succ _))
    | .keyword .signal =>
      let ⟨declaration, rest, h⟩ ← signalDeclaration (⟨.keyword .signal, place⟩ :: rest)
      return some ⟨.signal declaration, rest, h⟩
    | .paren .opening => return some ((← parenthesized rest).widen (Nat.le_succ _))
    | .operator operator => return some ((← unary operator rest).widen (Nat.le_succ _))
    | .identifier name => return some ⟨.identifier name, rest, Nat.lt_succ_self _⟩
    | .number value => return some ⟨.literal (.numeral value), rest, Nat.lt_succ_self _⟩
    | .punctuation .apostrophe =>
      let ⟨value, rest, h⟩ ← bit rest
      return some ⟨.literal (.bit value), rest, Nat.lt_succ_of_lt h⟩
    | _ => return none
termination_by tokens => 5 * tokens.length
decreasing_by all_goals simp only [List.length_cons]; omega

def unary (operator : Operator) (tokens : List Token) :
    Except Complaint (Reading Token Phrase tokens.length) := do
  let some ⟨operand, rest, h₁⟩ ← primary tokens
    | throw (unexpected .unary (.operandAfter operator) tokens)
  let ⟨terminated, rest, h₂⟩ := terminator rest
  return ⟨.unary operator operand terminated, rest, by omega⟩
termination_by 5 * tokens.length + 1

def parenthesized (tokens : List Token) :
    Except Complaint (Reading Token Phrase tokens.length) := do
  let some ⟨inner, rest, h₁⟩ ← expression tokens
    | throw (unexpected .parenthesized .expression tokens)
  let ⟨_, rest, h₂⟩ ← paren .parenthesized .closing rest
  return ⟨.parenthesized inner, rest, by omega⟩
termination_by 5 * tokens.length + 2

def expression (tokens : List Token) :
    Except Complaint (Option (Reading Token Phrase tokens.length)) := do
  let some ⟨left, rest, h₁⟩ ← primary tokens | return none
  if left.isTerminated then return some ⟨left, rest, h₁⟩
  match operator? rest with
  | none => return some ⟨left, rest, h₁⟩
  | some ⟨operator, rest, h₂⟩ =>
    let right ← if operator.isAssignment then conditional rest else expression rest
    let some ⟨right, rest, h₃⟩ := right
      | throw (unexpected .binary (.expressionAfter operator) rest)
    let ⟨terminated, rest, h₄⟩ := terminator rest
    return some ⟨.binary left operator right terminated, rest, by omega⟩
termination_by 5 * tokens.length + 1

def conditional (tokens : List Token) :
    Except Complaint (Option (Reading Token Phrase tokens.length)) := do
  let some ⟨first, rest, h₁⟩ ← expression tokens | return none
  match keyword? .when_ rest with
  | none => return some ⟨first, rest, h₁⟩
  | some ⟨_, rest, h₂⟩ =>
    let ⟨(branches, fallback), rest, h₃⟩ ← choice first rest
    match fallback.withoutTerminator? with
    | some fallback => return some ⟨.whenElse branches fallback, rest, by omega⟩
    | none =>
      let ⟨_, rest, h₄⟩ ← mark .conditional .semicolon rest
      return some ⟨.whenElse branches fallback, rest, by omega⟩
termination_by 5 * tokens.length + 2

def choice (value : Phrase) (tokens : List Token) :
    Except Complaint (Reading Token (List (Branch Phrase) × Phrase) tokens.length) := do
  let some ⟨condition, rest, h₁⟩ ← expression tokens
    | throw (unexpected .conditional .conditionAfterWhen tokens)
  let ⟨_, rest, h₂⟩ ← keyword .conditional .else_ rest
  let some ⟨next, after, h₃⟩ ← expression rest
    | throw (unexpected .conditional .valueAfterElse rest)
  match keyword? .when_ after with
  | none => return ⟨([⟨value, condition⟩], next), after, by omega⟩
  | some ⟨_, rest, h₄⟩ =>
    let ⟨(branches, fallback), rest, h₅⟩ ← choice next rest
    return ⟨(⟨value, condition⟩ :: branches, fallback), rest, Nat.lt_trans h₅ (by omega)⟩
termination_by 5 * tokens.length + 2

def statements (tokens : List Token) :
    Except Complaint (Reading Token (List Phrase) (tokens.length + 1)) := do
  let some ⟨first, rest, h₁⟩ ← expression tokens | return ⟨[], tokens, Nat.lt_succ_self _⟩
  let ⟨others, rest, h₂⟩ ← statements rest
  return ⟨first :: others, rest, by omega⟩
termination_by 5 * tokens.length + 2

/-- Reads an if statement with an else, after its keyword. -/
def ifElse (tokens : List Token) : Except Complaint (Reading Token Phrase tokens.length) := do
  let some ⟨condition, rest, h₁⟩ ← expression tokens
    | throw (unexpected .ifElse .conditionAfterIf tokens)
  let ⟨_, rest, h₂⟩ ← keyword .ifElse .then_ rest
  let ⟨thenBody, rest, h₃⟩ ← statements rest
  let ⟨_, rest, h₄⟩ ← keyword .ifElse .else_ rest
  let ⟨elseBody, rest, h₅⟩ ← statements rest
  let ⟨_, rest, h₆⟩ ← endIf .ifElse rest
  return ⟨.ifElse condition thenBody elseBody, rest, Nat.lt_trans h₆ (by omega)⟩
termination_by 5 * tokens.length + 3

/-- Reads an if statement without an else, after its keyword. -/
def ifThen (tokens : List Token) : Except Complaint (Reading Token Phrase tokens.length) := do
  let some ⟨condition, rest, h₁⟩ ← expression tokens
    | throw (unexpected .ifThen .conditionAfterIf tokens)
  let ⟨_, rest, h₂⟩ ← keyword .ifThen .then_ rest
  let ⟨thenBody, rest, h₃⟩ ← statements rest
  let ⟨_, rest, h₄⟩ ← endIf .ifThen rest
  return ⟨.ifThen condition thenBody, rest, Nat.lt_trans h₄ (by omega)⟩
termination_by 5 * tokens.length + 3

/-- Tries the form with an else, and on any failure the form without, from the same token. -/
def ifStatement (tokens : List Token) : Except Complaint (Reading Token Phrase tokens.length) :=
  tryCatch (ifElse tokens) fun _ => ifThen tokens
termination_by 5 * tokens.length + 4

def process (tokens : List Token) : Except Complaint (Reading Token Phrase tokens.length) := do
  let ⟨names, rest, h₁⟩ ← sensitivity tokens
  let ⟨body, rest, h₂⟩ ← statements rest
  let ⟨_, rest, h₃⟩ ← endProcess rest
  return ⟨.process names body, rest, by omega⟩
termination_by 5 * tokens.length + 3

def architecture (tokens : List Token) : Except Complaint (Reading Token Phrase tokens.length) := do
  let ⟨heading, rest, h₁⟩ ← heading tokens
  let ⟨body, rest, h₂⟩ ← statements rest
  let ⟨ending, rest, h₃⟩ ← endClause .architecture .architecture heading.name rest
  return ⟨.architecture heading.name heading.entityName heading.signals body ending, rest,
    by omega⟩
termination_by 5 * tokens.length + 3

end

/-- Reads as many phrases as the tokens begin with. -/
def parse (tokens : List Token) : Except Complaint SourceFile :=
  (statements tokens).map fun r => ⟨r.value, r.rest⟩

end Parser.Backtracking

/-- Both computations give the same result, or both fail. -/
abbrev SameOutcome {ε α : Type} : Except ε α → Except ε α → Prop := Parallel (fun _ _ => True) Eq

namespace SameOutcome

variable {ε α β : Type}

lemma refl (x : Except ε α) : SameOutcome x x := by
  cases x with
  | error c => exact .error trivial
  | ok a => exact .ok rfl

lemma ok_or_error {x y : Except ε α} (h : SameOutcome x y) :
    (∃ a, x = .ok a ∧ y = .ok a) ∨ ∃ c d, x = .error c ∧ y = .error d := by
  cases h with
  | ok h => exact .inl ⟨_, rfl, by rw [h]⟩
  | error => exact .inr ⟨_, _, rfl, rfl⟩

lemma bind {x y : Except ε α} {f g : α → Except ε β} (hxy : SameOutcome x y)
    (hfg : ∀ a, SameOutcome (f a) (g a)) : SameOutcome (x >>= f) (y >>= g) :=
  Parallel.bind hxy fun a _ h => h ▸ hfg a

/-- A second attempt that fails changes nothing. -/
lemma tryCatch_error {x y : Except ε α} (h : SameOutcome x y) (c : ε) :
    SameOutcome (tryCatch x fun _ => .error c) y := by
  cases h with
  | ok h => exact .ok h
  | error => exact .error trivial

/-- Two attempts that begin alike fail or go on together: starting again brings both back to where
they part. -/
lemma tryCatch_bind {x x' y : Except ε α} {f f' g : α → Except ε β} (hx : SameOutcome x y)
    (hx' : SameOutcome x' y) (h : ∀ a, SameOutcome (tryCatch (f a) fun _ => f' a) (g a)) :
    SameOutcome (tryCatch (x >>= f) fun _ => x' >>= f') (y >>= g) := by
  cases hx with
  | ok ha =>
    cases hx' with
    | ok ha' =>
      subst ha ha'
      exact h _
  | error =>
    cases hx' with
    | error => exact .error trivial

end SameOutcome

namespace Parser

variable (tokens : List Token)

lemma expect_sameOutcome (first second : Construct) (kind : TokenKind) :
    SameOutcome (expect first kind tokens) (expect second kind tokens) := by
  cases tokens with
  | nil => exact .error trivial
  | cons token rest =>
    rw [expect, expect]
    split_ifs
    · exact .ok rfl
    · exact .error trivial

variable {tokens} {construct : Construct} {k : Keyword}

lemma keyword_of_some {r : Reading Token Unit tokens.length} (h : keyword? k tokens = some r) :
    keyword construct k tokens = .ok r := by
  cases tokens with
  | nil => cases h
  | cons token rest =>
    rw [keyword?] at h
    split_ifs at h with hkind
    obtain rfl := Option.some.inj h
    rw [keyword, expect, if_pos hkind]

lemma keyword_of_none (construct : Construct) (h : keyword? k tokens = none) :
    ∃ c, keyword construct k tokens = .error c := by
  cases tokens with
  | nil => exact ⟨_, rfl⟩
  | cons token rest =>
    rw [keyword?] at h
    split_ifs at h with hkind
    rw [keyword, expect, if_neg hkind]
    exact ⟨_, rfl⟩

/-- Only one keyword stands in front. -/
lemma keyword?_eq_none_of_some {k' : Keyword} {r : Reading Token Unit tokens.length}
    (h : keyword? k tokens = some r) (hk : k ≠ k') : keyword? k' tokens = none := by
  cases tokens with
  | nil => rfl
  | cons token rest =>
    rw [keyword?] at h ⊢
    split_ifs at h with hkind
    rw [hkind, if_neg fun heq => hk (TokenKind.keyword.inj heq)]

lemma endIf_of_none (construct : Construct) (h : keyword? .end_ tokens = none) :
    ∃ c, endIf construct tokens = .error c := by
  obtain ⟨c, hc⟩ := keyword_of_none construct h
  rw [endIf, hc]
  exact ⟨c, rfl⟩

mutual

theorem primary_sameOutcome : ∀ tokens : List Token,
    SameOutcome (Backtracking.primary tokens) (primary tokens)
  | [] => by
    rw [Backtracking.primary, primary]
    exact .refl _
  | ⟨kind, place⟩ :: rest => by
    unfold Backtracking.primary primary
    cases kind with
    | keyword k =>
      cases k with
      | if_ => exact (ifStatement_sameOutcome rest).bind fun _ => .refl _
      | architecture => exact (architecture_sameOutcome rest).bind fun _ => .refl _
      | process => exact (process_sameOutcome rest).bind fun _ => .refl _
      | _ => exact .refl _
    | paren p =>
      cases p with
      | opening => exact (parenthesized_sameOutcome rest).bind fun _ => .refl _
      | closing => exact .refl _
    | operator operator => exact (unary_sameOutcome operator rest).bind fun _ => .refl _
    | punctuation p => cases p <;> exact .refl _
    | _ => exact .refl _
termination_by tokens => 4 * tokens.length

theorem unary_sameOutcome (operator : Operator) (tokens : List Token) :
    SameOutcome (Backtracking.unary operator tokens) (unary operator tokens) := by
  rw [Backtracking.unary, unary]
  exact (primary_sameOutcome tokens).bind fun _ => .refl _
termination_by 4 * tokens.length + 1

theorem parenthesized_sameOutcome (tokens : List Token) :
    SameOutcome (Backtracking.parenthesized tokens) (parenthesized tokens) := by
  rw [Backtracking.parenthesized, parenthesized]
  exact (expression_sameOutcome tokens).bind fun _ => .refl _
termination_by 4 * tokens.length + 2

theorem expression_sameOutcome (tokens : List Token) :
    SameOutcome (Backtracking.expression tokens) (expression tokens) := by
  rw [Backtracking.expression, expression]
  refine (primary_sameOutcome tokens).bind ?_
  rintro (_ | ⟨left, rest₁, _⟩)
  · exact .refl _
  dsimp only
  split_ifs
  · exact .refl _
  cases operator? rest₁ with
  | none => exact .refl _
  | some step =>
    obtain ⟨operator, rest₂, _⟩ := step
    dsimp only
    split_ifs
    · exact (conditional_sameOutcome rest₂).bind fun _ => .refl _
    · exact (expression_sameOutcome rest₂).bind fun _ => .refl _
termination_by 4 * tokens.length + 1

theorem conditional_sameOutcome (tokens : List Token) :
    SameOutcome (Backtracking.conditional tokens) (conditional tokens) := by
  rw [Backtracking.conditional, conditional]
  refine (expression_sameOutcome tokens).bind ?_
  rintro (_ | ⟨first, rest₁, _⟩)
  · exact .refl _
  dsimp only
  cases keyword? .when_ rest₁ with
  | none => exact .refl _
  | some step =>
    obtain ⟨_, rest₂, _⟩ := step
    exact (choice_sameOutcome first rest₂).bind fun _ => .refl _
termination_by 4 * tokens.length + 2

theorem choice_sameOutcome (value : Phrase) (tokens : List Token) :
    SameOutcome (Backtracking.choice value tokens) (choice value tokens) := by
  rw [Backtracking.choice, choice]
  refine (expression_sameOutcome tokens).bind ?_
  rintro (_ | ⟨condition, rest₁, _⟩)
  · exact .refl _
  refine SameOutcome.bind (.refl _) ?_
  intro ⟨_, rest₂, _⟩
  refine (expression_sameOutcome rest₂).bind ?_
  rintro (_ | ⟨next, rest₃, _⟩)
  · exact .refl _
  dsimp only
  cases keyword? .when_ rest₃ with
  | none => exact .refl _
  | some step =>
    obtain ⟨_, rest₄, _⟩ := step
    exact (choice_sameOutcome next rest₄).bind fun _ => .refl _
termination_by 4 * tokens.length + 2

theorem statements_sameOutcome (tokens : List Token) :
    SameOutcome (Backtracking.statements tokens) (statements tokens) := by
  rw [Backtracking.statements, statements]
  refine (expression_sameOutcome tokens).bind ?_
  rintro (_ | ⟨first, rest₁, _⟩)
  · exact .refl _
  · exact (statements_sameOutcome rest₁).bind fun _ => .refl _
termination_by 4 * tokens.length + 2

theorem ifStatement_sameOutcome (tokens : List Token) :
    SameOutcome (Backtracking.ifStatement tokens) (ifStatement tokens) := by
  rw [Backtracking.ifStatement, Backtracking.ifElse, Backtracking.ifThen, ifStatement]
  -- the condition and the first body are read alike by both forms, and by the parser once
  have hcondition := expression_sameOutcome tokens
  refine SameOutcome.tryCatch_bind hcondition hcondition ?_
  rintro (_ | ⟨condition, rest₁, _⟩)
  · exact .error trivial
  refine SameOutcome.tryCatch_bind (expect_sameOutcome _ _ _ _) (expect_sameOutcome _ _ _ _) ?_
  intro ⟨_, rest₂, _⟩
  have hbody := statements_sameOutcome rest₂
  refine SameOutcome.tryCatch_bind hbody hbody ?_
  intro ⟨thenBody, rest₃, _⟩
  dsimp only
  cases helse : keyword? .else_ rest₃ with
  | some step =>
    -- if the first form fails after its else, the second one meets that else and fails too
    have hend : keyword? .end_ rest₃ = none := keyword?_eq_none_of_some helse (by decide)
    obtain ⟨c, hc⟩ := endIf_of_none .ifThen hend
    rw [keyword_of_some helse, hc]
    obtain ⟨_, rest₄, _⟩ := step
    refine SameOutcome.tryCatch_error ?_ c
    exact (statements_sameOutcome rest₄).bind fun _ => .refl _
  | none =>
    obtain ⟨c, hc⟩ := keyword_of_none .ifElse helse
    rw [hc]
    cases hend : keyword? .end_ rest₃ with
    | some step => exact .refl _
    | none =>
      obtain ⟨c', hc'⟩ := endIf_of_none .ifThen hend
      rw [hc']
      exact .error trivial
termination_by 4 * tokens.length + 3

theorem process_sameOutcome (tokens : List Token) :
    SameOutcome (Backtracking.process tokens) (process tokens) := by
  rw [Backtracking.process, process]
  refine SameOutcome.bind (.refl _) ?_
  intro ⟨names, rest₁, _⟩
  exact (statements_sameOutcome rest₁).bind fun _ => .refl _
termination_by 4 * tokens.length + 3

theorem architecture_sameOutcome (tokens : List Token) :
    SameOutcome (Backtracking.architecture tokens) (architecture tokens) := by
  rw [Backtracking.architecture, architecture]
  refine SameOutcome.bind (.refl _) ?_
  intro ⟨heading, rest₁, _⟩
  exact (statements_sameOutcome rest₁).bind fun _ => .refl _
termination_by 4 * tokens.length + 3

end

end Parser

/-- Reading an if statement in one pass is as good as trying both of its forms: either both parsers
give the same phrases, or both fail. -/
theorem parse_backtracking (tokens : List Token) :
    (∃ file, Parser.Backtracking.parse tokens = .ok file ∧ parse tokens = .ok file) ∨
      ∃ c d, Parser.Backtracking.parse tokens = .error c ∧ parse tokens = .error d := by
  unfold Parser.Backtracking.parse parse
  rcases (Parser.statements_sameOutcome tokens).ok_or_error with ⟨r, hx, hy⟩ | ⟨c, d, hx, hy⟩
  · rw [hx, hy]
    exact .inl ⟨_, rfl, rfl⟩
  · rw [hx, hy]
    exact .inr ⟨c, d, rfl, rfl⟩

end VhdlGates
