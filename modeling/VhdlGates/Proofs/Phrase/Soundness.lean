import VhdlGates.Phrase.Parser
import VhdlGates.Proofs.Phrase.Clauses

/-! Parsing is sound: the phrases that are read are written with exactly the tokens that they were
read off, and reading stops only where no phrase starts. -/
namespace VhdlGates

open Decimal (Binary64)

/-- No phrase starts with a token of this kind. -/
def TokenKind.IsStop (kind : TokenKind) : Prop :=
  kind = .endOfInput ∨ kind = .paren .closing ∨
    (∃ p, p ≠ Punctuation.apostrophe ∧ kind = .punctuation p) ∨
    ∃ k ∈ [Keyword.then_, .else_, .port, .in_, .out, .of_, .is_, .begin_, .end_, .when_],
      kind = .keyword k

/-- What is left starts with no phrase. -/
def Stops : List Token → Prop := Ahead TokenKind.IsStop

/-- A reader either finds a phrase and takes exactly its tokens, or it stands where none starts. -/
def Covers (tokens : List Token) {n : ℕ} : Option (Reading Token Phrase n) → Prop
  | none => Stops tokens
  | some r => Matched r.value.written tokens r.rest

namespace Phrase

/-- The semicolon that is taken away was the last token. -/
lemma written_withoutTerminator? {p q : Phrase} (h : p.withoutTerminator? = some q) :
    p.written = q.written ++ [.punctuation .semicolon] := by
  fun_induction withoutTerminator? p generalizing q with
  | case1 left operator right =>
    obtain rfl := Option.some.inj h
    simp [written, terminatorWritten]
  | case2 left operator right ih =>
    obtain ⟨right', hright, rfl⟩ := Option.map_eq_some_iff.mp h
    simp [written, terminatorWritten, ih hright]
  | case3 operator operand =>
    obtain rfl := Option.some.inj h
    simp [written, terminatorWritten]
  | case4 operator operand ih =>
    obtain ⟨operand', hoperand, rfl⟩ := Option.map_eq_some_iff.mp h
    simp [written, terminatorWritten, ih hoperand]
  | case5 => simp at h

end Phrase

namespace Parser

mutual

theorem primary_sound : ∀ tokens : List Token, Ensures (primary tokens) (Covers tokens)
  | [] => by
    rw [primary]
    exact .pure (by simp [Covers, Stops, Ahead])
  | ⟨kind, place⟩ :: rest => by
    unfold primary
    split
    · refine (libraryClause_sound rest place).bind ?_
      exact fun r h => .pure h
    · refine (useClause_sound rest place).bind ?_
      exact fun r h => .pure h
    · refine (ifStatement_sound rest place).bind ?_
      exact fun r h => .pure h
    · refine (entity_sound rest place).bind ?_
      intro ⟨unit, after, _⟩ h
      refine .pure ?_
      rw [Covers, Phrase.written]
      exact h
    · refine (architecture_sound rest place).bind ?_
      exact fun r h => .pure h
    · refine (process_sound rest place).bind ?_
      exact fun r h => .pure h
    · refine (signalDeclaration_sound _).bind ?_
      intro ⟨declaration, after, _⟩ h
      refine .pure ?_
      rw [Covers, Phrase.written]
      exact h
    · refine (parenthesized_sound rest place).bind ?_
      exact fun r h => .pure h
    · refine (unary_sound _ rest place).bind ?_
      exact fun r h => .pure h
    · refine .pure ?_
      rw [Covers, Phrase.written]
      exact matched_token (by simp)
    · refine .pure ?_
      rw [Covers, Phrase.written]
      exact matched_token (by simp)
    · refine (bit_sound rest).bind ?_
      intro ⟨value, after, _⟩ h
      refine .pure ?_
      rw [Covers, Phrase.written]
      exact .cons (.same (by simp)) h
    · refine .pure ?_
      intro token htoken
      obtain rfl := Option.some.inj htoken
      cases kind with
      | keyword k => cases k <;> simp_all [TokenKind.IsStop]
      | punctuation p => cases p <;> simp_all [TokenKind.IsStop]
      | paren p => cases p <;> simp_all [TokenKind.IsStop]
      | operator | identifier | number => simp_all
      | endOfInput => exact .inl rfl
termination_by tokens => 4 * tokens.length

theorem unary_sound (operator : Operator) (tokens : List Token) (place : Position) :
    Ensures (unary operator tokens) fun r =>
      Matched r.value.written (⟨.operator operator, place⟩ :: tokens) r.rest := by
  rw [unary]
  refine (primary_sound tokens).bind ?_
  rintro (_ | ⟨operand, rest, _⟩) h
  · exact .throw _
  · refine .pure ?_
    rw [Phrase.written]
    exact ((matched_token (by simp)).append h).append (terminator_sound rest)
termination_by 4 * tokens.length + 1

theorem parenthesized_sound (tokens : List Token) (place : Position) :
    Ensures (parenthesized tokens) fun r =>
      Matched r.value.written (⟨.paren .opening, place⟩ :: tokens) r.rest := by
  rw [parenthesized]
  refine (expression_sound tokens).bind ?_
  rintro (_ | ⟨inner, rest₁, _⟩) h₁
  · exact .throw _
  · refine (paren_sound _ rest₁ _).bind ?_
    intro ⟨_, rest, _⟩ h₂
    refine .pure ?_
    rw [Phrase.written]
    exact ((matched_token (by simp)).append h₁).append h₂
termination_by 4 * tokens.length + 2

theorem expression_sound (tokens : List Token) :
    Ensures (expression tokens) (Covers tokens) := by
  rw [expression]
  refine (primary_sound tokens).bind ?_
  rintro (_ | ⟨left, rest₁, _⟩) h₁
  · exact .pure h₁
  dsimp only
  split_ifs
  · exact .pure h₁
  split
  next => exact .pure h₁
  next operator rest₂ _ hoperator =>
    have h₂ := operator?_sound rest₁ hoperator
    have hbinary : ∀ {right : Phrase} {rest₃ : List Token}, Matched right.written rest₂ rest₃ →
        Matched (Phrase.binary left operator right (terminator rest₃).value).written tokens
          (terminator rest₃).rest := by
      intro right rest₃ h₃
      rw [Phrase.written]
      exact ((h₁.append h₂).append h₃).append (terminator_sound rest₃)
    split_ifs
    · refine (conditional_sound rest₂).bind ?_
      rintro (_ | ⟨right, rest₃, _⟩) h₃
      · exact .throw _
      · exact .pure (hbinary h₃)
    · refine (expression_sound rest₂).bind ?_
      rintro (_ | ⟨right, rest₃, _⟩) h₃
      · exact .throw _
      · exact .pure (hbinary h₃)
termination_by 4 * tokens.length + 1

theorem conditional_sound (tokens : List Token) :
    Ensures (conditional tokens) (Covers tokens) := by
  rw [conditional]
  refine (expression_sound tokens).bind ?_
  rintro (_ | ⟨first, rest₁, _⟩) h₁
  · exact .pure h₁
  dsimp only
  split
  next => exact .pure h₁
  next rest₂ _ hwhen =>
    have h₂ := keyword?_sound rest₁ hwhen
    refine (choice_sound first rest₂ (h₁.append h₂)).bind ?_
    rintro ⟨⟨branches, fallback⟩, rest₃, _⟩ h₃
    dsimp only
    split
    next fallback' hfallback =>
      -- the last value has taken the semicolon that ends the choice
      rw [Phrase.written_withoutTerminator? hfallback, ← List.append_assoc] at h₃
      refine .pure ?_
      rw [Covers, Phrase.written]
      exact h₃
    next =>
      refine (mark_sound _ rest₃ _).bind ?_
      intro ⟨_, rest, _⟩ h₄
      refine .pure ?_
      rw [Covers, Phrase.written]
      exact h₃.append h₄
termination_by 4 * tokens.length + 2

theorem choice_sound (value : Phrase) (tokens : List Token) {start : List Token}
    (h₀ : Matched (value.written ++ [.keyword .when_]) start tokens) :
    Ensures (choice value tokens) fun r =>
      Matched (Phrase.branchesWritten r.value.1 ++ r.value.2.written) start r.rest := by
  rw [choice]
  refine (expression_sound tokens).bind ?_
  rintro (_ | ⟨condition, rest₁, _⟩) h₁
  · exact .throw _
  refine (keyword_sound _ rest₁ _).bind ?_
  intro ⟨_, rest₂, _⟩ h₂
  refine (expression_sound rest₂).bind ?_
  rintro (_ | ⟨next, rest₃, _⟩) h₃
  · exact .throw _
  have hbranch := (h₀.append h₁).append h₂
  dsimp only
  split
  next =>
    refine .pure ?_
    rw [Phrase.branchesWritten, Phrase.branchesWritten, List.append_nil]
    exact hbranch.append h₃
  next rest₄ _ hwhen =>
    have h₄ := keyword?_sound rest₃ hwhen
    refine (choice_sound next rest₄ (h₃.append h₄)).bind ?_
    rintro ⟨⟨branches, fallback⟩, rest, _⟩ h₅
    refine .pure ?_
    rw [Phrase.branchesWritten, List.append_assoc]
    exact hbranch.append h₅
termination_by 4 * tokens.length + 2

theorem statements_sound (tokens : List Token) :
    Ensures (statements tokens) fun r =>
      Matched (Phrase.bodyWritten r.value) tokens r.rest ∧ Stops r.rest := by
  rw [statements]
  refine (expression_sound tokens).bind ?_
  rintro (_ | ⟨first, rest₁, _⟩) h₁
  · refine .pure ⟨?_, h₁⟩
    rw [Phrase.bodyWritten]
    exact .nil tokens
  · refine (statements_sound rest₁).bind ?_
    rintro ⟨others, rest, _⟩ ⟨h₂, hstop⟩
    refine .pure ⟨?_, hstop⟩
    rw [Phrase.bodyWritten]
    exact h₁.append h₂
termination_by 4 * tokens.length + 2

theorem ifStatement_sound (tokens : List Token) (place : Position) :
    Ensures (ifStatement tokens) fun r =>
      Matched r.value.written (⟨.keyword .if_, place⟩ :: tokens) r.rest := by
  have h₀ : Matched [.keyword .if_] (⟨.keyword .if_, place⟩ :: tokens) tokens :=
    matched_token (by simp)
  rw [ifStatement]
  refine (expression_sound tokens).bind ?_
  rintro (_ | ⟨condition, rest₁, _⟩) h₁
  · exact .throw _
  refine (keyword_sound _ rest₁ _).bind ?_
  intro ⟨_, rest₂, _⟩ h₂
  refine (statements_sound rest₂).bind ?_
  rintro ⟨thenBody, rest₃, _⟩ ⟨h₃, -⟩
  have hthen := ((h₀.append h₁).append h₂).append h₃
  dsimp only
  split
  next rest₄ _ helse =>
    have h₄ := keyword?_sound rest₃ helse
    refine (statements_sound rest₄).bind ?_
    rintro ⟨elseBody, rest₅, _⟩ ⟨h₅, -⟩
    refine (endIf_sound _ rest₅).bind ?_
    intro ⟨_, rest, _⟩ h₆
    refine .pure ?_
    rw [Phrase.written]
    exact ((hthen.append h₄).append h₅).append h₆
  next =>
    split
    next => exact .throw _
    next =>
      refine (endIf_sound _ rest₃).bind ?_
      intro ⟨_, rest, _⟩ h₄
      refine .pure ?_
      rw [Phrase.written]
      exact hthen.append h₄
termination_by 4 * tokens.length + 3

theorem process_sound (tokens : List Token) (place : Position) :
    Ensures (process tokens) fun r =>
      Matched r.value.written (⟨.keyword .process, place⟩ :: tokens) r.rest := by
  rw [process]
  refine (sensitivity_sound tokens).bind ?_
  intro ⟨names, rest₁, _⟩ h₁
  refine (statements_sound rest₁).bind ?_
  rintro ⟨body, rest₂, _⟩ ⟨h₂, -⟩
  refine (endProcess_sound rest₂).bind ?_
  intro ⟨_, rest, _⟩ h₃
  refine .pure ?_
  rw [Phrase.written]
  exact .cons (.same (by simp)) ((h₁.append h₂).append h₃)
termination_by 4 * tokens.length + 3

theorem architecture_sound (tokens : List Token) (place : Position) :
    Ensures (architecture tokens) fun r =>
      Matched r.value.written (⟨.keyword .architecture, place⟩ :: tokens) r.rest := by
  rw [architecture]
  refine (heading_sound tokens).bind ?_
  intro ⟨heading, rest₁, _⟩ h₁
  refine (statements_sound rest₁).bind ?_
  rintro ⟨body, rest₂, _⟩ ⟨h₂, -⟩
  refine (endClause_sound _ rest₂ _ heading.name).bind ?_
  intro ⟨ending, rest, _⟩ h₃
  refine .pure ?_
  rw [Phrase.written]
  exact .cons (.same (by simp)) ((h₁.append h₂).append h₃)
termination_by 4 * tokens.length + 3

end

/-- A choice is read behind its first value and the keyword after that. -/
lemma choice_matched {first : Phrase} {tokens middle after : List Token}
    {h : after.length < middle.length} (hfirst : Finds (expression tokens) first middle)
    (hwhen : keyword? .when_ middle = some ⟨(), after, h⟩) :
    Ensures (choice first after) fun r =>
      Matched (Phrase.branchesWritten r.value.1 ++ r.value.2.written) tokens r.rest := by
  obtain ⟨_, hfirst⟩ := hfirst
  have hvalue : Matched first.written tokens middle := expression_sound tokens _ hfirst
  exact choice_sound first after (hvalue.append (keyword?_sound middle hwhen))

end Parser

/-- Equality of numbers as values: zeros of either sign are equal, and what is not a number equals
nothing. -/
def Decimal.Binary64.Equals (x y : Binary64) : Prop :=
  x ≠ .notANumber ∧ (x = y ∨ x.isZero ∧ y.isZero)

/-- The kinds are the same, numbers being compared as values. -/
def TokenKind.Agrees : TokenKind → TokenKind → Prop
  | .number x, .number y => x.Equals y
  | kind, found => kind = found

lemma TokenKind.Matches.agrees {kind found : TokenKind} (h : kind.Matches found)
    (hfound : found ≠ .number .notANumber) : kind.Agrees found := by
  cases h with
  | same =>
    cases kind with
    | number x => exact ⟨by simpa using hfound, .inl rfl⟩
    | _ => rfl
  | @zero x y hx hy =>
    refine ⟨?_, .inr ⟨hx, hy⟩⟩
    rintro rfl
    simp [Binary64.isZero] at hx

lemma TokenKind.Matches.ne_endOfInput {kind found : TokenKind} (h : kind.Matches found) :
    found ≠ .endOfInput := by
  cases h with
  | same h => exact h
  | zero => simp

lemma Phrase.bodyTokens_eq_sumOf (phrases : List Phrase) :
    bodyTokens phrases = sumOf tokenCount phrases := by
  induction phrases with
  | nil => rw [bodyTokens, sumOf]
  | cons p rest ih => rw [bodyTokens, sumOf, ih]

/-- Whatever a source text is made of takes a token at least. -/
structure PartsTakeTokens : Prop where
  phrase (p : Phrase) : 1 ≤ p.tokenCount
  literal (l : Literal) : 1 ≤ l.tokenCount
  branch (b : Branch Phrase) : 1 ≤ b.tokenCount
  signal (d : SignalDeclaration) : 1 ≤ d.tokenCount
  port (d : PortDeclaration) : 1 ≤ d.tokenCount
  entity (e : Entity) : 1 ≤ e.tokenCount
  ending (e : EndClause) : 1 ≤ e.tokenCount

lemma partsTakeTokens : PartsTakeTokens where
  phrase p := by
    cases p with
    | literal value => cases value <;> simp [Phrase.tokenCount, Literal.tokenCount]
    | signal d => rw [Phrase.tokenCount, SignalDeclaration.tokenCount]; omega
    | entity e => rw [Phrase.tokenCount, Entity.tokenCount]; omega
    | identifier => exact Nat.le_refl 1
    | _ => rw [Phrase.tokenCount]; omega
  literal l := by cases l <;> simp [Literal.tokenCount]
  branch b := by rw [Branch.tokenCount]; omega
  signal d := by rw [SignalDeclaration.tokenCount]; omega
  port d := by rw [PortDeclaration.tokenCount]; omega
  entity e := by rw [Entity.tokenCount]; omega
  ending e := by rw [EndClause.tokenCount]; omega

lemma gives_of_parse {tokens : List Token} {file : SourceFile} (h : parse tokens = .ok file) :
    Gives (Parser.statements tokens) file.phrases file.trailing := by
  cases hstatements : Parser.statements tokens with
  | error c => simp [parse, hstatements, Except.map] at h
  | ok r =>
    obtain rfl : ⟨r.value, r.rest⟩ = file := by
      simpa [parse, hstatements, Except.map] using h
    exact ⟨r.shorter, rfl⟩

/-- The phrases that a parse gives are written with the first tokens, as many as the phrases count
in all. The end of the input is not among these, and no phrase starts after them. -/
theorem parse_sound {tokens : List Token} {file : SourceFile}
    (hnumbers : ∀ token ∈ tokens, token.kind ≠ .number .notANumber)
    (hparse : parse tokens = .ok file) :
    let n := sumOf Phrase.tokenCount file.phrases
    List.Forall₂ TokenKind.Agrees (file.phrases.flatMap Phrase.written)
        ((tokens.take n).map Token.kind) ∧
      n ≤ tokens.length ∧ PartsTakeTokens ∧ (∀ token ∈ tokens.take n, token.kind ≠ .endOfInput) ∧
      ∀ token, tokens[n]? = some token → token.kind.IsStop := by
  intro n
  obtain ⟨_, hstatements⟩ := gives_of_parse hparse
  obtain ⟨hmatched, hstops⟩ := Parser.statements_sound tokens _ hstatements
  have hlength : (Phrase.bodyWritten file.phrases).length = n := by
    rw [Phrase.length_bodyWritten, Phrase.bodyTokens_eq_sumOf]
  have hagrees := hmatched.mono fun kind token htoken h => h.agrees (hnumbers token htoken)
  have hinput := hmatched.forall_mem_take fun kind token h => h.ne_endOfInput
  rw [← Phrase.bodyWritten_eq_flatMap, ← hlength]
  refine ⟨hagrees.forall₂, hmatched.length_le, partsTakeTokens, hinput, ?_⟩
  intro token htoken
  rw [← List.head?_drop, hmatched.drop_eq] at htoken
  exact hstops token htoken

/-- A choice, whose semicolon is counted apart from its last value, before a parenthesis that
starts no phrase. -/
def chosenTokens : List Token :=
  [.identifier "y", .operator (.assignment .toSignal), .identifier "a", .keyword .when_,
    .identifier "c", .keyword .else_, .operator (.logic .not), .identifier "b",
    .punctuation .semicolon, .paren .closing].map (⟨·, ⟨1, 1⟩⟩)

def chosenPhrase : Phrase :=
  .binary (.identifier "y") (.assignment .toSignal)
    (.whenElse [⟨.identifier "a", .identifier "c"⟩] (.unary (.logic .not) (.identifier "b") false))
    false

theorem parse_sound_chosen :
    parse chosenTokens = .ok ⟨[chosenPhrase], [⟨.paren .closing, ⟨1, 1⟩⟩]⟩ ∧
      List.Forall₂ TokenKind.Agrees ([chosenPhrase].flatMap Phrase.written)
        ((chosenTokens.take 9).map Token.kind) := by
  have hnumbers : ∀ token ∈ chosenTokens, token.kind ≠ .number .notANumber := by
    simp [chosenTokens]
  have hparse : parse chosenTokens = .ok ⟨[chosenPhrase], [⟨.paren .closing, ⟨1, 1⟩⟩]⟩ := by
    cbv
  have hsound := (parse_sound hnumbers hparse).1
  exact ⟨hparse, hsound⟩

end VhdlGates
