import VhdlGates.Compile
import VhdlGates.Proofs.Phrase.Completeness
import VhdlGates.Proofs.Phrase.Ending
import VhdlGates.Proofs.Phrase.Soundness
import VhdlGates.Proofs.Phrase.Unread

/-! Parsing is local. The phrases that are read do not depend on the tokens after them, and nothing
behind the end of the input is looked at. -/
namespace VhdlGates

namespace Parser

section Phrases

variable (more : List Token) {token : Token} {rest : List Token}

/-- A primary that is read by a reader of its own after its first token. -/
lemma primary_ignores_of_reader {α : Type} (phrase : α → Phrase)
    {f : (tokens : List Token) → Except Complaint (Reading Token α tokens.length)}
    (hprimary : ∀ rest, primary (token :: rest) =
      f rest >>= fun r => pure (some ⟨phrase r.value, r.rest, Nat.lt_succ_of_lt r.shorter⟩))
    (hf : Ensures (f rest) (Ignores more f rest)) :
    Ensures (primary (token :: rest)) (IgnoresOption more primary (token :: rest)) := by
  rw [hprimary]
  refine hf.bindIgnores ?_
  intro value after _ h
  refine .pure fun left hleft => ?_
  obtain ⟨front, rfl, g⟩ := h left hleft
  refine ⟨token :: front, rfl, ?_⟩
  rw [hprimary]
  exact g.bindFinds fun _ => .pure _

/-- A primary that is a single token. -/
lemma primary_ignores_of_token {phrase : Phrase}
    (hprimary : ∀ rest, primary (token :: rest) = pure (some ⟨phrase, rest, Nat.lt_succ_self _⟩)) :
    Ensures (primary (token :: rest)) (IgnoresOption more primary (token :: rest)) := by
  rw [hprimary]
  refine .pure fun left hleft => ?_
  obtain rfl : rest = left ++ more := hleft
  refine ⟨token :: left, rfl, ?_⟩
  rw [hprimary]
  exact .pure _

/-- A token that starts no primary. -/
lemma primary_ignores_of_none (hprimary : ∀ rest, primary (token :: rest) = .ok none) :
    Ensures (primary (token :: rest)) (IgnoresOption more primary (token :: rest)) := by
  rw [hprimary]
  refine .pure fun front hfront => ?_
  cases front with
  | nil =>
    rw [primary]
    rfl
  | cons _ front =>
    obtain ⟨rfl, -⟩ := List.cons.inj hfront
    exact hprimary front

mutual

theorem primary_ignores : ∀ tokens : List Token,
    Ensures (primary tokens) (IgnoresOption more primary tokens)
  | [] => by
    rw [primary]
    refine .pure fun front hfront => ?_
    obtain ⟨rfl, -⟩ := List.append_eq_nil_iff.mp hfront.symm
    rw [primary]
    rfl
  | ⟨kind, place⟩ :: rest => by
    cases kind with
    | keyword k =>
      cases k with
      | library =>
        refine primary_ignores_of_reader more id (fun rest => ?_) (libraryClause_ignores more rest)
        rw [primary]
        rfl
      | use_ =>
        refine primary_ignores_of_reader more id (fun rest => ?_) (useClause_ignores more rest)
        rw [primary]
        rfl
      | if_ =>
        refine primary_ignores_of_reader more id (fun rest => ?_) (ifStatement_ignores rest)
        rw [primary]
        rfl
      | entity =>
        refine primary_ignores_of_reader more .entity (fun rest => ?_) (entity_ignores more rest)
        rw [primary]
      | architecture =>
        refine primary_ignores_of_reader more id (fun rest => ?_) (architecture_ignores rest)
        rw [primary]
        rfl
      | process =>
        refine primary_ignores_of_reader more id (fun rest => ?_) (process_ignores rest)
        rw [primary]
        rfl
      | signal =>
        rw [primary]
        refine (signalDeclaration_ignores more (⟨.keyword .signal, place⟩ :: rest)).bindIgnores ?_
        intro declaration after _ h
        refine .pure fun left hleft => ?_
        obtain ⟨front, hfront, g⟩ := h left hleft
        cases front with
        | nil =>
          obtain ⟨hlt, -⟩ := g
          exact (Nat.not_lt_zero _ hlt).elim
        | cons token front =>
          obtain ⟨rfl, rfl⟩ := List.cons.inj hfront
          refine ⟨⟨.keyword .signal, place⟩ :: front, rfl, ?_⟩
          rw [primary]
          exact g.bindFinds fun _ => .pure _
      | _ => exact primary_ignores_of_none more fun rest => by unfold primary; rfl
    | paren p =>
      cases p with
      | opening =>
        refine primary_ignores_of_reader more id (fun rest => ?_) (parenthesized_ignores rest)
        rw [primary]
        rfl
      | closing => exact primary_ignores_of_none more fun rest => by unfold primary; rfl
    | operator operator =>
      refine primary_ignores_of_reader more id (fun rest => ?_) (unary_ignores operator rest)
      rw [primary]
      rfl
    | identifier name => exact primary_ignores_of_token more fun rest => by rw [primary]
    | number value => exact primary_ignores_of_token more fun rest => by rw [primary]
    | punctuation p =>
      cases p with
      | apostrophe =>
        refine primary_ignores_of_reader more (fun value => .literal (.bit value)) (fun rest => ?_)
          (bit_ignores more rest)
        rw [primary]
      | _ => exact primary_ignores_of_none more fun rest => by unfold primary; rfl
    | endOfInput => exact primary_ignores_of_none more fun rest => by unfold primary; rfl
termination_by tokens => 4 * tokens.length

theorem unary_ignores (operator : Operator) (tokens : List Token) :
    Ensures (unary operator tokens) (Ignores more (unary operator) tokens) := by
  rw [unary]
  refine (primary_ignores tokens).bindIgnoresOption (fun _ => .throw _) ?_
  intro operand rest₁ _ h₁
  refine .pure fun left hleft => ?_
  obtain ⟨front₁, hrest₁, _, hterminator⟩ := terminator_ignores hleft
  obtain ⟨front, htokens, g₁⟩ := h₁ front₁ hrest₁
  refine ⟨front, htokens, ?_⟩
  rw [unary]
  refine g₁.bindGives fun _ => ?_
  dsimp only
  rw [hterminator]
  exact .pure _
termination_by 4 * tokens.length + 1

theorem parenthesized_ignores (tokens : List Token) :
    Ensures (parenthesized tokens) (Ignores more parenthesized tokens) := by
  rw [parenthesized]
  refine (expression_ignores tokens).bindIgnoresOption (fun _ => .throw _) ?_
  intro inner rest₁ _ h₁
  refine (paren_ignores more _ rest₁ _).bindIgnores ?_
  intro _ rest _ h₂
  refine .pure fun left hleft => ?_
  obtain ⟨front₁, hrest₁, g₂⟩ := h₂ left hleft
  obtain ⟨front, htokens, g₁⟩ := h₁ front₁ hrest₁
  refine ⟨front, htokens, ?_⟩
  rw [parenthesized]
  exact g₁.bindGives fun _ => g₂.bind fun _ => .pure _
termination_by 4 * tokens.length + 2

theorem expression_ignores (tokens : List Token) :
    Ensures (expression tokens) (IgnoresOption more expression tokens) := by
  rw [expression]
  refine (primary_ignores tokens).bindIgnoresOption ?_ ?_
  · intro hnone
    refine .pure fun front hfront => ?_
    rw [expression, hnone front hfront]
    rfl
  intro first rest₁ _ h₁
  dsimp only
  split_ifs with hterminated
  · refine .pure fun left hleft => ?_
    obtain ⟨front, htokens, g₁⟩ := h₁ left hleft
    exact ⟨front, htokens, expression_of_primary g₁ hterminated⟩
  split
  next hnone =>
    refine .pure fun left hleft => ?_
    obtain ⟨front, htokens, g₁⟩ := h₁ left hleft
    obtain rfl : rest₁ = left ++ more := hleft
    refine ⟨front, htokens, ?_⟩
    rw [expression]
    refine g₁.bind fun _ => ?_
    dsimp only
    rw [if_neg hterminated, operator?_none_of_append hnone]
    exact .pure _
  next operator rest₂ _ hoperator =>
    have hbinary : ∀ {right rest₃} {h : (terminator rest₃).rest.length < tokens.length},
        (∀ left, rest₃ = left ++ more → ∃ front, rest₂ = front ++ more ∧
          Finds (if operator.isAssignment then conditional front else expression front) right
            left) →
        IgnoresOption more expression tokens (some ⟨.binary first operator right
          (terminator rest₃).value, (terminator rest₃).rest, h⟩) := by
      intro right rest₃ _ h₃ left hleft
      obtain ⟨front₃, hrest₃, _, hterminator⟩ := terminator_ignores hleft
      obtain ⟨front₂, hrest₂, g₃⟩ := h₃ front₃ hrest₃
      obtain ⟨front₁, hrest₁, _, hoperator⟩ := operator?_ignores hoperator hrest₂
      obtain ⟨front, htokens, g₁⟩ := h₁ front₁ hrest₁
      exact ⟨front, htokens, expression_operation hterminated g₁ hoperator g₃ hterminator⟩
    split_ifs with hassignment
    · refine (conditional_ignores rest₂).bindIgnoresOption (fun _ => .throw _) ?_
      intro right rest₃ _ h₃
      refine .pure (hbinary ?_)
      simpa only [if_pos hassignment] using h₃
    · refine (expression_ignores rest₂).bindIgnoresOption (fun _ => .throw _) ?_
      intro right rest₃ _ h₃
      refine .pure (hbinary ?_)
      simpa only [if_neg hassignment] using h₃
termination_by 4 * tokens.length + 1

theorem conditional_ignores (tokens : List Token) :
    Ensures (conditional tokens) (IgnoresOption more conditional tokens) := by
  rw [conditional]
  refine (expression_ignores tokens).bindIgnoresOption ?_ ?_
  · intro hnone
    refine .pure fun front hfront => ?_
    rw [conditional, hnone front hfront]
    rfl
  intro first rest₁ _ h₁
  dsimp only
  split
  next hnone =>
    refine .pure fun left hleft => ?_
    obtain ⟨front, htokens, g₁⟩ := h₁ left hleft
    obtain rfl : rest₁ = left ++ more := hleft
    exact ⟨front, htokens, conditional_value g₁ (keyword?_none_of_append hnone)⟩
  next rest₂ _ hwhen =>
    refine (choice_ignores first rest₂).bindIgnores ?_
    intro ⟨branches, fallback⟩ rest₃ _ h₃
    dsimp only
    split
    next fallback' hfallback =>
      refine .pure fun left hleft => ?_
      obtain ⟨front₂, hrest₂, g₃⟩ := h₃ left hleft
      obtain ⟨front₁, hrest₁, _, hwhen⟩ := keyword?_ignores hwhen hrest₂
      obtain ⟨front, htokens, g₁⟩ := h₁ front₁ hrest₁
      refine ⟨front, htokens, ?_⟩
      rw [conditional]
      refine g₁.bind fun _ => ?_
      dsimp only
      rw [hwhen]
      refine g₃.bindFinds fun _ => ?_
      dsimp only
      rw [hfallback]
      exact .pure _
    next hfallback =>
      refine (mark_ignores more _ rest₃ _).bindIgnores ?_
      intro _ rest _ h₄
      refine .pure fun left hleft => ?_
      obtain ⟨front₃, hrest₃, g₄⟩ := h₄ left hleft
      obtain ⟨front₂, hrest₂, g₃⟩ := h₃ front₃ hrest₃
      obtain ⟨front₁, hrest₁, _, hwhen⟩ := keyword?_ignores hwhen hrest₂
      obtain ⟨front, htokens, g₁⟩ := h₁ front₁ hrest₁
      refine ⟨front, htokens, ?_⟩
      rw [conditional]
      refine g₁.bind fun _ => ?_
      dsimp only
      rw [hwhen]
      refine g₃.bindFinds fun _ => ?_
      dsimp only
      rw [hfallback]
      exact g₄.bindFinds fun _ => .pure _
termination_by 4 * tokens.length + 2

theorem choice_ignores (value : Phrase) (tokens : List Token) :
    Ensures (choice value tokens) (Ignores more (choice value) tokens) := by
  rw [choice]
  refine (expression_ignores tokens).bindIgnoresOption (fun _ => .throw _) ?_
  intro condition rest₁ _ h₁
  refine (keyword_ignores more _ rest₁ _).bindIgnores ?_
  intro _ rest₂ _ h₂
  refine (expression_ignores rest₂).bindIgnoresOption (fun _ => .throw _) ?_
  intro next rest₃ _ h₃
  dsimp only
  split
  next hnone =>
    refine .pure fun left hleft => ?_
    obtain ⟨front₂, hrest₂, g₃⟩ := h₃ left hleft
    obtain ⟨front₁, hrest₁, g₂⟩ := h₂ front₂ hrest₂
    obtain ⟨front, htokens, g₁⟩ := h₁ front₁ hrest₁
    obtain rfl : rest₃ = left ++ more := hleft
    refine ⟨front, htokens, ?_⟩
    rw [choice]
    refine g₁.bindGives fun _ => g₂.bind fun _ => g₃.bindGives fun _ => ?_
    dsimp only
    rw [keyword?_none_of_append hnone]
    exact .pure _
  next rest₄ _ hwhen =>
    refine (choice_ignores next rest₄).bindIgnores ?_
    intro ⟨branches, fallback⟩ rest _ h₅
    refine .pure fun left hleft => ?_
    obtain ⟨front₄, hrest₄, g₅⟩ := h₅ left hleft
    obtain ⟨front₃, hrest₃, _, hwhen⟩ := keyword?_ignores hwhen hrest₄
    obtain ⟨front₂, hrest₂, g₃⟩ := h₃ front₃ hrest₃
    obtain ⟨front₁, hrest₁, g₂⟩ := h₂ front₂ hrest₂
    obtain ⟨front, htokens, g₁⟩ := h₁ front₁ hrest₁
    refine ⟨front, htokens, ?_⟩
    rw [choice]
    refine g₁.bindGives fun _ => g₂.bind fun _ => g₃.bindGives fun _ => ?_
    dsimp only
    rw [hwhen]
    exact g₅.bind fun _ => .pure _
termination_by 4 * tokens.length + 2

theorem statements_ignores (tokens : List Token) :
    Ensures (statements tokens) (Ignores more statements tokens) := by
  rw [statements]
  refine (expression_ignores tokens).bindIgnoresOption ?_ ?_
  · intro hnone
    refine .pure fun left hleft => ?_
    obtain rfl : tokens = left ++ more := hleft
    refine ⟨left, rfl, ?_⟩
    rw [statements, hnone left rfl]
    exact .pure _
  intro first rest₁ _ h₁
  refine (statements_ignores rest₁).bindIgnores ?_
  intro others rest _ h₂
  refine .pure fun left hleft => ?_
  obtain ⟨front₁, hrest₁, g₂⟩ := h₂ left hleft
  obtain ⟨front, htokens, g₁⟩ := h₁ front₁ hrest₁
  refine ⟨front, htokens, ?_⟩
  rw [statements]
  exact g₁.bindGives fun _ => g₂.bind fun _ => .pure _
termination_by 4 * tokens.length + 2

theorem ifStatement_ignores (tokens : List Token) :
    Ensures (ifStatement tokens) (Ignores more ifStatement tokens) := by
  rw [ifStatement]
  refine (expression_ignores tokens).bindIgnoresOption (fun _ => .throw _) ?_
  intro condition rest₁ _ h₁
  refine (keyword_ignores more _ rest₁ _).bindIgnores ?_
  intro _ rest₂ _ h₂
  refine (statements_ignores rest₂).bindIgnores ?_
  intro thenBody rest₃ _ h₃
  dsimp only
  split
  next rest₄ _ helse =>
    refine (statements_ignores rest₄).bindIgnores ?_
    intro elseBody rest₅ _ h₅
    refine (endIf_ignores more _ rest₅).bindIgnores ?_
    intro _ rest _ h₆
    refine .pure fun left hleft => ?_
    obtain ⟨front₅, hrest₅, g₆⟩ := h₆ left hleft
    obtain ⟨front₄, hrest₄, g₅⟩ := h₅ front₅ hrest₅
    obtain ⟨front₃, hrest₃, _, helse⟩ := keyword?_ignores helse hrest₄
    obtain ⟨front₂, hrest₂, g₃⟩ := h₃ front₃ hrest₃
    obtain ⟨front₁, hrest₁, g₂⟩ := h₂ front₂ hrest₂
    obtain ⟨front, htokens, g₁⟩ := h₁ front₁ hrest₁
    refine ⟨front, htokens, ?_⟩
    rw [ifStatement]
    refine g₁.bindGives fun _ => g₂.bind fun _ => g₃.bind fun _ => ?_
    dsimp only
    rw [helse]
    exact g₅.bind fun _ => g₆.bind fun _ => .pure _
  next helse =>
    split
    next => exact .throw _
    next =>
      refine (endIf_ignores more _ rest₃).bindIgnores ?_
      intro _ rest _ h₄
      refine .pure fun left hleft => ?_
      obtain ⟨front₃, hrest₃, g₄⟩ := h₄ left hleft
      obtain ⟨front₂, hrest₂, g₃⟩ := h₃ front₃ hrest₃
      obtain ⟨front₁, hrest₁, g₂⟩ := h₂ front₂ hrest₂
      obtain ⟨front, htokens, g₁⟩ := h₁ front₁ hrest₁
      obtain rfl := hrest₃
      refine ⟨front, htokens, ?_⟩
      rw [ifStatement]
      refine g₁.bindGives fun _ => g₂.bind fun _ => g₃.bind fun _ => ?_
      dsimp only
      rw [keyword?_none_of_append helse]
      dsimp only
      obtain ⟨_, hend⟩ := keyword?_of_endIf g₄
      rw [hend]
      exact g₄.bind fun _ => .pure _
termination_by 4 * tokens.length + 3

theorem process_ignores (tokens : List Token) :
    Ensures (process tokens) (Ignores more process tokens) := by
  rw [process]
  refine (sensitivity_ignores more tokens).bindIgnores ?_
  intro names rest₁ _ h₁
  refine (statements_ignores rest₁).bindIgnores ?_
  intro body rest₂ _ h₂
  refine (endProcess_ignores more rest₂).bindIgnores ?_
  intro _ rest _ h₃
  refine .pure fun left hleft => ?_
  obtain ⟨front₂, hrest₂, g₃⟩ := h₃ left hleft
  obtain ⟨front₁, hrest₁, g₂⟩ := h₂ front₂ hrest₂
  obtain ⟨front, htokens, g₁⟩ := h₁ front₁ hrest₁
  refine ⟨front, htokens, ?_⟩
  rw [process]
  exact g₁.bind fun _ => g₂.bind fun _ => g₃.bind fun _ => .pure _
termination_by 4 * tokens.length + 3

theorem architecture_ignores (tokens : List Token) :
    Ensures (architecture tokens) (Ignores more architecture tokens) := by
  rw [architecture]
  refine (heading_ignores more tokens).bindIgnores ?_
  intro heading rest₁ _ h₁
  refine (statements_ignores rest₁).bindIgnores ?_
  intro body rest₂ _ h₂
  refine (endClause_ignores more _ rest₂ _ heading.name).bindIgnores ?_
  intro ending rest _ h₃
  refine .pure fun left hleft => ?_
  obtain ⟨front₂, hrest₂, g₃⟩ := h₃ left hleft
  obtain ⟨front₁, hrest₁, g₂⟩ := h₂ front₂ hrest₂
  obtain ⟨front, htokens, g₁⟩ := h₁ front₁ hrest₁
  refine ⟨front, htokens, ?_⟩
  rw [architecture]
  exact g₁.bind fun _ => g₂.bind fun _ => g₃.bind fun _ => .pure _
termination_by 4 * tokens.length + 3

end

end Phrases

end Parser

lemma parse_of_gives {tokens rest : List Token} {phrases : List Phrase}
    (h : Gives (Parser.statements tokens) phrases rest) : parse tokens = .ok ⟨phrases, rest⟩ := by
  obtain ⟨_, hstatements⟩ := h
  rw [parse, hstatements]
  rfl

/-- The tokens of the phrases alone are parsed to the same phrases. -/
lemma parse_take {tokens : List Token} {file : SourceFile} (h : parse tokens = .ok file) :
    parse (tokens.take (sumOf Phrase.tokenCount file.phrases)) = .ok ⟨file.phrases, []⟩ := by
  obtain ⟨_, hstatements⟩ := gives_of_parse h
  obtain ⟨front, rfl, hfront⟩ :=
    Parser.statements_ignores file.trailing tokens _ hstatements [] rfl
  have hlength : sumOf Phrase.tokenCount file.phrases = front.length := by
    obtain ⟨_, hread⟩ := hfront
    have hmatched := (Parser.statements_sound front _ hread).1.length_eq
    rw [← hmatched, Phrase.length_bodyWritten, Phrase.bodyTokens_eq_sumOf]
  rw [hlength, List.take_left]
  exact parse_of_gives hfront

namespace Complaint

/-- A token behind the others gives a complaint its place. -/
lemma line_before (c : Complaint) (token : Token) (more tokens : List Token) :
    (c.before (token :: more)).line tokens = (c.found.getD token).position.line := by
  cases hfound : c.found <;> simp [before, line, hfound]

/-- The end of the input is spoken of in the same words whether or not a token marks it. -/
lemma message_before (c : Complaint) {t : List Token} (ht : Ended t) :
    (c.before t).message = c.message := by
  have hfound : ((c.before t).found.map (·.kind)).getD .endOfInput =
      (c.found.map (·.kind)).getD .endOfInput := by
    rcases ht.nil_or_cons with rfl | ⟨place, more, rfl⟩ <;> cases h : c.found <;> simp [before, h]
  -- both texts are opened as they stand, since their common parts are not to be spelled out
  delta message
  dsimp only
  rw [hfound]
  rfl

end Complaint

lemma readPhrases_result (tokens : List Token) :
    (readPhrases tokens).result =
      match parse tokens with
      | .ok file => .ok file.phrases
      | .error c => .error (.unparsable (c.line tokens) c) := by
  unfold readPhrases
  cases parse tokens <;> rfl

/-- What is read before the end of the input. -/
lemma readPhrases_ended (front : List Token) {ending : Token} (hending : ending.kind = .endOfInput)
    (after : List Token) :
    (readPhrases (front ++ [ending] ++ after)).result =
      match parse front with
      | .ok file => .ok file.phrases
      | .error c =>
        .error (.unparsable (c.found.getD ending).position.line (c.before [ending])) := by
  rw [List.append_assoc, List.singleton_append, readPhrases_result,
    parse_append (Ended.cons hending after)]
  cases parse front with
  | ok file => rfl
  | error c =>
    dsimp only
    rw [Complaint.line_before]
    rfl

/-- Parsing is local. The tokens after the phrases that are read have no part in them. Nothing
behind a token that marks the end of the input is read, and where no token marks it, the same
phrases are read, or the complaint says the same. -/
theorem readPhrases_local :
    (∀ tokens phrases, (readPhrases tokens).result = .ok phrases →
      (readPhrases (tokens.take (sumOf Phrase.tokenCount phrases))).result = .ok phrases) ∧
    ∀ front ending, ending.kind = .endOfInput →
      (∀ after after', (readPhrases (front ++ [ending] ++ after)).result =
        (readPhrases (front ++ [ending] ++ after')).result) ∧
      ((∃ phrases, (readPhrases front).result = .ok phrases ∧
          (readPhrases (front ++ [ending])).result = .ok phrases) ∨
        ∃ line line' complaint complaint',
          (readPhrases front).result = .error (.unparsable line complaint) ∧
          (readPhrases (front ++ [ending])).result = .error (.unparsable line' complaint') ∧
          complaint'.message = complaint.message) := by
  refine ⟨?_, fun front ending hending => ⟨?_, ?_⟩⟩
  · intro tokens phrases h
    rw [readPhrases_result] at h
    cases hparse : parse tokens with
    | error c => simp [hparse] at h
    | ok file =>
      obtain rfl : file.phrases = phrases := by simpa [hparse] using h
      rw [readPhrases_result, parse_take hparse]
  · intro after after'
    rw [readPhrases_ended front hending, readPhrases_ended front hending]
  · have hended := readPhrases_ended front hending []
    rw [List.append_nil] at hended
    rw [hended, readPhrases_result]
    cases parse front with
    | ok file => exact .inl ⟨file.phrases, rfl, rfl⟩
    | error c => exact .inr ⟨_, _, _, _, rfl, rfl, c.message_before (Ended.cons hending [])⟩

/-- The parenthesis behind a choice is passed over, and so is all that follows the end of the input
where the choice lacks its semicolon. -/
theorem readPhrases_local_chosen :
    (readPhrases chosenTokens).result = .ok [chosenPhrase] ∧
      (readPhrases (chosenTokens.take 9)).result = .ok [chosenPhrase] ∧
      (readPhrases (chosenTokens.take 8 ++ [⟨.endOfInput, ⟨2, 1⟩⟩] ++ chosenTokens)).result =
        (readPhrases (chosenTokens.take 8 ++ [⟨.endOfInput, ⟨2, 1⟩⟩] ++ [])).result := by
  have hread : (readPhrases chosenTokens).result = .ok [chosenPhrase] := by cbv
  have htake := readPhrases_local.1 _ _ hread
  have hended := (readPhrases_local.2 (chosenTokens.take 8) ⟨.endOfInput, ⟨2, 1⟩⟩ rfl).1
  exact ⟨hread, htake, hended _ _⟩

end VhdlGates
