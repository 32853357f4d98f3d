import VhdlGates.Proofs.Phrase.Soundness

/-! Offsets in the tokens. A reader hands on what it leaves, and that begins at the offset which the
token count of the value gives. So the counts alone say where each part of a text is read. -/
namespace VhdlGates

/-- What is left begins behind the first `n` tokens. -/
structure Offset (n : ℕ) (tokens rest : List Token) : Prop where
  le_length : n ≤ tokens.length
  drop_eq : tokens.drop n = rest

lemma Reads.offset {R : TokenKind → TokenKind → Prop} {kinds : List TokenKind}
    {tokens rest : List Token} {n : ℕ} (h : Reads R kinds tokens rest) (hn : kinds.length = n) :
    Offset n tokens rest := by
  subst hn
  exact ⟨h.length_le, h.drop_eq⟩

namespace Offset

variable {m n : ℕ} {tokens middle rest : List Token}

lemma zero (tokens : List Token) : Offset 0 tokens tokens := ⟨Nat.zero_le _, rfl⟩

lemma trans (h₁ : Offset m tokens middle) (h₂ : Offset n middle rest) :
    Offset (m + n) tokens rest := by
  obtain ⟨hm, rfl⟩ := h₁
  obtain ⟨hn, rfl⟩ := h₂
  rw [List.length_drop] at hn
  exact ⟨by omega, List.drop_drop.symm⟩

end Offset

/-- What the reader leaves begins at the offset that its value counts. -/
def Leaves {α : Type} {n : ℕ} (count : α → ℕ) (tokens : List Token)
    (x : Except Complaint (Reading Token α n)) : Prop :=
  Ensures x fun r => Offset (count r.value) tokens r.rest

/-- If the reader finds a phrase, what it leaves begins at the offset that the phrase counts. -/
def LeavesFound {n : ℕ} (tokens : List Token)
    (x : Except Complaint (Option (Reading Token Phrase n))) : Prop :=
  Ensures x fun found => ∀ r ∈ found, Offset r.value.tokenCount tokens r.rest

lemma Ensures.leaves {α : Type} {n : ℕ} {written : α → List TokenKind} {count : α → ℕ}
    {tokens : List Token} {x : Except Complaint (Reading Token α n)}
    (h : Ensures x fun r => Matched (written r.value) tokens r.rest)
    (hlength : ∀ a, (written a).length = count a) : Leaves count tokens x :=
  fun r hr => (h r hr).offset (hlength r.value)

lemma Ensures.leavesFound {n : ℕ} {tokens : List Token}
    {x : Except Complaint (Option (Reading Token Phrase n))} (h : Ensures x (Covers tokens)) :
    LeavesFound tokens x := by
  rintro _ hx r rfl
  have hmatched : Matched r.value.written tokens r.rest := h _ hx
  exact hmatched.offset r.value.length_written

/-- Every reader of a phrase, or of a part of one, goes on at the offset that its value counts. A
reader that is called behind the first token of its phrase counts this token too, and the reader of
the branches of a choice counts the first value and the keyword behind that. -/
structure ReadersCount (tokens : List Token) : Prop where
  token (construct : Construct) {kind : TokenKind} (h : kind ≠ .endOfInput) :
    Leaves (fun _ => 1) tokens (Parser.expect construct kind tokens)
  names : Offset (listTokens (Parser.names tokens).value.length) tokens (Parser.names tokens).rest
  bit (place : Position) : Leaves (fun value => (Literal.bit value).tokenCount)
    (⟨.punctuation .apostrophe, place⟩ :: tokens) (Parser.bit tokens)
  signal : Leaves SignalDeclaration.tokenCount tokens (Parser.signalDeclaration tokens)
  signals : Leaves (sumOf SignalDeclaration.tokenCount) tokens (Parser.signalDeclarations tokens)
  port : Leaves PortDeclaration.tokenCount tokens (Parser.portDeclaration tokens)
  ending (construct : Construct) (k : Keyword) (name : String) :
    Leaves EndClause.tokenCount tokens (Parser.endClause construct k name tokens)
  entity (place : Position) : Leaves Entity.tokenCount (⟨.keyword .entity, place⟩ :: tokens)
    (Parser.entity tokens)
  libraryClause (place : Position) : Leaves Phrase.tokenCount
    (⟨.keyword .library, place⟩ :: tokens) (Parser.libraryClause tokens)
  useClause (place : Position) : Leaves Phrase.tokenCount (⟨.keyword .use_, place⟩ :: tokens)
    (Parser.useClause tokens)
  primary : LeavesFound tokens (Parser.primary tokens)
  unary (operator : Operator) (place : Position) : Leaves Phrase.tokenCount
    (⟨.operator operator, place⟩ :: tokens) (Parser.unary operator tokens)
  parenthesized (place : Position) : Leaves Phrase.tokenCount (⟨.paren .opening, place⟩ :: tokens)
    (Parser.parenthesized tokens)
  expression : LeavesFound tokens (Parser.expression tokens)
  conditional : LeavesFound tokens (Parser.conditional tokens)
  choice {first : Phrase} {middle after : List Token} {h : after.length < middle.length}
    (hfirst : Finds (Parser.expression tokens) first middle)
    (hwhen : Parser.keyword? .when_ middle = some ⟨(), after, h⟩) :
    Leaves (fun chosen => Phrase.branchTokens chosen.1 + chosen.2.tokenCount) tokens
      (Parser.choice first after)
  statements : Leaves Phrase.bodyTokens tokens (Parser.statements tokens)
  ifStatement (place : Position) : Leaves Phrase.tokenCount (⟨.keyword .if_, place⟩ :: tokens)
    (Parser.ifStatement tokens)
  process (place : Position) : Leaves Phrase.tokenCount (⟨.keyword .process, place⟩ :: tokens)
    (Parser.process tokens)
  architecture (place : Position) : Leaves Phrase.tokenCount
    (⟨.keyword .architecture, place⟩ :: tokens) (Parser.architecture tokens)

namespace Parser

theorem readersCount (tokens : List Token) : ReadersCount tokens where
  token construct _ h := fun r hr => (expect_sound construct tokens h r hr).offset rfl
  names := (names_sound tokens).offset (length_namesWritten _)
  bit place := by
    intro r hr
    have hrest := bit_sound tokens r hr
    have hmatched : Matched (Literal.bit r.value).written
        (⟨.punctuation .apostrophe, place⟩ :: tokens) r.rest := .cons (.same (by simp)) hrest
    exact hmatched.offset (Literal.length_written _)
  signal := (signalDeclaration_sound tokens).leaves SignalDeclaration.length_written
  signals := (signalDeclarations_sound tokens).leaves SignalDeclaration.length_allWritten
  port := (portDeclaration_sound tokens).leaves PortDeclaration.length_written
  ending construct k name :=
    (endClause_sound construct tokens k name).leaves (EndClause.length_written k)
  entity place := (entity_sound tokens place).leaves Entity.length_written
  libraryClause place := (libraryClause_sound tokens place).leaves Phrase.length_written
  useClause place := (useClause_sound tokens place).leaves Phrase.length_written
  primary := (primary_sound tokens).leavesFound
  unary operator place := (unary_sound operator tokens place).leaves Phrase.length_written
  parenthesized place := (parenthesized_sound tokens place).leaves Phrase.length_written
  expression := (expression_sound tokens).leavesFound
  conditional := (conditional_sound tokens).leavesFound
  choice hfirst hwhen := fun r hr => (choice_matched hfirst hwhen r hr).offset (by simp)
  statements := fun r hr => (statements_sound tokens r hr).1.offset (Phrase.length_bodyWritten _)
  ifStatement place := (ifStatement_sound tokens place).leaves Phrase.length_written
  process place := (process_sound tokens place).leaves Phrase.length_written
  architecture place := (architecture_sound tokens place).leaves Phrase.length_written

variable {tokens rest : List Token} {phrases : List Phrase}

lemma expression_offset {p : Phrase} (h : Finds (expression tokens) p rest) :
    Offset p.tokenCount tokens rest := by
  obtain ⟨_, hexpression⟩ := h
  exact (readersCount tokens).expression _ hexpression _ rfl

lemma statements_cons {p : Phrase} (h : Gives (statements tokens) (p :: phrases) rest) :
    ∃ middle, Finds (expression tokens) p middle ∧ Gives (statements middle) phrases rest := by
  obtain ⟨_, h⟩ := h
  rw [statements] at h
  cases hfirst : expression tokens with
  | error c => simp [hfirst, bind, Except.bind] at h
  | ok found =>
    cases found with
    | none => simp [hfirst, bind, Except.bind, pure, Except.pure] at h
    | some first =>
      cases hothers : statements first.rest with
      | error c => simp [hfirst, hothers, bind, Except.bind] at h
      | ok others =>
        obtain ⟨⟨rfl, rfl⟩, rfl⟩ :
            (first.value = p ∧ others.value = phrases) ∧ others.rest = rest := by
          simpa [hfirst, hothers, bind, Except.bind, pure, Except.pure] using h
        exact ⟨first.rest, ⟨first.shorter, rfl⟩, ⟨others.shorter, hothers⟩⟩

/-- Each phrase is read at the offset that the phrases in front of it count together. -/
theorem statements_reads (h : Gives (statements tokens) phrases rest) {i : ℕ}
    (hi : i < phrases.length) : ∃ start left,
      Offset (sumOf Phrase.tokenCount (phrases.take i)) tokens start ∧
        Finds (expression start) phrases[i] left ∧
        Offset (sumOf Phrase.tokenCount (phrases.take (i + 1))) tokens left := by
  induction phrases generalizing tokens i with
  | nil => simp at hi
  | cons p phrases ih =>
    obtain ⟨middle, hfirst, hothers⟩ := statements_cons h
    have hp := expression_offset hfirst
    cases i with
    | zero => exact ⟨tokens, middle, .zero tokens, hfirst, by simpa [sumOf] using hp⟩
    | succ i =>
      obtain ⟨start, left, hstart, hfinds, hleft⟩ := ih hothers (Nat.lt_of_succ_lt_succ hi)
      exact ⟨start, left, hp.trans hstart, hfinds, hp.trans hleft⟩

end Parser

/-- What a parse leaves begins at the offset that its phrases count together, and each phrase is read
at the offset that those in front of it count. -/
theorem parse_offsets {tokens : List Token} {file : SourceFile} (h : parse tokens = .ok file) :
    Offset (sumOf Phrase.tokenCount file.phrases) tokens file.trailing ∧
      ∀ i (hi : i < file.phrases.length), ∃ start left,
        Offset (sumOf Phrase.tokenCount (file.phrases.take i)) tokens start ∧
          Finds (Parser.expression start) file.phrases[i] left ∧
          Offset (sumOf Phrase.tokenCount (file.phrases.take (i + 1))) tokens left := by
  have hgives := gives_of_parse h
  refine ⟨?_, fun i hi => Parser.statements_reads hgives hi⟩
  obtain ⟨_, hstatements⟩ := hgives
  rw [← Phrase.bodyTokens_eq_sumOf]
  exact (Parser.readersCount tokens).statements _ hstatements

end VhdlGates
