import VhdlGates.Phrase.Parser
import VhdlGates.Proofs.Phrase.Clauses
import VhdlGates.Proofs.Phrase.Parallel

/-! The end of the input. A reader that comes to the end of its tokens goes on as if it had met the
token that marks the end, and nothing behind such a token is looked at. Both are said at once: if
tokens that start with the mark are put behind those of a reader, then it gives the same value, or
the same complaint, which now has found the mark where it had found nothing. -/
namespace VhdlGates

/-- Either nothing is left, or the end of the input is marked in front. -/
abbrev Ended : List Token → Prop := Ahead (· = .endOfInput)

lemma Ended.nil_or_cons {t : List Token} (ht : Ended t) :
    t = [] ∨ ∃ place more, t = ⟨.endOfInput, place⟩ :: more := by
  cases t with
  | nil => exact .inl rfl
  | cons token more =>
    obtain ⟨kind, place⟩ := token
    obtain rfl : kind = .endOfInput := ht _ rfl
    exact .inr ⟨place, more, rfl⟩

lemma Ended.cons {token : Token} (h : token.kind = .endOfInput) (more : List Token) :
    Ended (token :: more) := by
  intro token' htoken
  obtain rfl := Option.some.inj htoken
  exact h

/-- The complaint where the tokens `t` follow those that it was about. -/
def Complaint.before (t : List Token) (c : Complaint) : Complaint :=
  { c with found := c.found.or t.head? }

/-- The second reading gives the same value and leaves the tokens `t` besides. -/
def Extends (t : List Token) {α : Type} {m n : ℕ} (r : Reading Token α m)
    (s : Reading Token α n) : Prop :=
  s.value = r.value ∧ s.rest = r.rest ++ t

/-- Neither of the readings is there, or the second extends the first. -/
inductive ExtendsOption (t : List Token) {α : Type} {m n : ℕ} :
    Option (Reading Token α m) → Option (Reading Token α n) → Prop
  | none : ExtendsOption t none none
  | some {r : Reading Token α m} {s : Reading Token α n} (h : Extends t r s) :
      ExtendsOption t (some r) (some s)

/-- The second reader goes on like the first with the tokens `t` behind it. -/
abbrev Continues (t : List Token) {α : Type} {m n : ℕ} :
    Except Complaint (Reading Token α m) → Except Complaint (Reading Token α n) → Prop :=
  Parallel (fun c d => d = c.before t) (Extends t)

/-- The same for readers that may find nothing. -/
abbrev ContinuesOption (t : List Token) {α : Type} {m n : ℕ} :
    Except Complaint (Option (Reading Token α m)) →
      Except Complaint (Option (Reading Token α n)) → Prop :=
  Parallel (fun c d => d = c.before t) (ExtendsOption t)

section Rules

variable {t : List Token} {α β γ : Type} {m n : ℕ} {S : β → γ → Prop}

lemma Extends.eq {r : Reading Token α m} {s : Reading Token α n} (h : Extends t r s) :
    ∃ h', s = ⟨r.value, r.rest ++ t, h'⟩ := by
  obtain ⟨value, rest, h'⟩ := s
  obtain rfl : value = r.value := h.1
  obtain rfl : rest = r.rest ++ t := h.2
  exact ⟨h', rfl⟩

lemma ExtendsOption.none_or_some {a : Option (Reading Token α m)} {b : Option (Reading Token α n)}
    (h : ExtendsOption t a b) :
    a = .none ∧ b = .none ∨
      ∃ value rest h h', a = .some ⟨value, rest, h⟩ ∧ b = .some ⟨value, rest ++ t, h'⟩ := by
  cases h with
  | none => exact .inl ⟨rfl, rfl⟩
  | @some r s h =>
    obtain ⟨h', rfl⟩ := h.eq
    exact .inr ⟨r.value, r.rest, r.shorter, h', rfl, rfl⟩

lemma Continues.bind {x : Except Complaint (Reading Token α m)}
    {y : Except Complaint (Reading Token α n)} {f : Reading Token α m → Except Complaint β}
    {g : Reading Token α n → Except Complaint γ} (hxy : Continues t x y)
    (hfg : ∀ value rest h h', Parallel (fun c d => d = c.before t) S (f ⟨value, rest, h⟩)
      (g ⟨value, rest ++ t, h'⟩)) :
    Parallel (fun c d => d = c.before t) S (x >>= f) (y >>= g) := by
  refine Parallel.bind hxy ?_
  intro r s h
  obtain ⟨h', rfl⟩ := h.eq
  exact hfg _ _ _ _

lemma ContinuesOption.bind {x : Except Complaint (Option (Reading Token α m))}
    {y : Except Complaint (Option (Reading Token α n))}
    {f : Option (Reading Token α m) → Except Complaint β}
    {g : Option (Reading Token α n) → Except Complaint γ} (hxy : ContinuesOption t x y)
    (hnone : Parallel (fun c d => d = c.before t) S (f none) (g none))
    (hsome : ∀ value rest h h', Parallel (fun c d => d = c.before t) S (f (some ⟨value, rest, h⟩))
      (g (some ⟨value, rest ++ t, h'⟩))) :
    Parallel (fun c d => d = c.before t) S (x >>= f) (y >>= g) := by
  refine Parallel.bind hxy ?_
  intro a b h
  obtain ⟨rfl, rfl⟩ | ⟨value, rest, _, _, rfl, rfl⟩ := h.none_or_some
  · exact hnone
  · exact hsome _ _ _ _

lemma Continues.of_error {c : Complaint} {y : Except Complaint (Reading Token α n)}
    (h : Continues t (.error c : Except Complaint (Reading Token α m)) y) :
    y = .error (c.before t) := by
  cases h with
  | error h => rw [h]

lemma Continues.of_ok {r : Reading Token α m} {y : Except Complaint (Reading Token α n)}
    (h : Continues t (.ok r) y) : ∃ h', y = .ok ⟨r.value, r.rest ++ t, h'⟩ := by
  cases h with
  | ok h =>
    obtain ⟨h', rfl⟩ := h.eq
    exact ⟨h', rfl⟩

end Rules

namespace Parser

variable {t : List Token}

lemma unexpected_append (construct : Construct) (expected : Expectation) (tokens : List Token) :
    unexpected construct expected (tokens ++ t) =
      (unexpected construct expected tokens).before t := by
  simp [unexpected, Complaint.before, List.head?_append]

section Clauses

variable (ht : Ended t) (construct : Construct) (tokens : List Token)
include ht

lemma expect_continues {kind : TokenKind} (hkind : kind ≠ .endOfInput) :
    Continues t (expect construct kind tokens) (expect construct kind (tokens ++ t)) := by
  cases tokens with
  | nil =>
    rcases ht.nil_or_cons with rfl | ⟨place, more, rfl⟩
    · exact .error rfl
    · rw [List.nil_append, expect, expect, if_neg hkind.symm]
      exact .error rfl
  | cons token rest =>
    rw [List.cons_append, expect, expect]
    split_ifs
    · exact .ok ⟨rfl, rfl⟩
    · exact .error (unexpected_append _ _ (token :: rest))

lemma keyword_continues (k : Keyword) :
    Continues t (keyword construct k tokens) (keyword construct k (tokens ++ t)) :=
  expect_continues ht construct tokens (by simp)

lemma mark_continues (p : Punctuation) :
    Continues t (mark construct p tokens) (mark construct p (tokens ++ t)) :=
  expect_continues ht construct tokens (by simp)

lemma paren_continues (p : Paren) :
    Continues t (paren construct p tokens) (paren construct p (tokens ++ t)) :=
  expect_continues ht construct tokens (by simp)

lemma identifier_continues :
    Continues t (identifier construct tokens) (identifier construct (tokens ++ t)) := by
  rcases tokens with _ | ⟨⟨kind, place⟩, rest⟩
  · rcases ht.nil_or_cons with rfl | ⟨place, more, rfl⟩ <;> exact .error rfl
  · cases kind with
    | identifier name => exact .ok ⟨rfl, rfl⟩
    | _ => exact .error (unexpected_append _ _ (_ :: rest))

lemma terminator_extends : Extends t (terminator tokens) (terminator (tokens ++ t)) := by
  rcases tokens with _ | ⟨⟨kind, place⟩, rest⟩
  · rcases ht.nil_or_cons with rfl | ⟨place, more, rfl⟩ <;> exact ⟨rfl, rfl⟩
  · cases kind with
    | punctuation p => cases p <;> exact ⟨rfl, rfl⟩
    | _ => exact ⟨rfl, rfl⟩

lemma keyword?_extends (k : Keyword) :
    ExtendsOption t (keyword? k tokens) (keyword? k (tokens ++ t)) := by
  cases tokens with
  | nil =>
    rcases ht.nil_or_cons with rfl | ⟨place, more, rfl⟩
    · exact .none
    · rw [List.nil_append, keyword?, keyword?, if_neg (by simp)]
      exact .none
  | cons token rest =>
    rw [List.cons_append, keyword?, keyword?]
    split_ifs
    · exact .some ⟨rfl, rfl⟩
    · exact .none

lemma operator?_extends : ExtendsOption t (operator? tokens) (operator? (tokens ++ t)) := by
  rcases tokens with _ | ⟨⟨kind, place⟩, rest⟩
  · rcases ht.nil_or_cons with rfl | ⟨place, more, rfl⟩ <;> exact .none
  · cases kind with
    | operator operator => exact .some ⟨rfl, rfl⟩
    | _ => exact .none

lemma startsWithName_append : startsWithName (tokens ++ t) = startsWithName tokens := by
  rcases tokens with _ | ⟨⟨kind, place⟩, rest⟩
  · rcases ht.nil_or_cons with rfl | ⟨place, more, rfl⟩ <;> rfl
  · cases kind <;> rfl

lemma names_extends : Extends t (names tokens) (names (tokens ++ t)) := by
  fun_induction names tokens with
  | case1 name place place' rest hstarts more after h heq ih =>
    rw [List.cons_append, List.cons_append, names, if_pos (by rwa [startsWithName_append ht])]
    rw [heq] at ih
    exact ⟨congrArg (name :: ·) ih.1, ih.2⟩
  | case2 name place place' rest hstarts =>
    rw [List.cons_append, List.cons_append, names, if_neg (by rwa [startsWithName_append ht])]
    exact ⟨rfl, rfl⟩
  | case3 name place rest hcomma =>
    rw [List.cons_append, names]
    · exact ⟨rfl, rfl⟩
    · intro place' after heq
      rcases rest with _ | ⟨token, rest⟩
      · rw [List.nil_append] at heq
        simp [heq, Ahead] at ht
      · obtain ⟨rfl, -⟩ := List.cons.inj heq
        exact hcomma place' rest rfl
  | case4 tokens _ hname =>
    rcases tokens with _ | ⟨⟨kind, place⟩, rest⟩
    · rcases ht.nil_or_cons with rfl | ⟨place, more, rfl⟩ <;> exact ⟨rfl, rfl⟩
    · cases kind with
      | identifier name => exact (hname name place rest rfl).elim
      | _ => exact ⟨rfl, rfl⟩

lemma someNames_continues (missing : Expectation) :
    Continues t (someNames construct missing tokens)
      (someNames construct missing (tokens ++ t)) := by
  obtain ⟨hvalue, hrest⟩ := names_extends ht tokens
  dsimp only [someNames]
  rw [hvalue]
  split_ifs
  · exact .error (unexpected_append _ _ tokens)
  · exact .ok ⟨hvalue, hrest⟩

lemma bit_continues : Continues t (bit tokens) (bit (tokens ++ t)) := by
  rcases tokens with _ | ⟨⟨kind, place⟩, rest⟩
  · rcases ht.nil_or_cons with rfl | ⟨place, more, rfl⟩ <;> exact .error rfl
  · cases kind with
    | number value =>
      rw [List.cons_append, bit, bit]
      split_ifs
      · refine (mark_continues ht _ rest _).bind ?_
        intro _ after _ _
        exact .pure ⟨rfl, rfl⟩
      · exact .error (unexpected_append _ _ (_ :: rest))
    | _ => exact .error (unexpected_append _ _ (_ :: rest))

lemma signalDeclaration_continues :
    Continues t (signalDeclaration tokens) (signalDeclaration (tokens ++ t)) := by
  refine (keyword_continues ht _ tokens _).bind ?_
  intro _ rest₁ _ _
  refine (someNames_continues ht _ rest₁ _).bind ?_
  intro names rest₂ _ _
  refine (mark_continues ht _ rest₂ _).bind ?_
  intro _ rest₃ _ _
  refine (identifier_continues ht _ rest₃).bind ?_
  intro typeName rest₄ _ _
  refine (mark_continues ht _ rest₄ _).bind ?_
  intro _ rest _ _
  exact .pure ⟨rfl, rfl⟩

lemma moreSignals_extends : Extends t (moreSignals tokens) (moreSignals (tokens ++ t)) := by
  fun_induction moreSignals tokens with
  | case1 tokens c hfirst =>
    have hextended := signalDeclaration_continues ht tokens
    rw [hfirst] at hextended
    rw [moreSignals, hextended.of_error]
    exact ⟨rfl, rfl⟩
  | case2 tokens first rest h hfirst others after h' hothers ih =>
    have hextended := signalDeclaration_continues ht tokens
    rw [hfirst] at hextended
    obtain ⟨_, hextended⟩ := hextended.of_ok
    rw [hothers] at ih
    rw [moreSignals, hextended]
    exact ⟨congrArg (first :: ·) ih.1, ih.2⟩

lemma signalDeclarations_continues :
    Continues t (signalDeclarations tokens) (signalDeclarations (tokens ++ t)) := by
  unfold signalDeclarations
  obtain ⟨h, h'⟩ | ⟨_, rest, _, _, h, h'⟩ := (keyword?_extends ht tokens .begin_).none_or_some
  · rw [h, h']
    refine (signalDeclaration_continues ht tokens).bind ?_
    intro first rest _ _
    obtain ⟨hvalue, hrest⟩ := moreSignals_extends ht rest
    exact .pure ⟨congrArg (first :: ·) hvalue, hrest⟩
  · rw [h, h']
    exact .pure ⟨rfl, rfl⟩

lemma direction_continues : Continues t (direction tokens) (direction (tokens ++ t)) := by
  rcases tokens with _ | ⟨⟨kind, place⟩, rest⟩
  · rcases ht.nil_or_cons with rfl | ⟨place, more, rfl⟩ <;> exact .error rfl
  · cases kind with
    | keyword k =>
      cases k with
      | in_ | out => exact .ok ⟨rfl, rfl⟩
      | _ => exact .error (unexpected_append _ _ (_ :: rest))
    | _ => exact .error (unexpected_append _ _ (_ :: rest))

lemma portDeclaration_continues :
    Continues t (portDeclaration tokens) (portDeclaration (tokens ++ t)) := by
  refine (someNames_continues ht _ tokens _).bind ?_
  intro names rest₁ _ _
  refine (mark_continues ht _ rest₁ _).bind ?_
  intro _ rest₂ _ _
  refine (direction_continues ht rest₂).bind ?_
  intro direction rest₃ _ _
  refine (identifier_continues ht _ rest₃).bind ?_
  intro typeName rest _ _
  exact .pure ⟨rfl, rfl⟩

lemma morePorts_extends : Extends t (morePorts tokens) (morePorts (tokens ++ t)) := by
  fun_induction morePorts tokens with
  | case1 place rest c hnext =>
    have hextended := portDeclaration_continues ht rest
    rw [hnext] at hextended
    rw [List.cons_append, morePorts]
    dsimp only
    rw [hextended.of_error]
    exact ⟨rfl, rfl⟩
  | case2 place rest next after h hnext others after' h' hothers ih =>
    have hextended := portDeclaration_continues ht rest
    rw [hnext] at hextended
    obtain ⟨_, hextended⟩ := hextended.of_ok
    rw [hothers] at ih
    rw [List.cons_append, morePorts]
    dsimp only
    rw [hextended]
    exact ⟨congrArg (next :: ·) ih.1, ih.2⟩
  | case3 tokens hsemicolon =>
    rcases tokens with _ | ⟨⟨kind, place⟩, rest⟩
    · rcases ht.nil_or_cons with rfl | ⟨place, more, rfl⟩ <;> simp [morePorts, Extends]
    · cases kind with
      | punctuation p =>
        cases p with
        | semicolon => exact (hsemicolon place rest rfl).elim
        | _ => simp [morePorts, Extends]
      | _ => simp [morePorts, Extends]

lemma closingLabel_continues (name : String) :
    Continues t (closingLabel construct name tokens)
      (closingLabel construct name (tokens ++ t)) := by
  rcases tokens with _ | ⟨⟨kind, place⟩, rest⟩
  · rcases ht.nil_or_cons with rfl | ⟨place, more, rfl⟩ <;> exact .ok ⟨rfl, rfl⟩
  · cases kind with
    | identifier label =>
      rw [List.cons_append, closingLabel, closingLabel]
      split_ifs
      · exact .ok ⟨rfl, rfl⟩
      · exact .error rfl
    | _ => exact .ok ⟨rfl, rfl⟩

lemma repetition_extends (k : Keyword) :
    Extends t (repetition k tokens) (repetition k (tokens ++ t)) := by
  unfold repetition
  obtain ⟨h, h'⟩ | ⟨_, rest, _, _, h, h'⟩ := (keyword?_extends ht tokens k).none_or_some
  · rw [h, h']
    exact ⟨rfl, rfl⟩
  · rw [h, h']
    exact ⟨rfl, rfl⟩

lemma endClause_continues (k : Keyword) (name : String) :
    Continues t (endClause construct k name tokens) (endClause construct k name (tokens ++ t)) := by
  refine (keyword_continues ht _ tokens _).bind ?_
  intro _ rest₁ _ _
  obtain ⟨_, hrepeats⟩ := (repetition_extends ht rest₁ k).eq
  dsimp only
  rw [hrepeats]
  refine (closingLabel_continues ht _ _ name).bind ?_
  intro label rest₃ _ _
  refine (mark_continues ht _ rest₃ _).bind ?_
  intro _ rest _ _
  exact .pure ⟨rfl, rfl⟩

lemma entity_continues : Continues t (entity tokens) (entity (tokens ++ t)) := by
  refine (identifier_continues ht _ tokens).bind ?_
  intro name rest₁ _ _
  refine (keyword_continues ht _ rest₁ _).bind ?_
  intro _ rest₂ _ _
  refine (keyword_continues ht _ rest₂ _).bind ?_
  intro _ rest₃ _ _
  refine (paren_continues ht _ rest₃ _).bind ?_
  intro _ rest₄ _ _
  refine (portDeclaration_continues ht rest₄).bind ?_
  intro first rest₅ _ _
  obtain ⟨_, hothers⟩ := (morePorts_extends ht rest₅).eq
  dsimp only
  rw [hothers]
  refine (paren_continues ht _ _ _).bind ?_
  intro _ rest₇ _ _
  refine (mark_continues ht _ rest₇ _).bind ?_
  intro _ rest₈ _ _
  refine (endClause_continues ht _ rest₈ _ name).bind ?_
  intro ending rest _ _
  exact .pure ⟨rfl, rfl⟩

lemma libraryClause_continues :
    Continues t (libraryClause tokens) (libraryClause (tokens ++ t)) := by
  refine (identifier_continues ht _ tokens).bind ?_
  intro name rest₁ _ _
  refine (mark_continues ht _ rest₁ _).bind ?_
  intro _ rest _ _
  exact .pure ⟨rfl, rfl⟩

lemma useClause_continues : Continues t (useClause tokens) (useClause (tokens ++ t)) := by
  refine (identifier_continues ht _ tokens).bind ?_
  intro library rest₁ _ _
  refine (mark_continues ht _ rest₁ _).bind ?_
  intro _ rest₂ _ _
  refine (identifier_continues ht _ rest₂).bind ?_
  intro package rest₃ _ _
  refine (mark_continues ht _ rest₃ _).bind ?_
  intro _ rest₄ _ _
  refine (identifier_continues ht _ rest₄).bind ?_
  intro item rest₅ _ _
  refine (mark_continues ht _ rest₅ _).bind ?_
  intro _ rest _ _
  exact .pure ⟨rfl, rfl⟩

lemma endIf_continues : Continues t (endIf construct tokens) (endIf construct (tokens ++ t)) := by
  refine (keyword_continues ht _ tokens _).bind ?_
  intro _ rest₁ _ _
  refine (keyword_continues ht _ rest₁ _).bind ?_
  intro _ rest₂ _ _
  refine (mark_continues ht _ rest₂ _).bind ?_
  intro _ rest _ _
  exact .pure ⟨rfl, rfl⟩

lemma endProcess_continues : Continues t (endProcess tokens) (endProcess (tokens ++ t)) := by
  refine (keyword_continues ht _ tokens _).bind ?_
  intro _ rest₁ _ _
  refine (keyword_continues ht _ rest₁ _).bind ?_
  intro _ rest₂ _ _
  refine (mark_continues ht _ rest₂ _).bind ?_
  intro _ rest _ _
  exact .pure ⟨rfl, rfl⟩

lemma sensitivity_continues : Continues t (sensitivity tokens) (sensitivity (tokens ++ t)) := by
  refine (paren_continues ht _ tokens _).bind ?_
  intro _ rest₁ _ _
  obtain ⟨_, hnames⟩ := (names_extends ht rest₁).eq
  dsimp only
  rw [hnames]
  refine (paren_continues ht _ _ _).bind ?_
  intro _ rest₃ _ _
  refine (keyword_continues ht _ rest₃ _).bind ?_
  intro _ rest _ _
  exact .pure ⟨rfl, rfl⟩

lemma heading_continues : Continues t (heading tokens) (heading (tokens ++ t)) := by
  refine (identifier_continues ht _ tokens).bind ?_
  intro name rest₁ _ _
  refine (keyword_continues ht _ rest₁ _).bind ?_
  intro _ rest₂ _ _
  refine (identifier_continues ht _ rest₂).bind ?_
  intro entityName rest₃ _ _
  refine (keyword_continues ht _ rest₃ _).bind ?_
  intro _ rest₄ _ _
  refine (signalDeclarations_continues ht rest₄).bind ?_
  intro signals rest₅ _ _
  refine (keyword_continues ht _ rest₅ _).bind ?_
  intro _ rest _ _
  exact .pure ⟨rfl, rfl⟩

end Clauses

lemma terminated_extends (ht : Ended t) {m n : ℕ} (phrase : Bool → Phrase) (tokens : List Token)
    {h : (terminator tokens).rest.length < m} {h' : (terminator (tokens ++ t)).rest.length < n} :
    Extends t ⟨phrase (terminator tokens).value, (terminator tokens).rest, h⟩
      ⟨phrase (terminator (tokens ++ t)).value, (terminator (tokens ++ t)).rest, h'⟩ := by
  obtain ⟨hvalue, hrest⟩ := terminator_extends ht tokens
  exact ⟨congrArg phrase hvalue, hrest⟩

mutual

theorem primary_continues (ht : Ended t) : ∀ tokens : List Token,
    ContinuesOption t (primary tokens) (primary (tokens ++ t))
  | [] => by
    rcases ht.nil_or_cons with rfl | ⟨place, more, rfl⟩
    · rw [List.append_nil, primary]
      exact .pure .none
    · unfold primary
      exact .pure .none
  | ⟨kind, place⟩ :: rest => by
    rw [List.cons_append]
    unfold primary
    cases kind with
    | keyword k =>
      cases k with
      | library =>
        refine (libraryClause_continues ht rest).bind ?_
        exact fun _ _ _ _ => .pure (.some ⟨rfl, rfl⟩)
      | use_ =>
        refine (useClause_continues ht rest).bind ?_
        exact fun _ _ _ _ => .pure (.some ⟨rfl, rfl⟩)
      | if_ =>
        refine (ifStatement_continues ht rest).bind ?_
        exact fun _ _ _ _ => .pure (.some ⟨rfl, rfl⟩)
      | entity =>
        refine (entity_continues ht rest).bind ?_
        exact fun _ _ _ _ => .pure (.some ⟨rfl, rfl⟩)
      | architecture =>
        refine (architecture_continues ht rest).bind ?_
        exact fun _ _ _ _ => .pure (.some ⟨rfl, rfl⟩)
      | process =>
        refine (process_continues ht rest).bind ?_
        exact fun _ _ _ _ => .pure (.some ⟨rfl, rfl⟩)
      | signal =>
        refine (signalDeclaration_continues ht (_ :: rest)).bind ?_
        exact fun _ _ _ _ => .pure (.some ⟨rfl, rfl⟩)
      | _ => exact .pure .none
    | paren p =>
      cases p with
      | opening =>
        refine (parenthesized_continues ht rest).bind ?_
        exact fun _ _ _ _ => .pure (.some ⟨rfl, rfl⟩)
      | closing => exact .pure .none
    | operator operator =>
      refine (unary_continues ht operator rest).bind ?_
      exact fun _ _ _ _ => .pure (.some ⟨rfl, rfl⟩)
    | identifier | number => exact .pure (.some ⟨rfl, rfl⟩)
    | punctuation p =>
      cases p with
      | apostrophe =>
        refine (bit_continues ht rest).bind ?_
        exact fun _ _ _ _ => .pure (.some ⟨rfl, rfl⟩)
      | _ => exact .pure .none
    | endOfInput => exact .pure .none
termination_by tokens => 4 * tokens.length

theorem unary_continues (ht : Ended t) (operator : Operator) (tokens : List Token) :
    Continues t (unary operator tokens) (unary operator (tokens ++ t)) := by
  rw [unary, unary]
  refine (primary_continues ht tokens).bind ?_ ?_
  · exact .throw (unexpected_append _ _ tokens)
  intro operand rest _ _
  exact .pure (terminated_extends ht (Phrase.unary operator operand) rest)
termination_by 4 * tokens.length + 1

theorem parenthesized_continues (ht : Ended t) (tokens : List Token) :
    Continues t (parenthesized tokens) (parenthesized (tokens ++ t)) := by
  rw [parenthesized, parenthesized]
  refine (expression_continues ht tokens).bind ?_ ?_
  · exact .throw (unexpected_append _ _ tokens)
  intro inner rest₁ _ _
  refine (paren_continues ht _ rest₁ _).bind ?_
  intro _ rest _ _
  exact .pure ⟨rfl, rfl⟩
termination_by 4 * tokens.length + 2

theorem expression_continues (ht : Ended t) (tokens : List Token) :
    ContinuesOption t (expression tokens) (expression (tokens ++ t)) := by
  rw [expression, expression]
  refine (primary_continues ht tokens).bind (.pure .none) ?_
  intro left rest₁ _ _
  dsimp only
  split_ifs
  · exact .pure (.some ⟨rfl, rfl⟩)
  obtain ⟨h, h'⟩ | ⟨operator, rest₂, _, _, h, h'⟩ := (operator?_extends ht rest₁).none_or_some
  · rw [h, h']
    exact .pure (.some ⟨rfl, rfl⟩)
  rw [h, h']
  dsimp only
  split_ifs
  · refine (conditional_continues ht rest₂).bind ?_ ?_
    · exact .throw (unexpected_append _ _ rest₂)
    intro right rest₃ _ _
    exact .pure (.some (terminated_extends ht (Phrase.binary left operator right) rest₃))
  · refine (expression_continues ht rest₂).bind ?_ ?_
    · exact .throw (unexpected_append _ _ rest₂)
    intro right rest₃ _ _
    exact .pure (.some (terminated_extends ht (Phrase.binary left operator right) rest₃))
termination_by 4 * tokens.length + 1

theorem conditional_continues (ht : Ended t) (tokens : List Token) :
    ContinuesOption t (conditional tokens) (conditional (tokens ++ t)) := by
  rw [conditional, conditional]
  refine (expression_continues ht tokens).bind (.pure .none) ?_
  intro first rest₁ _ _
  dsimp only
  obtain ⟨h, h'⟩ | ⟨_, rest₂, _, _, h, h'⟩ := (keyword?_extends ht rest₁ .when_).none_or_some
  · rw [h, h']
    exact .pure (.some ⟨rfl, rfl⟩)
  rw [h, h']
  refine (choice_continues ht first rest₂).bind ?_
  intro ⟨branches, fallback⟩ rest₃ _ _
  dsimp only
  cases fallback.withoutTerminator? with
  | some fallback => exact .pure (.some ⟨rfl, rfl⟩)
  | none =>
    refine (mark_continues ht _ rest₃ _).bind ?_
    intro _ rest _ _
    exact .pure (.some ⟨rfl, rfl⟩)
termination_by 4 * tokens.length + 2

theorem choice_continues (ht : Ended t) (value : Phrase) (tokens : List Token) :
    Continues t (choice value tokens) (choice value (tokens ++ t)) := by
  rw [choice, choice]
  refine (expression_continues ht tokens).bind ?_ ?_
  · exact .throw (unexpected_append _ _ tokens)
  intro condition rest₁ _ _
  refine (keyword_continues ht _ rest₁ _).bind ?_
  intro _ rest₂ _ _
  refine (expression_continues ht rest₂).bind ?_ ?_
  · exact .throw (unexpected_append _ _ rest₂)
  intro next rest₃ _ _
  dsimp only
  obtain ⟨h, h'⟩ | ⟨_, rest₄, _, _, h, h'⟩ := (keyword?_extends ht rest₃ .when_).none_or_some
  · rw [h, h']
    exact .pure ⟨rfl, rfl⟩
  rw [h, h']
  refine (choice_continues ht next rest₄).bind ?_
  intro ⟨branches, fallback⟩ rest _ _
  exact .pure ⟨rfl, rfl⟩
termination_by 4 * tokens.length + 2

theorem statements_continues (ht : Ended t) (tokens : List Token) :
    Continues t (statements tokens) (statements (tokens ++ t)) := by
  rw [statements, statements]
  refine (expression_continues ht tokens).bind (.pure ⟨rfl, rfl⟩) ?_
  intro first rest₁ _ _
  refine (statements_continues ht rest₁).bind ?_
  intro others rest _ _
  exact .pure ⟨rfl, rfl⟩
termination_by 4 * tokens.length + 2

theorem ifStatement_continues (ht : Ended t) (tokens : List Token) :
    Continues t (ifStatement tokens) (ifStatement (tokens ++ t)) := by
  rw [ifStatement, ifStatement]
  refine (expression_continues ht tokens).bind ?_ ?_
  · exact .throw (unexpected_append _ _ tokens)
  intro condition rest₁ _ _
  refine (keyword_continues ht _ rest₁ _).bind ?_
  intro _ rest₂ _ _
  refine (statements_continues ht rest₂).bind ?_
  intro thenBody rest₃ _ _
  dsimp only
  obtain ⟨h, h'⟩ | ⟨_, rest₄, _, _, h, h'⟩ := (keyword?_extends ht rest₃ .else_).none_or_some
  · rw [h, h']
    dsimp only
    obtain ⟨h, h'⟩ | ⟨_, _, _, _, h, h'⟩ := (keyword?_extends ht rest₃ .end_).none_or_some
    · rw [h, h']
      exact .throw (unexpected_append _ _ rest₃)
    · rw [h, h']
      refine (endIf_continues ht _ rest₃).bind ?_
      intro _ rest _ _
      exact .pure ⟨rfl, rfl⟩
  · rw [h, h']
    refine (statements_continues ht rest₄).bind ?_
    intro elseBody rest₅ _ _
    refine (endIf_continues ht _ rest₅).bind ?_
    intro _ rest _ _
    exact .pure ⟨rfl, rfl⟩
termination_by 4 * tokens.length + 3

theorem process_continues (ht : Ended t) (tokens : List Token) :
    Continues t (process tokens) (process (tokens ++ t)) := by
  rw [process, process]
  refine (sensitivity_continues ht tokens).bind ?_
  intro names rest₁ _ _
  refine (statements_continues ht rest₁).bind ?_
  intro body rest₂ _ _
  refine (endProcess_continues ht rest₂).bind ?_
  intro _ rest _ _
  exact .pure ⟨rfl, rfl⟩
termination_by 4 * tokens.length + 3

theorem architecture_continues (ht : Ended t) (tokens : List Token) :
    Continues t (architecture tokens) (architecture (tokens ++ t)) := by
  rw [architecture, architecture]
  refine (heading_continues ht tokens).bind ?_
  intro heading rest₁ _ _
  refine (statements_continues ht rest₁).bind ?_
  intro body rest₂ _ _
  refine (endClause_continues ht _ rest₂ _ heading.name).bind ?_
  intro ending rest _ _
  exact .pure ⟨rfl, rfl⟩
termination_by 4 * tokens.length + 3

end

end Parser

/-- Parsing goes on alike if tokens that start with the end of the input are put behind. -/
theorem parse_append {t : List Token} (ht : Ended t) (tokens : List Token) :
    parse (tokens ++ t) =
      match parse tokens with
      | .ok file => .ok ⟨file.phrases, file.trailing ++ t⟩
      | .error c => .error (c.before t) := by
  have hstatements := Parser.statements_continues ht tokens
  unfold parse
  cases h : Parser.statements tokens with
  | error c =>
    rw [h] at hstatements
    rw [hstatements.of_error]
    rfl
  | ok r =>
    rw [h] at hstatements
    obtain ⟨_, hextended⟩ := hstatements.of_ok
    rw [hextended]
    rfl

end VhdlGates
