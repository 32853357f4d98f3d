import VhdlGates.Phrase.Written
import VhdlGates.Proofs.Phrase.Reads

/-! Declarations and clauses are read off exactly the tokens they are written with, and what is
written is read back. -/
namespace VhdlGates

open Decimal (Binary64)

/-- A token of the kind `found` may stand where `kind` is written: the two are the same and not the
end of the input, or they are zeros of any sign. -/
inductive TokenKind.Matches : TokenKind → TokenKind → Prop
  | same {kind : TokenKind} (h : kind ≠ .endOfInput) : Matches kind kind
  | zero {x y : Binary64} (hx : x.isZero) (hy : y.isZero) : Matches (.number x) (.number y)

/-- The tokens in front of `rest` match what is written. -/
abbrev Matched : List TokenKind → List Token → List Token → Prop := Reads TokenKind.Matches

/-- The tokens in front of `rest` are exactly what is written. -/
abbrev Spelled : List TokenKind → List Token → List Token → Prop := Reads Eq

lemma namesWritten_cons (name : String) {names : List String} (h : names ≠ []) :
    namesWritten (name :: names) =
      .identifier name :: .punctuation .comma :: namesWritten names := by
  obtain ⟨next, more, rfl⟩ := List.exists_cons_of_ne_nil h
  rfl

lemma PortDeclaration.allWritten_cons (d : PortDeclaration) (ds : List PortDeclaration) :
    allWritten (d :: ds) =
      d.written ++ ds.flatMap fun d => .punctuation .semicolon :: d.written := by
  induction ds generalizing d with
  | nil => simp [allWritten]
  | cons next rest ih =>
    rw [allWritten, ih next]
    simp

lemma Phrase.bodyWritten_eq_flatMap (phrases : List Phrase) :
    bodyWritten phrases = phrases.flatMap written := by
  induction phrases with
  | nil => rw [bodyWritten]; rfl
  | cons p rest ih => rw [bodyWritten, List.flatMap_cons, ih]

namespace Parser

section Soundness

variable (construct : Construct) (tokens : List Token)

lemma matched_token {kind : TokenKind} {position : Position} {rest : List Token}
    (h : kind ≠ .endOfInput) : Matched [kind] (⟨kind, position⟩ :: rest) rest :=
  Reads.single (.same h)

lemma expect_sound {kind : TokenKind} (h : kind ≠ .endOfInput) :
    Ensures (expect construct kind tokens) fun r => Matched [kind] tokens r.rest := by
  cases tokens with
  | nil => exact .throw _
  | cons token rest =>
    rw [expect]
    split_ifs with hk
    · refine .pure (Reads.single ?_)
      rw [hk]
      exact .same h
    · exact .throw _

lemma keyword_sound (k : Keyword) :
    Ensures (keyword construct k tokens) fun r => Matched [.keyword k] tokens r.rest :=
  expect_sound construct tokens (by simp)

lemma mark_sound (p : Punctuation) :
    Ensures (mark construct p tokens) fun r => Matched [.punctuation p] tokens r.rest :=
  expect_sound construct tokens (by simp)

lemma paren_sound (p : Paren) :
    Ensures (paren construct p tokens) fun r => Matched [.paren p] tokens r.rest :=
  expect_sound construct tokens (by simp)

lemma identifier_sound :
    Ensures (identifier construct tokens) fun r => Matched [.identifier r.value] tokens r.rest := by
  unfold identifier
  split
  · exact .pure (matched_token (by simp))
  · exact .throw _

lemma terminator_sound :
    Matched (terminatorWritten (terminator tokens).value) tokens (terminator tokens).rest := by
  unfold terminator
  split
  · exact matched_token (by simp)
  · exact .nil tokens

lemma keyword?_sound {k : Keyword} {r : Reading Token Unit tokens.length}
    (h : keyword? k tokens = some r) : Matched [.keyword k] tokens r.rest := by
  cases tokens with
  | nil => simp [keyword?] at h
  | cons token rest =>
    rw [keyword?] at h
    split_ifs at h with hk
    obtain rfl := Option.some.inj h
    refine Reads.single ?_
    rw [hk]
    exact .same (by simp)

lemma operator?_sound {r : Reading Token Operator tokens.length}
    (h : operator? tokens = some r) : Matched [.operator r.value] tokens r.rest := by
  unfold operator? at h
  split at h
  · obtain rfl := Option.some.inj h
    exact matched_token (by simp)
  · simp at h

lemma names_ne_nil {tokens : List Token} (h : startsWithName tokens) :
    (names tokens).value ≠ [] := by
  unfold startsWithName at h
  split at h
  · unfold names
    grind
  · simp at h

lemma names_sound :
    Matched (namesWritten (names tokens).value) tokens (names tokens).rest := by
  fun_induction names tokens with
  | case1 name place place' rest hstarts more after h heq ih =>
    have hne := names_ne_nil hstarts
    rw [heq] at hne ih
    rw [namesWritten_cons name hne]
    exact .cons (.same (by simp)) (.cons (.same (by simp)) ih)
  | case2 => exact matched_token (by simp)
  | case3 => exact matched_token (by simp)
  | case4 tokens => exact .nil tokens

lemma someNames_sound (missing : Expectation) :
    Ensures (someNames construct missing tokens) fun r =>
      Matched (namesWritten r.value) tokens r.rest := by
  dsimp only [someNames]
  split_ifs
  · exact .throw _
  · exact .pure (names_sound tokens)

lemma bit_sound :
    Ensures (bit tokens) fun r =>
      Matched (Literal.written (.bit r.value)).tail tokens r.rest := by
  unfold bit
  split
  · split_ifs with hvalue
    · refine (mark_sound _ _ _).bind ?_
      intro ⟨_, rest, _⟩ h
      refine .pure (.cons ?_ h)
      -- a zero of either sign is written as the positive one
      cases hone : Binary64.isOne _ with
      | true =>
        rw [if_pos rfl, eq_of_beq hone]
        exact .same (by simp)
      | false =>
        rw [hone, Bool.or_false] at hvalue
        exact .zero rfl hvalue
    · exact .throw _
  · exact .throw _

lemma signalDeclaration_sound :
    Ensures (signalDeclaration tokens) fun r => Matched r.value.written tokens r.rest := by
  refine (keyword_sound _ tokens _).bind ?_
  intro ⟨_, rest₁, _⟩ h₁
  refine (someNames_sound _ rest₁ _).bind ?_
  intro ⟨names, rest₂, _⟩ h₂
  refine (mark_sound _ rest₂ _).bind ?_
  intro ⟨_, rest₃, _⟩ h₃
  refine (identifier_sound _ rest₃).bind ?_
  intro ⟨typeName, rest₄, _⟩ h₄
  refine (mark_sound _ rest₄ _).bind ?_
  intro ⟨_, rest, _⟩ h₅
  exact .pure ((h₁.append h₂).append (h₃.append (h₄.append h₅)))

lemma moreSignals_sound :
    Matched (SignalDeclaration.allWritten (moreSignals tokens).value) tokens
      (moreSignals tokens).rest := by
  fun_induction moreSignals tokens with
  | case1 tokens => exact .nil tokens
  | case2 tokens first rest h hfirst others after h' hothers ih =>
    rw [hothers] at ih
    exact (signalDeclaration_sound tokens _ hfirst).append ih

lemma signalDeclarations_sound :
    Ensures (signalDeclarations tokens) fun r =>
      Matched (SignalDeclaration.allWritten r.value) tokens r.rest := by
  unfold signalDeclarations
  split_ifs
  · exact .pure (.nil tokens)
  · refine (signalDeclaration_sound tokens).bind ?_
    intro ⟨first, rest₁, _⟩ h₁
    have h₂ := moreSignals_sound rest₁
    exact .pure (h₁.append h₂)

lemma direction_sound :
    Ensures (direction tokens) fun r => Matched [.keyword r.value.keyword] tokens r.rest := by
  unfold direction
  split
  · exact .pure (matched_token (by simp))
  · exact .pure (matched_token (by simp))
  · exact .throw _

lemma portDeclaration_sound :
    Ensures (portDeclaration tokens) fun r => Matched r.value.written tokens r.rest := by
  refine (someNames_sound _ tokens _).bind ?_
  intro ⟨names, rest₁, _⟩ h₁
  refine (mark_sound _ rest₁ _).bind ?_
  intro ⟨_, rest₂, _⟩ h₂
  refine (direction_sound rest₂).bind ?_
  intro ⟨direction, rest₃, _⟩ h₃
  refine (identifier_sound _ rest₃).bind ?_
  intro ⟨typeName, rest, _⟩ h₄
  exact .pure (h₁.append (h₂.append (h₃.append h₄)))

lemma morePorts_sound :
    Matched ((morePorts tokens).value.flatMap fun d => .punctuation .semicolon :: d.written) tokens
      (morePorts tokens).rest := by
  fun_induction morePorts tokens with
  | case1 place rest => exact .nil _
  | case2 place rest next after h hnext others after' h' hothers ih =>
    rw [hothers] at ih
    exact .cons (.same (by simp)) ((portDeclaration_sound rest _ hnext).append ih)
  | case3 tokens => exact .nil tokens

lemma closingLabel_sound (name : String) :
    Ensures (closingLabel construct name tokens) fun r =>
      Matched (r.value.toList.map .identifier) tokens r.rest := by
  unfold closingLabel
  split
  · split_ifs
    · exact .pure (matched_token (by simp))
    · exact .throw _
  · exact .pure (.nil tokens)

lemma repetition_sound (k : Keyword) :
    Matched (if (repetition k tokens).value then [.keyword k] else []) tokens
      (repetition k tokens).rest := by
  unfold repetition
  split
  next h => exact keyword?_sound tokens h
  next => exact .nil tokens

lemma endClause_sound (k : Keyword) (name : String) :
    Ensures (endClause construct k name tokens) fun r =>
      Matched (r.value.written k) tokens r.rest := by
  refine (keyword_sound _ tokens _).bind ?_
  intro ⟨_, rest₁, _⟩ h₁
  have h₂ := repetition_sound rest₁ k
  refine (closingLabel_sound _ _ name).bind ?_
  intro ⟨label, rest₃, _⟩ h₃
  refine (mark_sound _ rest₃ _).bind ?_
  intro ⟨_, rest, _⟩ h₄
  exact .pure (((h₁.append h₂).append h₃).append h₄)

/-- Readers that start after a keyword are stated with the keyword in front. -/
lemma entity_sound (place : Position) :
    Ensures (entity tokens) fun r =>
      Matched r.value.written (⟨.keyword .entity, place⟩ :: tokens) r.rest := by
  have h₀ : Matched [.keyword .entity] (⟨.keyword .entity, place⟩ :: tokens) tokens :=
    matched_token (by simp)
  refine (identifier_sound _ tokens).bind ?_
  intro ⟨name, rest₁, _⟩ h₁
  refine (keyword_sound _ rest₁ _).bind ?_
  intro ⟨_, rest₂, _⟩ h₂
  refine (keyword_sound _ rest₂ _).bind ?_
  intro ⟨_, rest₃, _⟩ h₃
  refine (paren_sound _ rest₃ _).bind ?_
  intro ⟨_, rest₄, _⟩ h₄
  refine (portDeclaration_sound rest₄).bind ?_
  intro ⟨first, rest₅, _⟩ h₅
  have h₆ := morePorts_sound rest₅
  refine (paren_sound _ _ _).bind ?_
  intro ⟨_, rest₇, _⟩ h₇
  refine (mark_sound _ rest₇ _).bind ?_
  intro ⟨_, rest₈, _⟩ h₈
  refine (endClause_sound _ rest₈ _ name).bind ?_
  intro ⟨ending, rest, _⟩ h₉
  refine .pure ?_
  simp only [Entity.written, PortDeclaration.allWritten_cons]
  have hfront := h₀.append (h₁.append (h₂.append (h₃.append h₄)))
  exact ((hfront.append (h₅.append h₆)).append (h₇.append h₈)).append h₉

lemma libraryClause_sound (place : Position) :
    Ensures (libraryClause tokens) fun r =>
      Matched r.value.written (⟨.keyword .library, place⟩ :: tokens) r.rest := by
  refine (identifier_sound _ tokens).bind ?_
  intro ⟨name, rest₁, _⟩ h₁
  refine (mark_sound _ rest₁ _).bind ?_
  intro ⟨_, rest, _⟩ h₂
  refine .pure ?_
  rw [Phrase.written]
  exact .cons (.same (by simp)) (h₁.append h₂)

lemma useClause_sound (place : Position) :
    Ensures (useClause tokens) fun r =>
      Matched r.value.written (⟨.keyword .use_, place⟩ :: tokens) r.rest := by
  refine (identifier_sound _ tokens).bind ?_
  intro ⟨library, rest₁, _⟩ h₁
  refine (mark_sound _ rest₁ _).bind ?_
  intro ⟨_, rest₂, _⟩ h₂
  refine (identifier_sound _ rest₂).bind ?_
  intro ⟨package, rest₃, _⟩ h₃
  refine (mark_sound _ rest₃ _).bind ?_
  intro ⟨_, rest₄, _⟩ h₄
  refine (identifier_sound _ rest₄).bind ?_
  intro ⟨item, rest₅, _⟩ h₅
  refine (mark_sound _ rest₅ _).bind ?_
  intro ⟨_, rest, _⟩ h₆
  refine .pure ?_
  rw [Phrase.written]
  exact .cons (.same (by simp)) (h₁.append (h₂.append (h₃.append (h₄.append (h₅.append h₆)))))

lemma endIf_sound :
    Ensures (endIf construct tokens) fun r =>
      Matched [.keyword .end_, .keyword .if_, .punctuation .semicolon] tokens r.rest := by
  refine (keyword_sound _ tokens _).bind ?_
  intro ⟨_, rest₁, _⟩ h₁
  refine (keyword_sound _ rest₁ _).bind ?_
  intro ⟨_, rest₂, _⟩ h₂
  refine (mark_sound _ rest₂ _).bind ?_
  intro ⟨_, rest, _⟩ h₃
  exact .pure (h₁.append (h₂.append h₃))

lemma endProcess_sound :
    Ensures (endProcess tokens) fun r =>
      Matched [.keyword .end_, .keyword .process, .punctuation .semicolon] tokens r.rest := by
  refine (keyword_sound _ tokens _).bind ?_
  intro ⟨_, rest₁, _⟩ h₁
  refine (keyword_sound _ rest₁ _).bind ?_
  intro ⟨_, rest₂, _⟩ h₂
  refine (mark_sound _ rest₂ _).bind ?_
  intro ⟨_, rest, _⟩ h₃
  exact .pure (h₁.append (h₂.append h₃))

lemma sensitivity_sound :
    Ensures (sensitivity tokens) fun r =>
      Matched ([.paren .opening] ++ namesWritten r.value ++ [.paren .closing, .keyword .begin_])
        tokens r.rest := by
  refine (paren_sound _ tokens _).bind ?_
  intro ⟨_, rest₁, _⟩ h₁
  have h₂ := names_sound rest₁
  refine (paren_sound _ _ _).bind ?_
  intro ⟨_, rest₃, _⟩ h₃
  refine (keyword_sound _ rest₃ _).bind ?_
  intro ⟨_, rest, _⟩ h₄
  exact .pure ((h₁.append h₂).append (h₃.append h₄))

lemma heading_sound :
    Ensures (heading tokens) fun r =>
      Matched ([.identifier r.value.name, .keyword .of_, .identifier r.value.entityName,
          .keyword .is_] ++ SignalDeclaration.allWritten r.value.signals ++ [.keyword .begin_])
        tokens r.rest := by
  refine (identifier_sound _ tokens).bind ?_
  intro ⟨name, rest₁, _⟩ h₁
  refine (keyword_sound _ rest₁ _).bind ?_
  intro ⟨_, rest₂, _⟩ h₂
  refine (identifier_sound _ rest₂).bind ?_
  intro ⟨entityName, rest₃, _⟩ h₃
  refine (keyword_sound _ rest₃ _).bind ?_
  intro ⟨_, rest₄, _⟩ h₄
  refine (signalDeclarations_sound rest₄).bind ?_
  intro ⟨signals, rest₅, _⟩ h₅
  refine (keyword_sound _ rest₅ _).bind ?_
  intro ⟨_, rest, _⟩ h₆
  exact .pure (((h₁.append (h₂.append (h₃.append h₄))).append h₅).append h₆)

end Soundness

section Completeness

variable {construct : Construct} {tokens rest : List Token}

lemma spelled_cons {kind : TokenKind} {kinds : List TokenKind}
    (h : Spelled (kind :: kinds) tokens rest) :
    ∃ place after, tokens = ⟨kind, place⟩ :: after ∧ Spelled kinds after rest := by
  obtain ⟨⟨kind', place⟩, after, rfl, rfl, hafter⟩ := Reads.cons_iff.mp h
  exact ⟨place, after, rfl, hafter⟩

lemma spelled_token {kind : TokenKind} (h : Spelled [kind] tokens rest) :
    ∃ place, tokens = ⟨kind, place⟩ :: rest := by
  obtain ⟨place, after, rfl, hafter⟩ := spelled_cons h
  obtain rfl := Reads.nil_iff.mp hafter
  exact ⟨place, rfl⟩

lemma expect_complete {kind : TokenKind} (h : Spelled [kind] tokens rest) :
    Gives (expect construct kind tokens) () rest := by
  obtain ⟨place, rfl⟩ := spelled_token h
  rw [expect, if_pos rfl]
  exact .pure _

lemma keyword_complete {k : Keyword} (h : Spelled [.keyword k] tokens rest) :
    Gives (keyword construct k tokens) () rest := expect_complete h

lemma mark_complete {p : Punctuation} (h : Spelled [.punctuation p] tokens rest) :
    Gives (mark construct p tokens) () rest := expect_complete h

lemma paren_complete {p : Paren} (h : Spelled [.paren p] tokens rest) :
    Gives (paren construct p tokens) () rest := expect_complete h

lemma expect_error {kind : TokenKind} (h : Ahead (· ≠ kind) tokens) :
    ∃ c, expect construct kind tokens = .error c := by
  cases tokens with
  | nil => exact ⟨_, rfl⟩
  | cons token after =>
    have hkind : token.kind ≠ kind := h token rfl
    rw [expect, if_neg hkind]
    exact ⟨_, rfl⟩

lemma identifier_complete {name : String} (h : Spelled [.identifier name] tokens rest) :
    Gives (identifier construct tokens) name rest := by
  obtain ⟨place, rfl⟩ := spelled_token h
  exact .pure _

lemma terminator_complete {terminated : Bool} (h : Spelled (terminatorWritten terminated) tokens rest)
    (hrest : Ahead (· ≠ .punctuation .semicolon) rest) :
    ∃ h, terminator tokens = ⟨terminated, rest, h⟩ := by
  cases terminated with
  | true =>
    obtain ⟨place, rfl⟩ := spelled_token h
    exact ⟨_, rfl⟩
  | false =>
    obtain rfl := Reads.nil_iff.mp h
    refine ⟨Nat.lt_succ_self _, ?_⟩
    unfold terminator
    split
    · simp [Ahead] at hrest
    · rfl

lemma keyword?_some {k : Keyword} (h : Spelled [.keyword k] tokens rest) :
    ∃ h, keyword? k tokens = some ⟨(), rest, h⟩ := by
  obtain ⟨place, rfl⟩ := spelled_token h
  rw [keyword?, if_pos rfl]
  exact ⟨_, rfl⟩

lemma keyword?_none {k : Keyword} (h : Ahead (· ≠ .keyword k) tokens) :
    keyword? k tokens = none := by
  cases tokens with
  | nil => rfl
  | cons token after =>
    have hkind : token.kind ≠ .keyword k := h token rfl
    rw [keyword?, if_neg hkind]

lemma operator?_some {operator : Operator} (h : Spelled [.operator operator] tokens rest) :
    ∃ h, operator? tokens = some ⟨operator, rest, h⟩ := by
  obtain ⟨place, rfl⟩ := spelled_token h
  exact ⟨_, rfl⟩

lemma operator?_none (h : Ahead (∀ operator, · ≠ .operator operator) tokens) :
    operator? tokens = none := by
  unfold operator?
  split
  · simp [Ahead] at h
  · rfl

/-- Neither a name nor a comma, so that a list of names ends before it. -/
def EndsNames (kind : TokenKind) : Prop :=
  kind ≠ .punctuation .comma ∧ ∀ name, kind ≠ .identifier name

lemma names_complete {list : List String} (h : Spelled (namesWritten list) tokens rest)
    (hrest : Ahead EndsNames rest) : ∃ h, names tokens = ⟨list, rest, h⟩ := by
  induction list generalizing tokens with
  | nil =>
    obtain rfl := Reads.nil_iff.mp h
    refine ⟨Nat.lt_succ_self _, ?_⟩
    unfold names
    split
    · simp [Ahead, EndsNames] at hrest
    · simp [Ahead, EndsNames] at hrest
    · rfl
  | cons name more ih =>
    cases more with
    | nil =>
      obtain ⟨place, rfl⟩ := spelled_token h
      rw [names]
      · exact ⟨_, rfl⟩
      · rintro place' after rfl
        simp [Ahead, EndsNames] at hrest
    | cons next more =>
      rw [namesWritten_cons name (List.cons_ne_nil _ _)] at h
      obtain ⟨middle, h₁, h⟩ := h.uncons
      obtain ⟨middle', h₂, h₃⟩ := h.uncons
      obtain ⟨place, rfl⟩ := spelled_token h₁
      obtain ⟨place', rfl⟩ := spelled_token h₂
      have hstarts : startsWithName middle' = true := by
        cases more <;> obtain ⟨⟨_, _⟩, after, rfl, rfl, -⟩ := Reads.cons_iff.mp h₃ <;> rfl
      obtain ⟨hlt, hnames⟩ := ih h₃
      rw [names, if_pos hstarts, hnames]
      exact ⟨_, rfl⟩

lemma someNames_complete {missing : Expectation} {list : List String} (hlist : list ≠ [])
    (h : Spelled (namesWritten list) tokens rest) (hrest : Ahead EndsNames rest) :
    Gives (someNames construct missing tokens) list rest := by
  obtain ⟨hlt, hnames⟩ := names_complete h hrest
  simp only [someNames, hnames, List.isEmpty_iff, if_neg hlist]
  exact .pure hlt

lemma bit_complete {value : Bool} (h : Spelled (Literal.written (.bit value)).tail tokens rest) :
    Gives (bit tokens) value rest := by
  obtain ⟨place, middle, rfl, h₂⟩ := spelled_cons h
  cases value with
  | true =>
    have hone : Binary64.one.isOne = true := by decide
    simp only [bit, if_true, hone, Bool.or_true]
    exact (mark_complete h₂).bind fun _ => .pure _
  | false =>
    have hone : (Binary64.zero false).isOne = false := by decide
    have hzero : (Binary64.zero false).isZero = true := rfl
    simp only [bit, Bool.false_eq_true, if_false, hone, hzero, Bool.or_false, if_true]
    exact (mark_complete h₂).bind fun _ => .pure _

lemma signalDeclaration_complete {d : SignalDeclaration} (hd : d.names ≠ [])
    (h : Spelled d.written tokens rest) : Gives (signalDeclaration tokens) d rest := by
  obtain ⟨rest₂, h, hmore⟩ := Reads.append_iff.mp h
  obtain ⟨rest₁, h₁, h₂⟩ := Reads.append_iff.mp h
  obtain ⟨rest₃, h₃, hmore⟩ := hmore.uncons
  obtain ⟨rest₄, h₄, h₅⟩ := hmore.uncons
  apply (keyword_complete h₁).bind
  intro _
  apply (someNames_complete hd h₂ (h₃.ahead (by simp [EndsNames]))).bind
  intro _
  apply (mark_complete h₃).bind
  intro _
  apply (identifier_complete h₄).bind
  intro _
  exact (mark_complete h₅).bind fun _ => .pure _

lemma signalDeclaration_error (h : Ahead (· ≠ .keyword .signal) tokens) :
    ∃ c, signalDeclaration tokens = .error c := by
  obtain ⟨c, hc⟩ : ∃ c, keyword .signal .signal tokens = .error c := expect_error h
  rw [signalDeclaration, hc]
  exact ⟨c, rfl⟩

lemma moreSignals_complete {ds : List SignalDeclaration} (hds : ∀ d ∈ ds, d.names ≠ [])
    (h : Spelled (SignalDeclaration.allWritten ds) tokens rest)
    (hrest : Ahead (· ≠ .keyword .signal) rest) :
    ∃ h, moreSignals tokens = ⟨ds, rest, h⟩ := by
  induction ds generalizing tokens with
  | nil =>
    obtain rfl := Reads.nil_iff.mp h
    obtain ⟨c, hc⟩ := signalDeclaration_error hrest
    rw [moreSignals, hc]
    exact ⟨_, rfl⟩
  | cons d ds ih =>
    obtain ⟨hd, hds⟩ := List.forall_mem_cons.mp hds
    obtain ⟨middle, h₁, h₂⟩ := Reads.append_iff.mp h
    obtain ⟨_, hfirst⟩ := signalDeclaration_complete hd h₁
    obtain ⟨_, hothers⟩ := ih hds h₂
    rw [moreSignals, hfirst]
    dsimp only
    rw [hothers]
    exact ⟨_, rfl⟩

lemma signalDeclarations_complete {ds : List SignalDeclaration} {after : List Token}
    (hds : ∀ d ∈ ds, d.names ≠ []) (h : Spelled (SignalDeclaration.allWritten ds) tokens rest)
    (hrest : Spelled [.keyword .begin_] rest after) :
    Gives (signalDeclarations tokens) ds rest := by
  cases ds with
  | nil =>
    obtain rfl := Reads.nil_iff.mp h
    obtain ⟨_, hbegin⟩ := keyword?_some hrest
    rw [signalDeclarations, hbegin]
    exact .pure _
  | cons d ds =>
    obtain ⟨hd, hds⟩ := List.forall_mem_cons.mp hds
    obtain ⟨middle, h₁, h₂⟩ := Reads.append_iff.mp h
    have hbegin : keyword? .begin_ tokens = none := keyword?_none (h₁.ahead (by simp))
    obtain ⟨_, hothers⟩ := moreSignals_complete hds h₂ (hrest.ahead (by simp))
    rw [signalDeclarations, hbegin]
    apply (signalDeclaration_complete hd h₁).bind
    intro _
    dsimp only
    rw [hothers]
    exact .pure _

lemma direction_complete {d : Direction} (h : Spelled [.keyword d.keyword] tokens rest) :
    Gives (direction tokens) d rest := by
  obtain ⟨place, rfl⟩ := spelled_token h
  cases d <;> exact .pure _

lemma portDeclaration_complete {d : PortDeclaration} (hd : d.names ≠ [])
    (h : Spelled d.written tokens rest) : Gives (portDeclaration tokens) d rest := by
  obtain ⟨rest₁, h₁, hmore⟩ := Reads.append_iff.mp h
  obtain ⟨rest₂, h₂, hmore⟩ := hmore.uncons
  obtain ⟨rest₃, h₃, h₄⟩ := hmore.uncons
  apply (someNames_complete hd h₁ (h₂.ahead (by simp [EndsNames]))).bind
  intro _
  apply (mark_complete h₂).bind
  intro _
  apply (direction_complete h₃).bind
  intro _
  exact (identifier_complete h₄).bind fun _ => .pure _

lemma morePorts_complete {ds : List PortDeclaration} (hds : ∀ d ∈ ds, d.names ≠ [])
    (h : Spelled (ds.flatMap fun d => .punctuation .semicolon :: d.written) tokens rest)
    (hrest : Ahead (· ≠ .punctuation .semicolon) rest) :
    ∃ h, morePorts tokens = ⟨ds, rest, h⟩ := by
  induction ds generalizing tokens with
  | nil =>
    obtain rfl := Reads.nil_iff.mp h
    refine ⟨Nat.lt_succ_self _, ?_⟩
    unfold morePorts
    split
    · simp [Ahead] at hrest
    · rfl
  | cons d ds ih =>
    obtain ⟨hd, hds⟩ := List.forall_mem_cons.mp hds
    obtain ⟨middle, h₀, h₂⟩ := Reads.append_iff.mp h
    obtain ⟨place, start, rfl, h₁⟩ := spelled_cons h₀
    obtain ⟨_, hnext⟩ := portDeclaration_complete hd h₁
    obtain ⟨_, hothers⟩ := ih hds h₂
    rw [morePorts]
    dsimp only
    rw [hnext]
    dsimp only
    rw [hothers]
    exact ⟨_, rfl⟩

lemma closingLabel_complete {name : String} {label : Option String}
    (hlabel : ∀ l ∈ label, l = name) (h : Spelled (label.toList.map .identifier) tokens rest)
    (hrest : Ahead EndsNames rest) : Gives (closingLabel construct name tokens) label rest := by
  cases label with
  | none =>
    obtain rfl := Reads.nil_iff.mp h
    unfold closingLabel
    split
    · simp [Ahead, EndsNames] at hrest
    · exact .pure _
  | some label =>
    obtain ⟨place, rfl⟩ := spelled_token h
    rw [closingLabel, if_pos (hlabel label rfl)]
    exact .pure _

lemma repetition_complete {k : Keyword} {repeats : Bool}
    (h : Spelled (if repeats then [.keyword k] else []) tokens rest)
    (hrest : Ahead (· ≠ .keyword k) rest) : ∃ h, repetition k tokens = ⟨repeats, rest, h⟩ := by
  cases repeats with
  | true =>
    obtain ⟨_, hk⟩ := keyword?_some h
    rw [repetition, hk]
    exact ⟨_, rfl⟩
  | false =>
    obtain rfl := Reads.nil_iff.mp h
    rw [repetition, keyword?_none hrest]
    exact ⟨_, rfl⟩

lemma endClause_complete {k : Keyword} {name : String} {e : EndClause}
    (he : ∀ l ∈ e.label, l = name) (h : Spelled (e.written k) tokens rest) :
    Gives (endClause construct k name tokens) e rest := by
  obtain ⟨rest₃, h, h₄⟩ := Reads.append_iff.mp h
  obtain ⟨rest₂, h, h₃⟩ := Reads.append_iff.mp h
  obtain ⟨rest₁, h₁, h₂⟩ := Reads.append_iff.mp h
  have hlabel : Ahead (· ≠ .keyword k) rest₂ := by
    cases hl : e.label with
    | none =>
      rw [hl] at h₃
      obtain rfl := Reads.nil_iff.mp h₃
      exact h₄.ahead (by simp)
    | some label =>
      rw [hl] at h₃
      exact h₃.ahead (by simp)
  obtain ⟨_, hrepeats⟩ := repetition_complete h₂ hlabel
  apply (keyword_complete h₁).bind
  intro _
  dsimp only
  rw [hrepeats]
  apply (closingLabel_complete he h₃ (h₄.ahead (by simp [EndsNames]))).bind
  intro _
  exact (mark_complete h₄).bind fun _ => .pure _

lemma entity_complete {e : Entity} {place : Position} (hports : e.ports ≠ [])
    (hnames : ∀ d ∈ e.ports, d.names ≠ []) (hlabel : ∀ l ∈ e.ending.label, l = e.name)
    (h : Spelled e.written (⟨.keyword .entity, place⟩ :: tokens) rest) :
    Gives (entity tokens) e rest := by
  obtain ⟨name, ports, ending⟩ := e
  obtain ⟨first, others, rfl⟩ := List.exists_cons_of_ne_nil hports
  obtain ⟨hfirst, hothers⟩ := List.forall_mem_cons.mp hnames
  rw [Entity.written, PortDeclaration.allWritten_cons] at h
  obtain ⟨rest₈, h, h₉⟩ := Reads.append_iff.mp h
  obtain ⟨rest₆, h, hclosing⟩ := Reads.append_iff.mp h
  obtain ⟨rest₄, hopening, h⟩ := Reads.append_iff.mp h
  obtain ⟨rest₅, h₅, h₆⟩ := Reads.append_iff.mp h
  obtain ⟨rest₇, h₇, h₈⟩ := hclosing.uncons
  cases hopening with
  | cons _ hopening =>
    obtain ⟨rest₁, h₁, hopening⟩ := hopening.uncons
    obtain ⟨rest₂, h₂, hopening⟩ := hopening.uncons
    obtain ⟨rest₃, h₃, h₄⟩ := hopening.uncons
    obtain ⟨_, hmore⟩ := morePorts_complete hothers h₆ (h₇.ahead (by simp))
    apply (identifier_complete h₁).bind
    intro _
    apply (keyword_complete h₂).bind
    intro _
    apply (keyword_complete h₃).bind
    intro _
    apply (paren_complete h₄).bind
    intro _
    apply (portDeclaration_complete hfirst h₅).bind
    intro _
    dsimp only
    rw [hmore]
    apply (paren_complete h₇).bind
    intro _
    apply (mark_complete h₈).bind
    intro _
    exact (endClause_complete hlabel h₉).bind fun _ => .pure _

lemma libraryClause_complete {name : String}
    (h : Spelled [.identifier name, .punctuation .semicolon] tokens rest) :
    Gives (libraryClause tokens) (.libraryClause name) rest := by
  obtain ⟨rest₁, h₁, h₂⟩ := h.uncons
  apply (identifier_complete h₁).bind
  intro _
  exact (mark_complete h₂).bind fun _ => .pure _

lemma useClause_complete {library package item : String}
    (h : Spelled [.identifier library, .punctuation .dot, .identifier package, .punctuation .dot,
      .identifier item, .punctuation .semicolon] tokens rest) :
    Gives (useClause tokens) (.useClause library package item) rest := by
  obtain ⟨rest₁, h₁, h⟩ := h.uncons
  obtain ⟨rest₂, h₂, h⟩ := h.uncons
  obtain ⟨rest₃, h₃, h⟩ := h.uncons
  obtain ⟨rest₄, h₄, h⟩ := h.uncons
  obtain ⟨rest₅, h₅, h₆⟩ := h.uncons
  apply (identifier_complete h₁).bind
  intro _
  apply (mark_complete h₂).bind
  intro _
  apply (identifier_complete h₃).bind
  intro _
  apply (mark_complete h₄).bind
  intro _
  apply (identifier_complete h₅).bind
  intro _
  exact (mark_complete h₆).bind fun _ => .pure _

lemma endIf_complete
    (h : Spelled [.keyword .end_, .keyword .if_, .punctuation .semicolon] tokens rest) :
    Gives (endIf construct tokens) () rest := by
  obtain ⟨rest₁, h₁, h⟩ := h.uncons
  obtain ⟨rest₂, h₂, h₃⟩ := h.uncons
  apply (keyword_complete h₁).bind
  intro _
  apply (keyword_complete h₂).bind
  intro _
  exact (mark_complete h₃).bind fun _ => .pure _

lemma endProcess_complete
    (h : Spelled [.keyword .end_, .keyword .process, .punctuation .semicolon] tokens rest) :
    Gives (endProcess tokens) () rest := by
  obtain ⟨rest₁, h₁, h⟩ := h.uncons
  obtain ⟨rest₂, h₂, h₃⟩ := h.uncons
  apply (keyword_complete h₁).bind
  intro _
  apply (keyword_complete h₂).bind
  intro _
  exact (mark_complete h₃).bind fun _ => .pure _

lemma sensitivity_complete {list : List String}
    (h : Spelled ([.paren .opening] ++ namesWritten list ++ [.paren .closing, .keyword .begin_])
      tokens rest) :
    Gives (sensitivity tokens) list rest := by
  obtain ⟨rest₂, h, hmore⟩ := Reads.append_iff.mp h
  obtain ⟨rest₁, h₁, h₂⟩ := Reads.append_iff.mp h
  obtain ⟨rest₃, h₃, h₄⟩ := hmore.uncons
  obtain ⟨_, hnames⟩ := names_complete h₂ (h₃.ahead (by simp [EndsNames]))
  apply (paren_complete h₁).bind
  intro _
  dsimp only
  rw [hnames]
  apply (paren_complete h₃).bind
  intro _
  exact (keyword_complete h₄).bind fun _ => .pure _

lemma heading_complete {head : Heading} (hsignals : ∀ d ∈ head.signals, d.names ≠ [])
    (h : Spelled ([.identifier head.name, .keyword .of_, .identifier head.entityName,
      .keyword .is_] ++ SignalDeclaration.allWritten head.signals ++ [.keyword .begin_])
      tokens rest) :
    Gives (heading tokens) head rest := by
  obtain ⟨rest₅, h, h₆⟩ := Reads.append_iff.mp h
  obtain ⟨rest₄, h, h₅⟩ := Reads.append_iff.mp h
  obtain ⟨rest₁, h₁, h⟩ := h.uncons
  obtain ⟨rest₂, h₂, h⟩ := h.uncons
  obtain ⟨rest₃, h₃, h₄⟩ := h.uncons
  apply (identifier_complete h₁).bind
  intro _
  apply (keyword_complete h₂).bind
  intro _
  apply (identifier_complete h₃).bind
  intro _
  apply (keyword_complete h₄).bind
  intro _
  apply (signalDeclarations_complete hsignals h₅ h₆).bind
  intro _
  exact (keyword_complete h₆).bind fun _ => .pure _

end Completeness

end Parser

end VhdlGates
