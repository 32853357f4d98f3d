import VhdlGates.Phrase.Parser
import VhdlGates.Proofs.Phrase.Canonical
import VhdlGates.Proofs.Phrase.Clauses

/-! Parsing is complete: the tokens that canonical units are written with are read back as these
units. -/
namespace VhdlGates

/-- The phrase with or without a semicolon at its end. -/
def Phrase.ended (p : Phrase) : Bool → Phrase
  | true => p.closed
  | false => p

lemma Phrase.ended_of_not_isOperation {p : Phrase} (h : p.isOperation = false) (semicolon : Bool) :
    p.ended semicolon = p := by
  cases semicolon with
  | true => exact closed_of_not_isOperation h
  | false => rfl

lemma Phrase.ended_binary (left right : Phrase) (operator : Operator) (semicolon : Bool) :
    (binary left operator right false).ended semicolon =
      binary left operator (right.ended semicolon) (semicolon && !right.isOperation) := by
  cases semicolon with
  | true => exact closed_binary left right operator
  | false => rfl

lemma Phrase.ended_unary (operator : Operator) (operand : Phrase) (semicolon : Bool) :
    (unary operator operand false).ended semicolon =
      unary operator (operand.ended semicolon) (semicolon && !operand.isOperation) := by
  cases semicolon with
  | true => exact closed_unary operator operand
  | false => rfl

lemma Phrase.isTerminated_ended {p : Phrase} (h : p.isTerminated = false) (semicolon : Bool) :
    (p.ended semicolon).isTerminated = (semicolon && p.isOperation) := by
  cases semicolon with
  | true => rw [ended, isTerminated_closed h, Bool.true_and]
  | false => exact h

namespace Parser

open Phrase (IsPrimary IsValue IsStatement IsUnit)

variable {tokens rest : List Token}

lemma spelled_open {kinds : List TokenKind} (h : Spelled kinds tokens rest) :
    Spelled (kinds ++ terminatorWritten false) tokens rest := by
  simpa [terminatorWritten] using h

/-- An operation is read from the readings of its parts. -/
lemma expression_operation {left right : Phrase} {operator : Operator} {terminated : Bool}
    {rest₁ rest₂ rest₃ : List Token} {h₂ : rest₂.length < rest₁.length}
    {h₄ : rest.length < rest₃.length + 1} (hopen : ¬left.isTerminated)
    (hleft : Finds (primary tokens) left rest₁)
    (hoperator : operator? rest₁ = some ⟨operator, rest₂, h₂⟩)
    (hright : Finds (if operator.isAssignment then conditional rest₂ else expression rest₂)
      right rest₃)
    (hterminator : terminator rest₃ = ⟨terminated, rest, h₄⟩) :
    Finds (expression tokens) (.binary left operator right terminated) rest := by
  rw [expression]
  apply hleft.bind
  intro _
  dsimp only
  rw [if_neg hopen, hoperator]
  dsimp only
  split_ifs at hright ⊢
  · apply hright.bind
    intro _
    dsimp only
    rw [hterminator]
    exact .pure _
  · apply hright.bind
    intro _
    dsimp only
    rw [hterminator]
    exact .pure _

lemma expression_binary {left right : Phrase} {operator : Operator} {terminated : Bool}
    {rest₁ rest₂ rest₃ : List Token} (hopen : left.isTerminated = false)
    (hleft : Finds (primary tokens) left rest₁) (hoperator : Spelled [.operator operator] rest₁ rest₂)
    (hright : Finds (if operator.isAssignment then conditional rest₂ else expression rest₂)
      right rest₃)
    (hterminated : Spelled (terminatorWritten terminated) rest₃ rest)
    (hrest : Ahead (· ≠ .punctuation .semicolon) rest) :
    Finds (expression tokens) (.binary left operator right terminated) rest := by
  obtain ⟨_, hoperator⟩ := operator?_some hoperator
  obtain ⟨_, hterminator⟩ := terminator_complete hterminated hrest
  exact expression_operation (by rw [hopen]; simp) hleft hoperator hright hterminator

lemma primary_parenthesized {inner : Phrase} {place : Position} {middle : List Token}
    (hinner : Finds (expression tokens) inner middle)
    (hclosing : Spelled [.paren .closing] middle rest) :
    Finds (primary (⟨.paren .opening, place⟩ :: tokens)) (.parenthesized inner) rest := by
  have hgives : Gives (parenthesized tokens) (.parenthesized inner) rest := by
    rw [parenthesized]
    apply hinner.bindGives
    intro _
    exact (paren_complete hclosing).bind fun _ => .pure _
  rw [primary]
  exact hgives.bindFinds fun _ => .pure _

lemma primary_unary {operator : Operator} {operand : Phrase} {terminated : Bool} {place : Position}
    {middle : List Token} (hoperand : Finds (primary tokens) operand middle)
    (hterminated : Spelled (terminatorWritten terminated) middle rest)
    (hrest : Ahead (· ≠ .punctuation .semicolon) rest) :
    Finds (primary (⟨.operator operator, place⟩ :: tokens)) (.unary operator operand terminated)
      rest := by
  obtain ⟨_, hterminator⟩ := terminator_complete hterminated hrest
  have hgives : Gives (unary operator tokens) (.unary operator operand terminated) rest := by
    rw [unary]
    apply hoperand.bindGives
    intro _
    dsimp only
    rw [hterminator]
    exact .pure _
  rw [primary]
  exact hgives.bindFinds fun _ => .pure _

mutual

/-- A primary takes the semicolon after it if it is an operation, and leaves it otherwise. -/
theorem primary_complete {p : Phrase} (hp : IsPrimary p) {semicolon : Bool}
    {tokens rest : List Token} (h : Spelled (p.written ++ terminatorWritten semicolon) tokens rest)
    (hrest : Ahead (· ≠ .punctuation .semicolon) rest) :
    ∃ middle, Finds (primary tokens) (p.ended semicolon) middle ∧
      Spelled (terminatorWritten (semicolon && !p.isOperation)) middle rest := by
  obtain ⟨middle, h₁, h₂⟩ := Reads.append_iff.mp h
  cases hp with
  | identifier name =>
    rw [Phrase.written] at h₁
    obtain ⟨place, rfl⟩ := spelled_token h₁
    refine ⟨middle, ?_, by simpa [Phrase.isOperation] using h₂⟩
    rw [Phrase.ended_of_not_isOperation rfl, primary]
    exact .pure _
  | literal value =>
    refine ⟨middle, ?_, by simpa [Phrase.isOperation] using h₂⟩
    rw [Phrase.written] at h₁
    rw [Phrase.ended_of_not_isOperation rfl]
    cases value with
    | bit value =>
      obtain ⟨place, start, rfl, hbit⟩ := spelled_cons h₁
      rw [primary]
      exact (bit_complete hbit).bindFinds fun _ => .pure _
    | numeral value =>
      obtain ⟨place, rfl⟩ := spelled_token h₁
      rw [primary]
      exact .pure _
  | @parenthesized inner hinner =>
    refine ⟨middle, ?_, by simpa [Phrase.isOperation] using h₂⟩
    rw [Phrase.written] at h₁
    rw [Phrase.ended_of_not_isOperation rfl]
    obtain ⟨rest₂, hfront, hclosing⟩ := Reads.append_iff.mp h₁
    obtain ⟨rest₁, hopening, hspelled⟩ := Reads.append_iff.mp hfront
    obtain ⟨place, rfl⟩ := spelled_token hopening
    obtain ⟨_, hinner, hleft⟩ := value_complete hinner (spelled_open hspelled)
      (hclosing.ahead (by simp)) fun _ => hclosing.ahead (by simp)
    obtain rfl := Reads.nil_iff.mp hleft
    exact primary_parenthesized hinner hclosing
  | @unary operator operand hoperand =>
    refine ⟨rest, ?_, by simp [terminatorWritten]⟩
    rw [Phrase.written, terminatorWritten, if_neg (by simp), List.append_nil] at h₁
    obtain ⟨rest₁, hoperator, hspelled⟩ := Reads.append_iff.mp h₁
    obtain ⟨place, rfl⟩ := spelled_token hoperator
    -- the semicolon is offered to the operand first
    obtain ⟨rest₂, hfinds, hleft⟩ := primary_complete hoperand (hspelled.append h₂) hrest
    rw [Phrase.ended_unary]
    exact primary_unary hfinds hleft hrest

theorem value_complete {p : Phrase} (hp : IsValue p) {semicolon : Bool}
    {tokens rest : List Token} (h : Spelled (p.written ++ terminatorWritten semicolon) tokens rest)
    (hrest : Ahead (· ≠ .punctuation .semicolon) rest)
    (hopen : semicolon = false → Ahead (∀ operator, · ≠ .operator operator) rest) :
    ∃ middle, Finds (expression tokens) (p.ended semicolon) middle ∧
      Spelled (terminatorWritten (semicolon && !p.isOperation)) middle rest := by
  cases hp with
  | primary hp =>
    obtain ⟨middle, hfinds, hleft⟩ := primary_complete hp h hrest
    refine ⟨middle, ?_, hleft⟩
    rw [expression]
    apply hfinds.bind
    intro _
    dsimp only
    split_ifs with hterminated
    · exact .pure _
    · -- either the semicolon is still there, or there was none and no operator follows
      have hoperator : operator? middle = none := by
        apply operator?_none
        rw [Phrase.isTerminated_ended hp.isTerminated] at hterminated
        cases semicolon with
        | true =>
          have hp : p.isOperation = false := by simpa using hterminated
          rw [hp] at hleft
          exact hleft.ahead (by simp)
        | false =>
          obtain rfl := Reads.nil_iff.mp hleft
          exact hopen rfl
      rw [hoperator]
      exact .pure _
  | @binary left right operator hleft hoperator hright =>
    refine ⟨rest, ?_, by simp [terminatorWritten]⟩
    obtain ⟨middle, h₁, h₂⟩ := Reads.append_iff.mp h
    rw [Phrase.written, terminatorWritten, if_neg (by simp), List.append_nil] at h₁
    obtain ⟨rest₂, hfront, hspelled⟩ := Reads.append_iff.mp h₁
    obtain ⟨rest₁, hspelled', hmark⟩ := Reads.append_iff.mp hfront
    obtain ⟨_, hfinds, hnone⟩ := primary_complete hleft (spelled_open hspelled')
      (hmark.ahead (by simp))
    obtain rfl := Reads.nil_iff.mp hnone
    obtain ⟨rest₃, hfinds', hterminated⟩ := value_complete hright (hspelled.append h₂) hrest hopen
    rw [Phrase.ended_binary]
    refine expression_binary hleft.isTerminated hfinds hmark ?_ hterminated hrest
    rw [if_neg (by rw [hoperator]; simp)]
    exact hfinds'

end

lemma primary_open {p : Phrase} (hp : IsPrimary p) (h : Spelled p.written tokens rest)
    (hrest : Ahead (· ≠ .punctuation .semicolon) rest) : Finds (primary tokens) p rest := by
  obtain ⟨_, hfinds, hnone⟩ := primary_complete hp (spelled_open h) hrest
  obtain rfl := Reads.nil_iff.mp hnone
  exact hfinds

/-- Neither an operator nor a semicolon, so that a value ends before it. -/
def EndsValue (kind : TokenKind) : Prop :=
  kind ≠ .punctuation .semicolon ∧ ∀ operator, kind ≠ .operator operator

lemma value_open {p : Phrase} (hp : IsValue p) (h : Spelled p.written tokens rest)
    (hrest : Ahead EndsValue rest) : Finds (expression tokens) p rest := by
  obtain ⟨_, hfinds, hnone⟩ := value_complete hp (spelled_open h)
    (hrest.mono fun _ h => h.1) fun _ => hrest.mono fun _ h => h.2
  obtain rfl := Reads.nil_iff.mp hnone
  exact hfinds

/-- Neither a semicolon nor a condition, so that a statement is complete before it. -/
def FollowsStatement (kind : TokenKind) : Prop :=
  kind ≠ .punctuation .semicolon ∧ kind ≠ .keyword .when_

/-- A value before its semicolon, of which only an operation takes it. -/
lemma value_closed {p : Phrase} (hp : IsValue p)
    (h : Spelled (p.written ++ [.punctuation .semicolon]) tokens rest)
    (hrest : Ahead FollowsStatement rest) :
    ∃ middle, Finds (expression tokens) p.closed middle ∧
      Spelled (terminatorWritten (!p.isOperation)) middle rest ∧
      keyword? .when_ middle = none := by
  have hspelled : Spelled (p.written ++ terminatorWritten true) tokens rest := h
  obtain ⟨middle, hfinds, hleft⟩ := value_complete hp hspelled
    (hrest.mono fun _ h => h.1) (by simp)
  refine ⟨middle, hfinds, hleft, keyword?_none ?_⟩
  cases hoperation : p.isOperation with
  | true =>
    rw [hoperation] at hleft
    obtain rfl := Reads.nil_iff.mp hleft
    exact hrest.mono fun _ h => h.2
  | false =>
    rw [hoperation] at hleft
    exact hleft.ahead (by simp)

/-- The branches and the fallback of a choice, after the first condition's keyword. -/
lemma choice_complete {b : Branch Phrase} {bs : List (Branch Phrase)} {fallback : Phrase}
    (hcondition : IsValue b.condition) (hbs : ∀ b ∈ bs, IsValue b.value ∧ IsValue b.condition)
    (hfallback : IsValue fallback)
    (h : Spelled (b.condition.written ++ .keyword .else_ ::
      (Phrase.branchesWritten bs ++ (fallback.written ++ [.punctuation .semicolon]))) tokens rest)
    (hrest : Ahead FollowsStatement rest) :
    ∃ middle, Gives (choice b.value tokens) (b :: bs, fallback.closed) middle ∧
      Spelled (terminatorWritten (!fallback.isOperation)) middle rest := by
  induction bs generalizing b tokens with
  | nil =>
    obtain ⟨rest₁, h₁, hmore⟩ := Reads.append_iff.mp h
    obtain ⟨rest₂, h₂, h₃⟩ := hmore.uncons
    have hfinds := value_open hcondition h₁ (h₂.ahead (by simp [EndsValue]))
    obtain ⟨middle, hnext, hleft, hwhen⟩ := value_closed hfallback h₃ hrest
    refine ⟨middle, ?_, hleft⟩
    rw [choice]
    apply hfinds.bindGives
    intro _
    apply (keyword_complete h₂).bind
    intro _
    apply hnext.bindGives
    intro _
    dsimp only
    rw [hwhen]
    exact .pure _
  | cons next bs ih =>
    obtain ⟨⟨hvalue', hcondition'⟩, hbs⟩ := List.forall_mem_cons.mp hbs
    obtain ⟨rest₁, h₁, hmore⟩ := Reads.append_iff.mp h
    obtain ⟨rest₂, h₂, hmore⟩ := hmore.uncons
    simp only [Phrase.branchesWritten, List.append_assoc, List.singleton_append] at hmore
    obtain ⟨rest₃, h₃, hmore⟩ := Reads.append_iff.mp hmore
    obtain ⟨rest₄, h₄, hmore⟩ := hmore.uncons
    have hfinds := value_open hcondition h₁ (h₂.ahead (by simp [EndsValue]))
    have hnext := value_open hvalue' h₃ (h₄.ahead (by simp [EndsValue]))
    obtain ⟨_, hwhen⟩ := keyword?_some h₄
    obtain ⟨middle, hchoice, hleft⟩ := ih hcondition' hbs hmore
    refine ⟨middle, ?_, hleft⟩
    rw [choice]
    apply hfinds.bindGives
    intro _
    apply (keyword_complete h₂).bind
    intro _
    apply hnext.bindGives
    intro _
    dsimp only
    rw [hwhen]
    exact hchoice.bind fun _ => .pure _

lemma conditional_choice {branches : List (Branch Phrase)} {fallback : Phrase}
    (hne : branches ≠ []) (hbranches : ∀ b ∈ branches, IsValue b.value ∧ IsValue b.condition)
    (hfallback : IsValue fallback)
    (h : Spelled (Phrase.whenElse branches fallback).written tokens rest)
    (hrest : Ahead FollowsStatement rest) :
    Finds (conditional tokens) (.whenElse branches fallback) rest := by
  obtain ⟨b, bs, rfl⟩ := List.exists_cons_of_ne_nil hne
  obtain ⟨⟨hvalue, hcondition⟩, hbs⟩ := List.forall_mem_cons.mp hbranches
  simp only [Phrase.written, Phrase.branchesWritten, List.append_assoc,
    List.singleton_append] at h
  obtain ⟨rest₁, h₁, hmore⟩ := Reads.append_iff.mp h
  obtain ⟨rest₂, h₂, hmore⟩ := hmore.uncons
  have hfinds := value_open hvalue h₁ (h₂.ahead (by simp [EndsValue]))
  obtain ⟨_, hwhen⟩ := keyword?_some h₂
  obtain ⟨middle, hchoice, hleft⟩ := choice_complete hcondition hbs hfallback hmore hrest
  rw [conditional]
  apply hfinds.bind
  intro _
  dsimp only
  rw [hwhen]
  apply hchoice.bindFinds
  intro _
  dsimp only
  rw [Phrase.withoutTerminator?_closed hfallback.isTerminated]
  cases hoperation : fallback.isOperation with
  | true =>
    rw [hoperation] at hleft
    obtain rfl := Reads.nil_iff.mp hleft
    exact .pure _
  | false =>
    rw [hoperation] at hleft
    rw [Phrase.closed_of_not_isOperation hoperation]
    exact (mark_complete hleft).bindFinds fun _ => .pure _

lemma conditional_value {p : Phrase} {middle : List Token} (h : Finds (expression tokens) p middle)
    (hwhen : keyword? .when_ middle = none) : Finds (conditional tokens) p middle := by
  rw [conditional]
  apply h.bind
  intro _
  dsimp only
  rw [hwhen]
  exact .pure _

/-- A phrase that is read back wherever a statement may stand. -/
structure Readable (p : Phrase) : Prop where
  starts : ∃ kind, p.written.head? = some kind ∧ FollowsStatement kind
  finds {tokens rest : List Token} (h : Spelled p.written tokens rest)
    (hrest : Ahead FollowsStatement rest) : Finds (expression tokens) p rest

/-- A kind of token that ends a body. -/
def EndsBody (kind : TokenKind) : Prop :=
  kind = .keyword .end_ ∨ kind = .keyword .else_ ∨ kind = .endOfInput

lemma EndsBody.followsStatement {kind : TokenKind} (h : EndsBody kind) : FollowsStatement kind := by
  rcases h with rfl | rfl | rfl <;> simp [FollowsStatement]

lemma expression_none (h : Ahead EndsBody tokens) : expression tokens = .ok none := by
  have hprimary : primary tokens = .ok none := by
    cases tokens with
    | nil => rw [primary]; rfl
    | cons token after =>
      obtain ⟨kind, place⟩ := token
      have hkind : EndsBody kind := h _ rfl
      rcases hkind with rfl | rfl | rfl <;> rw [primary] <;> first | rfl | simp
  rw [expression, hprimary]
  rfl

lemma body_ahead {body : List Phrase} (hbody : ∀ s ∈ body, Readable s)
    (h : Spelled (Phrase.bodyWritten body) tokens rest) (hrest : Ahead EndsBody rest) :
    Ahead FollowsStatement tokens := by
  cases body with
  | nil =>
    rw [Phrase.bodyWritten] at h
    obtain rfl := Reads.nil_iff.mp h
    exact hrest.mono fun _ h => h.followsStatement
  | cons s body =>
    obtain ⟨kind, hhead, hkind⟩ := (hbody s List.mem_cons_self).starts
    obtain ⟨kinds, hwritten⟩ := List.head?_eq_some_iff.mp hhead
    rw [Phrase.bodyWritten, hwritten] at h
    exact h.ahead hkind

lemma statements_complete {body : List Phrase} (hbody : ∀ s ∈ body, Readable s)
    (h : Spelled (Phrase.bodyWritten body) tokens rest) (hrest : Ahead EndsBody rest) :
    Gives (statements tokens) body rest := by
  induction body generalizing tokens with
  | nil =>
    rw [Phrase.bodyWritten] at h
    obtain rfl := Reads.nil_iff.mp h
    rw [statements, expression_none hrest]
    exact .pure _
  | cons s body ih =>
    obtain ⟨hs, hbody⟩ := List.forall_mem_cons.mp hbody
    rw [Phrase.bodyWritten] at h
    obtain ⟨middle, h₁, h₂⟩ := Reads.append_iff.mp h
    rw [statements]
    apply (hs.finds h₁ (body_ahead hbody h₂ hrest)).bindGives
    intro _
    exact (ih hbody h₂).bind fun _ => .pure _

/-- A phrase that begins with a keyword and ends in a semicolon is an expression of its own. -/
lemma expression_of_primary {p : Phrase} (h : Finds (primary tokens) p rest)
    (hterminated : p.isTerminated = true) : Finds (expression tokens) p rest := by
  rw [expression]
  apply h.bind
  intro _
  dsimp only
  rw [if_pos hterminated]
  exact .pure _

end Parser

namespace Phrase

open VhdlGates.Parser

lemma IsPrimary.starts {p : Phrase} (hp : IsPrimary p) :
    ∃ kind, p.written.head? = some kind ∧ FollowsStatement kind := by
  cases hp with
  | literal value => cases value <;> simp [written, Literal.written, FollowsStatement]
  | _ => simp [written, FollowsStatement]

lemma IsPrimary.binary_starts {left right : Phrase} {operator : Operator} {terminated : Bool}
    (hleft : IsPrimary left) :
    ∃ kind, (binary left operator right terminated).written.head? = some kind ∧
      FollowsStatement kind := by
  obtain ⟨kind, hhead, hkind⟩ := hleft.starts
  exact ⟨kind, by simp [written, hhead], hkind⟩

lemma IsValue.starts {p : Phrase} (hp : IsValue p) :
    ∃ kind, p.written.head? = some kind ∧ FollowsStatement kind := by
  cases hp with
  | primary hp => exact hp.starts
  | binary hleft => exact hleft.binary_starts

lemma IsValue.readable {p : Phrase} (hp : IsValue p) (hoperation : p.isOperation = true) :
    Readable p.closed where
  starts := by
    obtain ⟨kind, hhead, hkind⟩ := hp.starts
    exact ⟨kind, by simp [written_closed hp.isTerminated, hhead], hkind⟩
  finds h hrest := by
    rw [written_closed hp.isTerminated, hoperation] at h
    obtain ⟨middle, hfinds, hleft, -⟩ := value_closed hp h hrest
    rw [hoperation] at hleft
    obtain rfl := Reads.nil_iff.mp hleft
    exact hfinds

/-- An assignment is read once its right side is. -/
lemma IsPrimary.finds_assignment {left right : Phrase} {operator : Operator} {terminated : Bool}
    {tokens rest₂ rest₃ rest : List Token} (hleft : IsPrimary left)
    (hoperator : operator.isAssignment = true)
    (h : Spelled (left.written ++ [.operator operator]) tokens rest₂)
    (hright : Finds (conditional rest₂) right rest₃)
    (hterminated : Spelled (terminatorWritten terminated) rest₃ rest)
    (hrest : Ahead FollowsStatement rest) :
    Finds (expression tokens) (.binary left operator right terminated) rest := by
  obtain ⟨rest₁, h₁, h₂⟩ := Reads.append_iff.mp h
  have hfinds := primary_open hleft h₁ (h₂.ahead (by simp))
  refine expression_binary hleft.isTerminated hfinds h₂ ?_ hterminated (hrest.mono fun _ h => h.1)
  rw [if_pos hoperator]
  exact hright

lemma IsPrimary.readable_assignment {left right : Phrase} {operator : Operator}
    (hleft : IsPrimary left) (hoperator : operator.isAssignment = true) (hright : IsValue right) :
    Readable (closed (.binary left operator right false)) where
  starts := by
    rw [closed_binary]
    exact hleft.binary_starts
  finds {tokens rest} h hrest := by
    have hopen : (binary left operator right false).isTerminated = false := hright.isTerminated
    rw [written_closed hopen, written, terminatorWritten, if_neg (by simp), List.append_nil,
      List.append_assoc] at h
    obtain ⟨rest₂, hfront, hspelled⟩ := Reads.append_iff.mp h
    obtain ⟨rest₃, hfinds, hterminated, hwhen⟩ := value_closed hright hspelled hrest
    rw [closed_binary]
    exact hleft.finds_assignment hoperator hfront (conditional_value hfinds hwhen) hterminated hrest

lemma IsPrimary.readable_choice {left fallback : Phrase} {operator : Operator}
    {branches : List (Branch Phrase)} (hleft : IsPrimary left)
    (hoperator : operator.isAssignment = true) (hne : branches ≠ [])
    (hbranches : ∀ b ∈ branches, IsValue b.value ∧ IsValue b.condition)
    (hfallback : IsValue fallback) :
    Readable (.binary left operator (.whenElse branches fallback) false) where
  starts := hleft.binary_starts
  finds {tokens rest} h hrest := by
    rw [written] at h
    obtain ⟨rest₃, hfront, hterminated⟩ := Reads.append_iff.mp h
    obtain ⟨rest₂, hfront, hspelled⟩ := Reads.append_iff.mp hfront
    obtain rfl := Reads.nil_iff.mp hterminated
    have hright := conditional_choice hne hbranches hfallback hspelled hrest
    exact hleft.finds_assignment hoperator hfront hright hterminated hrest

lemma readable_ifThen {condition : Phrase} {thenBody : List Phrase} (hcondition : IsValue condition)
    (hthen : ∀ s ∈ thenBody, Readable s) : Readable (.ifThen condition thenBody) where
  starts := by simp [written, FollowsStatement]
  finds {tokens rest} h hrest := by
    rw [written] at h
    obtain ⟨rest₄, h, h₅⟩ := Reads.append_iff.mp h
    obtain ⟨rest₃, h, h₄⟩ := Reads.append_iff.mp h
    obtain ⟨rest₂, h, h₃⟩ := Reads.append_iff.mp h
    obtain ⟨rest₁, h₁, h₂⟩ := Reads.append_iff.mp h
    obtain ⟨place, rfl⟩ := spelled_token h₁
    obtain ⟨rest₅, hend, -⟩ := h₅.uncons
    obtain ⟨_, hfound⟩ := keyword?_some hend
    have helse : keyword? .else_ rest₄ = none := keyword?_none (h₅.ahead (by simp))
    have hif : Gives (ifStatement rest₁) (.ifThen condition thenBody) rest := by
      rw [ifStatement]
      apply (value_open hcondition h₂ (h₃.ahead (by simp [EndsValue]))).bindGives
      intro _
      apply (keyword_complete h₃).bind
      intro _
      apply (statements_complete hthen h₄ (h₅.ahead (by simp [EndsBody]))).bind
      intro _
      dsimp only
      rw [helse, hfound]
      exact (endIf_complete h₅).bind fun _ => .pure _
    refine expression_of_primary ?_ rfl
    rw [primary]
    exact hif.bindFinds fun _ => .pure _

lemma readable_ifElse {condition : Phrase} {thenBody elseBody : List Phrase}
    (hcondition : IsValue condition) (hthen : ∀ s ∈ thenBody, Readable s)
    (helse : ∀ s ∈ elseBody, Readable s) : Readable (.ifElse condition thenBody elseBody) where
  starts := by simp [written, FollowsStatement]
  finds {tokens rest} h hrest := by
    rw [written] at h
    obtain ⟨rest₆, h, h₇⟩ := Reads.append_iff.mp h
    obtain ⟨rest₅, h, h₆⟩ := Reads.append_iff.mp h
    obtain ⟨rest₄, h, h₅⟩ := Reads.append_iff.mp h
    obtain ⟨rest₃, h, h₄⟩ := Reads.append_iff.mp h
    obtain ⟨rest₂, h, h₃⟩ := Reads.append_iff.mp h
    obtain ⟨rest₁, h₁, h₂⟩ := Reads.append_iff.mp h
    obtain ⟨place, rfl⟩ := spelled_token h₁
    obtain ⟨_, hfound⟩ := keyword?_some h₅
    have hif : Gives (ifStatement rest₁) (.ifElse condition thenBody elseBody) rest := by
      rw [ifStatement]
      apply (value_open hcondition h₂ (h₃.ahead (by simp [EndsValue]))).bindGives
      intro _
      apply (keyword_complete h₃).bind
      intro _
      apply (statements_complete hthen h₄ (h₅.ahead (by simp [EndsBody]))).bind
      intro _
      dsimp only
      rw [hfound]
      apply (statements_complete helse h₆ (h₇.ahead (by simp [EndsBody]))).bind
      intro _
      exact (endIf_complete h₇).bind fun _ => .pure _
    refine expression_of_primary ?_ rfl
    rw [primary]
    exact hif.bindFinds fun _ => .pure _

lemma readable_process {sensitivity : List String} {body : List Phrase}
    (hbody : ∀ s ∈ body, Readable s) : Readable (.process sensitivity body) where
  starts := by simp [written, FollowsStatement]
  finds {tokens rest} h hrest := by
    rw [written] at h
    obtain ⟨rest₃, h, h₃⟩ := Reads.append_iff.mp h
    obtain ⟨rest₂, h, h₂⟩ := Reads.append_iff.mp h
    obtain ⟨place, rest₁, rfl, h₁⟩ := spelled_cons h
    have hprocess : Gives (Parser.process rest₁) (.process sensitivity body) rest := by
      rw [Parser.process]
      apply (sensitivity_complete h₁).bind
      intro _
      apply (statements_complete hbody h₂ (h₃.ahead (by simp [EndsBody]))).bind
      intro _
      exact (endProcess_complete h₃).bind fun _ => .pure _
    refine expression_of_primary ?_ rfl
    rw [primary]
    exact hprocess.bindFinds fun _ => .pure _

lemma readable_signal {declaration : SignalDeclaration} (hnames : declaration.names ≠ []) :
    Readable (.signal declaration) where
  starts := by simp [written, SignalDeclaration.written, FollowsStatement]
  finds {tokens rest} h hrest := by
    rw [written] at h
    have hdeclaration := signalDeclaration_complete hnames h
    obtain ⟨place, after, rfl, -⟩ := spelled_cons h
    refine expression_of_primary ?_ rfl
    rw [primary]
    exact hdeclaration.bindFinds fun _ => .pure _

lemma IsStatement.readable {s : Phrase} (hs : IsStatement s) : Readable s := by
  induction hs with
  | operation hp hoperation => exact hp.readable hoperation
  | assignment hleft hoperator hright => exact hleft.readable_assignment hoperator hright
  | choice hleft hoperator hne hbranches hfallback =>
    exact hleft.readable_choice hoperator hne hbranches hfallback
  | ifThen hcondition _ ihthen => exact readable_ifThen hcondition ihthen
  | ifElse hcondition _ _ ihthen ihelse => exact readable_ifElse hcondition ihthen ihelse
  | process _ _ ih => exact readable_process ih
  | signal hnames => exact readable_signal hnames

lemma readable_architecture {name entityName : String} {signals : List SignalDeclaration}
    {body : List Phrase} {ending : EndClause} (hsignals : ∀ d ∈ signals, d.names ≠ [])
    (hbody : ∀ s ∈ body, Readable s) (hlabel : ∀ l ∈ ending.label, l = name) :
    Readable (.architecture name entityName signals body ending) where
  starts := by simp [written, FollowsStatement]
  finds {tokens rest} h hrest := by
    rw [written] at h
    obtain ⟨rest₃, h, h₃⟩ := Reads.append_iff.mp h
    obtain ⟨rest₂, h, h₂⟩ := Reads.append_iff.mp h
    obtain ⟨place, rest₁, rfl, h₁⟩ := spelled_cons h
    have hheading : Gives (heading rest₁) ⟨name, entityName, signals⟩ rest₂ :=
      heading_complete hsignals h₁
    have harchitecture : Gives (Parser.architecture rest₁)
        (.architecture name entityName signals body ending) rest := by
      rw [Parser.architecture]
      apply hheading.bind
      intro _
      apply (statements_complete hbody h₂ (h₃.ahead (by simp [EndsBody]))).bind
      intro _
      exact (endClause_complete hlabel h₃).bind fun _ => .pure _
    refine expression_of_primary ?_ rfl
    rw [primary]
    exact harchitecture.bindFinds fun _ => .pure _

lemma readable_entity {unit : Entity} (hports : unit.ports ≠ [])
    (hnames : ∀ d ∈ unit.ports, d.names ≠ []) (hlabel : ∀ l ∈ unit.ending.label, l = unit.name) :
    Readable (.entity unit) where
  starts := by simp [written, Entity.written, FollowsStatement]
  finds {tokens rest} h hrest := by
    rw [written] at h
    obtain ⟨place, after, rfl, -⟩ := spelled_cons h
    refine expression_of_primary ?_ rfl
    rw [primary]
    exact (entity_complete hports hnames hlabel h).bindFinds fun _ => .pure _

lemma IsUnit.readable {u : Phrase} (hu : IsUnit u) : Readable u := by
  cases hu with
  | libraryClause name =>
    refine ⟨by simp [written, FollowsStatement], fun {tokens rest} h hrest => ?_⟩
    rw [written] at h
    obtain ⟨place, rest₁, rfl, h₁⟩ := spelled_cons h
    refine expression_of_primary ?_ rfl
    rw [primary]
    exact (libraryClause_complete h₁).bindFinds fun _ => .pure _
  | useClause library package item =>
    refine ⟨by simp [written, FollowsStatement], fun {tokens rest} h hrest => ?_⟩
    rw [written] at h
    obtain ⟨place, rest₁, rfl, h₁⟩ := spelled_cons h
    refine expression_of_primary ?_ rfl
    rw [primary]
    exact (useClause_complete h₁).bindFinds fun _ => .pure _
  | entity hports hnames hlabel => exact readable_entity hports hnames hlabel
  | architecture hsignals hbody hlabel =>
    exact readable_architecture hsignals (fun s hs => (hbody s hs).readable) hlabel

end Phrase

lemma spelled_of_map_eq {tokens : List Token} {kinds : List TokenKind}
    (h : tokens.map Token.kind = kinds) : Spelled kinds tokens [] := by
  induction tokens generalizing kinds with
  | nil =>
    obtain rfl := h
    exact .nil []
  | cons token tokens ih =>
    obtain rfl := h
    exact .cons rfl (ih rfl)

/-- Canonical units are read back from the tokens they are written with, wherever these stand, up
to the end of the input. -/
theorem parse_written {units : List Phrase} {tokens : List Token}
    (hunits : ∀ u ∈ units, Phrase.IsUnit u)
    (htokens : tokens.map Token.kind = units.flatMap Phrase.written ++ [.endOfInput]) :
    ∃ ending, ending.kind = .endOfInput ∧ parse tokens = .ok ⟨units, [ending]⟩ := by
  have hspelled := spelled_of_map_eq htokens
  obtain ⟨rest, h, hending⟩ := Reads.append_iff.mp hspelled
  obtain ⟨place, rfl⟩ := Parser.spelled_token hending
  rw [← Phrase.bodyWritten_eq_flatMap] at h
  obtain ⟨_, hstatements⟩ := Parser.statements_complete (fun u hu => (hunits u hu).readable) h
    (hending.ahead (by simp [Parser.EndsBody]))
  refine ⟨⟨.endOfInput, place⟩, rfl, ?_⟩
  rw [parse, hstatements]
  rfl

/-- A design in which a semicolon stands on an inner operation, and one after a choice. -/
def gateUnits : List Phrase :=
  [.libraryClause "ieee",
    .entity ⟨"gate", [⟨["a", "b"], .input, "bit"⟩, ⟨["y"], .output, "bit"⟩], ⟨true, some "gate"⟩⟩,
    .architecture "logic" "gate" [⟨["s"], "bit"⟩]
      [.closed (.binary (.identifier "s") (.assignment .toSignal)
          (.binary (.identifier "a") (.logic .and) (.unary (.logic .not) (.identifier "b") false)
            false) false),
        .binary (.identifier "y") (.assignment .toSignal)
          (.whenElse [⟨.identifier "a", .identifier "s"⟩] (.literal (.bit false))) false]
      ⟨false, none⟩]

def gateTokens : List Token :=
  (gateUnits.flatMap Phrase.written ++ [TokenKind.endOfInput]).map (⟨·, ⟨1, 1⟩⟩)

theorem parse_written_gate :
    ∃ ending, ending.kind = .endOfInput ∧ parse gateTokens = .ok ⟨gateUnits, [ending]⟩ := by
  have hs : Phrase.IsStatement (.closed (.binary (.identifier "s") (.assignment .toSignal)
      (.binary (.identifier "a") (.logic .and) (.unary (.logic .not) (.identifier "b") false)
        false) false)) :=
    .assignment (.identifier "s") rfl
      (.binary (.identifier "a") rfl (.primary (.unary _ (.identifier "b"))))
  have hy : Phrase.IsStatement (.binary (.identifier "y") (.assignment .toSignal)
      (.whenElse [⟨.identifier "a", .identifier "s"⟩] (.literal (.bit false))) false) := by
    refine .choice (.identifier "y") rfl (List.cons_ne_nil _ _) ?_ (.primary (.literal _))
    rintro b (_ | ⟨_, ⟨⟩⟩)
    exact ⟨.primary (.identifier "a"), .primary (.identifier "s")⟩
  have hunits : ∀ u ∈ gateUnits, Phrase.IsUnit u := by
    simp only [gateUnits, List.forall_mem_cons]
    refine ⟨.libraryClause _, .entity (by simp) (by simp) (by simp), ?_, by simp⟩
    refine .architecture (by simp) ?_ (by simp)
    simp only [List.forall_mem_cons]
    exact ⟨hs, hy, by simp⟩
  apply parse_written hunits
  rw [gateTokens, List.map_map]
  exact List.map_id _

end VhdlGates
