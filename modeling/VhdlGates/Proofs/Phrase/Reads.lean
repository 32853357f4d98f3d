import Mathlib.Data.List.Forall2
import VhdlGates.Phrase.Clause

/-! Two ways to speak of a reader. `Ensures` says what holds of every result it gives, and `Gives`
and `Finds` say that it gives one certain result. All of them go through a reader line by line. -/
namespace VhdlGates

/-- The tokens in front of `rest` are of these kinds, each up to `R`. -/
inductive Reads (R : TokenKind → TokenKind → Prop) :
    List TokenKind → List Token → List Token → Prop
  | nil (tokens : List Token) : Reads R [] tokens tokens
  | cons {kind : TokenKind} {token : Token} {kinds : List TokenKind} {tokens rest : List Token}
      (first : R kind token.kind) (others : Reads R kinds tokens rest) :
      Reads R (kind :: kinds) (token :: tokens) rest

namespace Reads

variable {R : TokenKind → TokenKind → Prop} {kind : TokenKind} {kinds more : List TokenKind}
  {tokens middle rest : List Token}

@[simp] lemma nil_iff : Reads R [] tokens rest ↔ tokens = rest := by
  constructor
  · intro h
    cases h
    rfl
  · rintro rfl
    exact .nil tokens

@[simp] lemma cons_iff : Reads R (kind :: kinds) tokens rest ↔
    ∃ token after, tokens = token :: after ∧ R kind token.kind ∧ Reads R kinds after rest := by
  constructor
  · intro h
    cases h with
    | cons first others => exact ⟨_, _, rfl, first, others⟩
  · rintro ⟨token, after, rfl, first, others⟩
    exact .cons first others

lemma append (h₁ : Reads R kinds tokens middle) (h₂ : Reads R more middle rest) :
    Reads R (kinds ++ more) tokens rest := by
  induction h₁ with
  | nil => exact h₂
  | cons first _ ih => exact .cons first (ih h₂)

@[simp] lemma append_iff : Reads R (kinds ++ more) tokens rest ↔
    ∃ middle, Reads R kinds tokens middle ∧ Reads R more middle rest := by
  constructor
  · intro h
    induction kinds generalizing tokens with
    | nil => exact ⟨tokens, .nil tokens, h⟩
    | cons kind kinds ih =>
      obtain ⟨token, after, rfl, first, others⟩ := cons_iff.mp h
      obtain ⟨middle, h₁, h₂⟩ := ih others
      exact ⟨middle, .cons first h₁, h₂⟩
  · rintro ⟨middle, h₁, h₂⟩
    exact h₁.append h₂

/-- The first kind apart from the others. -/
lemma uncons (h : Reads R (kind :: kinds) tokens rest) :
    ∃ middle, Reads R [kind] tokens middle ∧ Reads R kinds middle rest :=
  append_iff.mp h

lemma single {token : Token} (h : R kind token.kind) : Reads R [kind] (token :: rest) rest :=
  .cons h (.nil rest)

/-- The kinds determine which tokens are left. -/
lemma drop_eq (h : Reads R kinds tokens rest) : tokens.drop kinds.length = rest := by
  induction h with
  | nil => rfl
  | cons _ _ ih => exact ih

lemma length_le (h : Reads R kinds tokens rest) : kinds.length ≤ tokens.length := by
  induction h with
  | nil => exact Nat.zero_le _
  | cons _ _ ih => exact Nat.succ_le_succ ih

lemma mono {S : TokenKind → TokenKind → Prop} (h : Reads R kinds tokens rest)
    (hRS : ∀ kind, ∀ token ∈ tokens, R kind token.kind → S kind token.kind) :
    Reads S kinds tokens rest := by
  induction h with
  | nil tokens => exact .nil tokens
  | cons first _ ih =>
    refine .cons (hRS _ _ List.mem_cons_self first) (ih ?_)
    exact fun kind token htoken => hRS kind token (List.mem_cons_of_mem _ htoken)

lemma forall_mem_take {P : Token → Prop} (h : Reads R kinds tokens rest)
    (hRP : ∀ kind token, R kind token.kind → P token) : ∀ token ∈ tokens.take kinds.length, P token := by
  induction h with
  | nil => simp
  | cons first _ ih =>
    rw [List.length_cons, List.take_succ_cons, List.forall_mem_cons]
    exact ⟨hRP _ _ first, ih⟩

lemma forall₂ (h : Reads R kinds tokens rest) :
    List.Forall₂ R kinds ((tokens.take kinds.length).map Token.kind) := by
  induction h with
  | nil => exact .nil
  | cons first _ ih => exact .cons first ih

end Reads

/-- The first token, if there is one, is of such a kind. -/
def Ahead (P : TokenKind → Prop) (tokens : List Token) : Prop :=
  ∀ token ∈ tokens.head?, P token.kind

lemma Ahead.mono {P Q : TokenKind → Prop} {tokens : List Token} (h : Ahead P tokens)
    (hPQ : ∀ kind, P kind → Q kind) : Ahead Q tokens :=
  fun token htoken => hPQ token.kind (h token htoken)

lemma Reads.ahead {P : TokenKind → Prop} {kind : TokenKind} {kinds : List TokenKind}
    {tokens rest : List Token} (h : Reads Eq (kind :: kinds) tokens rest) (hP : P kind) :
    Ahead P tokens := by
  obtain ⟨token, after, rfl, rfl, -⟩ := Reads.cons_iff.mp h
  intro token' htoken
  obtain rfl := Option.some.inj htoken
  exact hP

/-- Every result of `x` has the property. -/
def Ensures {ε α : Type} (x : Except ε α) (P : α → Prop) : Prop := ∀ a, x = .ok a → P a

namespace Ensures

variable {ε α β : Type} {P : α → Prop} {Q : β → Prop}

lemma pure {a : α} (h : P a) : Ensures (Pure.pure a : Except ε α) P := by
  rintro b ⟨⟩
  exact h

lemma throw (e : ε) : Ensures (MonadExcept.throw e : Except ε α) P := by
  rintro b ⟨⟩

lemma bind {x : Except ε α} {f : α → Except ε β} (hx : Ensures x P)
    (hf : ∀ a, P a → Ensures (f a) Q) : Ensures (x >>= f) Q := by
  cases x with
  | error e => exact throw e
  | ok a => exact hf a (hx a rfl)

/-- The property is that of the steps that follow, whatever this step gives. -/
lemma after {x : Except ε α} {f : α → Except ε β} (hf : ∀ a, Ensures (f a) Q) :
    Ensures (x >>= f) Q := by
  cases x with
  | error e => exact throw e
  | ok a => exact hf a

end Ensures

/-- The reader gives `value` and leaves `rest`. -/
def Gives {α : Type} {n : ℕ} (x : Except Complaint (Reading Token α n)) (value : α)
    (rest : List Token) : Prop :=
  ∃ h, x = .ok ⟨value, rest, h⟩

/-- The reader finds `value` and leaves `rest`. -/
def Finds {α : Type} {n : ℕ} (x : Except Complaint (Option (Reading Token α n))) (value : α)
    (rest : List Token) : Prop :=
  ∃ h, x = .ok (some ⟨value, rest, h⟩)

section Rules

variable {α β : Type} {m n : ℕ} {a : α} {b : β} {middle rest : List Token}

lemma Gives.pure (h : rest.length < n) : Gives (Pure.pure ⟨a, rest, h⟩) a rest := ⟨h, rfl⟩

lemma Gives.bind {x : Except Complaint (Reading Token α m)}
    {f : Reading Token α m → Except Complaint (Reading Token β n)} (hx : Gives x a middle)
    (hf : ∀ h, Gives (f ⟨a, middle, h⟩) b rest) : Gives (x >>= f) b rest := by
  obtain ⟨h, rfl⟩ := hx
  exact hf h

lemma Gives.bindFinds {x : Except Complaint (Reading Token α m)}
    {f : Reading Token α m → Except Complaint (Option (Reading Token β n))}
    (hx : Gives x a middle) (hf : ∀ h, Finds (f ⟨a, middle, h⟩) b rest) :
    Finds (x >>= f) b rest := by
  obtain ⟨h, rfl⟩ := hx
  exact hf h

lemma Finds.pure (h : rest.length < n) : Finds (Pure.pure (some ⟨a, rest, h⟩)) a rest := ⟨h, rfl⟩

lemma Finds.bind {x : Except Complaint (Option (Reading Token α m))}
    {f : Option (Reading Token α m) → Except Complaint (Option (Reading Token β n))}
    (hx : Finds x a middle) (hf : ∀ h, Finds (f (some ⟨a, middle, h⟩)) b rest) :
    Finds (x >>= f) b rest := by
  obtain ⟨h, rfl⟩ := hx
  exact hf h

lemma Finds.bindGives {x : Except Complaint (Option (Reading Token α m))}
    {f : Option (Reading Token α m) → Except Complaint (Reading Token β n)}
    (hx : Finds x a middle) (hf : ∀ h, Gives (f (some ⟨a, middle, h⟩)) b rest) :
    Gives (x >>= f) b rest := by
  obtain ⟨h, rfl⟩ := hx
  exact hf h

end Rules

end VhdlGates
