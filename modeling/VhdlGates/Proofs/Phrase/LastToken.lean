import VhdlGates.Proofs.Phrase.Offsets
import VhdlGates.Proofs.Phrase.Terminators
import VhdlGates.Proofs.Phrase.Unread

/-! The last token of a phrase. A phrase has ended exactly if its last token is a semicolon, and an
operation on its right edge can give that semicolon away. A choice takes it from its last value, and
then finds it where it looks for its own. -/
namespace VhdlGates

namespace Phrase

/-- The phrase, its last operand, the last operand of that, and so on through all operations. -/
def rightEdge : Phrase → List Phrase
  | binary left operator right terminated =>
    binary left operator right terminated :: rightEdge right
  | unary operator operand terminated => unary operator operand terminated :: rightEdge operand
  | p => [p]

/-- What is left of a phrase that gives its last semicolon away, which is all of it if no operation
on its right edge holds one. -/
def released (p : Phrase) : Phrase := p.withoutTerminator?.getD p

lemma released_of_some {p q : Phrase} (h : p.withoutTerminator? = some q) : p.released = q := by
  simp [released, h]

lemma released_of_none {p : Phrase} (h : p.withoutTerminator? = none) : p.released = p := by
  simp [released, h]

lemma written_ne_nil (p : Phrase) : p.written ≠ [] := by
  apply List.ne_nil_of_length_pos
  rw [length_written]
  exact partsTakeTokens.phrase p

/-- Nothing in front of a phrase counts for its last token. -/
@[simp] lemma getLast?_append_written (kinds : List TokenKind) (p : Phrase) :
    (kinds ++ p.written).getLast? = p.written.getLast? :=
  List.getLast?_append_of_ne_nil kinds p.written_ne_nil

/-- A phrase has ended exactly if its last token is a semicolon. -/
theorem isTerminated_iff : ∀ p : Phrase,
    p.isTerminated = true ↔ p.written.getLast? = some (.punctuation .semicolon)
  | identifier _ | parenthesized _ => by simp [isTerminated, written, List.getLast?_cons]
  | literal value => by cases value <;> simp [isTerminated, written, Literal.written]
  | binary left operator right terminated => by
    cases terminated with
    | true => simp [isTerminated, written, terminatorWritten, List.getLast?_cons]
    | false =>
      -- without a semicolon of its own, an operation ends as its last operand does
      have ih := isTerminated_iff right
      simpa only [isTerminated, written, terminatorWritten, getLast?_append_written,
        Bool.false_or, Bool.false_eq_true, if_false, List.append_nil] using ih
  | unary operator operand terminated => by
    cases terminated with
    | true => simp [isTerminated, written, terminatorWritten, List.getLast?_cons]
    | false =>
      have ih := isTerminated_iff operand
      simpa only [isTerminated, written, terminatorWritten, getLast?_append_written,
        Bool.false_or, Bool.false_eq_true, if_false, List.append_nil] using ih
  | whenElse .. | ifThen .. | ifElse .. | process .. | libraryClause _ | useClause .. => by
    simp [isTerminated, written, List.getLast?_cons]
  | signal declaration => by
    simp [isTerminated, written, SignalDeclaration.written, List.getLast?_cons]
  | entity unit => by
    simp [isTerminated, written, Entity.written, EndClause.written, List.getLast?_cons]
  | architecture .. => by
    simp [isTerminated, written, EndClause.written, List.getLast?_cons]

/-- A semicolon can be given away exactly if an operation on the right edge holds one. -/
lemma isSome_withoutTerminator?_iff (p : Phrase) : p.withoutTerminator?.isSome = true ↔
    ∃ s ∈ p.rightEdge, s.holdsTerminator = true := by
  fun_induction withoutTerminator? p with
  | case1 left operator right => simp [rightEdge, holdsTerminator]
  | case2 left operator right ih => simpa [rightEdge, holdsTerminator] using ih
  | case3 operator operand => simp [rightEdge, holdsTerminator]
  | case4 operator operand ih => simpa [rightEdge, holdsTerminator] using ih
  | case5 p => cases p <;> simp_all [rightEdge, holdsTerminator]

lemma written_released {p : Phrase} (h : p.withoutTerminator?.isSome = true) :
    p.released.written = p.written.dropLast := by
  obtain ⟨q, hq⟩ := Option.isSome_iff_exists.mp h
  rw [released_of_some hq, written_withoutTerminator? hq, List.dropLast_concat]

lemma released_binary (left right : Phrase) (operator : Operator) (terminated : Bool) :
    (binary left operator right terminated).released =
      binary left operator (if terminated then right else right.released) false := by
  cases terminated with
  | true => rfl
  | false => cases h : right.withoutTerminator? <;> simp [released, withoutTerminator?, h]

lemma released_unary (operator : Operator) (operand : Phrase) (terminated : Bool) :
    (unary operator operand terminated).released =
      unary operator (if terminated then operand else operand.released) false := by
  cases terminated with
  | true => rfl
  | false => cases h : operand.withoutTerminator? <;> simp [released, withoutTerminator?, h]

/-- Of the semicolons on the right edge, the outermost one is given away and no other. -/
lemma holdsTerminator_released (p : Phrase) : p.released.rightEdge.map holdsTerminator =
    (p.rightEdge.map holdsTerminator).replace true false := by
  fun_induction rightEdge p with
  | case1 left operator right terminated ih =>
    rw [released_binary]
    cases terminated <;> simp [rightEdge, holdsTerminator, List.replace_cons, ih]
  | case2 operator operand terminated ih =>
    rw [released_unary]
    cases terminated <;> simp [rightEdge, holdsTerminator, List.replace_cons, ih]
  | case3 p hbinary hunary =>
    cases p with
    | binary left operator right terminated =>
      exact absurd rfl (hbinary left operator right terminated)
    | unary operator operand terminated => exact absurd rfl (hunary operator operand terminated)
    | _ => rfl

end Phrase

namespace Parser

variable {tokens rest : List Token} {branches : List (Branch Phrase)} {fallback : Phrase}

/-- A choice is begun in front: the branches and the last value are read, and `rest` is left. -/
def ReadsChoice (tokens : List Token) (branches : List (Branch Phrase)) (fallback : Phrase)
    (rest : List Token) : Prop :=
  ∃ first middle after, Finds (expression tokens) first middle ∧
    (∃ h, keyword? .when_ middle = some ⟨(), after, h⟩) ∧
    Gives (choice first after) (branches, fallback) rest

/-- The check for the semicolon of a choice, behind its branches and what its last value keeps. -/
def closingCheck (tokens : List Token) (branches : List (Branch Phrase)) (fallback : Phrase) :
    Except Complaint (Reading Token Unit
      (tokens.drop (Phrase.branchTokens branches + fallback.released.tokenCount)).length) :=
  mark .conditional .semicolon
    (tokens.drop (Phrase.branchTokens branches + fallback.released.tokenCount))

lemma ReadsChoice.matched (h : ReadsChoice tokens branches fallback rest) :
    Matched (Phrase.branchesWritten branches ++ fallback.written) tokens rest := by
  obtain ⟨first, middle, after, hfirst, ⟨_, hwhen⟩, ⟨_, hchoice⟩⟩ := h
  exact choice_matched hfirst hwhen _ hchoice

lemma ReadsChoice.offset (h : ReadsChoice tokens branches fallback rest) :
    Offset (Phrase.branchTokens branches + fallback.tokenCount) tokens rest := by
  obtain ⟨first, middle, after, hfirst, ⟨_, hwhen⟩, ⟨_, hchoice⟩⟩ := h
  exact (readersCount tokens).choice hfirst hwhen _ hchoice

/-- A semicolon that the last value gives away is the one that the check finds. -/
lemma ReadsChoice.gives_closingCheck (h : ReadsChoice tokens branches fallback rest) {value : Phrase}
    (hvalue : fallback.withoutTerminator? = some value) :
    Gives (closingCheck tokens branches fallback) () rest := by
  have hmatched := h.matched
  -- cut the tokens between what the value keeps and its semicolon
  rw [Phrase.written_withoutTerminator? hvalue, ← List.append_assoc] at hmatched
  obtain ⟨last, hfront, hlast⟩ := Reads.append_iff.mp hmatched
  have hspelled : Spelled [.punctuation .semicolon] last rest := Matched.spelled hlast (by simp)
  have hoffset : Offset (Phrase.branchTokens branches + value.tokenCount) tokens last :=
    hfront.offset (by simp)
  unfold closingCheck
  rw [Phrase.released_of_some hvalue, hoffset.drop_eq]
  exact mark_complete hspelled

/-- Without one, the check is made at the first token that is left. -/
lemma ReadsChoice.drop_eq_rest (h : ReadsChoice tokens branches fallback rest)
    (hnone : fallback.withoutTerminator? = none) :
    tokens.drop (Phrase.branchTokens branches + fallback.released.tokenCount) = rest := by
  rw [Phrase.released_of_none hnone]
  exact h.offset.drop_eq

lemma ReadsChoice.withoutTerminator?_eq_none (h : ReadsChoice tokens branches fallback rest)
    {c : Complaint} (hcheck : closingCheck tokens branches fallback = .error c) :
    fallback.withoutTerminator? = none := by
  cases hvalue : fallback.withoutTerminator? with
  | none => rfl
  | some value =>
    obtain ⟨_, hgives⟩ := h.gives_closingCheck hvalue
    rw [hcheck] at hgives
    cases hgives

lemma ReadsChoice.conditional_error (h : ReadsChoice tokens branches fallback rest) {c : Complaint}
    (hcheck : closingCheck tokens branches fallback = .error c) : conditional tokens = .error c := by
  have hnone := h.withoutTerminator?_eq_none hcheck
  have hdrop := h.drop_eq_rest hnone
  obtain ⟨first, middle, after, ⟨_, hfirst⟩, ⟨_, hwhen⟩, ⟨_, hchoice⟩⟩ := h
  unfold closingCheck at hcheck
  rw [hdrop] at hcheck
  simp [conditional, hfirst, hwhen, hchoice, hnone, hcheck, bind, Except.bind]

/-- The last value stays in the choice without the semicolon that it gave away. -/
lemma ReadsChoice.conditional_finds (h : ReadsChoice tokens branches fallback rest)
    {left : List Token} (hcheck : Gives (closingCheck tokens branches fallback) () left) :
    Finds (conditional tokens) (.whenElse branches fallback.released) left := by
  have hreads := h
  obtain ⟨first, middle, after, hfirst, ⟨_, hwhen⟩, hchoice⟩ := h
  rw [conditional]
  apply hfirst.bind
  intro _
  dsimp only
  rw [hwhen]
  apply hchoice.bindFinds
  intro _
  dsimp only
  cases hvalue : fallback.withoutTerminator? with
  | some value =>
    -- the reader makes no check here, and what it leaves is what the check would leave
    obtain ⟨_, hgives⟩ := hreads.gives_closingCheck hvalue
    obtain ⟨_, hleft⟩ := hcheck
    obtain rfl : rest = left := by simpa using hgives.symm.trans hleft
    rw [Phrase.released_of_some hvalue]
    exact .pure _
  | none =>
    unfold closingCheck at hcheck
    rw [hreads.drop_eq_rest hvalue] at hcheck
    rw [Phrase.released_of_none hvalue]
    exact hcheck.bindFinds fun _ => .pure _

lemma expect_error_iff (construct : Construct) (kind : TokenKind) (tokens : List Token) :
    (∃ c, expect construct kind tokens = .error c) ↔ Ahead (· ≠ kind) tokens := by
  constructor
  · intro ⟨c, hc⟩ token htoken hkind
    cases tokens with
    | nil => cases htoken
    | cons first others =>
      obtain rfl := Option.some.inj htoken
      rw [expect, if_pos hkind] at hc
      cases hc
  · exact expect_error

/-- The check fails exactly if the last value gives no semicolon away and none follows it. -/
lemma ReadsChoice.closingCheck_error_iff (h : ReadsChoice tokens branches fallback rest) :
    (∃ c, closingCheck tokens branches fallback = .error c) ↔
      fallback.withoutTerminator? = none ∧ Ahead (· ≠ .punctuation .semicolon) rest := by
  have hfirst (hnone : fallback.withoutTerminator? = none) :
      (∃ c, closingCheck tokens branches fallback = .error c) ↔
        Ahead (· ≠ .punctuation .semicolon) rest := by
    unfold closingCheck
    rw [h.drop_eq_rest hnone]
    exact expect_error_iff _ _ rest
  constructor
  · intro ⟨c, hcheck⟩
    have hnone := h.withoutTerminator?_eq_none hcheck
    exact ⟨hnone, (hfirst hnone).mp ⟨c, hcheck⟩⟩
  · intro ⟨hnone, hahead⟩
    exact (hfirst hnone).mpr hahead

end Parser

/-- A phrase counts its tokens, and it has ended exactly if the last of them is a semicolon. It can
give this token away exactly if an operation on its right edge holds a semicolon; then the outermost
one goes, and otherwise the phrase stays as it is. So a choice misses its semicolon only where its
last value had none to give away. -/
theorem terminator_bookkeeping (p : Phrase) :
    p.tokenCount = p.written.length ∧
      (p.isTerminated = true ↔ p.written.getLast? = some (.punctuation .semicolon)) ∧
      (p.withoutTerminator?.isSome = true ↔ ∃ s ∈ p.rightEdge, s.holdsTerminator = true) ∧
      (p.withoutTerminator?.isSome = true → p.released.written = p.written.dropLast) ∧
      (p.withoutTerminator?.isSome = false → p.released = p) ∧
      p.released.rightEdge.map Phrase.holdsTerminator =
        (p.rightEdge.map Phrase.holdsTerminator).replace true false ∧
      ∀ tokens branches rest, Parser.ReadsChoice tokens branches p rest →
        ((∃ c, Parser.closingCheck tokens branches p = .error c) ↔
          p.withoutTerminator?.isSome = false ∧ Ahead (· ≠ .punctuation .semicolon) rest) ∧
        (∀ c, Parser.closingCheck tokens branches p = .error c →
          Parser.conditional tokens = .error c) ∧
        ∀ left, Gives (Parser.closingCheck tokens branches p) () left →
          Finds (Parser.conditional tokens) (.whenElse branches p.released) left := by
  have hkept (h : p.withoutTerminator?.isSome = false) : p.released = p :=
    Phrase.released_of_none (by simpa using h)
  refine ⟨p.length_written.symm, p.isTerminated_iff, p.isSome_withoutTerminator?_iff,
    Phrase.written_released, hkept, p.holdsTerminator_released, ?_⟩
  intro tokens branches rest hreads
  rw [Option.isSome_eq_false_iff, Option.isNone_iff_eq_none]
  exact ⟨hreads.closingCheck_error_iff, fun c hcheck => hreads.conditional_error hcheck,
    fun left hcheck => hreads.conditional_finds hcheck⟩

/-- A choice whose last value has two semicolons on its right edge, before a parenthesis. -/
def doubledTokens : List Token :=
  [.identifier "a", .keyword .when_, .identifier "c", .keyword .else_, .identifier "d",
    .operator (.logic .and), .operator (.logic .not), .identifier "b", .punctuation .semicolon,
    .punctuation .semicolon, .paren .closing].map (⟨·, ⟨1, 1⟩⟩)

def doubledBranches : List (Branch Phrase) := [⟨.identifier "a", .identifier "c"⟩]

def doubledValue : Phrase :=
  .binary (.identifier "d") (.logic .and) (.unary (.logic .not) (.identifier "b") true) true

theorem terminator_bookkeeping_doubled :
    Parser.ReadsChoice doubledTokens doubledBranches doubledValue (doubledTokens.drop 10) ∧
      doubledValue.released.written = doubledValue.written.dropLast ∧
      Finds (Parser.conditional doubledTokens) (.whenElse doubledBranches doubledValue.released)
        (doubledTokens.drop 10) := by
  have hreads :
      Parser.ReadsChoice doubledTokens doubledBranches doubledValue (doubledTokens.drop 10) :=
    ⟨.identifier "a", doubledTokens.drop 1, doubledTokens.drop 2, ⟨by decide, by cbv⟩,
      ⟨by decide, rfl⟩, ⟨by decide, by cbv⟩⟩
  obtain ⟨-, -, -, hwritten, -, -, hchoice⟩ := terminator_bookkeeping doubledValue
  obtain ⟨-, -, hfinds⟩ := hchoice doubledTokens doubledBranches _ hreads
  exact ⟨hreads, hwritten rfl, hfinds _ ⟨by decide, by cbv⟩⟩

end VhdlGates
