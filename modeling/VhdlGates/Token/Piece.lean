import VhdlGates.Decimal.Numeral
import VhdlGates.Text.Blank
import VhdlGates.Token

/-! Reading the token, or the word with marks glued to its end, at the front of a text. -/
namespace VhdlGates

open Decimal (readNumeral?)
open Text (isBlank)

/-- A kind of token with the text that it stands for. -/
structure Piece where
  kind : TokenKind
  text : List Char
  deriving DecidableEq, Repr

namespace Piece

def isMark (c : Char) : Bool := (TokenKind.ofMark? c).isSome

/-- Whether a character ends a word. -/
def endsWord (c : Char) : Bool := isBlank c || c == ',' || c == '.'

/-- The word in front, up to a blank, a comma or a dot. -/
def word (text : List Char) : List Char := text.takeWhile (!endsWord ·)

/-- What follows the word in front. -/
def afterWord (text : List Char) : List Char := text.dropWhile (!endsWord ·)

/-- The part of a word that is looked up among the reserved words: up to the first opening
parenthesis, without the marks at its end. -/
def stem (word : List Char) : List Char :=
  ((word.takeWhile (· != '(')).reverse.dropWhile isMark).reverse

/-- The kind of a mark that may be split off the end of a word, given the character that follows
it. A semicolon ends a statement only before a blank or at the end of the text. -/
def endingMark? (c : Char) (next : Option Char) : Option TokenKind :=
  if c = ';' && !next.all isBlank then none else TokenKind.ofMark? c

/-- Splits the marks off the end of a word, which is given backwards, with the character that
follows it and the marks found so far. -/
def splitMarks (next : Option Char) (marks : List Piece) : List Char → List Char × List Piece
  | [] => ([], marks)
  | c :: before =>
    match endingMark? c next with
    | some kind => splitMarks (some c) (⟨kind, [c]⟩ :: marks) before
    | none => ((c :: before).reverse, marks)

/-- Whether a word starts as a numeral does; so the names of infinities are identifiers. -/
def startsNumeral : List Char → Bool
  | '+' :: c :: _ => c.isDigit
  | '-' :: c :: _ => c.isDigit
  | c :: _ => c.isDigit
  | [] => false

/-- A word that is not reserved is a number or an identifier. -/
def classify (word : List Char) : TokenKind :=
  match readNumeral? word with
  | some value =>
    if startsNumeral word then .number value else .identifier (String.ofList word)
  | none => .identifier (String.ofList word)

/-- A word that is not reserved, then the marks at its end. -/
def ofWord (text : List Char) : Piece × List Piece :=
  let (base, marks) := splitMarks (afterWord text).head? [] (word text).reverse
  (⟨classify base, base⟩, marks)

/-- The pieces at the front of a text that starts with `c`, neither blank nor comment: a mark, a
reserved word, the concatenation sign, or any other word with the marks glued to it. -/
def read (c : Char) (rest : List Char) : Piece × List Piece :=
  match TokenKind.ofMark? c with
  | some kind => (⟨kind, [c]⟩, [])
  | none =>
    match TokenKind.ofReserved? (String.ofList (stem (word (c :: rest)))) with
    | some kind => (⟨kind, stem (word (c :: rest))⟩, [])
    | none => if c = '&' then (⟨.operator .concatenation, [c]⟩, []) else ofWord (c :: rest)

/-- The text that some pieces stand for. -/
def textOf (pieces : List Piece) : List Char := pieces.flatMap text

/-- The tokens of some pieces, the first of which stands at `p`. -/
def place (p : Position) : List Piece → List Token
  | [] => []
  | piece :: rest => ⟨piece.kind, p⟩ :: place (p.after piece.text) rest

theorem endsWord_eq_false {c : Char} (hm : TokenKind.ofMark? c = none) (hb : isBlank c = false) :
    endsWord c = false := by
  have hcomma : c ≠ ',' := by rintro rfl; exact absurd hm (by decide)
  have hdot : c ≠ '.' := by rintro rfl; exact absurd hm (by decide)
  simp [endsWord, hb, hcomma, hdot]

/-- Splitting marks off never empties a word whose first character is no mark. -/
theorem splitMarks_ne_nil {c : Char} (hm : TokenKind.ofMark? c = none) (next : Option Char)
    (marks : List Piece) (back : List Char) : (splitMarks next marks (back ++ [c])).1 ≠ [] := by
  induction back generalizing next marks with
  | nil =>
    have h : endingMark? c next = none := by simp [endingMark?, hm]
    simp [splitMarks, h]
  | cons d before ih =>
    rw [List.cons_append, splitMarks]
    split
    · exact ih _ _
    · simp

/-- Every reading takes at least one character. -/
theorem read_fst_text_ne_nil {c : Char} (rest : List Char) (hb : isBlank c = false) :
    (read c rest).1.text ≠ [] := by
  unfold read
  cases hm : TokenKind.ofMark? c with
  | some kind => simp
  | none =>
    cases hk : TokenKind.ofReserved? (String.ofList (stem (word (c :: rest)))) with
    | some kind =>
      intro h
      replace h : stem (word (c :: rest)) = [] := h
      have hnone : TokenKind.ofReserved? (String.ofList []) = none := by decide
      rw [h, hnone] at hk
      exact absurd hk (by simp)
    | none =>
      by_cases ha : c = '&'
      · simp only [if_pos ha]; simp
      · have hword : word (c :: rest) = c :: word rest := by
          simp [word, endsWord_eq_false hm hb]
        simp only [if_neg ha, ofWord, hword, List.reverse_cons]
        exact splitMarks_ne_nil hm _ _ _

end Piece

end VhdlGates
