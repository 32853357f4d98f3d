import VhdlGates.Token.Gap
import VhdlGates.Token.Piece

/-! Lexemes, and the tokens of a whole source text. -/
namespace VhdlGates

/-- What one step of reading yields: a token, with the marks glued to its end as further
tokens. -/
structure Lexeme where
  first : Token
  glued : List Token
  deriving DecidableEq, Repr

namespace Lexeme

def tokens (l : Lexeme) : List Token := l.first :: l.glued

/-- Whether the lexeme holds more than one token. -/
def isBundle (l : Lexeme) : Bool := !l.glued.isEmpty

end Lexeme

/-- A place in a text, and the text from there on. -/
structure Cursor where
  position : Position
  rest : List Char
  deriving DecidableEq, Repr

namespace Cursor

def ofText (text : List Char) : Cursor := ⟨.start, text⟩

/-- Past `count` characters. -/
def advance (s : Cursor) (count : Nat) : Cursor :=
  ⟨s.position.after (s.rest.take count), s.rest.drop count⟩

/-- Past the blanks and comments in front. -/
def skipGap (s : Cursor) : Cursor :=
  let (gap, rest) := splitGap false s.rest
  ⟨s.position.after gap, rest⟩

/-- The lexeme after the next gap, and where it ends. -/
def next? (s : Cursor) : Option (Lexeme × Cursor) :=
  let here := s.skipGap
  match here.rest with
  | [] => none
  | c :: rest =>
    let (first, glued) := Piece.read c rest
    some (⟨⟨first.kind, here.position⟩, Piece.place (here.position.after first.text) glued⟩,
      here.advance (Piece.textOf (first :: glued)).length)

/-- The lexeme that marks the end of the text, after its last gap. -/
def ending (s : Cursor) : Lexeme := ⟨⟨.endOfInput, s.skipGap.position⟩, []⟩

/-- One step of reading, which stays at the end once it is reached. -/
def next (s : Cursor) : Lexeme × Cursor := s.next?.getD (s.ending, s.skipGap)

theorem length_rest_next? {s t : Cursor} {l : Lexeme} (h : s.next? = some (l, t)) :
    t.rest.length < s.rest.length := by
  have hle := length_splitGap_snd_le false s.rest
  unfold next? at h
  cases hr : s.skipGap.rest with
  | nil => simp [hr] at h
  | cons c rest =>
    have hb := isBlank_head_splitGap false s.rest c rest hr
    have hpos : 0 < (Piece.read c rest).1.text.length :=
      List.length_pos_iff.2 (Piece.read_fst_text_ne_nil rest hb)
    simp only [hr, Option.some.injEq, Prod.mk.injEq] at h
    obtain ⟨-, rfl⟩ := h
    have hlen : s.skipGap.rest.length ≤ s.rest.length := hle
    simp only [advance, hr, Piece.textOf, List.flatMap_cons, List.length_append, List.length_drop]
    rw [hr] at hlen
    simp only [List.length_cons] at hlen ⊢
    omega

/-- The lexemes of repeated reading, which goes on `extra` times past the end. -/
def readings (extra : Nat) (s : Cursor) : List Lexeme :=
  match h : s.next? with
  | none => List.replicate (extra + 1) s.ending
  | some (l, t) => l :: readings extra t
termination_by s.rest.length
decreasing_by exact length_rest_next? h

end Cursor

/-- The lexemes of a source text, up to the one that marks its end. -/
def lexemes (source : String) : List Lexeme := (Cursor.ofText source.toList).readings 0

/-- The tokens of a source text. The last one, and no other, marks its end. -/
def tokenize (source : String) : List Token := (lexemes source).flatMap Lexeme.tokens

end VhdlGates
