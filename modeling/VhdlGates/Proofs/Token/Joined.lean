import VhdlGates.Proofs.Token.Cover

/-! Texts that go on after a blank. The words before the blank are read as if the text ended there,
so texts that are joined by a line break are read one after the other. -/
namespace VhdlGates

open Text (isBlank endsLine)

lemma Text.ne_hyphen_of_isBlank {c : Char} (h : isBlank c = true) : c ≠ '-' := by
  rintro rfl
  exact absurd h (by decide)

lemma splitGap_false_cons {c : Char} {rest : List Char}
    (h : ∀ tail, c = '-' → rest = '-' :: tail → False) : splitGap false (c :: rest) =
      if isBlank c then (c :: (splitGap false rest).1, (splitGap false rest).2)
      else ([], c :: rest) := by
  rw [splitGap.eq_4 _ _ h]

/-- What stands before a word is the same gap if the text goes on after a blank. -/
lemma splitGap_append_of_cons {b : Char} (hb : isBlank b = true) (more : List Char)
    {inside : Bool} {text : List Char} {c : Char} {rest : List Char}
    (h : (splitGap inside text).2 = c :: rest) :
    splitGap inside (text ++ b :: more) = ((splitGap inside text).1, c :: rest ++ b :: more) := by
  fun_induction splitGap inside text with
  | case1 => cases h
  | case2 d rest gap text heq ih =>
    rw [heq] at ih
    rw [List.cons_append, splitGap, ih h]
  | case3 rest gap text heq ih =>
    rw [heq] at ih
    rw [List.cons_append, List.cons_append, splitGap, ih h]
  | case4 d rest hcomment hd gap text heq ih =>
    rw [heq] at ih
    rw [List.cons_append, splitGap_false_cons fun _ hhyphen _ =>
      Text.ne_hyphen_of_isBlank hd hhyphen, if_pos hd, ih h]
  | case5 d rest hcomment hd =>
    cases h
    rw [List.cons_append, splitGap_false_cons, if_neg hd]
    -- a hyphen at the end of the text is not followed by a second one
    intro tail hhyphen htail
    cases rest with
    | nil => exact Text.ne_hyphen_of_isBlank hb (List.cons.inj htail).1
    | cons e rest =>
      obtain ⟨rfl, -⟩ := List.cons.inj htail
      exact hcomment rest hhyphen rfl

/-- A text of blanks and comments is part of a longer gap if it goes on after a line break, which
ends a comment at its end. -/
lemma splitGap_append_of_nil {b : Char} (hb : endsLine b = true) (more : List Char)
    {inside : Bool} {text : List Char} (h : (splitGap inside text).2 = []) :
    splitGap inside (text ++ b :: more) =
      (text ++ b :: (splitGap false more).1, (splitGap false more).2) := by
  have hblank := Text.isBlank_of_endsLine hb
  fun_induction splitGap inside text with
  | case1 inside =>
    cases inside with
    | true => rw [List.nil_append, splitGap, hb]; rfl
    | false =>
      rw [List.nil_append, splitGap_false_cons fun _ hhyphen _ =>
        Text.ne_hyphen_of_isBlank hblank hhyphen, if_pos hblank]
      rfl
  | case2 d rest gap text heq ih =>
    rw [heq] at ih
    rw [List.cons_append, splitGap, ih h]
    rfl
  | case3 rest gap text heq ih =>
    rw [heq] at ih
    rw [List.cons_append, List.cons_append, splitGap, ih h]
    rfl
  | case4 d rest hcomment hd gap text heq ih =>
    rw [heq] at ih
    rw [List.cons_append, splitGap_false_cons fun _ hhyphen _ =>
      Text.ne_hyphen_of_isBlank hd hhyphen, if_pos hd, ih h]
    rfl
  | case5 => cases h

namespace Piece

lemma endsWord_of_isBlank {c : Char} (h : isBlank c = true) : endsWord c = true := by
  simp [endsWord, h]

lemma word_append {b : Char} (hb : endsWord b = true) (text more : List Char) :
    word (text ++ b :: more) = word text := by
  induction text with
  | nil => simp [word, hb]
  | cons c text ih =>
    unfold word at ih ⊢
    simp only [List.cons_append, List.takeWhile_cons, ih]

lemma afterWord_append {b : Char} (hb : endsWord b = true) (text more : List Char) :
    afterWord (text ++ b :: more) = afterWord text ++ b :: more := by
  induction text with
  | nil => simp [afterWord, hb]
  | cons c text ih =>
    unfold afterWord at ih ⊢
    simp only [List.cons_append, List.dropWhile_cons, ih]
    split_ifs <;> rfl

/-- For the marks at the end of a word, a blank after it is as good as the end of the text. -/
lemma splitMarks_congr {next other : Option Char} (h : next.all isBlank = other.all isBlank)
    (marks : List Piece) (back : List Char) :
    splitMarks next marks back = splitMarks other marks back := by
  cases back with
  | nil => rfl
  | cons c before => simp only [splitMarks, endingMark?, h]

lemma all_head?_append {b : Char} (hb : isBlank b = true) (text more : List Char) :
    (text ++ b :: more).head?.all isBlank = text.head?.all isBlank := by
  cases text with
  | nil => simp [hb]
  | cons c text => rfl

/-- The pieces in front of a text are the same if it goes on after a blank. -/
lemma read_append {b : Char} (hb : isBlank b = true) (c : Char) (rest more : List Char) :
    read c (rest ++ b :: more) = read c rest := by
  have hword : word (c :: (rest ++ b :: more)) = word (c :: rest) :=
    word_append (endsWord_of_isBlank hb) (c :: rest) more
  have hofWord : ofWord (c :: (rest ++ b :: more)) = ofWord (c :: rest) := by
    have hafter : afterWord (c :: (rest ++ b :: more)) = afterWord (c :: rest) ++ b :: more :=
      afterWord_append (endsWord_of_isBlank hb) (c :: rest) more
    unfold ofWord
    rw [hword, hafter, splitMarks_congr (all_head?_append hb _ more)]
  unfold read
  rw [hword, hofWord]

end Piece

namespace Cursor

variable {s t u : Cursor} {l : Lexeme}

/-- The same place in a text that goes on. -/
def extend (s : Cursor) (more : List Char) : Cursor := ⟨s.position, s.rest ++ more⟩

/-- The tokens from a place on. -/
def tokens (s : Cursor) : List Token := (s.readings 0).flatMap Lexeme.tokens

lemma tokens_of_next?_some (h : s.next? = some (l, t)) : s.tokens = l.tokens ++ t.tokens := by
  unfold tokens
  rw [readings]
  split
  next hnone => rw [h] at hnone; cases hnone
  next hsome =>
    rw [h] at hsome
    cases hsome
    exact List.flatMap_cons

lemma tokens_of_next?_none (h : s.next? = none) :
    s.tokens = [⟨.endOfInput, s.position.after s.rest⟩] := by
  have hsplit := next?_eq_none h
  unfold tokens
  rw [readings]
  split
  next => simp [ending, skipGap, hsplit, Lexeme.tokens]
  next hsome => rw [h] at hsome; cases hsome

/-- The tokens depend only on the place after the next gap. -/
lemma tokens_congr (h : s.skipGap = u.skipGap) : s.tokens = u.tokens := by
  have hnext : s.next? = u.next? := by rw [next?, next?, h]
  cases hs : s.next? with
  | none =>
    have hu : u.next? = none := hnext.symm.trans hs
    have hposition : s.skipGap.position = u.skipGap.position := by rw [h]
    rw [tokens_of_next?_none hs, tokens_of_next?_none hu]
    simpa [skipGap, next?_eq_none hs, next?_eq_none hu] using hposition
  | some step =>
    have hu : u.next? = some step := hnext.symm.trans hs
    rw [tokens_of_next?_some hs, tokens_of_next?_some hu]

/-- A blank in front is passed. -/
lemma tokens_blank {b : Char} (hb : isBlank b = true) (p : Position) (more : List Char) :
    (⟨p, b :: more⟩ : Cursor).tokens = (⟨p.step b, more⟩ : Cursor).tokens := by
  refine tokens_congr ?_
  simp [skipGap, splitGap_false_cons fun _ hhyphen _ => Text.ne_hyphen_of_isBlank hb hhyphen, hb]

lemma next?_of_skipGap {c : Char} {rest : List Char} (h : s.skipGap.rest = c :: rest) :
    s.next? = some
      (⟨⟨(Piece.read c rest).1.kind, s.skipGap.position⟩,
        Piece.place (s.skipGap.position.after (Piece.read c rest).1.text) (Piece.read c rest).2⟩,
        s.skipGap.advance (Piece.textOf (Piece.pieces c rest)).length) := by
  rw [next?, h]
  rfl

lemma advance_extend {count : ℕ} (h : count ≤ s.rest.length) (more : List Char) :
    (s.extend more).advance count = (s.advance count).extend more := by
  simp only [advance, extend, List.take_append_of_le_length h, List.drop_append_of_le_length h]

lemma skipGap_extend {b : Char} (hb : isBlank b = true) (more : List Char) {c : Char}
    {rest : List Char} (h : s.skipGap.rest = c :: rest) :
    (s.extend (b :: more)).skipGap = s.skipGap.extend (b :: more) := by
  have hsplit := splitGap_append_of_cons hb more h
  simp only [skipGap, extend, hsplit]
  exact congrArg (Cursor.mk _) (congrArg (· ++ b :: more) h.symm)

/-- A step of reading is the same in a text that goes on after a blank. -/
lemma next?_extend {b : Char} (hb : isBlank b = true) (more : List Char)
    (h : s.next? = some (l, t)) :
    (s.extend (b :: more)).next? = some (l, t.extend (b :: more)) := by
  cases hrest : s.skipGap.rest with
  | nil => simp [next?, hrest] at h
  | cons c rest =>
    have hgap := skipGap_extend hb more hrest
    have hextended : (s.extend (b :: more)).skipGap.rest = c :: (rest ++ b :: more) := by
      rw [hgap, extend, hrest, List.cons_append]
    have hlength : (Piece.textOf (Piece.pieces c rest)).length ≤ s.skipGap.rest.length := by
      rw [hrest]
      exact (Piece.textOf_pieces_isPrefix c rest).length_le
    rw [next?_of_skipGap hrest, Option.some.injEq, Prod.mk.injEq] at h
    obtain ⟨rfl, rfl⟩ := h
    rw [next?_of_skipGap hextended, Piece.pieces, Piece.read_append hb, hgap, ← advance_extend hlength]
    rfl

/-- A text without words is passed together with the line break after it. -/
lemma tokens_extend_of_next?_none {b : Char} (hb : endsLine b = true) (more : List Char)
    (h : s.next? = none) :
    (s.extend (b :: more)).tokens = (⟨(s.position.after s.rest).step b, more⟩ : Cursor).tokens := by
  have hrest : (splitGap false s.rest).2 = [] := by rw [next?_eq_none h]
  refine tokens_congr ?_
  simp [skipGap, extend, splitGap_append_of_nil hb more hrest]

/-- The tokens of a text that goes on after a line break: those of the text but the last, which marks
its end, then those of the lines that follow. -/
lemma tokens_extend {b : Char} (hb : endsLine b = true) (more : List Char) (s : Cursor) :
    ∃ front, s.tokens = front ++ [⟨.endOfInput, s.position.after s.rest⟩] ∧
      (s.extend (b :: more)).tokens =
        front ++ (⟨(s.position.after s.rest).step b, more⟩ : Cursor).tokens := by
  induction s using readings.induct with
  | case1 s hnext =>
    exact ⟨[], tokens_of_next?_none hnext, tokens_extend_of_next?_none hb more hnext⟩
  | case2 s l t hnext ih =>
    obtain ⟨front, htokens, hextended⟩ := ih
    rw [after_rest_next? hnext] at htokens hextended
    refine ⟨l.tokens ++ front, ?_, ?_⟩
    · rw [tokens_of_next?_some hnext, htokens, List.append_assoc]
    · rw [tokens_of_next?_some (next?_extend (Text.isBlank_of_endsLine hb) more hnext), hextended,
        List.append_assoc]

end Cursor

section Down

variable (lines : ℕ)

/-- The same column, some lines further down. -/
def Position.down (p : Position) : Position := ⟨p.line + lines, p.column⟩

def Token.down (t : Token) : Token := ⟨t.kind, t.position.down lines⟩

def Lexeme.down (l : Lexeme) : Lexeme := ⟨l.first.down lines, l.glued.map (Token.down lines)⟩

def Cursor.down (s : Cursor) : Cursor := ⟨s.position.down lines, s.rest⟩

lemma Position.step_down (p : Position) (c : Char) :
    (p.down lines).step c = (p.step c).down lines := by
  unfold step down
  split_ifs
  · simp only [Nat.add_right_comm]
  · rfl

lemma Position.after_down (p : Position) (text : List Char) :
    (p.down lines).after text = (p.after text).down lines := by
  induction text generalizing p with
  | nil => rfl
  | cons c text ih => rw [after_cons, after_cons, step_down, ih]

lemma Piece.place_down (p : Position) (pieces : List Piece) :
    place (p.down lines) pieces = (place p pieces).map (Token.down lines) := by
  induction pieces generalizing p with
  | nil => rfl
  | cons piece pieces ih =>
    rw [place, place, Position.after_down, ih]
    rfl

lemma Lexeme.tokens_down (l : Lexeme) :
    (l.down lines).tokens = l.tokens.map (Token.down lines) := rfl

namespace Cursor

lemma skipGap_down (s : Cursor) : (s.down lines).skipGap = s.skipGap.down lines := by
  simp only [skipGap, down, Position.after_down]

lemma advance_down (s : Cursor) (count : ℕ) :
    (s.down lines).advance count = (s.advance count).down lines := by
  simp only [advance, down, Position.after_down]

/-- Reading does not look at the place. -/
lemma next?_down (s : Cursor) :
    (s.down lines).next? = s.next?.map fun (l, t) => (l.down lines, t.down lines) := by
  have hrest : (s.down lines).skipGap.rest = s.skipGap.rest := rfl
  cases h : s.skipGap.rest with
  | nil => simp [next?, hrest, h]
  | cons c rest =>
    rw [next?_of_skipGap h, next?_of_skipGap (hrest.trans h), skipGap_down, advance_down]
    simp only [down, Position.after_down, Piece.place_down]
    rfl

lemma tokens_down (s : Cursor) : (s.down lines).tokens = s.tokens.map (Token.down lines) := by
  induction s using readings.induct with
  | case1 s hnext =>
    rw [tokens_of_next?_none hnext, tokens_of_next?_none (by rw [next?_down, hnext]; rfl)]
    simp only [down, Position.after_down]
    rfl
  | case2 s l t hnext ih =>
    have hdown : (s.down lines).next? = some (l.down lines, t.down lines) := by
      rw [next?_down, hnext]
      rfl
    rw [tokens_of_next?_some hnext, tokens_of_next?_some hdown, ih, List.map_append,
      Lexeme.tokens_down]

end Cursor

end Down

/-- Texts that are joined by a line break are read one after the other, whatever the first of them
ends in. The tokens of the second keep their columns, and stand as many lines further down as the
first has, with the one that the line break ends. -/
theorem tokenize_lineBreak (first second : String) :
    ∃ tokens, tokenize first = tokens ++ [⟨.endOfInput, Position.past first.toList⟩] ∧
      tokenize (first ++ "\n" ++ second) =
        tokens ++ (tokenize second).map (Token.down (1 + first.toList.count '\n')) := by
  obtain ⟨tokens, hfirst, hjoined⟩ :=
    (Cursor.ofText first.toList).tokens_extend (b := '\n') rfl second.toList
  have hplace : (Position.start.after first.toList).step '\n' =
      Position.start.down (1 + first.toList.count '\n') := by
    rw [Position.start_after]
    simp [Position.past, Position.step, Position.start, Position.down, Nat.add_comm]
  refine ⟨tokens, ?_, ?_⟩
  · rw [← Position.start_after]
    exact hfirst
  · have hsource : (first ++ "\n" ++ second).toList = first.toList ++ '\n' :: second.toList := by
      simp
    calc tokenize (first ++ "\n" ++ second)
        = ((Cursor.ofText first.toList).extend ('\n' :: second.toList)).tokens := by
          rw [tokenize, lexemes, hsource]
          rfl
      _ = tokens ++ ((Cursor.ofText second.toList).down (1 + first.toList.count '\n')).tokens := by
          rw [hjoined]
          exact congrArg (fun p => tokens ++ (Cursor.mk p second.toList).tokens) hplace
      _ = tokens ++ (tokenize second).map (Token.down (1 + first.toList.count '\n')) := by
          rw [Cursor.tokens_down]
          rfl

end VhdlGates
