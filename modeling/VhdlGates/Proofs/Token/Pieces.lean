import Mathlib.Data.List.Infix
import VhdlGates.Token.Piece

/-! The pieces that are read off the front of a text stand for exactly that front, each with a text
of its kind. -/
namespace VhdlGates

/-- The texts that a token of this kind may stand for. Only a number has several, and the end of the
input has none. -/
def TokenKind.IsText : TokenKind → List Char → Prop
  | keyword k, word => word = k.spelling.toList
  | punctuation p, word => word = [p.char]
  | paren p, word => word = [p.char]
  | operator o, word => word = o.spelling.toList
  | identifier name, word => word = name.toList
  | number value, word => Piece.classify word = .number value
  | endOfInput, _ => False

lemma Paren.char_of_ofChar? {c : Char} {p : Paren} (h : ofChar? c = some p) : p.char = c := by
  unfold ofChar? at h
  split at h
  all_goals simp only [Option.some.injEq, reduceCtorEq] at h
  all_goals subst h; rfl

lemma Punctuation.char_of_ofChar? {c : Char} {p : Punctuation} (h : ofChar? c = some p) :
    p.char = c := by
  unfold ofChar? at h
  split at h
  all_goals simp only [Option.some.injEq, reduceCtorEq] at h
  all_goals subst h; rfl

lemma Operator.spelling_of_ofWord? {word : String} {o : Operator} (h : ofWord? word = some o) :
    o.spelling = word := by
  simp only [ofWord?, Option.orElse_eq_orElse, Option.orElse_eq_or, Option.or_eq_some_iff,
    Option.map_eq_some_iff] at h
  rcases h with ⟨o, ho, rfl⟩ | ⟨-, ⟨o, ho, rfl⟩ | ⟨-, ⟨o, ho, rfl⟩ | ⟨-, o, ho, rfl⟩⟩⟩
  all_goals simpa [spelling] using List.find?_some ho

namespace TokenKind

lemma isText_of_ofMark? {c : Char} {kind : TokenKind} (h : ofMark? c = some kind) :
    kind.IsText [c] := by
  simp only [ofMark?, Option.orElse_eq_orElse, Option.orElse_eq_or, Option.or_eq_some_iff,
    Option.map_eq_some_iff] at h
  rcases h with ⟨p, hp, rfl⟩ | ⟨-, p, hp, rfl⟩
  · rw [IsText, Paren.char_of_ofChar? hp]
  · rw [IsText, Punctuation.char_of_ofChar? hp]

lemma isText_of_ofReserved? {word : List Char} {kind : TokenKind}
    (h : ofReserved? (String.ofList word) = some kind) : kind.IsText word := by
  simp only [ofReserved?, Option.orElse_eq_orElse, Option.orElse_eq_or, Option.or_eq_some_iff,
    Option.map_eq_some_iff] at h
  rcases h with ⟨k, hk, rfl⟩ | ⟨-, o, ho, rfl⟩
  · rw [IsText, Keyword.spelling_of_ofWord? hk, String.toList_ofList]
  · rw [IsText, Operator.spelling_of_ofWord? ho, String.toList_ofList]

end TokenKind

namespace Piece

/-- The piece stands for some text of its kind. -/
def IsSound (piece : Piece) : Prop := piece.text ≠ [] ∧ piece.kind.IsText piece.text

lemma isText_classify (word : List Char) : (classify word).IsText word := by
  cases h : classify word with
  | number value => exact h
  | identifier name =>
    unfold classify at h
    split at h
    · split_ifs at h
      obtain rfl := TokenKind.identifier.inj h
      exact String.toList_ofList.symm
    · obtain rfl := TokenKind.identifier.inj h
      exact String.toList_ofList.symm
  | _ =>
    unfold classify at h
    split at h
    · split_ifs at h
    · cases h

lemma stem_isPrefix (word : List Char) : stem word <+: word := by
  have hstem : stem word <+: word.takeWhile (· != '(') := by
    rw [stem, ← List.reverse_suffix, List.reverse_reverse]
    exact List.dropWhile_suffix _
  have htake : word.takeWhile (· != '(') <+: word := List.takeWhile_prefix _
  exact hstem.trans htake

lemma endingMark?_eq_some {c : Char} {next : Option Char} {kind : TokenKind}
    (h : endingMark? c next = some kind) : TokenKind.ofMark? c = some kind := by
  unfold endingMark? at h
  split_ifs at h
  exact h

/-- Splitting marks off only moves the boundary in the word. -/
lemma splitMarks_text (next : Option Char) (marks : List Piece) (back : List Char) :
    (splitMarks next marks back).1 ++ textOf (splitMarks next marks back).2 =
      back.reverse ++ textOf marks := by
  fun_induction splitMarks next marks back with
  | case1 => rfl
  | case2 next marks c before kind hkind ih =>
    rw [ih]
    simp [textOf]
  | case3 => rfl

lemma splitMarks_sound (next : Option Char) (marks : List Piece) (back : List Char)
    (hmarks : ∀ piece ∈ marks, piece.IsSound) :
    ∀ piece ∈ (splitMarks next marks back).2, piece.IsSound := by
  fun_induction splitMarks next marks back with
  | case1 => exact hmarks
  | case2 next marks c before kind hkind ih =>
    apply ih
    rw [List.forall_mem_cons]
    have htext := TokenKind.isText_of_ofMark? (endingMark?_eq_some hkind)
    exact ⟨⟨List.cons_ne_nil _ _, htext⟩, hmarks⟩
  | case3 => exact hmarks

/-- The pieces of a reading, the first of them and those glued to it. -/
def pieces (c : Char) (rest : List Char) : List Piece := (read c rest).1 :: (read c rest).2

lemma textOf_ofWord (text : List Char) :
    textOf ((ofWord text).1 :: (ofWord text).2) = word text := by
  have h := splitMarks_text (afterWord text).head? [] (word text).reverse
  rw [List.reverse_reverse] at h
  simpa [ofWord, textOf] using h

/-- The pieces stand for the front of the text. -/
lemma textOf_pieces_isPrefix (c : Char) (rest : List Char) :
    textOf (pieces c rest) <+: c :: rest := by
  have hword : word (c :: rest) <+: c :: rest := List.takeWhile_prefix _
  unfold pieces read
  split
  · exact ⟨rest, rfl⟩
  · split
    · have hstem := (stem_isPrefix (word (c :: rest))).trans hword
      simpa [textOf] using hstem
    · split_ifs
      · exact ⟨rest, rfl⟩
      · rw [textOf_ofWord]
        exact hword

lemma pieces_sound {c : Char} (rest : List Char) (hb : Text.isBlank c = false) :
    ∀ piece ∈ pieces c rest, piece.IsSound := by
  have hfirst := read_fst_text_ne_nil rest hb
  rw [pieces, List.forall_mem_cons]
  refine ⟨⟨hfirst, ?_⟩, ?_⟩
  · unfold read
    split
    next kind hkind => exact TokenKind.isText_of_ofMark? hkind
    next =>
      split
      next kind hkind => exact TokenKind.isText_of_ofReserved? hkind
      next =>
        split_ifs with hc
        · rw [hc]
          rfl
        · exact isText_classify _
  · unfold read
    split
    next => simp
    next =>
      split
      next => simp
      next =>
        split_ifs
        · simp
        · exact splitMarks_sound _ _ _ (by simp)

end Piece

end VhdlGates
