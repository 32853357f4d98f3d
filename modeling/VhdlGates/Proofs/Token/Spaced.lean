import Mathlib.Data.List.Forall2
import Mathlib.Data.List.TakeWhile
import VhdlGates.Proofs.Token.Joined

/-! Tokens written with spaces between them. Each is read back as it was written, so reading undoes
writing, whatever tokens stand next to each other. -/
namespace VhdlGates

open Decimal (Binary64)
open Text (isBlank)

namespace Piece

/-- A word that ends neither inside nor before its last character. -/
structure IsPlain (word : List Char) : Prop where
  inside : word.any endsWord = false
  ending : word.getLast?.any isMark = false

/-- A plain word in front of which nothing else is found: no mark, no concatenation sign, no comment
and no reserved word. -/
structure IsFree (word : List Char) : Prop extends IsPlain word where
  not_mark : word.head?.any isMark = false
  not_sign : word.head? ≠ some '&'
  not_comment : ¬['-', '-'] <+: word
  not_reserved : TokenKind.ofReserved? (String.ofList (stem word)) = none

/-- The names of identifiers that can be told from all other tokens. -/
structure IsName (word : List Char) : Prop extends IsFree word where
  ne_nil : word ≠ []
  not_number : ∀ value, classify word ≠ .number value

lemma word_eq_self {text : List Char} (h : text.any endsWord = false) : word text = text := by
  unfold word
  rw [List.takeWhile_eq_self_iff]
  simpa using h

lemma isBlank_eq_false_of_any {c : Char} {rest : List Char}
    (h : (c :: rest).any endsWord = false) : isBlank c = false := by
  simp only [List.any_cons, endsWord, Bool.or_eq_false_iff] at h
  exact h.1.1.1

lemma ofMark?_eq_none {c : Char} : TokenKind.ofMark? c = none ↔ isMark c = false := by
  simp [isMark]

lemma splitMarks_of_ending {word : List Char} (h : word.getLast?.any isMark = false)
    (next : Option Char) : splitMarks next [] word.reverse = (word, []) := by
  induction word using List.reverseRecOn with
  | nil => rfl
  | append_singleton front c _ =>
    have hc : TokenKind.ofMark? c = none := ofMark?_eq_none.mpr (by simpa using h)
    have hending : endingMark? c next = none := by simp [endingMark?, hc]
    simp [splitMarks, hending]

lemma IsPlain.ofWord {word : List Char} (h : IsPlain word) :
    ofWord word = (⟨classify word, word⟩, []) := by
  unfold Piece.ofWord
  rw [word_eq_self h.inside, splitMarks_of_ending h.ending]

lemma IsFree.read {c : Char} {rest : List Char} (h : IsFree (c :: rest)) :
    read c rest = (⟨classify (c :: rest), c :: rest⟩, []) := by
  have hmark : isMark c = false := h.not_mark
  have hsign : c ≠ '&' := fun hc => h.not_sign (congrArg some hc)
  unfold Piece.read
  simp only [ofMark?_eq_none.mpr hmark, word_eq_self h.inside, h.not_reserved, if_neg hsign,
    h.toIsPlain.ofWord]

lemma IsFree.splitGap {c : Char} {rest : List Char} (h : IsFree (c :: rest)) :
    splitGap false (c :: rest) = ([], c :: rest) := by
  have hblank := isBlank_eq_false_of_any h.inside
  rw [splitGap_false_cons, if_neg (by simp [hblank])]
  rintro tail rfl rfl
  exact h.not_comment ⟨tail, rfl⟩

lemma classify_cases (word : List Char) :
    classify word = .identifier (String.ofList word) ∨ ∃ value, classify word = .number value := by
  unfold classify
  split
  · split_ifs <;> simp
  · exact .inl rfl

lemma IsName.classify_eq {word : List Char} (h : IsName word) :
    classify word = .identifier (String.ofList word) :=
  (classify_cases word).resolve_right fun ⟨value, hvalue⟩ => h.not_number value hvalue

/-- The characters that a numeral may start with. -/
def isNumeralStart (c : Char) : Bool := c.isDigit || c == '+' || c == '-'

lemma startsNumeral_of_classify {word : List Char} {value : Binary64}
    (h : classify word = .number value) : startsNumeral word = true := by
  unfold classify at h
  split at h
  · split_ifs at h with hstart
    exact hstart
  · cases h

lemma head_of_startsNumeral {word : List Char} (h : startsNumeral word = true) :
    ∃ c rest, word = c :: rest ∧ isNumeralStart c = true ∧ ¬['-', '-'] <+: word := by
  unfold startsNumeral at h
  split at h
  · exact ⟨_, _, rfl, rfl, by simp⟩
  · refine ⟨_, _, rfl, rfl, ?_⟩
    rintro ⟨tail, htail⟩
    simp only [List.cons_append, List.cons.injEq] at htail
    rw [← htail.2.1] at h
    exact absurd h (by decide)
  · refine ⟨_, _, rfl, by simp [isNumeralStart, h], ?_⟩
    rintro ⟨tail, htail⟩
    rw [← (List.cons.inj htail).1] at h
    exact absurd h (by decide)
  · cases h

end Piece

/-- No reserved word starts as a numeral does. -/
lemma TokenKind.isNumeralStart_of_ofReserved? {c : Char} {rest : List Char} {kind : TokenKind}
    (h : ofReserved? (String.ofList (c :: rest)) = some kind) : Piece.isNumeralStart c = false := by
  have htext := isText_of_ofReserved? h
  simp only [ofReserved?, Option.orElse_eq_orElse, Option.orElse_eq_or, Option.or_eq_some_iff,
    Option.map_eq_some_iff] at h
  rcases h with ⟨k, -, rfl⟩ | ⟨-, o, -, rfl⟩
  · rw [IsText] at htext
    cases k <;> cases htext <;> decide
  · rw [IsText] at htext
    cases o with
    | concatenation => cases htext; decide
    | _ o => cases o <;> cases htext <;> decide

namespace Piece

lemma start_of_isNumeralStart {c : Char} (h : isNumeralStart c = true) :
    isMark c = false ∧ c ≠ '&' := by
  refine ⟨?_, fun hc => absurd h (by rw [hc]; decide)⟩
  cases hmark : TokenKind.ofMark? c with
  | none => simp [isMark, hmark]
  | some kind =>
    simp only [TokenKind.ofMark?, Option.orElse_eq_orElse, Option.orElse_eq_or,
      Option.or_eq_some_iff, Option.map_eq_some_iff] at hmark
    exfalso
    rcases hmark with ⟨p, hp, -⟩ | ⟨-, p, hp, -⟩
    · rw [← Paren.char_of_ofChar? hp] at h
      revert h
      cases p <;> decide
    · rw [← Punctuation.char_of_ofChar? hp] at h
      revert h
      cases p <;> decide

/-- Nothing else is found in front of a numeral. -/
lemma IsPlain.isFree_of_classify {word : List Char} {value : Binary64} (hplain : IsPlain word)
    (h : classify word = .number value) : IsFree word := by
  obtain ⟨c, rest, rfl, hc, hcomment⟩ := head_of_startsNumeral (startsNumeral_of_classify h)
  obtain ⟨hmark, hsign⟩ := start_of_isNumeralStart hc
  refine ⟨hplain, hmark, fun hhead => hsign (Option.some.inj hhead), hcomment, ?_⟩
  cases hstem : stem (c :: rest) with
  | nil => decide
  | cons d tail =>
    obtain ⟨after, hafter⟩ := stem_isPrefix (c :: rest)
    rw [hstem, List.cons_append, List.cons.injEq] at hafter
    refine Option.eq_none_iff_forall_ne_some.mpr fun kind hkind => ?_
    have hd := TokenKind.isNumeralStart_of_ofReserved? hkind
    rw [hafter.1, hc] at hd
    cases hd

/-- A word that is read as one token of this kind, with no gap before it. -/
def ReadsAs (kind : TokenKind) (word : List Char) : Prop :=
  ∃ c rest, word = c :: rest ∧ splitGap false word = ([], word) ∧
    read c rest = (⟨kind, word⟩, [])

lemma ReadsAs.of_reserved {kind : TokenKind} {word : String} {c : Char} {rest : List Char}
    (hword : word.toList = c :: rest) (hinside : (c :: rest).any endsWord = false)
    (hstart : isMark c = false ∧ c ≠ '-') (hstem : stem (c :: rest) = c :: rest)
    (h : TokenKind.ofReserved? word = some kind) : ReadsAs kind word.toList := by
  have hblank := isBlank_eq_false_of_any hinside
  rw [← String.ofList_toList (s := word), hword] at h
  refine ⟨c, rest, hword, ?_, ?_⟩
  · rw [hword, splitGap_false_cons fun _ hhyphen _ => hstart.2 hhyphen, if_neg (by simp [hblank])]
  · unfold Piece.read
    simp only [ofMark?_eq_none.mpr hstart.1, word_eq_self hinside, hstem, h, hword]

lemma IsFree.readsAs {word : List Char} (h : IsFree word) (hne : word ≠ []) :
    ReadsAs (classify word) word := by
  obtain ⟨c, rest, rfl⟩ := List.exists_cons_of_ne_nil hne
  exact ⟨c, rest, rfl, h.splitGap, h.read⟩

end Piece

/-- How a token is written between spaces. A number may be written by any word that reads as it,
and the assignment to a variable cannot be written at all. -/
inductive TokenKind.Spells : TokenKind → String → Prop
  | keyword (k : Keyword) : Spells (.keyword k) k.spelling
  | punctuation (p : Punctuation) : Spells (.punctuation p) p.char.toString
  | paren (p : Paren) : Spells (.paren p) p.char.toString
  | operator {o : Operator} (h : o ≠ .assignment .toVariable) : Spells (.operator o) o.spelling
  | number {word : String} {value : Binary64} (hplain : Piece.IsPlain word.toList)
    (h : Piece.classify word.toList = .number value) : Spells (.number value) word
  | identifier {name : String} (h : Piece.IsName name.toList) : Spells (.identifier name) name

lemma TokenKind.ofReserved?_keyword (k : Keyword) : ofReserved? k.spelling = some (.keyword k) := by
  simp [ofReserved?]

lemma TokenKind.ofReserved?_operator {o : Operator} (h : o ≠ .concatenation) :
    ofReserved? o.spelling = some (.operator o) := by
  have hkeyword : Keyword.ofWord? o.spelling = none := by
    cases o with
    | concatenation => decide
    | _ o => cases o <;> decide
  have hsign : o.spelling ≠ Operator.concatenation.spelling := by
    intro hspelling
    have hsame := congrArg Operator.ofSpelling? hspelling
    rw [Operator.ofSpelling?_spelling, Operator.ofSpelling?_spelling] at hsame
    exact h (Option.some.inj hsame)
  have hoperator : Operator.ofWord? o.spelling = some o := by
    have hspelling := Operator.ofSpelling?_spelling o
    rwa [Operator.ofSpelling?, if_neg hsign] at hspelling
  simp [ofReserved?, hkeyword, hoperator]

lemma TokenKind.Spells.readsAs {kind : TokenKind} {word : String} (h : Spells kind word) :
    Piece.ReadsAs kind word.toList := by
  cases h with
  | keyword k =>
    have hreserved := ofReserved?_keyword k
    cases k <;> exact .of_reserved rfl (by decide) (by decide) (by decide) hreserved
  | punctuation p => cases p <;> exact ⟨_, _, rfl, by decide, by decide⟩
  | paren p => cases p <;> exact ⟨_, _, rfl, by decide, by decide⟩
  | @operator o ho =>
    by_cases hsign : o = .concatenation
    · subst hsign
      exact ⟨'&', [], rfl, by decide, by decide⟩
    · have hreserved := ofReserved?_operator hsign
      cases o with
      | concatenation => exact absurd rfl hsign
      | assignment o =>
        cases o with
        | toSignal => exact .of_reserved rfl (by decide) (by decide) (by decide) hreserved
        | toVariable => exact absurd rfl ho
      | _ o => cases o <;> exact .of_reserved rfl (by decide) (by decide) (by decide) hreserved
  | number hplain hclassify =>
    rw [← hclassify]
    obtain ⟨c, rest, hword, -⟩ :=
      Piece.head_of_startsNumeral (Piece.startsNumeral_of_classify hclassify)
    exact (hplain.isFree_of_classify hclassify).readsAs (hword ▸ List.cons_ne_nil c rest)
  | identifier hname =>
    have hreads := hname.toIsFree.readsAs hname.ne_nil
    rwa [hname.classify_eq, String.ofList_toList] at hreads

namespace Cursor

lemma next?_of_readsAs {kind : TokenKind} {word : List Char} (h : Piece.ReadsAs kind word)
    (p : Position) : (⟨p, word⟩ : Cursor).next? = some (⟨⟨kind, p⟩, []⟩, ⟨p.after word, []⟩) := by
  obtain ⟨c, rest, rfl, hgap, hread⟩ := h
  have hskip : (⟨p, c :: rest⟩ : Cursor).skipGap = ⟨p, c :: rest⟩ := by simp [skipGap, hgap]
  rw [next?_of_skipGap (congrArg Cursor.rest hskip), hskip]
  simp [Piece.pieces, hread, Piece.textOf, Piece.place, advance]

/-- Words with single spaces between them are read one after the other. -/
lemma kinds_spaced {kinds : List TokenKind} {words : List (List Char)}
    (h : List.Forall₂ Piece.ReadsAs kinds words) (p : Position) :
    (⟨p, [' '].intercalate words⟩ : Cursor).tokens.map Token.kind = kinds ++ [.endOfInput] := by
  induction h generalizing p with
  | nil => rw [tokens_of_next?_none (by rfl)]; rfl
  | @cons kind word kinds words hword hrest ih =>
    have hnext := next?_of_readsAs hword p
    cases words with
    | nil =>
      rw [List.intercalate_singleton, tokens_of_next?_some hnext, List.map_append]
      exact congrArg (kind :: ·) (ih _)
    | cons other words =>
      have hextended := next?_extend (b := ' ') rfl ([' '].intercalate (other :: words)) hnext
      have htext : [' '].intercalate (word :: other :: words) =
          word ++ ' ' :: [' '].intercalate (other :: words) := by
        rw [List.intercalate_cons_cons, List.append_assoc]
        rfl
      have htokens := tokens_of_next?_some hextended
      simp only [extend, List.nil_append] at htokens
      rw [htext, htokens, tokens_blank rfl, List.map_append]
      exact congrArg (kind :: ·) (ih _)

end Cursor

/-- Reading undoes writing: tokens that are written with single spaces between them are read back,
each as it was, and then the end of the input. -/
theorem tokenize_spaced {kinds : List TokenKind} {words : List String}
    (h : List.Forall₂ TokenKind.Spells kinds words) :
    (tokenize (" ".intercalate words)).map Token.kind = kinds ++ [.endOfInput] := by
  have hreads : List.Forall₂ Piece.ReadsAs kinds (words.map String.toList) :=
    List.forall₂_map_right_iff.mpr (h.imp fun _ _ hword => hword.readsAs)
  have htext : (" ".intercalate words).toList = [' '].intercalate (words.map String.toList) :=
    String.toList_intercalate
  rw [tokenize, lexemes, htext]
  exact Cursor.kinds_spaced hreads .start

/-- A name with marks and the signs of an operator inside. -/
lemma Piece.isName_marked : IsName "a(b;c'<=d".toList where
  inside := by decide
  ending := by decide
  not_mark := by decide
  not_sign := by decide
  not_comment := by decide
  not_reserved := by decide
  ne_nil := by decide
  not_number value h := by cases h

/-- A hyphen alone, which next to another one would start a comment. -/
lemma Piece.isName_hyphen : IsName "-".toList where
  inside := by decide
  ending := by decide
  not_mark := by decide
  not_sign := by decide
  not_comment := by decide
  not_reserved := by decide
  ne_nil := by decide
  not_number value h := by cases h

theorem tokenize_spaced_marked :
    (tokenize (" ".intercalate ["port", "a(b;c'<=d", "-", "-", ";", "&", "<=", "-10"])).map Token.kind =
      [.keyword .port, .identifier "a(b;c'<=d", .identifier "-", .identifier "-",
        .punctuation .semicolon, .operator .concatenation, .operator (.assignment .toSignal),
        .number (.ofScientific true 10 0), .endOfInput] :=
  tokenize_spaced (.cons (.keyword .port) (.cons (.identifier Piece.isName_marked)
    (.cons (.identifier Piece.isName_hyphen) (.cons (.identifier Piece.isName_hyphen)
      (.cons (.punctuation .semicolon) (.cons (.operator (o := .concatenation) (by decide))
        (.cons (.operator (o := .assignment .toSignal) (by decide))
          (.cons (.number ⟨by decide, by decide⟩ (by rfl)) .nil))))))))

end VhdlGates
