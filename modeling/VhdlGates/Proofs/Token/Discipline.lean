import Mathlib.Logic.Function.Iterate
import VhdlGates.Proofs.Token.Spaced

/-! Reading lexeme by lexeme. Every step moves on until only blanks and comments are left, and then
stays at the end for good. What a step reads is in form: marks are glued to words only, and a word
that is reserved never becomes a name. -/
namespace VhdlGates

open Text (isBlank endsLine)

/-- A comment is passed up to the end of its line, and from there its gap goes on as any other. -/
lemma splitGap_comment {body gap : List Char} (hbody : ∀ c ∈ body, endsLine c = false)
    (hend : ∀ c ∈ gap.head?, endsLine c = true) :
    splitGap true (body ++ gap) = (body ++ (splitGap false gap).1, (splitGap false gap).2) := by
  induction body with
  | nil =>
    cases gap with
    | nil => rfl
    | cons c gap =>
      have hc : endsLine c = true := hend c rfl
      have hblank := Text.isBlank_of_endsLine hc
      rw [List.nil_append, splitGap, hc, splitGap_false_cons fun _ hhyphen _ =>
        Text.ne_hyphen_of_isBlank hblank hhyphen, if_pos hblank]
      rfl
  | cons c body ih =>
    obtain ⟨hc, hbody⟩ := List.forall_mem_cons.mp hbody
    rw [List.cons_append, splitGap, hc, Bool.not_false, ih hbody]
    rfl

/-- Blanks and comments up to the end of the text are passed over. -/
lemma IsGap.splitGap_snd {gap after : List Char} (h : IsGap gap after) (hafter : after = []) :
    (splitGap false gap).2 = [] := by
  induction h with
  | nil => rfl
  | blank hc _ ih =>
    rw [splitGap_false_cons fun _ hhyphen _ => Text.ne_hyphen_of_isBlank hc hhyphen, if_pos hc]
    exact ih hafter
  | comment hbody hend _ ih =>
    subst hafter
    rw [List.append_nil] at hend
    rw [List.cons_append, List.cons_append, splitGap, splitGap_comment hbody hend]
    exact ih rfl

/-- What follows a gap does not start with a comment. -/
lemma not_comment_splitGap (inside : Bool) (text : List Char) :
    ¬['-', '-'] <+: (splitGap inside text).2 := by
  fun_induction splitGap inside text with
  | case1 => simp
  | case2 c rest gap text heq ih =>
    rw [heq] at ih
    exact ih
  | case3 rest gap text heq ih =>
    rw [heq] at ih
    exact ih
  | case4 c rest hcomment hc gap text heq ih =>
    rw [heq] at ih
    exact ih
  | case5 c rest hcomment hc =>
    rintro ⟨tail, htail⟩
    simp only [List.cons_append, List.nil_append, List.cons.injEq] at htail
    exact hcomment tail htail.1.symm htail.2.symm

/-- The marks that may be glued to a word: no word goes on before a comma or a dot. -/
def TokenKind.IsGlued (kind : TokenKind) : Prop :=
  (∃ p, kind = .paren p) ∨ ∃ p, kind = .punctuation p ∧ p ≠ .comma ∧ p ≠ .dot

lemma TokenKind.ofMark?_cases {c : Char} {kind : TokenKind} (h : ofMark? c = some kind) :
    (∃ p : Paren, kind = .paren p ∧ p.char = c) ∨
      ∃ p : Punctuation, kind = .punctuation p ∧ p.char = c := by
  simp only [ofMark?, Option.orElse_eq_orElse, Option.orElse_eq_or, Option.or_eq_some_iff,
    Option.map_eq_some_iff] at h
  rcases h with ⟨p, hp, rfl⟩ | ⟨-, p, hp, rfl⟩
  · exact .inl ⟨p, rfl, Paren.char_of_ofChar? hp⟩
  · exact .inr ⟨p, rfl, Punctuation.char_of_ofChar? hp⟩

lemma TokenKind.ofReserved?_cases {word : String} {kind : TokenKind}
    (h : ofReserved? word = some kind) : (∃ k, kind = .keyword k) ∨ ∃ o, kind = .operator o := by
  simp only [ofReserved?, Option.orElse_eq_orElse, Option.orElse_eq_or, Option.or_eq_some_iff,
    Option.map_eq_some_iff] at h
  rcases h with ⟨k, -, rfl⟩ | ⟨-, o, -, rfl⟩
  · exact .inl ⟨k, rfl⟩
  · exact .inr ⟨o, rfl⟩

namespace Piece

/-- The form of a name that is cut from a text. Only a semicolon may be left of the marks at its
end, and the part of it that is looked up is not reserved. -/
structure IsCutName (word : List Char) : Prop where
  ne_nil : word ≠ []
  inside : ∀ c ∈ word, isBlank c = false ∧ c ≠ ',' ∧ c ≠ '.'
  not_mark : ∀ c ∈ word.head?, isMark c = false
  not_sign : word.head? ≠ some '&'
  not_comment : ¬['-', '-'] <+: word
  ending : ∀ c ∈ word.getLast?, isMark c = true → c = ';'
  not_keyword : ∀ k : Keyword, stem word ≠ k.spelling.toList
  not_operator : ∀ o : Operator, o ≠ .concatenation → stem word ≠ o.spelling.toList

/-- Marks at the end of a word have no part in what is looked up. -/
lemma stem_append (base : List Char) {marks : List Char} (hmarks : ∀ c ∈ marks, isMark c = true) :
    stem (base ++ marks) = stem base := by
  unfold stem
  by_cases hparen : ∀ c ∈ base, (c != '(') = true
  · -- the parenthesis at which the word is cut, if any, is one of the marks
    have hcut : ∀ c ∈ marks.takeWhile (· != '('), isMark c = true := fun c hc =>
      hmarks c ((List.takeWhile_prefix _).subset hc)
    rw [List.takeWhile_append_of_pos hparen, List.takeWhile_eq_self_iff.mpr hparen,
      List.reverse_append, List.dropWhile_append_of_pos]
    simpa using hcut
  · rw [List.takeWhile_append, if_neg]
    intro hlength
    have hself := (List.takeWhile_prefix (· != '(')).eq_of_length hlength
    exact hparen (List.takeWhile_eq_self_iff.mp hself)

/-- Whatever holds of the single marks of a word holds of those that are split off its end. -/
lemma splitMarks_forall {P : Piece → Prop} (next : Option Char) {marks : List Piece}
    {back : List Char} (hmarks : ∀ piece ∈ marks, P piece)
    (hback : ∀ c ∈ back, ∀ kind, TokenKind.ofMark? c = some kind → P ⟨kind, [c]⟩) :
    ∀ piece ∈ (splitMarks next marks back).2, P piece := by
  fun_induction splitMarks next marks back with
  | case1 => exact hmarks
  | case2 next marks c before kind hkind ih =>
    obtain ⟨hc, hback⟩ := List.forall_mem_cons.mp hback
    refine ih (List.forall_mem_cons.mpr ⟨hc kind (endingMark?_eq_some hkind), hmarks⟩) hback
  | case3 => exact hmarks

lemma splitMarks_ending (next : Option Char) (marks : List Piece) (back : List Char) :
    ∀ c ∈ (splitMarks next marks back).1.getLast?, isMark c = true → c = ';' := by
  fun_induction splitMarks next marks back with
  | case1 => simp
  | case2 next marks c before kind hkind ih => exact ih
  | case3 next marks c before hnone =>
    intro d hd hmark
    obtain rfl : c = d := by simpa using hd
    by_contra hsemicolon
    simp [endingMark?, hsemicolon, ofMark?_eq_none, hmark] at hnone

lemma isGlued_of_ofMark? {c : Char} {kind : TokenKind} (hc : endsWord c = false)
    (h : TokenKind.ofMark? c = some kind) : kind.IsGlued := by
  rcases TokenKind.ofMark?_cases h with ⟨p, rfl, -⟩ | ⟨p, rfl, rfl⟩
  · exact .inl ⟨p, rfl⟩
  · refine .inr ⟨p, rfl, ?_, ?_⟩
    · rintro rfl
      exact absurd hc (by decide)
    · rintro rfl
      exact absurd hc (by decide)

lemma endsWord_of_mem_word {text : List Char} {c : Char} (h : c ∈ word text) :
    endsWord c = false := by
  simpa using List.mem_takeWhile_imp h

/-- The marks glued to a word. -/
lemma ofWord_glued (text : List Char) :
    ∀ piece ∈ (ofWord text).2, piece.kind.IsGlued ∧ ∀ c ∈ piece.text, isMark c = true := by
  refine splitMarks_forall _ (by simp) fun c hc kind hkind => ⟨?_, ?_⟩
  · exact isGlued_of_ofMark? (endsWord_of_mem_word (List.mem_reverse.mp hc)) hkind
  · simp [isMark, hkind]

/-- A word keeps what is looked up of it when the marks at its end are split off. -/
lemma stem_ofWord (text : List Char) : stem (ofWord text).1.text = stem (word text) := by
  rw [← textOf_ofWord text, textOf, List.flatMap_cons]
  refine (stem_append _ ?_).symm
  intro c hc
  obtain ⟨piece, hpiece, hc⟩ := List.mem_flatMap.mp hc
  exact (ofWord_glued text piece hpiece).2 c hc

/-- A word that is not reserved, after the marks at its end are split off, is in the form of a
name. -/
lemma isCutName_ofWord {c : Char} {rest : List Char} (hblank : isBlank c = false)
    (hcomment : ¬['-', '-'] <+: c :: rest) (hmark : TokenKind.ofMark? c = none) (hsign : c ≠ '&')
    (hreserved : TokenKind.ofReserved? (String.ofList (stem (word (c :: rest)))) = none) :
    IsCutName (ofWord (c :: rest)).1.text := by
  have hword : word (c :: rest) = c :: word rest := by
    simp [word, endsWord_eq_false hmark hblank]
  have hne : (ofWord (c :: rest)).1.text ≠ [] := by
    simp only [ofWord, hword, List.reverse_cons]
    exact splitMarks_ne_nil hmark _ _ _
  have htext : (ofWord (c :: rest)).1.text ++ textOf (ofWord (c :: rest)).2 = c :: word rest := by
    rw [← hword]
    exact textOf_ofWord (c :: rest)
  obtain ⟨d, base, hbase⟩ := List.exists_cons_of_ne_nil hne
  obtain rfl : d = c := by
    rw [hbase] at htext
    exact (List.cons.inj htext).1
  refine ⟨hne, ?_, ?_, ?_, ?_, ?_, ?_, ?_⟩
  · intro e he
    have hmem : e ∈ word (d :: rest) := by
      rw [hword, ← htext]
      exact List.mem_append_left _ he
    have hends := endsWord_of_mem_word hmem
    simpa [endsWord, and_assoc] using hends
  · intro e he
    rw [hbase] at he
    obtain rfl := Option.some.inj he
    exact ofMark?_eq_none.mp hmark
  · rw [hbase]
    exact fun h => hsign (Option.some.inj h)
  · intro h
    have hpiece : (ofWord (d :: rest)).1.text <+: word (d :: rest) := ⟨_, textOf_ofWord _⟩
    exact hcomment ((h.trans hpiece).trans (List.takeWhile_prefix _))
  · exact splitMarks_ending _ _ _
  · intro k hk
    rw [← stem_ofWord, hk, String.ofList_toList, TokenKind.ofReserved?_keyword] at hreserved
    cases hreserved
  · intro o ho hoperator
    rw [← stem_ofWord, hoperator, String.ofList_toList, TokenKind.ofReserved?_operator ho]
      at hreserved
    cases hreserved

end Piece

/-- What a lexeme may consist of: a bundle is a word with marks, no token is the assignment to a
variable, and every name is in form. -/
structure Lexeme.IsInForm (l : Lexeme) : Prop where
  bundle : l.isBundle = true → 2 ≤ l.tokens.length ∧
    ((∃ name, l.first.kind = .identifier name) ∨ ∃ value, l.first.kind = .number value) ∧
    ∀ token ∈ l.glued, token.kind.IsGlued
  not_variable : ∀ token ∈ l.tokens, token.kind ≠ .operator (.assignment .toVariable)
  names : ∀ token ∈ l.tokens, ∀ name, token.kind = .identifier name →
    Piece.IsCutName name.toList

lemma Lexeme.isInForm_of_single {l : Lexeme} (hglued : l.glued = [])
    (hvariable : l.first.kind ≠ .operator (.assignment .toVariable))
    (hname : ∀ name, l.first.kind ≠ .identifier name) : l.IsInForm := by
  refine ⟨by simp [isBundle, hglued], ?_, ?_⟩
  · simpa [tokens, hglued] using hvariable
  · simpa [tokens, hglued] using fun name h => absurd h (hname name)

lemma Lexeme.isInForm_of_word {l : Lexeme} {base : List Char}
    (hkind : l.first.kind = Piece.classify base) (hbase : Piece.IsCutName base)
    (hglued : ∀ token ∈ l.glued, token.kind.IsGlued) : l.IsInForm := by
  have hclass := Piece.classify_cases base
  rw [← hkind] at hclass
  refine ⟨fun hbundle => ⟨?_, ?_, hglued⟩, ?_, ?_⟩
  · have hlength : 0 < l.glued.length := List.length_pos_iff.mpr (by simpa [isBundle] using hbundle)
    rw [tokens, List.length_cons]
    omega
  · exact hclass.imp_left fun h => ⟨_, h⟩
  · rw [tokens, List.forall_mem_cons]
    refine ⟨?_, fun token htoken => ?_⟩
    · rcases hclass with h | ⟨value, h⟩ <;> simp [h]
    · rcases hglued token htoken with ⟨p, h⟩ | ⟨p, h, -⟩ <;> simp [h]
  · rw [tokens, List.forall_mem_cons]
    refine ⟨fun name hname => ?_, fun token htoken name hname => ?_⟩
    · rcases hclass with h | ⟨value, h⟩
      · rw [h] at hname
        obtain rfl := TokenKind.identifier.inj hname
        rwa [String.toList_ofList]
      · rw [h] at hname
        cases hname
    · rcases hglued token htoken with ⟨p, h⟩ | ⟨p, h, -⟩ <;> simp [h] at hname

namespace Piece

/-- The first two characters of the assignment to a variable are never read together: the first of
them is a mark. -/
lemma stem_ne_toVariable {c : Char} {rest : List Char} (hmark : TokenKind.ofMark? c = none) :
    stem (word (c :: rest)) ≠ Assignment.toVariable.spelling.toList := by
  intro hstem
  have hword : word (c :: rest) <+: c :: rest := List.takeWhile_prefix _
  obtain ⟨tail, htail⟩ := (stem_isPrefix (word (c :: rest))).trans hword
  rw [hstem] at htail
  obtain ⟨rfl, -⟩ := List.cons.inj htail
  exact absurd hmark (by decide)

/-- The two ways of reading: a single piece that is no name and not the assignment to a variable, or
a word with its marks. -/
lemma read_cases {c : Char} {rest : List Char} (hblank : isBlank c = false)
    (hcomment : ¬['-', '-'] <+: c :: rest) :
    (∃ kind text, read c rest = (⟨kind, text⟩, []) ∧
        kind ≠ .operator (.assignment .toVariable) ∧ ∀ name, kind ≠ .identifier name) ∨
      ∃ base, read c rest = (⟨classify base, base⟩, (ofWord (c :: rest)).2) ∧ IsCutName base := by
  unfold read
  split
  next kind hkind =>
    refine .inl ⟨kind, [c], rfl, ?_⟩
    rcases TokenKind.ofMark?_cases hkind with ⟨p, rfl, -⟩ | ⟨p, rfl, -⟩ <;> simp
  next hmark =>
    split
    next kind hkind =>
      refine .inl ⟨kind, _, rfl, ?_, ?_⟩
      · rintro rfl
        exact stem_ne_toVariable hmark (TokenKind.isText_of_ofReserved? hkind)
      · rcases TokenKind.ofReserved?_cases hkind with ⟨k, rfl⟩ | ⟨o, rfl⟩ <;> simp
    next hreserved =>
      split_ifs with hsign
      · exact .inl ⟨_, _, rfl, by simp, by simp⟩
      · exact .inr ⟨_, rfl, isCutName_ofWord hblank hcomment hmark hsign hreserved⟩

lemma exists_of_mem_place {token : Token} {p : Position} {pieces : List Piece}
    (h : token ∈ place p pieces) : ∃ piece ∈ pieces, token.kind = piece.kind := by
  induction pieces generalizing p with
  | nil => cases h
  | cons piece pieces ih =>
    rcases List.mem_cons.mp h with rfl | h
    · exact ⟨piece, List.mem_cons_self, rfl⟩
    · obtain ⟨other, hother, hkind⟩ := ih h
      exact ⟨other, List.mem_cons_of_mem _ hother, hkind⟩

end Piece

namespace Cursor

variable {s t : Cursor} {l : Lexeme}

lemma next?_eq_none_iff : s.next? = none ↔ IsGap s.rest [] := by
  constructor
  · intro h
    have hgap := splitGap_isGap false s.rest
    rw [next?_eq_none h] at hgap
    exact hgap
  · intro h
    have hrest : s.skipGap.rest = [] := h.splitGap_snd rfl
    unfold next?
    simp [hrest]

/-- A step that reads something reads a lexeme in form. -/
lemma isInForm_of_next? (h : s.next? = some (l, t)) : l.IsInForm := by
  obtain ⟨gap, c, rest, hsplit, htokens, -, -⟩ := next?_eq_some h
  have hblank : isBlank c = false := isBlank_head_splitGap false s.rest c rest (by rw [hsplit])
  have hcomment : ¬['-', '-'] <+: c :: rest := by
    have hnot := not_comment_splitGap false s.rest
    rwa [hsplit] at hnot
  rw [Piece.pieces] at htokens
  obtain ⟨hfirst, hglued⟩ := List.cons.inj htokens
  rcases Piece.read_cases hblank hcomment with
    ⟨kind, text, hread, hvariable, hname⟩ | ⟨base, hread, hbase⟩
  · rw [hread] at hfirst hglued
    exact Lexeme.isInForm_of_single hglued (by rwa [hfirst]) (by rwa [hfirst])
  · rw [hread] at hfirst hglued
    refine Lexeme.isInForm_of_word (by rw [hfirst]) hbase fun token htoken => ?_
    rw [hglued] at htoken
    obtain ⟨piece, hpiece, hkind⟩ := Piece.exists_of_mem_place htoken
    rw [hkind]
    exact (Piece.ofWord_glued (c :: rest) piece hpiece).1

/-- A later place in the same text. -/
def IsPast (t s : Cursor) : Prop :=
  ∃ text, text ≠ [] ∧ s.rest = text ++ t.rest ∧ t.position = s.position.after text

lemma isPast_of_next? (h : s.next? = some (l, t)) : t.IsPast s := by
  obtain ⟨gap, c, rest, hsplit, -, hposition, htext⟩ := next?_eq_some h
  have hshorter := length_rest_next? h
  have hsource := splitGap_append false s.rest
  rw [hsplit, htext, ← List.append_assoc] at hsource
  refine ⟨_, ?_, hsource.symm, ?_⟩
  · intro hnil
    rw [hnil, List.nil_append] at hsource
    rw [hsource] at hshorter
    exact Nat.lt_irrefl _ hshorter
  · rw [hposition, Position.after_append]

lemma ne_endOfInput_of_next? (h : s.next? = some (l, t)) :
    ∀ token ∈ l.tokens, token.kind ≠ .endOfInput := by
  obtain ⟨gap, c, rest, hsplit, htokens, -, -⟩ := next?_eq_some h
  have hblank : isBlank c = false := isBlank_head_splitGap false s.rest c rest (by rw [hsplit])
  intro token htoken hend
  rw [htokens] at htoken
  obtain ⟨piece, hpiece, hkind⟩ := Piece.exists_of_mem_place htoken
  have hsound := (Piece.pieces_sound rest hblank piece hpiece).2
  rw [← hkind, hend] at hsound
  exact hsound

/-- The cursor after some steps of reading. -/
def afterSteps (s : Cursor) (n : ℕ) : Cursor := (fun s => s.next.2)^[n] s

/-- The lexeme that is read after some steps. -/
def lexeme (s : Cursor) (n : ℕ) : Lexeme := (s.afterSteps n).next.1

lemma afterSteps_succ (s : Cursor) (n : ℕ) :
    s.afterSteps (n + 1) = (s.afterSteps n).next.2 :=
  Function.iterate_succ_apply' _ n s

lemma afterSteps_next (s : Cursor) (n : ℕ) : s.next.2.afterSteps n = s.afterSteps (n + 1) :=
  (Function.iterate_succ_apply _ n s).symm

lemma next_of_next?_some (h : s.next? = some (l, t)) : s.next = (l, t) := by
  rw [next, h]
  rfl

/-- The end of a text. -/
def atEnd (p : Position) : Lexeme × Cursor := (⟨⟨.endOfInput, p⟩, []⟩, ⟨p, []⟩)

lemma next_of_isGap (h : IsGap s.rest []) : s.next = atEnd (s.position.after s.rest) := by
  have hnone := next?_eq_none_iff.mpr h
  have hsplit := next?_eq_none hnone
  rw [next, hnone]
  simp [ending, skipGap, hsplit, atEnd]

lemma next_isInForm (s : Cursor) : s.next.1.IsInForm := by
  cases h : s.next? with
  | none =>
    rw [next_of_isGap (next?_eq_none_iff.mp h)]
    exact Lexeme.isInForm_of_single rfl (by simp [atEnd]) (by simp [atEnd])
  | some step =>
    rw [next_of_next?_some h]
    exact isInForm_of_next? h

lemma next_isPast (h : ¬IsGap s.rest []) :
    (∀ token ∈ s.next.1.tokens, token.kind ≠ .endOfInput) ∧ s.next.2.IsPast s := by
  cases hnext : s.next? with
  | none => exact absurd (next?_eq_none_iff.mp hnext) h
  | some step =>
    rw [next_of_next?_some hnext]
    exact ⟨ne_endOfInput_of_next? hnext, isPast_of_next? hnext⟩

/-- No step moves the end of the text. -/
lemma after_rest_next (s : Cursor) :
    s.next.2.position.after s.next.2.rest = s.position.after s.rest := by
  cases h : s.next? with
  | none => rw [next_of_isGap (next?_eq_none_iff.mp h)]; rfl
  | some step => rw [next_of_next?_some h, after_rest_next? h]

lemma after_rest_afterSteps (s : Cursor) (n : ℕ) :
    (s.afterSteps n).position.after (s.afterSteps n).rest = s.position.after s.rest := by
  induction n with
  | zero => rfl
  | succ n ih => rw [afterSteps_succ, after_rest_next, ih]

/-- Once only a gap is left, every further step finds the end. -/
lemma next_afterSteps_of_isGap {n m : ℕ} (h : IsGap (s.afterSteps n).rest []) (hm : n ≤ m) :
    (s.afterSteps m).next = atEnd (s.position.after s.rest) := by
  have hgap : IsGap (s.afterSteps m).rest [] := by
    induction m, hm using Nat.le_induction with
    | base => exact h
    | succ m _ ih =>
      rw [afterSteps_succ, next_of_isGap ih]
      exact .nil []
  rw [next_of_isGap hgap, after_rest_afterSteps]

/-- Reading a text to its end takes finitely many steps, each of which is one of the repeated
readings. -/
lemma readings_eq_steps (s : Cursor) :
    ∃ n, (∀ m < n, ¬IsGap (s.afterSteps m).rest []) ∧ IsGap (s.afterSteps n).rest [] ∧
      s.readings 0 = (List.range (n + 1)).map s.lexeme := by
  fun_induction readings 0 s with
  | case1 s hnone =>
    have hgap := next?_eq_none_iff.mp hnone
    refine ⟨0, by simp, hgap, ?_⟩
    have hlexeme : s.lexeme 0 = s.ending := by
      change s.next.1 = s.ending
      rw [next, hnone]
      rfl
    simp [hlexeme]
  | case2 s l t hnext ih =>
    obtain ⟨n, hbefore, hgap, hreadings⟩ := ih
    have hstep := next_of_next?_some hnext
    have hsteps (m : ℕ) : t.afterSteps m = s.afterSteps (m + 1) := by
      rw [← afterSteps_next, hstep]
    refine ⟨n + 1, ?_, ?_, ?_⟩
    · intro m hm
      cases m with
      | zero =>
        intro hgap
        have hnone : s.next? = none := next?_eq_none_iff.mpr hgap
        rw [hnone] at hnext
        cases hnext
      | succ m =>
        rw [← hsteps]
        exact hbefore m (Nat.lt_of_succ_lt_succ hm)
    · rwa [← hsteps]
    · rw [List.range_succ_eq_map, List.map_cons, List.map_map, hreadings]
      have hfirst : s.lexeme 0 = l := congrArg Prod.fst hstep
      have hothers : s.lexeme ∘ Nat.succ = t.lexeme := by
        funext m
        exact congrArg (fun u : Cursor => u.next.1) (hsteps m).symm
      rw [hfirst, hothers]

end Cursor

/-- Reading step by step keeps its discipline. Whatever a step reads is in form. As long as more
than blanks and comments are left, a step moves on and does not find the end; from then on every
step finds it, at the same place. The lexemes up to the first end hold the tokens of the text. -/
theorem lexemes_disciplined (source : String) :
    let start := Cursor.ofText source.toList
    let ending := Cursor.atEnd (.past source.toList)
    (∀ n, (start.lexeme n).IsInForm ∧
      (IsGap (start.afterSteps n).rest [] ∧ (∀ m, n ≤ m → (start.afterSteps m).next = ending) ∨
        ¬IsGap (start.afterSteps n).rest [] ∧
          (∀ token ∈ (start.lexeme n).tokens, token.kind ≠ .endOfInput) ∧
          (start.afterSteps (n + 1)).IsPast (start.afterSteps n))) ∧
      ∃ n, (∀ m < n, ∀ token ∈ (start.lexeme m).tokens, token.kind ≠ .endOfInput) ∧
        start.lexeme n = ending.1 ∧
        tokenize source = (List.range (n + 1)).flatMap fun m => (start.lexeme m).tokens := by
  intro start ending
  have hending {n m : ℕ} (hgap : IsGap (start.afterSteps n).rest []) (hm : n ≤ m) :
      (start.afterSteps m).next = ending := by
    rw [Cursor.next_afterSteps_of_isGap hgap hm]
    exact congrArg Cursor.atEnd (Position.start_after source.toList)
  constructor
  · intro n
    refine ⟨Cursor.next_isInForm _, ?_⟩
    by_cases hgap : IsGap (start.afterSteps n).rest []
    · exact .inl ⟨hgap, fun m hm => hending hgap hm⟩
    · obtain ⟨hkinds, hpast⟩ := Cursor.next_isPast hgap
      rw [← Cursor.afterSteps_succ] at hpast
      exact .inr ⟨hgap, hkinds, hpast⟩
  · obtain ⟨n, hbefore, hgap, hreadings⟩ := start.readings_eq_steps
    refine ⟨n, fun m hm => (Cursor.next_isPast (hbefore m hm)).1, ?_, ?_⟩
    · exact congrArg Prod.fst (hending hgap (Nat.le_refl n))
    · rw [tokenize, lexemes, hreadings, List.flatMap_map]

end VhdlGates
