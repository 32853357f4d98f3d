import Mathlib.Data.List.Basic
import VhdlGates.Proofs.Token.Pieces
import VhdlGates.Token.Lexeme

/-! Tokens cover their source text: the words of the tokens and the gaps between them, in order,
are the whole of it, and every token stands where its word does. -/
namespace VhdlGates

open Text (isBlank endsLine)

/-- Blanks and comments before the text `after`. A comment runs up to the end of its line, which is
not part of it, or to the end of the text. -/
inductive IsGap : List Char → List Char → Prop
  | nil (after : List Char) : IsGap [] after
  | blank {c : Char} {gap after : List Char} (hc : isBlank c = true) (h : IsGap gap after) :
    IsGap (c :: gap) after
  | comment {body gap after : List Char} (hbody : ∀ c ∈ body, endsLine c = false)
    (hend : ∀ c ∈ (gap ++ after).head?, endsLine c = true) (h : IsGap gap after) :
    IsGap ('-' :: '-' :: body ++ gap) after

/-- The rest of a gap that starts inside a comment. -/
def IsCommentRest (text after : List Char) : Prop :=
  ∃ body gap, text = body ++ gap ∧ (∀ c ∈ body, endsLine c = false) ∧
    (∀ c ∈ (gap ++ after).head?, endsLine c = true) ∧ IsGap gap after

lemma IsCommentRest.cons {c : Char} {text after : List Char} (hc : endsLine c = false)
    (h : IsCommentRest text after) : IsCommentRest (c :: text) after := by
  obtain ⟨body, gap, rfl, hbody, hend, hgap⟩ := h
  exact ⟨c :: body, gap, rfl, List.forall_mem_cons.mpr ⟨hc, hbody⟩, hend, hgap⟩

lemma IsCommentRest.of_endsLine {c : Char} {gap after : List Char} (hc : endsLine c = true)
    (h : IsGap gap after) : IsCommentRest (c :: gap) after := by
  refine ⟨[], c :: gap, rfl, by simp, ?_, .blank (Text.isBlank_of_endsLine hc) h⟩
  intro d hd
  obtain rfl := Option.some.inj hd
  exact hc

lemma splitGap_isGap (inside : Bool) (text : List Char) :
    if inside then IsCommentRest (splitGap inside text).1 (splitGap inside text).2
    else IsGap (splitGap inside text).1 (splitGap inside text).2 := by
  fun_induction splitGap inside text with
  | case1 inside =>
    cases inside with
    | true => exact ⟨[], [], rfl, by simp, by simp, .nil []⟩
    | false => exact .nil []
  | case2 c rest gap text heq ih =>
    rw [heq] at ih
    cases hc : endsLine c with
    | true =>
      rw [hc] at ih
      exact .of_endsLine hc ih
    | false =>
      rw [hc] at ih
      exact .cons hc ih
  | case3 rest gap text heq ih =>
    rw [heq] at ih
    obtain ⟨body, gap, rfl, hbody, hend, hgap⟩ := ih
    exact .comment hbody hend hgap
  | case4 c rest hcomment hc gap text heq ih =>
    rw [heq] at ih
    exact .blank hc ih
  | case5 c rest => exact .nil _

/-- The place after a text, counted from its lines: every line feed starts one, and the column is
counted from the last of them. -/
def Position.past (text : List Char) : Position :=
  ⟨1 + text.count '\n', 1 + (text.reverse.takeWhile (· != '\n')).length⟩

lemma Position.start_after (text : List Char) : start.after text = past text := by
  induction text using List.reverseRecOn with
  | nil => rfl
  | append_singleton text c ih =>
    rw [after_append, ih, after_cons, after_nil]
    by_cases hc : c = '\n'
    · simp [step, past, hc, Nat.add_assoc]
    · simp [step, past, hc]
      omega

/-- A token with its word and the gap before it. -/
structure Span where
  gap : List Char
  word : List Char
  token : Token

def Span.text (s : Span) : List Char := s.gap ++ s.word

/-- Spans, and a gap after the last of them, that make up a text starting at a position. -/
inductive Covered : Position → List Char → List Span → List Char → Prop
  | ending (p : Position) {gap : List Char} (hgap : IsGap gap []) : Covered p gap [] gap
  | span {p : Position} {gap word rest last : List Char} {kind : TokenKind} {spans : List Span}
    (hgap : IsGap gap (word ++ rest)) (hword : word ≠ []) (hkind : kind.IsText word)
    (hrest : Covered ((p.after gap).after word) rest spans last) :
    Covered p (gap ++ (word ++ rest)) (⟨gap, word, ⟨kind, p.after gap⟩⟩ :: spans) last

namespace Cursor

/-- What one step of reading does: it passes a gap, and takes the pieces after it. -/
lemma next?_eq_some {s t : Cursor} {l : Lexeme} (h : s.next? = some (l, t)) :
    ∃ gap c rest, splitGap false s.rest = (gap, c :: rest) ∧
      l.tokens = Piece.place (s.position.after gap) (Piece.pieces c rest) ∧
      t.position = (s.position.after gap).after (Piece.textOf (Piece.pieces c rest)) ∧
      c :: rest = Piece.textOf (Piece.pieces c rest) ++ t.rest := by
  unfold next? at h
  cases hrest : s.skipGap.rest with
  | nil => simp [hrest] at h
  | cons c rest =>
    simp only [hrest, Option.some.injEq, Prod.mk.injEq] at h
    obtain ⟨rfl, rfl⟩ := h
    obtain ⟨tail, htail⟩ := Piece.textOf_pieces_isPrefix c rest
    have hsplit : splitGap false s.rest = ((splitGap false s.rest).1, c :: rest) :=
      Prod.ext rfl hrest
    refine ⟨(splitGap false s.rest).1, c, rest, hsplit, rfl, ?_, ?_⟩
    · change s.skipGap.position.after
        (s.skipGap.rest.take (Piece.textOf (Piece.pieces c rest)).length) = _
      rw [hrest, ← htail, List.take_left]
      rfl
    · change _ = _ ++ s.skipGap.rest.drop (Piece.textOf (Piece.pieces c rest)).length
      rw [hrest, ← htail, List.drop_left]

/-- All steps lead to the same end of the text. -/
lemma after_rest_next? {s t : Cursor} {l : Lexeme} (h : s.next? = some (l, t)) :
    t.position.after t.rest = s.position.after s.rest := by
  obtain ⟨gap, c, rest, hsplit, -, hposition, htext⟩ := next?_eq_some h
  have hsource := splitGap_append false s.rest
  rw [hsplit] at hsource
  rw [hposition, ← hsource, htext, ← Position.after_append, ← Position.after_append]

lemma next?_eq_none {s : Cursor} (h : s.next? = none) : splitGap false s.rest = (s.rest, []) := by
  have hrest : (splitGap false s.rest).2 = [] := by
    unfold next? at h
    cases hrest : s.skipGap.rest with
    | nil => exact hrest
    | cons c rest => simp [hrest] at h
  have happend := splitGap_append false s.rest
  rw [hrest, List.append_nil] at happend
  exact Prod.ext happend hrest

end Cursor

/-- Pieces without gaps between them, in front of a covered text. -/
lemma Covered.pieces {p : Position} {rest last : List Char} {spans : List Span}
    {pieces : List Piece} (hsound : ∀ piece ∈ pieces, piece.IsSound)
    (h : Covered (p.after (Piece.textOf pieces)) rest spans last) :
    ∃ front, front.map Span.token = Piece.place p pieces ∧
      Covered p (Piece.textOf pieces ++ rest) (front ++ spans) last := by
  induction pieces generalizing p with
  | nil => exact ⟨[], rfl, h⟩
  | cons piece pieces ih =>
    obtain ⟨⟨hword, hkind⟩, hsound⟩ := List.forall_mem_cons.mp hsound
    have htext : Piece.textOf (piece :: pieces) = piece.text ++ Piece.textOf pieces := rfl
    rw [htext, Position.after_append] at h
    obtain ⟨front, hfront, hcovered⟩ := ih hsound h
    refine ⟨⟨[], piece.text, ⟨piece.kind, p⟩⟩ :: front, by simp [Piece.place, hfront], ?_⟩
    rw [htext, List.append_assoc]
    exact .span (.nil _) hword hkind hcovered

/-- One step of reading adds the spans of its lexeme, of which only the first has a gap. -/
lemma Covered.next {s t : Cursor} {l : Lexeme} {spans : List Span} {last : List Char}
    (hnext : s.next? = some (l, t)) (h : Covered t.position t.rest spans last) :
    ∃ front, front.map Span.token = l.tokens ∧
      Covered s.position s.rest (front ++ spans) last := by
  obtain ⟨gap, c, rest, hsplit, htokens, hposition, htext⟩ := Cursor.next?_eq_some hnext
  have hgap : IsGap gap (c :: rest) := by
    have h := splitGap_isGap false s.rest
    rw [hsplit] at h
    exact h
  have hsource : s.rest = gap ++ (c :: rest) := by
    have h := splitGap_append false s.rest
    rw [hsplit] at h
    exact h.symm
  have hblank : isBlank c = false := isBlank_head_splitGap false s.rest c rest (by rw [hsplit])
  have hsound := Piece.pieces_sound rest hblank
  obtain ⟨first, glued, hpieces⟩ : ∃ first glued, Piece.pieces c rest = first :: glued :=
    ⟨_, _, rfl⟩
  rw [hpieces] at htokens hposition htext hsound
  obtain ⟨⟨hword, hkind⟩, hsound⟩ := List.forall_mem_cons.mp hsound
  have hfirst : Piece.textOf (first :: glued) = first.text ++ Piece.textOf glued := rfl
  rw [hposition, hfirst, Position.after_append] at h
  rw [htext, hfirst, List.append_assoc] at hgap hsource
  -- the first piece takes the gap, and those glued to it have none
  obtain ⟨front, hfront, hcovered⟩ := h.pieces hsound
  refine ⟨⟨gap, first.text, ⟨first.kind, s.position.after gap⟩⟩ :: front, ?_, ?_⟩
  · rw [htokens, List.map_cons, hfront]
    rfl
  · rw [hsource]
    exact .span hgap hword hkind hcovered

/-- Repeated reading covers the rest of the text. -/
lemma Cursor.readings_covered (s : Cursor) :
    ∃ spans last, Covered s.position s.rest spans last ∧
      (s.readings 0).flatMap Lexeme.tokens =
        spans.map Span.token ++ [⟨.endOfInput, s.position.after s.rest⟩] := by
  fun_induction Cursor.readings 0 s with
  | case1 s hnext =>
    have hsplit := next?_eq_none hnext
    have hgap : IsGap s.rest [] := by
      have h := splitGap_isGap false s.rest
      rw [hsplit] at h
      exact h
    refine ⟨[], s.rest, .ending _ hgap, ?_⟩
    simp [ending, skipGap, hsplit, Lexeme.tokens]
  | case2 s l t hnext ih =>
    obtain ⟨spans, last, hcovered, htokens⟩ := ih
    obtain ⟨front, hfront, hcovered⟩ := hcovered.next hnext
    refine ⟨front ++ spans, last, hcovered, ?_⟩
    rw [List.flatMap_cons, htokens, List.map_append, hfront, List.append_assoc,
      after_rest_next? hnext]

lemma Covered.text_eq {p : Position} {text last : List Char} {spans : List Span}
    (h : Covered p text spans last) : text = spans.flatMap Span.text ++ last := by
  induction h with
  | ending => rfl
  | span _ _ _ _ ih => simp [Span.text, ← ih]

lemma Covered.last_isGap {p : Position} {text last : List Char} {spans : List Span}
    (h : Covered p text spans last) : IsGap last [] := by
  induction h with
  | ending _ hgap => exact hgap
  | span _ _ _ _ ih => exact ih

/-- Every span of a cover, with the text before and after it. -/
lemma Covered.split {p : Position} {text last : List Char} {front back : List Span} {s : Span}
    (h : Covered p text (front ++ s :: back) last) :
    s.word ≠ [] ∧ s.token.kind.IsText s.word ∧
      IsGap s.gap (s.word ++ (back.flatMap Span.text ++ last)) ∧
      s.token.position = p.after (front.flatMap Span.text ++ s.gap) := by
  induction front generalizing p text with
  | nil =>
    cases h with
    | span hgap hword hkind hrest =>
      rw [hrest.text_eq] at hgap
      exact ⟨hword, hkind, hgap, rfl⟩
  | cons first front ih =>
    cases h with
    | span hgap hword hkind hrest =>
      obtain ⟨hword', hkind', hgap', hposition⟩ := ih hrest
      refine ⟨hword', hkind', hgap', ?_⟩
      simpa [Span.text] using hposition

/-- The source text is the words of its tokens with gaps before, between and after them. Each word
is spelled as its token, each token stands where its word does, and the last token, which marks the
end of the input, stands at the end of the text. -/
theorem tokenize_cover (source : String) :
    ∃ (spans : List Span) (last : List Char),
      tokenize source =
        spans.map Span.token ++ [⟨.endOfInput, Position.past source.toList⟩] ∧
      source.toList = spans.flatMap Span.text ++ last ∧ IsGap last [] ∧
      ∀ front s back, spans = front ++ s :: back →
        s.word ≠ [] ∧ s.token.kind.IsText s.word ∧
          IsGap s.gap (s.word ++ (back.flatMap Span.text ++ last)) ∧
          s.token.position = Position.past (front.flatMap Span.text ++ s.gap) := by
  obtain ⟨spans, last, hcovered, htokens⟩ := (Cursor.ofText source.toList).readings_covered
  refine ⟨spans, last, ?_, hcovered.text_eq, hcovered.last_isGap, ?_⟩
  · rw [← Position.start_after]
    exact htokens
  · rintro front s back rfl
    rw [← Position.start_after]
    exact hcovered.split

end VhdlGates
