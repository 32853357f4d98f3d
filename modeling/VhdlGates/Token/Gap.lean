import VhdlGates.Text.Blank

/-! The blanks and comments between the words of a text. -/
namespace VhdlGates

open Text (isBlank endsLine)

/-- Splits off the blanks and comments in front. A comment runs from two hyphens up to the end of
its line; the flag says whether the text starts inside one. -/
def splitGap : Bool → List Char → List Char × List Char
  | _, [] => ([], [])
  | true, c :: rest =>
    let (gap, text) := splitGap (!endsLine c) rest
    (c :: gap, text)
  | false, '-' :: '-' :: rest =>
    let (gap, text) := splitGap true rest
    ('-' :: '-' :: gap, text)
  | false, c :: rest =>
    if isBlank c then
      let (gap, text) := splitGap false rest
      (c :: gap, text)
    else ([], c :: rest)

theorem splitGap_append (inside : Bool) (text : List Char) :
    (splitGap inside text).1 ++ (splitGap inside text).2 = text := by
  fun_induction splitGap inside text <;> simp_all

theorem length_splitGap_snd_le (inside : Bool) (text : List Char) :
    (splitGap inside text).2.length ≤ text.length := by
  have h := congrArg List.length (splitGap_append inside text)
  rw [List.length_append] at h
  omega

/-- What follows a gap does not start with a blank. -/
theorem isBlank_head_splitGap (inside : Bool) (text : List Char) (c : Char) (rest : List Char)
    (h : (splitGap inside text).2 = c :: rest) : isBlank c = false := by
  fun_induction splitGap inside text <;> simp_all

end VhdlGates
