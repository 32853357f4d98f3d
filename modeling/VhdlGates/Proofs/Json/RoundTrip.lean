import Mathlib.Data.List.Basic
import VhdlGates.Json.Printer
import VhdlGates.Json.Reader

/-! Reading back what has been written. Documents of whole numbers and of strings without single
surrogates are read back from both layouts. -/
namespace VhdlGates.Json

/-- Characters that are passed over between the parts of a document. -/
def IsGap (gap : List Char) : Prop := ∀ c ∈ gap, isGap c = true

/-- A reader gives this value and leaves this rest. -/
def Yields {α : Type} {n : ℕ} (reading : Option (Reading Char α n)) (value : α) (rest : List Char) :
    Prop :=
  ∃ h, reading = some ⟨value, rest, h⟩

section Marks

variable {gap rest : List Char} {c d : Char}

/-- What the first reader yields goes on to the next one. -/
lemma Yields.bind {α β : Type} {m n : ℕ} {reading : Option (Reading Char α m)}
    {next : Reading Char α m → Option (Reading Char β n)} {a : α} {b : β} {after rest : List Char}
    (h : Yields reading a after) (hnext : ∀ h, Yields (next ⟨a, after, h⟩) b rest) :
    Yields (reading >>= next) b rest := by
  obtain ⟨hshorter, rfl⟩ := h
  exact hnext hshorter

lemma next?_yields (hgap : IsGap gap) (hc : isGap c = false) (rest : List Char) :
    Yields (next? (gap ++ c :: rest)) c rest := by
  induction gap with
  | nil =>
    rw [List.nil_append, next?, hc]
    exact ⟨_, rfl⟩
  | cons first gap ih =>
    obtain ⟨hfirst, hgap⟩ := List.forall_mem_cons.mp hgap
    rw [List.cons_append, next?, hfirst]
    obtain ⟨h, hnext⟩ := ih hgap
    rw [hnext]
    exact ⟨_, rfl⟩

lemma mark?_yields (hgap : IsGap gap) (hc : isGap c = false) (rest : List Char) :
    Yields (mark? c (gap ++ c :: rest)) () rest := by
  rw [mark?]
  refine (next?_yields hgap hc rest).bind fun h => ?_
  exact ⟨h, if_pos rfl⟩

lemma mark?_eq_none (hgap : IsGap gap) (hd : isGap d = false) (hne : c ≠ d) (rest : List Char) :
    mark? c (gap ++ d :: rest) = none := by
  obtain ⟨h, hnext⟩ := next?_yields hgap hd rest
  rw [mark?, hnext]
  exact if_neg hne

end Marks

section Strings

variable {text rest : List Char} {letters : List Letter}

lemma string?_escape {c d : Char} (hd : escaped? d = some c) (hcode : d ≠ 'u')
    (h : Yields (string? text) letters rest) :
    Yields (string? ('\\' :: d :: text)) (.char c :: letters) rest := by
  rw [string?.eq_4 d text fun _ _ _ _ _ heq => absurd heq hcode, hd]
  exact h.bind fun h => ⟨_, rfl⟩

/-- A control has a code below a space, and four hexadecimal digits write it. -/
lemma string?_hexEscape {code : ℕ} (hcode : code < 0x20) (h : Yields (string? text) letters rest) :
    Yields (string? (hexEscape code ++ text)) (.char (Char.ofNat code) :: letters) rest := by
  have hread : ∀ code < 0x20, hexCode? (Nat.digitChar (code / 4096 % 16))
      (Nat.digitChar (code / 256 % 16)) (Nat.digitChar (code / 16 % 16))
      (Nat.digitChar (code % 16)) = some code ∧ ofCode code = .char (Char.ofNat code) := by decide
  change Yields (string? ('\\' :: 'u' :: Nat.digitChar (code / 4096 % 16) ::
    Nat.digitChar (code / 256 % 16) :: Nat.digitChar (code / 16 % 16) ::
    Nat.digitChar (code % 16) :: text)) _ _
  rw [string?.eq_3, (hread code hcode).1, ← (hread code hcode).2]
  exact h.bind fun h => ⟨_, rfl⟩

lemma string?_raw {c : Char} (hquote : c ≠ '"') (hslash : c ≠ '\\') (hcode : ¬c.toNat < 0x20)
    (h : Yields (string? text) letters rest) :
    Yields (string? (c :: text)) (.char c :: letters) rest := by
  rw [string?.eq_5 c text hquote (fun _ _ _ _ _ heq => absurd heq hslash)
    (fun _ _ heq => absurd heq hslash), if_neg (not_or.mpr ⟨hslash, hcode⟩)]
  exact h.bind fun h => ⟨_, rfl⟩

/-- The text of a character is a short escape, an escaped code or the character itself. -/
lemma charText_cases (c : Char) :
    (∃ d, escaped? d = some c ∧ d ≠ 'u' ∧ charText c = ['\\', d]) ∨
      (c.toNat < 0x20 ∧ charText c = hexEscape c.toNat) ∨
      (c ≠ '"' ∧ c ≠ '\\' ∧ ¬c.toNat < 0x20 ∧ charText c = [c]) := by
  unfold charText
  split_ifs with hquote hslash hback hfeed hline hreturn htab hcode
  iterate 7
    · subst c
      exact .inl ⟨_, rfl, by decide, rfl⟩
  · exact .inr (.inl ⟨hcode, rfl⟩)
  · exact .inr (.inr ⟨hquote, hslash, hcode, rfl⟩)

lemma string?_charText (c : Char) (h : Yields (string? text) letters rest) :
    Yields (string? (charText c ++ text)) (.char c :: letters) rest := by
  rcases charText_cases c with
    ⟨d, hd, hcode, htext⟩ | ⟨hcode, htext⟩ | ⟨hquote, hslash, hcode, htext⟩
  · rw [htext]
    exact string?_escape hd hcode h
  · have hread := string?_hexEscape hcode h
    rwa [Char.ofNat_toNat, ← htext] at hread
  · rw [htext]
    exact string?_raw hquote hslash hcode h

lemma string?_yields (cs rest : List Char) :
    Yields (string? ((cs.map Letter.char).flatMap letterText ++ '"' :: rest)) (cs.map .char)
      rest := by
  induction cs with
  | nil =>
    rw [List.map_nil, List.flatMap_nil, List.nil_append, string?]
    exact ⟨_, rfl⟩
  | cons c cs ih =>
    rw [List.map_cons, List.flatMap_cons, List.append_assoc]
    exact string?_charText c ih

end Strings

section Numbers

/-- What may stand behind a number: nothing that would go on with it. -/
def Ends (rest : List Char) : Prop :=
  ∀ c ∈ rest.head?, c.isDigit = false ∧ c ≠ '.' ∧ c ≠ 'e' ∧ c ≠ 'E'

/-- A whole number without needless zeros in front. -/
structure IsWhole (literal : List Char) : Prop where
  ne_nil : literal ≠ []
  digits : ∀ c ∈ literal, c.isDigit = true
  zero : literal.head? = some '0' → literal = ['0']

variable {literal rest : List Char}

lemma isGap_of_isDigit {c : Char} (h : c.isDigit = true) : isGap c = false := by
  by_contra hgap
  simp only [isGap, Bool.not_eq_false, Bool.or_eq_true, beq_iff_eq] at hgap
  rcases hgap with ((rfl | rfl) | rfl) | rfl <;> exact absurd h (by decide)

lemma digits?_eq_none (hrest : Ends rest) : digits? rest = none := by
  cases rest with
  | nil => rfl
  | cons c rest =>
    have hc := (hrest c rfl).1
    rw [digits?, hc]
    rfl

lemma digits?_yields (hne : literal ≠ []) (hdigits : ∀ c ∈ literal, c.isDigit = true)
    (hrest : Ends rest) : Yields (digits? (literal ++ rest)) literal rest := by
  induction literal with
  | nil => exact absurd rfl hne
  | cons c literal ih =>
    obtain ⟨hc, hdigits⟩ := List.forall_mem_cons.mp hdigits
    rw [List.cons_append, digits?, if_pos hc]
    cases literal with
    | nil =>
      rw [List.nil_append, digits?_eq_none hrest]
      exact ⟨_, rfl⟩
    | cons d literal =>
      obtain ⟨h, hmore⟩ := ih (List.cons_ne_nil _ _) hdigits
      rw [hmore]
      exact ⟨_, rfl⟩

lemma whole?_yields (h : IsWhole literal) (hrest : Ends rest) :
    Yields (whole? (literal ++ rest)) literal rest := by
  by_cases hzero : literal.head? = some '0'
  · rw [h.zero hzero]
    exact ⟨_, rfl⟩
  · rw [whole?.eq_2]
    · exact digits?_yields h.ne_nil h.digits hrest
    · intro more heq
      obtain ⟨c, digits, rfl⟩ := List.exists_cons_of_ne_nil h.ne_nil
      obtain ⟨rfl, -⟩ := List.cons.inj heq
      exact hzero rfl

lemma fraction?_yields (hrest : Ends rest) : Yields (fraction? rest) [] rest := by
  rw [fraction?.eq_2]
  · exact ⟨_, rfl⟩
  · rintro more rfl
    exact (hrest '.' rfl).2.1 rfl

lemma exponent?_yields (hrest : Ends rest) : Yields (exponent? rest) [] rest := by
  cases rest with
  | nil => exact ⟨_, rfl⟩
  | cons c rest =>
    obtain ⟨-, -, hlower, hupper⟩ := hrest c rfl
    rw [exponent?, if_neg (not_or.mpr ⟨hlower, hupper⟩)]
    exact ⟨_, rfl⟩

lemma number?_yields (h : IsWhole literal) (hrest : Ends rest) :
    Yields (number? (literal ++ rest)) literal rest := by
  rw [number?.eq_2, magnitude?]
  · refine (whole?_yields h hrest).bind fun _ => (fraction?_yields hrest).bind fun _ =>
      (exponent?_yields hrest).bind fun _ => ?_
    simp only [List.append_nil]
    exact ⟨_, rfl⟩
  · intro more heq
    obtain ⟨c, digits, rfl⟩ := List.exists_cons_of_ne_nil h.ne_nil
    obtain ⟨rfl, -⟩ := List.cons.inj heq
    exact absurd (h.digits '-' List.mem_cons_self) (by decide)

end Numbers

section Values

/-- A text from which this document is read back, whatever follows that cannot go on with a number.
The text may begin with a gap. -/
def ReadBack (j : Json) (text : List Char) : Prop :=
  ∀ rest, Ends rest → Yields (value? (text ++ rest)) j rest

variable {gap text : List Char} {j : Json}

lemma ReadBack.number {literal : List Char} (h : IsWhole literal) (hgap : IsGap gap) :
    ReadBack (.number literal) (gap ++ literal) := by
  intro rest hrest
  obtain ⟨c, digits, rfl⟩ := List.exists_cons_of_ne_nil h.ne_nil
  have hc : c.isDigit = true := h.digits c List.mem_cons_self
  rw [value?, List.append_assoc, List.cons_append]
  refine (next?_yields hgap (isGap_of_isDigit hc) _).bind fun _ => ?_
  dsimp only
  split
  case h_7 => exact (number?_yields h hrest).bind fun _ => ⟨_, rfl⟩
  all_goals exact absurd hc (by decide)

lemma word?_yields (word rest : List Char) : Yields (word? word (word ++ rest)) () rest := by
  induction word with
  | nil => exact ⟨_, rfl⟩
  | cons c word ih =>
    rw [List.cons_append, word?, if_pos rfl]
    obtain ⟨h, hword⟩ := ih
    rw [hword]
    exact ⟨_, rfl⟩

lemma ReadBack.null (hgap : IsGap gap) : ReadBack .null (gap ++ "null".toList) := by
  intro rest _
  rw [List.append_assoc, value?]
  refine (next?_yields hgap rfl ("ull".toList ++ rest)).bind fun _ => ?_
  exact (word?_yields "ull".toList rest).bind fun _ => ⟨_, rfl⟩

lemma ReadBack.bool (value : Bool) (hgap : IsGap gap) :
    ReadBack (.bool value) (gap ++ boolText value) := by
  intro rest _
  rw [List.append_assoc, value?]
  cases value with
  | true =>
    refine (next?_yields hgap rfl ("rue".toList ++ rest)).bind fun _ => ?_
    exact (word?_yields "rue".toList rest).bind fun _ => ⟨_, rfl⟩
  | false =>
    refine (next?_yields hgap rfl ("alse".toList ++ rest)).bind fun _ => ?_
    exact (word?_yields "alse".toList rest).bind fun _ => ⟨_, rfl⟩

lemma ReadBack.string (cs : List Char) (hgap : IsGap gap) :
    ReadBack (.string (cs.map .char)) (gap ++ stringText (cs.map .char)) := by
  intro rest _
  rw [value?, stringText, List.append_assoc, List.append_assoc, List.cons_append]
  refine (next?_yields hgap rfl _).bind fun _ => ?_
  exact (string?_yields cs rest).bind fun _ => ⟨_, rfl⟩

/-- Where items can be read, no closing bracket stands. -/
lemma mark?_bracket_eq_none {items : List Json} {rest : List Char}
    (h : Yields (items? text) items rest) : mark? ']' text = none := by
  obtain ⟨hshorter, hitems⟩ := h
  rw [items?, value?] at hitems
  rw [mark?]
  cases hnext : next? text with
  | none => rfl
  | some first =>
    obtain ⟨c, after, hafter⟩ := first
    refine if_neg ?_
    rintro rfl
    rw [hnext] at hitems
    cases hitems

lemma ends_append (hgap : IsGap gap) {d : Char}
    (hd : d.isDigit = false ∧ d ≠ '.' ∧ d ≠ 'e' ∧ d ≠ 'E') (rest : List Char) :
    Ends (gap ++ d :: rest) := by
  intro c hc
  cases gap with
  | nil =>
    obtain rfl := Option.some.inj hc
    exact hd
  | cons first gap =>
    obtain rfl := Option.some.inj hc
    have hfirst := hgap first List.mem_cons_self
    simp only [isGap, Bool.or_eq_true, beq_iff_eq] at hfirst
    rcases hfirst with ((rfl | rfl) | rfl) | rfl <;> decide

lemma isGap_nil : IsGap [] := List.forall_mem_nil _

lemma ends_comma (rest : List Char) : Ends (',' :: rest) :=
  ends_append isGap_nil (by decide) rest

lemma comma_yields (rest : List Char) : Yields (mark? ',' (',' :: rest)) () rest :=
  mark?_yields isGap_nil rfl rest

section Items

variable {write : Json → List Char}

/-- The items of an array are read back one by one. -/
lemma items?_yields {items : List Json} (hne : items ≠ [])
    (hitems : ∀ item ∈ items, ReadBack item (write item)) (hgap : IsGap gap) (rest : List Char) :
    Yields (items? ([','].intercalate (items.map write) ++ (gap ++ ']' :: rest))) items rest := by
  induction items with
  | nil => exact absurd rfl hne
  | cons item items ih =>
    obtain ⟨hitem, hitems⟩ := List.forall_mem_cons.mp hitems
    rw [items?]
    cases items with
    | nil =>
      rw [List.map_cons, List.map_nil, List.intercalate_singleton]
      refine (hitem _ (ends_append hgap (by decide) rest)).bind fun _ => ?_
      dsimp only
      rw [mark?_eq_none hgap rfl (by decide)]
      exact (mark?_yields hgap rfl rest).bind fun _ => ⟨_, rfl⟩
    | cons other items =>
      rw [List.map_cons, List.map_cons, List.intercalate_cons_cons, ← List.map_cons,
        List.append_assoc, List.append_assoc, List.singleton_append]
      refine (hitem _ (ends_comma _)).bind fun _ => ?_
      obtain ⟨hshorter, hmark⟩ :=
        comma_yields ([','].intercalate ((other :: items).map write) ++ (gap ++ ']' :: rest))
      dsimp only
      rw [hmark]
      exact (ih (List.cons_ne_nil _ _) hitems).bind fun _ => ⟨_, rfl⟩

/-- An array is read back if its items are. -/
lemma ReadBack.array {items : List Json} (hne : items ≠ []) (hgap : IsGap gap) {close : List Char}
    (hclose : IsGap close) (hitems : ∀ item ∈ items, ReadBack item (write item)) :
    ReadBack (.array items)
      (gap ++ '[' :: [','].intercalate (items.map write) ++ close ++ [']']) := by
  intro rest _
  have hread := items?_yields hne hitems hclose rest
  have htext : gap ++ '[' :: [','].intercalate (items.map write) ++ close ++ [']'] ++ rest =
      gap ++ '[' :: ([','].intercalate (items.map write) ++ (close ++ ']' :: rest)) := by
    simp only [List.append_assoc, List.cons_append, List.nil_append]
  rw [htext, value?]
  refine (next?_yields hgap rfl _).bind fun _ => ?_
  dsimp only
  rw [mark?_bracket_eq_none hread]
  exact hread.bind fun _ => ⟨_, rfl⟩

lemma ReadBack.emptyArray (hgap : IsGap gap) : ReadBack (.array []) (gap ++ ['[', ']']) := by
  intro rest _
  rw [List.append_assoc, value?]
  refine (next?_yields hgap rfl (']' :: rest)).bind fun _ => ?_
  dsimp only
  obtain ⟨hshorter, hmark⟩ : Yields (mark? ']' (']' :: rest)) () rest :=
    mark?_yields isGap_nil rfl rest
  rw [hmark]
  exact ⟨_, rfl⟩

end Items

section Members

variable {write : List Letter × Json → List Char}

/-- A text from which this member of an object is read back: its name, which stands behind a gap,
and its value. -/
inductive MemberReadBack : List Letter × Json → List Char → Prop
  | mk {gap text : List Char} {value : Json} (hgap : IsGap gap) (name : List Char)
    (hvalue : ReadBack value text) :
    MemberReadBack (name.map .char, value) (gap ++ stringText (name.map .char) ++ ':' :: text)

/-- A member is read back by the steps that `members?` takes for it. -/
lemma MemberReadBack.yields {member : List Letter × Json} {text rest : List Char}
    (h : MemberReadBack member text) (hrest : Ends rest) :
    ∃ first second third, Yields (mark? '"' (text ++ rest)) () first ∧
      Yields (string? first) member.1 second ∧ Yields (mark? ':' second) () third ∧
      Yields (value? third) member.2 rest := by
  obtain @⟨gap, text, value, hgap, name, hvalue⟩ := h
  have htext : gap ++ stringText (name.map .char) ++ ':' :: text ++ rest =
      gap ++ '"' :: ((name.map Letter.char).flatMap letterText ++ '"' :: ':' :: (text ++ rest)) := by
    simp only [stringText, List.append_assoc, List.cons_append, List.nil_append]
  rw [htext]
  exact ⟨_, _, _, mark?_yields hgap rfl _, string?_yields name _, mark?_yields isGap_nil rfl _,
    hvalue rest hrest⟩

/-- The members of an object are read back one by one. -/
lemma members?_yields {members : List (List Letter × Json)} (hne : members ≠ [])
    (hmembers : ∀ member ∈ members, MemberReadBack member (write member)) (hgap : IsGap gap)
    (rest : List Char) :
    Yields (members? ([','].intercalate (members.map write) ++ (gap ++ '\x7d' :: rest))) members
      rest := by
  induction members with
  | nil => exact absurd rfl hne
  | cons member members ih =>
    obtain ⟨hmember, hmembers⟩ := List.forall_mem_cons.mp hmembers
    rw [members?]
    cases members with
    | nil =>
      rw [List.map_cons, List.map_nil, List.intercalate_singleton]
      have hends : Ends (gap ++ '\x7d' :: rest) := ends_append hgap (by decide) rest
      obtain ⟨_, _, _, hquote, hname, hcolon, hvalue⟩ := hmember.yields hends
      refine hquote.bind fun _ => hname.bind fun _ => hcolon.bind fun _ => hvalue.bind fun _ => ?_
      dsimp only
      rw [mark?_eq_none hgap rfl (by decide)]
      exact (mark?_yields hgap rfl rest).bind fun _ => ⟨_, rfl⟩
    | cons other members =>
      rw [List.map_cons, List.map_cons, List.intercalate_cons_cons, ← List.map_cons,
        List.append_assoc, List.append_assoc, List.singleton_append]
      obtain ⟨_, _, _, hquote, hname, hcolon, hvalue⟩ := hmember.yields (ends_comma _)
      refine hquote.bind fun _ => hname.bind fun _ => hcolon.bind fun _ => hvalue.bind fun _ => ?_
      obtain ⟨hshorter, hmark⟩ :=
        comma_yields ([','].intercalate ((other :: members).map write) ++ (gap ++ '\x7d' :: rest))
      dsimp only
      rw [hmark]
      exact (ih (List.cons_ne_nil _ _) hmembers).bind fun _ => ⟨_, rfl⟩

/-- Where members can be read, no closing brace stands. -/
lemma mark?_brace_eq_none {members : List (List Letter × Json)} {rest : List Char}
    (h : Yields (members? text) members rest) : mark? '\x7d' text = none := by
  obtain ⟨hshorter, hmembers⟩ := h
  rw [members?, mark?] at hmembers
  rw [mark?]
  cases hnext : next? text with
  | none => rfl
  | some first =>
    obtain ⟨c, after, hafter⟩ := first
    refine if_neg ?_
    rintro rfl
    rw [hnext] at hmembers
    cases hmembers

/-- An object is read back if its members are. -/
lemma ReadBack.object {members : List (List Letter × Json)} (hne : members ≠ []) (hgap : IsGap gap)
    {close : List Char} (hclose : IsGap close)
    (hmembers : ∀ member ∈ members, MemberReadBack member (write member)) :
    ReadBack (.object members)
      (gap ++ '\x7b' :: [','].intercalate (members.map write) ++ close ++ ['\x7d']) := by
  intro rest _
  have hread := members?_yields hne hmembers hclose rest
  have htext :
      gap ++ '\x7b' :: [','].intercalate (members.map write) ++ close ++ ['\x7d'] ++ rest =
      gap ++ '\x7b' :: ([','].intercalate (members.map write) ++ (close ++ '\x7d' :: rest)) := by
    simp only [List.append_assoc, List.cons_append, List.nil_append]
  rw [htext, value?]
  refine (next?_yields hgap rfl _).bind fun _ => ?_
  dsimp only
  rw [mark?_brace_eq_none hread]
  exact hread.bind fun _ => ⟨_, rfl⟩

lemma ReadBack.emptyObject (hgap : IsGap gap) :
    ReadBack (.object []) (gap ++ ['\x7b', '\x7d']) := by
  intro rest _
  rw [List.append_assoc, value?]
  refine (next?_yields hgap rfl ('\x7d' :: rest)).bind fun _ => ?_
  dsimp only
  obtain ⟨hshorter, hmark⟩ : Yields (mark? '\x7d' ('\x7d' :: rest)) () rest :=
    mark?_yields isGap_nil rfl rest
  rw [hmark]
  exact ⟨_, rfl⟩

end Members

end Values

section Layouts

/-- Documents whose numbers are whole and whose strings have no single surrogates. -/
inductive Plain : Json → Prop
  | null : Plain .null
  | bool (value : Bool) : Plain (.bool value)
  | number {literal : List Char} (h : IsWhole literal) : Plain (.number literal)
  | string (cs : List Char) : Plain (.string (cs.map .char))
  | array {items : List Json} (h : ∀ item ∈ items, Plain item) : Plain (.array items)
  | object {members : List (List Letter × Json)}
    (hnames : ∀ member ∈ members, ∃ cs : List Char, member.1 = cs.map .char)
    (h : ∀ member ∈ members, Plain member.2) : Plain (.object members)

/-- A text that puts commas between its parts. -/
lemma eq_intercalate {α : Type} {join : List α → List Char} {write : α → List Char}
    (hnil : join [] = []) (hone : ∀ a, join [a] = write a)
    (hcons : ∀ a b rest, join (a :: b :: rest) = write a ++ ',' :: join (b :: rest))
    (items : List α) : join items = [','].intercalate (items.map write) := by
  induction items with
  | nil => exact hnil
  | cons a rest ih =>
    cases rest with
    | nil => rw [hone, List.map_cons, List.map_nil, List.intercalate_singleton]
    | cons b rest =>
      simp only [hcons, ih, List.map_cons, List.intercalate_cons_cons, List.append_assoc,
        List.singleton_append]

lemma compactItems_eq (items : List Json) :
    compactItems items = [','].intercalate (items.map compact) :=
  eq_intercalate (by simp [compactItems]) (by simp [compactItems]) (by simp [compactItems]) items

lemma compactMembers_eq (members : List (List Letter × Json)) :
    compactMembers members = [','].intercalate
      (members.map fun member => stringText member.1 ++ ':' :: compact member.2) :=
  eq_intercalate (by simp [compactMembers]) (by simp [compactMembers]) (by simp [compactMembers])
    members

lemma indentedItems_eq (depth : ℕ) (items : List Json) :
    indentedItems depth items =
      [','].intercalate (items.map fun item => newLine depth ++ indented depth item) :=
  eq_intercalate (by simp [indentedItems]) (by simp [indentedItems]) (by simp [indentedItems]) items

lemma indentedMembers_eq (depth : ℕ) (members : List (List Letter × Json)) :
    indentedMembers depth members = [','].intercalate (members.map fun member =>
      newLine depth ++ stringText member.1 ++ ':' :: ' ' :: indented depth member.2) :=
  eq_intercalate (by simp [indentedMembers]) (by simp [indentedMembers])
    (by simp [indentedMembers]) members

lemma isGap_newLine (depth : ℕ) : IsGap (newLine depth) := by
  refine List.forall_mem_cons.mpr ⟨by decide, fun c hc => ?_⟩
  rw [List.eq_of_mem_replicate hc]
  decide

variable {j : Json}

/-- A member is read back if its value is. -/
lemma memberReadBack {member : List Letter × Json} {gap text : List Char}
    (hname : ∃ cs : List Char, member.1 = cs.map .char) (hgap : IsGap gap)
    (hvalue : ReadBack member.2 text) :
    MemberReadBack member (gap ++ stringText member.1 ++ ':' :: text) := by
  obtain ⟨name, value⟩ := member
  obtain ⟨cs, rfl⟩ := hname
  exact .mk hgap cs hvalue

/-- A document is read back from its text without blanks. -/
theorem Plain.readBack_compact (h : Plain j) {gap : List Char} (hgap : IsGap gap) :
    ReadBack j (gap ++ j.compact) := by
  induction h generalizing gap with
  | null => exact .null hgap
  | bool value => exact .bool value hgap
  | number h => exact .number h hgap
  | string cs => exact .string cs hgap
  | @array items _ ih =>
    rw [compact, compactItems_eq]
    cases items with
    | nil => exact .emptyArray hgap
    | cons item items =>
      have h := ReadBack.array (List.cons_ne_nil item items) hgap isGap_nil fun other hother =>
        ih other hother isGap_nil
      simpa using h
  | @object members hnames _ ih =>
    rw [compact, compactMembers_eq]
    cases members with
    | nil => exact .emptyObject hgap
    | cons member members =>
      have h := ReadBack.object (List.cons_ne_nil member members) hgap isGap_nil fun other hother =>
        memberReadBack (hnames other hother) isGap_nil (ih other hother isGap_nil)
      simpa using h

/-- A document is read back from its indented text. -/
theorem Plain.readBack_indented (h : Plain j) (depth : ℕ) {gap : List Char} (hgap : IsGap gap) :
    ReadBack j (gap ++ j.indented depth) := by
  induction h generalizing gap depth with
  | null => exact .null hgap
  | bool value => exact .bool value hgap
  | number h => exact .number h hgap
  | string cs => exact .string cs hgap
  | @array items _ ih =>
    cases items with
    | nil => exact .emptyArray hgap
    | cons item items =>
      rw [indented, indentedItems_eq]
      have h := ReadBack.array (List.cons_ne_nil item items) hgap (isGap_newLine depth)
        fun other hother => ih other hother (depth + 1) (isGap_newLine (depth + 1))
      simpa using h
  | @object members hnames _ ih =>
    cases members with
    | nil => exact .emptyObject hgap
    | cons member members =>
      rw [indented, indentedMembers_eq]
      have hblank : IsGap [' '] := by simp [IsGap, isGap]
      have h := ReadBack.object (List.cons_ne_nil member members) hgap (isGap_newLine depth)
        fun other hother => memberReadBack (hnames other hother) (isGap_newLine (depth + 1))
          (ih other hother (depth + 1) hblank)
      simpa using h

lemma parse?_of_readBack {text : List Char} (h : ReadBack j text) :
    parse? (String.ofList text) = some j := by
  obtain ⟨hshorter, hread⟩ : Yields (value? (String.ofList text).toList) j [] := by
    have hread := h [] (by simp [Ends])
    rwa [List.append_nil, ← String.toList_ofList (l := text)] at hread
  rw [parse?, hread]
  rfl

theorem Plain.parse?_compact (h : Plain j) : parse? (String.ofList j.compact) = some j :=
  parse?_of_readBack (h.readBack_compact isGap_nil)

theorem Plain.parse?_indented (h : Plain j) : parse? (String.ofList (j.indented 0)) = some j :=
  parse?_of_readBack (h.readBack_indented 0 isGap_nil)

end Layouts

end VhdlGates.Json
