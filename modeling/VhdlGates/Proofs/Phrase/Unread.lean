import VhdlGates.Proofs.Phrase.Clauses

/-! Tokens that are left unread. If what a reader leaves ends in some tokens, then the reader gives
the same value without them. Clauses are read off just what they are written with and read back from
it, so for them this follows from soundness and completeness. -/
namespace VhdlGates

/-- Tokens that are not read may be cut off. -/
lemma Reads.cut {R : TokenKind → TokenKind → Prop} {kinds : List TokenKind}
    {tokens left more : List Token} (h : Reads R kinds tokens (left ++ more)) :
    ∃ front, tokens = front ++ more ∧ Reads R kinds front left := by
  induction kinds generalizing tokens with
  | nil =>
    obtain rfl := Reads.nil_iff.mp h
    exact ⟨left, rfl, .nil left⟩
  | cons kind kinds ih =>
    obtain ⟨token, after, rfl, first, others⟩ := Reads.cons_iff.mp h
    obtain ⟨front, rfl, hfront⟩ := ih others
    exact ⟨token :: front, rfl, .cons first hfront⟩

/-- Where nothing is left, every token has been read. -/
lemma Reads.length_eq {R : TokenKind → TokenKind → Prop} {kinds : List TokenKind}
    {tokens : List Token} (h : Reads R kinds tokens []) : kinds.length = tokens.length :=
  Nat.le_antisymm h.length_le (List.drop_eq_nil_iff.mp h.drop_eq)

/-- Only numbers are matched by tokens of another kind. -/
lemma Matched.spelled {kinds : List TokenKind} {tokens rest : List Token}
    (h : Matched kinds tokens rest) (hkinds : ∀ x, .number x ∉ kinds) :
    Spelled kinds tokens rest := by
  induction h with
  | nil tokens => exact .nil tokens
  | @cons kind token kinds tokens rest first _ ih =>
    simp only [List.mem_cons, not_or] at hkinds
    refine .cons ?_ (ih fun x => (hkinds x).2)
    obtain ⟨found, place⟩ := token
    cases first with
    | same => rfl
    | @zero x => exact ((hkinds x).1 rfl).elim

lemma Ahead.of_append {P : TokenKind → Prop} {front more : List Token}
    (h : Ahead P (front ++ more)) : Ahead P front :=
  fun token htoken => h token (List.mem_head?_append_of_mem_head? htoken)

section Ignorance

variable {α β : Type} {bound : List Token → ℕ} {n : ℕ} {more tokens : List Token} {Q : β → Prop}

/-- If what the reader leaves of `tokens` ends in `more`, then it reads the same without `more`. -/
def Ignores (more : List Token)
    (f : (tokens : List Token) → Except Complaint (Reading Token α (bound tokens)))
    (tokens : List Token) (r : Reading Token α n) : Prop :=
  ∀ left, r.rest = left ++ more → ∃ front, tokens = front ++ more ∧ Gives (f front) r.value left

/-- The same of a reader that may find nothing. -/
def IgnoresOption (more : List Token)
    (f : (tokens : List Token) → Except Complaint (Option (Reading Token α (bound tokens))))
    (tokens : List Token) : Option (Reading Token α n) → Prop
  | none => ∀ front, tokens = front ++ more → f front = .ok none
  | some r =>
    ∀ left, r.rest = left ++ more → ∃ front, tokens = front ++ more ∧ Finds (f front) r.value left

/-- What is read as it is written is read back where nothing follows that was not read. -/
lemma Ignores.of_written
    {f : (tokens : List Token) → Except Complaint (Reading Token α (bound tokens))}
    {r : Reading Token α n} {kinds : List TokenKind} (hread : Matched kinds tokens r.rest)
    (hkinds : ∀ x, .number x ∉ kinds)
    (hwritten : ∀ {tokens rest}, Spelled kinds tokens rest → Gives (f tokens) r.value rest) :
    Ignores more f tokens r := by
  intro left hleft
  rw [hleft] at hread
  obtain ⟨front, htokens, hfront⟩ := (hread.spelled hkinds).cut
  exact ⟨front, htokens, hwritten hfront⟩

lemma Ensures.bindIgnores {x : Except Complaint (Reading Token α n)}
    {f : (tokens : List Token) → Except Complaint (Reading Token α (bound tokens))}
    {g : Reading Token α n → Except Complaint β} (hx : Ensures x (Ignores more f tokens))
    (hg : ∀ value rest h,
      (∀ left, rest = left ++ more → ∃ front, tokens = front ++ more ∧ Gives (f front) value left) →
        Ensures (g ⟨value, rest, h⟩) Q) :
    Ensures (x >>= g) Q :=
  hx.bind fun r hignores => hg r.value r.rest r.shorter hignores

lemma Ensures.bindIgnoresOption {x : Except Complaint (Option (Reading Token α n))}
    {f : (tokens : List Token) → Except Complaint (Option (Reading Token α (bound tokens)))}
    {g : Option (Reading Token α n) → Except Complaint β}
    (hx : Ensures x (IgnoresOption more f tokens))
    (hnone : (∀ front, tokens = front ++ more → f front = .ok none) → Ensures (g none) Q)
    (hsome : ∀ value rest h,
      (∀ left, rest = left ++ more → ∃ front, tokens = front ++ more ∧ Finds (f front) value left) →
        Ensures (g (some ⟨value, rest, h⟩)) Q) :
    Ensures (x >>= g) Q := by
  refine hx.bind ?_
  rintro (_ | ⟨value, rest, h⟩) hignores
  · exact hnone hignores
  · exact hsome value rest h hignores

end Ignorance

section Written

variable (x : Decimal.Binary64)

@[simp] lemma number_notMem_namesWritten (names : List String) :
    .number x ∉ namesWritten names := by
  induction names with
  | nil => simp [namesWritten]
  | cons name more ih =>
    cases more with
    | nil => simp [namesWritten]
    | cons next more =>
      rw [namesWritten_cons name (List.cons_ne_nil _ _)]
      simpa using ih

@[simp] lemma SignalDeclaration.number_notMem_written (d : SignalDeclaration) :
    .number x ∉ d.written := by
  simp [written]

@[simp] lemma SignalDeclaration.number_notMem_allWritten (ds : List SignalDeclaration) :
    .number x ∉ allWritten ds := by
  induction ds with
  | nil => simp [allWritten]
  | cons d ds ih => simp [allWritten, ih]

@[simp] lemma PortDeclaration.number_notMem_written (d : PortDeclaration) :
    .number x ∉ d.written := by
  simp [written]

@[simp] lemma EndClause.number_notMem_written (k : Keyword) (e : EndClause) :
    .number x ∉ e.written k := by
  obtain ⟨repeats, label⟩ := e
  cases repeats <;> cases label <;> simp [written]

@[simp] lemma Entity.number_notMem_written (e : Entity) : .number x ∉ e.written := by
  obtain ⟨name, ports, ending⟩ := e
  cases ports with
  | nil => simp [written, PortDeclaration.allWritten]
  | cons first others => simp [written, PortDeclaration.allWritten_cons]

end Written

namespace Parser

section WellFormed

variable (construct : Construct) (tokens : List Token)

lemma someNames_ne_nil (missing : Expectation) :
    Ensures (someNames construct missing tokens) fun r => r.value ≠ [] := by
  dsimp only [someNames]
  split_ifs with hempty
  · exact .throw _
  · exact .pure (by simpa using hempty)

lemma signalDeclaration_names :
    Ensures (signalDeclaration tokens) fun r => r.value.names ≠ [] := by
  refine .after fun first => (someNames_ne_nil _ first.rest _).bind fun _ hnames => ?_
  exact .after fun _ => .after fun _ => .after fun _ => .pure hnames

lemma moreSignals_names : ∀ d ∈ (moreSignals tokens).value, d.names ≠ [] := by
  fun_induction moreSignals tokens with
  | case1 => simp
  | case2 tokens first rest h hfirst others after h' hothers ih =>
    rw [hothers] at ih
    exact List.forall_mem_cons.mpr ⟨signalDeclaration_names tokens _ hfirst, ih⟩

lemma signalDeclarations_names :
    Ensures (signalDeclarations tokens) fun r => ∀ d ∈ r.value, d.names ≠ [] := by
  unfold signalDeclarations
  split_ifs
  · exact .pure (by simp)
  · refine (signalDeclaration_names tokens).bind ?_
    rintro ⟨first, rest, _⟩ hfirst
    exact .pure (List.forall_mem_cons.mpr ⟨hfirst, moreSignals_names rest⟩)

lemma heading_names :
    Ensures (heading tokens) fun r => ∀ d ∈ r.value.signals, d.names ≠ [] := by
  refine .after fun _ => .after fun _ => .after fun _ => .after fun opened => ?_
  refine (signalDeclarations_names opened.rest).bind fun _ hsignals => ?_
  exact .after fun _ => .pure hsignals

lemma portDeclaration_names :
    Ensures (portDeclaration tokens) fun r => r.value.names ≠ [] := by
  refine (someNames_ne_nil _ tokens _).bind fun _ hnames => ?_
  exact .after fun _ => .after fun _ => .after fun _ => .pure hnames

lemma morePorts_names : ∀ d ∈ (morePorts tokens).value, d.names ≠ [] := by
  fun_induction morePorts tokens with
  | case1 => simp
  | case2 place rest next after h hnext others after' h' hothers ih =>
    rw [hothers] at ih
    exact List.forall_mem_cons.mpr ⟨portDeclaration_names rest _ hnext, ih⟩
  | case3 => simp

lemma endClause_label (k : Keyword) (name : String) :
    Ensures (endClause construct k name tokens) fun r => ∀ l ∈ r.value.label, l = name := by
  have hlabel : ∀ tokens, Ensures (closingLabel construct name tokens) fun r =>
      ∀ l ∈ r.value, l = name := by
    intro tokens
    unfold closingLabel
    split
    · split_ifs with heq
      · exact .pure (by simpa using heq)
      · exact .throw _
    · exact .pure (by simp)
  refine .after fun _ => (hlabel _).bind fun _ hlabel => ?_
  exact .after fun _ => .pure hlabel

lemma entity_wellFormed :
    Ensures (entity tokens) fun r => r.value.ports ≠ [] ∧ (∀ d ∈ r.value.ports, d.names ≠ []) ∧
      ∀ l ∈ r.value.ending.label, l = r.value.name := by
  refine .after fun name => .after fun _ => .after fun _ => .after fun opened => ?_
  refine (portDeclaration_names opened.rest).bind fun first hfirst => ?_
  refine .after fun _ => .after fun closed => ?_
  refine (endClause_label _ closed.rest _ name.value).bind fun _ hlabel => ?_
  exact .pure ⟨by simp, List.forall_mem_cons.mpr ⟨hfirst, morePorts_names first.rest⟩, hlabel⟩

end WellFormed

section Clauses

variable (more : List Token) (construct : Construct) (tokens : List Token)

lemma keyword_ignores (k : Keyword) :
    Ensures (keyword construct k tokens) (Ignores more (keyword construct k) tokens) :=
  fun r hr => .of_written (keyword_sound construct tokens k r hr) (by simp) keyword_complete

lemma mark_ignores (p : Punctuation) :
    Ensures (mark construct p tokens) (Ignores more (mark construct p) tokens) :=
  fun r hr => .of_written (mark_sound construct tokens p r hr) (by simp) mark_complete

lemma paren_ignores (p : Paren) :
    Ensures (paren construct p tokens) (Ignores more (paren construct p) tokens) :=
  fun r hr => .of_written (paren_sound construct tokens p r hr) (by simp) paren_complete

lemma bit_ignores : Ensures (bit tokens) (Ignores more bit tokens) := by
  rcases tokens with _ | ⟨⟨kind, place⟩, rest⟩
  · exact .throw _
  cases kind with
  | number value =>
    rw [bit]
    split_ifs with hvalue
    · refine (mark_ignores more _ rest _).bindIgnores ?_
      intro _ after _ h
      refine .pure fun left hleft => ?_
      obtain ⟨front, rfl, g⟩ := h left hleft
      refine ⟨⟨.number value, place⟩ :: front, rfl, ?_⟩
      rw [bit, if_pos hvalue]
      exact g.bind fun _ => .pure _
    · exact .throw _
  | _ => exact .throw _

lemma signalDeclaration_ignores :
    Ensures (signalDeclaration tokens) (Ignores more signalDeclaration tokens) := by
  intro r hr
  have hnames := signalDeclaration_names tokens r hr
  exact .of_written (signalDeclaration_sound tokens r hr) (by simp)
    (signalDeclaration_complete hnames)

lemma endClause_ignores (k : Keyword) (name : String) :
    Ensures (endClause construct k name tokens)
      (Ignores more (endClause construct k name) tokens) := by
  intro r hr
  have hlabel := endClause_label construct tokens k name r hr
  exact .of_written (endClause_sound construct tokens k name r hr) (by simp)
    (endClause_complete hlabel)

lemma entity_ignores : Ensures (entity tokens) (Ignores more entity tokens) := by
  intro r hr
  obtain ⟨hports, hnames, hlabel⟩ := entity_wellFormed tokens r hr
  -- the keyword has been read before
  have hread : Matched (.keyword .entity :: r.value.written.tail)
    (⟨.keyword .entity, ⟨1, 1⟩⟩ :: tokens) r.rest := entity_sound tokens ⟨1, 1⟩ r hr
  cases hread with
  | cons _ hread =>
    refine .of_written hread ?_ ?_
    · exact fun x hx => Entity.number_notMem_written x r.value (List.mem_of_mem_tail hx)
    · intro tokens rest h
      have hwritten : Spelled (.keyword .entity :: r.value.written.tail)
        (⟨.keyword .entity, ⟨1, 1⟩⟩ :: tokens) rest := .cons rfl h
      exact entity_complete hports hnames hlabel hwritten

lemma libraryClause_ignores :
    Ensures (libraryClause tokens) (Ignores more libraryClause tokens) := by
  refine (identifier_sound _ tokens).bind ?_
  rintro ⟨name, rest₁, _⟩ h₁
  refine (mark_sound _ rest₁ _).bind ?_
  rintro ⟨_, rest, _⟩ h₂
  exact .pure (.of_written (h₁.append h₂) (by simp) libraryClause_complete)

lemma useClause_ignores : Ensures (useClause tokens) (Ignores more useClause tokens) := by
  refine (identifier_sound _ tokens).bind ?_
  rintro ⟨library, rest₁, _⟩ h₁
  refine (mark_sound _ rest₁ _).bind ?_
  rintro ⟨_, rest₂, _⟩ h₂
  refine (identifier_sound _ rest₂).bind ?_
  rintro ⟨package, rest₃, _⟩ h₃
  refine (mark_sound _ rest₃ _).bind ?_
  rintro ⟨_, rest₄, _⟩ h₄
  refine (identifier_sound _ rest₄).bind ?_
  rintro ⟨item, rest₅, _⟩ h₅
  refine (mark_sound _ rest₅ _).bind ?_
  rintro ⟨_, rest, _⟩ h₆
  have hread := h₁.append (h₂.append (h₃.append (h₄.append (h₅.append h₆))))
  exact .pure (.of_written hread (by simp) useClause_complete)

lemma endIf_ignores : Ensures (endIf construct tokens) (Ignores more (endIf construct) tokens) :=
  fun r hr => .of_written (endIf_sound construct tokens r hr) (by simp) endIf_complete

lemma endProcess_ignores : Ensures (endProcess tokens) (Ignores more endProcess tokens) :=
  fun r hr => .of_written (endProcess_sound tokens r hr) (by simp) endProcess_complete

lemma sensitivity_ignores : Ensures (sensitivity tokens) (Ignores more sensitivity tokens) :=
  fun r hr => .of_written (sensitivity_sound tokens r hr) (by simp) sensitivity_complete

lemma heading_ignores : Ensures (heading tokens) (Ignores more heading tokens) := by
  intro r hr
  have hsignals := heading_names tokens r hr
  exact .of_written (heading_sound tokens r hr) (by simp) (heading_complete hsignals)

end Clauses

section Choices

variable {tokens left front more : List Token}

lemma terminator_ignores (hleft : (terminator tokens).rest = left ++ more) :
    ∃ front, tokens = front ++ more ∧
      ∃ h, terminator front = ⟨(terminator tokens).value, left, h⟩ := by
  by_cases hother : Ahead (· ≠ .punctuation .semicolon) tokens
  · have hnone : ∀ {tokens}, Ahead (· ≠ .punctuation .semicolon) tokens →
        ∃ h, terminator tokens = ⟨false, tokens, h⟩ := terminator_complete (.nil _)
    obtain ⟨_, hterminator⟩ := hnone hother
    rw [hterminator] at hleft ⊢
    obtain rfl : tokens = left ++ more := hleft
    exact ⟨left, rfl, hnone hother.of_append⟩
  · simp only [Ahead, not_forall, not_not] at hother
    obtain ⟨⟨kind, place⟩, hfirst, rfl⟩ := hother
    obtain ⟨rest, rfl⟩ := List.head?_eq_some_iff.mp hfirst
    obtain rfl : rest = left ++ more := hleft
    let semicolon : Token := ⟨.punctuation .semicolon, place⟩
    have hlt : left.length < (semicolon :: left).length + 1 := by
      rw [List.length_cons]
      omega
    exact ⟨semicolon :: left, rfl, hlt, rfl⟩

lemma keyword?_none_of_append {k : Keyword} (h : keyword? k (front ++ more) = none) :
    keyword? k front = none := by
  cases front with
  | nil => rfl
  | cons token rest =>
    rw [List.cons_append, keyword?] at h
    rw [keyword?]
    split_ifs at h ⊢
    rfl

lemma operator?_none_of_append (h : operator? (front ++ more) = none) : operator? front = none := by
  rcases front with _ | ⟨⟨kind, place⟩, rest⟩
  · rfl
  · cases kind with
    | operator => cases h
    | _ => rfl

lemma keyword?_ignores {k : Keyword} {r : Reading Token Unit tokens.length}
    (h : keyword? k tokens = some r) (hleft : r.rest = left ++ more) :
    ∃ front, tokens = front ++ more ∧ ∃ h, keyword? k front = some ⟨(), left, h⟩ := by
  have hread := keyword?_sound tokens h
  rw [hleft] at hread
  obtain ⟨front, htokens, hfront⟩ := (hread.spelled (by simp)).cut
  exact ⟨front, htokens, keyword?_some hfront⟩

lemma operator?_ignores {r : Reading Token Operator tokens.length} (h : operator? tokens = some r)
    (hleft : r.rest = left ++ more) :
    ∃ front, tokens = front ++ more ∧ ∃ h, operator? front = some ⟨r.value, left, h⟩ := by
  have hread := operator?_sound tokens h
  rw [hleft] at hread
  obtain ⟨front, htokens, hfront⟩ := (hread.spelled (by simp)).cut
  exact ⟨front, htokens, operator?_some hfront⟩

lemma keyword?_of_endIf {construct : Construct} (h : Gives (endIf construct tokens) () left) :
    ∃ r, keyword? .end_ tokens = some r := by
  obtain ⟨_, hend⟩ := h
  have hread := Matched.spelled (endIf_sound construct tokens _ hend) (by simp)
  obtain ⟨rest, hread, -⟩ := hread.uncons
  obtain ⟨_, hkeyword⟩ := keyword?_some hread
  exact ⟨_, hkeyword⟩

end Choices

end Parser

end VhdlGates
