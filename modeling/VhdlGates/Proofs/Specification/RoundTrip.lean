import VhdlGates.Compile
import VhdlGates.Proofs.Json.RoundTrip

/-! Specifications as texts. Both texts of a specification hold exactly this specification. -/
namespace VhdlGates

namespace Json

/-- A positive number does not begin with a zero. -/
lemma head?_toDigits_ne {n : ℕ} (h : 0 < n) : (Nat.toDigits 10 n).head? ≠ some '0' := by
  induction n using Nat.strongRecOn with
  | ind n ih =>
    by_cases hlt : n < 10
    · have hdigit : ∀ n < 10, 0 < n → [Nat.digitChar n].head? ≠ some '0' := by decide
      rw [Nat.toDigits_of_lt_base hlt]
      exact hdigit n hlt h
    · rw [Nat.toDigits_of_base_le (by omega) (by omega),
        List.head?_append_of_ne_nil _ Nat.toDigits_ne_nil]
      exact ih (n / 10) (by omega) (by omega)

lemma isWhole_toDigits (n : ℕ) : IsWhole (Nat.toDigits 10 n) where
  ne_nil := Nat.toDigits_ne_nil
  digits c hc := Nat.isDigit_of_mem_toDigits (by decide) (by decide) hc
  zero hzero := by
    rcases Nat.eq_zero_or_pos n with rfl | hpos
    · rfl
    · exact absurd hzero (head?_toDigits_ne hpos)

lemma plain_ofString (text : String) : Plain (ofString text) := .string text.toList

lemma plain_ofNat (n : ℕ) : Plain (ofNat n) := .number (isWhole_toDigits n)

lemma plain_ofFields {fields : List (String × Json)} (h : ∀ field ∈ fields, Plain field.2) :
    Plain (ofFields fields) := by
  refine .object (fun member hmember => ?_) fun member hmember => ?_
  · obtain ⟨field, -, rfl⟩ := List.mem_map.mp hmember
    exact ⟨field.1.toList, rfl⟩
  · obtain ⟨field, hfield, rfl⟩ := List.mem_map.mp hmember
    exact h field hfield

lemma plain_array_map {α : Type} {toJson : α → Json} (h : ∀ a, Plain (toJson a)) (items : List α) :
    Plain (.array (items.map toJson)) := by
  refine .array fun item hitem => ?_
  obtain ⟨a, -, rfl⟩ := List.mem_map.mp hitem
  exact h a

@[simp] lemma toString?_ofString (text : String) : (ofString text).toString? = some text :=
  decode?_encode text

@[simp] lemma choice?_ofString (text : String) : (ofString text).choice? = some text :=
  decode?_encode text

@[simp] lemma toUInt32?_ofNat (n : UInt32) : (ofNat n.toNat).toUInt32? = some n := by
  have hdigits : (Nat.toDigits 10 n.toNat).all Char.isDigit = true :=
    List.all_eq_true.mpr (isWhole_toDigits n.toNat).digits
  have hvalue : (Nat.toDigits 10 n.toNat).foldl (fun m c => 10 * m + (c.toNat - '0'.toNat)) 0 =
      n.toNat := Nat.ofDigitChars_ten_toDigits
  simp only [ofNat, toUInt32?, hdigits, hvalue, if_true, UInt32.ofNat_toNat]
  exact if_pos n.toNat_lt

lemma mapM_map_eq_some {α β γ : Type} {f : α → β} {g : β → Option γ} {k : α → γ} {items : List α}
    (h : ∀ a ∈ items, g (f a) = some (k a)) : (items.map f).mapM g = some (items.map k) := by
  induction items with
  | nil => rfl
  | cons item rest ih =>
    obtain ⟨hitem, hrest⟩ := List.forall_mem_cons.mp h
    simp [List.mapM_cons, hitem, ih hrest]

/-- A list whose items are read back is read back. -/
lemma mapM_readBack {α : Type} {toJson : α → Json} {ofJson? : Json → Option α}
    (h : ∀ a, ofJson? (toJson a) = some a) (items : List α) :
    (items.map toJson).mapM ofJson? = some items := by
  have hitems : ∀ a ∈ items, ofJson? (toJson a) = some (id a) := fun a _ => h a
  rw [mapM_map_eq_some hitems, List.map_id]

lemma member?_of_mem {fields : List (String × Json)} (h : (fields.map (·.1)).Nodup)
    {field : String × Json} (hfield : field ∈ fields) : member? fields field.1 = some field.2 := by
  have hfilter : fields.filter (·.1 == field.1) = [field] := by
    induction fields with
    | nil => cases hfield
    | cons first rest ih =>
      obtain ⟨hfirst, hrest⟩ := List.nodup_cons.mp h
      rw [List.filter_cons]
      rcases List.mem_cons.mp hfield with rfl | hmem
      · have hnone : rest.filter (·.1 == field.1) = [] := by
          refine List.filter_eq_nil_iff.mpr fun other hother heq => hfirst ?_
          exact List.mem_map.mpr ⟨other, hother, beq_iff_eq.mp heq⟩
        rw [if_pos (beq_self_eq_true _), hnone]
      · have hne : first.1 ≠ field.1 := fun heq =>
          hfirst (List.mem_map.mpr ⟨field, hmem, heq.symm⟩)
        rw [if_neg (by simpa using hne), ih hrest hmem]
  rw [member?, hfilter]

lemma namedMembers?_encode (fields : List (String × Json)) :
    namedMembers? (fields.map fun field => (encode field.1, field.2)) = some fields := by
  have h : ∀ field ∈ fields, (decode? (encode field.1)).map (fun name => (name, field.2)) =
      some (id field) := fun field _ => by rw [decode?_encode, Option.map_some, id]
  rw [namedMembers?, mapM_map_eq_some h, List.map_id]

/-- A record that is written as an object is read field by field. -/
lemma fields?_ofFields {fields : List (String × Json)} {names : List String}
    (hnames : fields.map (·.1) = names) (h : names.Nodup) :
    (ofFields fields).fields? names = some (fields.map (·.2)) := by
  subst names
  have hfields : ofFields fields = .object (fields.map fun field => (encode field.1, field.2)) := rfl
  rw [hfields, fields?, namedMembers?_encode]
  exact mapM_map_eq_some fun field hfield => member?_of_mem h hfield

end Json

namespace Signal

lemma fields_plain (s : Signal) : ∀ field ∈ s.fields, field.2.Plain := by
  simp only [fields, List.forall_mem_cons]
  exact ⟨Json.plain_ofString _, Json.plain_ofString _, Json.plain_ofNat _, List.forall_mem_nil _⟩

lemma toJson_plain (s : Signal) : s.toJson.Plain := Json.plain_ofFields s.fields_plain

@[simp] lemma ofJson?_toJson (s : Signal) : ofJson? s.toJson = some s := by
  rw [ofJson?, toJson, Json.fields?_ofFields]
  · simp [fields, ofValues?]
  · rfl
  · decide

end Signal

namespace Port

lemma toJson_plain (p : Port) : p.toJson.Plain := by
  refine Json.plain_ofFields (List.forall_mem_append.mpr ⟨p.toSignal.fields_plain, ?_⟩)
  exact List.forall_mem_singleton.mpr (Json.plain_ofString _)

@[simp] lemma ofJson?_toJson (p : Port) : ofJson? p.toJson = some p := by
  rw [ofJson?, toJson, Json.fields?_ofFields]
  · simp [Signal.fields, Signal.ofValues?]
  · rfl
  · decide

end Port

namespace Element

lemma reference_plain (name : String) : (reference name).Plain :=
  Json.plain_ofFields (List.forall_mem_singleton.mpr (Json.plain_ofString name))

lemma reference?_reference (name : String) : reference? (reference name) = some name := by
  rw [reference?, reference, Json.fields?_ofFields]
  · exact Json.toString?_ofString name
  · rfl
  · decide

@[simp] lemma references?_references (names : List String) :
    references? (references names) = some names :=
  Json.mapM_readBack reference?_reference names

lemma toJson_plain (e : Element) : e.toJson.Plain := by
  refine Json.plain_ofFields ?_
  simp only [List.forall_mem_cons]
  exact ⟨Json.plain_ofString _, Json.plain_ofString _, Json.plain_array_map reference_plain _,
    Json.plain_array_map reference_plain _, List.forall_mem_nil _⟩

@[simp] lemma ofJson?_toJson (e : Element) : ofJson? e.toJson = some e := by
  rw [ofJson?, toJson, Json.fields?_ofFields]
  · simp
  · rfl
  · decide

end Element

namespace Specification

lemma toJson_plain (s : Specification) : s.toJson.Plain := by
  have hentity : s.entityJson.Plain :=
    Json.plain_ofFields (List.forall_mem_singleton.mpr (Json.plain_array_map Port.toJson_plain _))
  have harchitecture : s.architectureJson.Plain := by
    refine Json.plain_ofFields ?_
    simp only [List.forall_mem_cons]
    exact ⟨Json.plain_ofString _, Json.plain_array_map Signal.toJson_plain _,
      Json.plain_array_map Element.toJson_plain _, List.forall_mem_nil _⟩
  refine Json.plain_ofFields ?_
  simp only [List.forall_mem_cons]
  exact ⟨Json.plain_ofNat _, Json.plain_ofString _, hentity, harchitecture, List.forall_mem_nil _⟩

lemma portsOf?_entityJson (s : Specification) : portsOf? s.entityJson = some s.ports := by
  rw [portsOf?, entityJson, Json.fields?_ofFields]
  · exact Json.mapM_readBack Port.ofJson?_toJson s.ports
  · rfl
  · decide

/-- A specification is read back from its document. -/
theorem ofJson?_toJson (s : Specification) : ofJson? s.toJson = some s := by
  have harchitecture : s.architectureJson.fields? ["name", "global_signals", "logic_elements"] =
      some [.ofString s.architectureName, .array (s.signals.map Signal.toJson),
        .array (s.elements.map Element.toJson)] :=
    Json.fields?_ofFields rfl (by decide)
  rw [ofJson?, toJson, Json.fields?_ofFields]
  · simp [harchitecture, portsOf?_entityJson, Json.toList?,
      Json.mapM_readBack Signal.ofJson?_toJson, Json.mapM_readBack Element.ofJson?_toJson]
  · rfl
  · decide

end Specification

/-- Every specification is loaded from both of its texts, whatever its names and numbers are. -/
theorem loadSpecification_text (s : Specification) :
    loadSpecification s.compactText = .ok s ∧ loadSpecification s.indentedText = .ok s := by
  have hcompact : Specification.ofText? s.compactText = some s := by
    rw [Specification.ofText?, Specification.compactText, s.toJson_plain.parse?_compact,
      Option.bind_eq_bind, Option.bind_some, s.ofJson?_toJson]
  have hindented : Specification.ofText? s.indentedText = some s := by
    rw [Specification.ofText?, Specification.indentedText, s.toJson_plain.parse?_indented,
      Option.bind_eq_bind, Option.bind_some, s.ofJson?_toJson]
  rw [loadSpecification, loadSpecification, hcompact, hindented]
  exact ⟨rfl, rfl⟩

end VhdlGates
