import VhdlGates.Design
import VhdlGates.Proofs.NameTable.Steps

/-! The names that a design declares, and the name table after its declarations. -/
namespace VhdlGates

namespace Design

/-- The names of the ports, then those of the signals, in the order of their declaration. -/
def declaredNames (design : Design) : List String :=
  design.entity.ports.flatMap (·.names) ++ design.architecture.signals.flatMap (·.names)

/-- No name is declared twice, and none is that of a rail. -/
structure ValidDeclarations (config : Config) (design : Design) : Prop where
  nodup : design.declaredNames.Nodup
  not_rail : ∀ name ∈ design.declaredNames, ∀ value, name ≠ config.railName value

end Design

namespace NameTable

/-- A table can still take these names. -/
structure Admits (config : Config) (t : NameTable) (names : List String) : Prop where
  nodup : names.Nodup
  not_rail : ∀ name ∈ names, config.rail? name = none
  unknown : ∀ name ∈ names, name ∉ t.names

/-- The table `t'` has these names and signals besides those of `t`. -/
structure Declares (t : NameTable) (names : List String) (t' : NameTable) : Prop where
  names_eq : t'.names = t.names ++ names
  signalNames_eq : t'.signalNames = t.signalNames ++ names
  railUsed_eq : ∀ value, t'.railUsed value = t.railUsed value
  nextTemporary_eq : t'.nextTemporary = t.nextTemporary

variable {config : Config} {t t' t'' : NameTable} {names more : List String}

lemma Declares.trans (h : Declares t names t') (h' : Declares t' more t'') :
    Declares t (names ++ more) t'' where
  names_eq := by rw [h'.names_eq, h.names_eq, List.append_assoc]
  signalNames_eq := by rw [h'.signalNames_eq, h.signalNames_eq, List.append_assoc]
  railUsed_eq value := (h'.railUsed_eq value).trans (h.railUsed_eq value)
  nextTemporary_eq := h'.nextTemporary_eq.trans h.nextTemporary_eq

lemma Admits.left (h : Admits config t (names ++ more)) : Admits config t names where
  nodup := (List.nodup_append.mp h.nodup).1
  not_rail name hname := h.not_rail name (List.mem_append_left _ hname)
  unknown name hname := h.unknown name (List.mem_append_left _ hname)

/-- Once the first names are declared, the others can still be. -/
lemma Admits.right (h : Admits config t (names ++ more)) (hdecl : Declares t names t') :
    Admits config t' more where
  nodup := (List.nodup_append.mp h.nodup).2.1
  not_rail name hname := h.not_rail name (List.mem_append_right _ hname)
  unknown name hname := by
    rw [hdecl.names_eq, List.mem_append, not_or]
    refine ⟨h.unknown name (List.mem_append_right _ hname), fun hmem => ?_⟩
    exact (List.nodup_append.mp h.nodup).2.2 name hmem name hname rfl

lemma Declares.coherent (h : Declares t names t') (ht : t.Coherent config) :
    t'.Coherent config := by
  intro name
  simp only [h.names_eq, h.signalNames_eq, h.railUsed_eq, List.mem_append, ht name]
  exact or_right_comm

lemma declares_declaration (t : NameTable) (name : String) :
    Declares t [name] ((t.addSignal name).addName name) where
  names_eq := rfl
  signalNames_eq := by simp [signalNames, addSignal, addName, Signal.singleBit]
  railUsed_eq _ := rfl
  nextTemporary_eq := rfl

lemma Declares.of_addNotice {notice : Notice} (h : Declares (t.addNotice notice) names t') :
    Declares t names t' :=
  ⟨h.names_eq, h.signalNames_eq, h.railUsed_eq, h.nextTemporary_eq⟩

lemma coherent_empty (config : Config) : Coherent config {} := by
  intro name
  simp [signalNames, railUsed]

end NameTable

namespace Lowering

open NameTable (Admits Declares)

variable {config : Config} {names more : List String} {m n : Lowering Unit}

/-- A computation that declares these names in every table that can take them. -/
def Declaring (config : Config) (names : List String) (m : Lowering Unit) : Prop :=
  ∀ t, Admits config t names → ∃ t', m.run t = .ok () t' ∧ Declares t names t'

lemma Declaring.pure : Declaring config [] (Pure.pure ()) := fun t _ =>
  ⟨t, rfl, by simp, by simp, fun _ => rfl, rfl⟩

lemma Declaring.bind (hm : Declaring config names m) (hn : Declaring config more n) :
    Declaring config (names ++ more) (m >>= fun _ => n) := by
  intro t ht
  obtain ⟨s, hrun, hdecl⟩ := hm t ht.left
  obtain ⟨t', hrun', hdecl'⟩ := hn s (ht.right hdecl)
  exact ⟨t', run_bind_eq_ok.mpr ⟨(), s, hrun, hrun'⟩, hdecl.trans hdecl'⟩

lemma Declaring.forM {α : Type} {f : α → Lowering Unit} {namesOf : α → List String}
    (hf : ∀ a, Declaring config (namesOf a) (f a)) (items : List α) :
    Declaring config (items.flatMap namesOf) (items.forM f) := by
  induction items with
  | nil => exact Declaring.pure
  | cons a rest ih => exact (hf a).bind ih

/-- A list of names, each declared on its own. -/
lemma Declaring.forM_names {f : String → Lowering Unit} (hf : ∀ name, Declaring config [name] (f name))
    (names : List String) : Declaring config names (names.forM f) := by
  have h := Declaring.forM hf names
  rwa [List.flatMap_singleton'] at h

lemma declareSignal_declaring (name typeName : String) :
    Declaring config [name] (NameTable.declareSignal config name typeName) := by
  intro t ht
  have hrail := ht.not_rail name List.mem_cons_self
  have hname := ht.unknown name List.mem_cons_self
  cases htype : isSingleBitType typeName with
  | true =>
    refine ⟨(t.addSignal name).addName name, ?_, ?_⟩
    · simp [NameTable.declareSignal, hrail, hname, htype]
    · exact NameTable.declares_declaration t name
  | false =>
    refine ⟨((t.addNotice (.unsupportedType name typeName)).addSignal name).addName name, ?_, ?_⟩
    · simp [NameTable.declareSignal, hrail, hname, htype]
    · exact (NameTable.declares_declaration _ name).of_addNotice

lemma declarePort_declaring (name : String) (direction : Direction) (typeName : String) :
    Declaring config [name] (NameTable.declarePort config name direction typeName) := by
  intro t ht
  obtain ⟨s, hrun, hdecl⟩ := declareSignal_declaring name typeName t ht
  refine ⟨{ s with ports := s.ports ++ [.singleBit name direction] }, ?_, ?_⟩
  · exact run_bind_eq_ok.mpr ⟨(), s, hrun, rfl⟩
  · exact ⟨hdecl.names_eq, hdecl.signalNames_eq, hdecl.railUsed_eq, hdecl.nextTemporary_eq⟩

/-- A computation that fails on every table that cannot take these names. -/
def Demanding (config : Config) (names : List String) (m : Lowering Unit) : Prop :=
  ∀ t t', m.run t = .ok () t' → Admits config t names

lemma Demanding.pure : Demanding config [] (Pure.pure ()) := fun _ _ _ => by
  exact ⟨List.nodup_nil, by simp, by simp⟩

lemma Declaring.declares {t t' : NameTable} (hm : Declaring config names m)
    (ht : Admits config t names) (hrun : m.run t = .ok () t') : Declares t names t' := by
  obtain ⟨s, hrun', hdecl⟩ := hm t ht
  obtain rfl : s = t' := by simpa using hrun'.symm.trans hrun
  exact hdecl

lemma Demanding.bind (hm : Demanding config names m) (hdecl : Declaring config names m)
    (hn : Demanding config more n) : Demanding config (names ++ more) (m >>= fun _ => n) := by
  intro t t' hrun
  obtain ⟨⟨⟩, s, hrun₁, hrun₂⟩ := run_bind_eq_ok.mp hrun
  have hfirst := hm t s hrun₁
  have hsecond := hn s t' hrun₂
  have hnames := (hdecl.declares hfirst hrun₁).names_eq
  refine ⟨List.nodup_append.mpr ⟨hfirst.nodup, hsecond.nodup, ?_⟩, ?_, ?_⟩
  · rintro name hname _ hmore rfl
    exact hsecond.unknown name hmore (hnames ▸ List.mem_append_right _ hname)
  · exact List.forall_mem_append.mpr ⟨hfirst.not_rail, hsecond.not_rail⟩
  · refine List.forall_mem_append.mpr ⟨hfirst.unknown, fun name hmore hmem => ?_⟩
    exact hsecond.unknown name hmore (hnames ▸ List.mem_append_left _ hmem)

lemma Demanding.forM {α : Type} {f : α → Lowering Unit} {namesOf : α → List String}
    (hf : ∀ a, Demanding config (namesOf a) (f a)) (hdecl : ∀ a, Declaring config (namesOf a) (f a))
    (items : List α) : Demanding config (items.flatMap namesOf) (items.forM f) := by
  induction items with
  | nil => exact Demanding.pure
  | cons a rest ih => exact (hf a).bind (hdecl a) ih

lemma Demanding.forM_names {f : String → Lowering Unit}
    (hf : ∀ name, Demanding config [name] (f name)) (hdecl : ∀ name, Declaring config [name] (f name))
    (names : List String) : Demanding config names (names.forM f) := by
  have h := Demanding.forM hf hdecl names
  rwa [List.flatMap_singleton'] at h

lemma declareSignal_demanding (name typeName : String) :
    Demanding config [name] (NameTable.declareSignal config name typeName) := by
  intro t t' hrun
  have hrail : config.rail? name = none := by
    by_contra h
    simp [NameTable.declareSignal, Option.isSome_iff_ne_none.mpr h] at hrun
  have hname : name ∉ t.names := by
    intro h
    simp [NameTable.declareSignal, hrail, h] at hrun
  exact ⟨by simp, by simpa using hrail, by simpa using hname⟩

lemma declarePort_demanding (name : String) (direction : Direction) (typeName : String) :
    Demanding config [name] (NameTable.declarePort config name direction typeName) := by
  intro t t' hrun
  obtain ⟨⟨⟩, s, hsignal, -⟩ := run_bind_eq_ok.mp hrun
  exact declareSignal_demanding name typeName t s hsignal

/-- A computation that notes no temporaries. -/
def NotesNone (m : Lowering Unit) : Prop :=
  ∀ t t', m.run t = .ok () t' → ∀ name, Notice.temporary name ∈ t'.notices →
    Notice.temporary name ∈ t.notices

lemma NotesNone.bind (hm : NotesNone m) (hn : NotesNone n) : NotesNone (m >>= fun _ => n) := by
  intro t t' hrun name hname
  obtain ⟨⟨⟩, s, hrun₁, hrun₂⟩ := run_bind_eq_ok.mp hrun
  exact hm t s hrun₁ name (hn s t' hrun₂ name hname)

lemma NotesNone.forM {α : Type} {f : α → Lowering Unit} (hf : ∀ a, NotesNone (f a))
    (items : List α) : NotesNone (items.forM f) := by
  induction items with
  | nil =>
    intro t t' hrun name hname
    obtain ⟨-, rfl⟩ := run_pure_eq_ok.mp hrun
    exact hname
  | cons a rest ih => exact (hf a).bind ih

lemma declareSignal_notesNone (name typeName : String) :
    NotesNone (NameTable.declareSignal config name typeName) := by
  intro t t' hrun other hother
  obtain ⟨-, hrail, hname⟩ := declareSignal_demanding name typeName t t' hrun
  simp only [List.mem_singleton, forall_eq] at hrail hname
  cases htype : isSingleBitType typeName with
  | true =>
    obtain rfl : (t.addSignal name).addName name = t' := by
      simpa [NameTable.declareSignal, hrail, hname, htype] using hrun
    exact hother
  | false =>
    obtain rfl :
        ((t.addNotice (.unsupportedType name typeName)).addSignal name).addName name = t' := by
      simpa [NameTable.declareSignal, hrail, hname, htype] using hrun
    simpa [NameTable.addName, NameTable.addSignal, NameTable.addNotice] using hother

lemma declarePort_notesNone (name : String) (direction : Direction) (typeName : String) :
    NotesNone (NameTable.declarePort config name direction typeName) := by
  intro t t' hrun other hother
  obtain ⟨⟨⟩, s, hsignal, hport⟩ := run_bind_eq_ok.mp hrun
  cases hport
  exact declareSignal_notesNone name typeName t s hsignal other hother

end Lowering

namespace Design

variable (config : Config)

lemma portDeclaration_declaring (d : PortDeclaration) :
    Lowering.Declaring config d.names (d.names.forM fun name =>
      NameTable.declarePort config name d.direction d.typeName) :=
  .forM_names (fun name => Lowering.declarePort_declaring name d.direction d.typeName) d.names

lemma signalDeclaration_declaring (d : SignalDeclaration) :
    Lowering.Declaring config d.names (d.names.forM fun name =>
      NameTable.declareSignal config name d.typeName) :=
  .forM_names (fun name => Lowering.declareSignal_declaring name d.typeName) d.names

/-- Declares the ports and the signals of a design, one after the other. -/
def declare (design : Design) : Lowering Unit := do
  declarePorts config design.entity.ports
  declareSignals config design.architecture.signals

lemma lower_eq (design : Design) :
    design.lower config = (do
      design.declare config
      lowerEach (Phrase.lowerStatement config) design.architecture.body) := by
  rw [lower, declare, bind_assoc]

lemma run_lower_of_declare {design : Design} {t : NameTable}
    (h : (design.declare config).run {} = .ok () t) : (design.lower config).run {} =
      (lowerEach (Phrase.lowerStatement config) design.architecture.body).run t := by
  rw [lower_eq, EStateM.run_bind, h]

lemma run_lower_of_declare_error {design : Design} {fault : Fault} {t : NameTable}
    (h : (design.declare config).run {} = .error fault t) :
    (design.lower config).run {} = .error fault t := by
  rw [lower_eq, EStateM.run_bind, h]

lemma declare_declaring (design : Design) :
    Lowering.Declaring config design.declaredNames (design.declare config) :=
  .bind (.forM (portDeclaration_declaring config) _) (.forM (signalDeclaration_declaring config) _)

/-- Valid declarations succeed, and then the table knows the declared names and no others. -/
theorem run_declare {design : Design} (h : design.ValidDeclarations config) :
    ∃ t, (design.declare config).run {} = .ok () t ∧
      NameTable.Declares {} design.declaredNames t := by
  apply declare_declaring
  refine ⟨h.nodup, fun name hname => ?_, fun name _ => List.not_mem_nil⟩
  exact Config.rail?_eq_none.mpr (h.not_rail name hname)

lemma declare_demanding (design : Design) :
    Lowering.Demanding config design.declaredNames (design.declare config) := by
  refine .bind (.forM (fun d => ?_) (portDeclaration_declaring config) _)
    (.forM (portDeclaration_declaring config) _)
    (.forM (fun d => ?_) (signalDeclaration_declaring config) _)
  · exact .forM_names (fun name => Lowering.declarePort_demanding name d.direction d.typeName)
      (fun name => Lowering.declarePort_declaring name d.direction d.typeName) d.names
  · exact .forM_names (fun name => Lowering.declareSignal_demanding name d.typeName)
      (fun name => Lowering.declareSignal_declaring name d.typeName) d.names

/-- No temporary is created before the declarations are made. -/
lemma declare_notesNone (design : Design) : Lowering.NotesNone (design.declare config) := by
  refine .bind (.forM (fun d => .forM (fun name => ?_) _) _)
    (.forM (fun d => .forM (fun name => ?_) _) _)
  · exact Lowering.declarePort_notesNone name d.direction d.typeName
  · exact Lowering.declareSignal_notesNone name d.typeName

/-- Declarations succeed only if they are valid, and then the table knows the declared names and
no others. -/
theorem declares_of_run {design : Design} {t : NameTable}
    (h : (design.declare config).run {} = .ok () t) :
    design.ValidDeclarations config ∧ NameTable.Declares {} design.declaredNames t := by
  have hadmits := declare_demanding config design {} t h
  refine ⟨⟨hadmits.nodup, fun name hname => ?_⟩, (declare_declaring config design).declares hadmits h⟩
  exact Config.rail?_eq_none.mp (hadmits.not_rail name hname)

end Design

end VhdlGates
