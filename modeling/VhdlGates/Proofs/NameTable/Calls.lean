import Mathlib.Order.Bounds.Defs
import VhdlGates.Proofs.Design.Declarations
import VhdlGates.Proofs.NameTable.Numbering

/-! Name tables under calls in any order, some of which fail. Whatever has been called before, the
search for a new temporary ends, and no name comes into a table twice. -/
namespace VhdlGates

section Search

variable (config : Config)

/-- The search for an unused number among names that stay as they are, broken off after some
rounds. -/
def searchWithin (used : List String) : (rounds : ℕ) → (index : ℕ) → Option ℕ
  | 0, _ => none
  | rounds + 1, index =>
    if config.temporaryName index ∈ used then searchWithin used rounds (index + 1) else some index

variable {config}

lemma searchWithin_eq_some {used : List String} {rounds index n : ℕ} (hle : index ≤ n)
    (hused : ∀ m, index ≤ m → m < n → config.temporaryName m ∈ used)
    (hn : config.temporaryName n ∉ used) (hrounds : n < index + rounds) :
    searchWithin config used rounds index = some n := by
  induction rounds generalizing index with
  | zero => omega
  | succ rounds ih =>
    rw [searchWithin]
    by_cases heq : index = n
    · subst heq
      rw [if_neg hn]
    · have hlt : index < n := by omega
      rw [if_pos (hused index (Nat.le_refl index) hlt)]
      apply ih (by omega) _ (by omega)
      intro m hm
      exact hused m (by omega)

/-- Every round but the last one strikes a name off, so there are not many. -/
lemma firstUnused_le (config : Config) (used : List String) (index : ℕ) :
    firstUnused config used index ≤ index + used.length := by
  fun_induction firstUnused config used index with
  | case1 used index h ih =>
    have hlength := List.length_erase_of_mem h
    have hpos := List.length_pos_of_mem h
    omega
  | case2 used index h => omega

lemma isLeast_firstUnused (config : Config) (used : List String) (index : ℕ) :
    IsLeast {n | index ≤ n ∧ config.temporaryName n ∉ used} (firstUnused config used index) := by
  constructor
  · exact ⟨le_firstUnused config used index, temporaryName_firstUnused_notMem config used index⟩
  · intro n ⟨hle, hn⟩
    by_contra hlt
    exact hn (mem_of_lt_firstUnused hle (by omega))

/-- The search ends after at most one round more than there are names. -/
lemma searchWithin_eq_firstUnused (config : Config) (used : List String) (index : ℕ) :
    searchWithin config used (used.length + 1) index = some (firstUnused config used index) := by
  have hbound := firstUnused_le config used index
  apply searchWithin_eq_some (le_firstUnused config used index)
  · intro m hle hlt
    exact mem_of_lt_firstUnused hle hlt
  · exact temporaryName_firstUnused_notMem config used index
  · omega

end Search

namespace NameTable

/-- A call of one of the operations on a name table. -/
inductive Call where
  | declarePort (name : String) (direction : Direction) (typeName : String)
  | declareSignal (name typeName : String)
  | resolve (name : String)
  | rail (value : Bool)
  | temporary
  deriving DecidableEq

namespace Call

/-- The computation that is called. It answers with a name, except for a declaration. -/
def toLowering (config : Config) : Call → Lowering (Option String)
  | declarePort name direction typeName => do
    NameTable.declarePort config name direction typeName
    return none
  | declareSignal name typeName => do
    NameTable.declareSignal config name typeName
    return none
  | resolve name => do return some (← NameTable.resolve config name)
  | rail value => do return some (← NameTable.rail config value)
  | temporary => do return some (← NameTable.temporary config)

/-- The name that a declaration is about. -/
def declared? : Call → Option String
  | declarePort name _ _ => some name
  | declareSignal name _ => some name
  | _ => none

end Call

section Definitions

variable (config : Config)

/-- The table after a call, whether it succeeds or fails. -/
def afterCall (t : NameTable) (call : Call) : NameTable :=
  match (call.toLowering config).run t with
  | .ok _ t' => t'
  | .error _ t' => t'

/-- The table after some calls, one after the other. -/
def afterCalls (t : NameTable) (calls : List Call) : NameTable := calls.foldl (afterCall config) t

/-- The name that a call declares, if it does. -/
def declaration? (t : NameTable) (call : Call) : Option String :=
  match (call.toLowering config).run t with
  | .ok .. => call.declared?
  | .error .. => none

/-- The name that is returned, if the call is for a temporary. -/
def temporary? (t : NameTable) (call : Call) : Option String :=
  match call, (call.toLowering config).run t with
  | .temporary, .ok answer _ => answer
  | _, _ => none

/-- The names that some calls declare, in order. -/
def declarations (t : NameTable) : List Call → List String
  | [] => []
  | call :: rest =>
    (t.declaration? config call).toList ++ declarations (t.afterCall config call) rest

/-- The names that the calls for temporaries return, in order. -/
def temporaries (t : NameTable) : List Call → List String
  | [] => []
  | call :: rest =>
    (t.temporary? config call).toList ++ temporaries (t.afterCall config call) rest

/-- The table `t'` has one temporary more than `t`, the one of this number. -/
structure AddsTemporary (t : NameTable) (n : ℕ) (t' : NameTable) : Prop where
  names_eq : t'.names = t.names ++ [config.temporaryName n]
  signals_eq : t'.signals = t.signals ++ [.singleBit (config.temporaryName n)]
  nextTemporary_eq : t'.nextTemporary = n + 1
  ports_eq : t'.ports = t.ports
  railUsed_eq : ∀ value, t'.railUsed value = t.railUsed value

/-- What can come of a call: it is refused and the table stays as it is, it declares a name that is
new, it finds a name, or it creates a temporary. -/
inductive Outcome (t : NameTable) : Call → EStateM.Result Fault NameTable (Option String) → Prop
  | refused {call : Call} {fault : Fault} (hcall : call ≠ .temporary) :
    Outcome t call (.error fault t)
  | declared {call : Call} {name : String} {t' : NameTable} (hname : call.declared? = some name)
    (hadmits : Admits config t [name]) (hdeclares : Declares t [name] t') :
    Outcome t call (.ok none t')
  | found {call : Call} {name : String} {t' : NameTable} (hname : call.declared? = none)
    (hcall : call ≠ .temporary) (hnames : t'.names = t.names) : Outcome t call (.ok (some name) t')
  | created : Outcome t .temporary (.ok (some (t.freshName config)) (t.afterTemporary config))

end Definitions

variable {config : Config} {t : NameTable} {name : String}

lemma admits_singleton :
    Admits config t [name] ↔ config.rail? name = none ∧ name ∉ t.names := by
  constructor
  · intro h
    exact ⟨h.not_rail name List.mem_cons_self, h.unknown name List.mem_cons_self⟩
  · intro ⟨hrail, hname⟩
    exact ⟨by simp, by simpa using hrail, by simpa using hname⟩

/-- A name is refused before anything has changed. -/
lemma run_declareSignal_of_not_admits (typeName : String) (h : ¬Admits config t [name]) :
    ∃ fault, (declareSignal config name typeName).run t = .error fault t := by
  cases hrail : config.rail? name with
  | some value => exact ⟨.reservedSignalName name, by simp [declareSignal, hrail]⟩
  | none =>
    have hname : name ∈ t.names := by simpa [admits_singleton, hrail] using h
    exact ⟨.duplicateSignal name, by simp [declareSignal, hrail, hname]⟩

lemma run_declarePort_of_not_admits (direction : Direction) (typeName : String)
    (h : ¬Admits config t [name]) :
    ∃ fault, (declarePort config name direction typeName).run t = .error fault t := by
  obtain ⟨fault, hrun⟩ := run_declareSignal_of_not_admits typeName h
  exact ⟨fault, by rw [declarePort, EStateM.run_bind, hrun]⟩

/-- Either kind of declaration succeeds exactly if the table can take the name. -/
lemma outcome_declaration {call : Call} {m : Lowering Unit} (hname : call.declared? = some name)
    (hcall : call.toLowering config = (do m; return none))
    (hdeclaring : Lowering.Declaring config [name] m)
    (hrefused : ¬Admits config t [name] → ∃ fault, m.run t = .error fault t) :
    Outcome config t call ((call.toLowering config).run t) := by
  rw [hcall, EStateM.run_bind]
  by_cases hadmits : Admits config t [name]
  · obtain ⟨t', hrun, hdeclares⟩ := hdeclaring t hadmits
    rw [hrun]
    exact .declared hname hadmits hdeclares
  · obtain ⟨fault, hrun⟩ := hrefused hadmits
    rw [hrun]
    apply Outcome.refused
    intro htemporary
    rw [htemporary] at hname
    cases hname

lemma run_resolve_error {fault : Fault} {t' : NameTable}
    (h : (resolve config name).run t = .error fault t') : t' = t := by
  cases hrail : config.rail? name with
  | some value => simp [resolve, hrail, run_rail] at h
  | none =>
    by_cases hname : name ∈ t.names
    · simp [resolve, hrail, hname] at h
    · have hthrow : (throw (.unresolvedSignal name) : Lowering String).run t = .error fault t' := by
        simpa [resolve, hrail, hname] using h
      cases hthrow
      rfl

lemma outcome_resolve (config : Config) (t : NameTable) (name : String) :
    Outcome config t (.resolve name) (((Call.resolve name).toLowering config).run t) := by
  rw [Call.toLowering, EStateM.run_bind]
  cases hrun : (resolve config name).run t with
  | ok signal t' =>
    apply Outcome.found rfl (by simp)
    obtain ⟨-, ⟨value, -, rfl⟩ | ⟨-, -, rfl⟩⟩ := (run_resolve_eq_ok config).mp hrun
    · exact names_afterRail config t value
    · rfl
  | error fault t' =>
    obtain rfl := run_resolve_error hrun
    exact .refused (by simp)

/-- Every call has one of the outcomes. -/
theorem outcome (config : Config) (t : NameTable) (call : Call) :
    Outcome config t call ((call.toLowering config).run t) := by
  cases call with
  | declarePort name direction typeName =>
    exact outcome_declaration rfl rfl (Lowering.declarePort_declaring name direction typeName)
      (run_declarePort_of_not_admits direction typeName)
  | declareSignal name typeName =>
    exact outcome_declaration rfl rfl (Lowering.declareSignal_declaring name typeName)
      (run_declareSignal_of_not_admits typeName)
  | resolve name => exact outcome_resolve config t name
  | rail value =>
    rw [Call.toLowering, EStateM.run_bind, run_rail]
    exact .found rfl (by simp) (names_afterRail config t value)
  | temporary => exact .created

/-- A call brings in no name, or one that it declares, or one that it returns as a temporary. In
each case the name is new. -/
lemma call_cases (config : Config) (t : NameTable) (call : Call) :
    (t.declaration? config call = none ∧ t.temporary? config call = none ∧
      (t.afterCall config call).names = t.names) ∨
    ∃ name, name ∉ t.names ∧ (t.afterCall config call).names = t.names ++ [name] ∧
      (t.declaration? config call = some name ∧ t.temporary? config call = none ∨
        t.declaration? config call = none ∧ t.temporary? config call = some name) := by
  have h := outcome config t call
  unfold afterCall declaration? temporary?
  generalize (call.toLowering config).run t = result at h
  cases h with
  | refused hcall =>
    left
    cases call <;> simp_all
  | @declared _ name t' hname hadmits hdeclares =>
    right
    refine ⟨name, hadmits.unknown name List.mem_cons_self, hdeclares.names_eq, .inl ?_⟩
    cases call <;> simp_all [Call.declared?]
  | found hname hcall hnames =>
    left
    cases call <;> simp_all
  | created =>
    right
    exact ⟨t.freshName config, freshName_notMem config t, rfl, .inr ⟨rfl, rfl⟩⟩

lemma names_subset_afterCall (config : Config) (t : NameTable) (call : Call) :
    t.names ⊆ (t.afterCall config call).names := by
  rcases call_cases config t call with ⟨-, -, hnames⟩ | ⟨name, -, hnames, -⟩
  · rw [hnames]
    exact List.Subset.refl t.names
  · rw [hnames]
    exact List.subset_append_left t.names [name]

lemma names_subset_afterCalls (config : Config) (t : NameTable) (calls : List Call) :
    t.names ⊆ (t.afterCalls config calls).names := by
  induction calls generalizing t with
  | nil => exact List.Subset.refl t.names
  | cons call rest ih =>
    exact List.Subset.trans (names_subset_afterCall config t call) (ih (t.afterCall config call))

/-- What calls declare and what they return as temporaries is all new, and no temporary has the
name of another one or of a declared signal. -/
lemma temporaries_apart (config : Config) (t : NameTable) (calls : List Call) :
    (t.temporaries config calls).Nodup ∧
      (t.temporaries config calls).Disjoint (t.declarations config calls) ∧
      (∀ name ∈ t.temporaries config calls, name ∉ t.names) ∧
      ∀ name ∈ t.declarations config calls, name ∉ t.names := by
  induction calls generalizing t with
  | nil => simp [temporaries, declarations]
  | cons call rest ih =>
    obtain ⟨hnodup, hdisjoint, htemporaries, hdeclarations⟩ := ih (t.afterCall config call)
    -- the later names are new to a table that knows more than `t`
    have hlater : (∀ other ∈ (t.afterCall config call).temporaries config rest, other ∉ t.names) ∧
        ∀ other ∈ (t.afterCall config call).declarations config rest, other ∉ t.names := by
      have hsubset := names_subset_afterCall config t call
      exact ⟨fun other hother hmem => htemporaries other hother (hsubset hmem),
        fun other hother hmem => hdeclarations other hother (hsubset hmem)⟩
    rcases call_cases config t call with
      ⟨hdecl, htemp, -⟩ | ⟨name, hname, hnames, hkind⟩
    · simp only [temporaries, declarations, hdecl, htemp, Option.toList_none, List.nil_append]
      exact ⟨hnodup, hdisjoint, hlater⟩
    · have hknown : name ∈ (t.afterCall config call).names := by simp [hnames]
      have hfirst : name ∉ (t.afterCall config call).temporaries config rest :=
        fun hmem => htemporaries name hmem hknown
      have hsecond : name ∉ (t.afterCall config call).declarations config rest :=
        fun hmem => hdeclarations name hmem hknown
      rcases hkind with ⟨hdecl, htemp⟩ | ⟨hdecl, htemp⟩
      · simp only [temporaries, declarations, hdecl, htemp, Option.toList_none, Option.toList_some,
          List.nil_append, List.singleton_append, List.disjoint_cons_right, List.forall_mem_cons]
        exact ⟨hnodup, ⟨hfirst, hdisjoint⟩, hlater.1, hname, hlater.2⟩
      · simp only [temporaries, declarations, hdecl, htemp, Option.toList_none, Option.toList_some,
          List.nil_append, List.singleton_append, List.nodup_cons, List.disjoint_cons_left,
          List.forall_mem_cons]
        exact ⟨⟨hfirst, hnodup⟩, ⟨hsecond, hdisjoint⟩, ⟨hname, hlater.1⟩, hlater.2⟩

/-- The table still knows the temporaries at the end. -/
lemma temporaries_subset_names (config : Config) (t : NameTable) (calls : List Call) :
    t.temporaries config calls ⊆ (t.afterCalls config calls).names := by
  induction calls generalizing t with
  | nil => simp [temporaries]
  | cons call rest ih =>
    intro name hmem
    rcases List.mem_append.mp hmem with hfirst | hrest
    · apply names_subset_afterCalls config (t.afterCall config call) rest
      rcases call_cases config t call with ⟨-, htemp, -⟩ | ⟨other, -, hnames, ⟨-, htemp⟩ | ⟨-, htemp⟩⟩
      · simp [htemp] at hfirst
      · simp [htemp] at hfirst
      · obtain rfl : name = other := by simpa [htemp] using hfirst
        simp [hnames]
    · exact ih (t.afterCall config call) hrest

lemma addsTemporary_afterTemporary (config : Config) (t : NameTable) :
    AddsTemporary config t (firstUnused config t.names t.nextTemporary) (t.afterTemporary config) :=
  ⟨rfl, rfl, rfl, rfl, fun _ => rfl⟩

/-- A name that the table knows cannot be declared. -/
lemma run_of_mem_names {call : Call} (hname : call.declared? = some name) (hmem : name ∈ t.names) :
    ∃ fault, (call.toLowering config).run t = .error fault t := by
  have h := outcome config t call
  generalize (call.toLowering config).run t = result at h
  cases h with
  | refused => exact ⟨_, rfl⟩
  | @declared _ other t' hother hadmits hdeclares =>
    obtain rfl : other = name := by simpa [hother] using hname
    exact absurd hmem (hadmits.unknown other List.mem_cons_self)
  | found hnone => simp [hnone] at hname
  | created => cases hname

/-- A call that fails leaves the table as it was. -/
lemma eq_of_run_error {call : Call} {fault : Fault} {t' : NameTable}
    (hrun : (call.toLowering config).run t = .error fault t') : t' = t := by
  have h := outcome config t call
  rw [hrun] at h
  cases h with
  | refused => rfl

end NameTable

open NameTable (Call)

/-- After any calls on a new table, of which some may have failed, the search for a temporary ends
and takes the least number from the counter on whose name is not in use. The temporaries that were
returned differ from one another and from all declared names, and none of their names can be
declared any more. A call that fails changes nothing. -/
theorem temporary_after_calls {config : Config} {calls : List Call} {t : NameTable}
    (ht : NameTable.afterCalls config {} calls = t) :
    (∃ n t', (NameTable.temporary config).run t = .ok (config.temporaryName n) t' ∧
        IsLeast {m | t.nextTemporary ≤ m ∧ config.temporaryName m ∉ t.names} n ∧
        searchWithin config t.names (t.names.length + 1) t.nextTemporary = some n ∧
        t.AddsTemporary config n t') ∧
      (NameTable.temporaries config {} calls).Nodup ∧
      (NameTable.temporaries config {} calls).Disjoint (NameTable.declarations config {} calls) ∧
      (∀ name ∈ NameTable.temporaries config {} calls, ∀ call : Call, call.declared? = some name →
        ∃ fault, (call.toLowering config).run t = .error fault t) ∧
      ∀ (call : Call) fault t', (call.toLowering config).run t = .error fault t' → t' = t := by
  subst ht
  obtain ⟨hnodup, hdisjoint, -, -⟩ := NameTable.temporaries_apart config {} calls
  have hknown := NameTable.temporaries_subset_names config {} calls
  refine ⟨?_, hnodup, hdisjoint, ?_, fun call fault t' hrun => NameTable.eq_of_run_error hrun⟩
  · exact ⟨_, _, NameTable.run_temporary config _, isLeast_firstUnused config _ _,
      searchWithin_eq_firstUnused config _ _, NameTable.addsTemporary_afterTemporary config _⟩
  · intro name hname call hcall
    exact NameTable.run_of_mem_names hcall (hknown hname)

/-- A signal is named like a temporary, a port like one that exists by then, and an unknown name is
looked up. -/
def collidingCalls : List Call :=
  [.declareSignal "tmp_0" "std_logic", .temporary, .declarePort "tmp_1" .input "std_logic",
    .resolve "x", .rail true, .temporary]

theorem temporary_after_calls_colliding :
    NameTable.temporaries {} {} collidingCalls = ["tmp_1", "tmp_2"] ∧
      NameTable.declarations {} {} collidingCalls = ["tmp_0"] ∧
      ∃ fault, ((Call.declareSignal "tmp_1" "bit").toLowering {}).run
        (NameTable.afterCalls {} {} collidingCalls) =
          .error fault (NameTable.afterCalls {} {} collidingCalls) := by
  have htemporaries : NameTable.temporaries {} {} collidingCalls = ["tmp_1", "tmp_2"] := by
    decide +kernel
  have hdeclarations : NameTable.declarations {} {} collidingCalls = ["tmp_0"] := by decide +kernel
  obtain ⟨-, -, -, hrefused, -⟩ :=
    temporary_after_calls (rfl : NameTable.afterCalls {} {} collidingCalls = _)
  have hmem : "tmp_1" ∈ NameTable.temporaries {} {} collidingCalls := by simp [htemporaries]
  exact ⟨htemporaries, hdeclarations, hrefused "tmp_1" hmem _ rfl⟩

end VhdlGates
