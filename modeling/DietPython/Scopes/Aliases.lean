import DietPython.Scopes.Semantic

/-!
# The alias loop ends

The name of a captured cell is replaced by the name that it stands for, until a name stands for
itself. Two hash maps and the form of cell names say what a name stands for.

1. Every callable scope that is ever built is a `CallableScope`: from a semantic scope, with the
   cells that a lambda captures, or for the resume function of a generator.
2. In each of them, an alias is either the name itself or longer than it (`Shortens`).
3. So the loop ends, whatever order the hash maps are walked in (`aliasLoop_ends`).
-/

namespace DietPython.Scopes

open Generators (BindingKind CallableScopeInfo cellName startsWith stripCellName)

abbrev CellNames := AList fun _ : String => String

/-! ## Scopes of callables -/

def blockpyBindingKindForName (scope : SemanticScopeData) (name : String)
    (binding : SemanticBindingKind) : BindingKind :=
  if scope.kind = .classScope ∧ name ∈ scope.localDefs ∧ name ∉ scope.typeParamNames then .localName
  else
    match binding with
    | .localName => if name ∈ scope.localCellBindings then .cell .owner else .localName
    | .nonlocalName =>
      if name ∈ scope.localDefs ∧ name ∈ scope.localCellBindings then .cell .owner
      else .cell .capture
    | .globalName => .global

/-- The bindings of `callable_scope_info`: those of the scope, and the names of the body that have
none there. -/
def callableBindings (scopes : List SemanticScopeData) (id : ℕ) (scope : SemanticScopeData)
    (relevantNames : List String) : AList fun _ : String => BindingKind :=
  relevantNames.foldl
    (fun bindings name =>
      if (bindings.lookup name).isSome then bindings
      else
        bindings.insert name
          (blockpyBindingKindForName scope name (resolvedLoadBinding scopes id name)))
    (scope.bindings.entries.foldl
      (fun bindings entry =>
        bindings.insert entry.1 (blockpyBindingKindForName scope entry.1 entry.2)) ∅)

/-- The cell that a class body makes belongs to the function with `_dp_classcell_arg`. -/
def ownClasscell (info : CallableScopeInfo) : CallableScopeInfo :=
  let info :=
    { info with
      cellCaptureSourceNames := info.cellCaptureSourceNames.insert "__class__" "_dp_classcell"
      ownedCellSourceNames := ["_dp_classcell"] }
  if (info.bindings.lookup "__class__").isSome then info
  else info.insertBindingWithCellNames "__class__" (.cell .owner) "_dp_classcell" "_dp_classcell"

/-- `callable_scope_info` of the scope `id`. -/
def callableScopeInfo (scopes : List SemanticScopeData) (id : ℕ) (relevantNames : List String)
    (ownsClasscell : Bool) : CallableScopeInfo :=
  match scopes[id]? with
  | none => ⟨∅, ∅, ∅, []⟩
  | some scope =>
    let bindings := callableBindings scopes id scope relevantNames
    let captureNames :=
      bindings.keys.filter fun name => bindings.lookup name = some (.cell .capture)
    let info : CallableScopeInfo :=
      { bindings := bindings
        cellStorageNames :=
          captureNames.foldl (fun entries name => entries.insert name name) scope.cellStorageNames
        cellCaptureSourceNames :=
          if bindings.lookup "__class__" = some (.cell .capture) then
            scope.cellStorageNames.insert "__class__" "__class__"
          else scope.cellStorageNames
        ownedCellSourceNames := [] }
    if ownsClasscell then ownClasscell info else info

/-- What `lower_lambda_expr` adds to the scope around a lambda: the names that it captures. -/
def addLambdaCaptures (info : CallableScopeInfo) (localDefs : List String)
    (lambdaScope : CallableScopeInfo) : CallableScopeInfo :=
  { info with
    bindings := lambdaScope.bindings.entries.foldl
      (fun bindings entry =>
        if entry.2 = .cell .capture ∧ entry.1 ∈ localDefs then
          bindings.insert entry.1 (.cell .owner)
        else bindings) info.bindings }

/-- `resume_closure_bindings` -/
def resumeClosureBindings (info : CallableScopeInfo) (names : List String) :
    List (String × String) :=
  names.map fun name => (name, info.cellCaptureSourceName name)

/-- `augment_resume_semantic_for_standard_name_binding` -/
def augmentResumeScope (info : CallableScopeInfo) (closureBindings : List (String × String)) :
    CallableScopeInfo :=
  closureBindings.foldl
    (fun info binding =>
      if startsWith "_dp_cell_" binding.1 then info
      else info.insertBindingWithCellNames binding.1 (.cell .capture) binding.1 binding.2) info

/-- The callable scopes of a module. -/
inductive CallableScope (source : SourceModule) : CallableScopeInfo → Prop
  | analysed (id : ℕ) (relevantNames : List String) (ownsClasscell : Bool) :
    CallableScope source
      (callableScopeInfo (semanticScopes source) id relevantNames ownsClasscell)
  | withLambda {info lambdaScope : CallableScopeInfo} (localDefs : List String)
    (h : CallableScope source info) (hlambda : CallableScope source lambdaScope) :
    CallableScope source (addLambdaCaptures info localDefs lambdaScope)
  | resume {info : CallableScopeInfo} (names : List String) (h : CallableScope source info) :
    CallableScope source (augmentResumeScope info (resumeClosureBindings info names))
  /-- A hash map may be walked in any order. -/
  | reordered {info other : CallableScopeInfo} (h : CallableScope source info)
    (hbindings : other.bindings.entries.Perm info.bindings.entries)
    (howned : other.ownedCellSourceNames.Perm info.ownedCellSourceNames)
    (hstorage : other.cellStorageNames.entries.Perm info.cellStorageNames.entries)
    (hsource : other.cellCaptureSourceNames.entries.Perm info.cellCaptureSourceNames.entries) :
    CallableScope source other

/-! ## Aliases -/

/-- An alias is the name itself or longer. -/
def Shortens (entries : CellNames) : Prop :=
  ∀ name cell, entries.lookup name = some cell → name = cell ∨ name.length < cell.length

theorem OnlyClassCell.shortens {entries : CellNames} (h : OnlyClassCell entries) :
    Shortens entries := by
  intro name cell hlookup
  obtain ⟨rfl, rfl⟩ := h name cell hlookup
  exact .inr (by decide)

theorem Shortens.insert {entries : CellNames} (h : Shortens entries) {name cell : String}
    (hnew : name = cell ∨ name.length < cell.length) : Shortens (entries.insert name cell) := by
  intro other otherAlias hlookup
  by_cases heq : other = name
  · subst heq
    rw [AList.lookup_insert] at hlookup
    exact (Option.some.inj hlookup) ▸ hnew
  · rw [AList.lookup_insert_ne heq] at hlookup
    exact h other otherAlias hlookup

theorem Shortens.perm {entries other : CellNames} (h : Shortens entries)
    (hperm : other.entries.Perm entries.entries) : Shortens other := by
  intro name cell hlookup
  rw [AList.perm_lookup hperm] at hlookup
  exact h name cell hlookup

theorem shortens_empty : Shortens ∅ := onlyClassCell_empty.shortens

theorem Shortens.insertSelf {entries : CellNames} (h : Shortens entries) (names : List String) :
    Shortens (names.foldl (fun entries name => entries.insert name name) entries) := by
  induction names generalizing entries with
  | nil => exact h
  | cons name names ih => exact ih (h.insert (.inl rfl))

structure AliasesShorten (info : CallableScopeInfo) : Prop where
  storage : Shortens info.cellStorageNames
  source : Shortens info.cellCaptureSourceNames

theorem AliasesShorten.insertBinding {info : CallableScopeInfo} (h : AliasesShorten info)
    (binding : BindingKind) {name storage source : String}
    (hstorage : name = storage ∨ name.length < storage.length)
    (hsource : name = source ∨ name.length < source.length) :
    AliasesShorten (info.insertBindingWithCellNames name binding storage source) :=
  ⟨h.storage.insert hstorage, h.source.insert hsource⟩

theorem AliasesShorten.ownClasscell {info : CallableScopeInfo} (h : AliasesShorten info) :
    AliasesShorten (ownClasscell info) := by
  have hclass : "__class__".length < "_dp_classcell".length := by decide
  have hsource : Shortens (info.cellCaptureSourceNames.insert "__class__" "_dp_classcell") :=
    h.source.insert (.inr hclass)
  unfold Scopes.ownClasscell
  dsimp only
  split_ifs
  · exact ⟨h.storage, hsource⟩
  · exact ⟨h.storage.insert (.inr hclass), hsource.insert (.inr hclass)⟩

theorem aliasesShorten_callableScopeInfo {scopes : List SemanticScopeData}
    (hscopes : AllOnlyClassCell scopes) (id : ℕ) (relevantNames : List String)
    (ownsClasscell : Bool) :
    AliasesShorten (callableScopeInfo scopes id relevantNames ownsClasscell) := by
  unfold callableScopeInfo
  cases hscope : scopes[id]? with
  | none => exact ⟨shortens_empty, shortens_empty⟩
  | some scope =>
    have hclass : Shortens scope.cellStorageNames :=
      (hscopes scope (List.mem_of_getElem? hscope)).shortens
    have hsource : ∀ captured : Prop, [Decidable captured] →
        Shortens (if captured then scope.cellStorageNames.insert "__class__" "__class__"
          else scope.cellStorageNames) := by
      intro captured _
      split_ifs
      · exact hclass.insert (.inl rfl)
      · exact hclass
    cases ownsClasscell with
    | true => exact AliasesShorten.ownClasscell ⟨hclass.insertSelf _, hsource _⟩
    | false => exact ⟨hclass.insertSelf _, hsource _⟩

/-- The cell of a name in the enclosing callable. -/
theorem AliasesShorten.cellCaptureSourceName {info : CallableScopeInfo} (h : AliasesShorten info)
    (name : String) : name = info.cellCaptureSourceName name ∨
      name.length < (info.cellCaptureSourceName name).length := by
  unfold CallableScopeInfo.cellCaptureSourceName
  cases hlookup : info.cellCaptureSourceNames.lookup name with
  | none =>
    refine .inr ?_
    rw [Option.getD_none, Generators.cellName_length]
    omega
  | some cell => exact h.source name cell hlookup

theorem AliasesShorten.augmentResumeScope {info : CallableScopeInfo} (h : AliasesShorten info)
    {closureBindings : List (String × String)}
    (hclosure : ∀ binding ∈ closureBindings,
      binding.1 = binding.2 ∨ binding.1.length < binding.2.length) :
    AliasesShorten (augmentResumeScope info closureBindings) := by
  unfold Scopes.augmentResumeScope
  induction closureBindings generalizing info with
  | nil => exact h
  | cons binding rest ih =>
    rw [List.foldl_cons]
    refine ih ?_ fun other hmem => hclosure other (List.mem_cons_of_mem _ hmem)
    split_ifs
    · exact h
    · exact h.insertBinding _ (.inl rfl) (hclosure binding List.mem_cons_self)

theorem CallableScope.aliasesShorten {source : SourceModule} {info : CallableScopeInfo}
    (h : CallableScope source info) : AliasesShorten info := by
  induction h with
  | analysed id relevantNames ownsClasscell =>
    exact aliasesShorten_callableScopeInfo (onlyClassCell_semanticScopes source) id relevantNames
      ownsClasscell
  | withLambda localDefs _ _ ih _ => exact ⟨ih.storage, ih.source⟩
  | resume names _ ih =>
    refine ih.augmentResumeScope fun binding hmem => ?_
    obtain ⟨name, -, rfl⟩ := List.mem_map.mp hmem
    exact ih.cellCaptureSourceName name
  | reordered _ _ _ hstorage hsource ih => exact ⟨ih.storage.perm hstorage, ih.source.perm hsource⟩

/-! ## The loop -/

theorem AliasesShorten.logicalNameForCellStorage {info : CallableScopeInfo}
    (h : AliasesShorten info) {name logical : String}
    (hlogical : info.logicalNameForCellStorage name = some logical) :
    logical = name ∨ logical.length < name.length := by
  unfold CallableScopeInfo.logicalNameForCellStorage at hlogical
  cases hstrip : stripCellName name with
  | some stripped =>
    rw [hstrip] at hlogical
    rw [Generators.stripCellName_eq_some.mp hstrip, Generators.cellName_length,
      Option.some.inj hlogical]
    exact .inr (by omega)
  | none =>
    rw [hstrip] at hlogical
    exact h.storage logical name (CallableScopeInfo.keyOf_eq_some hlogical)

/-- What one round of the loop does: it stays at a name or goes to a shorter one. -/
theorem AliasesShorten.normalizeCaptureName {info : CallableScopeInfo} (h : AliasesShorten info)
    (name : String) : info.normalizeCaptureName name = name ∨
      (info.normalizeCaptureName name).length < name.length := by
  have hstorage : ∀ logical, info.logicalNameForCellStorage name = some logical →
      logical = name ∨ logical.length < name.length := fun _ => h.logicalNameForCellStorage
  unfold CallableScopeInfo.normalizeCaptureName
    CallableScopeInfo.logicalNameForCellCaptureSource
  cases hkey : CallableScopeInfo.keyOf info.cellCaptureSourceNames name with
  | some key => exact h.source key name (CallableScopeInfo.keyOf_eq_some hkey)
  | none =>
    cases hlogical : info.logicalNameForCellStorage name with
    | some logical => exact hstorage logical hlogical
    | none => exact .inl rfl

/-- The alias loop of `compute_callable_make_function_capture_bindings_for_name_binding`, for at
most so many rounds. -/
def aliasLoop (info : CallableScopeInfo) : ℕ → String → Option String
  | 0, _ => none
  | fuel + 1, name =>
    if info.normalizeCaptureName name = name then some name
    else aliasLoop info fuel (info.normalizeCaptureName name)

/-- The loop ends, at a name that stands for itself. -/
theorem aliasLoop_ends {source : SourceModule} {info : CallableScopeInfo}
    (h : CallableScope source info) (name : String) :
    ∃ logical, info.normalizeCaptureName logical = logical ∧
      ∀ fuel, name.length < fuel → aliasLoop info fuel name = some logical := by
  induction hlength : name.length using Nat.strong_induction_on generalizing name with
  | _ length ih =>
    subst hlength
    by_cases hfixed : info.normalizeCaptureName name = name
    · refine ⟨name, hfixed, fun fuel hfuel => ?_⟩
      cases fuel with
      | zero => omega
      | succ fuel => rw [aliasLoop, if_pos hfixed]
    · have hshorter := (h.aliasesShorten.normalizeCaptureName name).resolve_left hfixed
      obtain ⟨logical, hend, hrun⟩ := ih _ hshorter _ rfl
      refine ⟨logical, hend, fun fuel hfuel => ?_⟩
      cases fuel with
      | zero => omega
      | succ fuel =>
        rw [aliasLoop, if_neg hfixed]
        exact hrun fuel (by omega)

/-- A module with a class `C`, and in it a method with `super()`. -/
def classSource : SourceModule where
  names := ⟨["C"], [], [], [], []⟩
  usesClassCell := false
  children := .cons (.scope .classScope ⟨["f"], [], [], [], []⟩ true []
    (.cons (.scope .functionScope ⟨[], [], [], [], ["super"]⟩ true ["self"] .nil) .nil)) .nil

/-- The scope of the class body. -/
theorem aliasLoop_ends_classSource :
    ∃ logical,
      (callableScopeInfo (semanticScopes classSource) 1 ["f"] true).normalizeCaptureName logical =
          logical ∧
        ∀ fuel, "_dp_cell__dp_classcell".length < fuel →
          aliasLoop (callableScopeInfo (semanticScopes classSource) 1 ["f"] true) fuel
            "_dp_cell__dp_classcell" = some logical :=
  aliasLoop_ends (.analysed 1 ["f"] true) "_dp_cell__dp_classcell"

end DietPython.Scopes
