import DietPython.Generators.CallableScopes

/-!
# Semantic scopes

The analysis of names before any lowering: the scopes of a module, what each name is bound to in
each of them, and under which name the cell of a captured name is stored. What the collectors find
in the syntax of each scope is given as data.

1. Scopes are kept in one list. A scope refers to its parent and its children by their positions.
2. Only `__class__` gets a name of its own for its cell (`onlyClassCell_semanticScopes`).
-/

namespace DietPython.Scopes

open Generators (BindingKind CellBindingKind startsWith)

/-! ## Scopes -/

inductive SemanticBindingKind
  | localName
  | nonlocalName
  | globalName
  deriving DecidableEq

inductive SemanticScopeKind
  | functionScope
  | classScope
  | moduleScope
  deriving DecidableEq

abbrev SemanticBindings := AList fun _ : String => SemanticBindingKind

/-- `SemanticScopeData`, without the qualified name. The keys of the children are not needed. -/
structure SemanticScopeData where
  kind : SemanticScopeKind
  bindings : SemanticBindings
  localDefs : List String
  typeParamNames : List String
  localCellBindings : List String
  cellStorageNames : AList fun _ : String => String
  parent : Option ℕ
  functionChildren : List ℕ
  classChildren : List ℕ

/-- What `RuffScopeBindingCollector` finds in a scope. -/
structure CollectedNames where
  boundNames : List String
  typeParamNames : List String
  explicitGlobals : List String
  explicitNonlocals : List String
  loadNames : List String

mutual

/-- A function, lambda or class of the source, with the ones in its body. -/
inductive SourceScope
  | scope (kind : SemanticScopeKind) (names : CollectedNames) (usesClassCell : Bool)
    (parameters : List String) (children : SourceScopes)

inductive SourceScopes
  | nil
  | cons (head : SourceScope) (tail : SourceScopes)

end

structure SourceModule where
  names : CollectedNames
  usesClassCell : Bool
  children : SourceScopes

def isInternalSymbol (name : String) : Bool := startsWith "_dp_" name || name = "__soac__"

/-! ## Bindings -/

def mergeSemanticBinding (existing incoming : SemanticBindingKind) : SemanticBindingKind :=
  match existing, incoming with
  | .globalName, .localName | .nonlocalName, .localName => existing
  | .localName, .globalName | .localName, .nonlocalName => incoming
  | _, _ => existing

def setSemanticBinding (bindings : SemanticBindings) (name : String)
    (binding : SemanticBindingKind) : SemanticBindings :=
  let binding := if isInternalSymbol name then .localName else binding
  match bindings.lookup name with
  | some existing =>
    if mergeSemanticBinding existing binding ≠ existing then
      bindings.insert name (mergeSemanticBinding existing binding)
    else bindings
  | none => bindings.insert name binding

/-! ## Walks to the enclosing scopes -/

/-- A scope and the ones around it. The parent of a scope comes before it in the list. -/
def chain (scopes : List SemanticScopeData) (id : ℕ) : List ℕ :=
  id :: match scopes[id]? with
    | none => []
    | some scope =>
      match scope.parent with
      | none => []
      | some parent => if parent < id then chain scopes parent else []
termination_by id

/-- Whether a function scope has a name that inner scopes can capture. -/
def SemanticScopeData.offers (scope : SemanticScopeData) (name : String) : Bool :=
  decide (name ∈ scope.localDefs) || decide (scope.bindings.lookup name = some .nonlocalName)

/-- The loop of `enclosing_function_capture_storage_name`. -/
def captureStorageName (scopes : List SemanticScopeData) (name : String) :
    List ℕ → Option (Option String)
  | [] => none
  | id :: rest =>
    match scopes[id]? with
    | none => none
    | some scope =>
      match scope.kind with
      | .functionScope =>
        if scope.offers name then some (scope.cellStorageNames.lookup name)
        else captureStorageName scopes name rest
      | .moduleScope => none
      | .classScope => captureStorageName scopes name rest

def enclosingFunctionCaptureStorageName (scopes : List SemanticScopeData) (current : ℕ)
    (name : String) : Option (Option String) :=
  captureStorageName scopes name (chain scopes current)

/-- The loop of `resolved_load_binding`. -/
def enclosingLoadBinding (scopes : List SemanticScopeData) (name : String) :
    List ℕ → SemanticBindingKind
  | [] => .globalName
  | id :: rest =>
    match scopes[id]? with
    | none => .globalName
    | some scope =>
      match scope.kind with
      | .functionScope =>
        if scope.offers name then .nonlocalName else enclosingLoadBinding scopes name rest
      | .moduleScope => .globalName
      | .classScope => enclosingLoadBinding scopes name rest

def resolvedLoadBinding (scopes : List SemanticScopeData) (id : ℕ) (name : String) :
    SemanticBindingKind :=
  match (scopes[id]?).bind fun scope => scope.bindings.lookup name with
  | some binding => binding
  | none =>
    if isInternalSymbol name then .localName
    else enclosingLoadBinding scopes name (chain scopes id).tail

/-! ## The preparation of a scope -/

structure ScopePreparation where
  bindings : SemanticBindings
  localDefs : List String
  typeParamNames : List String
  cellStorageNames : AList fun _ : String => String

/-- One name that is loaded: a name that is bound nowhere in the scope may be a capture. -/
def recordLoad (scopes : List SemanticScopeData) (current : ℕ) (prep : ScopePreparation)
    (name : String) : ScopePreparation :=
  if (prep.bindings.lookup name).isSome then prep
  else
    match enclosingFunctionCaptureStorageName scopes current name with
    | none => prep
    | some none => { prep with bindings := setSemanticBinding prep.bindings name .nonlocalName }
    | some (some storageName) =>
      { prep with
        bindings := setSemanticBinding prep.bindings name .nonlocalName
        cellStorageNames := prep.cellStorageNames.insert name storageName }

/-- The class cell of a function that has `super()` or `__class__`. -/
def recordClassCell (prep : ScopePreparation) : ScopePreparation :=
  match prep.bindings.lookup "__class__" with
  | none =>
    { prep with
      bindings := setSemanticBinding prep.bindings "__class__" .nonlocalName
      cellStorageNames := prep.cellStorageNames.insert "__class__" "_dp_classcell" }
  | some .nonlocalName =>
    { prep with cellStorageNames := prep.cellStorageNames.insert "__class__" "_dp_classcell" }
  | some _ => prep

def bindAll (binding : SemanticBindingKind) (names : List String) (bindings : SemanticBindings) :
    SemanticBindings :=
  names.foldl (fun bindings name => setSemanticBinding bindings name binding) bindings

/-- `prepare_scope_from_collector` -/
def prepareScope (scopes : List SemanticScopeData) (current : ℕ) (isFunction : Bool)
    (names : CollectedNames) (usesClassCell : Bool) (parameters : List String) :
    ScopePreparation :=
  let declared := names.explicitGlobals ++ names.explicitNonlocals
  let prep : ScopePreparation :=
    { bindings := bindAll .localName names.boundNames (bindAll .localName parameters
        (bindAll .nonlocalName names.explicitNonlocals
          (bindAll .globalName names.explicitGlobals ∅)))
      localDefs := (parameters ++ names.boundNames).filter fun name => !declared.contains name
      typeParamNames := names.typeParamNames
      cellStorageNames := ∅ }
  let prep := names.loadNames.foldl (recordLoad scopes current) prep
  if isFunction && usesClassCell then recordClassCell prep else prep

/-! ## The scopes of a module -/

def SemanticScopeData.addChild (scope : SemanticScopeData) (kind : SemanticScopeKind) (id : ℕ) :
    SemanticScopeData :=
  match kind with
  | .functionScope => { scope with functionChildren := scope.functionChildren ++ [id] }
  | .classScope => { scope with classChildren := scope.classChildren ++ [id] }
  | .moduleScope => scope

/-- `push_snapshot_scope` -/
def pushSnapshotScope (scopes : List SemanticScopeData) (parent : ℕ) (kind : SemanticScopeKind)
    (prep : ScopePreparation) : List SemanticScopeData :=
  scopes.modify parent (fun scope => scope.addChild kind scopes.length) ++
    [{ kind := kind
       bindings := prep.bindings
       localDefs := prep.localDefs
       typeParamNames := prep.typeParamNames
       localCellBindings := []
       cellStorageNames := prep.cellStorageNames
       parent := some parent
       functionChildren := []
       classChildren := [] }]

mutual

/-- A definition in the scope `current`, and the ones in its body. -/
def visitScope (scopes : List SemanticScopeData) (current : ℕ) :
    SourceScope → List SemanticScopeData
  | .scope kind names usesClassCell parameters children =>
    let prep := prepareScope scopes current (decide (kind = .functionScope)) names usesClassCell
      parameters
    visitScopes (pushSnapshotScope scopes current kind prep) scopes.length children

def visitScopes (scopes : List SemanticScopeData) (current : ℕ) :
    SourceScopes → List SemanticScopeData
  | .nil => scopes
  | .cons head tail => visitScopes (visitScope scopes current head) current tail

end

def emptyModuleScope : SemanticScopeData where
  kind := .moduleScope
  bindings := ∅
  localDefs := []
  typeParamNames := []
  localCellBindings := []
  cellStorageNames := ∅
  parent := none
  functionChildren := []
  classChildren := []

def moduleScope (source : SourceModule) : SemanticScopeData :=
  let prep := prepareScope [emptyModuleScope] 0 false source.names source.usesClassCell []
  { emptyModuleScope with
    bindings := prep.bindings
    localDefs := prep.localDefs
    typeParamNames := prep.typeParamNames
    cellStorageNames := prep.cellStorageNames }

/-- The loop of `propagate_nonlocal_roots` for one name. -/
def markRoot (scopes : List SemanticScopeData) (name : String) : List ℕ → List SemanticScopeData
  | [] => scopes
  | id :: rest =>
    match scopes[id]? with
    | none => scopes
    | some scope =>
      if scope.kind = .functionScope ∧ scope.bindings.lookup name = some .localName then
        scopes.modify id fun scope =>
          { scope with bindings := setSemanticBinding scope.bindings name .nonlocalName }
      else markRoot scopes name rest

def SemanticScopeData.nonlocals (scope : SemanticScopeData) : List String :=
  scope.bindings.keys.filter fun name => scope.bindings.lookup name = some .nonlocalName

def propagateNonlocalRoots (scopes : List SemanticScopeData) : List SemanticScopeData :=
  (List.range scopes.length).foldl (fun scopes id =>
    ((scopes[id]?).elim [] SemanticScopeData.nonlocals).foldl (fun scopes name =>
      markRoot scopes name (chain scopes id).tail) scopes) scopes

/-- The children of a scope come behind it in the list. -/
def descendantUsesNonlocal (scopes : List SemanticScopeData) (id : ℕ) (name : String) : Bool :=
  ((scopes[id]?).elim [] fun scope => scope.functionChildren ++ scope.classChildren).any
    fun child =>
      decide (((scopes[child]?).bind fun scope => scope.bindings.lookup name) =
          some .nonlocalName) ||
        if id < child ∧ child < scopes.length then descendantUsesNonlocal scopes child name
        else false
termination_by scopes.length - id

def computeLocalCellBindings (scopes : List SemanticScopeData) : List SemanticScopeData :=
  scopes.mapIdx fun id scope =>
    { scope with localCellBindings := scope.localDefs.filter (descendantUsesNonlocal scopes id) }

/-- `RuffSemanticSnapshotBuilder::build` -/
def snapshot (source : SourceModule) : List SemanticScopeData :=
  computeLocalCellBindings
    (propagateNonlocalRoots (visitScopes [moduleScope source] 0 source.children))

/-- A binding of the module, seen from the function that initialises it. -/
def translateModuleBinding (name : String) (binding : SemanticBindingKind) : SemanticBindingKind :=
  if isInternalSymbol name then .localName
  else
    match binding with
    | .localName | .globalName => .globalName
    | .nonlocalName => .nonlocalName

/-- `synthesize_rootinit_scope` -/
def moduleInitScope (root : SemanticScopeData) : SemanticScopeData where
  kind := .functionScope
  bindings := root.bindings.entries.foldl
    (fun bindings entry => bindings.insert entry.1 (translateModuleBinding entry.1 entry.2)) ∅
  localDefs := []
  typeParamNames := []
  localCellBindings := []
  cellStorageNames := ∅
  parent := some 0
  functionChildren := root.functionChildren
  classChildren := root.classChildren

/-- All scopes: those of the source, and that of the function that initialises the module. -/
def semanticScopes (source : SourceModule) : List SemanticScopeData :=
  snapshot source ++ (snapshot source).head?.toList.map moduleInitScope

/-! ## Names of cells -/

/-- Only `__class__` has an entry, and it is the cell that the class body makes. -/
def OnlyClassCell (entries : AList fun _ : String => String) : Prop :=
  ∀ name storageName, entries.lookup name = some storageName →
    name = "__class__" ∧ storageName = "_dp_classcell"

def AllOnlyClassCell (scopes : List SemanticScopeData) : Prop :=
  ∀ scope ∈ scopes, OnlyClassCell scope.cellStorageNames

theorem onlyClassCell_empty : OnlyClassCell ∅ := by
  intro name storageName h
  rw [AList.lookup_empty] at h
  cases h

theorem OnlyClassCell.insert {entries : AList fun _ : String => String} (h : OnlyClassCell entries)
    {name storageName : String} (hnew : name = "__class__" ∧ storageName = "_dp_classcell") :
    OnlyClassCell (entries.insert name storageName) := by
  intro other storage hlookup
  by_cases heq : other = name
  · subst heq
    rw [AList.lookup_insert] at hlookup
    exact ⟨hnew.1, (Option.some.inj hlookup) ▸ hnew.2⟩
  · rw [AList.lookup_insert_ne heq] at hlookup
    exact h other storage hlookup

/-- A name that is found in an enclosing function is stored under the name that it has there. -/
theorem captureStorageName_mem {scopes : List SemanticScopeData} {name storageName : String}
    {ids : List ℕ} (h : captureStorageName scopes name ids = some (some storageName)) :
    ∃ scope ∈ scopes, scope.cellStorageNames.lookup name = some storageName := by
  induction ids with
  | nil => cases h
  | cons id rest ih =>
    unfold captureStorageName at h
    cases hscope : scopes[id]? with
    | none =>
      rw [hscope] at h
      cases h
    | some scope =>
      rw [hscope] at h
      cases hkind : scope.kind with
      | functionScope =>
        simp only [hkind] at h
        split_ifs at h
        · exact ⟨scope, List.mem_of_getElem? hscope, Option.some.inj h⟩
        · exact ih h
      | classScope =>
        simp only [hkind] at h
        exact ih h
      | moduleScope =>
        simp only [hkind] at h
        cases h

theorem onlyClassCell_recordLoad {scopes : List SemanticScopeData}
    (hscopes : AllOnlyClassCell scopes) (current : ℕ) {prep : ScopePreparation}
    (h : OnlyClassCell prep.cellStorageNames) (name : String) :
    OnlyClassCell (recordLoad scopes current prep name).cellStorageNames := by
  unfold recordLoad
  split_ifs with hbound
  · exact h
  · cases hcapture : enclosingFunctionCaptureStorageName scopes current name with
    | none => exact h
    | some storage =>
      cases storage with
      | none => exact h
      | some storageName =>
        obtain ⟨scope, hmem, hlookup⟩ := captureStorageName_mem hcapture
        exact h.insert (hscopes scope hmem name storageName hlookup)

theorem onlyClassCell_recordClassCell {prep : ScopePreparation}
    (h : OnlyClassCell prep.cellStorageNames) :
    OnlyClassCell (recordClassCell prep).cellStorageNames := by
  unfold recordClassCell
  cases prep.bindings.lookup "__class__" with
  | none => exact h.insert ⟨rfl, rfl⟩
  | some binding =>
    cases binding with
    | localName => exact h
    | nonlocalName => exact h.insert ⟨rfl, rfl⟩
    | globalName => exact h

theorem onlyClassCell_prepareScope {scopes : List SemanticScopeData}
    (hscopes : AllOnlyClassCell scopes) (current : ℕ) (isFunction : Bool) (names : CollectedNames)
    (usesClassCell : Bool) (parameters : List String) :
    OnlyClassCell
      (prepareScope scopes current isFunction names usesClassCell parameters).cellStorageNames := by
  have hloads : ∀ (loads : List String) (prep : ScopePreparation),
      OnlyClassCell prep.cellStorageNames →
      OnlyClassCell (loads.foldl (recordLoad scopes current) prep).cellStorageNames := by
    intro loads
    induction loads with
    | nil => exact fun prep h => h
    | cons name loads ih =>
      exact fun prep h => ih _ (onlyClassCell_recordLoad hscopes current h name)
  unfold prepareScope
  dsimp only
  split_ifs
  · exact onlyClassCell_recordClassCell (hloads _ _ onlyClassCell_empty)
  · exact hloads _ _ onlyClassCell_empty

/-- Changing one scope in something else than its names of cells. -/
theorem AllOnlyClassCell.modify {scopes : List SemanticScopeData} (h : AllOnlyClassCell scopes)
    (id : ℕ) {change : SemanticScopeData → SemanticScopeData}
    (hchange : ∀ scope, (change scope).cellStorageNames = scope.cellStorageNames) :
    AllOnlyClassCell (scopes.modify id change) := by
  intro scope hmem
  obtain ⟨index, hindex⟩ := List.mem_iff_getElem?.mp hmem
  rw [List.getElem?_modify] at hindex
  obtain ⟨old, hold, hnew⟩ := Option.map_eq_some_iff.mp hindex
  have hkept := h old (List.mem_of_getElem? hold)
  rw [← hnew]
  split_ifs
  · rw [hchange]
    exact hkept
  · exact hkept

theorem allOnlyClassCell_pushSnapshotScope {scopes : List SemanticScopeData}
    (h : AllOnlyClassCell scopes) (parent : ℕ) (kind : SemanticScopeKind) {prep : ScopePreparation}
    (hprep : OnlyClassCell prep.cellStorageNames) :
    AllOnlyClassCell (pushSnapshotScope scopes parent kind prep) := by
  intro scope hmem
  rcases List.mem_append.mp hmem with hold | hnew
  · exact h.modify parent (fun scope => by cases kind <;> rfl) scope hold
  · rw [List.mem_singleton.mp hnew]
    exact hprep

mutual

theorem allOnlyClassCell_visitScope :
    ∀ (source : SourceScope) (scopes : List SemanticScopeData) (current : ℕ),
      AllOnlyClassCell scopes → AllOnlyClassCell (visitScope scopes current source)
  | .scope kind names usesClassCell parameters children, scopes, current, h => by
    unfold visitScope
    exact allOnlyClassCell_visitScopes children _ _
      (allOnlyClassCell_pushSnapshotScope h current kind
        (onlyClassCell_prepareScope h current _ names usesClassCell parameters))

theorem allOnlyClassCell_visitScopes :
    ∀ (sources : SourceScopes) (scopes : List SemanticScopeData) (current : ℕ),
      AllOnlyClassCell scopes → AllOnlyClassCell (visitScopes scopes current sources)
  | .nil, _, _, h => h
  | .cons head tail, scopes, current, h =>
    allOnlyClassCell_visitScopes tail _ current (allOnlyClassCell_visitScope head scopes current h)

end

theorem allOnlyClassCell_markRoot {scopes : List SemanticScopeData} (h : AllOnlyClassCell scopes)
    (name : String) (ids : List ℕ) : AllOnlyClassCell (markRoot scopes name ids) := by
  induction ids with
  | nil => exact h
  | cons id rest ih =>
    unfold markRoot
    cases scopes[id]? with
    | none => exact h
    | some scope =>
      dsimp only
      split_ifs
      · exact h.modify id fun _ => rfl
      · exact ih

theorem allOnlyClassCell_foldl {α : Type} {scopes : List SemanticScopeData}
    (h : AllOnlyClassCell scopes) {step : List SemanticScopeData → α → List SemanticScopeData}
    (hstep : ∀ scopes item, AllOnlyClassCell scopes → AllOnlyClassCell (step scopes item))
    (items : List α) : AllOnlyClassCell (items.foldl step scopes) := by
  induction items generalizing scopes with
  | nil => exact h
  | cons item items ih => exact ih (hstep scopes item h)

theorem allOnlyClassCell_snapshot (source : SourceModule) : AllOnlyClassCell (snapshot source) := by
  have hmodule : AllOnlyClassCell [moduleScope source] := by
    intro scope hmem
    rw [List.mem_singleton.mp hmem]
    refine onlyClassCell_prepareScope ?_ 0 false source.names source.usesClassCell []
    intro other hother
    rw [List.mem_singleton.mp hother]
    exact onlyClassCell_empty
  have hvisited := allOnlyClassCell_visitScopes source.children _ 0 hmodule
  have hroots : AllOnlyClassCell
      (propagateNonlocalRoots (visitScopes [moduleScope source] 0 source.children)) :=
    allOnlyClassCell_foldl hvisited (fun scopes id h =>
      allOnlyClassCell_foldl h (fun scopes name h => allOnlyClassCell_markRoot h name _) _) _
  intro scope hmem
  obtain ⟨id, hid, rfl⟩ := List.mem_mapIdx.mp hmem
  have hkept := hroots _ (List.getElem_mem hid)
  exact hkept

/-- The analysis gives a name of its own to the cell of `__class__` only. -/
theorem onlyClassCell_semanticScopes (source : SourceModule) :
    AllOnlyClassCell (semanticScopes source) := by
  intro scope hmem
  rcases List.mem_append.mp hmem with hsnapshot | hinit
  · exact allOnlyClassCell_snapshot source scope hsnapshot
  · obtain ⟨root, -, rfl⟩ := List.mem_map.mp hinit
    exact onlyClassCell_empty

/-! ## Effective bindings -/

inductive ClassBodyFallback
  | cell
  | global

inductive EffectiveBinding
  | localName
  | global
  | cell (kind : CellBindingKind)
  /-- A name of a class body, and where it is looked up when the namespace does not have it. -/
  | classBody (fallback : ClassBodyFallback)

inductive BindingTarget
  | localName
  | moduleGlobal
  | classNamespace
  deriving DecidableEq

def EffectiveBinding.target : EffectiveBinding → BindingTarget
  | .global => .moduleGlobal
  | .classBody _ => .classNamespace
  | .localName | .cell _ => .localName

inductive BindingPurpose
  | load
  | store

/-- `derive_effective_binding_for_name`, which honors no internal name here. -/
def deriveEffectiveBindingForName (name : String) (binding : BindingKind)
    (scopeKind : SemanticScopeKind) (typeParamNames : List String) (purpose : BindingPurpose) :
    EffectiveBinding :=
  if isInternalSymbol name then .localName
  else
    match purpose with
    | .load =>
      match scopeKind, binding with
      | .classScope, .cell _ => .classBody .cell
      | .classScope, .localName | .classScope, .global => .classBody .global
      | _, .global => .global
      | _, .cell kind => .cell kind
      | _, .localName => .localName
    | .store =>
      if scopeKind = .classScope ∧ name ∈ typeParamNames then
        match binding with
        | .localName => .localName
        | .global => .global
        | .cell kind => .cell kind
      else
        match scopeKind, binding with
        | .classScope, .localName => .classBody .global
        | _, .global => .global
        | _, .cell kind => .cell kind
        | _, .localName => .localName

end DietPython.Scopes
