import DietPython.Blocks.Linearize
import DietPython.Generators.ExplicitResume
import Mathlib.Data.List.AList
import Mathlib.Data.List.Dedup
import Mathlib.Data.List.Sort
import Mathlib.Data.String.Basic

/-!
# Scopes of callables

What the scope of a callable says about its names, and the storage layout that follows: which names
are cells of enclosing callables, which are cells of its own, and under which names they are stored.

A hash map is a list of entries with different keys, so that what is proved holds for every order in
which it may be walked. A hash set is a list.
-/

namespace DietPython.Generators

open Blocks (Instr Args Keywords CoreBlockPyExpr UnresolvedName FunctionKind)

/-! ## Cell names -/

/-- `cell_name` -/
def cellName (name : String) : String := "_dp_cell_" ++ name

def startsWith (start name : String) : Bool := start.toList.isPrefixOf name.toList

/-- `strip_prefix("_dp_cell_")` -/
def stripCellName (name : String) : Option String :=
  if startsWith "_dp_cell_" name then some (String.ofList (name.toList.drop 9)) else none

theorem stripCellName_eq_some {name logical : String} :
    stripCellName name = some logical ↔ name = cellName logical := by
  unfold stripCellName startsWith cellName
  constructor
  · intro h
    by_cases hstart : "_dp_cell_".toList.isPrefixOf name.toList
    · rw [if_pos hstart] at h
      obtain ⟨rest, hrest⟩ := List.isPrefixOf_iff_prefix.mp hstart
      have hdrop : name.toList.drop 9 = rest := by
        rw [← hrest]
        show List.drop "_dp_cell_".toList.length ("_dp_cell_".toList ++ rest) = rest
        exact List.drop_left
      rw [← Option.some.inj h, hdrop, ← String.toList_inj, String.toList_append, ← hrest]
      exact congrArg _ String.toList_ofList.symm
    · rw [if_neg hstart] at h
      cases h
  · rintro rfl
    rw [String.toList_append, if_pos (List.isPrefixOf_iff_prefix.mpr (List.prefix_append _ _))]
    refine congrArg some ?_
    show String.ofList (List.drop "_dp_cell_".toList.length
      ("_dp_cell_".toList ++ logical.toList)) = _
    rw [List.drop_left, String.ofList_toList]

@[simp] theorem stripCellName_cellName (name : String) :
    stripCellName (cellName name) = some name := stripCellName_eq_some.mpr rfl

theorem cellName_inj {name name' : String} (h : cellName name = cellName name') : name = name' := by
  have := stripCellName_cellName name
  rw [h, stripCellName_cellName] at this
  exact (Option.some.inj this).symm

theorem cellName_length (name : String) : (cellName name).length = name.length + 9 := by
  unfold cellName
  rw [String.length_append, Nat.add_comm]
  rfl

/-- A name that is not of the form that names of cells have. -/
def Plain (name : String) : Prop := stripCellName name = none

instance (name : String) : Decidable (Plain name) :=
  inferInstanceAs (Decidable (stripCellName name = none))

theorem Plain.ne_cellName {name : String} (h : Plain name) (logical : String) :
    name ≠ cellName logical := by
  rintro rfl
  unfold Plain at h
  rw [stripCellName_cellName] at h
  cases h

/-! ## Scopes -/

inductive CellBindingKind
  | owner
  | capture
  deriving DecidableEq

inductive BindingKind
  | localName
  | global
  | cell (kind : CellBindingKind)
  deriving DecidableEq

/-- What is used here of `CallableScopeInfo`. -/
structure CallableScopeInfo where
  bindings : AList fun _ : String => BindingKind
  cellStorageNames : AList fun _ : String => String
  cellCaptureSourceNames : AList fun _ : String => String
  ownedCellSourceNames : List String

namespace CallableScopeInfo

variable (scope : CallableScopeInfo)

def bindingKind (name : String) : Option BindingKind := scope.bindings.lookup name

/-- `insert_binding_with_cell_names` -/
def insertBindingWithCellNames (name : String) (binding : BindingKind)
    (cellStorageName cellCaptureSourceName : String) : CallableScopeInfo where
  bindings := scope.bindings.insert name binding
  cellStorageNames := scope.cellStorageNames.insert name cellStorageName
  cellCaptureSourceNames := scope.cellCaptureSourceNames.insert name cellCaptureSourceName
  ownedCellSourceNames := scope.ownedCellSourceNames

def isCellBinding (name : String) : Bool :=
  match scope.bindingKind name with
  | some (.cell _) => true
  | _ => false

def cellStorageName (name : String) : String :=
  (scope.cellStorageNames.lookup name).getD (cellName name)

def cellCaptureSourceName (name : String) : String :=
  (scope.cellCaptureSourceNames.lookup name).getD (cellName name)

def cellRefSourceName (name : String) : String :=
  if scope.isCellBinding name then scope.cellStorageName name
  else scope.cellCaptureSourceName name

/-- The first entry with a value, and its key. -/
def keyOf (entries : AList fun _ : String => String) (value : String) : Option String :=
  (entries.entries.find? fun entry => entry.2 = value).map Sigma.fst

def logicalNameForCellStorage (storageName : String) : Option String :=
  match stripCellName storageName with
  | some logicalName => some logicalName
  | none => keyOf scope.cellStorageNames storageName

def logicalNameForCellCaptureSource (storageName : String) : Option String :=
  match keyOf scope.cellCaptureSourceNames storageName with
  | some logicalName => some logicalName
  | none => scope.logicalNameForCellStorage storageName

/-- The names with a kind of binding. -/
def namesBoundTo (binding : BindingKind) : List String :=
  scope.bindings.keys.filter fun name => scope.bindingKind name = some binding

def ownedCellStorageNames : List String :=
  (scope.namesBoundTo (.cell .owner)).map scope.cellStorageName ++ scope.ownedCellSourceNames

def capturedCellLogicalNames : List String :=
  (scope.namesBoundTo (.cell .capture)).insertionSort (· ≤ ·)

end CallableScopeInfo

/-! ## The scope of a function -/

/-- What the analysis of names says about a function. Only `__class__` has a name of its own for its
storage, where it is captured. -/
structure FunctionNames where
  bindings : AList fun _ : String => BindingKind
  cellStorageNames : AList fun _ : String => String
  onlyClass : ∀ name storageName, cellStorageNames.lookup name = some storageName →
    name = "__class__" ∧ bindings.lookup name = some (.cell .capture)

def FunctionNames.captureNames (names : FunctionNames) : List String :=
  names.bindings.keys.filter fun name => names.bindings.lookup name = some (.cell .capture)

/-- `callable_scope_info`, for a function without the class cell that a class body leaves behind. -/
def callableScopeInfo (names : FunctionNames) : CallableScopeInfo where
  bindings := names.bindings
  cellStorageNames :=
    names.captureNames.foldl (fun entries name => entries.insert name name) names.cellStorageNames
  cellCaptureSourceNames :=
    if names.bindings.lookup "__class__" = some (.cell .capture) then
      names.cellStorageNames.insert "__class__" "__class__"
    else names.cellStorageNames
  ownedCellSourceNames := []

/-- A cell of an enclosing callable is stored under the name itself. Its source is the cell there,
or `__class__`. -/
structure CallableScopeInfo.OfFunction (scope : CallableScopeInfo) : Prop where
  storage : ∀ {name storageName}, scope.cellStorageNames.lookup name = some storageName ↔
    scope.bindingKind name = some (.cell .capture) ∧ storageName = name
  source : ∀ {name sourceName}, scope.cellCaptureSourceNames.lookup name = some sourceName →
    scope.bindingKind name = some (.cell .capture) ∧
      (sourceName = cellName name ∨ name = "__class__" ∧ sourceName = name)
  owned : scope.ownedCellSourceNames = []

theorem lookup_foldl_insert (names : List String) (entries : AList fun _ : String => String)
    (name : String) :
    (names.foldl (fun entries name => entries.insert name name) entries).lookup name =
      if name ∈ names then some name else entries.lookup name := by
  induction names generalizing entries with
  | nil => rfl
  | cons other names ih =>
    rw [List.foldl_cons, ih]
    by_cases hmem : name ∈ names
    · rw [if_pos hmem, if_pos (List.mem_cons_of_mem _ hmem)]
    · rw [if_neg hmem]
      by_cases heq : name = other
      · subst heq
        rw [if_pos List.mem_cons_self, AList.lookup_insert]
      · have hcons : name ∉ other :: names := fun h =>
          (List.mem_cons.mp h).elim heq hmem
        rw [if_neg hcons, AList.lookup_insert_ne heq]

theorem FunctionNames.mem_captureNames {names : FunctionNames} {name : String} :
    name ∈ names.captureNames ↔ names.bindings.lookup name = some (.cell .capture) := by
  unfold FunctionNames.captureNames
  rw [List.mem_filter, decide_eq_true_eq]
  refine ⟨And.right, fun h => ⟨?_, h⟩⟩
  rw [← AList.mem_keys, ← AList.lookup_isSome, h]
  rfl

theorem callableScopeInfo_ofFunction (names : FunctionNames) :
    (callableScopeInfo names).OfFunction := by
  refine ⟨fun {name storageName} => ?_, fun {name sourceName} h => ?_, rfl⟩
  · show AList.lookup name (names.captureNames.foldl (fun entries name => entries.insert name name)
      names.cellStorageNames) = some storageName ↔
        names.bindings.lookup name = some (.cell .capture) ∧ storageName = name
    rw [lookup_foldl_insert]
    by_cases hcaptured : names.bindings.lookup name = some (.cell .capture)
    · rw [if_pos (FunctionNames.mem_captureNames.mpr hcaptured)]
      exact ⟨fun h => ⟨hcaptured, (Option.some.inj h).symm⟩, fun h => congrArg some h.2.symm⟩
    · rw [if_neg (mt FunctionNames.mem_captureNames.mp hcaptured)]
      exact ⟨fun h => absurd (names.onlyClass _ _ h).2 hcaptured, fun h => absurd h.1 hcaptured⟩
  · have h : (if names.bindings.lookup "__class__" = some (.cell .capture) then
        names.cellStorageNames.insert "__class__" "__class__"
      else names.cellStorageNames).lookup name = some sourceName := h
    show names.bindings.lookup name = some (.cell .capture) ∧ _
    by_cases hclass : names.bindings.lookup "__class__" = some (.cell .capture)
    · rw [if_pos hclass] at h
      by_cases heq : name = "__class__"
      · subst heq
        rw [AList.lookup_insert] at h
        exact ⟨hclass, .inr ⟨rfl, (Option.some.inj h).symm⟩⟩
      · rw [AList.lookup_insert_ne heq] at h
        exact absurd (names.onlyClass _ _ h).1 heq
    · rw [if_neg hclass] at h
      obtain ⟨rfl, hcaptured⟩ := names.onlyClass _ _ h
      exact absurd hcaptured hclass

/-- The name without what names of cells start with. -/
def logicalName (name : String) : String := (stripCellName name).getD name

@[simp] theorem logicalName_cellName (name : String) : logicalName (cellName name) = name := by
  unfold logicalName
  rw [stripCellName_cellName]
  rfl

theorem Plain.logicalName_eq {name : String} (h : Plain name) : logicalName name = name := by
  unfold logicalName
  rw [show stripCellName name = none from h]
  rfl

theorem plain_class : Plain "__class__" := by decide

/-- A name is plain or the name of a cell. -/
theorem plain_or_cellName (name : String) :
    Plain name ∨ ∃ logical, name = cellName logical := by
  unfold Plain
  cases h : stripCellName name with
  | none => exact .inl rfl
  | some logical => exact .inr ⟨logical, stripCellName_eq_some.mp h⟩

namespace CallableScopeInfo

variable {scope : CallableScopeInfo}

theorem keyOf_eq_some {entries : AList fun _ : String => String} {value key : String}
    (h : keyOf entries value = some key) : entries.lookup key = some value := by
  unfold keyOf at h
  obtain ⟨entry, hfind, rfl⟩ := Option.map_eq_some_iff.mp h
  have hvalue := List.find?_some hfind
  rw [decide_eq_true_eq] at hvalue
  rw [← hvalue]
  exact AList.mem_lookup_iff.mpr (List.mem_of_find?_eq_some hfind)

theorem keyOf_isSome {entries : AList fun _ : String => String} {value key : String}
    (h : entries.lookup key = some value) : (keyOf entries value).isSome := by
  unfold keyOf
  rw [Option.isSome_map, List.find?_isSome]
  exact ⟨⟨key, value⟩, AList.mem_lookup_iff.mp h, decide_eq_true rfl⟩

theorem mem_namesBoundTo {binding : BindingKind} {name : String} :
    name ∈ scope.namesBoundTo binding ↔ scope.bindingKind name = some binding := by
  unfold namesBoundTo
  rw [List.mem_filter, decide_eq_true_eq]
  refine ⟨And.right, fun h => ⟨?_, h⟩⟩
  rw [← AList.mem_keys, ← AList.lookup_isSome]
  unfold bindingKind at h
  rw [h]
  rfl

namespace OfFunction

variable (h : scope.OfFunction)

include h

theorem cellStorageName_eq (name : String) : scope.cellStorageName name =
    if scope.bindingKind name = some (.cell .capture) then name else cellName name := by
  unfold cellStorageName
  by_cases hcaptured : scope.bindingKind name = some (.cell .capture)
  · rw [if_pos hcaptured, h.storage.mpr ⟨hcaptured, rfl⟩]
    rfl
  · rw [if_neg hcaptured]
    cases hlookup : scope.cellStorageNames.lookup name with
    | none => rfl
    | some storageName => exact absurd (h.storage.mp hlookup).1 hcaptured

theorem cellCaptureSourceName_eq (name : String) :
    scope.cellCaptureSourceName name = cellName name ∨
      name = "__class__" ∧ scope.bindingKind name = some (.cell .capture) ∧
        scope.cellCaptureSourceName name = name := by
  unfold cellCaptureSourceName
  cases hlookup : scope.cellCaptureSourceNames.lookup name with
  | none => exact .inl rfl
  | some sourceName =>
    obtain ⟨hcaptured, hsource⟩ := h.source hlookup
    exact hsource.imp id fun hclass => ⟨hclass.1, hcaptured, hclass.2⟩

/-- The logical name of a storage name, if it has one. -/
theorem logicalNameForCellStorage_eq (name : String) : scope.logicalNameForCellStorage name =
    if Plain name ∧ scope.bindingKind name ≠ some (.cell .capture) then none
    else some (logicalName name) := by
  unfold logicalNameForCellStorage
  rcases plain_or_cellName name with hplain | ⟨logical, rfl⟩
  · rw [show stripCellName name = none from hplain, hplain.logicalName_eq]
    show keyOf scope.cellStorageNames name = _
    by_cases hcaptured : scope.bindingKind name = some (.cell .capture)
    · rw [if_neg fun hboth => hboth.2 hcaptured]
      obtain ⟨key, hkey⟩ := Option.isSome_iff_exists.mp
        (keyOf_isSome (h.storage.mpr ⟨hcaptured, rfl⟩))
      rw [hkey, (h.storage.mp (keyOf_eq_some hkey)).2]
    · rw [if_pos ⟨hplain, hcaptured⟩]
      cases hkey : keyOf scope.cellStorageNames name with
      | none => rfl
      | some key =>
        obtain ⟨hcaptured', rfl⟩ := h.storage.mp (keyOf_eq_some hkey)
        exact absurd hcaptured' hcaptured
  · rw [if_neg fun hboth => hboth.1.ne_cellName logical rfl, stripCellName_cellName,
      logicalName_cellName]

theorem logicalNameForCellCaptureSource_eq (name : String) :
    scope.logicalNameForCellCaptureSource name =
      if Plain name ∧ scope.bindingKind name ≠ some (.cell .capture) then none
      else some (logicalName name) := by
  unfold logicalNameForCellCaptureSource
  cases hkey : keyOf scope.cellCaptureSourceNames name with
  | none => exact h.logicalNameForCellStorage_eq name
  | some key =>
    obtain ⟨hcaptured, rfl | ⟨hclass, rfl⟩⟩ := h.source (keyOf_eq_some hkey)
    · rw [if_neg fun hboth => hboth.1.ne_cellName key rfl, logicalName_cellName]
    · rw [if_neg fun hboth => hboth.2 hcaptured, hclass, plain_class.logicalName_eq]

theorem mem_ownedCellStorageNames {name : String} : name ∈ scope.ownedCellStorageNames ↔
    ∃ logical, scope.bindingKind logical = some (.cell .owner) ∧ name = cellName logical := by
  unfold ownedCellStorageNames
  rw [h.owned, List.append_nil, List.mem_map]
  have hstorage : ∀ {logical}, scope.bindingKind logical = some (.cell .owner) →
      scope.cellStorageName logical = cellName logical := by
    intro logical howner
    rw [h.cellStorageName_eq, howner, if_neg fun heq => (by cases heq)]
  constructor
  · rintro ⟨logical, hmem, rfl⟩
    have howner := mem_namesBoundTo.mp hmem
    exact ⟨logical, howner, hstorage howner⟩
  · rintro ⟨logical, howner, rfl⟩
    exact ⟨logical, mem_namesBoundTo.mpr howner, hstorage howner⟩

end OfFunction

end CallableScopeInfo

/-! ## Storage layouts -/

inductive ClosureInit
  | inheritedCapture
  | parameter
  | deletedSentinel
  | runtimePcUnstarted
  | runtimeAbruptKindFallthrough
  | runtimeNone
  | deferred
  deriving DecidableEq

structure ClosureSlot where
  logicalName : String
  storageName : String
  init : ClosureInit
  deriving DecidableEq

/-- Without the stack slots, which name binding adds. -/
structure StorageLayout where
  freevars : List ClosureSlot
  cellvars : List ClosureSlot
  runtimeCells : List ClosureSlot

namespace StorageLayout

def empty : StorageLayout := ⟨[], [], []⟩

/-- The cells that belong to the callable itself. -/
def localCells (layout : StorageLayout) : List ClosureSlot := layout.cellvars ++ layout.runtimeCells

end StorageLayout

def isRuntimeClosureName (name : String) : Bool :=
  name = "_dp_pc" || name = "_dp_yieldfrom" || name = "_dp_throw_context" ||
    startsWith "_dp_try_abrupt_kind_" name

/-- `sort` and `dedup`. -/
def sortDedup (names : List String) : List String := names.dedup.insertionSort (· ≤ ·)

@[simp] theorem mem_sortDedup {names : List String} {name : String} :
    name ∈ sortDedup names ↔ name ∈ names := by
  unfold sortDedup
  rw [List.mem_insertionSort, List.mem_dedup]

theorem nodup_sortDedup (names : List String) : (sortDedup names).Nodup :=
  (List.perm_insertionSort _ _).nodup_iff.mpr (List.nodup_dedup names)

namespace CallableScopeInfo

variable (scope : CallableScopeInfo)

/-- `normalize_capture_name` -/
def normalizeCaptureName (name : String) : String :=
  match scope.logicalNameForCellCaptureSource name with
  | some logicalName => logicalName
  | none => (scope.logicalNameForCellStorage name).getD name

/-- `compute_make_function_capture_bindings_from_scope`: the logical names. The name of the source
is `cell_capture_source_name` of each. -/
def makeFunctionCaptureNames (paramNames cellRefLogicalNames : List String) : List String :=
  let captured := scope.capturedCellLogicalNames.map scope.normalizeCaptureName
  let referred := (cellRefLogicalNames.map scope.normalizeCaptureName).filter fun logicalName =>
    !isRuntimeClosureName logicalName && !decide (logicalName ∈ paramNames) &&
      !decide (scope.cellCaptureSourceName logicalName ∈ scope.ownedCellStorageNames)
  sortDedup (captured ++ referred)

end CallableScopeInfo

/-! ### Generators -/

section Layout

variable (scope : CallableScopeInfo)

def generatorStateLogicalName (name : String) : String :=
  (scope.logicalNameForCellStorage name).getD name

def generatorStateStorageName (name : String) : String :=
  scope.cellStorageName (generatorStateLogicalName scope name)

def runtimeInit (name : String) : Option ClosureInit :=
  if name = "_dp_pc" then some .runtimePcUnstarted
  else if startsWith "_dp_try_abrupt_kind_" name then some .runtimeAbruptKindFallthrough
  else if name = "_dp_yieldfrom" then some .runtimeNone
  else if name = "_dp_throw_context" then some .runtimeNone
  else none

/-- One state variable, with the storage names that have been seen. -/
def pushStateVar (paramNames captureNames injectedExceptionNames : List String)
    (st : List String × StorageLayout) (name : String) : List String × StorageLayout :=
  let logicalName := generatorStateLogicalName scope name
  let storageName := generatorStateStorageName scope name
  if storageName ∈ st.1 then st
  else
    (storageName :: st.1,
      match runtimeInit logicalName with
      | some init =>
        { st.2 with runtimeCells := st.2.runtimeCells ++ [⟨logicalName, storageName, init⟩] }
      | none =>
        if name ∈ captureNames ∨ logicalName ∈ captureNames ∨ storageName ∈ captureNames then
          { st.2 with freevars := st.2.freevars ++ [⟨logicalName, storageName, .inheritedCapture⟩] }
        else
          let init :=
            if logicalName ∈ injectedExceptionNames then .deletedSentinel
            else if logicalName ∈ paramNames then .parameter
            else .deferred
          { st.2 with cellvars := st.2.cellvars ++ [⟨logicalName, storageName, init⟩] })

def buildBlockpyStorageLayout
    (paramNames stateVars captureNames injectedExceptionNames : List String) : StorageLayout :=
  (stateVars.foldl (pushStateVar scope paramNames captureNames injectedExceptionNames)
    ([], .empty)).2

end Layout

end DietPython.Generators
