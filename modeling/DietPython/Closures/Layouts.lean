import DietPython.Generators.CallableScopes
import DietPython.Lib.MemoRecursion

/-!
# Which cells callables capture

A callable that has no layout yet gets one from its scope, together with the cells that the
functions it creates capture and that are not its own. Layouts are computed depth first, with a
table of what is done and a set of what is being done, for the callables of a module in any order.

1. `HasToCapture` says what a callable has to capture: what its scope says, and what a function that
   it creates has to capture, unless the cell is one of its own.
2. `layoutEquations` is the recursion, an instance of recursion with a table.
3. `ensureModuleStorageLayouts_captures` puts both together.
-/

namespace DietPython.Closures

open Blocks (Instr Args Keywords CoreBlockPyExpr UnresolvedName Block)
open Generators
open MemoRecursion

/-! ## What the instructions of a callable say -/

def idStr : UnresolvedName → String
  | .sourceName name | .runtimeName name => name

def rootNameId : CoreBlockPyExpr → Option String
  | .call func _ _ => rootNameId func
  | .load name => some (idStr name)
  | _ => none

def rootStringLiteralValue : CoreBlockPyExpr → Option String
  | .literal _ (.stringLiteral value) => some value
  | _ => none

/-- `call_root_cell_ref_logical_name` -/
def callRootCellRefLogicalName (func : CoreBlockPyExpr) :
    Args Empty Unit UnresolvedName → Option String
  | .positional arg _ =>
    if rootNameId func = some "cell_ref" then rootStringLiteralValue arg else none
  | _ => none

mutual

/-- The names that `StorageLayoutScopeCollector` finds cells of. -/
def cellRefs : CoreBlockPyExpr → List String
  | .literal _ _ | .load _ | .del _ _ | .cellRef _ => []
  | .binOp _ left right | .getAttr left right | .getItem left right | .delItem left right
  | .makeFunction _ _ left right => cellRefs left ++ cellRefs right
  | .unaryOp _ value | .store _ value | .makeCell value => cellRefs value
  | .call func args keywords =>
    (callRootCellRefLogicalName func args).toList ++ cellRefs func ++ argsCellRefs args ++
      keywordsCellRefs keywords
  | .setAttr value index replacement | .setItem value index replacement =>
    cellRefs value ++ cellRefs index ++ cellRefs replacement
  | .cellRefForName _ logicalName => [logicalName]

def argsCellRefs : Args Empty Unit UnresolvedName → List String
  | .nil => []
  | .positional value rest | .starred value rest => cellRefs value ++ argsCellRefs rest

def keywordsCellRefs : Keywords Empty Unit UnresolvedName → List String
  | .nil => []
  | .named _ value rest | .starred value rest => cellRefs value ++ keywordsCellRefs rest

end

mutual

/-- `collect_make_function_callee_ids_in_expr`, which does not look into the operands of a function
that is created. -/
def exprCalleeIds : CoreBlockPyExpr → List ℕ
  | .literal _ _ | .load _ | .del _ _ | .cellRef _ | .cellRefForName _ _ => []
  | .makeFunction functionId _ _ _ => [functionId]
  | .binOp _ left right | .getAttr left right | .getItem left right | .delItem left right =>
    exprCalleeIds left ++ exprCalleeIds right
  | .unaryOp _ value | .store _ value | .makeCell value => exprCalleeIds value
  | .call func args keywords =>
    exprCalleeIds func ++ argsCalleeIds args ++ keywordsCalleeIds keywords
  | .setAttr value index replacement | .setItem value index replacement =>
    exprCalleeIds value ++ exprCalleeIds index ++ exprCalleeIds replacement

def argsCalleeIds : Args Empty Unit UnresolvedName → List ℕ
  | .nil => []
  | .positional value rest | .starred value rest => exprCalleeIds value ++ argsCalleeIds rest

def keywordsCalleeIds : Keywords Empty Unit UnresolvedName → List ℕ
  | .nil => []
  | .named _ value rest | .starred value rest => exprCalleeIds value ++ keywordsCalleeIds rest

end

/-- What name binding uses of a `BlockPyFunction` for its layout. -/
structure Callable where
  functionId : ℕ
  params : List String
  blocks : List (Block CoreBlockPyExpr CoreBlockPyExpr)
  scope : CallableScopeInfo
  storageLayout : Option StorageLayout

namespace Callable

variable (c : Callable)

/-- The instructions in the bodies and the operands of the terminators. -/
def instrs : List CoreBlockPyExpr :=
  c.blocks.flatMap fun block => block.body ++ block.term.operand.toList

/-- `collect_make_function_callee_ids` -/
def calleeIds : List ℕ := ((c.instrs.flatMap exprCalleeIds).dedup).insertionSort (· ≤ ·)

/-- `compute_make_function_capture_bindings_from_scope` -/
def captureNames : List String :=
  c.scope.makeFunctionCaptureNames c.params (c.instrs.flatMap cellRefs)

/-! ## The layout of a callable -/

def cellLogicalName (storageName : String) : String :=
  (c.scope.logicalNameForCellStorage storageName).getD storageName

/-- The storage names of the callable's own cells. -/
def ownCellNames : List String :=
  (sortDedup c.scope.ownedCellStorageNames).filter fun storageName =>
    !isRuntimeClosureName (c.cellLogicalName storageName)

def ownSlot (storageName : String) : ClosureSlot :=
  ⟨c.cellLogicalName storageName, storageName,
    if c.cellLogicalName storageName ∈ c.params then .parameter else .deletedSentinel⟩

def captureSlot (logicalName : String) : ClosureSlot :=
  ⟨logicalName, c.scope.cellStorageName logicalName, .inheritedCapture⟩

/-- `build_storage_layout_from_capture_names` -/
def buildStorageLayoutFromCaptureNames (captureNames : List String) : Option StorageLayout :=
  if sortDedup captureNames = [] ∧ c.ownCellNames = [] then none
  else some ⟨(sortDedup captureNames).map c.captureSlot, c.ownCellNames.map c.ownSlot, []⟩

/-- `compute_storage_layout_from_scope` -/
def storageLayoutFromScope : Option StorageLayout :=
  c.buildStorageLayoutFromCaptureNames c.captureNames

end Callable

/-! ## The layouts of a module -/

def freevarsOf (layout : Option StorageLayout) : List ClosureSlot :=
  (layout.map StorageLayout.freevars).getD []

def cellvarsOf (layout : Option StorageLayout) : List ClosureSlot :=
  (layout.map StorageLayout.cellvars).getD []

namespace Callable

variable (c : Callable)

/-- A captured cell of a created function that is one of the callable's own. -/
def ownsCell (base : Option StorageLayout) (logicalName : String) : Bool :=
  decide (logicalName ∈ (cellvarsOf base).map ClosureSlot.logicalName) ||
    decide (c.scope.cellCaptureSourceName logicalName ∈
      (cellvarsOf base).map ClosureSlot.storageName)

/-- The layout of a callable, from those of the functions that it creates. -/
def layoutWithCallees (calleeLayouts : List (Option StorageLayout)) : Option StorageLayout :=
  let base := c.storageLayoutFromScope
  c.buildStorageLayoutFromCaptureNames <|
    (freevarsOf base).map ClosureSlot.logicalName ++ calleeLayouts.flatMap fun layout =>
      ((freevarsOf layout).map ClosureSlot.logicalName).filter fun logicalName =>
        !c.ownsCell base logicalName

end Callable

/-- `callable_by_id`, where the last callable with an id counts. -/
def callableById (callables : List Callable) (id : ℕ) : Option Callable :=
  callables.reverse.find? fun c => c.functionId = id

/-- The recursion of `compute_callable_storage_layout_for_name_binding`. -/
def layoutEquations (callables : List Callable) : Equations ℕ (Option StorageLayout) where
  present id := (callableById callables id).isSome
  known id := do
    let c ← callableById callables id
    let layout ← c.storageLayout
    some (some layout)
  callees id := ((callableById callables id).map Callable.calleeIds).getD []
  combine id calleeLayouts :=
    (callableById callables id).bind fun c => c.layoutWithCallees calleeLayouts
  makeshift id := (callableById callables id).bind Callable.storageLayoutFromScope

/-- `ensure_module_storage_layouts`, where `ids` are the ids of the callables in the order in which
they are walked. A function that is created and not there stops it. -/
def ensureModuleStorageLayouts (callables : List Callable) (ids : List ℕ) :
    Option (List Callable) := do
  let (_, s) ← computeList (compute (layoutEquations callables) (callables.length + 1)) ids
    ⟨fun _ => none, []⟩
  return callables.map fun c =>
    if c.storageLayout.isNone then { c with storageLayout := (s.memo c.functionId).join } else c

/-! ## What has to be captured -/

/-- A callable has to capture a name: its layout is given and says so, or its scope says so, or a
function that it creates has to and the cell is not its own. -/
inductive HasToCapture (callables : List Callable) : ℕ → String → Prop
  | given {id : ℕ} {c : Callable} {layout : StorageLayout} {slot : ClosureSlot}
      (hc : callableById callables id = some c) (hlayout : c.storageLayout = some layout)
      (hslot : slot ∈ layout.freevars) : HasToCapture callables id slot.logicalName
  | scope {id : ℕ} {c : Callable} {name : String} (hc : callableById callables id = some c)
      (hlayout : c.storageLayout = none) (hname : name ∈ c.captureNames) :
      HasToCapture callables id name
  | created {id callee : ℕ} {c : Callable} {name : String}
      (hc : callableById callables id = some c) (hlayout : c.storageLayout = none)
      (hcallee : callee ∈ c.calleeIds) (hname : HasToCapture callables callee name)
      (howns : c.ownsCell c.storageLayoutFromScope name = false) : HasToCapture callables id name

theorem map_logicalName_captureSlot (c : Callable) (names : List String) :
    (names.map c.captureSlot).map ClosureSlot.logicalName = names := by
  rw [List.map_map]
  exact List.map_id names

theorem freevarsOf_build (c : Callable) (names : List String) :
    (freevarsOf (c.buildStorageLayoutFromCaptureNames names)).map ClosureSlot.logicalName =
      sortDedup names := by
  unfold Callable.buildStorageLayoutFromCaptureNames
  by_cases h : sortDedup names = [] ∧ c.ownCellNames = []
  · rw [if_pos h, h.1]
    rfl
  · rw [if_neg h]
    exact map_logicalName_captureSlot c _

theorem cellvarsOf_build (c : Callable) (names : List String) :
    cellvarsOf (c.buildStorageLayoutFromCaptureNames names) = c.ownCellNames.map c.ownSlot := by
  unfold Callable.buildStorageLayoutFromCaptureNames
  by_cases h : sortDedup names = [] ∧ c.ownCellNames = []
  · rw [if_pos h, h.2]
    rfl
  · rw [if_neg h]
    rfl

theorem mem_freevarsOf_layoutWithCallees {c : Callable} {layouts : List (Option StorageLayout)}
    {name : String} :
    name ∈ (freevarsOf (c.layoutWithCallees layouts)).map ClosureSlot.logicalName ↔
      name ∈ c.captureNames ∨ ∃ layout ∈ layouts,
        name ∈ (freevarsOf layout).map ClosureSlot.logicalName ∧
          c.ownsCell c.storageLayoutFromScope name = false := by
  unfold Callable.layoutWithCallees
  dsimp only
  rw [freevarsOf_build, mem_sortDedup, List.mem_append, List.mem_flatMap]
  refine or_congr ?_ (exists_congr fun layout => and_congr_right fun _ => ?_)
  · unfold Callable.storageLayoutFromScope
    rw [freevarsOf_build, mem_sortDedup]
  · rw [List.mem_filter, Bool.not_eq_true']

section Layouts

variable {callables : List Callable} {rank : ℕ → ℕ} {layout : ℕ → Option StorageLayout}

theorem callableById_eq_some {id : ℕ} {c : Callable} (h : callableById callables id = some c) :
    c ∈ callables ∧ c.functionId = id := by
  refine ⟨List.mem_reverse.mp (List.mem_of_find?_eq_some h), ?_⟩
  simpa using List.find?_some h

theorem callableById_of_mem (hids : (callables.map Callable.functionId).Nodup) {c : Callable}
    (hc : c ∈ callables) : callableById callables c.functionId = some c := by
  have hsome : (callableById callables c.functionId).isSome := by
    unfold callableById
    rw [List.find?_isSome]
    exact ⟨c, List.mem_reverse.mpr hc, decide_eq_true rfl⟩
  obtain ⟨c', hc'⟩ := Option.isSome_iff_exists.mp hsome
  obtain ⟨hmem, hid⟩ := callableById_eq_some hc'
  rw [hc', List.inj_on_of_nodup_map hids hmem hc hid]

theorem known_eq_none_iff {id : ℕ} {c : Callable} (hc : callableById callables id = some c) :
    (layoutEquations callables).known id = none ↔ c.storageLayout = none := by
  cases hlayout : c.storageLayout <;> simp [layoutEquations, hc, hlayout]

theorem callees_eq {id : ℕ} {c : Callable} (hc : callableById callables id = some c) :
    (layoutEquations callables).callees id = c.calleeIds := by
  simp [layoutEquations, hc]

/-- What a table of layouts that solves the equations says of a callable without a layout. -/
theorem layout_eq_layoutWithCallees (hsolves : (layoutEquations callables).Solves layout) {id : ℕ}
    {c : Callable} (hc : callableById callables id = some c) (hlayout : c.storageLayout = none) :
    layout id = c.layoutWithCallees (c.calleeIds.map layout) := by
  rw [hsolves.combine ((known_eq_none_iff hc).mpr hlayout), callees_eq hc]
  simp [layoutEquations, hc]

theorem layout_eq_given (hsolves : (layoutEquations callables).Solves layout) {id : ℕ}
    {c : Callable} (hc : callableById callables id = some c) {given : StorageLayout}
    (hlayout : c.storageLayout = some given) : layout id = some given := by
  have hknown : (layoutEquations callables).known id = some (some given) := by
    simp [layoutEquations, hc, hlayout]
  exact hsolves.known hknown

/-- A layout captures what has to be captured, since it solves the equations, and nothing else,
since no function is created by way of itself. -/
theorem mem_freevarsOf_iff (hrank : (layoutEquations callables).Ranked rank)
    (hsolves : (layoutEquations callables).Solves layout)
    (hpresent : ∀ id, (layoutEquations callables).present id →
      (layoutEquations callables).known id = none →
        ∀ callee ∈ (layoutEquations callables).callees id,
          (layoutEquations callables).present callee)
    {id : ℕ} (hid : (layoutEquations callables).present id) {name : String} :
    name ∈ (freevarsOf (layout id)).map ClosureSlot.logicalName ↔
      HasToCapture callables id name := by
  constructor
  · intro hname
    have hgen : ∀ n id, rank id < n → (layoutEquations callables).present id →
        name ∈ (freevarsOf (layout id)).map ClosureSlot.logicalName →
          HasToCapture callables id name := by
      intro n
      induction n with
      | zero => exact fun id hlt => absurd hlt (Nat.not_lt_zero _)
      | succ n ih =>
        intro id hlt hid hname
        obtain ⟨c, hc⟩ := Option.isSome_iff_exists.mp hid
        cases hlayout : c.storageLayout with
        | some given =>
          rw [layout_eq_given hsolves hc hlayout] at hname
          obtain ⟨slot, hslot, rfl⟩ := List.mem_map.mp hname
          exact .given hc hlayout hslot
        | none =>
          rw [layout_eq_layoutWithCallees hsolves hc hlayout,
            mem_freevarsOf_layoutWithCallees] at hname
          rcases hname with hname | ⟨_, hmem, hname, howns⟩
          · exact .scope hc hlayout hname
          · obtain ⟨callee, hcallee, rfl⟩ := List.mem_map.mp hmem
            have hknown := (known_eq_none_iff hc).mpr hlayout
            have hcallees := (callees_eq hc).symm ▸ hcallee
            have hless := hrank id hknown callee hcallees
            exact .created hc hlayout hcallee (ih callee (by omega)
              (hpresent id hid hknown callee hcallees) hname) howns
    exact hgen _ id (Nat.lt_succ_self _) hid hname
  · intro hcaptures
    induction hcaptures with
    | given hc hlayout hslot =>
      rw [layout_eq_given hsolves hc hlayout]
      exact List.mem_map_of_mem hslot
    | scope hc hlayout hname =>
      rw [layout_eq_layoutWithCallees hsolves hc hlayout, mem_freevarsOf_layoutWithCallees]
      exact .inl hname
    | @created id callee c name hc hlayout hcallee _ howns ih =>
      rw [layout_eq_layoutWithCallees hsolves hc hlayout, mem_freevarsOf_layoutWithCallees]
      exact .inr ⟨layout callee, List.mem_map_of_mem hcallee, ih (hpresent id hid
        ((known_eq_none_iff hc).mpr hlayout) callee ((callees_eq hc).symm ▸ hcallee)), howns⟩

/-- Every name is at hand where the function is created: it is captured or one of the own cells. -/
theorem captured_at_hand {c callee : Callable} {name : String} {id : ℕ}
    (hc : callableById callables id = some c) (hlayout : c.storageLayout = none)
    (hcallee : callee.functionId ∈ c.calleeIds)
    (hname : HasToCapture callables callee.functionId name) :
    HasToCapture callables id name ∨
      ∃ own ∈ c.ownCellNames.map c.ownSlot, own.logicalName = name ∨
        own.storageName = c.scope.cellCaptureSourceName name := by
  cases howns : c.ownsCell c.storageLayoutFromScope name with
  | false => exact .inl (.created hc hlayout hcallee hname howns)
  | true =>
    unfold Callable.ownsCell Callable.storageLayoutFromScope at howns
    rw [cellvarsOf_build, Bool.or_eq_true, decide_eq_true_eq, decide_eq_true_eq] at howns
    rcases howns with howns | howns
    · obtain ⟨own, hown, rfl⟩ := List.mem_map.mp howns
      exact .inr ⟨own, hown, .inl rfl⟩
    · obtain ⟨own, hown, heq⟩ := List.mem_map.mp howns
      exact .inr ⟨own, hown, .inr heq⟩

/-- The names of captured cells are in their order, none twice. -/
theorem pairwise_freevarsOf_layoutWithCallees (c : Callable)
    (layouts : List (Option StorageLayout)) :
    ((freevarsOf (c.layoutWithCallees layouts)).map ClosureSlot.logicalName).Pairwise (· < ·) := by
  unfold Callable.layoutWithCallees
  dsimp only
  rw [freevarsOf_build]
  have hle := List.pairwise_insertionSort (· ≤ ·) ((freevarsOf c.storageLayoutFromScope).map
    ClosureSlot.logicalName ++ layouts.flatMap fun layout =>
      ((freevarsOf layout).map ClosureSlot.logicalName).filter fun logicalName =>
        !c.ownsCell c.storageLayoutFromScope logicalName).dedup
  exact (hle.and (nodup_sortDedup _)).imp fun h => lt_of_le_of_ne h.1 h.2

/-- Layouts of the callables of a module that capture what has to be captured. -/
structure LaysOut (callables : List Callable) (layout : ℕ → Option StorageLayout) : Prop where
  given : ∀ c ∈ callables, ∀ given, c.storageLayout = some given → layout c.functionId = some given
  computed : ∀ c ∈ callables, c.storageLayout = none →
    ∃ layouts, layout c.functionId = c.layoutWithCallees layouts
  captures : ∀ c ∈ callables, ∀ name,
    name ∈ (freevarsOf (layout c.functionId)).map ClosureSlot.logicalName ↔
      HasToCapture callables c.functionId name

/-- The callables get the same layouts in whatever order they are walked. -/
theorem ensureModuleStorageLayouts_eq (hids : (callables.map Callable.functionId).Nodup)
    (hcreated : ∀ c ∈ callables, c.storageLayout = none → ∀ id ∈ c.calleeIds,
      id ∈ callables.map Callable.functionId)
    (hrank : ∀ c ∈ callables, c.storageLayout = none → ∀ id ∈ c.calleeIds,
      rank id < rank c.functionId) :
    ∃ layout, LaysOut callables layout ∧ ∀ ids, ids.Perm (callables.map Callable.functionId) →
      ensureModuleStorageLayouts callables ids =
        some (callables.map fun c => { c with storageLayout := layout c.functionId }) := by
  have hpresent : ∀ id, (layoutEquations callables).present id ↔
      id ∈ callables.map Callable.functionId := by
    intro id
    refine ⟨fun h => ?_, fun h => ?_⟩
    · obtain ⟨c, hc⟩ := Option.isSome_iff_exists.mp h
      obtain ⟨hmem, rfl⟩ := callableById_eq_some hc
      exact List.mem_map_of_mem hmem
    · obtain ⟨c, hmem, rfl⟩ := List.mem_map.mp h
      exact Option.isSome_iff_exists.mpr ⟨c, callableById_of_mem hids hmem⟩
  -- a key without a layout is a callable, and its callees are the functions that it creates
  have hcallees : ∀ id, (layoutEquations callables).known id = none →
      ∀ callee ∈ (layoutEquations callables).callees id,
        rank callee < rank id ∧ (layoutEquations callables).present callee := by
    intro id hknown callee hcallee
    cases hc : callableById callables id with
    | none => simp [layoutEquations, hc] at hcallee
    | some c =>
      obtain ⟨hmem, rfl⟩ := callableById_eq_some hc
      have hlayout := (known_eq_none_iff hc).mp hknown
      rw [callees_eq hc] at hcallee
      exact ⟨hrank c hmem hlayout callee hcallee,
        (hpresent callee).mpr (hcreated c hmem hlayout callee hcallee)⟩
  have hranked : (layoutEquations callables).Ranked rank :=
    fun id hknown callee hcallee => (hcallees id hknown callee hcallee).1
  have hclosed : ∀ id, (layoutEquations callables).present id →
      (layoutEquations callables).known id = none →
        ∀ callee ∈ (layoutEquations callables).callees id,
          (layoutEquations callables).present callee :=
    fun id _ hknown callee hcallee => (hcallees id hknown callee hcallee).2
  obtain ⟨layout, hsolves⟩ := Equations.exists_solution hranked
  refine ⟨layout, ⟨fun c hmem given hgiven => ?_, fun c hmem hlayout => ?_, fun c hmem name => ?_⟩,
    fun ids hperm => ?_⟩
  · exact layout_eq_given hsolves (callableById_of_mem hids hmem) hgiven
  · exact ⟨_, layout_eq_layoutWithCallees hsolves (callableById_of_mem hids hmem) hlayout⟩
  · exact mem_freevarsOf_iff hranked hsolves hclosed
      ((hpresent c.functionId).mpr (List.mem_map_of_mem hmem))
  · have hks : ∀ id ∈ ids, (layoutEquations callables).present id :=
      fun id hid => (hpresent id).mpr (hperm.mem_iff.mp hid)
    obtain ⟨memo, hrun, hmemo⟩ := computeList_compute hranked hsolves
      (fun id hid => (hpresent id).mp hid) hclosed hks
    rw [List.length_map] at hrun
    unfold ensureModuleStorageLayouts
    simp only [hrun, Option.bind_eq_bind, Option.bind_some, Option.pure_def, Option.some.injEq]
    refine List.map_congr_left fun c hmem => ?_
    rw [hmemo c.functionId (hperm.mem_iff.mpr (List.mem_map_of_mem hmem))]
    cases hlayout : c.storageLayout with
    | none => rfl
    | some given =>
      rw [layout_eq_given hsolves (callableById_of_mem hids hmem) hlayout, ← hlayout,
        if_neg (by simp [hlayout])]

namespace LaysOut

variable {c : Callable} (h : LaysOut callables layout)
  (hids : (callables.map Callable.functionId).Nodup) (hmem : c ∈ callables)
  (hlayout : c.storageLayout = none)

include h hmem hlayout

theorem sorted :
    ((freevarsOf (layout c.functionId)).map ClosureSlot.logicalName).Pairwise (· < ·) := by
  obtain ⟨layouts, heq⟩ := h.computed c hmem hlayout
  rw [heq]
  exact pairwise_freevarsOf_layoutWithCallees c layouts

theorem cellvars_eq : cellvarsOf (layout c.functionId) = c.ownCellNames.map c.ownSlot := by
  obtain ⟨layouts, heq⟩ := h.computed c hmem hlayout
  rw [heq]
  exact cellvarsOf_build c _

include hids

/-- What a function captures is at hand where it is created. -/
theorem at_hand {callee : Callable} (hcalleeMem : callee ∈ callables)
    (hcallee : callee.functionId ∈ c.calleeIds) {slot : ClosureSlot}
    (hslot : slot ∈ freevarsOf (layout callee.functionId)) :
    slot.logicalName ∈ (freevarsOf (layout c.functionId)).map ClosureSlot.logicalName ∨
      ∃ own ∈ cellvarsOf (layout c.functionId), own.logicalName = slot.logicalName ∨
        own.storageName = c.scope.cellCaptureSourceName slot.logicalName := by
  rw [h.cellvars_eq hmem hlayout, h.captures c hmem]
  exact captured_at_hand (callableById_of_mem hids hmem) hlayout hcallee
    ((h.captures callee hcalleeMem _).mp (List.mem_map_of_mem hslot))

end LaysOut

/-- Whatever the order in which the callables are walked, they get the same layouts. A callable that
had none captures, in the order of their names, the cells that it has to capture, and none twice.
What a function captures is then at hand in every callable that creates it. -/
theorem ensureModuleStorageLayouts_captures (hids : (callables.map Callable.functionId).Nodup)
    (hcreated : ∀ c ∈ callables, c.storageLayout = none → ∀ id ∈ c.calleeIds,
      id ∈ callables.map Callable.functionId)
    (hrank : ∀ c ∈ callables, c.storageLayout = none → ∀ id ∈ c.calleeIds,
      rank id < rank c.functionId) :
    ∃ layout : ℕ → Option StorageLayout,
      (∀ ids, ids.Perm (callables.map Callable.functionId) →
        ensureModuleStorageLayouts callables ids =
          some (callables.map fun c => { c with storageLayout := layout c.functionId })) ∧
      ∀ c ∈ callables,
        (∀ given, c.storageLayout = some given → layout c.functionId = some given) ∧
        (c.storageLayout = none →
          ((freevarsOf (layout c.functionId)).map ClosureSlot.logicalName).Pairwise (· < ·) ∧
          (∀ name, name ∈ (freevarsOf (layout c.functionId)).map ClosureSlot.logicalName ↔
            HasToCapture callables c.functionId name) ∧
          cellvarsOf (layout c.functionId) = c.ownCellNames.map c.ownSlot ∧
          ∀ callee ∈ callables, callee.functionId ∈ c.calleeIds →
            ∀ slot ∈ freevarsOf (layout callee.functionId),
              slot.logicalName ∈ (freevarsOf (layout c.functionId)).map ClosureSlot.logicalName ∨
              ∃ own ∈ cellvarsOf (layout c.functionId), own.logicalName = slot.logicalName ∨
                own.storageName = c.scope.cellCaptureSourceName slot.logicalName) := by
  obtain ⟨layout, hlays, hrun⟩ := ensureModuleStorageLayouts_eq hids hcreated hrank
  refine ⟨layout, hrun, fun c hmem => ⟨hlays.given c hmem, fun hlayout =>
    ⟨hlays.sorted hmem hlayout, hlays.captures c hmem, hlays.cellvars_eq hmem hlayout, ?_⟩⟩⟩
  intro callee hcalleeMem hcallee slot hslot
  exact hlays.at_hand hids hmem hlayout hcalleeMem hcallee hslot

end Layouts

/-- A function with one name. -/
def oneName (name : String) (kind : BindingKind) : FunctionNames where
  bindings := AList.singleton name kind
  cellStorageNames := ∅
  onlyClass := fun _ _ h => by simp at h

/-- Blocks that create functions. -/
def creating (ids : List ℕ) : List (Block CoreBlockPyExpr CoreBlockPyExpr) :=
  let none : CoreBlockPyExpr := .load (.runtimeName "NONE")
  [⟨0, ids.map fun id => .makeFunction id .function none none, .ret none, [], Option.none⟩]

/-- A function with a variable, a function in it that does not use it, and one in this that does. -/
def nestedFunctions : List Callable :=
  [⟨2, [], creating [1], callableScopeInfo (oneName "x" (.cell .owner)), none⟩,
   ⟨1, [], creating [0], callableScopeInfo (oneName "y" .localName), none⟩,
   ⟨0, [], creating [], callableScopeInfo (oneName "x" (.cell .capture)), none⟩]

theorem ensureModuleStorageLayouts_captures_nested :
    ∃ layout : ℕ → Option StorageLayout,
      (∀ ids, ids.Perm [2, 1, 0] → ensureModuleStorageLayouts nestedFunctions ids =
        some (nestedFunctions.map fun c => { c with storageLayout := layout c.functionId })) ∧
      ∀ c ∈ nestedFunctions, ∀ name,
        name ∈ (freevarsOf (layout c.functionId)).map ClosureSlot.logicalName ↔
          HasToCapture nestedFunctions c.functionId name := by
  obtain ⟨layout, hrun, hlayout⟩ := @ensureModuleStorageLayouts_captures nestedFunctions id
    (by decide) (fun c hmem _ => (by decide :
      ∀ c ∈ nestedFunctions, ∀ id ∈ c.calleeIds,
        id ∈ nestedFunctions.map Callable.functionId) c hmem)
    (fun c hmem _ => (by decide :
      ∀ c ∈ nestedFunctions, ∀ callee ∈ c.calleeIds, id callee < id c.functionId) c hmem)
  have hnone : ∀ c ∈ nestedFunctions, c.storageLayout = none := by
    simp [nestedFunctions]
  exact ⟨layout, hrun, fun c hmem => ((hlayout c hmem).2 (hnone c hmem)).2.1⟩

end DietPython.Closures
