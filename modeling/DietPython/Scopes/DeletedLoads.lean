import DietPython.Blocks.InstrMaps
import DietPython.Scopes.Semantic

/-!
# Loads of deleted names

Name binding checks the loads of names that may be unbound: those that a statement of the callable
deletes, and local names that no statement binds. Their loads become calls of `load_deleted_name`
with the name and the value, which is the sentinel `DELETED` while the name is unbound.
-/

namespace DietPython.Scopes

open Blocks
open Generators (CallableScopeInfo BindingKind)

/-! ## Scopes -/

inductive CallableScopeKind
  | functionScope
  | classScope
  | moduleScope
  deriving DecidableEq

/-- The scope of a callable, with what is looked up before its loads are checked. -/
structure BindingScope extends CallableScopeInfo where
  scopeKind : CallableScopeKind
  localDefs : List String

namespace BindingScope

variable (scope : BindingScope)

def hasLocalDef (name : String) : Bool := decide (name ∈ scope.localDefs)

/-- `effective_binding(name, Load)` is `Local` or `Cell`, for a name that is not internal. -/
def loadsLocally (name : String) : Bool :=
  match scope.scopeKind, scope.bindingKind name with
  | .classScope, _ => false
  | _, some .localName | _, some (.cell _) => true
  | _, _ => false

def resolveCellStorageName (name : String) : Option String :=
  (scope.logicalNameForCellCaptureSource name).map scope.cellStorageName

end BindingScope

/-- `id_str` -/
def idStr : UnresolvedName → String
  | .sourceName name | .runtimeName name => name

def logicalNameForCellBoundName (scope : BindingScope) (name : UnresolvedName) : Option String :=
  if scope.isCellBinding (idStr name) then some (idStr name)
  else (scope.resolveCellStorageName (idStr name)).bind scope.logicalNameForCellStorage

/-! ## Names that may be unbound -/

def deletedSentinelExpr : CoreBlockPyExpr := .load (.runtimeName "DELETED")

def isDeletedSentinelExpr : CoreBlockPyExpr → Bool
  | .load (.runtimeName name) => name = "DELETED"
  | _ => false

def unresolvedSemanticStoreParts : CoreBlockPyExpr → Option (String × CoreBlockPyExpr)
  | .store (.sourceName name) value => if isInternalSymbol name then none else some (name, value)
  | _ => none

def unresolvedSemanticDeleteTarget : CoreBlockPyExpr → Option String
  | .del (.sourceName name) false => if isInternalSymbol name then none else some name
  | _ => none

section Names

variable (scope : BindingScope)

def storeCellDeletedLogicalName : CoreBlockPyExpr → Option String
  | .store name value =>
    if isDeletedSentinelExpr value then logicalNameForCellBoundName scope name else none
  | _ => none

def delDerefLogicalName : CoreBlockPyExpr → Option String
  | .del name quietly => if quietly then none else logicalNameForCellBoundName scope name
  | _ => none

def storeCellRuntimeLogicalName : CoreBlockPyExpr → Option String
  | .store name value =>
    if isDeletedSentinelExpr value then none else logicalNameForCellBoundName scope name
  | _ => none

/-- `collect_deleted_names_in_stmt` -/
def deletedNamesInStmt (stmt : CoreBlockPyExpr) : List String :=
  (match unresolvedSemanticStoreParts stmt with
    | some (name, value) =>
      if scope.hasLocalDef name && isDeletedSentinelExpr value then [name] else []
    | none => []) ++
  (match unresolvedSemanticDeleteTarget stmt with
    | some target => if scope.hasLocalDef target then [target] else []
    | none => []) ++
  (storeCellDeletedLogicalName scope stmt).toList ++ (delDerefLogicalName scope stmt).toList

/-- `collect_runtime_bound_local_names_in_stmt` -/
def runtimeBoundNamesInStmt (stmt : CoreBlockPyExpr) : List String :=
  (match unresolvedSemanticStoreParts stmt with
    | some (name, value) =>
      if scope.hasLocalDef name && !(isDeletedSentinelExpr value) then [name] else []
    | none => []) ++
  (storeCellRuntimeLogicalName scope stmt).toList

end Names

abbrev CoreBlock := Block CoreBlockPyExpr CoreBlockPyExpr

/-- Where a variable is kept: in a stack slot, in the cell that is in a stack slot, in a cell of the
closure, or in the globals. -/
inductive VariableLocation
  | stackSlot (slot : ℕ)
  | ownedCell (slot : ℕ)
  | closureCell (index : ℕ)
  | globalName
  deriving DecidableEq

/-- A callable whose bindings have been mapped and whose cells are made in its first block. Where
its variables are kept is decided later, and may be anything here. -/
structure BoundCallable where
  scope : BindingScope
  paramNames : List String
  localSlots : AList fun _ : String => ℕ
  blocks : List CoreBlock
  locate : String → VariableLocation

namespace BoundCallable

variable (c : BoundCallable)

def stmts : List CoreBlockPyExpr := c.blocks.flatMap Block.body

def deletedNames : List String := c.stmts.flatMap (deletedNamesInStmt c.scope)

/-- `collect_always_unbound_local_names` -/
def alwaysUnboundNames : List String :=
  c.scope.localDefs.filter fun name =>
    !(decide (name ∈ c.paramNames)) && !(isInternalSymbol name) &&
      !(decide (name ∈ c.stmts.flatMap (runtimeBoundNamesInStmt c.scope))) &&
        c.scope.loadsLocally name

/-- `ordered_slot_names_from_local_slots` -/
def stackSlots : List String :=
  (c.localSlots.entries.insertionSort fun a b => a.2 ≤ b.2).map Sigma.fst

/-- `logical_name_for_local_location`, at the slot of a name. -/
def slotLogicalName (name : String) : Option String :=
  (c.localSlots.lookup name).bind fun slot => c.stackSlots[slot]?

/-! ## Checked loads -/

/-- How a load is checked: under a name, and as a load or, if the name is never bound, with the
sentinel in the place of the load. -/
inductive LoadCheck
  | loaded (name : String)
  | sentinel (name : String)

/-- A name that is deleted or never bound. -/
def checkOf (name : String) : Option LoadCheck :=
  if name ∈ c.alwaysUnboundNames then some (.sentinel name)
  else if name ∈ c.deletedNames then some (.loaded name)
  else none

def rawLoadCheck (name : UnresolvedName) : Option LoadCheck :=
  match c.checkOf (idStr name), name with
  | some check, _ => some check
  | none, .runtimeName _ => none
  | none, .sourceName source => (c.slotLogicalName source).bind c.checkOf

/-- How the load of a name is checked, if it is: as a cell first, then under its own name, then
under the name of its slot. -/
def loadCheck (name : UnresolvedName) : Option LoadCheck :=
  match logicalNameForCellBoundName c.scope name with
  | some logicalName =>
    if logicalName ∈ c.deletedNames ∨ logicalName ∈ c.alwaysUnboundNames then
      some (.loaded logicalName)
    else c.rawLoadCheck name
  | none => c.rawLoadCheck name

/-- `wrap_deleted_name_load_expr` -/
def wrapDeletedNameLoadExpr (logicalName : String) (value : CoreBlockPyExpr) : CoreBlockPyExpr :=
  .call (.load (.runtimeName "load_deleted_name"))
    (.positional (.literal () (.stringLiteral logicalName)) (.positional value .nil)) .nil

def rewriteLoad (name : UnresolvedName) : CoreBlockPyExpr :=
  match c.loadCheck name with
  | some (.loaded logicalName) => wrapDeletedNameLoadExpr logicalName (.load name)
  | some (.sentinel logicalName) => wrapDeletedNameLoadExpr logicalName deletedSentinelExpr
  | none => .load name

end BoundCallable

/-- `with_helper_arg_mut` on the children of an instruction, each with what it is rewritten to. -/
def withHelperArg {α : Type} (children : List (α × α)) (index : ℕ) : List α :=
  children.mapIdx fun current child => if current = index then child.2 else child.1

section Rewrite

variable (c : BoundCallable)

mutual

/-- `rewrite_deleted_name_loads_in_expr` -/
def rewriteDeletedNameLoads : CoreBlockPyExpr → CoreBlockPyExpr
  | .literal may literal => .literal may literal
  | .binOp kind left right =>
    .binOp kind (rewriteDeletedNameLoads left) (rewriteDeletedNameLoads right)
  | .unaryOp kind operand => .unaryOp kind (rewriteDeletedNameLoads operand)
  | .call func args keywords =>
    .call (rewriteDeletedNameLoads func) (rewriteArgs args) (rewriteKeywords keywords)
  | .getAttr value attr => .getAttr (rewriteDeletedNameLoads value) (rewriteDeletedNameLoads attr)
  | .setAttr value attr replacement =>
    .setAttr (rewriteDeletedNameLoads value) (rewriteDeletedNameLoads attr)
      (rewriteDeletedNameLoads replacement)
  | .getItem value index =>
    .getItem (rewriteDeletedNameLoads value) (rewriteDeletedNameLoads index)
  | .setItem value index replacement =>
    .setItem (rewriteDeletedNameLoads value) (rewriteDeletedNameLoads index)
      (rewriteDeletedNameLoads replacement)
  | .delItem value index =>
    .delItem (rewriteDeletedNameLoads value) (rewriteDeletedNameLoads index)
  | .load name => c.rewriteLoad name
  | .store name value =>
    -- The argument with index 1 is asked for; the value is the only child and has index 0.
    .store name ((withHelperArg [(value, rewriteDeletedNameLoads value)] 1).headD value)
  | .del name quietly => .del name quietly
  | .makeCell initialValue => .makeCell (rewriteDeletedNameLoads initialValue)
  | .cellRefForName may logicalName => .cellRefForName may logicalName
  | .cellRef location => .cellRef location
  | .makeFunction functionId kind paramDefaults annotateFn =>
    .makeFunction functionId kind (rewriteDeletedNameLoads paramDefaults)
      (rewriteDeletedNameLoads annotateFn)
  | .yield may _ | .yieldFrom may _ => may.elim

def rewriteArgs : Args Empty Unit UnresolvedName → Args Empty Unit UnresolvedName
  | .nil => .nil
  | .positional value rest => .positional (rewriteDeletedNameLoads value) (rewriteArgs rest)
  | .starred value rest => .starred (rewriteDeletedNameLoads value) (rewriteArgs rest)

def rewriteKeywords : Keywords Empty Unit UnresolvedName → Keywords Empty Unit UnresolvedName
  | .nil => .nil
  | .named arg value rest => .named arg (rewriteDeletedNameLoads value) (rewriteKeywords rest)
  | .starred value rest => .starred (rewriteDeletedNameLoads value) (rewriteKeywords rest)

end

end Rewrite

namespace BoundCallable

variable (c : BoundCallable)

/-- What `lower_name_binding_callable` does to the instructions when it checks loads. -/
def checkLoads : CoreBlockPyExpr → CoreBlockPyExpr :=
  if c.deletedNames = [] ∧ c.alwaysUnboundNames = [] then id else rewriteDeletedNameLoads c

def lowered : List CoreBlock := c.blocks.map (Block.mapInstr c.checkLoads)

/-! ## Variables that may be unbound -/

/-- The variable that a statement deletes, quietly or not. -/
def deletedVariable : CoreBlockPyExpr → Option String
  | .store (.sourceName name) value => if isDeletedSentinelExpr value then some name else none
  | .del (.sourceName name) _ => some name
  | _ => none

/-- What the other callables of the module do to the cells of this one. -/
structure Others where
  deletes : String → Prop
  binds : String → Prop

def DeletesVariable (name : String) : Prop :=
  ∃ stmt ∈ c.stmts, ∃ target, deletedVariable stmt = some target ∧
    c.locate target = c.locate name

end BoundCallable

mutual

/-- The targets of the stores in an instruction, except for stores of the sentinel. -/
def boundTargets : CoreBlockPyExpr → List UnresolvedName
  | .literal _ _ | .load _ | .del _ _ | .cellRefForName _ _ | .cellRef _ => []
  | .binOp _ left right => boundTargets left ++ boundTargets right
  | .unaryOp _ operand => boundTargets operand
  | .call func args keywords =>
    boundTargets func ++ (boundTargetsOfArgs args ++ boundTargetsOfKeywords keywords)
  | .getAttr value attr => boundTargets value ++ boundTargets attr
  | .setAttr value attr replacement =>
    boundTargets value ++ (boundTargets attr ++ boundTargets replacement)
  | .getItem value index => boundTargets value ++ boundTargets index
  | .setItem value index replacement =>
    boundTargets value ++ (boundTargets index ++ boundTargets replacement)
  | .delItem value index => boundTargets value ++ boundTargets index
  | .store name value =>
    if isDeletedSentinelExpr value then [] else name :: boundTargets value
  | .makeCell initialValue => boundTargets initialValue
  | .makeFunction _ _ paramDefaults annotateFn =>
    boundTargets paramDefaults ++ boundTargets annotateFn
  | .yield may _ | .yieldFrom may _ => may.elim

def boundTargetsOfArgs : Args Empty Unit UnresolvedName → List UnresolvedName
  | .nil => []
  | .positional value rest | .starred value rest =>
    boundTargets value ++ boundTargetsOfArgs rest

def boundTargetsOfKeywords : Keywords Empty Unit UnresolvedName → List UnresolvedName
  | .nil => []
  | .named _ value rest | .starred value rest =>
    boundTargets value ++ boundTargetsOfKeywords rest

end

namespace BoundCallable

variable (c : BoundCallable) (others : Others)

def NeverBinds (name : String) : Prop :=
  name ∉ c.paramNames ∧ (∀ b ∈ c.blocks, name ∉ b.paramNames) ∧
    (∀ b ∈ c.blocks, ∀ e ∈ b.body ++ b.term.operand.toList,
      ∀ target, .sourceName target ∈ boundTargets e → c.locate target ≠ c.locate name) ∧
    ¬others.binds name

/-- A local or cell name that is deleted somewhere or never bound. -/
def MayBeUnbound (name : String) : Prop :=
  c.locate name ≠ .globalName ∧
    (c.DeletesVariable name ∨ others.deletes name ∨ c.NeverBinds others name)

end BoundCallable

end DietPython.Scopes
