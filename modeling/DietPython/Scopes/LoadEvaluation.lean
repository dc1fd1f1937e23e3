import DietPython.Scopes.DeletedLoads

/-!
# Evaluation with unbound names

What instructions do to the variables of a frame. A local variable that is unbound holds the
sentinel `DELETED`; a cell that is unbound holds the sentinel or is empty. A frame notes the names
that are loaded while they are unbound and for which no `UnboundLocalError` is raised.

1. `rawLoad` is the load of generated code, `guardedLoad` what a load of the source comes to.
2. `evalInstr_rewrite`: the rewritten instruction is evaluated like the instruction itself with
   guarded loads.
3. `notes_evalInstr`: evaluation only adds to the notes, and does not depend on them.
-/

namespace DietPython.Scopes

open Blocks

/-! ## Frames -/

/-- What is asked of a value as a cell. -/
inductive CellState (V : Type)
  | noCell
  | empty
  | holds (v : V)

/-- The cells, and the rest of the world. -/
structure Heap (V σ : Type) where
  cell : V → CellState V
  world : σ

structure Frame (V σ : Type) where
  stack : ℕ → V
  closure : ℕ → V
  heap : Heap V σ
  notes : List String

namespace Frame

variable {V σ : Type} (fr : Frame V σ)

def note (name : String) : Frame V σ := { fr with notes := fr.notes ++ [name] }

def unnoted : Frame V σ := { fr with notes := [] }

/-- With notes before its own. -/
def after (notes : List String) : Frame V σ := { fr with notes := notes ++ fr.notes }

theorem after_unnoted : fr.unnoted.after fr.notes = fr := by
  unfold after unnoted
  rw [List.append_nil]

theorem note_after (notes : List String) (name : String) :
    (fr.after notes).note name = (fr.note name).after notes := by
  unfold after note
  rw [List.append_assoc]

end Frame

/-! ## Runtimes -/

inductive ArgShape
  | positional
  | starred
  | named (arg : String)
  | doubleStarred

inductive Operation
  | binOp (kind : BinOpKind)
  | unaryOp (kind : UnaryOpKind)
  | call (shape : List ArgShape)
  | getAttr
  | setAttr
  | getItem
  | setItem
  | delItem
  | loadGlobal (name : String)
  | storeGlobal (name : String)
  | delGlobal (name : String) (quietly : Bool)
  | makeCell
  | cellRefForName (logicalName : String)
  | cellRef (location : CellLocation)
  | makeFunction (functionId : ℕ) (kind : FunctionKind)

/-- Everything that is not about variables. -/
structure Runtime (V σ : Type) where
  literal : BlockPyLiteral → V
  runtimeName : String → V
  abruptKind : AbruptKind → V
  none : V
  unboundLocalError : V → V
  /-- An empty cell is deleted: an `UnboundLocalError` without the name. -/
  emptyCellError : V
  /-- A null without an exception. -/
  nullError : V
  notCellError : V
  operate : Operation → List V → Heap V σ → Except V V × Heap V σ
  truth : V → Heap V σ → Except V Bool × Heap V σ
  index : V → Heap V σ → Except V ℕ × Heap V σ
  raised : Option V → Heap V σ → V × Heap V σ

namespace Runtime

variable {V σ : Type} (rt : Runtime V σ)

def deleted : V := rt.runtimeName "DELETED"

def loadDeletedName : V := rt.runtimeName "load_deleted_name"

end Runtime

/-- A computation on a frame that may raise. -/
abbrev Eval (V σ : Type) := ExceptT V (StateM (Frame V σ))

namespace Eval

variable {V σ α β : Type}

def of (f : Frame V σ → Except V α × Frame V σ) : Eval V σ α := ExceptT.mk f

def on (x : Eval V σ α) (fr : Frame V σ) : Except V α × Frame V σ := x fr

@[simp] theorem on_of (f : Frame V σ → Except V α × Frame V σ) (fr : Frame V σ) :
    (of f).on fr = f fr := rfl

@[simp] theorem on_pure (a : α) (fr : Frame V σ) :
    (pure a : Eval V σ α).on fr = (.ok a, fr) := rfl

@[simp] theorem on_throw (e : V) (fr : Frame V σ) :
    (throw e : Eval V σ α).on fr = (.error e, fr) := rfl

theorem on_bind_of_ok {x : Eval V σ α} {f : α → Eval V σ β} {fr fr' : Frame V σ} {a : α}
    (h : x.on fr = (.ok a, fr')) : (x >>= f).on fr = (f a).on fr' := by
  have h : x fr = (.ok a, fr') := h
  show (ExceptT.bind x f) fr = f a fr'
  unfold ExceptT.bind ExceptT.mk
  show (ExceptT.bindCont f (x fr).1) (x fr).2 = f a fr'
  rw [h]
  rfl

theorem on_bind_of_error {x : Eval V σ α} {f : α → Eval V σ β} {fr fr' : Frame V σ} {e : V}
    (h : x.on fr = (.error e, fr')) : (x >>= f).on fr = (.error e, fr') := by
  have h : x fr = (.error e, fr') := h
  show (ExceptT.bind x f) fr = (.error e, fr')
  unfold ExceptT.bind ExceptT.mk
  show (ExceptT.bindCont f (x fr).1) (x fr).2 = (.error e, fr')
  rw [h]
  rfl

/-- It only adds to the notes, and what it does does not depend on them. -/
def Notes (x : Eval V σ α) : Prop :=
  ∀ (fr : Frame V σ) (notes : List String),
    x.on (fr.after notes) = Prod.map id (Frame.after · notes) (x.on fr)

theorem notes_pure (a : α) : (pure a : Eval V σ α).Notes := fun _ _ => rfl

theorem notes_throw (e : V) : (throw e : Eval V σ α).Notes := fun _ _ => rfl

theorem Notes.bind {x : Eval V σ α} {f : α → Eval V σ β} (hx : x.Notes) (hf : ∀ a, (f a).Notes) :
    (x >>= f).Notes := by
  intro fr notes
  have hnotes := hx fr notes
  cases hr : x.on fr with
  | mk r fr' =>
    rw [hr] at hnotes
    cases r with
    | error e =>
      rw [on_bind_of_error hr, on_bind_of_error hnotes]
      rfl
    | ok a =>
      rw [on_bind_of_ok hr, on_bind_of_ok hnotes]
      exact hf a fr' notes

end Eval

/-! ## Variables -/

section Variables

variable {V σ : Type} [DecidableEq V] (c : BoundCallable) (rt : Runtime V σ)

def onHeap {α : Type} (f : Heap V σ → Except V α × Heap V σ) : Eval V σ α :=
  .of fun fr => ((f fr.heap).1, { fr with heap := (f fr.heap).2 })

def operate (op : Operation) (args : List V) : Eval V σ V := onHeap (rt.operate op args)

/-- A value that is loaded: the sentinel is noted, unless it is checked. -/
def loadedValue (checked : Bool) (name : String) (v : V) : Eval V σ V :=
  .of fun fr => (.ok v, if v = rt.deleted ∧ checked = false then fr.note name else fr)

/-- `load_cell_hook`: for an empty cell there is no exception to be turned into an
`UnboundLocalError`. -/
def loadCell (checked : Bool) (name : String) (cell : V) : Eval V σ V :=
  .of fun fr =>
    match fr.heap.cell cell with
    | .noCell => (.error rt.notCellError, fr)
    | .empty => (.error rt.nullError, fr.note name)
    | .holds v => (loadedValue rt checked name v).on fr

def stackValue (slot : ℕ) : Eval V σ V := .of fun fr => (.ok (fr.stack slot), fr)

def closureValue (index : ℕ) : Eval V σ V := .of fun fr => (.ok (fr.closure index), fr)

def readAt (checked : Bool) (name : String) : VariableLocation → Eval V σ V
  | .stackSlot slot => stackValue slot >>= loadedValue rt checked name
  | .ownedCell slot => stackValue slot >>= loadCell rt checked name
  | .closureCell index => closureValue index >>= loadCell rt checked name
  | .globalName => operate rt (.loadGlobal name) []

/-- The load of generated code. -/
def rawLoad (checked : Bool) : UnresolvedName → Eval V σ V
  | .sourceName name => readAt rt checked name (c.locate name)
  | .runtimeName name => pure (rt.runtimeName name)

def setStack (slot : ℕ) (v : V) : Eval V σ V :=
  .of fun fr => (.ok rt.none, { fr with stack := Function.update fr.stack slot v })

def setCell (cell : V) (state : CellState V) : Eval V σ Unit :=
  .of fun fr =>
    (.ok (), { fr with heap := { fr.heap with cell := Function.update fr.heap.cell cell state } })

def cellState (cell : V) : Eval V σ (CellState V) := .of fun fr => (.ok (fr.heap.cell cell), fr)

/-- `store_cell_hook` -/
def storeCell (v cell : V) : Eval V σ V := do
  match ← cellState cell with
  | .noCell => throw rt.notCellError
  | _ =>
    setCell cell (.holds v)
    return v

/-- `del_deref_hook` and `del_deref_quietly_hook` -/
def delCell (quietly : Bool) (cell : V) : Eval V σ V := do
  match ← cellState cell with
  | .noCell => throw rt.notCellError
  | .empty => if quietly then return rt.none else throw rt.emptyCellError
  | .holds _ =>
    setCell cell .empty
    return rt.none

/-- A new cell takes the place of the one in the slot. -/
def storeAt (name : String) (isMakeCell : Bool) (v : V) : VariableLocation → Eval V σ V
  | .stackSlot slot => setStack rt slot v
  | .ownedCell slot =>
    if isMakeCell then setStack rt slot v else stackValue slot >>= storeCell rt v
  | .closureCell index => closureValue index >>= storeCell rt v
  | .globalName => operate rt (.storeGlobal name) [v]

def delAt (name : String) (quietly : Bool) : VariableLocation → Eval V σ V
  | .stackSlot slot => setStack rt slot rt.deleted
  | .ownedCell slot => stackValue slot >>= delCell rt quietly
  | .closureCell index => closureValue index >>= delCell rt quietly
  | .globalName => operate rt (.delGlobal name quietly) []

def storeName (name : UnresolvedName) (isMakeCell : Bool) (v : V) : Eval V σ V :=
  match name with
  | .runtimeName name => operate rt (.storeGlobal name) [v]
  | .sourceName name => storeAt rt name isMakeCell v (c.locate name)

def delName (name : UnresolvedName) (quietly : Bool) : Eval V σ V :=
  match name with
  | .runtimeName name => operate rt (.delGlobal name quietly) []
  | .sourceName name => delAt rt name quietly (c.locate name)

/-- `load_deleted_name` -/
def checkDeleted (name v : V) : Eval V σ V :=
  if v = rt.deleted then throw (rt.unboundLocalError name) else pure v

/-! ### Notes -/

open Eval

omit [DecidableEq V] in
theorem notes_onHeap {α : Type} (f : Heap V σ → Except V α × Heap V σ) : (onHeap f).Notes :=
  fun _ _ => rfl

omit [DecidableEq V] in
theorem notes_operate (op : Operation) (args : List V) : (operate rt op args).Notes :=
  notes_onHeap _

theorem notes_loadedValue (checked : Bool) (name : String) (v : V) :
    (loadedValue rt checked name v).Notes := by
  intro fr notes
  unfold loadedValue
  rw [on_of, on_of]
  by_cases h : v = rt.deleted ∧ checked = false
  · rw [if_pos h, if_pos h]
    exact congrArg (Prod.mk _) (fr.note_after notes name)
  · rw [if_neg h, if_neg h]
    rfl

theorem notes_loadCell (checked : Bool) (name : String) (cell : V) :
    (loadCell rt checked name cell).Notes := by
  intro fr notes
  have hheap : (fr.after notes).heap = fr.heap := rfl
  unfold loadCell
  rw [on_of, on_of, hheap]
  cases fr.heap.cell cell with
  | noCell => rfl
  | empty => exact congrArg (Prod.mk _) (fr.note_after notes name)
  | holds v => exact notes_loadedValue rt checked name v fr notes

theorem notes_rawLoad (checked : Bool) (name : UnresolvedName) :
    (rawLoad c rt checked name).Notes := by
  cases name with
  | runtimeName name => exact notes_pure _
  | sourceName name =>
    show (readAt rt checked name (c.locate name)).Notes
    cases c.locate name with
    | stackSlot slot => exact Notes.bind (fun _ _ => rfl) (notes_loadedValue rt checked name)
    | ownedCell slot => exact Notes.bind (fun _ _ => rfl) (notes_loadCell rt checked name)
    | closureCell index => exact Notes.bind (fun _ _ => rfl) (notes_loadCell rt checked name)
    | globalName => exact notes_operate rt _ _

theorem notes_setCell (cell : V) (state : CellState V) :
    (setCell cell state : Eval V σ Unit).Notes := fun _ _ => rfl

theorem notes_storeCell (v cell : V) : (storeCell rt v cell).Notes := by
  refine Notes.bind (fun _ _ => rfl) fun state => ?_
  cases state with
  | noCell => exact notes_throw _
  | empty => exact (notes_setCell cell _).bind fun _ => notes_pure _
  | holds w => exact (notes_setCell cell _).bind fun _ => notes_pure _

theorem notes_delCell (quietly : Bool) (cell : V) : (delCell rt quietly cell).Notes := by
  refine Notes.bind (fun _ _ => rfl) fun state => ?_
  cases state with
  | noCell => exact notes_throw _
  | empty =>
    cases quietly with
    | true => exact notes_pure _
    | false => exact notes_throw _
  | holds w => exact (notes_setCell cell _).bind fun _ => notes_pure _

theorem notes_storeName (name : UnresolvedName) (isMakeCell : Bool) (v : V) :
    (storeName c rt name isMakeCell v).Notes := by
  cases name with
  | runtimeName name => exact notes_operate rt _ _
  | sourceName name =>
    show (storeAt rt name isMakeCell v (c.locate name)).Notes
    cases c.locate name with
    | stackSlot slot => exact fun _ _ => rfl
    | ownedCell slot =>
      cases isMakeCell with
      | true => exact fun _ _ => rfl
      | false => exact Notes.bind (fun _ _ => rfl) (notes_storeCell rt v)
    | closureCell index => exact Notes.bind (fun _ _ => rfl) (notes_storeCell rt v)
    | globalName => exact notes_operate rt _ _

theorem notes_delName (name : UnresolvedName) (quietly : Bool) :
    (delName c rt name quietly).Notes := by
  cases name with
  | runtimeName name => exact notes_operate rt _ _
  | sourceName name =>
    show (delAt rt name quietly (c.locate name)).Notes
    cases c.locate name with
    | stackSlot slot => exact fun _ _ => rfl
    | ownedCell slot => exact Notes.bind (fun _ _ => rfl) (notes_delCell rt quietly)
    | closureCell index => exact Notes.bind (fun _ _ => rfl) (notes_delCell rt quietly)
    | globalName => exact notes_operate rt _ _

theorem notes_checkDeleted (name v : V) : (checkDeleted rt name v).Notes := by
  unfold checkDeleted
  by_cases h : v = rt.deleted
  · rw [if_pos h]
    exact notes_throw _
  · rw [if_neg h]
    exact notes_pure _

end Variables

/-! ## Instructions -/

/-- How names are loaded: inside the value of a store or not, and checked at once or not. -/
abbrev Loads (V σ : Type) := Bool → Bool → UnresolvedName → Eval V σ V

def argShapes : Args Empty Unit UnresolvedName → List ArgShape
  | .nil => []
  | .positional _ rest => .positional :: argShapes rest
  | .starred _ rest => .starred :: argShapes rest

def keywordShapes : Keywords Empty Unit UnresolvedName → List ArgShape
  | .nil => []
  | .named arg _ rest => .named arg :: keywordShapes rest
  | .starred _ rest => .doubleStarred :: keywordShapes rest

/-- Two positional arguments and no keywords. -/
def twoPositional : List ArgShape → Bool
  | [.positional, .positional] => true
  | _ => false

def isMakeCell : CoreBlockPyExpr → Bool
  | .makeCell _ => true
  | _ => false

section Evaluation

variable {V σ : Type} [DecidableEq V] (c : BoundCallable) (rt : Runtime V σ)

/-- A call. `load_deleted_name` is known to generated code. -/
def callValue (func : V) (shape : List ArgShape) (args : List V) : Eval V σ V :=
  if func = rt.loadDeletedName ∧ twoPositional shape = true then
    match args with
    | [name, v] => checkDeleted rt name v
    | _ => operate rt (.call shape) (func :: args)
  else operate rt (.call shape) (func :: args)

variable (load : Loads V σ)

mutual

/-- The value of an instruction. The last argument of a check is loaded without a note. -/
def evalInstr (inStore checked : Bool) : CoreBlockPyExpr → Eval V σ V
  | .literal _ literal => pure (rt.literal literal)
  | .binOp kind left right => do
    let l ← evalInstr inStore false left
    let r ← evalInstr inStore false right
    operate rt (.binOp kind) [l, r]
  | .unaryOp kind operand => do
    let v ← evalInstr inStore false operand
    operate rt (.unaryOp kind) [v]
  | .call func args keywords => do
    let f ← evalInstr inStore false func
    let shape := argShapes args ++ keywordShapes keywords
    let vs ← evalArgs inStore (f = rt.loadDeletedName ∧ twoPositional shape = true) args
    let ks ← evalKeywords inStore keywords
    callValue rt f shape (vs ++ ks)
  | .getAttr value attr => do
    let v ← evalInstr inStore false value
    let a ← evalInstr inStore false attr
    operate rt .getAttr [v, a]
  | .setAttr value attr replacement => do
    let v ← evalInstr inStore false value
    let a ← evalInstr inStore false attr
    let r ← evalInstr inStore false replacement
    operate rt .setAttr [v, a, r]
  | .getItem value index => do
    let v ← evalInstr inStore false value
    let i ← evalInstr inStore false index
    operate rt .getItem [v, i]
  | .setItem value index replacement => do
    let v ← evalInstr inStore false value
    let i ← evalInstr inStore false index
    let r ← evalInstr inStore false replacement
    operate rt .setItem [v, i, r]
  | .delItem value index => do
    let v ← evalInstr inStore false value
    let i ← evalInstr inStore false index
    operate rt .delItem [v, i]
  | .load name => load inStore checked name
  | .store name value => do
    let v ← evalInstr true false value
    storeName c rt name (isMakeCell value) v
  | .del name quietly => delName c rt name quietly
  | .makeCell initialValue => do
    let v ← evalInstr inStore false initialValue
    operate rt .makeCell [v]
  | .cellRefForName _ logicalName => operate rt (.cellRefForName logicalName) []
  | .cellRef location => operate rt (.cellRef location) []
  | .makeFunction functionId kind paramDefaults annotateFn => do
    let d ← evalInstr inStore false paramDefaults
    let a ← evalInstr inStore false annotateFn
    operate rt (.makeFunction functionId kind) [d, a]
  | .yield may _ | .yieldFrom may _ => may.elim

def evalArgs (inStore checked : Bool) : Args Empty Unit UnresolvedName → Eval V σ (List V)
  | .nil => pure []
  | .positional value rest => do
    let v ← evalInstr inStore (checked && (argShapes rest).isEmpty) value
    return v :: (← evalArgs inStore checked rest)
  | .starred value rest => do
    let v ← evalInstr inStore false value
    return v :: (← evalArgs inStore checked rest)

def evalKeywords (inStore : Bool) : Keywords Empty Unit UnresolvedName → Eval V σ (List V)
  | .nil => pure []
  | .named _ value rest => do
    let v ← evalInstr inStore false value
    return v :: (← evalKeywords inStore rest)
  | .starred value rest => do
    let v ← evalInstr inStore false value
    return v :: (← evalKeywords inStore rest)

end

/-- The loads of generated code do not depend on where they are. -/
def rawLoads : Loads V σ := fun _ checked name => rawLoad c rt checked name

/-- What a load of the source comes to: no load inside the value of a store is checked. -/
def guardedLoad : Loads V σ := fun inStore checked name =>
  if inStore then rawLoad c rt checked name
  else
    match c.loadCheck name with
    | none => rawLoad c rt checked name
    | some (.sentinel logicalName) =>
      throw (rt.unboundLocalError (rt.literal (.stringLiteral logicalName)))
    | some (.loaded logicalName) => do
      let v ← rawLoad c rt true name
      checkDeleted rt (rt.literal (.stringLiteral logicalName)) v

/-! ## Rewritten instructions -/

theorem argShapes_rewrite : (args : Args Empty Unit UnresolvedName) →
    argShapes (rewriteArgs c args) = argShapes args
  | .nil => rfl
  | .positional _ rest => congrArg (ArgShape.positional :: ·) (argShapes_rewrite rest)
  | .starred _ rest => congrArg (ArgShape.starred :: ·) (argShapes_rewrite rest)

theorem keywordShapes_rewrite : (keywords : Keywords Empty Unit UnresolvedName) →
    keywordShapes (rewriteKeywords c keywords) = keywordShapes keywords
  | .nil => rfl
  | .named arg _ rest => congrArg (ArgShape.named arg :: ·) (keywordShapes_rewrite rest)
  | .starred _ rest => congrArg (ArgShape.doubleStarred :: ·) (keywordShapes_rewrite rest)

mutual

/-- Inside the value of a store nothing is rewritten. -/
theorem evalInstr_raw (inStore checked : Bool) : (e : CoreBlockPyExpr) →
    evalInstr c rt (rawLoads c rt) inStore checked e =
      evalInstr c rt (guardedLoad c rt) true checked e
  | .literal _ _ | .del _ _ | .cellRefForName _ _ | .cellRef _ | .load _ => rfl
  | .binOp _ left right => by
    simp only [evalInstr, evalInstr_raw inStore false left, evalInstr_raw inStore false right]
  | .unaryOp _ operand => by simp only [evalInstr, evalInstr_raw inStore false operand]
  | .call func args keywords => by
    simp only [evalInstr, evalInstr_raw inStore false func, evalArgs_raw inStore _ args,
      evalKeywords_raw inStore keywords]
  | .getAttr value attr => by
    simp only [evalInstr, evalInstr_raw inStore false value, evalInstr_raw inStore false attr]
  | .setAttr value attr replacement => by
    simp only [evalInstr, evalInstr_raw inStore false value, evalInstr_raw inStore false attr,
      evalInstr_raw inStore false replacement]
  | .getItem value index => by
    simp only [evalInstr, evalInstr_raw inStore false value, evalInstr_raw inStore false index]
  | .setItem value index replacement => by
    simp only [evalInstr, evalInstr_raw inStore false value, evalInstr_raw inStore false index,
      evalInstr_raw inStore false replacement]
  | .delItem value index => by
    simp only [evalInstr, evalInstr_raw inStore false value, evalInstr_raw inStore false index]
  | .store _ value => by simp only [evalInstr, evalInstr_raw true false value]
  | .makeCell initialValue => by simp only [evalInstr, evalInstr_raw inStore false initialValue]
  | .makeFunction _ _ paramDefaults annotateFn => by
    simp only [evalInstr, evalInstr_raw inStore false paramDefaults,
      evalInstr_raw inStore false annotateFn]
  | .yield may _ | .yieldFrom may _ => may.elim

theorem evalArgs_raw (inStore checked : Bool) : (args : Args Empty Unit UnresolvedName) →
    evalArgs c rt (rawLoads c rt) inStore checked args =
      evalArgs c rt (guardedLoad c rt) true checked args
  | .nil => rfl
  | .positional value rest => by
    simp only [evalArgs, evalInstr_raw inStore _ value, evalArgs_raw inStore checked rest]
  | .starred value rest => by
    simp only [evalArgs, evalInstr_raw inStore false value, evalArgs_raw inStore checked rest]

theorem evalKeywords_raw (inStore : Bool) : (keywords : Keywords Empty Unit UnresolvedName) →
    evalKeywords c rt (rawLoads c rt) inStore keywords =
      evalKeywords c rt (guardedLoad c rt) true keywords
  | .nil => rfl
  | .named _ value rest => by
    simp only [evalKeywords, evalInstr_raw inStore false value, evalKeywords_raw inStore rest]
  | .starred value rest => by
    simp only [evalKeywords, evalInstr_raw inStore false value, evalKeywords_raw inStore rest]

end

/-- A load in a check. -/
theorem evalInstr_wrap (inStore checked : Bool) (logicalName : String) (value : UnresolvedName) :
    evalInstr c rt (rawLoads c rt) inStore checked
        (BoundCallable.wrapDeletedNameLoadExpr logicalName (.load value)) =
      (do
        let v ← rawLoad c rt true value
        checkDeleted rt (rt.literal (.stringLiteral logicalName)) v) := by
  have hcheck : (rt.runtimeName "load_deleted_name" = rt.loadDeletedName ∧
      twoPositional [.positional, .positional] = true) := ⟨rfl, rfl⟩
  have hname : rawLoad c rt false (.runtimeName "load_deleted_name") =
      pure (rt.runtimeName "load_deleted_name") := rfl
  unfold BoundCallable.wrapDeletedNameLoadExpr
  simp only [evalInstr, evalArgs, evalKeywords, argShapes, keywordShapes, rawLoads, hname,
    pure_bind, List.append_nil, List.isEmpty_nil, callValue, bind_assoc, decide_eq_true hcheck,
    if_pos hcheck, Bool.true_and]

theorem evalInstr_rewriteLoad (inStore checked : Bool) (name : UnresolvedName) :
    evalInstr c rt (rawLoads c rt) inStore checked (c.rewriteLoad name) =
      guardedLoad c rt false checked name := by
  unfold BoundCallable.rewriteLoad guardedLoad
  cases hcheck : c.loadCheck name with
  | none => rfl
  | some check =>
    cases check with
    | loaded logicalName => exact evalInstr_wrap c rt inStore checked logicalName name
    | sentinel logicalName =>
      refine (evalInstr_wrap c rt inStore checked logicalName (.runtimeName "DELETED")).trans ?_
      exact if_pos rfl

mutual

/-- **The rewriting checks the loads outside of stores, and no others.** -/
theorem evalInstr_rewrite (inStore checked : Bool) : (e : CoreBlockPyExpr) →
    evalInstr c rt (rawLoads c rt) inStore checked (rewriteDeletedNameLoads c e) =
      evalInstr c rt (guardedLoad c rt) false checked e
  | .literal _ _ | .del _ _ | .cellRefForName _ _ | .cellRef _ => rfl
  | .load name => evalInstr_rewriteLoad c rt inStore checked name
  | .binOp _ left right => by
    simp only [rewriteDeletedNameLoads, evalInstr, evalInstr_rewrite inStore false left,
      evalInstr_rewrite inStore false right]
  | .unaryOp _ operand => by
    simp only [rewriteDeletedNameLoads, evalInstr, evalInstr_rewrite inStore false operand]
  | .call func args keywords => by
    simp only [rewriteDeletedNameLoads, evalInstr, argShapes_rewrite, keywordShapes_rewrite,
      evalInstr_rewrite inStore false func, evalArgs_rewrite inStore _ args,
      evalKeywords_rewrite inStore keywords]
  | .getAttr value attr => by
    simp only [rewriteDeletedNameLoads, evalInstr, evalInstr_rewrite inStore false value,
      evalInstr_rewrite inStore false attr]
  | .setAttr value attr replacement => by
    simp only [rewriteDeletedNameLoads, evalInstr, evalInstr_rewrite inStore false value,
      evalInstr_rewrite inStore false attr, evalInstr_rewrite inStore false replacement]
  | .getItem value index => by
    simp only [rewriteDeletedNameLoads, evalInstr, evalInstr_rewrite inStore false value,
      evalInstr_rewrite inStore false index]
  | .setItem value index replacement => by
    simp only [rewriteDeletedNameLoads, evalInstr, evalInstr_rewrite inStore false value,
      evalInstr_rewrite inStore false index, evalInstr_rewrite inStore false replacement]
  | .delItem value index => by
    simp only [rewriteDeletedNameLoads, evalInstr, evalInstr_rewrite inStore false value,
      evalInstr_rewrite inStore false index]
  | .store name value => by
    show evalInstr c rt (rawLoads c rt) inStore checked (.store name value) = _
    simp only [evalInstr, evalInstr_raw c rt true false value]
  | .makeCell initialValue => by
    simp only [rewriteDeletedNameLoads, evalInstr, evalInstr_rewrite inStore false initialValue]
  | .makeFunction _ _ paramDefaults annotateFn => by
    simp only [rewriteDeletedNameLoads, evalInstr, evalInstr_rewrite inStore false paramDefaults,
      evalInstr_rewrite inStore false annotateFn]
  | .yield may _ | .yieldFrom may _ => may.elim

theorem evalArgs_rewrite (inStore checked : Bool) : (args : Args Empty Unit UnresolvedName) →
    evalArgs c rt (rawLoads c rt) inStore checked (rewriteArgs c args) =
      evalArgs c rt (guardedLoad c rt) false checked args
  | .nil => rfl
  | .positional value rest => by
    simp only [rewriteArgs, evalArgs, argShapes_rewrite, evalInstr_rewrite inStore _ value,
      evalArgs_rewrite inStore checked rest]
  | .starred value rest => by
    simp only [rewriteArgs, evalArgs, evalInstr_rewrite inStore false value,
      evalArgs_rewrite inStore checked rest]

theorem evalKeywords_rewrite (inStore : Bool) :
    (keywords : Keywords Empty Unit UnresolvedName) →
      evalKeywords c rt (rawLoads c rt) inStore (rewriteKeywords c keywords) =
        evalKeywords c rt (guardedLoad c rt) false keywords
  | .nil => rfl
  | .named _ value rest => by
    simp only [rewriteKeywords, evalKeywords, evalInstr_rewrite inStore false value,
      evalKeywords_rewrite inStore rest]
  | .starred value rest => by
    simp only [rewriteKeywords, evalKeywords, evalInstr_rewrite inStore false value,
      evalKeywords_rewrite inStore rest]

end

/-! ## Notes of instructions -/

open Eval

theorem notes_callValue (func : V) (shape : List ArgShape) (args : List V) :
    (callValue rt func shape args).Notes := by
  unfold callValue
  split
  · split
    · exact notes_checkDeleted rt _ _
    · exact notes_operate rt _ _
  · exact notes_operate rt _ _

theorem notes_guardedLoad (inStore checked : Bool) (name : UnresolvedName) :
    (guardedLoad c rt inStore checked name).Notes := by
  unfold guardedLoad
  cases inStore with
  | true => exact notes_rawLoad c rt checked name
  | false =>
    cases hcheck : c.loadCheck name with
    | none => exact notes_rawLoad c rt checked name
    | some check =>
      cases check with
      | sentinel logicalName => exact notes_throw _
      | loaded logicalName =>
        exact (notes_rawLoad c rt true name).bind (notes_checkDeleted rt _)

section Notes

variable {load : Loads V σ}

mutual

theorem notes_evalInstr (hload : ∀ inStore checked name, (load inStore checked name).Notes)
    (inStore checked : Bool) : (e : CoreBlockPyExpr) →
    (evalInstr c rt load inStore checked e).Notes
  | .literal _ _ => notes_pure _
  | .binOp _ left right =>
    (notes_evalInstr hload inStore false left).bind fun _ =>
      (notes_evalInstr hload inStore false right).bind fun _ => notes_operate rt _ _
  | .unaryOp _ operand =>
    (notes_evalInstr hload inStore false operand).bind fun _ => notes_operate rt _ _
  | .call func args keywords =>
    (notes_evalInstr hload inStore false func).bind fun _ =>
      (notes_evalArgs hload inStore _ args).bind fun _ =>
        (notes_evalKeywords hload inStore keywords).bind fun _ => notes_callValue rt _ _ _
  | .getAttr value attr =>
    (notes_evalInstr hload inStore false value).bind fun _ =>
      (notes_evalInstr hload inStore false attr).bind fun _ => notes_operate rt _ _
  | .setAttr value attr replacement =>
    (notes_evalInstr hload inStore false value).bind fun _ =>
      (notes_evalInstr hload inStore false attr).bind fun _ =>
        (notes_evalInstr hload inStore false replacement).bind fun _ => notes_operate rt _ _
  | .getItem value index =>
    (notes_evalInstr hload inStore false value).bind fun _ =>
      (notes_evalInstr hload inStore false index).bind fun _ => notes_operate rt _ _
  | .setItem value index replacement =>
    (notes_evalInstr hload inStore false value).bind fun _ =>
      (notes_evalInstr hload inStore false index).bind fun _ =>
        (notes_evalInstr hload inStore false replacement).bind fun _ => notes_operate rt _ _
  | .delItem value index =>
    (notes_evalInstr hload inStore false value).bind fun _ =>
      (notes_evalInstr hload inStore false index).bind fun _ => notes_operate rt _ _
  | .load name => hload inStore checked name
  | .store name value =>
    (notes_evalInstr hload true false value).bind fun _ => notes_storeName c rt name _ _
  | .del name quietly => notes_delName c rt name quietly
  | .makeCell initialValue =>
    (notes_evalInstr hload inStore false initialValue).bind fun _ => notes_operate rt _ _
  | .cellRefForName _ _ => notes_operate rt _ _
  | .cellRef _ => notes_operate rt _ _
  | .makeFunction _ _ paramDefaults annotateFn =>
    (notes_evalInstr hload inStore false paramDefaults).bind fun _ =>
      (notes_evalInstr hload inStore false annotateFn).bind fun _ => notes_operate rt _ _
  | .yield may _ | .yieldFrom may _ => may.elim

theorem notes_evalArgs (hload : ∀ inStore checked name, (load inStore checked name).Notes)
    (inStore checked : Bool) : (args : Args Empty Unit UnresolvedName) →
    (evalArgs c rt load inStore checked args).Notes
  | .nil => notes_pure _
  | .positional value rest =>
    (notes_evalInstr hload inStore _ value).bind fun _ =>
      (notes_evalArgs hload inStore checked rest).bind fun _ => notes_pure _
  | .starred value rest =>
    (notes_evalInstr hload inStore false value).bind fun _ =>
      (notes_evalArgs hload inStore checked rest).bind fun _ => notes_pure _

theorem notes_evalKeywords (hload : ∀ inStore checked name, (load inStore checked name).Notes)
    (inStore : Bool) : (keywords : Keywords Empty Unit UnresolvedName) →
    (evalKeywords c rt load inStore keywords).Notes
  | .nil => notes_pure _
  | .named _ value rest =>
    (notes_evalInstr hload inStore false value).bind fun _ =>
      (notes_evalKeywords hload inStore rest).bind fun _ => notes_pure _
  | .starred value rest =>
    (notes_evalInstr hload inStore false value).bind fun _ =>
      (notes_evalKeywords hload inStore rest).bind fun _ => notes_pure _

end

end Notes

end Evaluation

end DietPython.Scopes
