import DietPython.Blocks.Basic
import DietPython.Lib.Assignments
import Mathlib.Data.Int.Notation
import Mathlib.Data.Nat.Basic

/-!
# Edges between compiled blocks

A block of a callable is compiled to a block of machine code with a register parameter for each of
its parameters. On an edge, values are put in the stack slots of some parameters and passed on in
the registers of the others; the target block then stores its register parameters in their slots.

The functions here are the code that is emitted for an edge, run on the values that the locals and
the slots of the source block have; `none` is code that is rejected. Reference counts are left out.
-/

namespace DietPython.Jit

open Blocks Assignments

variable {S I V : Type}

/-! ## Stack slots and locals -/

/-- The objects that an edge may pass without reading a variable. -/
structure EdgeConsts (V : Type) where
  noneConst : V
  deletedConst : V
  /-- the module constant for an integer -/
  intConstant : ℤ → V

def abruptKindTag : AbruptKind → ℤ
  | .fallthrough => 0
  | .ret => 1
  | .exception => 2
  | .break => 3
  | .continue => 4

/-- The values that emitted code has at hand: the locals, by name, that are in registers, and the
contents of the stack slots. -/
structure Frame (V : Type) where
  locals : List (String × V)
  slots : String → V

def isTryExceptionAliasName (x : String) : Bool := x.startsWith "_dp_try_exc_"

/-- `local_name_index_for_block_arg`, and the local with that index. -/
def localForBlockArg (x : String) (locals : List (String × V)) : Option V :=
  match locals.lookup x with
  | some v => some v
  | none =>
    if isTryExceptionAliasName x then
      (locals.find? fun candidate => isTryExceptionAliasName candidate.1).map Prod.snd
    else none

/-- `slot_for_block_arg_name`: the name of the slot. -/
def slotForBlockArgName (stackSlots : List String) (x : String) : Option String :=
  if x ∈ stackSlots then some x
  else if isTryExceptionAliasName x then
    stackSlots.find? fun candidate => isTryExceptionAliasName candidate
  else none

def loadStackSlotValue (stackSlots : List String) (slots : String → V) (x : String) : Option V :=
  (slotForBlockArgName stackSlots x).map slots

def replaceClonedValue (stackSlots : List String) (x : String) (value : V) (slots : String → V) :
    Option (String → V) :=
  if x ∈ stackSlots then some (Function.update slots x value) else none

/-- `bind_local_value` -/
def bindLocalValue (stackSlots : List String) (x : String) (value : V) (f : Frame V) : Frame V :=
  let locals := f.locals.eraseP fun candidate => candidate.1 = x
  if x ∈ stackSlots then ⟨locals, Function.update f.slots x value⟩
  else ⟨locals ++ [(x, value)], f.slots⟩

/-- `delete_local_value` -/
def deleteLocalValue (C : EdgeConsts V) (stackSlots : List String) (x : String) (f : Frame V) :
    Option (Frame V) :=
  let locals := f.locals.eraseP fun candidate => candidate.1 = x
  if (f.locals.lookup x).isNone ∧ x ∉ stackSlots then none
  else if x ∈ stackSlots then some ⟨locals, Function.update f.slots x C.deletedConst⟩
  else some ⟨locals, f.slots⟩

@[simp] theorem slotForBlockArgName_of_mem {stackSlots : List String} {x : String}
    (h : x ∈ stackSlots) : slotForBlockArgName stackSlots x = some x := if_pos h

/-! ## The arguments of an edge -/

/-- The value of an explicit argument of a jump. -/
def explicitArgValue (C : EdgeConsts V) (stackSlots : List String) (f : Frame V) :
    BlockArg → Option V
  | .name source =>
    match localForBlockArg source f.locals with
    | some value => some value
    | none => loadStackSlotValue stackSlots f.slots source
  | .none => some C.noneConst
  | .currentException => none
  | .abruptKind kind => some (C.intConstant (abruptKindTag kind))

/-- The explicit argument for a parameter: arguments are for the last parameters. The offset of
a name is that of its last occurrence. -/
def explicitArg (fullTargetParams : List String) (explicitArgs : List BlockArg) (x : String) :
    Option BlockArg :=
  let explicitStart := fullTargetParams.length - explicitArgs.length
  let offsets := (fullTargetParams.drop explicitStart).zipIdx
  (offsets.reverse.lookup x).bind fun offset => explicitArgs[offset]?

/-- `emit_prepare_target_args_codegen`: the register arguments. `explicit` has all parameters of
the target and the arguments of the edge. -/
def prepareTargetArgs (C : EdgeConsts V) (stackSlots : List String) (targetParams : List String)
    (explicit : Option (List String × List BlockArg)) (f : Frame V) : Option (List V) :=
  targetParams.mapM fun x =>
    match explicit.bind fun e => explicitArg e.1 e.2 x with
    | some arg => explicitArgValue C stackSlots f arg
    | none =>
      match f.locals.lookup x with
      | some value => some value
      | none => some ((loadStackSlotValue stackSlots f.slots x).getD C.noneConst)

/-- `emit_explicit_target_slot_writes_codegen`, from an argument on. -/
def writeExplicitSlots (C : EdgeConsts V) (stackSlots runtimeTargetParams : List String) :
    List String → List BlockArg → Frame V → Option (Frame V)
  | _, [], f => some f
  | [], _ :: _, _ => none
  | target :: targets, arg :: args, f =>
    if target ∈ runtimeTargetParams then
      writeExplicitSlots C stackSlots runtimeTargetParams targets args f
    else do
      let value ← explicitArgValue C stackSlots f arg
      let slots ← replaceClonedValue stackSlots target value f.slots
      writeExplicitSlots C stackSlots runtimeTargetParams targets args { f with slots := slots }

/-- `emit_explicit_target_slot_writes_codegen` -/
def explicitTargetSlotWrites (C : EdgeConsts V) (stackSlots fullTargetParams : List String)
    (runtimeTargetParams : List String) (explicitArgs : List BlockArg) (f : Frame V) :
    Option (Frame V) :=
  let explicitStart := fullTargetParams.length - explicitArgs.length
  writeExplicitSlots C stackSlots runtimeTargetParams (fullTargetParams.drop explicitStart)
    explicitArgs f

/-! ## Callables -/

/-- A callable that is compiled. The fields are what `validate_function` checks of its edges, that
the parameters of a block have different names (`ensure_param`, `set_exception_param`), and that
each has a stack slot (`ensure_storage_layout_covers_block_params`). -/
structure CodegenFunction (S I : Type) where
  blocks : List (Block S I)
  stackSlots : List String
  paramNames_nodup : ∀ b ∈ blocks, b.paramNames.Nodup
  paramNames_slots : ∀ b ∈ blocks, ∀ x ∈ b.paramNames, x ∈ stackSlots
  jump_args : ∀ b ∈ blocks, ∀ edge, b.term = .jump edge →
    ∃ target, blocks[edge.target]? = some target ∧ edge.args.length ≤ target.params.length
  branch_targets : ∀ b ∈ blocks, ∀ ls, b.term.targets? = some ls → ∀ l ∈ ls, l < blocks.length
  exc_args : ∀ b ∈ blocks, ∀ edge, b.excEdge = some edge →
    ∃ target, blocks[edge.target]? = some target ∧ edge.args.length = target.params.length

/-- A control edge that a block may leave by. -/
inductive ControlEdge
  | jump (edge : BlockEdge)
  | branch (label : BlockLabel)
  | exception (edge : BlockEdge)

def controlEdges (b : Block S I) : List ControlEdge :=
  (match b.term with
  | .jump edge => [.jump edge]
  | .ifTerm _ thenLabel elseLabel => [.branch thenLabel, .branch elseLabel]
  | .branchTable _ targets defaultLabel =>
    targets.map ControlEdge.branch ++ [.branch defaultLabel]
  | .raiseTerm _ | .ret _ => []) ++ b.excEdge.toList.map ControlEdge.exception

namespace ControlEdge

def target : ControlEdge → BlockLabel
  | jump edge | exception edge => edge.target
  | branch label => label

def args : ControlEdge → List BlockArg
  | jump edge | exception edge => edge.args
  | branch _ => []

end ControlEdge

/-! ## Leaving and entering a block -/

section Edges

variable (F : CodegenFunction S I) (C : EdgeConsts V)

/-- The stores at the start of a block, one register parameter after another. -/
def storeParams (stackSlots : List String) : List (String × V) → (String → V) →
    Option (String → V)
  | [], slots => some slots
  | (x, value) :: rest, slots =>
    (replaceClonedValue stackSlots x value slots).bind (storeParams stackSlots rest)

/-- A jump with register arguments to the code of a block. A jump with another number of arguments
than the block has register parameters is not valid. A block starts without locals. -/
def enterBlock (target : Block S I) (jumpArgs : List V) (slots : String → V) : Option (Frame V) :=
  let runtimeParams := target.bbParamNames
  if jumpArgs.length = runtimeParams.length then
    (storeParams F.stackSlots (runtimeParams.zip jumpArgs) slots).map fun slots => ⟨[], slots⟩
  else none

/-- The edge of `BlockTerm::Jump`. -/
def takeJump (edge : BlockEdge) (f : Frame V) : Option (Frame V) := do
  let target ← F.blocks[edge.target]?
  let f ← explicitTargetSlotWrites C F.stackSlots target.paramNames target.bbParamNames edge.args f
  let jumpArgs ← prepareTargetArgs C F.stackSlots target.bbParamNames
    (some (target.paramNames, edge.args)) f
  enterBlock F target jumpArgs f.slots

/-- An edge of `BlockTerm::IfTerm` or `BlockTerm::BranchTable`. -/
def takeBranch (label : BlockLabel) (f : Frame V) : Option (Frame V) := do
  let target ← F.blocks[label]?
  let jumpArgs ← prepareTargetArgs C F.stackSlots target.bbParamNames none f
  enterBlock F target jumpArgs f.slots

/-- `BlockExcDispatchPlan` -/
structure BlockExcDispatchPlan where
  targetIndex : ℕ
  slotWrites : List (String × BlockArg)

/-- `exc_dispatch_plan`, for the exception edge of a block. -/
def excDispatchPlan (edge : BlockEdge) : Option BlockExcDispatchPlan := do
  let targetBlock ← F.blocks[edge.target]?
  let slotWrites := (targetBlock.paramNames.zip edge.args).filter fun write =>
    !(decide (write.1 ∈ targetBlock.bbParamNames) || !decide (write.1 ∈ F.stackSlots))
  return ⟨edge.target, slotWrites⟩

/-- `emit_exception_dispatch_slot_writes` -/
def exceptionDispatchSlotWrites (dispatchExc : V) : List (String × BlockArg) → (String → V) →
    Option (String → V)
  | [], slots => some slots
  | (target, source) :: rest, slots => do
    let value ← match source with
      | .name sourceName => loadStackSlotValue F.stackSlots slots sourceName
      | .currentException => some dispatchExc
      | .none => some C.noneConst
      | .abruptKind _ => none
    let slots ← replaceClonedValue F.stackSlots target value slots
    exceptionDispatchSlotWrites dispatchExc rest slots

/-- The arguments that an exception dispatch jumps with. -/
def dispatchJumpArgs (targetRuntimeParams : List String) (dispatchExc : V) : List V :=
  if targetRuntimeParams.isEmpty then [] else [dispatchExc]

/-- An exception dispatch block: the edge that is taken for an exception. -/
def dispatchException (edge : BlockEdge) (dispatchExc : V) (f : Frame V) : Option (Frame V) := do
  let plan ← excDispatchPlan F edge
  let slots ← exceptionDispatchSlotWrites F C dispatchExc plan.slotWrites f.slots
  let target ← F.blocks[plan.targetIndex]?
  enterBlock F target (dispatchJumpArgs target.bbParamNames dispatchExc) slots

/-- What happens on an edge; `exc` is the exception that an exception edge is taken for. -/
def takeEdge (exc : V) (f : Frame V) : ControlEdge → Option (Frame V)
  | .jump edge => takeJump F C edge f
  | .branch label => takeBranch F C label f
  | .exception edge => dispatchException F C edge exc f

/-! ## The body of a block -/

/-- What the instructions of a block do to its variables: they store values, of whatever
expressions, and delete names. -/
inductive LocalOp (V : Type)
  | store (x : String) (value : V)
  | delete (x : String)

def LocalOp.name : LocalOp V → String
  | store x _ | delete x => x

def runLocalOps : List (LocalOp V) → Frame V → Option (Frame V)
  | [], f => some f
  | .store x value :: ops, f => runLocalOps ops (bindLocalValue F.stackSlots x value f)
  | .delete x :: ops, f => (deleteLocalValue C F.stackSlots x f).bind (runLocalOps ops)

/-- The frames in a block: it was entered without locals, and its instructions store and delete
variables that have a slot. -/
def InBlock (f : Frame V) : Prop :=
  ∃ slots ops, (∀ op ∈ ops, LocalOp.name op ∈ F.stackSlots) ∧
    runLocalOps F C ops ⟨[], slots⟩ = some f

/-! ## What an edge is for -/

/-- The arguments of an edge for the parameters of its target, in their order: a parameter without
an argument takes the variable of its name. -/
def boundArgs (params : List String) (args : List BlockArg) : List BlockArg :=
  (params.take (params.length - args.length)).map BlockArg.name ++ args

/-- The value of an argument. There is a current exception on exception edges only. -/
def argument (f : Frame V) (currentException : Option V) : BlockArg → Option V
  | .name x =>
    match localForBlockArg x f.locals with
    | some value => some value
    | none => loadStackSlotValue F.stackSlots f.slots x
  | .none => some C.noneConst
  | .currentException => currentException
  | .abruptKind kind => some (C.intConstant (abruptKindTag kind))

namespace ControlEdge

/-- The current exception on an edge. -/
def current (exc : V) : ControlEdge → Option V
  | exception _ => some exc
  | jump _ | branch _ => none

end ControlEdge

/-- Entering the target is one simultaneous assignment to its parameters of the values that their
arguments had before. -/
structure Enters (target : Block S I) (e : ControlEdge) (exc : V) (before after : Frame V)
    (values : List V) : Prop where
  arguments : (boundArgs target.paramNames e.args).map (argument F C before (e.current exc)) =
    values.map some
  assigned : Simultaneous (target.paramNames.zip values) before.slots after.slots

/-- What is claimed of an edge. -/
def EdgeAssigns (e : ControlEdge) : Prop :=
  ∀ (exc : V) (before : Frame V), InBlock F C before →
    ∃ target after values, F.blocks[e.target]? = some target ∧
      takeEdge F C exc before e = some after ∧ Enters F C target e exc before after values ∧
      -- the exception is passed on, as the value of the exception parameter
      (∀ edge, e = .exception edge →
        (dispatchJumpArgs target.bbParamNames exc).length = target.bbParamNames.length ∧
        ∀ param ∈ target.params, param.role = .exception → after.slots param.name = exc)

end Edges

/-! ## Arguments by name -/

section Arguments

variable {names : List String}

/-- Offsets by name: that of a name is its place. -/
theorem lookup_offset (hnodup : names.Nodup) {x : String} {i : ℕ} :
    names.zipIdx.reverse.lookup x = some i ↔ names[i]? = some x := by
  have hkeys : (names.zipIdx.reverse.map Prod.fst).Nodup := by
    rw [List.map_reverse, List.nodup_reverse, List.zipIdx_map_fst]
    exact hnodup
  rw [lookup_eq_some hkeys, List.mem_reverse, List.mk_mem_zipIdx_iff_getElem?]

/-- The arguments by position are the arguments by name. -/
theorem boundArgs_eq_map (hnodup : names.Nodup) {args : List BlockArg}
    (hlen : args.length ≤ names.length) :
    boundArgs names args = names.map fun x => (explicitArg names args x).getD (.name x) := by
  obtain ⟨before, last, rfl, hlast⟩ : ∃ before last, names = before ++ last ∧
      last.length = args.length :=
    ⟨names.take (names.length - args.length), names.drop (names.length - args.length),
      (List.take_append_drop _ _).symm, by rw [List.length_drop]; omega⟩
  have hstart : (before ++ last).length - args.length = before.length := by
    rw [List.length_append]
    omega
  obtain ⟨-, hnodup', hdisjoint⟩ := List.nodup_append.mp hnodup
  have harg : ∀ x, explicitArg (before ++ last) args x =
      (last.zipIdx.reverse.lookup x).bind fun offset => args[offset]? := by
    intro x
    have hdrop : (before ++ last).drop ((before ++ last).length - args.length) = last := by
      rw [hstart, List.drop_left]
    show ((List.drop _ _).zipIdx.reverse.lookup x).bind _ = _
    rw [hdrop]
  unfold boundArgs
  rw [hstart, List.take_left, List.map_append]
  congr 1
  · refine List.map_congr_left fun x hx => ?_
    have hnone : last.zipIdx.reverse.lookup x = none := by
      rw [Option.eq_none_iff_forall_not_mem]
      intro i hi
      have hmem := List.mem_of_getElem? ((lookup_offset hnodup').mp hi)
      exact hdisjoint x hx x hmem rfl
    rw [harg, hnone]
    rfl
  · refine List.ext_getElem? fun i => ?_
    rw [List.getElem?_map]
    cases hi : last[i]? with
    | none =>
      rw [List.getElem?_eq_none_iff] at hi
      exact List.getElem?_eq_none (hlast ▸ hi)
    | some x =>
      have hlt : i < args.length := hlast ▸ (List.getElem?_eq_some_iff.mp hi).1
      rw [Option.map_some, harg, (lookup_offset hnodup').mpr hi, Option.bind_some,
        List.getElem?_eq_getElem hlt]
      rfl

end Arguments

/-! ## Storing the parameters -/

section Entering

variable {F : CodegenFunction S I} {C : EdgeConsts V}

theorem storeParams_eq {stackSlots : List String} {l : List (String × V)}
    (h : ∀ a ∈ l, a.1 ∈ stackSlots) (slots : String → V) :
    storeParams stackSlots l slots = some (storeAll l slots) := by
  induction l generalizing slots with
  | nil => rfl
  | cons a l ih =>
    have ha : replaceClonedValue stackSlots a.1 a.2 slots =
        some (Function.update slots a.1 a.2) := if_pos (h a List.mem_cons_self)
    show (replaceClonedValue stackSlots a.1 a.2 slots).bind _ = _
    rw [ha, Option.bind_some, storeAll_cons]
    exact ih (fun a' ha' => h a' (List.mem_cons_of_mem _ ha')) _

theorem mem_of_getElem?_blocks {l : BlockLabel} {target : Block S I}
    (h : F.blocks[l]? = some target) : target ∈ F.blocks := List.mem_of_getElem? h

/-- The register parameters are the parameters, in another order. -/
theorem bbParamNames_perm (b : Block S I) : b.bbParamNames.Perm b.paramNames :=
  b.bbParams_perm.map BlockParam.name

/-- Entering a block with one value for each register parameter. -/
theorem enterBlock_eq {target : Block S I} (htarget : target ∈ F.blocks) (value : String → V)
    (slots : String → V) :
    ∃ after, enterBlock F target (target.bbParamNames.map value) slots = some after ∧
      Simultaneous (target.paramNames.zip (target.paramNames.map value)) slots after.slots := by
  have hperm := bbParamNames_perm target
  have hkeys : ∀ xs : List String, (xs.zip (xs.map value)).map Prod.fst = xs := fun xs =>
    List.map_fst_zip (Nat.le_of_eq (List.length_map _).symm)
  have hslots : ∀ a ∈ target.bbParamNames.zip (target.bbParamNames.map value),
      a.1 ∈ F.stackSlots := by
    intro a ha
    refine F.paramNames_slots target htarget a.1 (hperm.mem_iff.mp ?_)
    rw [← hkeys target.bbParamNames]
    exact List.mem_map_of_mem ha
  have hnodup : ((target.bbParamNames.zip (target.bbParamNames.map value)).map Prod.fst).Nodup := by
    rw [hkeys]
    exact hperm.nodup_iff.mpr (F.paramNames_nodup target htarget)
  refine ⟨⟨[], storeAll _ slots⟩, ?_, (storeAll_simultaneous _ slots hnodup).of_perm ?_⟩
  · show (if _ then _ else _) = _
    rw [if_pos (List.length_map _), storeParams_eq hslots]
    rfl
  · rw [← List.map_prod_left_eq_zip, ← List.map_prod_left_eq_zip]
    exact hperm.map _

/-- A jump with another number of values is not valid. -/
theorem enterBlock_eq_none {target : Block S I} {jumpArgs : List V}
    (h : jumpArgs.length ≠ target.params.length) (slots : String → V) :
    enterBlock F target jumpArgs slots = none := by
  have hlen : target.bbParamNames.length = target.params.length := by
    rw [(bbParamNames_perm target).length_eq]
    exact List.length_map _
  exact if_neg (by rwa [hlen])

end Entering

/-! ## The body -/

section Body

variable {F : CodegenFunction S I} {C : EdgeConsts V}

theorem runLocalOps_locals {ops : List (LocalOp V)} {f f' : Frame V}
    (hnames : ∀ op ∈ ops, op.name ∈ F.stackSlots) (hlocals : f.locals = [])
    (h : runLocalOps F C ops f = some f') : f'.locals = [] := by
  induction ops generalizing f with
  | nil =>
    obtain rfl := Option.some.inj h
    exact hlocals
  | cons op ops ih =>
    have hrest : ∀ op ∈ ops, op.name ∈ F.stackSlots := fun op' hop' =>
      hnames op' (List.mem_cons_of_mem _ hop')
    cases op with
    | store x value =>
      have hx : x ∈ F.stackSlots := hnames _ List.mem_cons_self
      refine ih hrest ?_ h
      unfold bindLocalValue
      rw [hlocals, if_pos hx]
      rfl
    | delete x =>
      have hx : x ∈ F.stackSlots := hnames _ List.mem_cons_self
      obtain ⟨f₁, hdelete, hrun⟩ := Option.bind_eq_some_iff.mp h
      refine ih hrest ?_ hrun
      unfold deleteLocalValue at hdelete
      rw [hlocals, if_neg fun hnot => hnot.2 hx, if_pos hx] at hdelete
      obtain rfl := Option.some.inj hdelete
      rfl

theorem InBlock.locals_eq {f : Frame V} (h : InBlock F C f) : f.locals = [] := by
  obtain ⟨slots, ops, hnames, hrun⟩ := h
  exact runLocalOps_locals hnames rfl hrun

theorem inBlock_entry (slots : String → V) : InBlock F C ⟨[], slots⟩ :=
  ⟨slots, [], fun _ hop => absurd hop List.not_mem_nil, rfl⟩

end Body

/-! ## Jumps and branches -/

section Jumps

variable {F : CodegenFunction S I} {C : EdgeConsts V} {f : Frame V}

theorem argument_name (hlocals : f.locals = []) (exc : Option V) (x : String) :
    argument F C f exc (.name x) = loadStackSlotValue F.stackSlots f.slots x := by
  show (match localForBlockArg x f.locals with | some value => some value | none => _) = _
  rw [hlocals]
  unfold localForBlockArg
  by_cases h : isTryExceptionAliasName x
  · simp [h]
  · simp [h]

/-- The arguments that a jump can pass: no current exception, and names of variables only. -/
def Passable (F : CodegenFunction S I) : BlockArg → Prop
  | .name x => (slotForBlockArgName F.stackSlots x).isSome
  | .currentException => False
  | .none | .abruptKind _ => True

theorem argument_isSome (hlocals : f.locals = []) (arg : BlockArg) :
    (argument F C f none arg).isSome ↔ Passable F arg := by
  cases arg with
  | name x =>
    rw [argument_name hlocals]
    unfold loadStackSlotValue
    rw [Option.isSome_map]
    exact Iff.rfl
  | none => exact ⟨fun _ => trivial, fun _ => rfl⟩
  | currentException => exact ⟨fun h => absurd h Bool.false_ne_true, fun h => h.elim⟩
  | abruptKind kind => exact ⟨fun _ => trivial, fun _ => rfl⟩

theorem passable_param {target : Block S I} (htarget : target ∈ F.blocks) {x : String}
    (hx : x ∈ target.paramNames) : Passable F (.name x) := by
  show (slotForBlockArgName F.stackSlots x).isSome
  rw [slotForBlockArgName_of_mem (F.paramNames_slots target htarget x hx)]
  rfl

/-- No argument is written to a slot: all parameters are register parameters. -/
theorem writeExplicitSlots_eq {stackSlots runtimeParams targets : List String}
    (hruntime : ∀ x ∈ targets, x ∈ runtimeParams) {args : List BlockArg}
    (hlen : args.length ≤ targets.length) (f : Frame V) :
    writeExplicitSlots C stackSlots runtimeParams targets args f = some f := by
  induction targets generalizing args with
  | nil =>
    obtain rfl := List.eq_nil_of_length_eq_zero (Nat.le_zero.mp hlen)
    rfl
  | cons target targets ih =>
    cases args with
    | nil => rfl
    | cons arg args =>
      rw [writeExplicitSlots, if_pos (hruntime target List.mem_cons_self)]
      exact ih (fun x hx => hruntime x (List.mem_cons_of_mem _ hx)) (Nat.le_of_succ_le_succ hlen)

theorem explicitTargetSlotWrites_eq (target : Block S I) {args : List BlockArg}
    (hlen : args.length ≤ target.params.length) (f : Frame V) :
    explicitTargetSlotWrites C F.stackSlots target.paramNames target.bbParamNames args f =
      some f := by
  have hparams : target.paramNames.length = target.params.length := List.length_map _
  refine writeExplicitSlots_eq (fun x hx => ?_) ?_ f
  · exact (bbParamNames_perm target).mem_iff.mpr (List.mem_of_mem_drop hx)
  · rw [List.length_drop, hparams]
    omega

theorem mapM_eq_some_map {α β : Type} {g : α → Option β} {value : α → β} {l : List α}
    (h : ∀ x ∈ l, g x = some (value x)) : l.mapM g = some (l.map value) := by
  induction l with
  | nil => rfl
  | cons x l ih =>
    rw [List.mapM_cons, h x List.mem_cons_self, ih fun x' hx' => h x' (List.mem_cons_of_mem _ hx')]
    rfl

/-- Each register parameter is passed the value of the argument with its name. -/
theorem prepareTargetArgs_eq (hlocals : f.locals = []) {params : List String}
    (hslots : ∀ x ∈ params, x ∈ F.stackSlots)
    (explicit : Option (List String × List BlockArg)) {value : String → V}
    (hvalue : ∀ x ∈ params, argument F C f none
      ((explicit.bind fun e => explicitArg e.1 e.2 x).getD (.name x)) = some (value x)) :
    prepareTargetArgs C F.stackSlots params explicit f = some (params.map value) := by
  refine mapM_eq_some_map fun x hx => ?_
  rw [← hvalue x hx]
  cases explicit.bind fun e => explicitArg e.1 e.2 x with
  | some arg => cases arg <;> rfl
  | none =>
    rw [Option.getD_none, argument_name hlocals, hlocals]
    unfold loadStackSlotValue
    rw [slotForBlockArgName_of_mem (hslots x hx)]
    rfl

/-- Without arguments, parameters take the variables of their names. -/
theorem explicitArg_nil (names : List String) (x : String) : explicitArg names [] x = none :=
  Option.bind_eq_none_iff.mpr fun _ _ => rfl

/-- A jump or branch to a block whose arguments can all be passed. -/
theorem enters_of_passable {target : Block S I} (htarget : target ∈ F.blocks)
    (hlocals : f.locals = []) {args : List BlockArg} (hlen : args.length ≤ target.params.length)
    (hargs : ∀ arg ∈ args, Passable F arg) :
    ∃ value after, (boundArgs target.paramNames args).map (argument F C f none) =
        (target.paramNames.map value).map some ∧
      (∀ x ∈ target.bbParamNames, argument F C f none
        ((explicitArg target.paramNames args x).getD (.name x)) = some (value x)) ∧
      enterBlock F target (target.bbParamNames.map value) f.slots = some after ∧
      Simultaneous (target.paramNames.zip (target.paramNames.map value)) f.slots after.slots := by
  have hparams : target.paramNames.length = target.params.length := List.length_map _
  have hbound : boundArgs target.paramNames args =
      target.paramNames.map fun x => (explicitArg target.paramNames args x).getD (.name x) :=
    boundArgs_eq_map (F.paramNames_nodup target htarget) (by omega)
  have hsome : ∀ x ∈ target.paramNames, (argument F C f none
      ((explicitArg target.paramNames args x).getD (.name x))).isSome := by
    intro x hx
    rw [argument_isSome hlocals]
    have hmem : (explicitArg target.paramNames args x).getD (.name x) ∈
        boundArgs target.paramNames args := by
      rw [hbound]
      exact List.mem_map_of_mem hx
    rcases List.mem_append.mp hmem with himplicit | hexplicit
    · obtain ⟨x', hx', heq⟩ := List.mem_map.mp himplicit
      rw [← heq]
      exact passable_param htarget (List.mem_of_mem_take hx')
    · exact hargs _ hexplicit
  let value := fun x =>
    (argument F C f none ((explicitArg target.paramNames args x).getD (.name x))).getD C.noneConst
  have hvalue : ∀ x ∈ target.paramNames, argument F C f none
      ((explicitArg target.paramNames args x).getD (.name x)) = some (value x) := by
    intro x hx
    obtain ⟨v, hv⟩ := Option.isSome_iff_exists.mp (hsome x hx)
    show _ = some ((argument F C f none _).getD C.noneConst)
    rw [hv]
    rfl
  obtain ⟨after, henter, hassigned⟩ := enterBlock_eq htarget value f.slots
  refine ⟨value, after, ?_, fun x hx => ?_, henter, hassigned⟩
  · rw [hbound, List.map_map, List.map_map]
    exact List.map_congr_left hvalue
  · exact hvalue x ((bbParamNames_perm target).mem_iff.mp hx)

/-- The edges on which entering the target is the assignment that is claimed. -/
def EdgeFits (F : CodegenFunction S I) : ControlEdge → Prop
  | .jump edge => ∀ arg ∈ edge.args, Passable F arg
  | .branch _ => True
  | .exception edge => edge.args = [] ∨ edge.args = [.currentException]

theorem takeJump_eq {b : Block S I} (hb : b ∈ F.blocks) {edge : BlockEdge}
    (hterm : b.term = .jump edge) (hargs : ∀ arg ∈ edge.args, Passable F arg) :
    EdgeAssigns F C (.jump edge) := by
  intro exc before hbefore
  obtain ⟨target, htarget, hlen⟩ := F.jump_args b hb edge hterm
  have hmem := mem_of_getElem?_blocks htarget
  have hlocals := hbefore.locals_eq
  obtain ⟨value, after, harguments, hvalue, henter, hassigned⟩ :=
    enters_of_passable (C := C) hmem hlocals hlen hargs
  have hslots : ∀ x ∈ target.bbParamNames, x ∈ F.stackSlots := fun x hx =>
    F.paramNames_slots target hmem x ((bbParamNames_perm target).mem_iff.mp hx)
  refine ⟨target, after, target.paramNames.map value, htarget, ?_, ⟨harguments, hassigned⟩,
    fun edge' heq => by cases heq⟩
  show takeJump F C edge before = some after
  unfold takeJump
  rw [htarget, Option.bind_eq_bind, Option.bind_some, explicitTargetSlotWrites_eq target hlen,
    Option.bind_eq_bind, Option.bind_some,
    prepareTargetArgs_eq hlocals hslots (some (target.paramNames, edge.args)) hvalue,
    Option.bind_eq_bind, Option.bind_some, henter]

theorem jump_iff [Nonempty V] {b : Block S I} (hb : b ∈ F.blocks) {edge : BlockEdge}
    (hterm : b.term = .jump edge) :
    EdgeAssigns F C (.jump edge) ↔ EdgeFits F (.jump edge) := by
  refine ⟨fun h arg harg => ?_, takeJump_eq hb hterm⟩
  obtain ⟨v⟩ := ‹Nonempty V›
  obtain ⟨target, after, values, -, -, henters, -⟩ := h v ⟨[], fun _ => v⟩ (inBlock_entry _)
  -- the argument is among those that have values
  have hmem : argument F C ⟨[], fun _ => v⟩ none arg ∈ values.map some := by
    rw [← henters.arguments]
    exact List.mem_map_of_mem (List.mem_append_right _ harg)
  obtain ⟨value, -, hvalue⟩ := List.mem_map.mp hmem
  refine (argument_isSome (C := C) (f := ⟨[], fun _ => v⟩) rfl arg).mp ?_
  rw [← hvalue]
  rfl

theorem takeBranch_eq {label : BlockLabel} (hlabel : label < F.blocks.length) :
    EdgeAssigns F C (.branch label) := by
  intro exc before hbefore
  have htarget := List.getElem?_eq_getElem hlabel
  generalize F.blocks[label] = target at htarget
  have hmem := mem_of_getElem?_blocks htarget
  have hlocals := hbefore.locals_eq
  have hlen : ([] : List BlockArg).length ≤ target.params.length := Nat.zero_le _
  obtain ⟨value, after, harguments, hvalue, henter, hassigned⟩ :=
    enters_of_passable (C := C) hmem hlocals hlen fun arg harg => absurd harg List.not_mem_nil
  have hslots : ∀ x ∈ target.bbParamNames, x ∈ F.stackSlots := fun x hx =>
    F.paramNames_slots target hmem x ((bbParamNames_perm target).mem_iff.mp hx)
  have hnames : ∀ x ∈ target.bbParamNames, argument F C before none
      (((none : Option (List String × List BlockArg)).bind fun e =>
        explicitArg e.1 e.2 x).getD (.name x)) = some (value x) := by
    intro x hx
    rw [← hvalue x hx, explicitArg_nil]
    rfl
  refine ⟨target, after, target.paramNames.map value, htarget, ?_, ⟨harguments, hassigned⟩,
    fun edge' heq => by cases heq⟩
  show takeBranch F C label before = some after
  unfold takeBranch
  rw [htarget, Option.bind_eq_bind, Option.bind_some,
    prepareTargetArgs_eq hlocals hslots none hnames, Option.bind_eq_bind, Option.bind_some, henter]

end Jumps

/-! ## Exception dispatch -/

section Exceptions

variable {F : CodegenFunction S I} {C : EdgeConsts V}

/-- No argument is written to a slot here either, so that a dispatch jumps with the exception, or
with nothing. -/
theorem dispatchException_eq {edge : BlockEdge} {target : Block S I}
    (htarget : F.blocks[edge.target]? = some target) (exc : V) (f : Frame V) :
    dispatchException F C edge exc f =
      enterBlock F target (dispatchJumpArgs target.bbParamNames exc) f.slots := by
  have hwrites : ((target.paramNames.zip edge.args).filter fun write =>
      !(decide (write.1 ∈ target.bbParamNames) || !decide (write.1 ∈ F.stackSlots))) = [] := by
    rw [List.filter_eq_nil_iff]
    intro write hwrite
    have hmem : write.1 ∈ target.bbParamNames :=
      (bbParamNames_perm target).mem_iff.mpr (List.of_mem_zip hwrite).1
    simp [hmem]
  have hplan : excDispatchPlan F edge = some ⟨edge.target, []⟩ := by
    unfold excDispatchPlan
    rw [htarget, Option.bind_eq_bind, Option.bind_some, hwrites]
    rfl
  unfold dispatchException
  rw [hplan, Option.bind_eq_bind, Option.bind_some]
  show (F.blocks[edge.target]?).bind _ = _
  rw [htarget, Option.bind_some]

/-- Each parameter has an argument. -/
theorem boundArgs_of_length {names : List String} {args : List BlockArg}
    (h : args.length = names.length) : boundArgs names args = args := by
  unfold boundArgs
  rw [h, Nat.sub_self, List.take_zero]
  rfl

/-- A dispatch to a block with one parameter gives it the exception. -/
theorem dispatchException_single {edge : BlockEdge} {target : Block S I} {param : BlockParam}
    (htarget : F.blocks[edge.target]? = some target) (hparams : target.params = [param]) (exc : V)
    (f : Frame V) :
    ∃ after, dispatchException F C edge exc f = some after ∧
      Simultaneous [(param.name, exc)] f.slots after.slots := by
  have hnames : target.paramNames = [param.name] := congrArg (List.map BlockParam.name) hparams
  have hbb : target.bbParamNames = [param.name] :=
    List.perm_singleton.mp (hnames ▸ bbParamNames_perm target)
  obtain ⟨after, henter, hassigned⟩ :=
    enterBlock_eq (mem_of_getElem?_blocks htarget) (fun _ => exc) f.slots
  rw [hnames] at hassigned
  refine ⟨after, ?_, hassigned⟩
  rw [dispatchException_eq htarget, ← henter, hbb]
  rfl

/-- A dispatch to a block without parameters drops the exception. -/
theorem dispatchException_none {edge : BlockEdge} {target : Block S I}
    (htarget : F.blocks[edge.target]? = some target) (hparams : target.params = []) (exc : V)
    (f : Frame V) : dispatchException F C edge exc f = some ⟨[], f.slots⟩ := by
  have hnames : target.paramNames = [] := congrArg (List.map BlockParam.name) hparams
  have hbb : target.bbParamNames = [] := List.perm_nil.mp (hnames ▸ bbParamNames_perm target)
  rw [dispatchException_eq htarget]
  unfold enterBlock
  rw [hbb]
  rfl

theorem exception_fits {b : Block S I} (hb : b ∈ F.blocks) {edge : BlockEdge}
    (hedge : b.excEdge = some edge) (hargs : edge.args = [] ∨ edge.args = [.currentException]) :
    EdgeAssigns F C (.exception edge) := by
  intro exc before _
  obtain ⟨target, htarget, hlen⟩ := F.exc_args b hb edge hedge
  rcases hargs with hargs | hargs
  · have hparams : target.params = [] := List.length_eq_zero_iff.mp (by rw [← hlen, hargs]; rfl)
    have hnames : target.paramNames = [] := congrArg (List.map BlockParam.name) hparams
    have hbb : target.bbParamNames = [] := List.perm_nil.mp (hnames ▸ bbParamNames_perm target)
    refine ⟨target, _, [], htarget, dispatchException_none htarget hparams exc before, ⟨?_, ?_⟩,
      fun edge' _ => ⟨by rw [hbb]; rfl, fun param hparam => ?_⟩⟩
    · show (boundArgs target.paramNames edge.args).map _ = _
      rw [hargs, hnames]
      rfl
    · exact ⟨fun a ha => absurd ha (by rw [hnames]; exact List.not_mem_nil), fun x _ => rfl⟩
    · rw [hparams] at hparam
      exact absurd hparam List.not_mem_nil
  · obtain ⟨param, hparams⟩ := List.length_eq_one_iff.mp
      (show target.params.length = 1 by rw [← hlen, hargs]; rfl)
    have hnames : target.paramNames = [param.name] := congrArg (List.map BlockParam.name) hparams
    have hbb : target.bbParamNames = [param.name] :=
      List.perm_singleton.mp (hnames ▸ bbParamNames_perm target)
    obtain ⟨after, hdispatch, hassigned⟩ :=
      dispatchException_single (C := C) htarget hparams exc before
    refine ⟨target, after, [exc], htarget, hdispatch, ⟨?_, ?_⟩,
      fun edge' _ => ⟨by rw [hbb]; rfl, fun param' hparam' _ => ?_⟩⟩
    · show (boundArgs target.paramNames edge.args).map _ = _
      rw [hargs, hnames]
      rfl
    · rw [hnames]
      exact hassigned
    · rw [hparams, List.mem_singleton] at hparam'
      rw [hparam']
      exact hassigned.assigned (param.name, exc) List.mem_cons_self

theorem exception_iff [Nontrivial V] {b : Block S I} (hb : b ∈ F.blocks) {edge : BlockEdge}
    (hedge : b.excEdge = some edge) :
    EdgeAssigns F C (.exception edge) ↔ EdgeFits F (.exception edge) := by
  refine ⟨fun h => ?_, exception_fits hb hedge⟩
  obtain ⟨target, htarget, hlen⟩ := F.exc_args b hb edge hedge
  obtain ⟨v, w, hne⟩ := exists_pair_ne V
  by_cases hmany : 1 < edge.args.length
  · -- more than one value is needed, and at most one is passed
    exfalso
    obtain ⟨target', after, values, htarget', htake, -, -⟩ := h v ⟨[], fun _ => v⟩ (inBlock_entry _)
    have hnone : takeEdge F C v ⟨[], fun _ => v⟩ (.exception edge) = none := by
      refine (dispatchException_eq htarget v _).trans (enterBlock_eq_none ?_ _)
      unfold dispatchJumpArgs
      by_cases hempty : target.bbParamNames.isEmpty
      · rw [if_pos hempty]
        show 0 ≠ _
        omega
      · rw [if_neg hempty]
        show 1 ≠ _
        omega
    rw [hnone] at htake
    cases htake
  · cases hargs : edge.args with
    | nil => exact .inl hargs
    | cons arg rest =>
      rw [hargs, List.length_cons] at hmany
      obtain rfl := List.length_eq_zero_iff.mp (show rest.length = 0 by omega)
      refine .inr ?_
      obtain ⟨param, hparams⟩ := List.length_eq_one_iff.mp
        (show target.params.length = 1 by rw [← hlen, hargs]; rfl)
      have hnames : target.paramNames = [param.name] := congrArg (List.map BlockParam.name) hparams
      -- the parameter gets the exception, so its argument is that, whatever the slots have
      have harg : ∀ (exc : V) (slots : String → V),
          argument F C ⟨[], slots⟩ (some exc) arg = some exc := by
        intro exc slots
        obtain ⟨target', after, values, htarget', htake, henters, -⟩ :=
          h exc ⟨[], slots⟩ (inBlock_entry _)
        obtain rfl := Option.some.inj (htarget.symm.trans htarget')
        obtain ⟨after', hdispatch, hassigned⟩ :=
          dispatchException_single (C := C) htarget hparams exc ⟨[], slots⟩
        obtain rfl := Option.some.inj (hdispatch.symm.trans htake)
        have harguments : [argument F C ⟨[], slots⟩ (some exc) arg] = values.map some := by
          rw [← henters.arguments, boundArgs_of_length (by rw [hnames]; exact congrArg _ hargs)]
          show _ = edge.args.map _
          rw [hargs]
          rfl
        obtain ⟨value, rest, rfl, hvalue, -⟩ := List.map_eq_cons_iff.mp harguments.symm
        have hgiven := henters.assigned.assigned (param.name, value)
          (by rw [hnames]; exact List.mem_cons_self)
        have hpassed := hassigned.assigned (param.name, exc) List.mem_cons_self
        exact hvalue.symm.trans (congrArg some (hgiven.symm.trans hpassed))
      cases arg with
      | name x =>
        have hload := harg w fun _ => v
        rw [argument_name rfl] at hload
        obtain ⟨slot, -, hslot⟩ := Option.map_eq_some_iff.mp hload
        exact absurd hslot hne
      | none =>
        exact absurd (Option.some.inj ((harg v fun _ => v).symm.trans (harg w fun _ => v))) hne
      | currentException => exact hargs
      | abruptKind kind =>
        exact absurd (Option.some.inj ((harg v fun _ => v).symm.trans (harg w fun _ => v))) hne

/-! ## All edges -/

/-- Every edge of every block: jumps are assignments when they pass variables and constants,
branches always, and dispatches when the target has no parameter, or one that is given the
exception. -/
theorem controlEdges_iff [Nontrivial V] (F : CodegenFunction S I) (C : EdgeConsts V)
    (b : Block S I) (hb : b ∈ F.blocks) (e : ControlEdge) (he : e ∈ controlEdges b) :
    EdgeAssigns F C e ↔ EdgeFits F e := by
  rcases List.mem_append.mp he with hterm | hexc
  · cases hb' : b.term with
    | jump edge =>
      rw [hb', List.mem_singleton] at hterm
      rw [hterm]
      exact jump_iff hb hb'
    | ifTerm test thenLabel elseLabel =>
      have hlt := F.branch_targets b hb [thenLabel, elseLabel] (by rw [hb']; rfl)
      rw [hb'] at hterm
      rcases List.mem_pair.mp hterm with rfl | rfl
      · exact ⟨fun _ => trivial, fun _ => takeBranch_eq (hlt thenLabel (by simp))⟩
      · exact ⟨fun _ => trivial, fun _ => takeBranch_eq (hlt elseLabel (by simp))⟩
    | branchTable index targets defaultLabel =>
      have hlt := F.branch_targets b hb (targets ++ [defaultLabel]) (by rw [hb']; rfl)
      rw [hb'] at hterm
      have hmap : e ∈ (targets ++ [defaultLabel]).map ControlEdge.branch := by
        rw [List.map_append]
        exact hterm
      obtain ⟨l, hl, rfl⟩ := List.mem_map.mp hmap
      exact ⟨fun _ => trivial, fun _ => takeBranch_eq (hlt l hl)⟩
    | raiseTerm exc =>
      rw [hb'] at hterm
      exact absurd hterm List.not_mem_nil
    | ret value =>
      rw [hb'] at hterm
      exact absurd hterm List.not_mem_nil
  · obtain ⟨edge, hedge, rfl⟩ := List.mem_map.mp hexc
    exact exception_iff hb (Option.mem_toList.mp hedge)

/-- A handler that keeps the parameters of a `finally` clause, like the one that is added for a
`yield from` at the start of the clause: it has three parameters. -/
def yieldFromInFinally : CodegenFunction Unit Unit where
  blocks :=
    [⟨0, [], .jump ⟨0, [.name "_dp_try_abrupt_payload_2", .name "_dp_try_abrupt_kind_1"]⟩,
      [⟨"_dp_try_abrupt_kind_1", .abruptKind⟩, ⟨"_dp_try_abrupt_payload_2", .abruptPayload⟩],
      some ⟨1, [.currentException, .name "_dp_try_abrupt_kind_1",
        .name "_dp_try_abrupt_payload_2"]⟩⟩,
    ⟨1, [], .ret (), [⟨"_dp_yield_from_exc_3", .exception⟩, ⟨"_dp_try_abrupt_kind_1", .abruptKind⟩,
      ⟨"_dp_try_abrupt_payload_2", .abruptPayload⟩], none⟩]
  stackSlots := ["_dp_yield_from_exc_3", "_dp_try_abrupt_kind_1", "_dp_try_abrupt_payload_2"]
  paramNames_nodup := by decide
  paramNames_slots := by decide
  jump_args := by
    intro b hb edge hterm
    rcases List.mem_pair.mp hb with rfl | rfl
    · cases hterm
      exact ⟨_, rfl, by decide⟩
    · cases hterm
  branch_targets := by
    intro b hb ls hls
    rcases List.mem_pair.mp hb with rfl | rfl
    · cases hls
      decide
    · cases hls
  exc_args := by
    intro b hb edge hedge
    rcases List.mem_pair.mp hb with rfl | rfl
    · cases hedge
      exact ⟨_, rfl, rfl⟩
    · cases hedge

def natConsts : EdgeConsts ℕ := ⟨0, 1, fun k => 10 + k.toNat⟩

/-- One value is passed to a handler with three parameters. -/
theorem yieldFromInFinally_dispatch :
    ¬ ∀ (F : CodegenFunction Unit Unit) (C : EdgeConsts ℕ), ∀ b ∈ F.blocks,
      ∀ e ∈ controlEdges b, EdgeAssigns F C e := by
  intro h
  obtain ⟨target, after, values, -, htake, -⟩ := h yieldFromInFinally natConsts _
    List.mem_cons_self (.exception ⟨1, [.currentException, .name "_dp_try_abrupt_kind_1",
      .name "_dp_try_abrupt_payload_2"]⟩) (by simp [controlEdges]) 7 ⟨[], fun _ => 0⟩
    (inBlock_entry _)
  cases htake

/-- Its jump exchanges two variables. -/
theorem yieldFromInFinally_jump :
    EdgeAssigns yieldFromInFinally natConsts
        (.jump ⟨0, [.name "_dp_try_abrupt_payload_2", .name "_dp_try_abrupt_kind_1"]⟩) ↔
      EdgeFits yieldFromInFinally
        (.jump ⟨0, [.name "_dp_try_abrupt_payload_2", .name "_dp_try_abrupt_kind_1"]⟩) :=
  controlEdges_iff yieldFromInFinally natConsts _ List.mem_cons_self _ List.mem_cons_self

end Exceptions

end DietPython.Jit
