import DietPython.ModuleConstants.Collector

/-!
# The constants that code generation looks up

Code generation walks over the same expressions as the collector, in its own order and with its own
special calls, and looks up the constants that it needs; a lookup panics if the pool does not have
the value. The lookups of a function are listed here, up to the place where code generation stops
for another reason.

The collector does not see that a direct call may fall back to a plain one, which then asks for the
text of its argument: `lookupsSucceed_iff` says when that goes wrong.
-/

namespace DietPython.ModuleConstants

open Blocks Calls
open Jit (abruptKindTag explicitArg)

/-! ## Lookups -/

inductive PoolEvent
  /-- A value is looked up. -/
  | require (value : ModuleConstantValue)
  /-- Code generation stops for another reason. -/
  | stop
  deriving DecidableEq

/-- `require_unicode_constant_id` -/
def requireText (text : String) : PoolEvent := .require (.unicode text.toUTF8)

/-- No lookup panics, one after the other. -/
def allFound (found : ModuleConstantValue → Bool) : List PoolEvent → Bool
  | [] => true
  | .require value :: rest => found value && allFound found rest
  | .stop :: _ => true

/-! ## Special calls -/

def CallArgs.isSimple : CallArgs → Bool
  | nil => true
  | positional _ rest => rest.isSimple
  | starred _ _ => false

def CallKeywords.isSimple : CallKeywords → Bool
  | nil => true
  | named _ _ rest => rest.isSimple
  | starred _ _ => false

def CallArgs.length : CallArgs → ℕ
  | nil => 0
  | positional _ rest | starred _ rest => rest.length + 1

def CallKeywords.isEmpty : CallKeywords → Bool
  | nil => true
  | _ => false

section Special

variable (values : List ModuleConstantValue)

/-- The body is that of `helper_name_for_codegen_expr`. -/
def codegenExprHelperName (expr : CodegenBlockPyExpr) : Option String :=
  helperNameForCodegenExpr values expr

def codegenExprConstString : CodegenBlockPyExpr → Option String
  | .load name =>
    match name.location with
    | .constant index => constantStringValue values index
    | _ => none
  | .call func (.positional arg .nil) .nil =>
    if codegenExprHelperName values func = some "str" then codegenExprConstString arg else none
  | _ => none

inductive SpecialCall
  | globals
  | str (text : String)
  | tupleValues
  | loadDeletedName (text : String)
  /-- There is a panic if the argument is not a name with a cell. -/
  | cellRef (hasCell : Bool)

def hasCell : CodegenBlockPyExpr → Bool
  | .load name =>
    match name.location with
    | .cell _ => true
    | _ => false
  | _ => false

/-- The special treatment of a call, if it has one. -/
def specialCall (func : CodegenBlockPyExpr) (args : CallArgs) (keywords : CallKeywords) :
    Option SpecialCall :=
  match codegenExprHelperName values func, args, keywords with
  | some "globals", .nil, .nil => some .globals
  | some "str", .positional arg .nil, .nil => (codegenExprConstString values arg).map .str
  | some "tuple_values", args, .nil => if args.isSimple then some .tupleValues else none
  | some "load_deleted_name", .positional name (.positional _ .nil), .nil =>
    (codegenExprConstString values name).map .loadDeletedName
  | some "cell_ref", .positional arg .nil, .nil => some (.cellRef (hasCell arg))
  | _, _, _ => none

end Special

/-! ## Code generation -/

/-- The lookups of a call: `func`, `args` and `keywords` are those of its parts, and an argument
comes with whether it has a star. -/
def callEvents (special : Option SpecialCall) (hasUnpack hasKeywords : Bool)
    (func : List PoolEvent) (args : List (Bool × List PoolEvent)) (keywords : List PoolEvent) :
    List PoolEvent :=
  match special with
  | some .globals => []
  | some (.str text) => [requireText text]
  | some .tupleValues => args.flatMap Prod.snd
  | some (.loadDeletedName text) => requireText text :: (args.drop 1).flatMap Prod.snd
  | some (.cellRef hasCell) => if hasCell then [] else [.stop]
  | none =>
    if hasUnpack then
      func ++ (requireText "list" :: ((if hasKeywords then [requireText "dict"] else []) ++
        (args.flatMap (fun arg => requireText (if arg.1 then "extend" else "append") :: arg.2) ++
          (keywords ++ [requireText "tuple_from_iter"]))))
    else
      func ++ (args.flatMap Prod.snd ++
        (if hasKeywords then requireText "dict" :: keywords else []))

/-- `supports_direct_call`, if the target is a function of the module. -/
def CodegenModule.supportsDirectCall (m : CodegenModule) (functionId : ℕ) (args : CallArgs)
    (keywords : CallKeywords) : Bool :=
  match m.callableDefs.find? fun function => function.functionId = functionId with
  | some target =>
    keywords.isEmpty && decide (args.length ≤ target.params.length) && args.isSimple
  | none => false

section Emit

variable (m : CodegenModule) (values : List ModuleConstantValue)

mutual

/-- `emit_codegen_expr`, with `emit_operation` and `emit_call_direct_expr`. -/
def emitCodegenExpr : CodegenBlockPyExpr → List PoolEvent
  | .load name =>
    match name.location with
    | .global _ | .runtimeName => [requireText name.id]
    | _ => []
  | .incrementCounter _ | .cellRef _ => []
  | .binOp _ left right => emitCodegenExpr left ++ emitCodegenExpr right
  | .unaryOp _ operand => emitCodegenExpr operand
  | .makeCell initialValue => emitCodegenExpr initialValue
  | .getAttr value attr => emitCodegenExpr value ++ emitCodegenExpr attr
  | .getItem value index | .delItem value index => emitCodegenExpr value ++ emitCodegenExpr index
  | .setAttr value attr replacement =>
    emitCodegenExpr value ++ (emitCodegenExpr attr ++ emitCodegenExpr replacement)
  | .setItem value index replacement =>
    emitCodegenExpr value ++ (emitCodegenExpr index ++ emitCodegenExpr replacement)
  | .store name value =>
    match name.location with
    | .global _ => emitCodegenExpr value ++ [requireText name.id]
    | .local _ | .cell _ => emitCodegenExpr value
    | .runtimeName | .constant _ => [.stop]
  | .del name _ =>
    match name.location with
    | .global _ => [requireText name.id]
    | .local _ | .cell _ => []
    | .runtimeName | .constant _ => [.stop]
  | .calleeFunctionId _ | .makeFunction _ _ _ _ => [.stop]
  | .call func args keywords =>
    callEvents (specialCall values func args keywords) (!args.isSimple || !keywords.isSimple)
      (!keywords.isEmpty) (emitCodegenExpr func) (emitArgs args) (emitKeywords keywords)
  | .callDirect functionId callable args keywords =>
    if m.supportsDirectCall functionId args keywords then
      emitCodegenExpr callable ++ (emitArgs args).flatMap Prod.snd
    else
      callEvents (specialCall values callable args keywords)
        (!args.isSimple || !keywords.isSimple) (!keywords.isEmpty) (emitCodegenExpr callable)
        (emitArgs args) (emitKeywords keywords)

def emitArgs : CallArgs → List (Bool × List PoolEvent)
  | .nil => []
  | .positional value rest => (false, emitCodegenExpr value) :: emitArgs rest
  | .starred value rest => (true, emitCodegenExpr value) :: emitArgs rest

def emitKeywords : CallKeywords → List PoolEvent
  | .nil => []
  | .named arg value rest => requireText arg :: (emitCodegenExpr value ++ emitKeywords rest)
  | .starred value rest => requireText "update" :: (emitCodegenExpr value ++ emitKeywords rest)

end

/-- `emit_branch_index_i64` -/
def emitBranchIndex : CodegenBlockPyExpr → List PoolEvent
  | .calleeFunctionId value => emitCodegenExpr m values value
  | index => emitCodegenExpr m values index

end Emit

/-! ## Jumps -/

/-- The code for an argument of a jump. -/
def blockArgEvents : BlockArg → List PoolEvent
  | .abruptKind kind => [.require (.int (abruptKindTag kind))]
  | .currentException => [.stop]
  | .name _ | .none => []

/-- `emit_explicit_target_slot_writes_codegen`, from an argument on. -/
def slotWriteEvents (runtimeTargetParams : List String) :
    List String → List BlockArg → List PoolEvent
  | _, [] => []
  | [], _ :: _ => [.stop]
  | target :: targets, arg :: args =>
    (if target ∈ runtimeTargetParams then [] else blockArgEvents arg) ++
      slotWriteEvents runtimeTargetParams targets args

/-- The slot writes of a jump, and then `emit_prepare_target_args_codegen`. All names are taken to
have a register or a slot. -/
def jumpEvents (function : CodegenFunction) (edge : BlockEdge) : List PoolEvent :=
  match function.blocks[edge.target]? with
  | some target =>
    let full := target.paramNames
    slotWriteEvents target.bbParamNames (full.drop (full.length - edge.args.length)) edge.args ++
      target.bbParamNames.flatMap fun name =>
        (explicitArg full edge.args name).elim [] blockArgEvents
  | none => [.stop]

/-- The parameters of the block with this label are looked up. -/
def labelEvents (function : CodegenFunction) (label : BlockLabel) : List PoolEvent :=
  if label < function.blocks.length then [] else [.stop]

/-- `emit_codegen_term` -/
def termEvents (m : CodegenModule) (values : List ModuleConstantValue)
    (function : CodegenFunction) : BlockTerm CodegenBlockPyExpr → List PoolEvent
  | .jump edge => jumpEvents function edge
  | .ifTerm test thenLabel elseLabel =>
    emitCodegenExpr m values test ++
      (labelEvents function thenLabel ++ labelEvents function elseLabel)
  | .branchTable index targets defaultLabel =>
    emitBranchIndex m values index ++
      (targets.flatMap (labelEvents function) ++ labelEvents function defaultLabel)
  | .raiseTerm exc => requireText "raise_from" :: exc.elim [] (emitCodegenExpr m values)
  | .ret value => emitCodegenExpr m values value

/-- The name that a default is looked up by at the entry. -/
def paramEvents (param : Param × Option ParamDefaultSource) : List PoolEvent :=
  match param.2 with
  | some (.positional _) => [requireText param.1.name]
  | some (.keywordOnly name) => [requireText name]
  | none => []

/-- The exception edges are planned first. -/
def excEdgeEvents (function : CodegenFunction) : List PoolEvent :=
  function.blocks.flatMap fun block =>
    block.excEdge.elim [] fun edge => labelEvents function edge.target

/-- The lookups of a function. -/
def functionEvents (m : CodegenModule) (values : List ModuleConstantValue)
    (function : CodegenFunction) : List PoolEvent :=
  excEdgeEvents function ++
    ((iterWithDefaultSources 0 function.params).flatMap paramEvents ++
      function.blocks.flatMap fun block =>
        block.body.flatMap (emitCodegenExpr m values) ++ termEvents m values function block.term)

/-! ## Texts of direct calls that fall back -/

/-- The text that a special call looks up. -/
def specialTexts : Option SpecialCall → List PoolEvent
  | some (.str text) | some (.loadDeletedName text) => [requireText text]
  | _ => []

/-- A special call at which code generation stops, or else its parts. -/
def unlessStopped (special : Option SpecialCall) (parts : List PoolEvent) : List PoolEvent :=
  match special with
  | some (.cellRef false) => [.stop]
  | _ => parts

section FallbackTexts

variable (m : CodegenModule) (explicit : List ModuleConstantValue)

mutual

/-- The texts that the direct calls in an expression ask for when they are plain calls, in order,
and where code generation stops. -/
def fallbackTexts : CodegenBlockPyExpr → List PoolEvent
  | .load _ | .incrementCounter _ | .cellRef _ => []
  | .binOp _ left right => fallbackTexts left ++ fallbackTexts right
  | .unaryOp _ operand => fallbackTexts operand
  | .makeCell initialValue => fallbackTexts initialValue
  | .getAttr value attr => fallbackTexts value ++ fallbackTexts attr
  | .getItem value index | .delItem value index => fallbackTexts value ++ fallbackTexts index
  | .setAttr value attr replacement =>
    fallbackTexts value ++ (fallbackTexts attr ++ fallbackTexts replacement)
  | .setItem value index replacement =>
    fallbackTexts value ++ (fallbackTexts index ++ fallbackTexts replacement)
  | .store name value =>
    match name.location with
    | .runtimeName | .constant _ => [.stop]
    | _ => fallbackTexts value
  | .del name _ =>
    match name.location with
    | .runtimeName | .constant _ => [.stop]
    | _ => []
  | .calleeFunctionId _ | .makeFunction _ _ _ _ => [.stop]
  | .call func args keywords =>
    unlessStopped (specialCall explicit func args keywords)
      (fallbackTexts func ++ (argFallbackTexts args ++ keywordFallbackTexts keywords))
  | .callDirect functionId callable args keywords =>
    if m.supportsDirectCall functionId args keywords then
      fallbackTexts callable ++ argFallbackTexts args
    else
      unlessStopped (specialCall explicit callable args keywords)
        (specialTexts (specialCall explicit callable args keywords) ++
          (fallbackTexts callable ++ (argFallbackTexts args ++ keywordFallbackTexts keywords)))

def argFallbackTexts : CallArgs → List PoolEvent
  | .nil => []
  | .positional value rest | .starred value rest => fallbackTexts value ++ argFallbackTexts rest

def keywordFallbackTexts : CallKeywords → List PoolEvent
  | .nil => []
  | .named _ value rest | .starred value rest => fallbackTexts value ++ keywordFallbackTexts rest

end

def termFallbackTexts (function : CodegenFunction) :
    BlockTerm CodegenBlockPyExpr → List PoolEvent
  | .jump edge => (jumpEvents function edge).filter (· = .stop)
  | .ifTerm test thenLabel elseLabel =>
    fallbackTexts m explicit test ++
      (labelEvents function thenLabel ++ labelEvents function elseLabel)
  | .branchTable (.calleeFunctionId value) targets defaultLabel =>
    fallbackTexts m explicit value ++
      (targets.flatMap (labelEvents function) ++ labelEvents function defaultLabel)
  | .branchTable index targets defaultLabel =>
    fallbackTexts m explicit index ++
      (targets.flatMap (labelEvents function) ++ labelEvents function defaultLabel)
  | .raiseTerm exc => exc.elim [] (fallbackTexts m explicit)
  | .ret value => fallbackTexts m explicit value

def functionFallbackTexts (function : CodegenFunction) : List PoolEvent :=
  excEdgeEvents function ++ function.blocks.flatMap fun block =>
    block.body.flatMap (fallbackTexts m explicit) ++
      termFallbackTexts m explicit function block.term

end FallbackTexts

/-! ## Lookups that miss -/

section Misses

variable (found : ModuleConstantValue → Bool)

/-- The lookups that panic, and where code generation stops. -/
def misses (events : List PoolEvent) : List PoolEvent :=
  events.filter fun event =>
    match event with
    | .require value => !found value
    | .stop => true

variable {found}

@[simp] theorem misses_nil : misses found [] = [] := rfl

@[simp] theorem misses_append (first second : List PoolEvent) :
    misses found (first ++ second) = misses found first ++ misses found second :=
  List.filter_append ..

theorem misses_require {value : ModuleConstantValue} (h : found value = true)
    (rest : List PoolEvent) : misses found (.require value :: rest) = misses found rest := by
  unfold misses
  rw [List.filter_cons_of_neg]
  simp [h]

theorem misses_flatMap {α : Type} {f g : α → List PoolEvent} {items : List α}
    (h : ∀ item ∈ items, misses found (f item) = misses found (g item)) :
    misses found (items.flatMap f) = misses found (items.flatMap g) := by
  induction items with
  | nil => rfl
  | cons item items ih =>
    rw [List.flatMap_cons, List.flatMap_cons, misses_append, misses_append,
      h item List.mem_cons_self, ih fun other hother => h other (List.mem_cons_of_mem _ hother)]

theorem misses_flatMap_eq_nil {α : Type} {f : α → List PoolEvent} {items : List α}
    (h : ∀ item ∈ items, misses found (f item) = []) : misses found (items.flatMap f) = [] := by
  rw [misses_flatMap (g := fun _ => []) h]
  induction items with
  | nil => rfl
  | cons item items ih => exact ih fun other hother => h other (List.mem_cons_of_mem _ hother)

/-- Lookups that are found do not matter. -/
theorem allFound_misses (events : List PoolEvent) :
    allFound found (misses found events) = allFound found events := by
  induction events with
  | nil => rfl
  | cons event events ih =>
    cases event with
    | stop => rfl
    | require value =>
      cases h : found value with
      | true => rw [misses_require h, ih, allFound, h, Bool.true_and]
      | false =>
        have hkept : misses found (.require value :: events) =
            .require value :: misses found events := by
          unfold misses
          rw [List.filter_cons_of_pos]
          simp [h]
        rw [hkept, allFound, allFound, h, Bool.false_and, Bool.false_and]

end Misses

/-! ## Special calls of the pool and of the explicit constants -/

section SpecialViews

variable {pool : ModuleCodegenConstants} {explicit values : List ModuleConstantValue}

/-- A text that code generation knows is one that the collector knows. -/
theorem stringConstantBytes_of_constString (expr : CodegenBlockPyExpr) {text : String}
    (h : codegenExprConstString values expr = some text) :
    stringConstantBytesForSpecializedCodegen values expr = some text.toUTF8 := by
  fun_induction codegenExprConstString values expr with
  | case1 name index hlocation =>
    rw [stringConstantBytesForSpecializedCodegen, hlocation]
    exact constantStringBytesValue_of_constantStringValue h
  | case2 name hlocation => cases h
  | case3 func arg hstr ih =>
    rw [codegenExprHelperName] at hstr
    rw [stringConstantBytesForSpecializedCodegen, if_pos hstr]
    exact ih h
  | case4 | case5 => cases h

theorem codegenExprHelperName_pool (h : pool.Extends explicit) (func : CodegenBlockPyExpr) :
    codegenExprHelperName pool.values func = codegenExprHelperName explicit func :=
  helperNameForCodegenExpr_pool h func

theorem constString_of_explicit (h : pool.Extends explicit) (expr : CodegenBlockPyExpr)
    {text : String} (htext : codegenExprConstString explicit expr = some text) :
    codegenExprConstString pool.values expr = some text := by
  fun_induction codegenExprConstString explicit expr with
  | case1 name index hlocation =>
    rw [codegenExprConstString, hlocation]
    exact h.constantStringValue_of_explicit htext
  | case2 name hlocation => cases htext
  | case3 func arg hstr ih =>
    rw [codegenExprConstString, codegenExprHelperName_pool h, if_pos hstr]
    exact ih htext
  | case4 | case5 => cases htext

/-- A text that is known from the pool alone is that of a string of the pool. -/
theorem constString_pool (h : pool.Extends explicit) (expr : CodegenBlockPyExpr)
    {text : String} (htext : codegenExprConstString pool.values expr = some text) :
    codegenExprConstString explicit expr = some text ∨ .unicode text.toUTF8 ∈ pool.values := by
  fun_induction codegenExprConstString pool.values expr with
  | case1 name index hlocation =>
    rw [codegenExprConstString, hlocation]
    exact h.constantStringValue htext
  | case2 name hlocation => cases htext
  | case3 func arg hstr ih =>
    rw [codegenExprHelperName_pool h] at hstr
    rw [codegenExprConstString, if_pos hstr]
    exact ih htext
  | case4 | case5 => cases htext

/-- What the callable and the arguments of a special call look like. -/
inductive IsSpecialCall (values : List ModuleConstantValue) :
    CodegenBlockPyExpr → CallArgs → CallKeywords → SpecialCall → Prop
  | globals (name : LocatedName) : IsSpecialCall values (.load name) .nil .nil .globals
  | str (name : LocatedName) {arg : CodegenBlockPyExpr} {text : String}
      (hname : codegenExprHelperName values (.load name) = some "str")
      (harg : codegenExprConstString values arg = some text) :
      IsSpecialCall values (.load name) (.positional arg .nil) .nil (.str text)
  | tupleValues (name : LocatedName) (args : CallArgs) :
      IsSpecialCall values (.load name) args .nil .tupleValues
  | loadDeletedName (name : LocatedName) {arg value : CodegenBlockPyExpr} {text : String}
      (hname : codegenExprHelperName values (.load name) = some "load_deleted_name")
      (harg : codegenExprConstString values arg = some text) :
      IsSpecialCall values (.load name) (.positional arg (.positional value .nil)) .nil
        (.loadDeletedName text)
  | cellRef (name : LocatedName) {arg : CodegenBlockPyExpr} {cell : Bool}
      (hname : codegenExprHelperName values (.load name) = some "cell_ref")
      (hcell : hasCell arg = cell) :
      IsSpecialCall values (.load name) (.positional arg .nil) .nil (.cellRef cell)

theorem eq_load_of_helperName {func : CodegenBlockPyExpr} {name : String}
    (h : codegenExprHelperName values func = some name) : ∃ located, func = .load located := by
  cases func with
  | load located => exact ⟨located, rfl⟩
  | _ => cases h

theorem isSpecialCall_of_specialCall {func : CodegenBlockPyExpr} {args : CallArgs}
    {keywords : CallKeywords} {special : SpecialCall}
    (h : specialCall values func args keywords = some special) :
    IsSpecialCall values func args keywords special := by
  unfold specialCall at h
  split at h
  · next hname =>
    obtain ⟨located, rfl⟩ := eq_load_of_helperName hname
    cases h
    exact .globals located
  · next arg hname =>
    obtain ⟨located, rfl⟩ := eq_load_of_helperName hname
    obtain ⟨text, htext, rfl⟩ := Option.map_eq_some_iff.mp h
    exact .str located hname htext
  · next hname =>
    obtain ⟨located, rfl⟩ := eq_load_of_helperName hname
    split_ifs at h
    cases h
    exact .tupleValues located _
  · next arg value hname =>
    obtain ⟨located, rfl⟩ := eq_load_of_helperName hname
    obtain ⟨text, htext, rfl⟩ := Option.map_eq_some_iff.mp h
    exact .loadDeletedName located hname htext
  · next arg hname =>
    obtain ⟨located, rfl⟩ := eq_load_of_helperName hname
    cases h
    exact .cellRef located hname rfl
  · cases h

/-- The same special call is found by the pool and by the explicit constants, or the pool has the
text that makes the call special. -/
theorem specialCall_pool (h : pool.Extends explicit) (func : CodegenBlockPyExpr)
    (args : CallArgs) (keywords : CallKeywords) :
    specialCall pool.values func args keywords = specialCall explicit func args keywords ∨
      specialCall explicit func args keywords = none ∧
        ∃ text, .unicode text.toUTF8 ∈ pool.values ∧
          (specialCall pool.values func args keywords = some (.str text) ∨
            specialCall pool.values func args keywords = some (.loadDeletedName text)) := by
  have hconst (expr : CodegenBlockPyExpr) :
      codegenExprConstString pool.values expr = codegenExprConstString explicit expr ∨
        codegenExprConstString explicit expr = none ∧
          ∃ text, .unicode text.toUTF8 ∈ pool.values ∧
            codegenExprConstString pool.values expr = some text := by
    cases hexplicit : codegenExprConstString explicit expr with
    | some text => exact Or.inl (constString_of_explicit h expr hexplicit)
    | none =>
      cases hpool : codegenExprConstString pool.values expr with
      | none => exact Or.inl rfl
      | some text =>
        rcases constString_pool h expr hpool with hsome | hmem
        · rw [hexplicit] at hsome; cases hsome
        · exact Or.inr ⟨rfl, text, hmem, rfl⟩
  unfold specialCall
  rw [codegenExprHelperName_pool h]
  split
  · exact Or.inl rfl
  · next arg hname =>
    rcases hconst arg with heq | ⟨hnone, text, hmem, hsome⟩
    · rw [heq]; exact Or.inl rfl
    · rw [hnone, hsome]; exact Or.inr ⟨rfl, text, hmem, Or.inl rfl⟩
  · exact Or.inl rfl
  · next arg _ hname =>
    rcases hconst arg with heq | ⟨hnone, text, hmem, hsome⟩
    · rw [heq]; exact Or.inl rfl
    · rw [hnone, hsome]; exact Or.inr ⟨rfl, text, hmem, Or.inr rfl⟩
  · exact Or.inl rfl
  · exact Or.inl rfl

end SpecialViews

/-! ## Lookups of collected constants -/

/-- The lookup of a value does not panic. -/
def ModuleCodegenConstants.finds (pool : ModuleCodegenConstants) (value : ModuleConstantValue) :
    Bool :=
  (pool.lookupId value).isSome

section Coverage

variable {m : CodegenModule} {pool : ModuleCodegenConstants} {explicit : List ModuleConstantValue}

theorem misses_requireText {text : String} (h : .unicode text.toUTF8 ∈ pool.values)
    (rest : List PoolEvent) :
    misses pool.finds (requireText text :: rest) = misses pool.finds rest :=
  misses_require (ModuleCodegenConstants.lookupId_isSome.mpr h) rest

theorem misses_unlessStopped {found : ModuleConstantValue → Bool} (special : Option SpecialCall)
    {parts parts' : List PoolEvent} (h : misses found parts = misses found parts') :
    misses found (unlessStopped special parts) = misses found (unlessStopped special parts') := by
  unfold unlessStopped
  split
  · rfl
  · exact h

/-- A constant text has no direct calls. -/
theorem fallbackTexts_of_constString (h : pool.Extends explicit) (expr : CodegenBlockPyExpr)
    {text : String} (htext : codegenExprConstString pool.values expr = some text) :
    fallbackTexts m explicit expr = [] := by
  fun_induction codegenExprConstString pool.values expr with
  | case1 name index hlocation => rfl
  | case2 name hlocation => cases htext
  | case3 func arg hstr ih =>
    obtain ⟨located, rfl⟩ := eq_load_of_helperName hstr
    rw [fallbackTexts, argFallbackTexts, ih htext]
    unfold unlessStopped
    split
    · next hspecial =>
      cases isSpecialCall_of_specialCall hspecial with
      | cellRef _ hname _ =>
        rw [codegenExprHelperName_pool h, hname] at hstr
        exact absurd hstr (by decide)
    · rfl
  | case4 | case5 => cases htext

theorem misses_specialTexts_explicit (h : pool.Extends explicit) (func : CodegenBlockPyExpr)
    (args : CallArgs) (keywords : CallKeywords) :
    misses pool.finds (specialTexts (specialCall pool.values func args keywords)) =
      misses pool.finds (specialTexts (specialCall explicit func args keywords)) := by
  rcases specialCall_pool h func args keywords with heq | ⟨hnone, text, hmem, hstr | hdeleted⟩
  · rw [heq]
  · rw [hnone, hstr]
    exact misses_requireText hmem []
  · rw [hnone, hdeleted]
    exact misses_requireText hmem []

/-- The text of a plain call has been collected. -/
theorem misses_specialTexts_of_texts (h : pool.Extends explicit) {func : CodegenBlockPyExpr}
    {args : CallArgs} {keywords : CallKeywords}
    (htexts : ∀ bytes ∈ texts explicit (.call func args keywords), .unicode bytes ∈ pool.values) :
    misses pool.finds (specialTexts (specialCall pool.values func args keywords)) = [] := by
  rw [misses_specialTexts_explicit h]
  rw [texts] at htexts
  cases hspecial : specialCall explicit func args keywords with
  | none => rfl
  | some special =>
    cases isSpecialCall_of_specialCall hspecial with
    | globals | tupleValues | cellRef => rfl
    | str name hname harg =>
      refine misses_requireText (htexts _ ?_) []
      rw [codegenExprHelperName] at hname
      rw [stringConstantBytesForSpecializedCodegen, if_pos hname,
        stringConstantBytes_of_constString _ harg]
      exact List.mem_cons_self
    | loadDeletedName name hname harg =>
      refine misses_requireText (htexts _ ?_) []
      rw [codegenExprHelperName] at hname
      apply List.mem_append_right
      rw [deletedNameArgBytes, if_pos hname, stringConstantBytes_of_constString _ harg]
      exact List.mem_cons_self

theorem unlessStopped_explicit (h : pool.Extends explicit) (func : CodegenBlockPyExpr)
    (args : CallArgs) (keywords : CallKeywords) (parts : List PoolEvent) :
    unlessStopped (specialCall pool.values func args keywords) parts =
      unlessStopped (specialCall explicit func args keywords) parts := by
  rcases specialCall_pool h func args keywords with heq | ⟨hnone, text, -, hstr | hdeleted⟩
  · rw [heq]
  · rw [hnone, hstr]
    rfl
  · rw [hnone, hdeleted]
    rfl

theorem emitKeywords_of_isEmpty {values : List ModuleConstantValue} {keywords : CallKeywords}
    (h : keywords.isEmpty = true) : emitKeywords m values keywords = [] := by
  cases keywords with
  | nil => rfl
  | named arg value rest => cases h
  | starred value rest => cases h

theorem eq_load_of_hasCell {expr : CodegenBlockPyExpr} (h : hasCell expr = true) :
    ∃ located, expr = .load located := by
  cases expr with
  | load located => exact ⟨located, rfl⟩
  | _ => cases h

section Calls

variable (h : pool.Extends explicit)
  (hrequired : ∀ name ∈ alwaysRequired, .unicode name.toUTF8 ∈ pool.values)
  {func : CodegenBlockPyExpr} {args : CallArgs} {keywords : CallKeywords}
  (hfunc : misses pool.finds (emitCodegenExpr m pool.values func) =
    misses pool.finds (fallbackTexts m explicit func))
  (hargs : misses pool.finds ((emitArgs m pool.values args).flatMap Prod.snd) =
    misses pool.finds (argFallbackTexts m explicit args))
  (hfirst : ∀ arg rest, args = .positional arg rest →
    misses pool.finds (emitCodegenExpr m pool.values arg) =
      misses pool.finds (fallbackTexts m explicit arg))
  (hkeywords : misses pool.finds (emitKeywords m pool.values keywords) =
    misses pool.finds (keywordFallbackTexts m explicit keywords))

include hrequired hfunc hargs hkeywords

/-- A call that is not special looks up only names that are always required. -/
theorem misses_plainCall (hasUnpack : Bool) :
    misses pool.finds (callEvents none hasUnpack (!keywords.isEmpty)
        (emitCodegenExpr m pool.values func) (emitArgs m pool.values args)
        (emitKeywords m pool.values keywords)) =
      misses pool.finds (fallbackTexts m explicit func ++
        (argFallbackTexts m explicit args ++ keywordFallbackTexts m explicit keywords)) := by
  have hrequire (name : String) (hname : name ∈ alwaysRequired) (rest : List PoolEvent) :=
    misses_requireText (hrequired name hname) rest
  rw [misses_append, misses_append, ← hfunc, ← hargs, ← hkeywords, callEvents]
  cases hasUnpack with
  | true =>
    have hdict : misses pool.finds (if (!keywords.isEmpty) = true then [requireText "dict"] else
        []) = [] := by
      split_ifs
      · exact hrequire "dict" (by decide) []
      · rfl
    have hmethods : misses pool.finds ((emitArgs m pool.values args).flatMap fun arg =>
        requireText (if arg.1 then "extend" else "append") :: arg.2) =
        misses pool.finds ((emitArgs m pool.values args).flatMap Prod.snd) := by
      apply misses_flatMap
      intro arg _
      split_ifs
      · exact hrequire "extend" (by decide) arg.2
      · exact hrequire "append" (by decide) arg.2
    rw [if_pos rfl, misses_append, hrequire "list" (by decide), misses_append, hdict,
      misses_append, hmethods, misses_append, hrequire "tuple_from_iter" (by decide), misses_nil,
      List.append_nil, List.nil_append]
  | false =>
    rw [if_neg Bool.false_ne_true, misses_append, misses_append]
    cases hempty : keywords.isEmpty with
    | true =>
      rw [emitKeywords_of_isEmpty hempty]
      rfl
    | false =>
      show _ ++ (_ ++ misses pool.finds (requireText "dict" :: _)) = _
      rw [hrequire "dict" (by decide)]

include h hfirst

/-- The lookups of a call, given those of its parts. -/
theorem misses_callEvents :
    misses pool.finds (callEvents (specialCall pool.values func args keywords)
        (!args.isSimple || !keywords.isSimple) (!keywords.isEmpty)
        (emitCodegenExpr m pool.values func) (emitArgs m pool.values args)
        (emitKeywords m pool.values keywords)) =
      misses pool.finds (unlessStopped (specialCall pool.values func args keywords)
        (specialTexts (specialCall pool.values func args keywords) ++
          (fallbackTexts m explicit func ++
            (argFallbackTexts m explicit args ++ keywordFallbackTexts m explicit keywords)))) := by
  cases hspecial : specialCall pool.values func args keywords with
  | none => exact misses_plainCall hrequired hfunc hargs hkeywords _
  | some special =>
    cases isSpecialCall_of_specialCall hspecial with
    | globals name => rfl
    | @str name arg text hname harg =>
      show misses _ [requireText text] =
        misses _ ([requireText text] ++ ([] ++ ((fallbackTexts m explicit arg ++ []) ++ [])))
      rw [fallbackTexts_of_constString h arg harg]
      rfl
    | tupleValues name args =>
      show misses _ ((emitArgs m pool.values args).flatMap Prod.snd) =
        misses _ (argFallbackTexts m explicit args ++ [])
      rw [List.append_nil, hargs]
    | @loadDeletedName name arg value text hname harg =>
      have harg' := fallbackTexts_of_constString (m := m) h arg harg
      have hvalue := hargs
      rw [emitArgs, List.flatMap_cons, misses_append, hfirst arg _ rfl, argFallbackTexts,
        misses_append, harg', misses_nil, List.nil_append, List.nil_append] at hvalue
      show misses _ ([requireText text] ++ (emitArgs m pool.values
          (.positional value .nil)).flatMap Prod.snd) =
        misses _ ([requireText text] ++ ([] ++ ((fallbackTexts m explicit arg ++
          argFallbackTexts m explicit (.positional value .nil)) ++ [])))
      rw [harg', misses_append, hvalue, List.append_nil, misses_append]
      rfl
    | @cellRef name arg cell hname hcell =>
      cases cell with
      | false => rfl
      | true =>
        obtain ⟨located, rfl⟩ := eq_load_of_hasCell hcell
        rfl

end Calls

/-! ## Expressions, terminators and functions -/

/-- The pool has these strings. -/
def HasTexts (pool : ModuleCodegenConstants) (strings : List ByteArray) : Prop :=
  ∀ bytes ∈ strings, .unicode bytes ∈ pool.values

theorem HasTexts.of_append {first second : List ByteArray} (h : HasTexts pool (first ++ second)) :
    HasTexts pool first ∧ HasTexts pool second :=
  List.forall_mem_append.mp h

theorem HasTexts.head {text : String} {rest : List ByteArray}
    (h : HasTexts pool (text.toUTF8 :: rest)) (events : List PoolEvent) :
    misses pool.finds (requireText text :: events) = misses pool.finds events :=
  misses_requireText (h _ List.mem_cons_self) events

theorem HasTexts.tail {bytes : ByteArray} {rest : List ByteArray}
    (h : HasTexts pool (bytes :: rest)) : HasTexts pool rest :=
  fun other hother => h other (List.mem_cons_of_mem _ hother)

theorem misses_append_congr {found : ModuleConstantValue → Bool}
    {first first' second second' : List PoolEvent}
    (hfirst : misses found first = misses found first')
    (hsecond : misses found second = misses found second') :
    misses found (first ++ second) = misses found (first' ++ second') := by
  rw [misses_append, misses_append, hfirst, hsecond]

mutual

/-- What an expression looks up is in the pool, the texts of direct calls apart. -/
theorem misses_emitCodegenExpr (h : pool.Extends explicit)
    (hrequired : ∀ name ∈ alwaysRequired, .unicode name.toUTF8 ∈ pool.values) :
    ∀ expr, HasTexts pool (texts explicit expr) →
      misses pool.finds (emitCodegenExpr m pool.values expr) =
        misses pool.finds (fallbackTexts m explicit expr)
  | .load name, htexts => by
    rw [texts] at htexts
    rw [emitCodegenExpr, fallbackTexts]
    obtain ⟨id, location⟩ := name
    cases location with
    | global slot => exact HasTexts.head htexts []
    | runtimeName => exact HasTexts.head htexts []
    | «local» _ | cell _ | constant _ => rfl
  | .incrementCounter _, _ | .cellRef _, _ => rfl
  | .unaryOp _ operand, htexts | .makeCell operand, htexts =>
    misses_emitCodegenExpr h hrequired operand htexts
  | .binOp _ left right, htexts =>
    misses_append_congr (misses_emitCodegenExpr h hrequired left htexts.of_append.1)
      (misses_emitCodegenExpr h hrequired right htexts.of_append.2)
  | .getItem value index, htexts | .delItem value index, htexts =>
    misses_append_congr (misses_emitCodegenExpr h hrequired value htexts.of_append.1)
      (misses_emitCodegenExpr h hrequired index htexts.of_append.2)
  | .setItem value index replacement, htexts =>
    misses_append_congr (misses_emitCodegenExpr h hrequired value htexts.of_append.1)
      (misses_append_congr (misses_emitCodegenExpr h hrequired index htexts.of_append.2.of_append.1)
        (misses_emitCodegenExpr h hrequired replacement htexts.of_append.2.of_append.2))
  | .getAttr value attr, htexts =>
    misses_append_congr (misses_emitCodegenExpr h hrequired value htexts.of_append.2.of_append.1)
      (misses_emitCodegenExpr h hrequired attr htexts.of_append.2.of_append.2)
  | .setAttr value attr replacement, htexts =>
    have hparts := htexts.of_append.2
    misses_append_congr (misses_emitCodegenExpr h hrequired value hparts.of_append.1)
      (misses_append_congr (misses_emitCodegenExpr h hrequired attr hparts.of_append.2.of_append.1)
        (misses_emitCodegenExpr h hrequired replacement hparts.of_append.2.of_append.2))
  | .store name value, htexts => by
    rw [texts] at htexts
    rw [emitCodegenExpr, fallbackTexts]
    obtain ⟨id, location⟩ := name
    cases location with
    | global slot =>
      show misses _ (_ ++ [requireText id]) = misses _ (fallbackTexts m explicit value)
      rw [misses_append, HasTexts.head htexts [], misses_nil, List.append_nil]
      exact misses_emitCodegenExpr h hrequired value (HasTexts.tail htexts)
    | «local» _ | cell _ => exact misses_emitCodegenExpr h hrequired value htexts
    | runtimeName | constant _ => rfl
  | .del name quietly, htexts => by
    rw [texts] at htexts
    rw [emitCodegenExpr, fallbackTexts]
    obtain ⟨id, location⟩ := name
    cases location with
    | global slot => exact HasTexts.head htexts []
    | «local» _ | cell _ | runtimeName | constant _ => rfl
  | .calleeFunctionId _, _ | .makeFunction _ _ _ _, _ => rfl
  | .call func args keywords, htexts => by
    have hspecial := misses_specialTexts_of_texts h htexts
    rw [texts] at htexts
    have hparts := htexts.of_append.2.of_append.2
    have hargs := misses_emitArgs h hrequired args hparts.of_append.2.of_append.1
    rw [emitCodegenExpr, misses_callEvents h hrequired
      (misses_emitCodegenExpr h hrequired func hparts.of_append.1) hargs.1 hargs.2
      (misses_emitKeywords h hrequired keywords hparts.of_append.2.of_append.2),
      unlessStopped_explicit h, fallbackTexts]
    apply misses_unlessStopped
    rw [misses_append, hspecial, List.nil_append]
  | .callDirect functionId callable args keywords, htexts => by
    rw [texts] at htexts
    have hcallable := misses_emitCodegenExpr h hrequired callable htexts.of_append.1
    have hargs := misses_emitArgs h hrequired args htexts.of_append.2.of_append.1
    rw [emitCodegenExpr, fallbackTexts]
    split_ifs
    · exact misses_append_congr hcallable hargs.1
    · rw [misses_callEvents h hrequired hcallable hargs.1 hargs.2
        (misses_emitKeywords h hrequired keywords htexts.of_append.2.of_append.2),
        unlessStopped_explicit h]
      exact misses_unlessStopped _
        (misses_append_congr (misses_specialTexts_explicit h callable args keywords) rfl)

/-- The arguments of a call, and the first one by itself. -/
theorem misses_emitArgs (h : pool.Extends explicit)
    (hrequired : ∀ name ∈ alwaysRequired, .unicode name.toUTF8 ∈ pool.values) :
    ∀ args, HasTexts pool (argTexts explicit args) →
      misses pool.finds ((emitArgs m pool.values args).flatMap Prod.snd) =
          misses pool.finds (argFallbackTexts m explicit args) ∧
        ∀ arg rest, args = .positional arg rest →
          misses pool.finds (emitCodegenExpr m pool.values arg) =
            misses pool.finds (fallbackTexts m explicit arg)
  | .nil, _ => ⟨rfl, nofun⟩
  | .positional value rest, htexts => by
    have hvalue := misses_emitCodegenExpr h hrequired value htexts.of_append.1
    refine ⟨misses_append_congr hvalue (misses_emitArgs h hrequired rest htexts.of_append.2).1, ?_⟩
    intro arg rest' heq
    cases heq
    exact hvalue
  | .starred value rest, htexts =>
    ⟨misses_append_congr (misses_emitCodegenExpr h hrequired value htexts.of_append.1)
      (misses_emitArgs h hrequired rest htexts.of_append.2).1, nofun⟩

theorem misses_emitKeywords (h : pool.Extends explicit)
    (hrequired : ∀ name ∈ alwaysRequired, .unicode name.toUTF8 ∈ pool.values) :
    ∀ keywords, HasTexts pool (keywordTexts explicit keywords) →
      misses pool.finds (emitKeywords m pool.values keywords) =
        misses pool.finds (keywordFallbackTexts m explicit keywords)
  | .nil, _ => rfl
  | .named arg value rest, htexts => by
    rw [keywordTexts] at htexts
    rw [emitKeywords, htexts.head, keywordFallbackTexts]
    exact misses_append_congr (misses_emitCodegenExpr h hrequired value htexts.tail.of_append.1)
      (misses_emitKeywords h hrequired rest htexts.tail.of_append.2)
  | .starred value rest, htexts => by
    rw [emitKeywords, misses_requireText (hrequired "update" (by decide)), keywordFallbackTexts]
    exact misses_append_congr (misses_emitCodegenExpr h hrequired value htexts.of_append.1)
      (misses_emitKeywords h hrequired rest htexts.of_append.2)

end

/-- The pool has these values. -/
def HasValues (pool : ModuleCodegenConstants) (values : List ModuleConstantValue) : Prop :=
  ∀ value ∈ values, value ∈ pool.values

theorem HasValues.of_append {first second : List ModuleConstantValue}
    (h : HasValues pool (first ++ second)) : HasValues pool first ∧ HasValues pool second :=
  List.forall_mem_append.mp h

theorem HasValues.of_flatMap {α : Type} {f : α → List ModuleConstantValue} {items : List α}
    (h : HasValues pool (items.flatMap f)) {item : α} (hitem : item ∈ items) :
    HasValues pool (f item) :=
  fun value hvalue => h value (List.mem_flatMap_of_mem hitem hvalue)

theorem HasValues.hasTexts {expr : CodegenBlockPyExpr}
    (h : HasValues pool (collectedFromExpr explicit expr)) : HasTexts pool (texts explicit expr) :=
  fun _ hbytes => h _ (List.mem_map_of_mem hbytes)

/-! ### Jumps -/

/-- The tags of the arguments have been collected. -/
theorem misses_blockArgEvents {arg : BlockArg} (h : HasValues pool (collectedFromBlockArg arg)) :
    misses pool.finds (blockArgEvents arg) =
      misses pool.finds ((blockArgEvents arg).filter (· = .stop)) := by
  cases arg with
  | abruptKind kind =>
    exact misses_require (ModuleCodegenConstants.lookupId_isSome.mpr (h _ List.mem_cons_self)) []
  | name _ | none | currentException => rfl

theorem misses_slotWriteEvents (runtimeTargetParams : List String) (targets : List String)
    {args : List BlockArg} (h : HasValues pool (args.flatMap collectedFromBlockArg)) :
    misses pool.finds (slotWriteEvents runtimeTargetParams targets args) =
      misses pool.finds
        ((slotWriteEvents runtimeTargetParams targets args).filter (· = .stop)) := by
  induction args generalizing targets with
  | nil => rw [slotWriteEvents]; rfl
  | cons arg args ih =>
    rw [List.flatMap_cons] at h
    cases targets with
    | nil => rfl
    | cons target targets =>
      rw [slotWriteEvents, List.filter_append]
      refine misses_append_congr ?_ (ih targets h.of_append.2)
      split_ifs
      · rfl
      · exact misses_blockArgEvents h.of_append.1

theorem mem_of_explicitArg {full : List String} {args : List BlockArg} {name : String}
    {arg : BlockArg} (h : explicitArg full args name = some arg) : arg ∈ args := by
  obtain ⟨offset, -, harg⟩ := Option.bind_eq_some_iff.mp h
  exact List.mem_of_getElem? harg

theorem misses_jumpEvents (function : CodegenFunction) {edge : BlockEdge}
    (h : HasValues pool (edge.args.flatMap collectedFromBlockArg)) :
    misses pool.finds (jumpEvents function edge) =
      misses pool.finds ((jumpEvents function edge).filter (· = .stop)) := by
  unfold jumpEvents
  split
  · next target _ =>
    rw [List.filter_append]
    refine misses_append_congr (misses_slotWriteEvents _ _ h) ?_
    rw [List.filter_flatMap]
    apply misses_flatMap
    intro name _
    cases harg : explicitArg target.paramNames edge.args name with
    | none => rfl
    | some arg => exact misses_blockArgEvents (h.of_flatMap (mem_of_explicitArg harg))
  · rfl

/-! ### Functions -/

section Functions

variable (h : pool.Extends explicit)
  (hrequired : ∀ name ∈ alwaysRequired, .unicode name.toUTF8 ∈ pool.values)

include h hrequired

theorem misses_emitBranchIndex {index : CodegenBlockPyExpr}
    (hvalues : HasValues pool (collectedFromExpr explicit index)) (rest : List PoolEvent) :
    misses pool.finds (emitBranchIndex m pool.values index ++ rest) =
      misses pool.finds (match index with
        | .calleeFunctionId value => fallbackTexts m explicit value ++ rest
        | index => fallbackTexts m explicit index ++ rest) := by
  cases index with
  | calleeFunctionId value =>
    exact misses_append_congr (misses_emitCodegenExpr h hrequired value hvalues.hasTexts) rfl
  | _ => exact misses_append_congr (misses_emitCodegenExpr h hrequired _ hvalues.hasTexts) rfl

theorem misses_termEvents (function : CodegenFunction) (term : BlockTerm CodegenBlockPyExpr)
    (hvalues : HasValues pool (collectedFromTerm explicit term)) :
    misses pool.finds (termEvents m pool.values function term) =
      misses pool.finds (termFallbackTexts m explicit function term) := by
  cases term with
  | jump edge => exact misses_jumpEvents function hvalues
  | ifTerm test _ _ =>
    exact misses_append_congr (misses_emitCodegenExpr h hrequired test hvalues.hasTexts) rfl
  | branchTable index targets defaultLabel =>
    rw [termEvents, misses_emitBranchIndex h hrequired hvalues]
    cases index <;> rfl
  | raiseTerm exc =>
    rw [termEvents, misses_requireText (hrequired "raise_from" (by decide)), termFallbackTexts]
    cases exc with
    | none => rfl
    | some exc => exact misses_emitCodegenExpr h hrequired exc (HasValues.hasTexts hvalues)
  | ret value => exact misses_emitCodegenExpr h hrequired value hvalues.hasTexts

omit h hrequired in
theorem misses_paramEvents {param : Param × Option ParamDefaultSource}
    (hvalues : HasValues pool (collectedFromParam param)) :
    misses pool.finds (paramEvents param) = [] := by
  obtain ⟨param, source⟩ := param
  cases source with
  | none => rfl
  | some source =>
    cases source with
    | positional index => exact misses_requireText (hvalues _ List.mem_cons_self) []
    | keywordOnly name => exact misses_requireText (hvalues _ List.mem_cons_self) []

/-- What a function looks up is in the pool, the texts of direct calls apart. -/
theorem misses_functionEvents (function : CodegenFunction)
    (hvalues : HasValues pool (collectedFromFunction explicit function)) :
    misses pool.finds (functionEvents m pool.values function) =
      misses pool.finds (functionFallbackTexts m explicit function) := by
  refine misses_append_congr rfl ?_
  rw [misses_append, misses_flatMap_eq_nil fun param hparam =>
    misses_paramEvents (hvalues.of_append.1.of_flatMap hparam), List.nil_append]
  apply misses_flatMap
  intro block hblock
  have hparts := (hvalues.of_append.2.of_flatMap hblock).of_append
  refine misses_append_congr ?_ (misses_termEvents h hrequired function block.term hparts.2)
  apply misses_flatMap
  intro expr hexpr
  exact misses_emitCodegenExpr h hrequired expr (hparts.1.of_flatMap hexpr).hasTexts

end Functions

end Coverage

/-! ## When no lookup panics -/

/-- Explicit constants keep their indices. -/
def CodegenModule.KeepsConstants (m : CodegenModule) (pool : ModuleCodegenConstants) : Prop :=
  ∀ (index : ℕ) (constant : LocatedCoreBlockPyExpr), m.moduleConstants[index]? = some constant →
    ∃ value, explicitConstantValue constant = some value ∧ pool.values[index]? = some value

/-- Code generation of no function panics at a lookup. -/
def CodegenModule.LookupsSucceed (m : CodegenModule) (pool : ModuleCodegenConstants) : Prop :=
  ∀ function ∈ m.callableDefs, allFound pool.finds (functionEvents m pool.values function) = true

/-- The text of a direct call that falls back is also named elsewhere: it is an explicit string, a
name that is always required or a string that is collected from a function. -/
def CodegenModule.FallbackTextsNamed (m : CodegenModule) : Prop :=
  ∀ function ∈ m.callableDefs,
    allFound (fun value => decide (value ∈ m.named))
      (functionFallbackTexts m m.explicitValues function) = true

theorem getElem?_of_mapM_eq_some {α β : Type} {f : α → Option β} {xs : List α} {ys : List β}
    (h : xs.mapM f = some ys) {index : ℕ} {x : α} (hx : xs[index]? = some x) :
    ∃ y, f x = some y ∧ ys[index]? = some y := by
  induction xs generalizing ys index with
  | nil => cases hx
  | cons x' xs ih =>
    rw [List.mapM_cons] at h
    obtain ⟨y, hy, h⟩ := Option.bind_eq_some_iff.mp h
    obtain ⟨rest, hrest, h⟩ := Option.bind_eq_some_iff.mp h
    cases h
    cases index with
    | zero => cases hx; exact ⟨y, hy, rfl⟩
    | succ index => exact ih hrest hx

theorem keepsConstants {m : CodegenModule} {pool : ModuleCodegenConstants}
    (h : collectFromModule m = some pool) : m.KeepsConstants pool := by
  obtain ⟨hexplicit, hpool, -⟩ := collectFromModule_spec h
  intro index constant hconstant
  obtain ⟨value, hvalue, hindex⟩ := getElem?_of_mapM_eq_some hexplicit hconstant
  exact ⟨value, hvalue, hpool.getElem? hindex⟩

/-- Explicit constants always keep their indices; no lookup panics if and only if the texts of
direct calls that fall back are named elsewhere. -/
theorem lookupsSucceed_iff {m : CodegenModule} {pool : ModuleCodegenConstants}
    (h : collectFromModule m = some pool) :
    m.KeepsConstants pool ∧ m.LookupsSucceed pool ↔ m.FallbackTextsNamed := by
  obtain ⟨-, hpool, hmem⟩ := collectFromModule_spec h
  have hfinds : pool.finds = fun value => decide (value ∈ m.named) := by
    funext value
    rw [Bool.eq_iff_iff, decide_eq_true_iff, ← hmem]
    exact ModuleCodegenConstants.lookupId_isSome
  have hrequired : ∀ name ∈ alwaysRequired, .unicode name.toUTF8 ∈ pool.values := by
    intro name hname
    exact (hmem _).mpr (List.mem_append_right _
      (List.mem_append_left _ (List.mem_map_of_mem hname)))
  have hfunction (function : CodegenFunction) (hf : function ∈ m.callableDefs) :
      allFound pool.finds (functionEvents m pool.values function) =
        allFound (fun value => decide (value ∈ m.named))
          (functionFallbackTexts m m.explicitValues function) := by
    have hvalues : HasValues pool (collectedFromFunction m.explicitValues function) := by
      intro value hvalue
      exact (hmem _).mpr (List.mem_append_right _ (List.mem_append_right _
        (List.mem_flatMap_of_mem hf hvalue)))
    rw [← allFound_misses, misses_functionEvents hpool hrequired function hvalues,
      allFound_misses, hfinds]
  constructor
  · rintro ⟨-, hlookups⟩ function hf
    rw [← hfunction function hf]
    exact hlookups function hf
  · intro hnamed
    refine ⟨keepsConstants h, ?_⟩
    intro function hf
    rw [hfunction function hf]
    exact hnamed function hf

/-- A module with one constant and a function that returns a direct call of `str` with it; there is
no function with the number that it calls. -/
def directStrModule (literal : BlockPyLiteral) : CodegenModule where
  callableDefs :=
    [⟨0, [], [⟨0, [], .ret (.callDirect 7 (.load ⟨"str", .global 0⟩)
      (.positional (.load ⟨"__dp_constant", .constant 0⟩) .nil) .nil), [], none⟩]⟩]
  moduleConstants := [.literal () literal]

instance (m : CodegenModule) : Decidable m.FallbackTextsNamed :=
  inferInstanceAs (Decidable (∀ function ∈ m.callableDefs, _ = true))

/-- A string is named by the constant itself. -/
theorem lookupsSucceed_directStr :
    ∃ pool, collectFromModule (directStrModule (.stringLiteral "abc")) = some pool ∧
      (directStrModule (.stringLiteral "abc")).KeepsConstants pool ∧
      (directStrModule (.stringLiteral "abc")).LookupsSucceed pool :=
  ⟨_, rfl, (lookupsSucceed_iff rfl).mpr (by decide +kernel)⟩

/-- The text of bytes is not. -/
theorem directStr_bytes_not_found :
    ∃ pool, collectFromModule (directStrModule (.bytesLiteral [97, 98, 99])) = some pool ∧
      ¬ (directStrModule (.bytesLiteral [97, 98, 99])).LookupsSucceed pool := by
  refine ⟨_, rfl, ?_⟩
  intro h
  have hfound := h _ List.mem_cons_self
  revert hfound
  decide +kernel

end DietPython.ModuleConstants
