import DietPython.Calls.ParamSpec
import DietPython.Jit.BlockEdges
import DietPython.ModuleConstants.Pool

/-!
# Collecting the constants of a module

The collector walks over the expressions of a module and interns the strings and the integers that
code generation will ask for. Which text a call has depends on the pool at that moment; `texts` is
the same for the explicit constants alone, and `collectFromModule_spec` says that it makes no
difference.
-/

namespace DietPython.ModuleConstants

open Blocks Calls
open Jit (abruptKindTag)

/-! ## Expressions -/

mutual

/-- An expression that code is generated for. -/
inductive CodegenBlockPyExpr
  | binOp (kind : BinOpKind) (left right : CodegenBlockPyExpr)
  | unaryOp (kind : UnaryOpKind) (operand : CodegenBlockPyExpr)
  | calleeFunctionId (value : CodegenBlockPyExpr)
  | call (func : CodegenBlockPyExpr) (args : CallArgs) (keywords : CallKeywords)
  | callDirect (functionId : ℕ) (callable : CodegenBlockPyExpr) (args : CallArgs)
    (keywords : CallKeywords)
  | getAttr (value attr : CodegenBlockPyExpr)
  | setAttr (value attr replacement : CodegenBlockPyExpr)
  | getItem (value index : CodegenBlockPyExpr)
  | setItem (value index replacement : CodegenBlockPyExpr)
  | delItem (value index : CodegenBlockPyExpr)
  | load (name : LocatedName)
  | store (name : LocatedName) (value : CodegenBlockPyExpr)
  | del (name : LocatedName) (quietly : Bool)
  | makeCell (initialValue : CodegenBlockPyExpr)
  | incrementCounter (counterId : ℕ)
  | cellRef (location : CellLocation)
  | makeFunction (functionId : ℕ) (kind : FunctionKind)
    (paramDefaults annotateFn : CodegenBlockPyExpr)

/-- `Vec<CallArgPositional>` -/
inductive CallArgs
  | nil
  | positional (value : CodegenBlockPyExpr) (rest : CallArgs)
  | starred (value : CodegenBlockPyExpr) (rest : CallArgs)

/-- `Vec<CallArgKeyword>` -/
inductive CallKeywords
  | nil
  | named (arg : String) (value : CodegenBlockPyExpr) (rest : CallKeywords)
  | starred (value : CodegenBlockPyExpr) (rest : CallKeywords)

end

structure CodegenFunction where
  functionId : ℕ
  params : List Param
  blocks : List (Block CodegenBlockPyExpr CodegenBlockPyExpr)

structure CodegenModule where
  callableDefs : List CodegenFunction
  moduleConstants : List LocatedCoreBlockPyExpr

/-! ## Names and texts -/

section Texts

variable (values : List ModuleConstantValue)

def helperNameForCodegenExpr : CodegenBlockPyExpr → Option String
  | .load name =>
    match name.location with
    | .global _ | .runtimeName => some name.id
    | .constant index => constantRuntimeNameValue values index
    | _ => none
  | _ => none

def stringConstantBytesForSpecializedCodegen : CodegenBlockPyExpr → Option ByteArray
  | .load name =>
    match name.location with
    | .constant index => constantStringBytesValue values index
    | _ => none
  | .call func (.positional arg .nil) .nil | .call func (.starred arg .nil) .nil =>
    if helperNameForCodegenExpr values func = some "str" then
      stringConstantBytesForSpecializedCodegen arg
    else none
  | _ => none

def deletedNameArgBytes (func : CodegenBlockPyExpr) (args : CallArgs) : Option ByteArray :=
  if helperNameForCodegenExpr values func = some "load_deleted_name" then
    match args with
    | .positional name (.positional _ .nil) | .positional name (.starred _ .nil)
    | .starred name (.positional _ .nil) | .starred name (.starred _ .nil) =>
      stringConstantBytesForSpecializedCodegen values name
    | _ => none
  else none

end Texts

/-! ## The collector -/

def ModuleCodegenConstants.internOptional (pool : ModuleCodegenConstants)
    (bytes : Option ByteArray) : ModuleCodegenConstants :=
  bytes.elim pool pool.internUnicodeBytes

mutual

def collectExpr (pool : ModuleCodegenConstants) : CodegenBlockPyExpr → ModuleCodegenConstants
  | .incrementCounter _ => pool
  | .calleeFunctionId value => collectExpr pool value
  | .call func args keywords =>
    let pool := pool.internOptional
      (stringConstantBytesForSpecializedCodegen pool.values (.call func args keywords))
    let pool := pool.internOptional (deletedNameArgBytes pool.values func args)
    collectKeywords (collectArgs (collectExpr pool func) args) keywords
  | .callDirect _ callable args keywords =>
    collectKeywords (collectArgs (collectExpr pool callable) args) keywords
  | .getAttr value attr =>
    let pool := pool.internOptional (stringConstantBytesForSpecializedCodegen pool.values attr)
    collectExpr (collectExpr pool value) attr
  | .setAttr value attr replacement =>
    let pool := pool.internOptional (stringConstantBytesForSpecializedCodegen pool.values attr)
    collectExpr (collectExpr (collectExpr pool value) attr) replacement
  | .load name =>
    match name.location with
    | .global _ | .runtimeName => pool.internUnicodeBytes name.id.toUTF8
    | _ => pool
  | .store name value =>
    match name.location with
    | .global _ => collectExpr (pool.internUnicodeBytes name.id.toUTF8) value
    | _ => collectExpr pool value
  | .del name _ =>
    match name.location with
    | .global _ => pool.internUnicodeBytes name.id.toUTF8
    | _ => pool
  | .binOp _ left right => collectExpr (collectExpr pool left) right
  | .unaryOp _ operand => collectExpr pool operand
  | .getItem value index | .delItem value index => collectExpr (collectExpr pool value) index
  | .setItem value index replacement =>
    collectExpr (collectExpr (collectExpr pool value) index) replacement
  | .makeCell initialValue => collectExpr pool initialValue
  | .makeFunction _ _ paramDefaults annotateFn =>
    collectExpr (collectExpr pool paramDefaults) annotateFn
  | .cellRef _ => pool

def collectArgs (pool : ModuleCodegenConstants) : CallArgs → ModuleCodegenConstants
  | .nil => pool
  | .positional value rest | .starred value rest => collectArgs (collectExpr pool value) rest

def collectKeywords (pool : ModuleCodegenConstants) : CallKeywords → ModuleCodegenConstants
  | .nil => pool
  | .named arg value rest =>
    collectKeywords (collectExpr (pool.internUnicodeBytes arg.toUTF8) value) rest
  | .starred value rest => collectKeywords (collectExpr pool value) rest

end

def collectBlockArg (pool : ModuleCodegenConstants) : BlockArg → ModuleCodegenConstants
  | .abruptKind kind => pool.internInt (abruptKindTag kind)
  | _ => pool

def collectTerm (pool : ModuleCodegenConstants) :
    BlockTerm CodegenBlockPyExpr → ModuleCodegenConstants
  | .jump edge => edge.args.foldl collectBlockArg pool
  | .ifTerm test _ _ => collectExpr pool test
  | .branchTable index _ _ => collectExpr pool index
  | .raiseTerm exc => exc.elim pool (collectExpr pool)
  | .ret value => collectExpr pool value

def collectBlock (pool : ModuleCodegenConstants)
    (block : Block CodegenBlockPyExpr CodegenBlockPyExpr) : ModuleCodegenConstants :=
  collectTerm (block.body.foldl collectExpr pool) block.term

def collectParam (pool : ModuleCodegenConstants) (param : Param × Option ParamDefaultSource) :
    ModuleCodegenConstants :=
  match param.2 with
  | some (.positional _) => pool.internUnicodeBytes param.1.name.toUTF8
  | some (.keywordOnly name) => pool.internUnicodeBytes name.toUTF8
  | none => pool

def collectFunction (pool : ModuleCodegenConstants) (function : CodegenFunction) :
    ModuleCodegenConstants :=
  function.blocks.foldl collectBlock
    ((iterWithDefaultSources 0 function.params).foldl collectParam pool)

/-- `ALWAYS_REQUIRED_UNICODE_CONSTANTS` -/
def alwaysRequired : List String :=
  ["dict", "list", "raise_from", "tuple_from_iter", "append", "extend", "update"]

/-- `collect_from_module`. There is nothing if it panics at an explicit constant. -/
def collectFromModule (m : CodegenModule) : Option ModuleCodegenConstants := do
  let pool ← m.moduleConstants.foldlM pushExplicitConstantExpr .empty
  let pool := alwaysRequired.foldl (fun pool name => pool.internUnicodeBytes name.toUTF8) pool
  return m.callableDefs.foldl collectFunction pool

/-! ## What is collected -/

section Collected

variable (explicit : List ModuleConstantValue)

mutual

/-- The strings that the collector finds, in order, if only the explicit constants are known. -/
def texts : CodegenBlockPyExpr → List ByteArray
  | .incrementCounter _ | .cellRef _ => []
  | .calleeFunctionId value => texts value
  | .call func args keywords =>
    (stringConstantBytesForSpecializedCodegen explicit (.call func args keywords)).toList ++
      ((deletedNameArgBytes explicit func args).toList ++
        (texts func ++ (argTexts args ++ keywordTexts keywords)))
  | .callDirect _ callable args keywords =>
    texts callable ++ (argTexts args ++ keywordTexts keywords)
  | .getAttr value attr =>
    (stringConstantBytesForSpecializedCodegen explicit attr).toList ++
      (texts value ++ texts attr)
  | .setAttr value attr replacement =>
    (stringConstantBytesForSpecializedCodegen explicit attr).toList ++
      (texts value ++ (texts attr ++ texts replacement))
  | .load name =>
    match name.location with
    | .global _ | .runtimeName => [name.id.toUTF8]
    | _ => []
  | .store name value =>
    match name.location with
    | .global _ => name.id.toUTF8 :: texts value
    | _ => texts value
  | .del name _ =>
    match name.location with
    | .global _ => [name.id.toUTF8]
    | _ => []
  | .binOp _ left right => texts left ++ texts right
  | .unaryOp _ operand => texts operand
  | .getItem value index | .delItem value index => texts value ++ texts index
  | .setItem value index replacement => texts value ++ (texts index ++ texts replacement)
  | .makeCell initialValue => texts initialValue
  | .makeFunction _ _ paramDefaults annotateFn => texts paramDefaults ++ texts annotateFn

def argTexts : CallArgs → List ByteArray
  | .nil => []
  | .positional value rest | .starred value rest => texts value ++ argTexts rest

def keywordTexts : CallKeywords → List ByteArray
  | .nil => []
  | .named arg value rest => arg.toUTF8 :: (texts value ++ keywordTexts rest)
  | .starred value rest => texts value ++ keywordTexts rest

end

def collectedFromExpr (expr : CodegenBlockPyExpr) : List ModuleConstantValue :=
  (texts explicit expr).map .unicode

def collectedFromBlockArg : BlockArg → List ModuleConstantValue
  | .abruptKind kind => [.int (abruptKindTag kind)]
  | _ => []

def collectedFromTerm : BlockTerm CodegenBlockPyExpr → List ModuleConstantValue
  | .jump edge => edge.args.flatMap collectedFromBlockArg
  | .ifTerm test _ _ => collectedFromExpr explicit test
  | .branchTable index _ _ => collectedFromExpr explicit index
  | .raiseTerm exc => exc.elim [] (collectedFromExpr explicit)
  | .ret value => collectedFromExpr explicit value

def collectedFromBlock (block : Block CodegenBlockPyExpr CodegenBlockPyExpr) :
    List ModuleConstantValue :=
  block.body.flatMap (collectedFromExpr explicit) ++ collectedFromTerm explicit block.term

/-- The name that the default of a parameter is looked up by. -/
def collectedFromParam (param : Param × Option ParamDefaultSource) : List ModuleConstantValue :=
  match param.2 with
  | some (.positional _) => [.unicode param.1.name.toUTF8]
  | some (.keywordOnly name) => [.unicode name.toUTF8]
  | none => []

def collectedFromFunction (function : CodegenFunction) : List ModuleConstantValue :=
  (iterWithDefaultSources 0 function.params).flatMap collectedFromParam ++
    function.blocks.flatMap (collectedFromBlock explicit)

end Collected

/-- The values of the explicit constants. -/
def CodegenModule.explicitValues (m : CodegenModule) : List ModuleConstantValue :=
  m.moduleConstants.filterMap explicitConstantValue

/-- Everything that the module names: the explicit constants, the names that are always required
and what is collected from its functions. -/
def CodegenModule.named (m : CodegenModule) : List ModuleConstantValue :=
  m.explicitValues ++ (alwaysRequired.map (fun name => .unicode name.toUTF8) ++
    m.callableDefs.flatMap (collectedFromFunction m.explicitValues))

/-! ## The pool and the explicit constants -/

section Views

variable {pool : ModuleCodegenConstants} {explicit : List ModuleConstantValue}

theorem helperNameForCodegenExpr_pool (h : pool.Extends explicit) (func : CodegenBlockPyExpr) :
    helperNameForCodegenExpr pool.values func = helperNameForCodegenExpr explicit func := by
  cases func with
  | load name =>
    obtain ⟨id, location⟩ := name
    cases location with
    | constant index => exact h.constantRuntimeNameValue index
    | _ => rfl
  | _ => rfl

theorem stringConstantBytes_of_explicit (h : pool.Extends explicit) (expr : CodegenBlockPyExpr)
    {bytes : ByteArray} (hbytes : stringConstantBytesForSpecializedCodegen explicit expr =
      some bytes) :
    stringConstantBytesForSpecializedCodegen pool.values expr = some bytes := by
  fun_induction stringConstantBytesForSpecializedCodegen explicit expr with
  | case1 name index hlocation =>
    rw [stringConstantBytesForSpecializedCodegen, hlocation]
    exact h.constantStringBytesValue_of_explicit hbytes
  | case2 name hlocation => cases hbytes
  | case3 func arg hstr ih | case5 func arg hstr ih =>
    rw [stringConstantBytesForSpecializedCodegen, helperNameForCodegenExpr_pool h, if_pos hstr]
    exact ih hbytes
  | case4 | case6 | case7 => cases hbytes

/-- A text that the pool adds is that of a string of the pool. -/
theorem stringConstantBytes_pool (h : pool.Extends explicit) (expr : CodegenBlockPyExpr)
    {bytes : ByteArray} (hbytes : stringConstantBytesForSpecializedCodegen pool.values expr =
      some bytes) :
    stringConstantBytesForSpecializedCodegen explicit expr = some bytes ∨
      .unicode bytes ∈ pool.values := by
  fun_induction stringConstantBytesForSpecializedCodegen pool.values expr with
  | case1 name index hlocation =>
    rw [stringConstantBytesForSpecializedCodegen, hlocation]
    exact h.constantStringBytesValue hbytes
  | case2 name hlocation => cases hbytes
  | case3 func arg hstr ih | case5 func arg hstr ih =>
    rw [helperNameForCodegenExpr_pool h] at hstr
    rw [stringConstantBytesForSpecializedCodegen, if_pos hstr]
    exact ih hbytes
  | case4 | case6 | case7 => cases hbytes

theorem deletedNameArgBytes_of_explicit (h : pool.Extends explicit) (func : CodegenBlockPyExpr)
    (args : CallArgs) {bytes : ByteArray}
    (hbytes : deletedNameArgBytes explicit func args = some bytes) :
    deletedNameArgBytes pool.values func args = some bytes := by
  unfold deletedNameArgBytes at hbytes ⊢
  rw [helperNameForCodegenExpr_pool h]
  split_ifs at hbytes ⊢
  split at hbytes
  iterate 4 exact stringConstantBytes_of_explicit h _ hbytes
  cases hbytes

theorem deletedNameArgBytes_pool (h : pool.Extends explicit) (func : CodegenBlockPyExpr)
    (args : CallArgs) {bytes : ByteArray}
    (hbytes : deletedNameArgBytes pool.values func args = some bytes) :
    deletedNameArgBytes explicit func args = some bytes ∨ .unicode bytes ∈ pool.values := by
  unfold deletedNameArgBytes at hbytes ⊢
  rw [helperNameForCodegenExpr_pool h] at hbytes
  split_ifs at hbytes ⊢
  split at hbytes
  iterate 4 exact stringConstantBytes_pool h _ hbytes
  cases hbytes

/-- A text that is read off the pool is interned as if it were read off the explicit constants. -/
theorem internOptional_eq {fromPool fromExplicit : Option ByteArray}
    (hexplicit : ∀ bytes, fromExplicit = some bytes → fromPool = some bytes)
    (hpool : ∀ bytes, fromPool = some bytes →
      fromExplicit = some bytes ∨ .unicode bytes ∈ pool.values) :
    pool.internOptional fromPool = pool.internTexts fromExplicit.toList := by
  cases fromExplicit with
  | some bytes =>
    rw [hexplicit bytes rfl]
    rfl
  | none =>
    cases fromPool with
    | none => rfl
    | some bytes =>
      rcases hpool bytes rfl with h | h
      · cases h
      · exact ModuleCodegenConstants.intern_of_mem h

theorem internOptional_string (h : pool.Extends explicit) (expr : CodegenBlockPyExpr) :
    pool.internOptional (stringConstantBytesForSpecializedCodegen pool.values expr) =
      pool.internTexts (stringConstantBytesForSpecializedCodegen explicit expr).toList :=
  internOptional_eq (fun _ => stringConstantBytes_of_explicit h expr)
    fun _ => stringConstantBytes_pool h expr

theorem internOptional_deletedName (h : pool.Extends explicit) (func : CodegenBlockPyExpr)
    (args : CallArgs) :
    pool.internOptional (deletedNameArgBytes pool.values func args) =
      pool.internTexts (deletedNameArgBytes explicit func args).toList :=
  internOptional_eq (fun _ => deletedNameArgBytes_of_explicit h func args)
    fun _ => deletedNameArgBytes_pool h func args

end Views

/-! ## The collector interns what the module names -/

open ModuleCodegenConstants (Extends)

section Collecting

variable {explicit : List ModuleConstantValue}

mutual

theorem collectExpr_eq {pool : ModuleCodegenConstants} (h : pool.Extends explicit) :
    ∀ expr, collectExpr pool expr = pool.internTexts (texts explicit expr)
  | .incrementCounter _ | .cellRef _ => rfl
  | .calleeFunctionId value | .unaryOp _ value | .makeCell value => collectExpr_eq h value
  | .call func args keywords => by
    have hstring := h.internTexts
      (stringConstantBytesForSpecializedCodegen explicit (.call func args keywords)).toList
    have hname := hstring.internTexts (deletedNameArgBytes explicit func args).toList
    have hfunc := hname.internTexts (texts explicit func)
    rw [collectExpr, texts, internOptional_string h, internOptional_deletedName hstring,
      collectExpr_eq hname func, collectArgs_eq hfunc args,
      collectKeywords_eq (hfunc.internTexts _) keywords]
    simp only [ModuleCodegenConstants.internTexts_append]
  | .callDirect _ callable args keywords => by
    rw [collectExpr, texts, collectExpr_eq h callable, collectArgs_eq (h.internTexts _) args,
      collectKeywords_eq ((h.internTexts _).internTexts _) keywords]
    simp only [ModuleCodegenConstants.internTexts_append]
  | .getAttr value attr => by
    rw [collectExpr, texts, internOptional_string h, collectExpr_eq (h.internTexts _) value,
      collectExpr_eq ((h.internTexts _).internTexts _) attr]
    simp only [ModuleCodegenConstants.internTexts_append]
  | .setAttr value attr replacement => by
    rw [collectExpr, texts, internOptional_string h, collectExpr_eq (h.internTexts _) value,
      collectExpr_eq ((h.internTexts _).internTexts _) attr,
      collectExpr_eq (((h.internTexts _).internTexts _).internTexts _) replacement]
    simp only [ModuleCodegenConstants.internTexts_append]
  | .load name => by
    rw [collectExpr, texts]
    split <;> rfl
  | .store name value => by
    rw [collectExpr, texts]
    split
    · exact collectExpr_eq (h.internTexts [_]) value
    · exact collectExpr_eq h value
  | .del name _ => by
    rw [collectExpr, texts]
    split <;> rfl
  | .binOp _ left right => by
    rw [collectExpr, texts, collectExpr_eq h left, collectExpr_eq (h.internTexts _) right,
      ModuleCodegenConstants.internTexts_append]
  | .getItem value index | .delItem value index => by
    rw [collectExpr, texts, collectExpr_eq h value, collectExpr_eq (h.internTexts _) index,
      ModuleCodegenConstants.internTexts_append]
  | .setItem value index replacement => by
    rw [collectExpr, texts, collectExpr_eq h value, collectExpr_eq (h.internTexts _) index,
      collectExpr_eq ((h.internTexts _).internTexts _) replacement]
    simp only [ModuleCodegenConstants.internTexts_append]
  | .makeFunction _ _ paramDefaults annotateFn => by
    rw [collectExpr, texts, collectExpr_eq h paramDefaults,
      collectExpr_eq (h.internTexts _) annotateFn, ModuleCodegenConstants.internTexts_append]

theorem collectArgs_eq {pool : ModuleCodegenConstants} (h : pool.Extends explicit) :
    ∀ args, collectArgs pool args = pool.internTexts (argTexts explicit args)
  | .nil => rfl
  | .positional value rest | .starred value rest => by
    rw [collectArgs, argTexts, collectExpr_eq h value, collectArgs_eq (h.internTexts _) rest,
      ModuleCodegenConstants.internTexts_append]

theorem collectKeywords_eq {pool : ModuleCodegenConstants} (h : pool.Extends explicit) :
    ∀ keywords, collectKeywords pool keywords = pool.internTexts (keywordTexts explicit keywords)
  | .nil => rfl
  | .named arg value rest => by
    have harg : (pool.internUnicodeBytes arg.toUTF8).Extends explicit := h.internTexts [_]
    rw [collectKeywords, keywordTexts, ModuleCodegenConstants.internTexts_cons,
      ModuleCodegenConstants.internTexts_append, collectExpr_eq harg value,
      collectKeywords_eq (harg.internTexts _) rest]
  | .starred value rest => by
    rw [collectKeywords, keywordTexts, collectExpr_eq h value,
      collectKeywords_eq (h.internTexts _) rest, ModuleCodegenConstants.internTexts_append]

end

/-- Interning from item to item. -/
theorem foldl_eq_internAll {α : Type} {step : ModuleCodegenConstants → α → ModuleCodegenConstants}
    {named : α → List ModuleConstantValue}
    (hstep : ∀ (pool : ModuleCodegenConstants) (item : α), pool.Extends explicit →
      step pool item = pool.internAll (named item))
    (hnamed : ∀ item, ∀ value ∈ named item, value.IsInterned) (items : List α)
    {pool : ModuleCodegenConstants} (h : pool.Extends explicit) :
    items.foldl step pool = pool.internAll (items.flatMap named) := by
  induction items generalizing pool with
  | nil => rfl
  | cons item items ih =>
    rw [List.foldl_cons, hstep pool item h, ih (h.internAll (hnamed item)), List.flatMap_cons,
      ModuleCodegenConstants.internAll_append]

theorem isInterned_collectedFromExpr (expr : CodegenBlockPyExpr) :
    ∀ value ∈ collectedFromExpr explicit expr, value.IsInterned := by
  intro value hvalue
  obtain ⟨text, -, rfl⟩ := List.mem_map.mp hvalue
  trivial

theorem isInterned_collectedFromBlockArg (arg : BlockArg) :
    ∀ value ∈ collectedFromBlockArg arg, value.IsInterned := by
  intro value hvalue
  cases arg with
  | abruptKind kind =>
    rw [List.mem_singleton.mp hvalue]
    trivial
  | name _ | none | currentException => cases hvalue

theorem isInterned_flatMap {α : Type} {named : α → List ModuleConstantValue}
    (hnamed : ∀ item, ∀ value ∈ named item, value.IsInterned) (items : List α) :
    ∀ value ∈ items.flatMap named, value.IsInterned := by
  intro value hvalue
  obtain ⟨item, -, hvalue⟩ := List.mem_flatMap.mp hvalue
  exact hnamed item value hvalue

theorem isInterned_collectedFromTerm (term : BlockTerm CodegenBlockPyExpr) :
    ∀ value ∈ collectedFromTerm explicit term, value.IsInterned := by
  cases term with
  | jump edge => exact isInterned_flatMap isInterned_collectedFromBlockArg edge.args
  | ifTerm test _ _ => exact isInterned_collectedFromExpr test
  | branchTable index _ _ => exact isInterned_collectedFromExpr index
  | raiseTerm exc =>
    cases exc with
    | none => exact List.forall_mem_nil _
    | some exc => exact isInterned_collectedFromExpr exc
  | ret value => exact isInterned_collectedFromExpr value

theorem isInterned_collectedFromBlock (block : Block CodegenBlockPyExpr CodegenBlockPyExpr) :
    ∀ value ∈ collectedFromBlock explicit block, value.IsInterned := by
  intro value hvalue
  rcases List.mem_append.mp hvalue with hbody | hterm
  · exact isInterned_flatMap isInterned_collectedFromExpr block.body value hbody
  · exact isInterned_collectedFromTerm block.term value hterm

theorem isInterned_collectedFromParam (param : Param × Option ParamDefaultSource) :
    ∀ value ∈ collectedFromParam param, value.IsInterned := by
  intro value hvalue
  unfold collectedFromParam at hvalue
  split at hvalue
  · rw [List.mem_singleton.mp hvalue]; trivial
  · rw [List.mem_singleton.mp hvalue]; trivial
  · cases hvalue

theorem isInterned_collectedFromFunction (function : CodegenFunction) :
    ∀ value ∈ collectedFromFunction explicit function, value.IsInterned := by
  intro value hvalue
  rcases List.mem_append.mp hvalue with hparam | hblock
  · exact isInterned_flatMap isInterned_collectedFromParam _ value hparam
  · exact isInterned_flatMap isInterned_collectedFromBlock function.blocks value hblock

variable {pool : ModuleCodegenConstants}

theorem collectBlockArg_eq (arg : BlockArg) :
    collectBlockArg pool arg = pool.internAll (collectedFromBlockArg arg) := by
  cases arg <;> rfl

theorem collectTerm_eq (h : pool.Extends explicit) (term : BlockTerm CodegenBlockPyExpr) :
    collectTerm pool term = pool.internAll (collectedFromTerm explicit term) := by
  cases term with
  | jump edge =>
    exact foldl_eq_internAll (fun _ arg _ => collectBlockArg_eq arg)
      isInterned_collectedFromBlockArg edge.args h
  | ifTerm test _ _ => exact collectExpr_eq h test
  | branchTable index _ _ => exact collectExpr_eq h index
  | raiseTerm exc =>
    cases exc with
    | none => rfl
    | some exc => exact collectExpr_eq h exc
  | ret value => exact collectExpr_eq h value

theorem collectBlock_eq (h : pool.Extends explicit)
    (block : Block CodegenBlockPyExpr CodegenBlockPyExpr) :
    collectBlock pool block = pool.internAll (collectedFromBlock explicit block) := by
  have hbody : block.body.foldl collectExpr pool =
      pool.internAll (block.body.flatMap (collectedFromExpr explicit)) :=
    foldl_eq_internAll (fun _ expr hpool => collectExpr_eq hpool expr)
      isInterned_collectedFromExpr block.body h
  have hpool : (pool.internAll (block.body.flatMap (collectedFromExpr explicit))).Extends
      explicit :=
    h.internAll (isInterned_flatMap isInterned_collectedFromExpr block.body)
  rw [collectBlock, hbody, collectTerm_eq hpool, collectedFromBlock,
    ModuleCodegenConstants.internAll_append]

theorem collectParam_eq (param : Param × Option ParamDefaultSource) :
    collectParam pool param = pool.internAll (collectedFromParam param) := by
  unfold collectParam collectedFromParam
  split <;> rfl

theorem collectFunction_eq (h : pool.Extends explicit) (function : CodegenFunction) :
    collectFunction pool function = pool.internAll (collectedFromFunction explicit function) := by
  have hpool := h.internAll (isInterned_flatMap isInterned_collectedFromParam
    (iterWithDefaultSources 0 function.params))
  rw [collectFunction, foldl_eq_internAll (fun _ param _ => collectParam_eq param)
      isInterned_collectedFromParam _ h,
    foldl_eq_internAll (fun _ block hpool => collectBlock_eq hpool block)
      isInterned_collectedFromBlock _ hpool, collectedFromFunction,
    ModuleCodegenConstants.internAll_append]

end Collecting

theorem filterMap_of_mapM_eq_some {α β : Type} {f : α → Option β} {xs : List α} {ys : List β}
    (h : xs.mapM f = some ys) : xs.filterMap f = ys := by
  induction xs generalizing ys with
  | nil => cases h; rfl
  | cons x xs ih =>
    rw [List.mapM_cons] at h
    obtain ⟨y, hy, h⟩ := Option.bind_eq_some_iff.mp h
    obtain ⟨rest, hrest, h⟩ := Option.bind_eq_some_iff.mp h
    cases h
    rw [List.filterMap_cons, hy, ih hrest]

/-- The pool has the explicit constants at their indices, and it has what the module names. -/
theorem collectFromModule_spec {m : CodegenModule} {pool : ModuleCodegenConstants}
    (h : collectFromModule m = some pool) :
    m.moduleConstants.mapM explicitConstantValue = some m.explicitValues ∧
      pool.Extends m.explicitValues ∧ ∀ value, value ∈ pool.values ↔ value ∈ m.named := by
  obtain ⟨pushed, hpushed, h⟩ := Option.bind_eq_some_iff.mp h
  obtain ⟨explicit, hexplicit, hpushedValues⟩ := values_foldlM_pushExplicit hpushed
  have hvalues : pushed.values = explicit := hpushedValues
  have hm : m.explicitValues = explicit := filterMap_of_mapM_eq_some hexplicit
  have hpushedExtends : pushed.Extends explicit :=
    ⟨[], by rw [hvalues, List.append_nil], List.forall_mem_nil _⟩
  have hrequired : alwaysRequired.foldl (fun pool name => pool.internUnicodeBytes name.toUTF8)
      pushed = pushed.internAll (alwaysRequired.map fun name => .unicode name.toUTF8) := rfl
  have hinterned : ∀ value ∈ alwaysRequired.map (fun name => .unicode name.toUTF8),
      ModuleConstantValue.IsInterned value := by
    intro value hvalue
    obtain ⟨name, -, rfl⟩ := List.mem_map.mp hvalue
    trivial
  have hpool := hpushedExtends.internAll hinterned
  cases h
  rw [hrequired, foldl_eq_internAll (fun _ function hpool => collectFunction_eq hpool function)
    isInterned_collectedFromFunction _ hpool]
  refine ⟨by rw [hm]; exact hexplicit, ?_, ?_⟩
  · rw [hm]
    exact hpool.internAll (isInterned_flatMap isInterned_collectedFromFunction _)
  · intro value
    rw [ModuleCodegenConstants.mem_values_internAll, ModuleCodegenConstants.mem_values_internAll,
      hvalues, CodegenModule.named, hm, List.mem_append, List.mem_append, or_assoc]

end DietPython.ModuleConstants
