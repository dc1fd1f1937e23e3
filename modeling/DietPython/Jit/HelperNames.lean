import DietPython.Jit.CallOrder
import Mathlib.Data.Int.Notation

/-!
# Calls that code generation treats specially

Code generation recognises some calls by the name of their callable, whether that name is a global
of the module, a name of the runtime or a constant that holds one:

* `globals()` gives the module dict;
* `str(e)`, where `e` is a constant or such a call again, gives a text constant;
* `tuple_values(..)` packs its operands;
* `load_deleted_name(n, e)`, where `n` is a constant, tests the operand for `DELETED`;
* `cell_ref(x)` gives the cell of `x`, and code generation panics if `x` has none.

No object is looked up for them. All other calls follow `emitCall`, which looks up `list`, `dict`
and `tuple_from_iter` when it builds arguments.

`plainExpr` is the evaluation of the same expression without any of this. An event tells which
object is applied to which arguments; inlined code counts as the application that it replaces. A
mark stands before every operand, so that the history tells where an exception came from.
-/

namespace DietPython.Jit

open LoggedComputations

universe u

/-! ## Expressions -/

/-- The constants of a module. -/
inductive ModuleConstantValue
  | unicode (value : String)
  | bytes (value : ByteArray)
  | int (value : ℤ)
  | floatBits (bits : UInt64)
  | runtimeName (name : String)

/-- Where a load finds its name. A constant stands for its index. -/
inductive NameLocation
  | fastLocal (slot : ℕ)
  | cell (slot : ℕ)
  | global (slot : ℕ)
  | runtimeName
  | constant (value : ModuleConstantValue)

mutual

/-- An expression at code generation. `op` is any operation on evaluated operands; one with `*` is
unpacked where it stands. A call of `globals` that name binding has moved to the runtime name
still stands here as its global. -/
inductive CodegenExpr
  | load (id : String) (location : NameLocation)
  | op (kind : ℕ) (operands : CallArgs)
  | call (func : CodegenExpr) (args : CallArgs) (keywords : CallKeywords)

inductive CallArgs
  | nil
  | positional (value : CodegenExpr) (rest : CallArgs)
  | starred (value : CodegenExpr) (rest : CallArgs)

inductive CallKeywords
  | nil
  | named (arg : String) (value : CodegenExpr) (rest : CallKeywords)
  | starred (value : CodegenExpr) (rest : CallKeywords)

end

/-- Every argument is written without `*`. -/
def CallArgs.isSimple : CallArgs → Bool
  | nil => true
  | positional _ rest => rest.isSimple
  | starred _ _ => false

/-- Every keyword argument is written without `**`. -/
def CallKeywords.isSimple : CallKeywords → Bool
  | nil => true
  | named _ _ rest => rest.isSimple
  | starred _ _ => false

/-! ## Recognition by name -/

def constantStringValue : ModuleConstantValue → Option String
  | .unicode value => some value
  | .bytes value => String.fromUTF8? value
  | _ => none

def constantRuntimeNameValue : ModuleConstantValue → Option String
  | .runtimeName name => some name
  | _ => none

def codegenExprHelperName : CodegenExpr → Option String
  | .load id (.global _) => some id
  | .load id .runtimeName => some id
  | .load _ (.constant value) => constantRuntimeNameValue value
  | _ => none

def codegenExprConstString : CodegenExpr → Option String
  | .load _ (.constant value) => constantStringValue value
  | .call func (.positional arg .nil) .nil =>
    if codegenExprHelperName func = some "str" then codegenExprConstString arg else none
  | _ => none

inductive SpecialCall
  | globals
  | str (value : String)
  | tupleValues
  | loadDeletedName (name : String)
  | cellRef (target : Option String)

/-- The special treatment of a call, if it has one. -/
def specialCall (func : CodegenExpr) (args : CallArgs) (keywords : CallKeywords) :
    Option SpecialCall :=
  match keywords with
  | .nil =>
    if codegenExprHelperName func = some "globals" then
      match args with
      | .nil => some .globals
      | _ => none
    else if codegenExprHelperName func = some "str" then
      match args with
      | .positional arg .nil => (codegenExprConstString arg).map .str
      | _ => none
    else if codegenExprHelperName func = some "tuple_values" then
      if args.isSimple then some .tupleValues else none
    else if codegenExprHelperName func = some "load_deleted_name" then
      match args with
      | .positional name (.positional _ .nil) =>
        (codegenExprConstString name).map .loadDeletedName
      | _ => none
    else if codegenExprHelperName func = some "cell_ref" then
      match args with
      | .positional (.load id (.cell _)) .nil => some (.cellRef (some id))
      | .positional _ .nil => some (.cellRef none)
      | _ => none
    else none
  | _ => none

/-! ## The environment of a program -/

inductive ProgramEvent (V : Type u)
  | operand
  | operate (kind : ℕ) (operands : List V)
  | apply (f : V) (args : Seq V) (kwargs : Option (Kw V))
  | iterate (value : V)
  | readMapping (value : V)
  | readPairs (value : V)
  | helper (op : HelperOp V)
  | rawCell (id : Option String)

/-- The environment of a program: its standard objects, and an answer to every question after
every history. -/
structure Program (V : Type u) (E : Type*) where
  listType : V
  dictType : V
  tupleType : V
  tupleFromIter : V
  globalsFn : V
  strType : V
  tupleValues : V
  loadDeletedName : V
  moduleDict : V
  deleted : V
  constant : ModuleConstantValue → V
  tuple : List V → V
  unboundLocal : V → E
  isMapping : V → Bool
  lookup : List (ProgramEvent V) → String → NameLocation → Except E V
  operate : List (ProgramEvent V) → ℕ → List V → Except E V
  apply : List (ProgramEvent V) → V → Seq V → Option (Kw V) → Except E V
  iterate : List (ProgramEvent V) → V → Except E (List V)
  readMapping : List (ProgramEvent V) → V → Except E (List (V × V))
  readPairs : List (ProgramEvent V) → V → Except E (List (V × V))
  helper : List (ProgramEvent V) → HelperOp V → Except E V
  rawCell : List (ProgramEvent V) → Option String → Except E V
  unicode_injective : Function.Injective fun s => constant (.unicode s)
  bytes_ne_unicode : ∀ b s, constant (.bytes b) ≠ constant (.unicode s)
  unboundLocal_injective : Function.Injective unboundLocal
  apply_globals : ∀ l, apply l globalsFn (.native []) none = .ok moduleDict
  apply_str : ∀ l s,
    apply l strType (.native [constant (.unicode s)]) none = .ok (constant (.unicode s))
  apply_tupleValues : ∀ l vs, apply l tupleValues (.native vs) none = .ok (tuple vs)
  apply_loadDeletedName : ∀ l n v, v ≠ deleted →
    apply l loadDeletedName (.native [n, v]) none = .ok v
  apply_loadDeletedName_deleted : ∀ l n,
    apply l loadDeletedName (.native [n, deleted]) none = .error (unboundLocal n)

namespace Program

variable {V : Type u} {E : Type*} (p : Program V E)

/-- A run of a program. Its `nameError` is that of a name which the program does not contain. -/
abbrev Run (V : Type u) (E : Type*) (α : Type u) := Logged (ProgramEvent V) (CallError V E) α

def ask {α : Type u} (ev : ProgramEvent V) (answer : List (ProgramEvent V) → Except E α) :
    Run V E α :=
  Logged.observe ev fun l => (answer l).mapError .raised

/-- The lookup of a helper name. -/
def loadGlobal (name : String) : Run V E V :=
  Logged.peek fun l => (p.lookup l name (.global 0)).mapError fun _ => .nameError name

/-- The runtime of calls, with the given meaning of helper names. -/
def runtimeWith (loadGlobal : String → Run V E V) :
    Runtime (ProgramEvent V) (CallError V E) V where
  listType := p.listType
  dictType := p.dictType
  tupleType := p.tupleType
  tupleFromIter := p.tupleFromIter
  str s := p.constant (.unicode s)
  str_injective := p.unicode_injective
  isMapping := p.isMapping
  loadGlobal := loadGlobal
  iterate v := ask (.iterate v) fun l => p.iterate l v
  readMapping v := ask (.readMapping v) fun l => p.readMapping l v
  readPairs v := ask (.readPairs v) fun l => p.readPairs l v
  helper op := ask (.helper op) fun l => p.helper l op
  call f args kwargs := ask (.apply f args kwargs) fun l => p.apply l f args kwargs
  multipleValues := .multipleValues
  notMapping := .notMapping

section RuntimeWith

variable (g : String → Run V E V)

@[simp] theorem runtimeWith_loadGlobal : (p.runtimeWith g).loadGlobal = g := rfl

@[simp] theorem runtimeWith_str (s : String) :
    (p.runtimeWith g).str s = p.constant (.unicode s) := rfl

@[simp] theorem runtimeWith_isMapping : (p.runtimeWith g).isMapping = p.isMapping := rfl

@[simp] theorem runtimeWith_iterate (v : V) :
    (p.runtimeWith g).iterate v = ask (.iterate v) fun l => p.iterate l v := rfl

@[simp] theorem runtimeWith_readMapping (v : V) :
    (p.runtimeWith g).readMapping v = ask (.readMapping v) fun l => p.readMapping l v := rfl

@[simp] theorem runtimeWith_readPairs (v : V) :
    (p.runtimeWith g).readPairs v = ask (.readPairs v) fun l => p.readPairs l v := rfl

@[simp] theorem runtimeWith_call (f : V) (args : Seq V) (kwargs : Option (Kw V)) :
    (p.runtimeWith g).call f args kwargs =
      ask (.apply f args kwargs) fun l => p.apply l f args kwargs := rfl

end RuntimeWith

/-- The runtime of the generated code. -/
abbrev runtime : Runtime (ProgramEvent V) (CallError V E) V := p.runtimeWith p.loadGlobal

/-- The object that a helper name stands for in the implementation of calls. -/
def standardHelper (name : String) : V :=
  if name = "list" then p.listType else if name = "dict" then p.dictType else p.tupleFromIter

/-- Calls that need no name of the module. -/
abbrev plainRuntime : Runtime (ProgramEvent V) (CallError V E) V :=
  p.runtimeWith fun name => pure (p.standardHelper name)

/-- A load that the program contains. -/
def load (id : String) : NameLocation → Run V E V
  | .constant value => pure (p.constant value)
  | location => Logged.peek fun l => (p.lookup l id location).mapError .raised

/-- An operand, with its mark. -/
def operand (e : Run V E V) : Run V E V := do
  let _ ← Logged.observe .operand fun _ => .ok PUnit.unit
  e

/-! ## Plain evaluation -/

section Plain

variable [DecidableEq V]

mutual

def plainExpr : CodegenExpr → Run V E V
  | .load id location => p.load id location
  | .op kind operands => do
    let vs ← pyPositionals p.plainRuntime (plainArgs operands)
    ask (.operate kind vs) fun l => p.operate l kind vs
  | .call func args keywords =>
    emitCall p.plainRuntime ⟨plainExpr func, plainArgs args, plainKeywords keywords⟩

def plainArgs : CallArgs → List (PosArg (Run V E V))
  | .nil => []
  | .positional value rest => .positional (operand (plainExpr value)) :: plainArgs rest
  | .starred value rest => .starred (operand (plainExpr value)) :: plainArgs rest

def plainKeywords : CallKeywords → List (KwArg (Run V E V))
  | .nil => []
  | .named arg value rest => .named arg (operand (plainExpr value)) :: plainKeywords rest
  | .starred value rest => .starred (operand (plainExpr value)) :: plainKeywords rest

end

end Plain

/-! ## Generated code -/

section Emit

variable [DecidableEq V]

/-- Inlined code of a helper. -/
def inlined (f : V) (args : List V) (result : Except E V) : Run V E V :=
  ask (.apply f (.native args) none) fun _ => result

/-- The code of a special call. The operand of `str` and the name of `load_deleted_name` are
folded: nothing but the applications in them is left. -/
def emitSpecial (special : SpecialCall) (vs : List V) : Run V E V :=
  match special, vs with
  | .globals, vs => inlined p.globalsFn vs (.ok p.moduleDict)
  | .str value, _ =>
    inlined p.strType [p.constant (.unicode value)] (.ok (p.constant (.unicode value)))
  | .tupleValues, vs => inlined p.tupleValues vs (.ok (p.tuple vs))
  | .loadDeletedName name, [n, v] => inlined p.loadDeletedName [n, v]
    (if v = p.deleted then .error (p.unboundLocal (p.constant (.unicode name))) else .ok v)
  | .loadDeletedName _, vs => inlined p.loadDeletedName vs (.ok p.deleted)
  | .cellRef target, _ => ask (.rawCell target) fun l => p.rawCell l target

mutual

def emitCodegenExpr : CodegenExpr → Run V E V
  | .load id location => p.load id location
  | .op kind operands => do
    let vs ← pyPositionals p.runtime (emitCodegenArgs operands)
    ask (.operate kind vs) fun l => p.operate l kind vs
  | .call func args keywords =>
    match specialCall func args keywords with
    | some (.cellRef target) => p.emitSpecial (.cellRef target) []
    | some special => do
      let vs ← evalOperands (emitCodegenArgs args)
      p.emitSpecial special vs
    | none =>
      emitCall p.runtime ⟨emitCodegenExpr func, emitCodegenArgs args, emitCodegenKeywords keywords⟩

def emitCodegenArgs : CallArgs → List (PosArg (Run V E V))
  | .nil => []
  | .positional value rest =>
    .positional (operand (emitCodegenExpr value)) :: emitCodegenArgs rest
  | .starred value rest => .starred (operand (emitCodegenExpr value)) :: emitCodegenArgs rest

def emitCodegenKeywords : CallKeywords → List (KwArg (Run V E V))
  | .nil => []
  | .named arg value rest =>
    .named arg (operand (emitCodegenExpr value)) :: emitCodegenKeywords rest
  | .starred value rest => .starred (operand (emitCodegenExpr value)) :: emitCodegenKeywords rest

end

end Emit

end Program

mutual

/-- Code generation panics: some `cell_ref` call has an operand without a cell. -/
def codegenPanics : CodegenExpr → Bool
  | .load _ _ => false
  | .op _ operands => codegenPanicsArgs operands
  | .call func args keywords =>
    match specialCall func args keywords with
    | some (.cellRef target) => target.isNone
    | some _ => codegenPanicsArgs args
    | none => codegenPanics func || codegenPanicsArgs args || codegenPanicsKeywords keywords

def codegenPanicsArgs : CallArgs → Bool
  | .nil => false
  | .positional value rest | .starred value rest =>
    codegenPanics value || codegenPanicsArgs rest

def codegenPanicsKeywords : CallKeywords → Bool
  | .nil => false
  | .named _ value rest | .starred value rest =>
    codegenPanics value || codegenPanicsKeywords rest

end

/-- The code of an expression, if code generation ends. -/
def codegenExpr {V : Type u} {E : Type*} [DecidableEq V] (p : Program V E) (e : CodegenExpr) :
    Option (Program.Run V E V) :=
  if codegenPanics e then none else some (p.emitCodegenExpr e)

end DietPython.Jit
