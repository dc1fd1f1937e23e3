import DietPython.Scopes.Semantic
import Mathlib.Data.List.AList
import Mathlib.Data.Nat.Notation

/-!
# Lowering of type aliases

`type X[T, ..] = value` becomes assignments of the type parameters to variables of the scope that
the statement is in, the assignment of `X`, and deletions of the type parameters. All expressions
are evaluated at once.

Where a name of a scope is stored and where it is looked up are two things: the body of a class
stores a type parameter in its frame, and looks names up in its namespace first and never in the
frame, unless there is a cell.

An expression reads the variables of the scope and may raise an exception. Whatever else it does,
it does to the world. Variables that the functions it calls rebind are part of that.
-/

namespace DietPython.TypeAliases

open Generators (BindingKind)
open Scopes (BindingPurpose BindingTarget EffectiveBinding SemanticScopeKind
  deriveEffectiveBindingForName isInternalSymbol)

/-! ## Statements -/

/-- The bound of a type variable. A tuple holds its constraints. -/
inductive TypeVarBound (X : Type)
  | expression (bound : X)
  | tuple (elts : List X)

inductive TypeParam (X : Type)
  | typeVar (name : String) (bound : Option (TypeVarBound X)) (default : Option X)
  | typeVarTuple (name : String) (default : Option X)
  | paramSpec (name : String) (default : Option X)

def TypeParam.name {X : Type} : TypeParam X → String
  | typeVar name _ _ | typeVarTuple name _ | paramSpec name _ => name

/-- `ast::StmtTypeAlias`. A type parameter occurs once. `deferred` are the names that functions in
the value read when they are called later. -/
structure TypeAlias (X : Type) where
  name : String
  typeParams : List (TypeParam X)
  value : X
  deferred : List String
  nodup : (typeParams.map TypeParam.name).Nodup

def TypeAlias.paramNames {X : Type} (typeAlias : TypeAlias X) : List String :=
  typeAlias.typeParams.map TypeParam.name

/-- What is used here of a scope. The body of a module is a function, and its names are global. -/
structure ScopeNames where
  kind : SemanticScopeKind
  bindingKind : String → BindingKind
  typeParamNames : List String

/-- A type alias in a scope: the collector of names finds the type parameters in the body of a
class. The compiler has the names for itself that are internal. -/
structure ScopedTypeAlias (X : Type) extends TypeAlias X where
  names : ScopeNames
  collected : names.kind = .classScope →
    ∀ name ∈ toTypeAlias.paramNames, name ∈ names.typeParamNames
  plain : ∀ name ∈ toTypeAlias.name :: toTypeAlias.paramNames, isInternalSymbol name = false

/-! ## Lowered statements -/

inductive Argument (X : Type)
  | noneLiteral
  | expression (e : X)
  | tuple (elts : List X)

/-- A call of a class of `typing`. -/
inductive TypingCall (X : Type)
  | typeVar (name : String) (bound default constraints : Argument X)
  | typeVarTuple (name : String) (default : Option X)
  | paramSpec (name : String) (default : Option X)
  /-- `type_params` is the tuple of these variables. -/
  | typeAliasType (name : String) (value : X) (typeParams : Option (List String))

inductive AliasStmt (X : Type)
  | assign (target : String) (call : TypingCall X)
  | del (name : String)

section Rewrite

variable {X : Type}

def argumentOf : Option X → Argument X
  | some e => .expression e
  | none => .noneLiteral

/-- The bound and the constraints of a type variable. -/
def boundAndConstraints : Option (TypeVarBound X) → Argument X × Argument X
  | some (.tuple elts) => (.noneLiteral, .tuple elts)
  | some (.expression bound) => (.expression bound, .noneLiteral)
  | none => (.noneLiteral, .noneLiteral)

def typeParamCall : TypeParam X → TypingCall X
  | .typeVar name bound default =>
    let (bound, constraints) := boundAndConstraints bound
    .typeVar name bound (argumentOf default) constraints
  | .typeVarTuple name default => .typeVarTuple name default
  | .paramSpec name default => .paramSpec name default

/-- `make_type_param_info`: the targets and calls of the bindings. -/
def makeTypeParamInfo (typeParams : List (TypeParam X)) : List (String × TypingCall X) :=
  typeParams.map fun param => (param.name, typeParamCall param)

def aliasCall (typeAlias : TypeAlias X) : TypingCall X :=
  .typeAliasType typeAlias.name typeAlias.value
    (if typeAlias.typeParams = [] then none
      else some (typeAlias.typeParams.map TypeParam.name))

/-- `rewrite_type_alias_stmt` -/
def rewriteTypeAliasStmt (typeAlias : TypeAlias X) : List (AliasStmt X) :=
  (makeTypeParamInfo typeAlias.typeParams).map (fun binding => .assign binding.1 binding.2) ++
    .assign typeAlias.name (aliasCall typeAlias) ::
    (typeAlias.typeParams.map TypeParam.name).map .del

end Rewrite

/-! ## Variables -/

/-- A variable of a frame, of the module or of the namespace of a class body, which is a dict. -/
abbrev Variable := BindingTarget × String

/-- The variables that are bound. -/
abbrev Variables (V : Type) := AList fun _ : Variable => V

/-- What an expression finds under a name: itself, and in the functions inside it. -/
structure View (V : Type) where
  direct : String → Option V
  inner : String → Option V

namespace ScopeNames

variable {V : Type} (names : ScopeNames)

def effectiveBinding (purpose : BindingPurpose) (name : String) : EffectiveBinding :=
  deriveEffectiveBindingForName name (names.bindingKind name) names.kind names.typeParamNames
    purpose

/-- The variable to which a name is stored. -/
def stored (name : String) : Variable := ((names.effectiveBinding .store name).target, name)

/-- `rewrite_name_load`, with `class_lookup_cell` and `class_lookup_global`. -/
def load (builtins : String → Option V) (vars : Variables V) (name : String) : Option V :=
  match names.effectiveBinding .load name with
  | .localName | .cell _ => vars.lookup (.localName, name)
  | .global => vars.lookup (.moduleGlobal, name) <|> builtins name
  | .classBody .cell => vars.lookup (.classNamespace, name) <|> vars.lookup (.localName, name)
  | .classBody .global =>
    vars.lookup (.classNamespace, name) <|> vars.lookup (.moduleGlobal, name) <|> builtins name

/-- A function inside does not see the names of a class body, but for the cells there. -/
def innerLoad (builtins : String → Option V) (vars : Variables V) (name : String) : Option V :=
  match names.bindingKind name with
  | .cell _ => vars.lookup (.localName, name)
  | .global => vars.lookup (.moduleGlobal, name) <|> builtins name
  | .localName =>
    if names.kind = .classScope then vars.lookup (.moduleGlobal, name) <|> builtins name
    else vars.lookup (.localName, name)

def view (builtins : String → Option V) (vars : Variables V) : View V where
  direct := names.load builtins vars
  inner := names.innerLoad builtins vars

end ScopeNames

/-! ## Execution -/

/-- An evaluation reads names, changes the world, and may raise an exception. -/
abbrev Eval (σ V E α : Type) := View V → ExceptT E (StateM σ) α

/-- A call of a class of `typing` with values. -/
inductive Construction (V : Type)
  | typeVar (name : String) (bound default constraints : V)
  | typeVarTuple (name : String) (default : Option V)
  | paramSpec (name : String) (default : Option V)
  | typeAliasType (name : String) (value : V) (typeParams : Option (List V))

/-- What the lowered code uses. The classes of `typing` make new objects. -/
structure TypingRuntime (σ V E : Type) where
  none : V
  tuple : List V → V
  builtins : String → Option V
  /-- The exception for a name that is not bound. -/
  nameError : String → E
  construct : Construction V → Variables V → ExceptT E (StateM σ) V
  fresh : ∀ call vars w v w', construct call vars w = (.ok v, w') →
    (∀ x, vars.lookup x ≠ some v) ∧ ∀ name, builtins name ≠ some v

structure AliasState (σ V : Type) where
  vars : Variables V
  world : σ

section Exec

variable {σ V E : Type} (rt : TypingRuntime σ V E)

/-- The expressions of a statement are what they evaluate to. -/
abbrev Expression (σ V E : Type) := Eval σ V E V

def loadName (name : String) : Eval σ V E V := fun view =>
  match view.direct name with
  | some v => pure v
  | none => throw (rt.nameError name)

def evalArgument (argument : Argument (Expression σ V E)) : Eval σ V E V := fun view =>
  match argument with
  | .noneLiteral => pure rt.none
  | .expression e => e view
  | .tuple elts => do return rt.tuple (← elts.mapM fun e => e view)

def evalOption (default : Option (Expression σ V E)) : Eval σ V E (Option V) := fun view =>
  match default with
  | some e => do return some (← e view)
  | none => pure none

/-- The arguments of a call, from left to right. -/
def evalArguments (call : TypingCall (Expression σ V E)) : Eval σ V E (Construction V) :=
  fun view =>
    match call with
    | .typeVar name bound default constraints => do
      let bound ← evalArgument rt bound view
      let default ← evalArgument rt default view
      let constraints ← evalArgument rt constraints view
      return .typeVar name bound default constraints
    | .typeVarTuple name default => do return .typeVarTuple name (← evalOption default view)
    | .paramSpec name default => do return .paramSpec name (← evalOption default view)
    | .typeAliasType name value typeParams => do
      let value ← value view
      match typeParams with
      | none => return .typeAliasType name value none
      | some names =>
        return .typeAliasType name value (some (← names.mapM fun name => loadName rt name view))

variable (names : ScopeNames)

def evalCall (call : TypingCall (Expression σ V E)) (vars : Variables V) :
    ExceptT E (StateM σ) V := do
  let construction ← evalArguments rt call (names.view rt.builtins vars)
  rt.construct construction vars

/-- A slot of the frame is emptied whether it is bound or not. -/
def execStmt (stmt : AliasStmt (Expression σ V E)) (s : AliasState σ V) :
    Except E Unit × AliasState σ V :=
  match stmt with
  | .assign target call =>
    match evalCall rt names call s.vars s.world with
    | (.ok v, w) => (.ok (), ⟨s.vars.insert (names.stored target) v, w⟩)
    | (.error exc, w) => (.error exc, ⟨s.vars, w⟩)
  | .del name =>
    match names.effectiveBinding .store name with
    | .localName => (.ok (), ⟨s.vars.erase (names.stored name), s.world⟩)
    | _ =>
      if (s.vars.lookup (names.stored name)).isSome then
        (.ok (), ⟨s.vars.erase (names.stored name), s.world⟩)
      else (.error (rt.nameError name), s)

def exec : List (AliasStmt (Expression σ V E)) → AliasState σ V → Except E Unit × AliasState σ V
  | [], s => (.ok (), s)
  | stmt :: rest, s =>
    match execStmt rt names stmt s with
    | (.ok _, s) => exec rest s
    | (.error exc, s) => (.error exc, s)

end Exec

end DietPython.TypeAliases
