import Mathlib.Data.Nat.Notation

/-!
# Python syntax trees

The trees as the parser gives them, without ranges. Nodes that passes treat alike are
one constructor with a kind: an `operation` is an expression with nothing but expressions in it.
-/

namespace DietPython.Syntax

inductive Category
  | expr
  | keyword
  | parameter
  | comprehension
  | typeParam
  | pattern
  | patternKeyword
  | alias
  | withItem
  | clause
  | exceptHandler
  | matchCase
  | stmt

inductive ExprContext
  | load
  | store
  | del
  | invalid
  deriving DecidableEq

inductive OperationKind
  | boolOp
  | named
  | binOp
  | unaryOp
  | ifExp
  | dict
  | set
  | await
  | yield
  | yieldFrom
  | compare
  | fString
  | tString
  | subscript
  | starred
  | list
  | tuple
  | slice
  deriving DecidableEq

inductive Literal
  | str (value : String)
  | int (value : ℕ)
  | other
  deriving DecidableEq

inductive ComprehensionKind
  | list
  | set
  | dict
  | generator
  deriving DecidableEq

inductive ParameterKind
  | posOnly
  | arg
  | varArg
  | kwOnly
  | kwArg
  deriving DecidableEq

/-- Statements with nothing but expressions in them. -/
inductive SimpleKind
  | return
  | delete
  | assign
  | augAssign
  | raise
  | assert
  | expr
  | pass
  | break
  | continue
  deriving DecidableEq

mutual

inductive Node : Category → Type
  | name (id : String) (ctx : ExprContext) : Node .expr
  | attribute (value : Node .expr) (attr : String) : Node .expr
  | call (func : Node .expr) (args : Nodes .expr) (keywords : Nodes .keyword) : Node .expr
  | literal (value : Literal) : Node .expr
  | lambda (parameters : Nodes .parameter) (body : Node .expr) : Node .expr
  | comp (kind : ComprehensionKind) (elts : Nodes .expr) (generators : Nodes .comprehension) :
    Node .expr
  | operation (kind : OperationKind) (parts : Nodes .expr) : Node .expr
  | keyword (arg : Option String) (value : Node .expr) : Node .keyword
  | parameter (kind : ParameterKind) (name : String) (default annotation : MaybeNode .expr) :
    Node .parameter
  | comprehension (target iter : Node .expr) (ifs : Nodes .expr) : Node .comprehension
  | typeParam (name : String) (bound default : MaybeNode .expr) : Node .typeParam
  | matchValue (value : Node .expr) : Node .pattern
  | matchSingleton : Node .pattern
  | matchSequence (patterns : Nodes .pattern) : Node .pattern
  | matchMapping (keys : Nodes .expr) (patterns : Nodes .pattern) (rest : Option String) :
    Node .pattern
  | matchClass (cls : Node .expr) (patterns : Nodes .pattern) (keywords : Nodes .patternKeyword) :
    Node .pattern
  | matchStar (name : Option String) : Node .pattern
  | matchAs (pattern : MaybeNode .pattern) (name : Option String) : Node .pattern
  | matchOr (patterns : Nodes .pattern) : Node .pattern
  | patternKeyword (attr : String) (pattern : Node .pattern) : Node .patternKeyword
  | alias (name : String) (asName : Option String) : Node .alias
  | withItem (contextExpr : Node .expr) (optionalVars : MaybeNode .expr) : Node .withItem
  | clause (test : MaybeNode .expr) (body : Nodes .stmt) : Node .clause
  | exceptHandler (type : MaybeNode .expr) (name : Option String) (body : Nodes .stmt) :
    Node .exceptHandler
  | matchCase (pattern : Node .pattern) (guard : MaybeNode .expr) (body : Nodes .stmt) :
    Node .matchCase
  | functionDef (name : String) (decorators : Nodes .expr) (typeParams : Nodes .typeParam)
    (parameters : Nodes .parameter) (returns : MaybeNode .expr) (body : Nodes .stmt) : Node .stmt
  | classDef (name : String) (decorators : Nodes .expr) (typeParams : Nodes .typeParam)
    (bases : Nodes .expr) (keywords : Nodes .keyword) (body : Nodes .stmt) : Node .stmt
  | typeAlias (name : Node .expr) (typeParams : Nodes .typeParam) (value : Node .expr) : Node .stmt
  | annAssign (target annotation : Node .expr) (value : MaybeNode .expr) (simple : Bool) :
    Node .stmt
  | simple (kind : SimpleKind) (parts : Nodes .expr) : Node .stmt
  | global (names : List String) : Node .stmt
  | nonlocal (names : List String) : Node .stmt
  | import (names : Nodes .alias) : Node .stmt
  | importFrom (module : Option String) (names : Nodes .alias) : Node .stmt
  | for (target iter : Node .expr) (body orelse : Nodes .stmt) : Node .stmt
  | while (test : Node .expr) (body orelse : Nodes .stmt) : Node .stmt
  | if (test : Node .expr) (body : Nodes .stmt) (elifElseClauses : Nodes .clause) : Node .stmt
  | with (items : Nodes .withItem) (body : Nodes .stmt) : Node .stmt
  | match (subject : Node .expr) (cases : Nodes .matchCase) : Node .stmt
  | try (body : Nodes .stmt) (handlers : Nodes .exceptHandler) (orelse finalBody : Nodes .stmt) :
    Node .stmt

inductive Nodes : Category → Type
  | nil {category : Category} : Nodes category
  | cons {category : Category} (node : Node category) (nodes : Nodes category) : Nodes category

inductive MaybeNode : Category → Type
  | none {category : Category} : MaybeNode category
  | some {category : Category} (node : Node category) : MaybeNode category

end

abbrev Expr := Node .expr

abbrev Stmt := Node .stmt

abbrev Suite := Nodes .stmt

/-- The name that `import a.b` binds. -/
def firstComponent (name : String) : String :=
  String.ofList (name.toList.takeWhile (· != '.'))

end DietPython.Syntax
