import Mathlib.Data.List.Basic
import Mathlib.Logic.Function.Basic

/-!
# The lowering of patterns

`test_for_pattern` turns a pattern into a test of an expression for the subject and a list of
assignments to run when the test holds. The expression is put into the test as often as the pattern
looks at the subject, and again into the assignments. A pattern that always matches has no test.
-/

namespace DietPython.Matching

/-! ## Patterns -/

inductive Singleton
  | none
  | true
  | false
  deriving DecidableEq

mutual

/-- A pattern. `E` is an expression of the source: a value, a key or a class; `N` is a name. -/
inductive Pattern (E N : Type)
  | matchValue (value : E)
  | matchSingleton (value : Singleton)
  | matchOr (patterns : Patterns E N)
  | matchSequence (patterns : Patterns E N)
  | matchStar (name : Option N)
  | matchMapping (entries : Entries E N) (rest : Option N)
  | matchClass (cls : E) (positional : Patterns E N) (keywords : Keywords E N)
  /-- `p as name` -/
  | matchAs (pattern : Pattern E N) (name : Option N)
  /-- A name, or `_`. -/
  | capture (name : Option N)

inductive Patterns (E N : Type)
  | nil
  | cons (pattern : Pattern E N) (rest : Patterns E N)

inductive Entries (E N : Type)
  | nil
  | cons (key : E) (pattern : Pattern E N) (rest : Entries E N)

inductive Keywords (E N : Type)
  | nil
  | cons (attr : String) (pattern : Pattern E N) (rest : Keywords E N)

end

namespace Patterns

variable {E N : Type}

def length : Patterns E N → ℕ
  | nil => 0
  | cons _ rest => rest.length + 1

/-- The place of the first starred pattern. -/
def starIndex : Patterns E N → Option ℕ
  | nil => .none
  | cons (.matchStar _) _ => some 0
  | cons _ rest => rest.starIndex.map (· + 1)

end Patterns

namespace Entries

variable {E N : Type}

def keys : Entries E N → List E
  | nil => []
  | cons key _ rest => key :: rest.keys

end Entries

/-! ## Generated code -/

inductive UnaryOp
  /-- `hasattr(x, name)` -/
  | hasattr (name : String)
  /-- `not isinstance(x, (str, bytes, bytearray))` -/
  | isNoText
  | len
  /-- `__soac__.list(x)` -/
  | list
  /-- `__soac__.dict(x)` -/
  | dict
  /-- `getattr(x, name)` -/
  | getattr (name : String)

inductive BinaryOp
  | equals
  | is
  | isinstance
  /-- `x >= y` -/
  | atLeast
  /-- `x[y]` -/
  | item
  /-- `x - y` -/
  | minus
  /-- `x in y` -/
  | isIn
  /-- `__soac__.match_class_attr_exists(cls, x, i, total)` -/
  | attrExists (i total : ℕ)
  /-- `__soac__.match_class_attr_value(cls, x, i, total)` -/
  | attrValue (i total : ℕ)

/-- Expressions of generated code. -/
inductive MatchExpr (E : Type)
  /-- The temporary with the subject of the statement. -/
  | tmp
  | source (e : E)
  | singleton (value : Singleton)
  | integer (n : ℕ)
  | unary (op : UnaryOp) (x : MatchExpr E)
  | binary (op : BinaryOp) (x y : MatchExpr E)
  /-- `x[i:j]` -/
  | slice (x i j : MatchExpr E)

inductive MatchTest (E : Type)
  | expr (e : MatchExpr E)
  /-- `True` -/
  | always
  | allOf (tests : List (MatchTest E))
  | anyOf (tests : List (MatchTest E))

inductive AssignStmt (E N : Type)
  | pass
  | assign (name : N) (value : MatchExpr E)
  /-- `name.pop(key, None)` -/
  | pop (name : N) (key : MatchExpr E)
  | ifElse (test : MatchTest E) (body orelse : List (AssignStmt E N))

/-- `PatternTest`; no test is a wildcard. -/
structure PatternTest (E N : Type) where
  test : Option (MatchTest E)
  assigns : List (AssignStmt E N)

/-! ## The lowering -/

section Lowering

variable {E N : Type}

/-- What makes a subject a sequence. -/
def sequenceTests (subject : MatchExpr E) : List (MatchTest E) :=
  [.expr (.unary (.hasattr "__len__") subject), .expr (.unary (.hasattr "__getitem__") subject),
    .expr (.unary .isNoText subject)]

/-- How many items there have to be. -/
def lengthTest (subject : MatchExpr E) (star : Option ℕ) (total : ℕ) : MatchTest E :=
  match star with
  | some _ => .expr (.binary .atLeast (.unary .len subject) (.integer (total - 1)))
  | .none => .expr (.binary .equals (.unary .len subject) (.integer total))

/-- The item for the pattern at place `i`; behind a star it is counted from the end. -/
def element (subject : MatchExpr E) (star : Option ℕ) (total i : ℕ) : MatchExpr E :=
  match star with
  | some k =>
    if i < k then .binary .item subject (.integer i)
    else .binary .item subject (.binary .minus (.unary .len subject) (.integer (total - i)))
  | .none => .binary .item subject (.integer i)

/-- The items that a star at place `k` stands for. -/
def starItems (subject : MatchExpr E) (k total : ℕ) : MatchExpr E :=
  .unary .list (.slice subject (.integer k)
    (.binary .minus (.unary .len subject) (.integer (total - k - 1))))

def assignName (name : Option N) (value : MatchExpr E) : List (AssignStmt E N) :=
  match name with
  | some name => [.assign name value]
  | .none => []

/-- The assignments of an or-pattern: those of the first alternative whose test holds. -/
def orChain (branches : List (MatchTest E × List (AssignStmt E N))) : AssignStmt E N :=
  branches.foldr (fun (test, assigns) chain => .ifElse test assigns [chain]) .pass

/-- The assignments of `**rest`. -/
def restAssigns (name : N) (subject : MatchExpr E) (keys : List E) : List (AssignStmt E N) :=
  .assign name (.unary .dict subject) :: keys.map fun key => .pop name (.source key)

mutual

/-- `test_for_pattern` -/
def testForPattern : Pattern E N → MatchExpr E → PatternTest E N
  | .matchValue value, subject => ⟨some (.expr (.binary .equals subject (.source value))), []⟩
  | .matchSingleton value, subject =>
    ⟨some (.expr (.binary .is subject (.singleton value))), []⟩
  | .matchOr patterns, subject =>
    let branches := orBranches patterns subject
    ⟨some (.anyOf (branches.map Prod.fst)),
      if branches.any fun branch => !branch.2.isEmpty then [orChain branches] else []⟩
  | .matchSequence patterns, subject =>
    let star := patterns.starIndex
    let elements := elementTests subject star patterns.length patterns 0
    ⟨some (.allOf (sequenceTests subject ++ lengthTest subject star patterns.length ::
      elements.1)), elements.2⟩
  | .matchStar name, subject =>
    ⟨some (.allOf (sequenceTests subject)), assignName name (.unary .list subject)⟩
  | .matchMapping entries rest, subject =>
    let inner := entryTests subject entries
    ⟨some (.allOf (.expr (.unary (.hasattr "keys") subject) ::
      .expr (.unary (.hasattr "__getitem__") subject) :: inner.1)),
      inner.2 ++
        match rest with
        | some name => restAssigns name subject entries.keys
        | .none => []⟩
  | .matchClass cls positional keywords, subject =>
    let first := positionalTests cls subject positional.length positional 0
    let second := keywordTests subject keywords
    ⟨some (.allOf (.expr (.binary .isinstance subject (.source cls)) :: first.1 ++ second.1)),
      first.2 ++ second.2⟩
  | .matchAs pattern name, subject =>
    let inner := testForPattern pattern subject
    ⟨inner.test, inner.assigns ++ assignName name subject⟩
  | .capture name, subject => ⟨.none, assignName name subject⟩

/-- The alternatives of an or-pattern. -/
def orBranches : Patterns E N → MatchExpr E → List (MatchTest E × List (AssignStmt E N))
  | .nil, _ => []
  | .cons pattern rest, subject =>
    let inner := testForPattern pattern subject
    (inner.test.getD .always, inner.assigns) :: orBranches rest subject

/-- The tests and assignments for the items from place `i` on. -/
def elementTests (subject : MatchExpr E) (star : Option ℕ) (total : ℕ) :
    Patterns E N → ℕ → List (MatchTest E) × List (AssignStmt E N)
  | .nil, _ => ([], [])
  | .cons pattern rest, i =>
    let tail := elementTests subject star total rest (i + 1)
    if star = some i then
      match pattern with
      | .matchStar name => (tail.1, assignName name (starItems subject i total) ++ tail.2)
      | _ => tail
    else
      let inner := testForPattern pattern (element subject star total i)
      (inner.test.toList ++ tail.1, inner.assigns ++ tail.2)

def entryTests (subject : MatchExpr E) :
    Entries E N → List (MatchTest E) × List (AssignStmt E N)
  | .nil => ([], [])
  | .cons key pattern rest =>
    let inner := testForPattern pattern (.binary .item subject (.source key))
    let tail := entryTests subject rest
    (.expr (.binary .isIn (.source key) subject) :: inner.test.toList ++ tail.1,
      inner.assigns ++ tail.2)

def positionalTests (cls : E) (subject : MatchExpr E) (total : ℕ) :
    Patterns E N → ℕ → List (MatchTest E) × List (AssignStmt E N)
  | .nil, _ => ([], [])
  | .cons pattern rest, i =>
    let inner := testForPattern pattern (.binary (.attrValue i total) (.source cls) subject)
    let tail := positionalTests cls subject total rest (i + 1)
    (.expr (.binary (.attrExists i total) (.source cls) subject) :: inner.test.toList ++ tail.1,
      inner.assigns ++ tail.2)

def keywordTests (subject : MatchExpr E) :
    Keywords E N → List (MatchTest E) × List (AssignStmt E N)
  | .nil => ([], [])
  | .cons attr pattern rest =>
    let inner := testForPattern pattern (.unary (.getattr attr) subject)
    let tail := keywordTests subject rest
    (.expr (.unary (.hasattr attr) subject) :: inner.test.toList ++ tail.1,
      inner.assigns ++ tail.2)

end

end Lowering

end DietPython.Matching
