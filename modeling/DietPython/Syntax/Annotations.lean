import DietPython.Syntax.Nodes
import Mathlib.Data.List.Basic

/-!
# Annotated assignments

The pass that turns annotated assignments into plain ones and collects the annotations of module
and class bodies, against what Python makes of the same statements.
-/

namespace DietPython.Syntax

/-! ## The annotate function -/

structure Entry where
  name : String
  value : Expr
  source : String

def Nodes.ofList {category : Category} : List (Node category) → Nodes category
  | [] => .nil
  | node :: nodes => .cons node (ofList nodes)

def Nodes.append {category : Category} : Nodes category → Nodes category → Nodes category
  | .nil, others => others
  | .cons node nodes, others => .cons node (nodes.append others)

def runtimeName (attr : String) : Expr :=
  .attribute (.name "__soac__" .load) attr

def runtimeCall (helper : String) (args : List Expr) : Expr :=
  .call (runtimeName helper) (.ofList args) .nil

/-- `make_tuple`. -/
def makeTuple (items : List Expr) : Expr :=
  runtimeCall "tuple_values" items

def Entry.valuePair (entry : Entry) : Expr :=
  .operation .tuple (.ofList [.literal (.str entry.name), entry.value])

def Entry.stringPair (entry : Entry) : Expr :=
  .operation .tuple (.ofList [.literal (.str entry.name), .literal (.str entry.source)])

def captureRuntime : Expr :=
  let call (func : String) : Expr := .call (.name func .load) .nil .nil
  .call (.name "__import__" .load)
    (.ofList [.literal (.str "soac.runtime"), call "globals", call "dict",
      .operation .tuple (.ofList [.literal (.str "runtime")]), .literal (.int 0)]) .nil

def formatTest (helper : String) (format : ℕ) : Expr :=
  runtimeCall helper [.name "_dp_format" .load, .literal (.int format)]

def buildAnnotateFn (entries : List Entry) (name : String) : Stmt :=
  let valueDict := runtimeCall "dict" [makeTuple (entries.map Entry.valuePair)]
  let stringDict := runtimeCall "dict" [makeTuple (entries.map Entry.stringPair)]
  let notImplemented : Expr :=
    .attribute (runtimeName "builtins") "NotImplementedError"
  .functionDef name .nil .nil
    (.ofList [.parameter .arg "_dp_format" .none .none,
      .parameter .arg "__soac__" (.some captureRuntime) .none])
    .none
    (.ofList [
      .if (formatTest "eq" 4) (.ofList [.simple .return (.ofList [stringDict])]) .nil,
      .if (formatTest "gt" 2) (.ofList [.simple .raise (.ofList [notImplemented])]) .nil,
      .simple .return (.ofList [valueDict])])

/-! ## The pass -/

/-- An annotated assignment of a body. -/
structure Annotated where
  target : Expr
  annotation : Expr
  value : MaybeNode .expr
  simple : Bool

mutual

/-- The annotated assignments that the stripper of a body comes to, in the order it does. -/
def Node.annotated : {category : Category} → Node category → List Annotated
  | _, .annAssign target annotation value simple => [⟨target, annotation, value, simple⟩]
  | _, .clause _ body => body.annotated
  | _, .exceptHandler _ _ body => body.annotated
  | _, .matchCase _ _ body => body.annotated
  | _, .for _ _ body orelse => body.annotated ++ orelse.annotated
  | _, .while _ body orelse => body.annotated ++ orelse.annotated
  | _, .if _ body elifElseClauses => body.annotated ++ elifElseClauses.annotated
  | _, .with _ body => body.annotated
  | _, .match _ cases => cases.annotated
  | _, .try body handlers orelse finalBody =>
    body.annotated ++ handlers.annotated ++ orelse.annotated ++ finalBody.annotated
  | _, _ => []

def Nodes.annotated : {category : Category} → Nodes category → List Annotated
  | _, .nil => []
  | _, .cons node nodes => node.annotated ++ nodes.annotated

end

/-- The text that the code generator gives an expression is a parameter. -/
def Annotated.entry (annotationString : Expr → String) (a : Annotated) : Option Entry :=
  match a.target with
  | .name id _ => some ⟨id, a.annotation, annotationString a.annotation⟩
  | _ => none

def Nodes.entries (annotationString : Expr → String) (body : Suite) : List Entry :=
  body.annotated.filterMap (Annotated.entry annotationString)

def stripAnnAssign (target : Expr) : MaybeNode .expr → Stmt
  | .some value => .simple .assign (.ofList [target, value])
  | .none => .simple .pass .nil

def annotateFn (annotationString : Expr → String) (name : String) (body : Suite) : Suite :=
  let entries := body.entries annotationString
  .ofList (if entries.isEmpty then [] else [buildAnnotateFn entries name])

mutual

/-- The annotation stripper, whose walk leaves everything else as it is. -/
def Node.strip (annotationString : Expr → String) :
    {category : Category} → Node category → Node category
  | _, .functionDef name decorators typeParams parameters returns body =>
    .functionDef name decorators typeParams parameters returns (body.strip annotationString)
  | _, .classDef name decorators typeParams bases keywords body =>
    .classDef name decorators typeParams bases keywords
      ((body.strip annotationString).append (annotateFn annotationString "__annotate_func__" body))
  | _, .annAssign target _ value _ => stripAnnAssign target value
  | _, .clause test body => .clause test (body.strip annotationString)
  | _, .exceptHandler type name body => .exceptHandler type name (body.strip annotationString)
  | _, .matchCase pattern guard body => .matchCase pattern guard (body.strip annotationString)
  | _, .for target iter body orelse =>
    .for target iter (body.strip annotationString) (orelse.strip annotationString)
  | _, .while test body orelse =>
    .while test (body.strip annotationString) (orelse.strip annotationString)
  | _, .if test body elifElseClauses =>
    .if test (body.strip annotationString) (elifElseClauses.strip annotationString)
  | _, .with items body => .with items (body.strip annotationString)
  | _, .match subject cases => .match subject (cases.strip annotationString)
  | _, .try body handlers orelse finalBody =>
    .try (body.strip annotationString) (handlers.strip annotationString)
      (orelse.strip annotationString) (finalBody.strip annotationString)
  | _, node => node

def Nodes.strip (annotationString : Expr → String) :
    {category : Category} → Nodes category → Nodes category
  | _, .nil => .nil
  | _, .cons node nodes => .cons (node.strip annotationString) (nodes.strip annotationString)

end

def rewriteAnnAssignToDunderAnnotate (annotationString : Expr → String) (body : Suite) : Suite :=
  (body.strip annotationString).append (annotateFn annotationString "__annotate__" body)

/-! ## Python's annotated assignments -/

/--
The statement without its annotation. Without a value, Python still evaluates the expressions in an
attribute or a subscript, which the statement here lists; the parser accepts no other targets.
-/
def pythonAnnAssign (target : Expr) : MaybeNode .expr → Stmt
  | .some value => .simple .assign (.ofList [target, value])
  | .none =>
    match target with
    | .attribute value _ => .simple .expr (.ofList [value])
    | .operation .subscript parts => .simple .expr parts
    | _ => .simple .pass .nil

mutual

/-- A body without its annotations; the functions and classes in it have bodies of their own. -/
def Node.pythonStatements (annotationString : Expr → String) :
    {category : Category} → Node category → Node category
  | _, .annAssign target _ value _ => pythonAnnAssign target value
  | _, .clause test body => .clause test (body.pythonStatements annotationString)
  | _, .exceptHandler type name body =>
    .exceptHandler type name (body.pythonStatements annotationString)
  | _, .matchCase pattern guard body =>
    .matchCase pattern guard (body.pythonStatements annotationString)
  | _, .for target iter body orelse =>
    .for target iter (body.pythonStatements annotationString)
      (orelse.pythonStatements annotationString)
  | _, .while test body orelse =>
    .while test (body.pythonStatements annotationString) (orelse.pythonStatements annotationString)
  | _, .if test body elifElseClauses =>
    .if test (body.pythonStatements annotationString)
      (elifElseClauses.pythonStatements annotationString)
  | _, .with items body => .with items (body.pythonStatements annotationString)
  | _, .match subject cases => .match subject (cases.pythonStatements annotationString)
  | _, .try body handlers orelse finalBody =>
    .try (body.pythonStatements annotationString) (handlers.pythonStatements annotationString)
      (orelse.pythonStatements annotationString) (finalBody.pythonStatements annotationString)
  | _, node => node.strip annotationString

def Nodes.pythonStatements (annotationString : Expr → String) :
    {category : Category} → Nodes category → Nodes category
  | _, .nil => .nil
  | _, .cons node nodes =>
    .cons (node.pythonStatements annotationString) (nodes.pythonStatements annotationString)

end

def Node.isName : Expr → Bool
  | .name _ _ => true
  | _ => false

/-- An attribute or a subscript: a target with expressions in it. -/
def Node.hasParts : Expr → Bool
  | .attribute _ _ => true
  | .operation .subscript _ => true
  | _ => false

def MaybeNode.isNone {category : Category} : MaybeNode category → Bool
  | .none => true
  | .some _ => false

mutual

/-- The names that the statements and expressions of a scope make local to it. -/
def Node.bindings : {category : Category} → Node category → List String
  | _, .name id .store => [id]
  | _, .name id .del => [id]
  | _, .name _ _ => []
  | _, .attribute value _ => value.bindings
  | _, .call func args keywords => func.bindings ++ args.bindings ++ keywords.bindings
  | _, .literal _ => []
  -- parameters and body belong to the lambda, the defaults do not
  | _, .lambda parameters _ => parameters.bindings
  | _, .comp _ elts generators => elts.bindings ++ generators.bindings
  | _, .operation _ parts => parts.bindings
  | _, .keyword _ value => value.bindings
  | _, .parameter _ _ default _ => default.bindings
  | _, .comprehension _ iter ifs => iter.bindings ++ ifs.bindings
  | _, .typeParam _ _ _ => []
  | _, .matchValue value => value.bindings
  | _, .matchSingleton => []
  | _, .matchSequence patterns => patterns.bindings
  | _, .matchMapping keys patterns rest => keys.bindings ++ patterns.bindings ++ rest.toList
  | _, .matchClass cls patterns keywords => cls.bindings ++ patterns.bindings ++ keywords.bindings
  | _, .matchStar name => name.toList
  | _, .matchAs pattern name => pattern.bindings ++ name.toList
  | _, .matchOr patterns => patterns.bindings
  | _, .patternKeyword _ pattern => pattern.bindings
  | _, .alias name asName => if name = "*" then [] else [asName.getD (firstComponent name)]
  | _, .withItem contextExpr optionalVars => contextExpr.bindings ++ optionalVars.bindings
  | _, .clause test body => test.bindings ++ body.bindings
  | _, .exceptHandler type name body => type.bindings ++ name.toList ++ body.bindings
  | _, .matchCase pattern guard body => pattern.bindings ++ guard.bindings ++ body.bindings
  | _, .functionDef name decorators _ parameters _ _ =>
    name :: decorators.bindings ++ parameters.bindings
  | _, .classDef name decorators _ bases keywords _ =>
    name :: decorators.bindings ++ bases.bindings ++ keywords.bindings
  | _, .typeAlias name _ _ => name.bindings
  -- an annotated name in parentheses is local only when it is assigned
  | _, .annAssign target _ value simple =>
    if value.isNone && target.isName && !simple then []
    else target.bindings ++ value.bindings
  | _, .simple _ parts => parts.bindings
  | _, .global _ => []
  | _, .nonlocal _ => []
  | _, .import names => names.bindings
  | _, .importFrom _ names => names.bindings
  | _, .for target iter body orelse =>
    target.bindings ++ iter.bindings ++ body.bindings ++ orelse.bindings
  | _, .while test body orelse => test.bindings ++ body.bindings ++ orelse.bindings
  | _, .if test body elifElseClauses => test.bindings ++ body.bindings ++ elifElseClauses.bindings
  | _, .with items body => items.bindings ++ body.bindings
  | _, .match subject cases => subject.bindings ++ cases.bindings
  | _, .try body handlers orelse finalBody =>
    body.bindings ++ handlers.bindings ++ orelse.bindings ++ finalBody.bindings

def Nodes.bindings : {category : Category} → Nodes category → List String
  | _, .nil => []
  | _, .cons node nodes => node.bindings ++ nodes.bindings

def MaybeNode.bindings : {category : Category} → MaybeNode category → List String
  | _, .none => []
  | _, .some node => node.bindings

end

mutual

/-- The names bound otherwise than by annotating them without a value. -/
def Node.boundOtherwise : {category : Category} → Node category → List String
  | _, .annAssign target _ value _ =>
    if value.isNone then [] else target.bindings ++ value.bindings
  | _, .clause test body => test.bindings ++ body.boundOtherwise
  | _, .exceptHandler type name body => type.bindings ++ name.toList ++ body.boundOtherwise
  | _, .matchCase pattern guard body => pattern.bindings ++ guard.bindings ++ body.boundOtherwise
  | _, .for target iter body orelse =>
    target.bindings ++ iter.bindings ++ body.boundOtherwise ++ orelse.boundOtherwise
  | _, .while test body orelse => test.bindings ++ body.boundOtherwise ++ orelse.boundOtherwise
  | _, .if test body elifElseClauses =>
    test.bindings ++ body.boundOtherwise ++ elifElseClauses.boundOtherwise
  | _, .with items body => items.bindings ++ body.boundOtherwise
  | _, .match subject cases => subject.bindings ++ cases.boundOtherwise
  | _, .try body handlers orelse finalBody =>
    body.boundOtherwise ++ handlers.boundOtherwise ++ orelse.boundOtherwise ++
      finalBody.boundOtherwise
  | _, node => node.bindings

def Nodes.boundOtherwise : {category : Category} → Nodes category → List String
  | _, .nil => []
  | _, .cons node nodes => node.boundOtherwise ++ nodes.boundOtherwise

end

/-- The names that an annotation without a value makes local. -/
def Annotated.declared (a : Annotated) : List String :=
  if a.value.isNone && !(a.target.isName && !a.simple) then a.target.bindings else []

inductive BodyKind
  | moduleBody
  | classBody
  | functionBody
  deriving DecidableEq

/-- The names of a module are its own, bound or not. -/
def IsLocal (kind : BodyKind) (bound : List String) (name : String) : Prop :=
  kind = .moduleBody ∨ name ∈ bound

/-! ## The pass against Python -/

section

variable (annotationString : Expr → String)

omit annotationString in
theorem stripAnnAssign_eq_iff : (target : Expr) → (value : MaybeNode .expr) →
    (stripAnnAssign target value = pythonAnnAssign target value ↔
      ¬ (value.isNone ∧ target.hasParts))
  | _, .some _ => iff_of_true rfl fun h => Bool.false_ne_true h.1
  | .attribute _ _, .none => by
    simp [stripAnnAssign, pythonAnnAssign, MaybeNode.isNone, Node.hasParts]
  | .operation kind _, .none => by
    cases kind <;> simp [stripAnnAssign, pythonAnnAssign, MaybeNode.isNone, Node.hasParts]
  | .name .., .none | .call .., .none | .literal .., .none | .lambda .., .none | .comp .., .none =>
    iff_of_true rfl fun h => Bool.false_ne_true h.2

mutual

theorem Node.strip_eq_iff : {category : Category} → (node : Node category) →
    (node.strip annotationString = node.pythonStatements annotationString ↔
      ∀ a ∈ node.annotated, stripAnnAssign a.target a.value = pythonAnnAssign a.target a.value)
  | _, .annAssign target annotation value simple => by
    simp [Node.strip, Node.pythonStatements, Node.annotated]
  | _, .clause _ body => by
    simp [Node.strip, Node.pythonStatements, Node.annotated, Nodes.strip_eq_iff body]
  | _, .exceptHandler _ _ body => by
    simp [Node.strip, Node.pythonStatements, Node.annotated, Nodes.strip_eq_iff body]
  | _, .matchCase _ _ body => by
    simp [Node.strip, Node.pythonStatements, Node.annotated, Nodes.strip_eq_iff body]
  | _, .for _ _ body orelse => by
    simp [Node.strip, Node.pythonStatements, Node.annotated, Nodes.strip_eq_iff body,
      Nodes.strip_eq_iff orelse, or_imp, forall_and]
  | _, .while _ body orelse => by
    simp [Node.strip, Node.pythonStatements, Node.annotated, Nodes.strip_eq_iff body,
      Nodes.strip_eq_iff orelse, or_imp, forall_and]
  | _, .if _ body elifElseClauses => by
    simp [Node.strip, Node.pythonStatements, Node.annotated, Nodes.strip_eq_iff body,
      Nodes.strip_eq_iff elifElseClauses, or_imp, forall_and]
  | _, .with _ body => by
    simp [Node.strip, Node.pythonStatements, Node.annotated, Nodes.strip_eq_iff body]
  | _, .match _ cases => by
    simp [Node.strip, Node.pythonStatements, Node.annotated, Nodes.strip_eq_iff cases]
  | _, .try body handlers orelse finalBody => by
    simp [Node.strip, Node.pythonStatements, Node.annotated, Nodes.strip_eq_iff body,
      Nodes.strip_eq_iff handlers, Nodes.strip_eq_iff orelse, Nodes.strip_eq_iff finalBody, or_imp,
      forall_and]
  | _, .name .. | _, .attribute .. | _, .call .. | _, .literal .. | _, .lambda .. | _, .comp ..
  | _, .operation .. | _, .keyword .. | _, .parameter .. | _, .comprehension ..
  | _, .typeParam .. | _, .matchValue .. | _, .matchSingleton .. | _, .matchSequence ..
  | _, .matchMapping .. | _, .matchClass .. | _, .matchStar .. | _, .matchAs ..
  | _, .matchOr .. | _, .patternKeyword .. | _, .alias .. | _, .withItem .. | _, .typeAlias ..
  | _, .simple .. | _, .global .. | _, .nonlocal .. | _, .import .. | _, .importFrom ..
  | _, .functionDef .. | _, .classDef .. =>
    iff_of_true rfl (List.forall_mem_nil _)

theorem Nodes.strip_eq_iff : {category : Category} → (nodes : Nodes category) →
    (nodes.strip annotationString = nodes.pythonStatements annotationString ↔
      ∀ a ∈ nodes.annotated, stripAnnAssign a.target a.value = pythonAnnAssign a.target a.value)
  | _, .nil => iff_of_true rfl (List.forall_mem_nil _)
  | _, .cons node nodes => by
    simp only [Nodes.strip, Nodes.pythonStatements, Nodes.annotated, Nodes.cons.injEq,
      List.forall_mem_append, Node.strip_eq_iff node, Nodes.strip_eq_iff nodes]

end

section

attribute [local simp] Node.strip Nodes.strip Node.bindings Nodes.bindings Node.boundOtherwise
  Nodes.boundOtherwise

mutual

theorem Node.bindings_strip : {category : Category} → (node : Node category) →
    (node.strip annotationString).bindings = node.boundOtherwise
  | _, .annAssign target _ .none _ => rfl
  | _, .annAssign target _ (.some value) _ => by
    simp [stripAnnAssign, Nodes.ofList, MaybeNode.isNone, MaybeNode.bindings]
  | _, .clause _ body => by
    simp [Nodes.bindings_strip body]
  | _, .exceptHandler _ _ body => by
    simp [Nodes.bindings_strip body]
  | _, .matchCase _ _ body => by
    simp [Nodes.bindings_strip body]
  | _, .for _ _ body orelse => by
    simp [Nodes.bindings_strip body, Nodes.bindings_strip orelse]
  | _, .while _ body orelse => by
    simp [Nodes.bindings_strip body, Nodes.bindings_strip orelse]
  | _, .if _ body elifElseClauses => by
    simp [Nodes.bindings_strip body, Nodes.bindings_strip elifElseClauses]
  | _, .with _ body => by
    simp [Nodes.bindings_strip body]
  | _, .match _ cases => by
    simp [Nodes.bindings_strip cases]
  | _, .try body handlers orelse finalBody => by
    simp [Nodes.bindings_strip body, Nodes.bindings_strip handlers, Nodes.bindings_strip orelse,
      Nodes.bindings_strip finalBody]
  | _, .name .. | _, .attribute .. | _, .call .. | _, .literal .. | _, .lambda .. | _, .comp ..
  | _, .operation .. | _, .keyword .. | _, .parameter .. | _, .comprehension ..
  | _, .typeParam .. | _, .matchValue .. | _, .matchSingleton .. | _, .matchSequence ..
  | _, .matchMapping .. | _, .matchClass .. | _, .matchStar .. | _, .matchAs ..
  | _, .matchOr .. | _, .patternKeyword .. | _, .alias .. | _, .withItem .. | _, .typeAlias ..
  | _, .simple .. | _, .global .. | _, .nonlocal .. | _, .import .. | _, .importFrom ..
  | _, .functionDef .. | _, .classDef .. => rfl

theorem Nodes.bindings_strip : {category : Category} → (nodes : Nodes category) →
    (nodes.strip annotationString).bindings = nodes.boundOtherwise
  | _, .nil => rfl
  | _, .cons node nodes => by
    simp [Node.bindings_strip node, Nodes.bindings_strip nodes]

end

end

section

attribute [local simp] Node.annotated Nodes.annotated Node.bindings Nodes.bindings
  Node.boundOtherwise Nodes.boundOtherwise or_assoc or_left_comm or_comm

mutual

theorem Node.mem_bindings : {category : Category} → (node : Node category) → {name : String} →
    (name ∈ node.bindings ↔
      name ∈ node.boundOtherwise ∨ name ∈ node.annotated.flatMap Annotated.declared)
  | _, .annAssign target _ .none simple, _ => by
    cases hn : target.isName && !simple <;>
      simp [Annotated.declared, MaybeNode.isNone, MaybeNode.bindings, hn]
  | _, .annAssign target _ (.some value) _, _ => by
    simp [Annotated.declared, MaybeNode.isNone]
  | _, .clause _ body, _ => by
    simp [Nodes.mem_bindings body ]
  | _, .exceptHandler _ _ body, _ => by
    simp [Nodes.mem_bindings body ]
  | _, .matchCase _ _ body, _ => by
    simp [Nodes.mem_bindings body ]
  | _, .for _ _ body orelse, _ => by
    simp [Nodes.mem_bindings body, Nodes.mem_bindings orelse ]
  | _, .while _ body orelse, _ => by
    simp [Nodes.mem_bindings body, Nodes.mem_bindings orelse ]
  | _, .if _ body elifElseClauses, _ => by
    simp [Nodes.mem_bindings body, Nodes.mem_bindings elifElseClauses ]
  | _, .with _ body, _ => by
    simp [Nodes.mem_bindings body ]
  | _, .match _ cases, _ => by
    simp [Nodes.mem_bindings cases ]
  | _, .try body handlers orelse finalBody, _ => by
    simp [Nodes.mem_bindings body, Nodes.mem_bindings handlers, Nodes.mem_bindings orelse,
      Nodes.mem_bindings finalBody ]
  | _, .name .., _ | _, .attribute .., _ | _, .call .., _ | _, .literal .., _
  | _, .lambda .., _ | _, .comp .., _ | _, .operation .., _ | _, .keyword .., _
  | _, .parameter .., _ | _, .comprehension .., _ | _, .typeParam .., _ | _, .matchValue .., _
  | _, .matchSingleton .., _ | _, .matchSequence .., _ | _, .matchMapping .., _
  | _, .matchClass .., _ | _, .matchStar .., _ | _, .matchAs .., _ | _, .matchOr .., _
  | _, .patternKeyword .., _ | _, .alias .., _ | _, .withItem .., _ | _, .typeAlias .., _
  | _, .simple .., _ | _, .global .., _ | _, .nonlocal .., _ | _, .import .., _
  | _, .importFrom .., _ | _, .functionDef .., _ | _, .classDef .., _ => by simp

theorem Nodes.mem_bindings : {category : Category} → (nodes : Nodes category) → {name : String} →
    (name ∈ nodes.bindings ↔
      name ∈ nodes.boundOtherwise ∨ name ∈ nodes.annotated.flatMap Annotated.declared)
  | _, .nil, _ => by simp
  | _, .cons node nodes, _ => by
    simp [Node.mem_bindings node, Nodes.mem_bindings nodes]

end

end

end

/-! ## What the annotate function returns -/

section

variable {α : Type}

def insertPair (dict : List (String × α)) (pair : String × α) : List (String × α) :=
  if dict.any (·.1 == pair.1) then dict.map fun old => if old.1 == pair.1 then pair else old
  else dict ++ [pair]

/-- `dict(pairs)`. -/
def pyDict (pairs : List (String × α)) : List (String × α) :=
  pairs.foldl insertPair []

theorem lookup_cons_ite (pair : String × α) (dict : List (String × α)) (key : String) :
    (pair :: dict).lookup key = if key = pair.1 then some pair.2 else dict.lookup key := by
  rw [List.lookup_cons]
  by_cases h : key = pair.1
  · rw [if_pos h, beq_iff_eq.mpr h]
  · rw [if_neg h, beq_eq_false_iff_ne.mpr h]

theorem lookup_map_replace (dict : List (String × α)) (pair : String × α) (key : String) :
    (dict.map fun old => if old.1 == pair.1 then pair else old).lookup key =
      if key = pair.1 ∧ dict.any (·.1 == pair.1) then some pair.2 else dict.lookup key := by
  induction dict with
  | nil => simp
  | cons old dict ih =>
    rw [List.map_cons, lookup_cons_ite, lookup_cons_ite, ih, List.any_cons]
    by_cases ho : old.1 = pair.1
    · rw [if_pos (beq_iff_eq.mpr ho)]
      by_cases hk : key = pair.1 <;> simp [hk, ho]
    · rw [if_neg (mt beq_iff_eq.mp ho), beq_eq_false_iff_ne.mpr ho, Bool.false_or]
      by_cases hk : key = pair.1
      · have hko : key ≠ old.1 := fun h => ho (h.symm.trans hk)
        rw [if_neg hko, if_neg hko]
      · simp only [hk, false_and, if_false]

theorem lookup_insertPair (dict : List (String × α)) (pair : String × α) (key : String) :
    (insertPair dict pair).lookup key = if key = pair.1 then some pair.2 else dict.lookup key := by
  unfold insertPair
  by_cases hd : dict.any (·.1 == pair.1)
  · rw [if_pos hd, lookup_map_replace]
    simp only [hd, and_true]
  · rw [if_neg hd, List.lookup_append, lookup_cons_ite]
    by_cases hk : key = pair.1
    · have hn : dict.lookup key = none := by
        rw [List.lookup_eq_none_iff]
        intro old ho
        rw [bne_iff_ne]
        intro h
        exact hd (List.any_eq_true.mpr ⟨old, ho, beq_iff_eq.mpr (h.symm.trans hk)⟩)
      rw [hn, if_pos hk, if_pos hk, Option.none_or]
    · rw [if_neg hk, if_neg hk, List.lookup_nil, Option.or_none]

theorem lookup_foldl_insertPair (pairs dict : List (String × α)) (key : String) :
    (pairs.foldl insertPair dict).lookup key = (pairs.reverse.lookup key).or (dict.lookup key) := by
  induction pairs generalizing dict with
  | nil => rfl
  | cons pair pairs ih =>
    rw [List.foldl_cons, ih, List.reverse_cons, List.lookup_append, lookup_insertPair,
      lookup_cons_ite, Option.or_assoc]
    congr 1
    by_cases hk : key = pair.1
    · rw [if_pos hk, if_pos hk, Option.some_or]
    · rw [if_neg hk, if_neg hk, List.lookup_nil, Option.none_or]

/-- The last pair of a key gives its value. -/
theorem lookup_pyDict (pairs : List (String × α)) (key : String) :
    (pyDict pairs).lookup key = pairs.reverse.lookup key := by
  unfold pyDict
  rw [lookup_foldl_insertPair, List.lookup_nil, Option.or_none]

end

inductive AnnotateResult
  | dict (items : List (String × Expr))
  | notImplementedError

def Node.isRuntimeName (attr : String) : Expr → Bool
  | .attribute (.name id _) helper => id == "__soac__" && helper == attr
  | _ => false

def Nodes.pairs : {category : Category} → Nodes category → Option (List (String × Expr))
  | _, .nil => some []
  | _, .cons (.operation .tuple (.cons (.literal (.str key)) (.cons value .nil))) nodes =>
    nodes.pairs.map ((key, value) :: ·)
  | _, _ => none

def Node.dictItems : Expr → Option (List (String × Expr))
  | .call dict (.cons (.call tuple items .nil) .nil) .nil =>
    if dict.isRuntimeName "dict" && tuple.isRuntimeName "tuple_values" then items.pairs.map pyDict
    else none
  | _ => none

def Node.formatHolds (format : ℕ) : Expr → Option Bool
  | .call helper (.cons (.name _ _) (.cons (.literal (.int n)) .nil)) .nil =>
    if helper.isRuntimeName "eq" then some (format == n)
    else if helper.isRuntimeName "gt" then some (n < format)
    else none
  | _ => none

def Node.annotateResult : Stmt → Option AnnotateResult
  | .simple .return (.cons value .nil) => value.dictItems.map .dict
  | .simple .raise (.cons (.attribute builtins "NotImplementedError") .nil) =>
    if builtins.isRuntimeName "builtins" then some .notImplementedError else none
  | _ => none

def Nodes.runAnnotate (format : ℕ) : {category : Category} → Nodes category → Option AnnotateResult
  | _, .cons (.if test (.cons stmt .nil) .nil) rest =>
    test.formatHolds format >>= fun holds =>
      if holds then stmt.annotateResult else rest.runAnnotate format
  | .stmt, .cons stmt .nil => stmt.annotateResult
  | _, _ => none

def callAnnotate (format : ℕ) : Stmt → Option AnnotateResult
  | .functionDef _ _ _ _ _ body => body.runAnnotate format
  | _ => none

theorem pairs_map (read : Entry → Expr) (entries : List Entry) :
    (Nodes.ofList (entries.map fun entry =>
      .operation .tuple (.ofList [.literal (.str entry.name), read entry]))).pairs =
        some (entries.map fun entry => (entry.name, read entry)) := by
  induction entries with
  | nil => rfl
  | cons entry entries ih =>
    show (Nodes.pairs _).map _ = _
    rw [ih]
    rfl

theorem annotateResult_return (read : Entry → Expr) (entries : List Entry) :
    (Node.simple .return (.ofList [runtimeCall "dict" [makeTuple (entries.map fun entry =>
      .operation .tuple (.ofList [.literal (.str entry.name), read entry]))]])).annotateResult =
        some (.dict (pyDict (entries.map fun entry => (entry.name, read entry)))) := by
  show (Option.map pyDict (Nodes.pairs _)).map AnnotateResult.dict = _
  rw [pairs_map]
  rfl

/-- What is read of an annotation: its text in the format `STRING`. -/
def Entry.read (format : ℕ) (entry : Entry) : Expr :=
  if format = 4 then .literal (.str entry.source) else entry.value

theorem callAnnotate_buildAnnotateFn (entries : List Entry) (name : String) {format : ℕ}
    (hf : format = 4 ∨ format ≤ 2) :
    callAnnotate format (buildAnnotateFn entries name) =
      some (.dict (pyDict (entries.map fun entry => (entry.name, entry.read format)))) := by
  show (if format == 4 then _ else if decide (2 < format) then _ else _) = _
  by_cases h4 : format = 4
  · have hr : (fun entry => (entry.name, entry.read format)) =
        fun entry : Entry => (entry.name, Node.literal (.str entry.source)) := by
      funext entry
      rw [Entry.read, if_pos h4]
    rw [if_pos (beq_iff_eq.mpr h4), hr]
    exact annotateResult_return (fun entry => .literal (.str entry.source)) entries
  · have hr : (fun entry => (entry.name, entry.read format)) =
        fun entry : Entry => (entry.name, entry.value) := by
      funext entry
      rw [Entry.read, if_neg h4]
    have h2 : ¬ 2 < format := by omega
    rw [if_neg (mt beq_iff_eq.mp h4), if_neg (mt of_decide_eq_true h2), hr]
    exact annotateResult_return Entry.value entries

/-- The formats between make the caller fall back to evaluating with fake globals. -/
theorem callAnnotate_buildAnnotateFn_between (entries : List Entry) (name : String) {format : ℕ}
    (h4 : format ≠ 4) (h2 : 2 < format) :
    callAnnotate format (buildAnnotateFn entries name) = some .notImplementedError := by
  show (if format == 4 then _ else if decide (2 < format) then _ else _) = _
  rw [if_neg (mt beq_iff_eq.mp h4), if_pos (decide_eq_true h2)]
  rfl

theorem lookup_map_reverse (entries : List Entry) (read : Entry → Expr) (name : String) :
    ((entries.map fun entry => (entry.name, read entry)).reverse).lookup name =
      (entries.reverse.find? (·.name == name)).map read := by
  rw [← List.map_reverse]
  induction entries.reverse with
  | nil => rfl
  | cons entry entries ih =>
    rw [List.map_cons, lookup_cons_ite, ih, List.find?_cons]
    by_cases h : name = entry.name
    · rw [if_pos h, beq_iff_eq.mpr h.symm]
      rfl
    · rw [if_neg h, beq_eq_false_iff_ne.mpr (Ne.symm h)]

/-! ## When the meaning is kept -/

/-- Python collects the annotations of names that are not in parentheses. -/
def Nodes.simpleEntries (annotationString : Expr → String) (body : Suite) : List Entry :=
  (body.annotated.filter (·.simple)).filterMap (Annotated.entry annotationString)

structure KeepsMeaning (annotationString : Expr → String) (kind : BodyKind) (body : Suite) :
    Prop where
  /-- Targets are evaluated and values stored as Python does. -/
  statements : body.strip annotationString = body.pythonStatements annotationString
  locals : ∀ name, IsLocal kind body.bindings name ↔
    IsLocal kind (body.strip annotationString).bindings name
  collected : kind ≠ .functionBody →
    body.entries annotationString = body.simpleEntries annotationString
  /-- Of several annotations of a name, the annotate function returns the last. -/
  lastWins : ∀ (fnName : String) (format : ℕ), format = 4 ∨ format ≤ 2 →
    ∃ items, callAnnotate format (buildAnnotateFn (body.entries annotationString) fnName) =
      some (.dict items) ∧ ∀ name, items.lookup name =
        ((body.entries annotationString).reverse.find? (·.name == name)).map (Entry.read format)
  /-- In the formats between, the caller evaluates the annotations with globals of its own. -/
  fallsBack : ∀ (fnName : String) (format : ℕ), format ≠ 4 → 2 < format →
    callAnnotate format (buildAnnotateFn (body.entries annotationString) fnName) =
      some .notImplementedError
  /-- A module ends with the annotate function, unless nothing is collected. -/
  annotates : kind = .moduleBody → rewriteAnnAssignToDunderAnnotate annotationString body =
    if body.entries annotationString = [] then body.strip annotationString
    else (body.strip annotationString).append
      (.cons (buildAnnotateFn (body.entries annotationString) "__annotate__") .nil)

section

variable (annotationString : Expr → String)

theorem entry_isSome (a : Annotated) :
    (a.entry annotationString).isSome = a.target.isName := by
  obtain ⟨target, annotation, value, simple⟩ := a
  cases target <;> rfl

omit annotationString in
theorem filterMap_filter_eq_iff {α β : Type} (f : α → Option β) (p : α → Bool) (l : List α) :
    l.filterMap f = (l.filter p).filterMap f ↔ ∀ a ∈ l, (f a).isSome → p a = true := by
  induction l with
  | nil => exact iff_of_true rfl (List.forall_mem_nil _)
  | cons a l ih =>
    rw [List.forall_mem_cons, ← ih, List.filter_cons]
    cases hp : p a with
    | true =>
      rw [if_pos rfl]
      cases hf : f a with
      | none => simp [hf]
      | some b => simp [hf]
    | false =>
      rw [if_neg Bool.false_ne_true]
      cases hf : f a with
      | none => simp [hf]
      | some b =>
        -- one entry more on the left than the sublist on the right can have
        have hl := (List.Sublist.filterMap f (List.filter_sublist (p := p) (l := l))).length_le
        refine iff_of_false (fun h => ?_) (fun h => Bool.false_ne_true (h.1 rfl))
        have hc := congrArg List.length h
        rw [List.filterMap_cons, hf, List.length_cons] at hc
        omega

theorem entries_eq_iff (body : Suite) :
    body.entries annotationString = body.simpleEntries annotationString ↔
      ∀ a ∈ body.annotated, a.target.isName → a.simple = true := by
  unfold Nodes.entries Nodes.simpleEntries
  rw [filterMap_filter_eq_iff]
  simp only [entry_isSome]

theorem exists_annotateItems (entries : List Entry) (fnName : String) {format : ℕ}
    (hf : format = 4 ∨ format ≤ 2) :
    ∃ items, callAnnotate format (buildAnnotateFn entries fnName) = some (.dict items) ∧
      ∀ name, items.lookup name =
        (entries.reverse.find? (·.name == name)).map (Entry.read format) := by
  refine ⟨_, callAnnotate_buildAnnotateFn entries fnName hf, fun name => ?_⟩
  rw [lookup_pyDict]
  exact lookup_map_reverse entries (Entry.read format) name

omit annotationString in
theorem append_nil {category : Category} : (nodes : Nodes category) → nodes.append .nil = nodes
  | .nil => rfl
  | .cons node nodes => congrArg (Nodes.cons node) (append_nil nodes)

theorem rewriteAnnAssign_eq (body : Suite) :
    rewriteAnnAssignToDunderAnnotate annotationString body =
      if body.entries annotationString = [] then body.strip annotationString
      else (body.strip annotationString).append
        (.cons (buildAnnotateFn (body.entries annotationString) "__annotate__") .nil) := by
  unfold rewriteAnnAssignToDunderAnnotate annotateFn
  cases body.entries annotationString with
  | nil => exact append_nil _
  | cons entry entries => rfl

theorem locals_iff (kind : BodyKind) (body : Suite) :
    (∀ name, IsLocal kind body.bindings name ↔
      IsLocal kind (body.strip annotationString).bindings name) ↔
      (kind ≠ .moduleBody → ∀ a ∈ body.annotated, ∀ name ∈ a.declared,
        name ∈ body.boundOtherwise) := by
  unfold IsLocal
  rw [Nodes.bindings_strip]
  by_cases hk : kind = .moduleBody
  · simp [hk]
  · simp only [hk, false_or, Nodes.mem_bindings, List.mem_flatMap, ne_eq, not_false_eq_true,
      true_implies]
    constructor
    · intro h a ha name hn
      exact (h name).mp (Or.inr ⟨a, ha, hn⟩)
    · intro h name
      refine ⟨fun hb => ?_, Or.inl⟩
      rcases hb with hb | ⟨a, ha, hn⟩
      · exact hb
      · exact h a ha name hn

end

/-- `x: int`, then `return x`. -/
def annotatedOnlyBody : Suite :=
  .ofList [
    .annAssign (.name "x" .store) (.name "int" .load) .none true,
    .simple .return (.ofList [.name "x" .load])]

end DietPython.Syntax
