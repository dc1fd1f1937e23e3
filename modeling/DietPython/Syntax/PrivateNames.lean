import DietPython.Syntax.Nodes
import Mathlib.Data.List.Basic

/-!
# Private names in class bodies

The rewriting of `__x` in a class `C` to `_C__x`, and where it agrees with Python.
-/

namespace DietPython.Syntax

/-! ## The rewriting -/

def maybeMangle (className : Option String) (attr : String) : Option String :=
  match className with
  | none => none
  | some className =>
    if !("__".toList.isPrefixOf attr.toList) || "__".toList.isSuffixOf attr.toList then none
    else
      let className := className.toList.dropWhile (· == '_')
      if className.isEmpty then none
      else some ("_" ++ String.ofList className ++ attr)

/-- `mangle_identifier` and `mangle_name`: the name to write in the place of `name`. -/
def mangleIdentifier (className : Option String) (name : String) : String :=
  (maybeMangle className name).getD name

def mangleName (className : Option String) (id : String) : ExprContext → String
  | .load => mangleIdentifier className id
  | .store => mangleIdentifier className id
  | .del => mangleIdentifier className id
  | .invalid => id

mutual

/-- The private rewriter, with the methods that walk the fields it does not look at itself. -/
def Node.visit (className : Option String) : {category : Category} → Node category → Node category
  | _, .name id ctx => .name (mangleName className id ctx) ctx
  | _, .attribute value attr => .attribute (value.visit className) (mangleIdentifier className attr)
  | _, .call func args keywords =>
    .call (func.visit className) (args.visit className) (keywords.visit className)
  | _, .literal value => .literal value
  | _, .lambda parameters body => .lambda (parameters.visit className) (body.visit className)
  | _, .comp kind elts generators =>
    .comp kind (elts.visit className) (generators.visit className)
  | _, .operation kind parts => .operation kind (parts.visit className)
  | _, .keyword arg value => .keyword arg (value.visit className)
  | _, .parameter kind name default annotation =>
    .parameter kind (mangleIdentifier className name) (default.visit className)
      (MaybeNode.visit className annotation)
  | _, .comprehension target iter ifs =>
    .comprehension (target.visit className) (iter.visit className) (ifs.visit className)
  | _, .typeParam name bound default =>
    .typeParam name (bound.visit className) (default.visit className)
  | _, .matchValue value => .matchValue (value.visit className)
  | _, .matchSingleton => .matchSingleton
  | _, .matchSequence patterns => .matchSequence (patterns.visit className)
  | _, .matchMapping keys patterns rest =>
    .matchMapping (keys.visit className) (patterns.visit className) rest
  | _, .matchClass cls patterns keywords =>
    .matchClass (cls.visit className) (patterns.visit className) (keywords.visit className)
  | _, .matchStar name => .matchStar name
  | _, .matchAs pattern name => .matchAs (pattern.visit className) name
  | _, .matchOr patterns => .matchOr (patterns.visit className)
  | _, .patternKeyword attr pattern => .patternKeyword attr (pattern.visit className)
  | _, .alias name asName => .alias name asName
  | _, .withItem contextExpr optionalVars =>
    .withItem (contextExpr.visit className) (optionalVars.visit className)
  | _, .clause test body => .clause (test.visit className) (body.visit className)
  | _, .exceptHandler type name body =>
    .exceptHandler (type.visit className) name (body.visit className)
  | _, .matchCase pattern guard body =>
    .matchCase (pattern.visit className) (guard.visit className) (body.visit className)
  | _, .functionDef name decorators typeParams parameters returns body =>
    .functionDef (mangleIdentifier className name) (decorators.visit className)
      (typeParams.visit className) (parameters.visit className) (returns.visit className)
      (body.visit className)
  -- only the body of a class is visited, under a rewriter of its own
  | _, .classDef name decorators typeParams bases keywords body =>
    .classDef name decorators typeParams bases keywords (body.visit (some name))
  | _, .typeAlias name typeParams value =>
    .typeAlias (name.visit className) (typeParams.visit className) (value.visit className)
  | _, .annAssign target annotation value simple =>
    .annAssign (target.visit className) (Node.visit className annotation) (value.visit className)
      simple
  | _, .simple kind parts => .simple kind (parts.visit className)
  | _, .global names => .global (names.map (mangleIdentifier className))
  | _, .nonlocal names => .nonlocal (names.map (mangleIdentifier className))
  | _, .import names => .import (names.visit className)
  | _, .importFrom module names => .importFrom module (names.visit className)
  | _, .for target iter body orelse =>
    .for (target.visit className) (iter.visit className) (body.visit className)
      (orelse.visit className)
  | _, .while test body orelse =>
    .while (test.visit className) (body.visit className) (orelse.visit className)
  | _, .if test body elifElseClauses =>
    .if (test.visit className) (body.visit className) (elifElseClauses.visit className)
  | _, .with items body => .with (items.visit className) (body.visit className)
  | _, .match subject cases => .match (subject.visit className) (cases.visit className)
  | _, .try body handlers orelse finalBody =>
    .try (body.visit className) (handlers.visit className) (orelse.visit className)
      (finalBody.visit className)

def Nodes.visit (className : Option String) : {category : Category} → Nodes category →
    Nodes category
  | _, .nil => .nil
  | _, .cons node nodes => .cons (node.visit className) (nodes.visit className)

def MaybeNode.visit (className : Option String) : {category : Category} → MaybeNode category →
    MaybeNode category
  | _, .none => .none
  | _, .some node => .some (node.visit className)

end

def rewritePrivateNames (body : Suite) : Suite :=
  body.visit none

/-! ## Where identifiers stand -/

inductive Position
  | name
  | invalidName
  | attribute
  | parameter
  | callKeyword
  | scopeDeclaration
  | functionName
  | className
  | typeParam
  | importName
  | importTarget
  | fromModule
  | handler
  | capture
  | patternAttribute
  deriving DecidableEq

/--
The class whose body an identifier stands in, and, in the header of a class, the name of that class
with those of its type parameters that the identifier can refer to.
-/
structure Scope where
  className : Option String
  header : Option (String × List String)

structure Occurrence where
  scope : Scope
  position : Position
  id : String

def moduleScope : Scope :=
  { className := none, header := none }

def Node.typeParamName : {category : Category} → Node category → List String
  | _, .typeParam id _ _ => [id]
  | _, _ => []

def Nodes.typeParamNames : {category : Category} → Nodes category → List String
  | _, .nil => []
  | _, .cons node nodes => node.typeParamName ++ nodes.typeParamNames

def namePosition : ExprContext → Position
  | .load => .name
  | .store => .name
  | .del => .name
  | .invalid => .invalidName

def optional (scope : Scope) (position : Position) (id : Option String) : List Occurrence :=
  id.toList.map (⟨scope, position, ·⟩)

mutual

/-- Every identifier of a program, in the order of the fields. -/
def Node.occurrences (scope : Scope) : {category : Category} → Node category → List Occurrence
  | _, .name id ctx => [⟨scope, namePosition ctx, id⟩]
  | _, .attribute value attr => value.occurrences scope ++ [⟨scope, .attribute, attr⟩]
  | _, .call func args keywords =>
    func.occurrences scope ++ args.occurrences scope ++ keywords.occurrences scope
  | _, .literal _ => []
  | _, .lambda parameters body => parameters.occurrences scope ++ body.occurrences scope
  | _, .comp _ elts generators => elts.occurrences scope ++ generators.occurrences scope
  | _, .operation _ parts => parts.occurrences scope
  | _, .keyword arg value => optional scope .callKeyword arg ++ value.occurrences scope
  | _, .parameter _ name default annotation =>
    ⟨scope, .parameter, name⟩ :: default.occurrences scope ++ annotation.occurrences scope
  | _, .comprehension target iter ifs =>
    target.occurrences scope ++ iter.occurrences scope ++ ifs.occurrences scope
  | _, .typeParam name bound default =>
    ⟨scope, .typeParam, name⟩ :: bound.occurrences scope ++ default.occurrences scope
  | _, .matchValue value => value.occurrences scope
  | _, .matchSingleton => []
  | _, .matchSequence patterns => patterns.occurrences scope
  | _, .matchMapping keys patterns rest =>
    keys.occurrences scope ++ patterns.occurrences scope ++ optional scope .capture rest
  | _, .matchClass cls patterns keywords =>
    cls.occurrences scope ++ patterns.occurrences scope ++ keywords.occurrences scope
  | _, .matchStar name => optional scope .capture name
  | _, .matchAs pattern name => pattern.occurrences scope ++ optional scope .capture name
  | _, .matchOr patterns => patterns.occurrences scope
  | _, .patternKeyword attr pattern =>
    ⟨scope, .patternAttribute, attr⟩ :: pattern.occurrences scope
  | _, .alias name asName =>
    [⟨scope, .importName, name⟩, ⟨scope, .importTarget, asName.getD (firstComponent name)⟩]
  | _, .withItem contextExpr optionalVars =>
    contextExpr.occurrences scope ++ optionalVars.occurrences scope
  | _, .clause test body => test.occurrences scope ++ body.occurrences scope
  | _, .exceptHandler type name body =>
    type.occurrences scope ++ optional scope .handler name ++ body.occurrences scope
  | _, .matchCase pattern guard body =>
    pattern.occurrences scope ++ guard.occurrences scope ++ body.occurrences scope
  | _, .functionDef name decorators typeParams parameters returns body =>
    ⟨scope, .functionName, name⟩ :: decorators.occurrences scope ++ typeParams.occurrences scope ++
      parameters.occurrences scope ++ returns.occurrences scope ++ body.occurrences scope
  | _, .classDef name decorators typeParams bases keywords body =>
    let outside := { scope with header := some (name, []) }
    let inside := { scope with header := some (name, typeParams.typeParamNames) }
    ⟨outside, .className, name⟩ :: decorators.occurrences outside ++
      typeParams.occurrences inside ++ bases.occurrences inside ++ keywords.occurrences inside ++
      body.occurrences { scope with className := some name }
  | _, .typeAlias name typeParams value =>
    name.occurrences scope ++ typeParams.occurrences scope ++ value.occurrences scope
  | _, .annAssign target annotation value _ =>
    target.occurrences scope ++ annotation.occurrences scope ++ value.occurrences scope
  | _, .simple _ parts => parts.occurrences scope
  | _, .global names => names.map (⟨scope, .scopeDeclaration, ·⟩)
  | _, .nonlocal names => names.map (⟨scope, .scopeDeclaration, ·⟩)
  | _, .import names => names.occurrences scope
  | _, .importFrom module names => optional scope .fromModule module ++ names.occurrences scope
  | _, .for target iter body orelse =>
    target.occurrences scope ++ iter.occurrences scope ++ body.occurrences scope ++
      orelse.occurrences scope
  | _, .while test body orelse =>
    test.occurrences scope ++ body.occurrences scope ++ orelse.occurrences scope
  | _, .if test body elifElseClauses =>
    test.occurrences scope ++ body.occurrences scope ++ elifElseClauses.occurrences scope
  | _, .with items body => items.occurrences scope ++ body.occurrences scope
  | _, .match subject cases => subject.occurrences scope ++ cases.occurrences scope
  | _, .try body handlers orelse finalBody =>
    body.occurrences scope ++ handlers.occurrences scope ++ orelse.occurrences scope ++
      finalBody.occurrences scope

def Nodes.occurrences (scope : Scope) : {category : Category} → Nodes category → List Occurrence
  | _, .nil => []
  | _, .cons node nodes => node.occurrences scope ++ nodes.occurrences scope

def MaybeNode.occurrences (scope : Scope) : {category : Category} → MaybeNode category →
    List Occurrence
  | _, .none => []
  | _, .some node => node.occurrences scope

end

/-! ## Private names in Python -/

/-- `__x`, without two underscores after it. -/
def IsPrivate (id : String) : Prop :=
  "__".toList <+: id.toList ∧ ¬ "__".toList <:+ id.toList

instance (id : String) : Decidable (IsPrivate id) :=
  inferInstanceAs (Decidable (_ ∧ _))

/-- The name that `id` stands for in the body of a class. -/
def pythonMangle (className : Option String) (id : String) : String :=
  match className with
  | none => id
  | some className =>
    let className := className.toList.dropWhile (· == '_')
    if IsPrivate id ∧ className ≠ [] then "_" ++ String.ofList className ++ id else id

/-- The identifier is private to the class, whose name is not underscores alone. -/
def PrivateTo (className : Option String) (id : String) : Prop :=
  IsPrivate id ∧ ∃ name, className = some name ∧ name.toList.dropWhile (· == '_') ≠ []

/-- Whether Python mangles the identifiers of a position, the keywords of calls being asked for. -/
def Occurrence.InMangledPosition (keywordNames : Bool) (o : Occurrence) : Prop :=
  match o.position with
  | .invalidName => False
  | .patternAttribute => False
  | .callKeyword => keywordNames = true
  | .importName => '.' ∉ o.id.toList
  | .fromModule => '.' ∉ o.id.toList
  | _ => True

/-- The type parameters of a class belong to it, the rest of its header to the class around it. -/
def Occurrence.innermostClass (o : Occurrence) : Option String :=
  match o.scope.header with
  | none => o.scope.className
  | some (name, typeParams) => if o.id ∈ typeParams then some name else o.scope.className

instance (keywordNames : Bool) (o : Occurrence) : Decidable (o.InMangledPosition keywordNames) := by
  unfold Occurrence.InMangledPosition
  split <;> infer_instance

def Occurrence.pythonId (keywordNames : Bool) (o : Occurrence) : String :=
  if o.InMangledPosition keywordNames then pythonMangle o.innermostClass o.id else o.id

/-- The identifiers of a program with the positions they stand in. -/
def Nodes.uses (body : Suite) : List (Position × String) :=
  (body.occurrences moduleScope).map fun o => (o.position, o.id)

/-- Every identifier of the rewritten program is the one Python uses in its place. -/
def PrivateNamesMangled (keywordNames : Bool) (body : Suite) : Prop :=
  (rewritePrivateNames body).uses =
    (body.occurrences moduleScope).map fun o => (o.position, o.pythonId keywordNames)

/-! ## What the rewriting does to an identifier -/

def Position.visited : Position → Bool
  | .name => true
  | .attribute => true
  | .parameter => true
  | .scopeDeclaration => true
  | .functionName => true
  | _ => false

def Occurrence.rewrittenId (o : Occurrence) : String :=
  if o.scope.header.isNone && o.position.visited then mangleIdentifier o.scope.className o.id
  else o.id

def Occurrence.rewrittenUse (o : Occurrence) : Position × String :=
  (o.position, o.rewrittenId)

def Occurrence.use (o : Occurrence) : Position × String :=
  (o.position, o.id)

theorem isPrivate_iff (id : String) :
    (!("__".toList.isPrefixOf id.toList) || "__".toList.isSuffixOf id.toList) = false ↔
      IsPrivate id := by
  unfold IsPrivate
  rw [Bool.or_eq_false_iff, Bool.not_eq_false', List.isPrefixOf_iff_prefix, ← Bool.not_eq_true,
    List.isSuffixOf_iff_suffix]

theorem mangleIdentifier_eq (className : Option String) (id : String) :
    mangleIdentifier className id = pythonMangle className id := by
  cases className with
  | none => rfl
  | some className =>
    unfold mangleIdentifier maybeMangle pythonMangle
    have hp := isPrivate_iff id
    by_cases h : IsPrivate id
    · by_cases hc : className.toList.dropWhile (· == '_') = []
      · simp [h, hc]
      · simp only [hp.mpr h, List.isEmpty_iff, hc, h, ne_eq, not_false_eq_true, and_self, if_true]
        rfl
    · have hb : (!("__".toList.isPrefixOf id.toList) || "__".toList.isSuffixOf id.toList) =
          true := by
        rw [← Bool.not_eq_false]
        exact fun hf => h (hp.mp hf)
      simp only [hb, h, if_true, false_and, if_false]
      rfl

theorem pythonMangle_of_not {className : Option String} {id : String}
    (h : ¬ PrivateTo className id) : pythonMangle className id = id := by
  cases className with
  | none => rfl
  | some className =>
    unfold pythonMangle
    refine if_neg fun hm => h ⟨hm.1, className, rfl, hm.2⟩

theorem pythonMangle_ne {className : Option String} {id : String}
    (h : PrivateTo className id) : pythonMangle className id ≠ id := by
  obtain ⟨hp, name, rfl, hn⟩ := h
  intro hid
  change (if IsPrivate id ∧ _ then _ else id) = id at hid
  rw [if_pos ⟨hp, hn⟩] at hid
  have hl := congrArg String.length hid
  simp at hl

theorem optional_use (scope : Scope) (position : Position) (id : Option String) :
    (optional scope position id).map Occurrence.use = id.toList.map (position, ·) := by
  cases id <;> rfl

theorem optional_rewrittenUse {scope : Scope} (position : Position)
    (hv : position.visited = false) (id : Option String) :
    (optional scope position id).map Occurrence.rewrittenUse = id.toList.map (position, ·) := by
  cases id with
  | none => rfl
  | some id =>
    show [(Occurrence.mk scope position id).rewrittenUse] = [(position, id)]
    unfold Occurrence.rewrittenUse Occurrence.rewrittenId
    rw [hv, Bool.and_false]
    rfl

/-! ## Headers of classes -/

/-- All of the identifiers stand in the header of a class. -/
def HeaderOnly (occurrences : List Occurrence) : Prop :=
  ∀ o ∈ occurrences, o.scope.header.isSome

@[simp]
theorem headerOnly_nil : HeaderOnly [] := by
  intro o ho
  cases ho

@[simp]
theorem headerOnly_cons {o : Occurrence} {os : List Occurrence} :
    HeaderOnly (o :: os) ↔ o.scope.header.isSome ∧ HeaderOnly os :=
  List.forall_mem_cons

@[simp]
theorem headerOnly_append {os ps : List Occurrence} :
    HeaderOnly (os ++ ps) ↔ HeaderOnly os ∧ HeaderOnly ps :=
  List.forall_mem_append

theorem headerOnly_map {scope : Scope} (hs : scope.header.isSome) (position : Position)
    (ids : List String) : HeaderOnly (ids.map (⟨scope, position, ·⟩)) := by
  intro o ho
  obtain ⟨id, -, rfl⟩ := List.mem_map.mp ho
  exact hs

@[simp]
theorem headerOnly_optional {scope : Scope} (hs : scope.header.isSome) (position : Position)
    (id : Option String) : HeaderOnly (optional scope position id) :=
  headerOnly_map hs position id.toList

section

attribute [local simp] Node.occurrences Nodes.occurrences MaybeNode.occurrences headerOnly_map

mutual

theorem Node.headerOnly : {category : Category} → (node : Node category) → {scope : Scope} →
    scope.header.isSome → HeaderOnly (node.occurrences scope)
  | _, .name _ _, _, hs => by
    simp [hs]
  | _, .attribute value _, _, hs => by
    simp [hs, Node.headerOnly value hs]
  | _, .call func args keywords, _, hs => by
    simp [Node.headerOnly func hs, Nodes.headerOnly args hs, Nodes.headerOnly keywords hs]
  | _, .literal _, _, _ => by
    simp
  | _, .lambda parameters body, _, hs => by
    simp [Nodes.headerOnly parameters hs, Node.headerOnly body hs]
  | _, .comp _ elts generators, _, hs => by
    simp [Nodes.headerOnly elts hs, Nodes.headerOnly generators hs]
  | _, .operation _ parts, _, hs => by
    simp [Nodes.headerOnly parts hs]
  | _, .keyword _ value, _, hs => by
    simp [hs, Node.headerOnly value hs]
  | _, .parameter _ _ default annotation, _, hs => by
    simp [hs, MaybeNode.headerOnly annotation hs, MaybeNode.headerOnly default hs]
  | _, .comprehension target iter ifs, _, hs => by
    simp [Node.headerOnly target hs, Node.headerOnly iter hs, Nodes.headerOnly ifs hs]
  | _, .typeParam _ bound default, _, hs => by
    simp [hs, MaybeNode.headerOnly bound hs, MaybeNode.headerOnly default hs]
  | _, .matchValue value, _, hs => by
    simp [Node.headerOnly value hs]
  | _, .matchSingleton, _, _ => by
    simp
  | _, .matchSequence patterns, _, hs => by
    simp [Nodes.headerOnly patterns hs]
  | _, .matchMapping keys patterns _, _, hs => by
    simp [hs, Nodes.headerOnly keys hs, Nodes.headerOnly patterns hs]
  | _, .matchClass cls patterns keywords, _, hs => by
    simp [Node.headerOnly cls hs, Nodes.headerOnly patterns hs, Nodes.headerOnly keywords hs]
  | _, .matchStar _, _, hs => by
    simp [hs]
  | _, .matchAs pattern _, _, hs => by
    simp [hs, MaybeNode.headerOnly pattern hs]
  | _, .matchOr patterns, _, hs => by
    simp [Nodes.headerOnly patterns hs]
  | _, .patternKeyword _ pattern, _, hs => by
    simp [hs, Node.headerOnly pattern hs]
  | _, .alias _ _, _, hs => by
    simp [hs]
  | _, .withItem contextExpr optionalVars, _, hs => by
    simp [Node.headerOnly contextExpr hs, MaybeNode.headerOnly optionalVars hs]
  | _, .clause test body, _, hs => by
    simp [MaybeNode.headerOnly test hs, Nodes.headerOnly body hs]
  | _, .exceptHandler type _ body, _, hs => by
    simp [hs, MaybeNode.headerOnly type hs, Nodes.headerOnly body hs]
  | _, .matchCase pattern guard body, _, hs => by
    simp [Node.headerOnly pattern hs, MaybeNode.headerOnly guard hs, Nodes.headerOnly body hs]
  | _, .functionDef _ decorators typeParams parameters returns body, _, hs => by
    simp [hs, Nodes.headerOnly decorators hs, Nodes.headerOnly typeParams hs,
      Nodes.headerOnly parameters hs, MaybeNode.headerOnly returns hs, Nodes.headerOnly body hs]
  | _, .classDef _ decorators typeParams bases keywords body, _, hs => by
    simp [hs, Nodes.headerOnly decorators, Nodes.headerOnly typeParams, Nodes.headerOnly bases,
      Nodes.headerOnly keywords, Nodes.headerOnly body]
  | _, .typeAlias name typeParams value, _, hs => by
    simp [Node.headerOnly name hs, Nodes.headerOnly typeParams hs, Node.headerOnly value hs]
  | _, .annAssign target annotation value _, _, hs => by
    simp [Node.headerOnly target hs, Node.headerOnly annotation hs, MaybeNode.headerOnly value hs]
  | _, .simple _ parts, _, hs => by
    simp [Nodes.headerOnly parts hs]
  | _, .global _, _, hs => by
    simp [hs]
  | _, .nonlocal _, _, hs => by
    simp [hs]
  | _, .import names, _, hs => by
    simp [Nodes.headerOnly names hs]
  | _, .importFrom _ names, _, hs => by
    simp [hs, Nodes.headerOnly names hs]
  | _, .for target iter body orelse, _, hs => by
    simp [Node.headerOnly target hs, Node.headerOnly iter hs, Nodes.headerOnly body hs,
      Nodes.headerOnly orelse hs]
  | _, .while test body orelse, _, hs => by
    simp [Node.headerOnly test hs, Nodes.headerOnly body hs, Nodes.headerOnly orelse hs]
  | _, .if test body elifElseClauses, _, hs => by
    simp [Node.headerOnly test hs, Nodes.headerOnly body hs, Nodes.headerOnly elifElseClauses hs]
  | _, .with items body, _, hs => by
    simp [Nodes.headerOnly items hs, Nodes.headerOnly body hs]
  | _, .match subject cases, _, hs => by
    simp [Node.headerOnly subject hs, Nodes.headerOnly cases hs]
  | _, .try body handlers orelse finalBody, _, hs => by
    simp [Nodes.headerOnly body hs, Nodes.headerOnly handlers hs, Nodes.headerOnly orelse hs,
      Nodes.headerOnly finalBody hs]

theorem Nodes.headerOnly : {category : Category} → (nodes : Nodes category) → {scope : Scope} →
    scope.header.isSome → HeaderOnly (nodes.occurrences scope)
  | _, .nil, _, _ => by simp
  | _, .cons node nodes, _, hs => by
    simp [Node.headerOnly node hs, Nodes.headerOnly nodes hs]

theorem MaybeNode.headerOnly : {category : Category} → (node : MaybeNode category) →
    {scope : Scope} → scope.header.isSome → HeaderOnly (node.occurrences scope)
  | _, .none, _, _ => by simp
  | _, .some node, _, hs => by simp [Node.headerOnly node hs]

end

end

theorem HeaderOnly.map_use {os : List Occurrence} (h : HeaderOnly os) :
    os.map Occurrence.use = os.map Occurrence.rewrittenUse := by
  refine List.map_congr_left fun o ho => ?_
  unfold Occurrence.use Occurrence.rewrittenUse Occurrence.rewrittenId
  obtain ⟨header, hh⟩ := Option.isSome_iff_exists.mp (h o ho)
  rw [hh]
  rfl

section

attribute [local simp] Node.occurrences Nodes.occurrences MaybeNode.occurrences Node.visit
  Nodes.visit MaybeNode.visit Occurrence.use Occurrence.rewrittenUse Occurrence.rewrittenId
  Position.visited optional_use

/-- The header of a class is left as it is. -/
theorem Nodes.uses_header (className : Option String) (header : String × List String)
    {category : Category} (nodes : Nodes category) :
    (nodes.occurrences ⟨className, some header⟩).map Occurrence.use =
      (nodes.occurrences ⟨className, some header⟩).map Occurrence.rewrittenUse :=
  (Nodes.headerOnly nodes rfl).map_use

mutual

theorem Node.uses_visit : (className : Option String) → {category : Category} →
    (node : Node category) →
    ((node.visit className).occurrences ⟨className, none⟩).map Occurrence.use =
      (node.occurrences ⟨className, none⟩).map Occurrence.rewrittenUse
  | _, _, .name id ctx => by
    cases ctx <;> rfl
  | className, _, .attribute value _ => by
    simp [Node.uses_visit className value]
  | className, _, .call func args keywords => by
    simp [Node.uses_visit className func, Nodes.uses_visit className args,
      Nodes.uses_visit className keywords]
  | _, _, .literal _ => by
    simp
  | className, _, .lambda parameters body => by
    simp [Nodes.uses_visit className parameters, Node.uses_visit className body]
  | className, _, .comp _ elts generators => by
    simp [Nodes.uses_visit className elts, Nodes.uses_visit className generators]
  | className, _, .operation _ parts => by
    simp [Nodes.uses_visit className parts]
  | className, _, .keyword _ value => by
    simp [optional_rewrittenUse .callKeyword rfl, Node.uses_visit className value]
  | className, _, .parameter _ _ default annotation => by
    simp [MaybeNode.uses_visit className annotation, MaybeNode.uses_visit className default]
  | className, _, .comprehension target iter ifs => by
    simp [Node.uses_visit className target, Node.uses_visit className iter,
      Nodes.uses_visit className ifs]
  | className, _, .typeParam _ bound default => by
    simp [MaybeNode.uses_visit className bound, MaybeNode.uses_visit className default]
  | className, _, .matchValue value => by
    simp [Node.uses_visit className value]
  | _, _, .matchSingleton => by
    simp
  | className, _, .matchSequence patterns => by
    simp [Nodes.uses_visit className patterns]
  | className, _, .matchMapping keys patterns _ => by
    simp [optional_rewrittenUse .capture rfl, Nodes.uses_visit className keys,
      Nodes.uses_visit className patterns]
  | className, _, .matchClass cls patterns keywords => by
    simp [Node.uses_visit className cls, Nodes.uses_visit className patterns,
      Nodes.uses_visit className keywords]
  | _, _, .matchStar _ => by
    simp [optional_rewrittenUse .capture rfl]
  | className, _, .matchAs pattern _ => by
    simp [optional_rewrittenUse .capture rfl, MaybeNode.uses_visit className pattern]
  | className, _, .matchOr patterns => by
    simp [Nodes.uses_visit className patterns]
  | className, _, .patternKeyword _ pattern => by
    simp [Node.uses_visit className pattern]
  | _, _, .alias _ _ => by
    simp
  | className, _, .withItem contextExpr optionalVars => by
    simp [Node.uses_visit className contextExpr, MaybeNode.uses_visit className optionalVars]
  | className, _, .clause test body => by
    simp [MaybeNode.uses_visit className test, Nodes.uses_visit className body]
  | className, _, .exceptHandler type _ body => by
    simp [optional_rewrittenUse .handler rfl, MaybeNode.uses_visit className type,
      Nodes.uses_visit className body]
  | className, _, .matchCase pattern guard body => by
    simp [Node.uses_visit className pattern, MaybeNode.uses_visit className guard,
      Nodes.uses_visit className body]
  | className, _, .functionDef _ decorators typeParams parameters returns body => by
    simp [Nodes.uses_visit className decorators, Nodes.uses_visit className typeParams,
      Nodes.uses_visit className parameters, MaybeNode.uses_visit className returns,
      Nodes.uses_visit className body]
  | className, _, .classDef name decorators typeParams bases keywords body => by
    simp [Nodes.uses_header, Nodes.uses_visit (some name) body]
  | className, _, .typeAlias name typeParams value => by
    simp [Node.uses_visit className name, Nodes.uses_visit className typeParams,
      Node.uses_visit className value]
  | className, _, .annAssign target annotation value _ => by
    simp [Node.uses_visit className target, Node.uses_visit className annotation,
      MaybeNode.uses_visit className value]
  | className, _, .simple _ parts => by
    simp [Nodes.uses_visit className parts]
  | _, _, .global _ => by
    simp
  | _, _, .nonlocal _ => by
    simp
  | className, _, .import names => by
    simp [Nodes.uses_visit className names]
  | className, _, .importFrom _ names => by
    simp [optional_rewrittenUse .fromModule rfl, Nodes.uses_visit className names]
  | className, _, .for target iter body orelse => by
    simp [Node.uses_visit className target, Node.uses_visit className iter,
      Nodes.uses_visit className body, Nodes.uses_visit className orelse]
  | className, _, .while test body orelse => by
    simp [Node.uses_visit className test, Nodes.uses_visit className body,
      Nodes.uses_visit className orelse]
  | className, _, .if test body elifElseClauses => by
    simp [Node.uses_visit className test, Nodes.uses_visit className body,
      Nodes.uses_visit className elifElseClauses]
  | className, _, .with items body => by
    simp [Nodes.uses_visit className items, Nodes.uses_visit className body]
  | className, _, .match subject cases => by
    simp [Node.uses_visit className subject, Nodes.uses_visit className cases]
  | className, _, .try body handlers orelse finalBody => by
    simp [Nodes.uses_visit className body, Nodes.uses_visit className handlers,
      Nodes.uses_visit className orelse, Nodes.uses_visit className finalBody]

theorem Nodes.uses_visit : (className : Option String) → {category : Category} →
    (nodes : Nodes category) →
    ((nodes.visit className).occurrences ⟨className, none⟩).map Occurrence.use =
      (nodes.occurrences ⟨className, none⟩).map Occurrence.rewrittenUse
  | _, _, .nil => by simp
  | className, _, .cons node nodes => by
    simp [Node.uses_visit className node, Nodes.uses_visit className nodes]

theorem MaybeNode.uses_visit : (className : Option String) → {category : Category} →
    (node : MaybeNode category) →
    ((node.visit className).occurrences ⟨className, none⟩).map Occurrence.use =
      (node.occurrences ⟨className, none⟩).map Occurrence.rewrittenUse
  | _, _, .none => by simp
  | className, _, .some node => by simp [Node.uses_visit className node]

end

end

theorem uses_rewritePrivateNames (body : Suite) :
    (rewritePrivateNames body).uses =
      (body.occurrences moduleScope).map Occurrence.rewrittenUse :=
  Nodes.uses_visit none body

/-! ## The identifiers that are missed -/

/-- A private identifier in a position where Python mangles and the rewriter does not look. -/
def Occurrence.Missed (keywordNames : Bool) (o : Occurrence) : Prop :=
  o.InMangledPosition keywordNames ∧ PrivateTo o.innermostClass o.id ∧
    (o.scope.header.isSome ∨ o.position.visited = false)

theorem inMangledPosition_of_visited (keywordNames : Bool) {o : Occurrence}
    (hv : o.position.visited = true) : o.InMangledPosition keywordNames := by
  unfold Occurrence.InMangledPosition
  cases hp : o.position <;> rw [hp] at hv <;> trivial

theorem pythonId_eq_iff (keywordNames : Bool) (o : Occurrence) :
    o.pythonId keywordNames = o.id ↔
      ¬ (o.InMangledPosition keywordNames ∧ PrivateTo o.innermostClass o.id) := by
  unfold Occurrence.pythonId
  constructor
  · rintro h ⟨hm, hp⟩
    rw [if_pos hm] at h
    exact pythonMangle_ne hp h
  · intro h
    by_cases hm : o.InMangledPosition keywordNames
    · rw [if_pos hm]
      exact pythonMangle_of_not fun hp => h ⟨hm, hp⟩
    · rw [if_neg hm]

theorem rewrittenId_eq_iff (keywordNames : Bool) (o : Occurrence) :
    o.rewrittenId = o.pythonId keywordNames ↔ ¬ o.Missed keywordNames := by
  unfold Occurrence.rewrittenId
  by_cases hv : o.scope.header = none ∧ o.position.visited = true
  · -- the rewriter comes to it, with the class around it as the class it is private to
    have hc : o.innermostClass = o.scope.className := by
      unfold Occurrence.innermostClass
      rw [hv.1]
    have hm : ¬ o.Missed keywordNames := by
      rintro ⟨-, -, hh | hh⟩
      · rw [hv.1] at hh
        cases hh
      · rw [hv.2] at hh
        cases hh
    rw [if_pos (by rw [hv.1, hv.2]; rfl), mangleIdentifier_eq, Occurrence.pythonId,
      if_pos (inMangledPosition_of_visited keywordNames hv.2), hc]
    exact iff_of_true rfl hm
  · have hh : o.scope.header.isSome ∨ o.position.visited = false := by
      rw [not_and_or, ← ne_eq, ← Option.isSome_iff_ne_none, Bool.not_eq_true] at hv
      exact hv
    have hn : ¬ (o.scope.header.isNone && o.position.visited) = true := by
      rw [Bool.and_eq_true, Option.isNone_iff_eq_none]
      exact hv
    rw [if_neg hn, eq_comm, pythonId_eq_iff]
    unfold Occurrence.Missed
    exact not_congr ⟨fun h => ⟨h.1, h.2, hh⟩, fun h => ⟨h.1, h.2.1⟩⟩

theorem privateNamesMangled_iff (keywordNames : Bool) (body : Suite) :
    PrivateNamesMangled keywordNames body ↔
      ∀ o ∈ body.occurrences moduleScope, ¬ o.Missed keywordNames := by
  unfold PrivateNamesMangled
  rw [uses_rewritePrivateNames, List.map_inj_left]
  refine forall₂_congr fun o _ => ?_
  rw [← rewrittenId_eq_iff]
  exact ⟨fun h => congrArg Prod.snd h, fun h => congrArg (Prod.mk o.position) h⟩

/-- `class C`, whose body handles an exception `__e` and then names it. -/
def privateHandlerClass : Stmt :=
  let handled : Stmt := .simple .expr (.cons (.name "__e" .load) .nil)
  let handler : Node .exceptHandler :=
    .exceptHandler (.some (.name "OSError" .load)) (some "__e") (.cons handled .nil)
  .classDef "C" .nil .nil .nil .nil
    (.cons (.try (.cons (.simple .pass .nil) .nil) (.cons handler .nil) .nil .nil) .nil)

theorem privateHandlerClass_not_mangled :
    ¬ PrivateNamesMangled false (.cons privateHandlerClass .nil) := by
  unfold PrivateNamesMangled
  decide +kernel

end DietPython.Syntax
