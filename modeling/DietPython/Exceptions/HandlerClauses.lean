import DietPython.ControlFlow.Statements
import DietPython.Lib.LeafTrees
import Mathlib.Logic.Function.Basic

/-!
# `except` and `except*` clauses

`rewrite_try_stmt` folds the clauses of a `try` into the body of one bare `except`: a chain of
tests for `except`, and for `except*` a sequence of splits that pass on what is left of the
exception in `_dp_rest`. A body with an `as` name is wrapped into a `try` whose `finally` deletes
the name.

Exceptions are trees: a group has the exceptions that it was made of below it. Handler bodies are
whatever they do to the state, or never leave. The rewritten code is kept as a tree of its own, and
running it gives a log of what became of each clause.
-/

namespace DietPython.Exceptions

open LeafTrees ControlFlow

/-! ## Handler types -/

mutual

/-- What a handler expression evaluates to. -/
inductive HandlerType (C : Type)
  | object (c : C)
  | tuple (entries : HandlerTypes C)

inductive HandlerTypes (C : Type)
  | nil
  | cons (entry : HandlerType C) (rest : HandlerTypes C)

end

/-- What the interpreter knows of classes and exceptions. `G` is a group without the exceptions
that are in it. -/
structure ExceptionTypes (L G C St : Type) where
  /-- A class that inherits from `BaseException`. -/
  isExceptionClass : C → Bool
  leafInherits : L → C → Bool
  groupInherits : G → C → Bool
  isRecursionError : Tree L G → Bool
  /-- `isinstance` for what is no tuple, which asks the metaclass; `none` is `None`. -/
  instanceCheck : Option (Tree L G) → C → St → Except (Tree L G) Bool × St
  typeError : St → Tree L G × St
  /-- The group that a part of a group is put into. -/
  derive : G → G

mutual

/-- `_validate_exception_type` -/
def validateExceptionType {C : Type} (isExceptionClass : C → Bool) : HandlerType C → Bool
  | .object c => isExceptionClass c
  | .tuple entries => validateEntries isExceptionClass entries

def validateEntries {C : Type} (isExceptionClass : C → Bool) : HandlerTypes C → Bool
  | .nil => true
  | .cons entry rest =>
    validateExceptionType isExceptionClass entry && validateEntries isExceptionClass rest

end

namespace HandlerTypes

variable {C : Type}

/-- Entries that are no tuples themselves. -/
def objects? : HandlerTypes C → Option (List C)
  | .nil => some []
  | .cons (.object c) rest => rest.objects?.map (c :: ·)
  | .cons (.tuple _) _ => none

end HandlerTypes

/-- The objects of a handler type that is not nested. -/
def HandlerType.objects? {C : Type} : HandlerType C → Option (List C)
  | .object c => some [c]
  | .tuple entries => entries.objects?

/-- Exceptions and classes as numbers: an exception inherits from its divisors, of which 0 is no
class. -/
def ExceptionTypes.divisors (St : Type) : ExceptionTypes ℕ ℕ ℕ St where
  isExceptionClass c := c != 0
  leafInherits l c := l % c == 0
  groupInherits g c := g % c == 0
  isRecursionError _ := false
  instanceCheck
    | some (.leaf l), c, s => (.ok (l % c == 0), s)
    | some (.group g _), c, s => (.ok (g % c == 0), s)
    | none, _, s => (.ok false, s)
  typeError s := (.leaf 0, s)
  derive g := g

section Matching

variable {L G C St : Type} (types : ExceptionTypes L G C St)

mutual

def isinstance (exc : Option (Tree L G)) :
    HandlerType C → St → Except (Tree L G) Bool × St
  | .object c, s => types.instanceCheck exc c s
  | .tuple entries, s => isinstanceAny exc entries s

def isinstanceAny (exc : Option (Tree L G)) :
    HandlerTypes C → St → Except (Tree L G) Bool × St
  | .nil, s => (.ok false, s)
  | .cons entry rest, s =>
    match isinstance exc entry s with
    | (.ok false, s) => isinstanceAny exc rest s
    | r => r

end

/-- `exception_matches` -/
def exceptionMatches (exc : Tree L G) (typ : HandlerType C) (s : St) :
    Except (Tree L G) Bool × St :=
  if types.isRecursionError exc then isinstance types (some exc) typ s
  else if validateExceptionType types.isExceptionClass typ then
    isinstance types (some exc) typ s
  else ((.error (types.typeError s).1), (types.typeError s).2)

/-! ### What Python matches -/

/-- A type that an `except` clause may name: an exception class or a tuple of some. -/
def accepts (typ : HandlerType C) : Bool :=
  match typ.objects? with
  | some objects => objects.all types.isExceptionClass
  | none => false

def inherits : Tree L G → C → Bool
  | .leaf l, c => types.leafInherits l c
  | .group g _, c => types.groupInherits g c

/-- The exception inherits from one of the classes. -/
def inheritsAny (exc : Tree L G) (typ : HandlerType C) : Bool :=
  (typ.objects?.getD []).any (inherits types exc)

/-- A clause with this type matches the exception. -/
def catches (exc : Tree L G) (typ : HandlerType C) : Bool :=
  accepts types typ && inheritsAny types exc typ

def leafMatches (typ : HandlerType C) (l : L) : Bool :=
  (typ.objects?.getD []).any (types.leafInherits l)

def groupMatches (typ : HandlerType C) (g : G) : Bool :=
  (typ.objects?.getD []).any (types.groupInherits g)

/-! ### Splitting -/

/-- `exceptiongroup_split`: what matches, and what does not. The `split` of a group takes no nested
tuples. -/
def exceptiongroupSplit (exc : Option (Tree L G)) (typ : HandlerType C) (s : St) :
    Except (Tree L G) (Option (Tree L G) × Option (Tree L G)) × St :=
  if validateExceptionType types.isExceptionClass typ then
    match exc with
    | some (.group g children) =>
      if accepts types typ then
        (.ok ((Tree.group g children).split (leafMatches types typ) (groupMatches types typ)
          types.derive), s)
      else (.error (types.typeError s).1, (types.typeError s).2)
    | exc =>
      match isinstance types exc typ s with
      | (.ok true, s) => (.ok (exc, none), s)
      | (.ok false, s) => (.ok (none, exc), s)
      | (.error e, s) => (.error e, s)
  else (.error (types.typeError s).1, (types.typeError s).2)

end Matching

/-! ## Rewritten handlers -/

/-- The variables of the scope that the `try` stands in. -/
structure HandlerNames (N X St : Type) where
  /-- Assign an exception, or `None`. -/
  bind : N → Option X → St → St
  /-- `del_quietly`, which in a class body raises for a name without a value. -/
  delQuietly : N → St → Except X Unit × St
  isBound : N → St → Bool
  isBound_delQuietly : ∀ n s, isBound n (delQuietly n s).2 = false

/-- The names of a scope that has its names in a mapping. In a class body a name without a value
cannot be deleted. -/
def HandlerNames.ofScope {N X : Type} [DecidableEq N] (nameError : X) (inClass : Bool) :
    HandlerNames N X (N → Option (Option X)) where
  bind n exc s := Function.update s n (some exc)
  delQuietly n s :=
    (if inClass && (s n).isNone then .error nameError else .ok (), Function.update s n none)
  isBound n s := (s n).isSome
  isBound_delQuietly n s := by simp

/-- The state of user code with the temporaries of `except*`. -/
structure HandlerState (X St : Type) where
  user : St
  /-- `_dp_exc` -/
  exc : Option X
  /-- `_dp_match` -/
  matched : Option X
  /-- `_dp_rest` -/
  rest : Option X

def HandlerState.setUser {X St : Type} (s : HandlerState X St) (user : St) : HandlerState X St :=
  { s with user := user }

/-- What becomes of a clause. -/
inductive ClauseEvent (L G C N V St : Type) (l : Bool)
  /-- The evaluation of the type raises. -/
  | typeRaised (clause : ℕ)
  /-- The test or the split raises. -/
  | refused (clause : ℕ) (typ : HandlerType C)
  | tested (clause : ℕ) (typ : HandlerType C)
  /-- The handler begins; `matched` is `_dp_match`. -/
  | entered (clause : ℕ) (matched : Option (Tree L G))
  | left (clause : ℕ) (name : Option N) (signal : Signal V (Tree L G) l)
      (s : HandlerState (Tree L G) St)
  /-- The `raise` behind the last clause. -/
  | reraised

section Code

variable (L G C N V St : Type) (l : Bool)

abbrev HandlerTypeExpr := St → Except (Tree L G) (HandlerType C) × St

/-- The statements of a handler: how they leave, if they do. -/
abbrev HandlerBody :=
  HandlerState (Tree L G) St → Option (Signal V (Tree L G) l × HandlerState (Tree L G) St)

/-- The tests of rewritten handlers. -/
inductive HandlerTest
  /-- `__soac__.exception_matches(__soac__.current_exception(), typ)` -/
  | matchesCurrent (clause : ℕ) (typ : HandlerTypeExpr L G C St)
  /-- `_dp_match is not None` -/
  | matchIsNotNone
  /-- `_dp_rest is not None` -/
  | restIsNotNone

/-- The statements of rewritten handlers. -/
inductive HandlerCode
  | pass
  | user (body : HandlerBody L G V St l)
  /-- `name = __soac__.current_exception()` -/
  | bindCurrent (name : N)
  /-- `name = _dp_match` -/
  | bindMatch (name : N)
  /-- `__soac__.del_quietly(name)` -/
  | delQuietly (name : N)
  /-- `_dp_exc = __soac__.current_exception()` -/
  | storeExc
  /-- `_dp_rest = _dp_exc` -/
  | storeRest
  /-- `_dp_match, _dp_rest = __soac__.exceptiongroup_split(_dp_rest, typ)` -/
  | split (clause : ℕ) (typ : HandlerTypeExpr L G C St)
  /-- `raise` -/
  | raiseCurrent
  /-- `raise _dp_rest` -/
  | raiseRest
  | seq (first second : HandlerCode)
  | ifElse (test : HandlerTest L G C St) (body orelse : HandlerCode)
  | tryFinally (body finalbody : HandlerCode)
  /-- Marks the handler of a clause. -/
  | clause (n : ℕ) (name : Option N) (body : HandlerCode)

/-- A clause of a `try`. -/
structure Handler where
  type_ : Option (HandlerTypeExpr L G C St)
  name : Option N
  body : HandlerBody L G V St l

/-- The log of a run, and how it leaves. -/
structure HandlerRun where
  log : List (ClauseEvent L G C N V St l)
  exit : Option (Signal V (Tree L G) l × HandlerState (Tree L G) St)

end Code

variable {L G C N V St : Type} {l : Bool}

/-! ## Runs -/

namespace HandlerRun

/-- Nothing to log. -/
def ends (signal : Signal V (Tree L G) l) (s : HandlerState (Tree L G) St) :
    HandlerRun L G C N V St l :=
  ⟨[], some (signal, s)⟩

def andThen (r : HandlerRun L G C N V St l)
    (next : Signal V (Tree L G) l → HandlerState (Tree L G) St → HandlerRun L G C N V St l) :
    HandlerRun L G C N V St l :=
  match r.exit with
  | none => r
  | some (signal, s) => ⟨r.log ++ (next signal s).log, (next signal s).exit⟩

/-- Log events first. -/
def after (events : List (ClauseEvent L G C N V St l)) (r : HandlerRun L G C N V St l) :
    HandlerRun L G C N V St l :=
  ⟨events ++ r.log, r.exit⟩

end HandlerRun

section Run

variable (types : ExceptionTypes L G C St) (names : HandlerNames N (Tree L G) St)
  (current : Tree L G)

/-- The truth of a test, with what it logs. -/
def HandlerTest.eval (s : HandlerState (Tree L G) St) : HandlerTest L G C St →
    List (ClauseEvent L G C N V St l) × Except (Tree L G) Bool × HandlerState (Tree L G) St
  | .matchesCurrent n typ =>
    match typ s.user with
    | (.error e, u) => ([.typeRaised n], .error e, s.setUser u)
    | (.ok t, u) =>
      match exceptionMatches types current t u with
      | (.error e, u) => ([.refused n t], .error e, s.setUser u)
      | (.ok b, u) => ([.tested n t], .ok b, s.setUser u)
  | .matchIsNotNone => ([], .ok s.matched.isSome, s)
  | .restIsNotNone => ([], .ok s.rest.isSome, s)

theorem HandlerTest.eval_matchesCurrent (s : HandlerState (Tree L G) St) (n : ℕ)
    (typ : HandlerTypeExpr L G C St) :
    (HandlerTest.eval types current s (.matchesCurrent n typ) :
        List (ClauseEvent L G C N V St l) × _) =
      match typ s.user with
      | (.error e, u) => ([.typeRaised n], .error e, s.setUser u)
      | (.ok t, u) =>
        match exceptionMatches types current t u with
        | (.error e, u) => ([.refused n t], .error e, s.setUser u)
        | (.ok b, u) => ([.tested n t], .ok b, s.setUser u) := rfl

namespace HandlerCode

def run : HandlerCode L G C N V St l → HandlerState (Tree L G) St → HandlerRun L G C N V St l
  | .pass, s => .ends .normal s
  | .user body, s => ⟨[], body s⟩
  | .bindCurrent name, s => .ends .normal (s.setUser (names.bind name (some current) s.user))
  | .bindMatch name, s => .ends .normal (s.setUser (names.bind name s.matched s.user))
  | .delQuietly name, s =>
    match names.delQuietly name s.user with
    | (.ok _, u) => .ends .normal (s.setUser u)
    | (.error e, u) => .ends (.exc e) (s.setUser u)
  | .storeExc, s => .ends .normal { s with exc := some current }
  | .storeRest, s => .ends .normal { s with rest := s.exc }
  | .split n typ, s =>
    match typ s.user with
    | (.error e, u) => ⟨[.typeRaised n], some (.exc e, s.setUser u)⟩
    | (.ok t, u) =>
      match exceptiongroupSplit types s.rest t u with
      | (.error e, u) => ⟨[.refused n t], some (.exc e, s.setUser u)⟩
      | (.ok (m, r), u) => ⟨[.tested n t], some (.normal, ⟨u, s.exc, m, r⟩)⟩
  | .raiseCurrent, s => ⟨[.reraised], some (.exc current, s)⟩
  | .raiseRest, s =>
    match s.rest with
    | some e => .ends (.exc e) s
    | none => .ends (.exc (types.typeError s.user).1) (s.setUser (types.typeError s.user).2)
  | .seq first second, s =>
    (first.run s).andThen fun signal s =>
      match signal with
      | .normal => second.run s
      | signal => .ends signal s
  | .ifElse test body orelse, s =>
    match test.eval types current s with
    | (events, .ok true, s) => (body.run s).after events
    | (events, .ok false, s) => (orelse.run s).after events
    | (events, .error e, s) => ⟨events, some (.exc e, s)⟩
  | .tryFinally body finalbody, s =>
    (body.run s).andThen fun signal s =>
      -- `break` and `continue` pass a `finally` body by
      if Meaning.lowered.entersFinal signal then
        (finalbody.run s).andThen fun signal' s =>
          match signal' with
          | .normal => .ends signal s
          | signal' => .ends signal' s
      else .ends signal s
  | .clause n name body, s =>
    ((body.run s).andThen fun signal s => ⟨[.left n name signal s], some (signal, s)⟩).after
      [.entered n s.matched]

variable (s : HandlerState (Tree L G) St)

theorem run_seq (first second : HandlerCode L G C N V St l) :
    (seq first second).run types names current s =
      (first.run types names current s).andThen fun signal s =>
        match signal with
        | .normal => second.run types names current s
        | signal => .ends signal s := rfl

theorem run_ifElse (test : HandlerTest L G C St) (body orelse : HandlerCode L G C N V St l) :
    (ifElse test body orelse).run types names current s =
      match test.eval types current s with
      | (events, .ok true, s) => (body.run types names current s).after events
      | (events, .ok false, s) => (orelse.run types names current s).after events
      | (events, .error e, s) => ⟨events, some (.exc e, s)⟩ := rfl

theorem run_split (n : ℕ) (typ : HandlerTypeExpr L G C St) (s : HandlerState (Tree L G) St) :
    (split n typ : HandlerCode L G C N V St l).run types names current s =
      match typ s.user with
      | (.error e, u) => ⟨[.typeRaised n], some (.exc e, s.setUser u)⟩
      | (.ok t, u) =>
        match exceptiongroupSplit types s.rest t u with
        | (.error e, u) => ⟨[.refused n t], some (.exc e, s.setUser u)⟩
        | (.ok (m, r), u) => ⟨[.tested n t], some (.normal, ⟨u, s.exc, m, r⟩)⟩ := rfl

end HandlerCode

end Run

/-! ## The rewriting -/

/-- A handler body with what precedes it. `wrap_handler_body_with_cleanup` deletes the name behind
it. -/
def Handler.code (h : Handler L G C N V St l) (excTarget : N → HandlerCode L G C N V St l) :
    HandlerCode L G C N V St l :=
  match h.name with
  | some name => .seq (excTarget name) (.tryFinally (.user h.body) (.delQuietly name))
  | none => .seq .pass (.user h.body)

/-- The handlers of `except` from number `n` on, in front of `base`. -/
def handlerChain (base : HandlerCode L G C N V St l) :
    ℕ → List (Handler L G C N V St l) → HandlerCode L G C N V St l
  | _, [] => base
  | n, h :: hs =>
    match h.type_ with
    | none => .seq (.clause n none (.user h.body)) (handlerChain base (n + 1) hs)
    | some typ =>
      .ifElse (.matchesCurrent n typ) (.clause n h.name (h.code .bindCurrent))
        (handlerChain base (n + 1) hs)

/-- The statements for the handlers of `except*` from number `n` on. -/
def starSteps (baseException : HandlerTypeExpr L G C St) :
    ℕ → List (Handler L G C N V St l) → HandlerCode L G C N V St l
  | _, [] => .ifElse .restIsNotNone .raiseRest .pass
  | n, h :: hs =>
    .seq (.split n (h.type_.getD baseException))
      (.seq (.ifElse .matchIsNotNone (.clause n h.name (h.code .bindMatch)) .pass)
        (starSteps baseException (n + 1) hs))

/-- `rewrite_try_stmt`, the handlers alone. `baseException` is the name `BaseException`. -/
def rewriteTryStmt (baseException : HandlerTypeExpr L G C St) (isStar : Bool)
    (handlers : List (Handler L G C N V St l)) : HandlerCode L G C N V St l :=
  if isStar then .seq .storeExc (.seq .storeRest (starSteps baseException 0 handlers))
  else if handlers.any fun h => h.type_.isSome then
    handlerChain (if handlers.any fun h => h.type_.isNone then .pass else .raiseCurrent) 0 handlers
  else
    -- left as it is; `prepare_except_body` takes the body of the first handler
    match handlers with
    | h :: _ => .clause 0 none (.user h.body)
    | [] => .raiseCurrent

end DietPython.Exceptions
