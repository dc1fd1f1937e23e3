import DietPython.ControlFlow.WithStatements

/-!
# The desugaring of `with`

`desugar_structured_with_stmt_for_blockpy` turns each item of a `with` into a `try` with a handler
and a `finally` body. It adds expressions of its own to those of the source: loads and stores of
the names that it makes up, and calls of the runtime functions for context managers. What they do
is part of the runtime that the desugared statements run on.
-/

namespace DietPython.ControlFlow.Source

open Machines

/-! ## Expressions of the desugared statements -/

/-- The context expression where it is used: itself when it is simple, or a temporary. -/
inductive ContextRef (E : Type)
  | direct (e : E)
  | tmp (n : ℕ)

/-- The expressions and simple statements of desugared code. A number stands for the names
`with_exit`, `with_ok`, `with_reraise` and `tmp` of one item. -/
inductive WithExpr (E T : Type)
  | source (e : E)
  | pass
  /-- `tmp = e`. -/
  | storeContext (n : ℕ) (e : E)
  /-- `exit = __soac__.contextmanager_get_exit(ctx)`. -/
  | storeExit (isAsync : Bool) (n : ℕ) (ctx : ContextRef E)
  /-- The assignment of `__soac__.contextmanager_enter(ctx)` to the target, or the call alone. -/
  | enter (isAsync : Bool) (ctx : ContextRef E) (optionalVars : Option T)
  /-- `ok = True` or `ok = False`. -/
  | storeOk (n : ℕ) (value : Bool)
  /-- `__soac__.exception_matches(__soac__.current_exception(), BaseException)`. -/
  | matchesBaseException
  /-- `__soac__.contextmanager_exit(exit, __soac__.current_exception())`. -/
  | exitWithCurrent (n : ℕ)
  /-- `reraise = await __soac__.asynccontextmanager_exit(exit, __soac__.current_exception())`. -/
  | storeReraise (n : ℕ)
  /-- `reraise is not None`. -/
  | reraiseIsNotNone (n : ℕ)
  /-- The operand of `raise reraise`. -/
  | reraise (n : ℕ)
  /-- `ok`. -/
  | loadOk (n : ℕ)
  /-- `__soac__.contextmanager_exit(exit, None)`, or `asynccontextmanager_exit`, awaited. -/
  | exitWithNone (isAsync : Bool) (n : ℕ)
  /-- `exit = None`. -/
  | clearExit (n : ℕ)
  /-- `tmp = None`. -/
  | clearContext (n : ℕ)

/-! ## What they do -/

/-- The names that belong to one item. -/
structure WithNames (V X : Type) where
  context : Option V
  exitFn : Option V
  ok : Bool
  reraise : Option X

/-- The state of user code and the names of all items. -/
structure WithState (V X St : Type) where
  user : St
  names : ℕ → WithNames V X

namespace WithState

variable {V X St : Type}

/-- Before anything has been stored. -/
def ofUser (user : St) : WithState V X St := ⟨user, fun _ => ⟨none, none, false, none⟩⟩

def setUser (s : WithState V X St) (user : St) : WithState V X St := { s with user := user }

def update (s : WithState V X St) (n : ℕ) (f : WithNames V X → WithNames V X) :
    WithState V X St :=
  { s with names := Function.update s.names n (f (s.names n)) }

variable (s : WithState V X St) (user : St) (n : ℕ) (f : WithNames V X → WithNames V X)

@[simp] theorem ofUser_user : (ofUser user : WithState V X St).user = user := rfl
@[simp] theorem setUser_user : (s.setUser user).user = user := rfl
@[simp] theorem setUser_names : (s.setUser user).names = s.names := rfl
@[simp] theorem update_user : (s.update n f).user = s.user := rfl
@[simp] theorem update_names_self : (s.update n f).names n = f (s.names n) := by
  simp [update]

theorem update_names_of_lt {m : ℕ} (h : m < n) : (s.update n f).names m = s.names m := by
  show Function.update s.names n (f (s.names n)) m = s.names m
  rw [Function.update_of_ne (Nat.ne_of_lt h)]

end WithState

section Runtime

variable {E T V X St : Type} (rt : Runtime E T V X St) (cm : ContextManagers V X St)
  (matchesBase : X → St → Except X Bool × St)

/-- `contextmanager_exit`. -/
def contextmanagerExit (exitFn : V) (exc : Option X) (s : St) : Except X Unit × St :=
  match exc with
  | some exc =>
    match cm.suppresses false exitFn exc s with
    | (.ok true, u) => (.ok (), u)
    | (.ok false, u) => (.error exc, u)
    | (.error x, u) => (.error x, u)
  | none =>
    match cm.callExit false exitFn none s with
    | (.ok _, u) => (.ok (), u)
    | (.error x, u) => (.error x, u)

/-- `asynccontextmanager_exit`: the exception that is to be raised again. -/
def asynccontextmanagerExit (exitFn : V) (exc : Option X) (s : St) :
    Except X (Option X) × St :=
  match exc with
  | some exc =>
    match cm.suppresses true exitFn exc s with
    | (.ok true, u) => (.ok none, u)
    | (.ok false, u) => (.ok (some exc), u)
    | (.error x, u) => (.error x, u)
  | none =>
    match cm.callExit true exitFn none s with
    | (.ok _, u) => (.ok none, u)
    | (.error x, u) => (.error x, u)

/-- Run something of user code. -/
def lift {A B : Type} (f : St → A × St) (s : WithState V X St) (g : A → B) :
    B × WithState V X St :=
  let (a, u) := f s.user
  (g a, s.setUser u)

/-- Load a name that may be unbound. -/
def load (v : Option V) (s : WithState V X St) : Except X V × WithState V X St :=
  match v with
  | some v => (.ok v, s)
  | none => lift rt.slotError s .error

/-- Go on with a value. -/
def andThen {A B : Type} (r : Except X A × WithState V X St)
    (f : A → WithState V X St → Except X B × WithState V X St) :
    Except X B × WithState V X St :=
  match r with
  | (.ok a, s) => f a s
  | (.error x, s) => (.error x, s)

def evalContext (ctx : ContextRef E) (current : Option X) (s : WithState V X St) :
    Except X V × WithState V X St :=
  match ctx with
  | .direct e => lift (rt.eval e (rt.given e current)) s id
  | .tmp n => load rt (s.names n).context s

/-- Assign what an enter gave. -/
def assignEntered (target : Option T) (v : V) (s : WithState V X St) :
    Except X V × WithState V X St :=
  match target with
  | none => (.ok v, s)
  | some target => lift (rt.assign target v) s fun r => r.map fun _ => rt.noneValue

/-- The value of an expression; a statement that gives none gives `None`. -/
def evalWith (e : WithExpr E T) (current : Option X) (s : WithState V X St) :
    Except X V × WithState V X St :=
  match e with
  | .source e => lift (rt.eval e (rt.given e current)) s id
  | .storeContext n e =>
    andThen (lift (rt.eval e (rt.given e current)) s id) fun v s =>
      (.ok rt.noneValue, s.update n fun names => { names with context := some v })
  | .storeExit isAsync n ctx =>
    andThen (evalContext rt ctx current s) fun v s =>
      andThen (lift (cm.getExit isAsync v) s id) fun exitFn s =>
        (.ok rt.noneValue, s.update n fun names => { names with exitFn := some exitFn })
  | .enter isAsync ctx target =>
    andThen (evalContext rt ctx current s) fun v s =>
      andThen (lift (cm.enter isAsync v) s id) fun v s => assignEntered rt target v s
  | .storeOk n value =>
    (.ok rt.noneValue, s.update n fun names => { names with ok := value })
  | .exitWithCurrent n =>
    andThen (load rt (s.names n).exitFn s) fun exitFn s =>
      lift (contextmanagerExit cm exitFn current) s fun r => r.map fun _ => rt.noneValue
  | .storeReraise n =>
    andThen (load rt (s.names n).exitFn s) fun exitFn s =>
      andThen (lift (asynccontextmanagerExit cm exitFn current) s id) fun exc s =>
        (.ok rt.noneValue, s.update n fun names => { names with reraise := exc })
  | .reraise n =>
    match (s.names n).reraise with
    | some x => (.error x, s)
    | none => lift rt.slotError s .error
  | .exitWithNone false n =>
    andThen (load rt (s.names n).exitFn s) fun exitFn s =>
      lift (contextmanagerExit cm exitFn none) s fun r => r.map fun _ => rt.noneValue
  | .exitWithNone true n =>
    andThen (load rt (s.names n).exitFn s) fun exitFn s =>
      lift (asynccontextmanagerExit cm exitFn none) s fun r => r.map fun _ => rt.noneValue
  | .clearExit n =>
    (.ok rt.noneValue, s.update n fun names => { names with exitFn := none })
  | .clearContext n =>
    (.ok rt.noneValue, s.update n fun names => { names with context := none })
  | .pass | .matchesBaseException | .reraiseIsNotNone _ | .loadOk _ => (.ok rt.noneValue, s)

/-- The truth of a test. -/
def testWith (e : WithExpr E T) (current : Option X) (s : WithState V X St) :
    Except X Bool × WithState V X St :=
  match e with
  | .source e => lift (rt.test e (rt.given e current)) s id
  | .matchesBaseException =>
    match current with
    | some x => lift (matchesBase x) s id
    | none => (.ok false, s)
  | .reraiseIsNotNone n => (.ok (s.names n).reraise.isSome, s)
  | .loadOk n => (.ok (s.names n).ok, s)
  | _ => lift rt.slotError s .error

/-- The runtime that desugared statements run on. `matchesBase` is what `BaseException` stands for
where a handler looks it up. -/
def withRuntime : Runtime (WithExpr E T) T V X (WithState V X St) where
  readsException
    | .source e => rt.readsException e
    | .storeContext _ e | .storeExit _ _ (.direct e) | .enter _ (.direct e) _ =>
      rt.readsException e
    | .matchesBaseException | .exitWithCurrent _ | .storeReraise _ => true
    | _ => false
  eval := evalWith rt cm
  test := testWith rt matchesBase
  raiseValue v s := lift (rt.raiseValue v) s id
  noActiveException s := lift rt.noActiveException s id
  noneValue := rt.noneValue
  iter isAsync v s := lift (rt.iter isAsync v) s id
  next isAsync v s := lift (rt.next isAsync v) s id
  assign target v s := lift (rt.assign target v) s id
  slotError s := lift rt.slotError s id

variable (u : St) (names : ℕ → WithNames V X)

/-! What desugaring adds leaves the objects of the source alone. -/

theorem iter_withRuntime (isAsync : Bool) (v : V) :
    (withRuntime rt cm matchesBase).iter isAsync v ⟨u, names⟩ =
      ((rt.iter isAsync v u).1, ⟨(rt.iter isAsync v u).2, names⟩) := rfl

theorem next_withRuntime (isAsync : Bool) (v : V) :
    (withRuntime rt cm matchesBase).next isAsync v ⟨u, names⟩ =
      ((rt.next isAsync v u).1, ⟨(rt.next isAsync v u).2, names⟩) := rfl

theorem assign_withRuntime (target : T) (v : V) :
    (withRuntime rt cm matchesBase).assign target v ⟨u, names⟩ =
      ((rt.assign target v u).1, ⟨(rt.assign target v u).2, names⟩) := rfl

end Runtime

/-! ## The desugaring -/

section Desugar

variable {E T : Type} {l : Bool}

/-- The handler of an item, `except BaseException`, which the rewriting of `try` has turned into
a test. -/
def withHandler (isAsync : Bool) (n : ℕ) : ControlFlow.Stmt (WithExpr E T) T l :=
  .ifStmt .matchesBaseException
    (.ofList
      (if isAsync then
        [.simple .pass, .simple (.storeOk n false), .simple (.storeReraise n),
          .ifStmt (.reraiseIsNotNone n) (.ofList [.raiseStmt (some (.reraise n))]) .nil]
      else [.simple .pass, .simple (.storeOk n false), .simple (.exitWithCurrent n)]))
    (.ofList [.raiseStmt none])

/-- The `finally` body of an item. `cleanup` is set when its context is in a temporary. -/
def withFinally (isAsync : Bool) (n : ℕ) (cleanup : Bool) :
    ControlFlow.Stmts (WithExpr E T) T l :=
  .ofList
    ([.ifStmt (.loadOk n) (.ofList [.simple (.exitWithNone isAsync n)]) .nil,
      .simple (.clearExit n)] ++ if cleanup then [.simple (.clearContext n)] else [])

/-- The `try` of an item. -/
def withTry (isAsync : Bool) (n : ℕ) (cleanup : Bool)
    (body : ControlFlow.Stmts (WithExpr E T) T l) : ControlFlow.Stmt (WithExpr E T) T l :=
  .tryExcept body (withHandler isAsync n) .nil .nil (withFinally isAsync n cleanup)

/-- The statements of one item in front of others: the first one, and those behind it. -/
def desugarItem (isAsync : Bool) (n : ℕ) (item : WithItem E T)
    (body rest : ControlFlow.Stmts (WithExpr E T) T l) :
    ControlFlow.Stmt (WithExpr E T) T l × ControlFlow.Stmts (WithExpr E T) T l :=
  let ctx : ContextRef E := if item.isSimple then .direct item.contextExpr else .tmp n
  let entering : ControlFlow.Stmts (WithExpr E T) T l :=
    .cons false (.simple (.enter isAsync ctx item.optionalVars))
      (.cons false (.simple (.storeOk n true))
        (.cons false (withTry isAsync n (!item.isSimple) body) rest))
  if item.isSimple then (.simple (.storeExit isAsync n ctx), entering)
  else (.simple (.storeContext n item.contextExpr),
    .cons false (.simple (.storeExit isAsync n ctx)) entering)

/-- `desugar_structured_with_stmt_for_blockpy`: the items behind the first one are in the body of
its `try`. Items are numbered from `n` on. -/
def desugarItems (isAsync : Bool) (n : ℕ) (item : WithItem E T) :
    List (WithItem E T) → (body rest : ControlFlow.Stmts (WithExpr E T) T l) →
    ControlFlow.Stmt (WithExpr E T) T l × ControlFlow.Stmts (WithExpr E T) T l
  | [], body, rest => desugarItem isAsync n item body rest
  | next :: more, body, rest =>
    let inner := desugarItems isAsync (n + 1) next more body .nil
    desugarItem isAsync n item (.cons false inner.1 inner.2) rest

mutual

/-- The number of items in a statement. -/
def Stmt.items : {l : Bool} → Stmt E T l → ℕ
  | _, .simple _ | _, .raiseStmt _ | _, .returnStmt _ | _, .breakStmt | _, .continueStmt => 0
  | _, .ifStmt _ body orelse => body.items + orelse.items
  | _, .whileStmt _ body orelse => body.items + orelse.items
  | _, .forStmt _ _ _ body orelse => body.items + orelse.items
  | _, .tryExcept body first more orelse finalbody =>
    body.items + first.items + more.items + orelse.items + finalbody.items
  | _, .tryFinally body first more => body.items + first.items + more.items
  | _, .withStmt _ _ more body => more.length + 1 + body.items

def Stmts.items : {l : Bool} → Stmts E T l → ℕ
  | _, .nil => 0
  | _, .cons _ stmt rest => stmt.items + rest.items

end

/-- A `with` begins an expansion. -/
def Stmt.isWith : Stmt E T l → Bool
  | .withStmt .. => true
  | _ => false

mutual

/-- A statement desugared in front of others: the first statement, and those behind it. Items are
numbered from `n` on. -/
def Stmt.desugar : {l : Bool} → Stmt E T l → ℕ → ControlFlow.Stmts (WithExpr E T) T l →
    ControlFlow.Stmt (WithExpr E T) T l × ControlFlow.Stmts (WithExpr E T) T l
  | _, .simple e, _, rest => (.simple (.source e), rest)
  | _, .raiseStmt exc, _, rest => (.raiseStmt (exc.map .source), rest)
  | _, .returnStmt value, _, rest => (.returnStmt (value.map .source), rest)
  | _, .ifStmt test body orelse, n, rest =>
    (.ifStmt (.source test) (body.desugar n) (orelse.desugar (n + body.items)), rest)
  | _, .whileStmt test body orelse, n, rest =>
    (.whileStmt (.source test) (body.desugar n) (orelse.desugar (n + body.items)), rest)
  | _, .forStmt isAsync target iter body orelse, n, rest =>
    (.forStmt isAsync target (.source iter) (body.desugar n) (orelse.desugar (n + body.items)),
      rest)
  | _, .breakStmt, _, rest => (.breakStmt, rest)
  | _, .continueStmt, _, rest => (.continueStmt, rest)
  | _, .tryExcept body first more orelse finalbody, n, rest =>
    let h := n + body.items
    let o := h + first.items + more.items
    let handler := first.desugar h (more.desugar (h + first.items))
    (.tryExcept (body.desugar n) handler.1 handler.2 (orelse.desugar o)
      (finalbody.desugar (o + orelse.items)), rest)
  | _, .tryFinally body first more, n, rest =>
    let h := n + body.items
    let finalbody := first.desugar h (more.desugar (h + first.items))
    (.tryFinally (body.desugar n) finalbody.1 finalbody.2, rest)
  | _, .withStmt isAsync item more body, n, rest =>
    desugarItems isAsync n item more (body.desugar (n + more.length + 1)) rest

def Stmts.desugar : {l : Bool} → Stmts E T l → ℕ → ControlFlow.Stmts (WithExpr E T) T l
  | _, .nil, _ => .nil
  | _, .cons expanded stmt rest, n =>
    let d := stmt.desugar n (rest.desugar (n + stmt.items))
    .cons (expanded || stmt.isWith) d.1 d.2

end

end Desugar

end DietPython.ControlFlow.Source
