import Mathlib.Data.Fintype.Basic
import DietPython.Blocks.Basic
import DietPython.Lib.Machine
import DietPython.Iteration.Helpers

/-!
# Blocks with yields

The blocks of a generator or coroutine before the resume function is made of them: a statement may
be a `yield`, a `yield from` or an `await`, and so may the operand of a `Return`. Yields inside
other expressions have been moved out by then.

`yieldMachine` runs the blocks from one resumption to the next suspension. What a delegation goes
over and starts with, where an exception of a returned expression goes, what an unstarted generator
makes of an exception and which parameters of blocks keep their values are parameters of it, a
`Policy`: `Policy.python` is the language, and `Policy.lowered` is what the generated code turns out
to follow.
-/

namespace DietPython.Generators

open Blocks (BlockParamRole)
open Machines

/-! ## Syntax -/

/-- The yield-free parts of the blocks. -/
structure Lang where
  Stmt : Type
  Expr : Type
  Name : Type
  /-- `await_iter(value)` -/
  awaitIter : Expr → Expr

structure BlockParam (L : Lang) where
  name : L.Name
  role : BlockParamRole

inductive BlockArg (L : Lang)
  | name (x : L.Name)
  | none
  | currentException
  | abruptKind (kind : ℕ)

/-- What a delegation goes over. -/
inductive Operand (L : Lang)
  /-- the operand of `yield from` -/
  | iterable (value : L.Expr)
  /-- the operand of `await` -/
  | awaitable (value : L.Expr)

def Operand.value {L : Lang} : Operand L → L.Expr
  | .iterable value | .awaitable value => value

/-- The operand of the `yield from` that is left of a delegation: the lowering of awaits turns
`await value` into `yield from await_iter(value)`. -/
def Operand.lowerAwait {L : Lang} : Operand L → L.Expr
  | .iterable value => value
  | .awaitable value => L.awaitIter value

inductive YieldStmt (L : Lang)
  | plain (s : L.Stmt)
  /-- `yield value`, or `target = yield value`. -/
  | yieldValue (target : Option L.Name) (value : Option L.Expr)
  /-- `yield from value` or `await value`, or the same with a target. -/
  | yieldFrom (target : Option L.Name) (value : Operand L)

/-- A terminator. The blocks of the callable are numbered up to `n`. -/
inductive YieldTerm (n : ℕ) (L : Lang)
  | jump (target : Fin (n + 1)) (args : List (BlockArg L))
  | ifTerm (test : L.Expr) (thenLabel elseLabel : Fin (n + 1))
  | branchTable (index : L.Expr) (targets : List (Fin (n + 1))) (default : Fin (n + 1))
  | raiseTerm (exc : Option L.Expr)
  | ret (value : L.Expr)
  | retYield (value : Option L.Expr)
  | retYieldFrom (value : Operand L)

structure YieldBlock (n : ℕ) (L : Lang) where
  params : List (BlockParam L)
  body : List (YieldStmt L)
  term : YieldTerm n L
  /-- The handler of the region that the block is in. -/
  exc : Option (Fin (n + 1))

/-- The blocks of a callable, the entry block first. -/
abbrev YieldProgram (n : ℕ) (L : Lang) := Fin (n + 1) → YieldBlock n L

/-! ## The runtime -/

/-- An effect on the store, with a value or an exception. -/
abbrev Eff (σ E α : Type) := σ → σ × Except E α

/-- What follows an effect. -/
def bindEff {σ E α β : Type} (r : σ × Except E α) (next : α → Eff σ E β) : σ × Except E β :=
  match r.2 with
  | .ok a => next a r.1
  | .error e => (r.1, .error e)

/-- What an `await` needs of the runtime. -/
structure Awaits (σ V E : Type) where
  classes : Iteration.ExceptionClasses E
  /-- The `__await__` of an object. -/
  object : V → Iteration.AwaitableObject σ V E
  /-- What a helper raises, as an exception of the program. -/
  raised : Iteration.Raised E → E
  raised_user : ∀ e, raised (.user e) = e
  /-- A generator of `types.coroutine`, which is awaited though it has no `__await__`. -/
  isCoroutineGenerator : V → Bool
  /-- A coroutine that another one awaits. -/
  beingAwaited : V → σ → Bool
  /-- "coroutine is being awaited already" -/
  awaitedAlready : E

namespace Awaits

variable {σ V E : Type} (aw : Awaits σ V E)

/-- `await_iter` of the runtime module. -/
def awaitIter (v : V) : Eff σ E V := fun s =>
  match Iteration.awaitIter aw.classes (aw.object v) s with
  | (.ok it, s) => (s, .ok it)
  | (.error raised, s) => (s, .error (aw.raised raised))

/-- What the language delegates to in an `await`. -/
def getAwaitable (v : V) : Eff σ E V := fun s =>
  if aw.isCoroutineGenerator v then (s, .ok v)
  else if aw.beingAwaited v s then (s, .error aw.awaitedAlready)
  else
    match (aw.object v).await with
    | none => (s, .error (aw.raised (.typeError none)))
    | some await =>
      match await s with
      | (.ok (some it), s) =>
        if aw.isCoroutineGenerator it then (s, .error (aw.raised (.typeError none)))
        else (s, .ok it)
      | (.ok none, s) => (s, .error (aw.raised (.typeError none)))
      | (.error e, s) => (s, .error e)

end Awaits

/-- The method of a delegate that a thrown exception is forwarded to. -/
inductive Method
  | close
  | throw

/-- What running the blocks needs of the runtime. The store holds the variables and everything
that user code can reach. The exceptions of handlers are in stack slots, `K`. -/
structure YieldRuntime (L : Lang) (σ K V E : Type) where
  none : V
  noDefault : V
  /-- What a slot without a value holds. -/
  deleted : V
  exec : L.Stmt → K → Eff σ E Unit
  eval : L.Expr → K → Eff σ E V
  truth : V → Eff σ E Bool
  tableIndex : V → Eff σ E ℕ
  /-- The exception that a `raise` makes of its operand. -/
  raised : Option V → σ → σ × E
  assign : L.Name → V → Eff σ E Unit
  /-- The slots of a new call. -/
  newSlots : K
  /-- The value of the exception parameter. -/
  currentException : List (BlockParam L) → K → Option V
  currentException_newSlots : ∀ params k,
    currentException params newSlots = (currentException params k).map fun _ => deleted
  /-- Jump arguments become the values of the exception parameters. -/
  passArgs : List (BlockParam L) → List (BlockArg L) → K → σ → K
  passArgs_self : ∀ params k s,
    passArgs params (params.map fun param => .name param.name) k s = k
  /-- Jump arguments become the values of the parameters that say how a `finally` body was entered.
  These are variables. -/
  passAbrupt : List (BlockParam L) → List (BlockArg L) → K → σ → σ
  /-- An exception edge passes the exception on to the parameters of the handler. -/
  catchExc : List (BlockParam L) → E → K → K
  awaits : Awaits σ V E
  eval_awaitIter : ∀ x k s, eval (L.awaitIter x) k s = bindEff (eval x k s) awaits.awaitIter
  iter : V → Eff σ E V
  next : V → Eff σ E V
  send : V → V → Eff σ E V
  /-- `getattr(delegate, method)`, where there is such an attribute. -/
  lookup : Method → V → Eff σ E (Option V)
  callClose : V → Eff σ E V
  callThrow : V → E → Eff σ E V
  /-- The exception as a value. -/
  excObject : E → V
  isGeneratorExit : E → Bool
  /-- The value of a `StopIteration`. -/
  stopValue : E → Option V
  /-- `StopIteration(value)`. -/
  stopIteration : V → E
  /-- A name without a value is read. -/
  unbound : E

namespace YieldRuntime

variable {L : Lang} {σ K V E : Type} (rt : YieldRuntime L σ K V E)

/-- The delegate of the language. -/
def delegateOf : Operand L → K → Eff σ E V
  | .iterable x, k, s => bindEff (rt.eval x k s) rt.iter
  | .awaitable x, k, s => bindEff (rt.eval x k s) rt.awaits.getAwaitable

/-- The delegate of the generated code. -/
def loweredDelegate (value : Operand L) (k : K) (s : σ) : σ × Except E V :=
  bindEff (rt.eval value.lowerAwait k s) rt.iter

end YieldRuntime

/-- Where the lowering has a choice. -/
structure Policy (n : ℕ) (L : Lang) (σ K V E : Type) where
  /-- An unstarted generator that is resumed with an exception raises it. -/
  start : Resumption V E → Option E
  /-- What a delegation goes over. -/
  delegate : Operand L → K → Eff σ E V
  /-- What a new delegation starts with, in a run that this resumption has started. -/
  firstEntry : Resumption V E → Resumption V E
  /-- The method that a lookup has found. -/
  found : Option V → Option V
  /-- The handler of a returned expression. -/
  returnExc : Option (Fin (n + 1)) → Option (Fin (n + 1))
  /-- What a jump to a block writes. -/
  passed : List (BlockParam L) → List (BlockArg L) → K → σ → σ
  /-- What the slots have kept when the body is resumed. -/
  resumed : K → K

namespace Policy

variable {n : ℕ} {L : Lang} {σ K V E : Type} (rt : YieldRuntime L σ K V E)

/-- A delegation starts with `next()`, which is what a sent `None` becomes. -/
def python : Policy n L σ K V E where
  start
    | .send _ => none
    | .throw e => some e
  delegate := rt.delegateOf
  firstEntry _ := .send rt.none
  found := id
  returnExc := id
  passed := rt.passAbrupt
  resumed := id

/-- The blocks are entered whatever resumes them, an `await` goes over `iter(await_iter(value))`, a
delegation starts with the current resumption, a method that is `None` is none, a returned
expression is evaluated outside of its region, a jump writes no variables, and a resumption has
slots of its own. -/
def lowered [DecidableEq V] : Policy n L σ K V E where
  start _ := none
  delegate := rt.loweredDelegate
  firstEntry := id
  found m := m.filter (· ≠ rt.none)
  returnExc _ := none
  passed _ _ _ s := s
  resumed _ := rt.newSlots

/-- The language for delegations, and the lowered policy for the rest. -/
def delegating : Policy n L σ K V E where
  start _ := none
  delegate := rt.delegateOf
  firstEntry _ := .send rt.none
  found := id
  returnExc _ := none
  passed _ _ _ s := s
  resumed _ := rt.newSlots

end Policy

/-! ## States -/

/-- Where a statement stands: the parameters of its block, and the handler of the region. -/
structure Place (n : ℕ) (L : Lang) where
  params : List (BlockParam L)
  exc : Option (Fin (n + 1))

section States

variable (n : ℕ) (L : Lang) (σ K V E : Type)

/-- What follows a yield: statements, after its value has been assigned, or the end with its
value. -/
inductive Rest
  | block (place : Place n L) (target : Option L.Name) (body : List (YieldStmt L))
      (term : YieldTerm n L)
  | ret (place : Place n L)

inductive Suspension
  | plain (rest : Rest n L)
  | delegation (delegate : V) (rest : Rest n L)

inductive YieldState
  | start (s : σ)
  | resume (at_ : Suspension n L V) (k : K) (s : σ)
  | run (place : Place n L) (body : List (YieldStmt L)) (term : YieldTerm n L) (k : K) (s : σ)
  | delegate (it : V) (op : Resumption V E) (rest : Rest n L) (k : K) (s : σ)

inductive YieldResult
  | yielded (value : V) (at_ : Suspension n L V) (k : K) (s : σ)
  | returned (value : V) (s : σ)
  | raised (exc : E) (s : σ)

end States

/-- Where a yield stands. -/
def Rest.place {n : ℕ} {L : Lang} : Rest n L → Place n L
  | .block place _ _ _ => place
  | .ret place => place

def Suspension.rest {n : ℕ} {L : Lang} {V : Type} : Suspension n L V → Rest n L
  | .plain rest => rest
  | .delegation _ rest => rest

/-! ## Running -/

section Step

variable {n : ℕ} {L : Lang} {σ K V E : Type} [DecidableEq V]
variable (rt : YieldRuntime L σ K V E) (p : YieldProgram n L)

/-- Enter a block. -/
def enterBlock (l : Fin (n + 1)) (k : K) (s : σ) : YieldState n L σ K V E :=
  .run ⟨(p l).params, (p l).exc⟩ (p l).body (p l).term k s

/-- An exception goes to the handler, or leaves the body. -/
def raiseTo (exc : Option (Fin (n + 1))) (e : E) (k : K) (s : σ) :
    YieldState n L σ K V E ⊕ YieldResult n L σ K V E :=
  match exc with
  | none => .inr (.raised e s)
  | some h => .inl (enterBlock p h (rt.catchExc (p h).params e k) s)

/-- Go on with the result of an effect. -/
def andThen {α : Type} (exc : Option (Fin (n + 1))) (k : K) (r : σ × Except E α)
    (next : α → σ → YieldState n L σ K V E ⊕ YieldResult n L σ K V E) :
    YieldState n L σ K V E ⊕ YieldResult n L σ K V E :=
  match r.2 with
  | .ok a => next a r.1
  | .error e => raiseTo rt p exc e k r.1

omit [DecidableEq V] in
/-- An effect that follows another one. -/
theorem andThen_bindEff {α β : Type} (exc : Option (Fin (n + 1))) (k : K) (r : σ × Except E α)
    (first : α → Eff σ E β) (next : β → σ → YieldState n L σ K V E ⊕ YieldResult n L σ K V E) :
    andThen rt p exc k (bindEff r first) next =
      andThen rt p exc k r fun a s => andThen rt p exc k (first a s) next := by
  obtain ⟨s, a | e⟩ := r <;> rfl

/-- The yield has a value. -/
def continueWith (v : V) (rest : Rest n L) (k : K) (s : σ) :
    YieldState n L σ K V E ⊕ YieldResult n L σ K V E :=
  match rest with
  | .block place none body term => .inl (.run place body term k s)
  | .block place (some x) body term =>
    andThen rt p place.exc k (rt.assign x v s) fun _ s' => .inl (.run place body term k s')
  | .ret _ => .inr (.returned v s)

/-- The delegate has answered. -/
def delegated (it : V) (rest : Rest n L) (k : K) (r : σ × Except E V) :
    YieldState n L σ K V E ⊕ YieldResult n L σ K V E :=
  match r.2 with
  | .ok y => .inr (.yielded y (.delegation it rest) k r.1)
  | .error e =>
    match rt.stopValue e with
    | some v => continueWith rt p v rest k r.1
    | none => raiseTo rt p rest.place.exc e k r.1

variable (pol : Policy n L σ K V E)

/-- One step of a delegation. -/
def stepDelegate (it : V) (op : Resumption V E) (rest : Rest n L) (k : K) (s : σ) :
    YieldState n L σ K V E ⊕ YieldResult n L σ K V E :=
  match op with
  | .send v => delegated rt p it rest k (if v = rt.none then rt.next it s else rt.send it v s)
  | .throw e =>
    if rt.isGeneratorExit e then
      andThen rt p rest.place.exc k (rt.lookup .close it s) fun m s' =>
        match pol.found m with
        | none => raiseTo rt p rest.place.exc e k s'
        | some m => andThen rt p rest.place.exc k (rt.callClose m s') fun _ s'' =>
            raiseTo rt p rest.place.exc e k s''
    else
      andThen rt p rest.place.exc k (rt.lookup .throw it s) fun m s' =>
        match pol.found m with
        | none => raiseTo rt p rest.place.exc e k s'
        | some m => delegated rt p it rest k (rt.callThrow m e s')

/-- The value of a `yield`. -/
def evalYield (value : Option L.Expr) (k : K) : Eff σ E V :=
  match value with
  | none => fun s => (s, .ok rt.none)
  | some x => rt.eval x k

/-- Start a delegation. -/
def startDelegate (sig : Resumption V E) (value : Operand L) (rest : Rest n L) (k : K) (s : σ) :
    YieldState n L σ K V E ⊕ YieldResult n L σ K V E :=
  andThen rt p rest.place.exc k (pol.delegate value k s) fun it s' =>
    .inl (.delegate it (pol.firstEntry sig) rest k s')

/-- One terminator. A `raise` without an operand raises the exception of the handler. -/
def stepTerm (sig : Resumption V E) (term : YieldTerm n L) (place : Place n L) (k : K) (s : σ) :
    YieldState n L σ K V E ⊕ YieldResult n L σ K V E :=
  match term with
  | .jump l args =>
    .inl (enterBlock p l (rt.passArgs (p l).params args k s) (pol.passed (p l).params args k s))
  | .ifTerm test l l' =>
    andThen rt p place.exc k (rt.eval test k s) fun v s' =>
      andThen rt p place.exc k (rt.truth v s') fun b s'' =>
        .inl (enterBlock p (if b then l else l') k s'')
  | .branchTable index ls l =>
    andThen rt p place.exc k (rt.eval index k s) fun v s' =>
      andThen rt p place.exc k (rt.tableIndex v s') fun i s'' =>
        .inl (enterBlock p (ls[i]?.getD l) k s'')
  | .raiseTerm none =>
    let r := rt.raised (rt.currentException place.params k) s
    raiseTo rt p place.exc r.2 k r.1
  | .raiseTerm (some x) =>
    andThen rt p place.exc k (rt.eval x k s) fun v s' =>
      let r := rt.raised (some v) s'
      raiseTo rt p place.exc r.2 k r.1
  | .ret x =>
    andThen rt p (pol.returnExc place.exc) k (rt.eval x k s) fun v s' =>
      .inr (.returned v s')
  | .retYield value =>
    andThen rt p place.exc k (evalYield rt value k s) fun v s' =>
      .inr (.yielded v (.plain (.ret place)) k s')
  | .retYieldFrom value => startDelegate rt p pol sig value (.ret place) k s

/-- One statement. -/
def stepStmt (sig : Resumption V E) (stmt : YieldStmt L) (place : Place n L)
    (body : List (YieldStmt L)) (term : YieldTerm n L) (k : K) (s : σ) :
    YieldState n L σ K V E ⊕ YieldResult n L σ K V E :=
  match stmt with
  | .plain stmt =>
    andThen rt p place.exc k (rt.exec stmt k s) fun _ s' => .inl (.run place body term k s')
  | .yieldValue x value =>
    andThen rt p place.exc k (evalYield rt value k s) fun v s' =>
      .inr (.yielded v (.plain (.block place x body term)) k s')
  | .yieldFrom x value => startDelegate rt p pol sig value (.block place x body term) k s

/-- The blocks in a run that `sig` has started. -/
def yieldStep (sig : Resumption V E) :
    YieldState n L σ K V E → YieldState n L σ K V E ⊕ YieldResult n L σ K V E
  | .start s =>
    match pol.start sig with
    | none => .inl (enterBlock p 0 rt.newSlots s)
    | some e => .inr (.raised e s)
  | .resume (.plain rest) k s =>
    match sig with
    | .send v => continueWith rt p v rest (pol.resumed k) s
    | .throw e => raiseTo rt p rest.place.exc e (pol.resumed k) s
  | .resume (.delegation it rest) k s => .inl (.delegate it sig rest (pol.resumed k) s)
  | .run place [] term k s => stepTerm rt p pol sig term place k s
  | .run place (stmt :: body) term k s => stepStmt rt p pol sig stmt place body term k s
  | .delegate it op rest k s => stepDelegate rt p pol it op rest k s

def yieldMachine (sig : Resumption V E) :
    Machine (YieldState n L σ K V E) (YieldResult n L σ K V E) :=
  ⟨yieldStep rt p pol sig⟩

end Step

end DietPython.Generators
