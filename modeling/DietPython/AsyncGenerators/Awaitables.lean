import DietPython.Generators.Protocol

/-!
# `ClosureAsyncGenerator`

An asynchronous generator hands out awaitables, and any of them can be stepped at any time. They
all resume the same body through `_resume_fn`, which gets either the value of `asend` or what the
driver sends: `_yield_from_cell` tells whether the body waits for something.

The calls that come back are the history of a generator. An awaitable keeps its number for ever,
and a record is made of what it is given and of every resumption.
-/

namespace DietPython.AsyncGenerators

open Generators

/-- Exceptions, as far as the runtime tells them apart. -/
inductive AsyncExc (V E : Type*)
  | stopIteration (value : V)
  | stopAsyncIteration
  | asyncGenComplete
  | generatorExit
  | typeError (message : String)
  | runtimeError (message : String)
  /-- Among them `asyncio.CancelledError`, which `_reraise_control_flow` raises as well. -/
  | other (exc : E)

/-- How a resumption of the body ends. -/
inductive AsyncOutcome (V E : Type*)
  | returned (value : V)
  | raised (exc : AsyncExc V E)

/-- The resume function over the state of the body. It never looks at `_dp_transport_sent`. -/
structure AsyncBody (σ V E : Type*) where
  /-- `none` for the value is `NO_DEFAULT`. A resumption that never ends gives `none`. -/
  resume : Option V → Option (AsyncExc V E) → σ → Option (σ × AsyncOutcome V E)
  /-- There is a delegate in `_yield_from_cell`. -/
  delegating : σ → Bool

/-- `AsyncGenSend` -/
structure AsyncGenSend (V E : Type*) where
  sendValue : Option V
  resumeException : Option (AsyncExc V E)
  isDone : Bool

/-- The coroutine that a call of `aclose` makes. -/
inductive Aclose
  | created
  /-- It awaits the awaitable of its `athrow(GeneratorExit)`. -/
  | awaiting (i : ℕ)
  | finished

structure ClosureAsyncGenerator (σ V E : Type*) where
  isClosed : Bool
  store : σ
  sends : List (AsyncGenSend V E)
  acloses : List Aclose

/-- What is done to an asynchronous generator, its awaitables and the coroutines of `aclose`. -/
inductive AsyncCall (V E : Type*)
  | asend (value : V)
  | athrow (exc : AsyncExc V E)
  | aclose
  | send (i : ℕ) (value : V)
  | throw (i : ℕ) (exc : AsyncExc V E)
  /-- `AsyncGenSend.close` -/
  | close (i : ℕ)
  | acloseSend (j : ℕ) (value : V)
  | acloseThrow (j : ℕ) (exc : AsyncExc V E)
  | acloseClose (j : ℕ)

inductive AsyncReply (V E : Type*)
  /-- A new awaitable. -/
  | awaitable (i : ℕ)
  /-- A new coroutine. -/
  | coroutine (j : ℕ)
  | returned (value : V)
  | raised (exc : AsyncExc V E)
  | diverges
  /-- There is no such object. -/
  | absent

/-- What the body has done when it is left. -/
inductive Left (V : Type*)
  /-- It waits for something, which has given this value to the driver. -/
  | awaits (value : V)
  | yields (value : V)
  | ended
  deriving DecidableEq

/-- A resumption of the body. -/
structure Resume (V E : Type*) where
  /-- The awaitable that resumes it. -/
  sender : ℕ
  /-- What the driver sends to that awaitable. -/
  transport : V
  value : Option V
  exc : Option (AsyncExc V E)
  /-- The body was waiting for something. -/
  delegating : Bool
  left : Left V

inductive AsyncEvent (V E : Type*)
  /-- A new awaitable with its value. -/
  | created (i : ℕ) (value : Option V)
  /-- An awaitable is given an exception to raise. -/
  | given (i : ℕ) (exc : AsyncExc V E)
  | resumed (r : Resume V E)

structure AsyncAnswer (V E : Type*) where
  reply : AsyncReply V E
  events : List (AsyncEvent V E)

namespace ClosureAsyncGenerator

variable {σ V E : Type*} [PyObject V] (b : AsyncBody σ V E)

def new (store : σ) : ClosureAsyncGenerator σ V E := ⟨false, store, [], []⟩

/-! ## Awaitables -/

/-- `AsyncGenSend(self, value, exc)` -/
def create (g : ClosureAsyncGenerator σ V E) (value : Option V) (exc : Option (AsyncExc V E)) :
    ClosureAsyncGenerator σ V E × ℕ × List (AsyncEvent V E) :=
  ({ g with sends := g.sends ++ [⟨value, exc, false⟩] }, g.sends.length,
    .created g.sends.length value :: (exc.map (AsyncEvent.given g.sends.length)).toList)

/-- `AsyncGenSend._step`. A finished generator is not resumed. -/
def stepSend (g : ClosureAsyncGenerator σ V E) (i : ℕ) (a : AsyncGenSend V E) (transport : V) :
    ClosureAsyncGenerator σ V E × AsyncAnswer V E :=
  if g.isClosed then
    ({ g with sends := g.sends.set i ⟨a.sendValue, none, true⟩ },
      ⟨.raised (if a.resumeException.isNone then .stopAsyncIteration
        else .stopIteration PyObject.none), []⟩)
  else
    let value := if b.delegating g.store then some transport else a.sendValue
    let resumed := fun left => [.resumed
      ⟨i, transport, value, a.resumeException, b.delegating g.store, left⟩]
    match b.resume value a.resumeException g.store with
    | none => (g, ⟨.diverges, []⟩)
    | some (s, .raised exc) =>
      ({ g with isClosed := true, store := s, sends := g.sends.set i ⟨a.sendValue, none, true⟩ },
        ⟨.raised (match exc with
          | .asyncGenComplete => .stopAsyncIteration
          | .stopIteration _ => .runtimeError "async generator raised StopIteration"
          | .stopAsyncIteration => .runtimeError "async generator raised StopAsyncIteration"
          | exc => exc), resumed .ended⟩)
    | some (s, .returned result) =>
      if b.delegating s then
        ({ g with store := s, sends := g.sends.set i ⟨a.sendValue, none, false⟩ },
          ⟨.returned result, resumed (.awaits result)⟩)
      else
        ({ g with store := s, sends := g.sends.set i ⟨a.sendValue, none, true⟩ },
          ⟨.raised (.stopIteration result), resumed (.yields result)⟩)

section Calls

variable [DecidableEq V]

/-- `AsyncGenSend.send` -/
def send (g : ClosureAsyncGenerator σ V E) (i : ℕ) (value : V) :
    ClosureAsyncGenerator σ V E × AsyncAnswer V E :=
  match g.sends[i]? with
  | none => (g, ⟨.absent, []⟩)
  | some a =>
    if a.isDone then (g, ⟨.raised (.stopIteration PyObject.none), []⟩)
    else if value ≠ PyObject.none ∧ a.sendValue = some PyObject.none ∧
        a.resumeException.isNone ∧ b.delegating g.store = false then
      (g, ⟨.raised
        (.typeError "can't send non-None value to a just-started async generator"), []⟩)
    else g.stepSend b i a value

omit [DecidableEq V] in
/-- `AsyncGenSend.throw` -/
def throw (g : ClosureAsyncGenerator σ V E) (i : ℕ) (exc : AsyncExc V E) :
    ClosureAsyncGenerator σ V E × AsyncAnswer V E :=
  match g.sends[i]? with
  | none => (g, ⟨.absent, []⟩)
  | some a =>
    if a.isDone then (g, ⟨.raised exc, []⟩)
    else
      let a := { a with resumeException := some exc }
      let r := { g with sends := g.sends.set i a }.stepSend b i a PyObject.none
      (r.1, ⟨r.2.reply, .given i exc :: r.2.events⟩)

/-! ## `aclose` -/

/-- What the coroutine of `aclose` makes of an answer of its awaitable. -/
def acloseReply (j : ℕ) (r : ClosureAsyncGenerator σ V E × AsyncAnswer V E) :
    ClosureAsyncGenerator σ V E × AsyncAnswer V E :=
  let finish := fun exc =>
    ({ r.1 with acloses := r.1.acloses.set j .finished }, ⟨.raised exc, r.2.events⟩)
  match r.2.reply with
  | .raised (.stopIteration _) => finish (.runtimeError "async generator ignored GeneratorExit")
  | .raised .generatorExit => finish (.stopIteration PyObject.none)
  | .raised .stopAsyncIteration => finish (.stopIteration PyObject.none)
  | .raised exc => finish exc
  | _ => r

/-- `send` of the coroutine of `aclose`. -/
def acloseSend (g : ClosureAsyncGenerator σ V E) (j : ℕ) (value : V) :
    ClosureAsyncGenerator σ V E × AsyncAnswer V E :=
  match g.acloses[j]? with
  | none => (g, ⟨.absent, []⟩)
  | some .created =>
    if value ≠ PyObject.none then
      (g, ⟨.raised (.typeError "can't send non-None value to a just-started coroutine"), []⟩)
    else
      let (g, i, events) := g.create none (some .generatorExit)
      let r := { g with acloses := g.acloses.set j (.awaiting i) }.send b i PyObject.none
      acloseReply j (r.1, ⟨r.2.reply, events ++ r.2.events⟩)
  | some (.awaiting i) => acloseReply j (g.send b i value)
  | some .finished =>
    (g, ⟨.raised (.runtimeError "cannot reuse already awaited coroutine"), []⟩)

omit [DecidableEq V] in
/-- `throw` of the coroutine of `aclose`: a `GeneratorExit` closes the awaitable, which does
nothing, and is what the coroutine waits for. -/
def acloseThrow (g : ClosureAsyncGenerator σ V E) (j : ℕ) (exc : AsyncExc V E) :
    ClosureAsyncGenerator σ V E × AsyncAnswer V E :=
  match g.acloses[j]? with
  | none => (g, ⟨.absent, []⟩)
  | some .created => ({ g with acloses := g.acloses.set j .finished }, ⟨.raised exc, []⟩)
  | some (.awaiting i) =>
    match exc with
    | .generatorExit => acloseReply j (g, ⟨.raised .generatorExit, []⟩)
    | exc => acloseReply j (g.throw b i exc)
  | some .finished =>
    (g, ⟨.raised (.runtimeError "cannot reuse already awaited coroutine"), []⟩)

omit [DecidableEq V] in
/-- `close` of the coroutine of `aclose`. -/
def acloseClose (g : ClosureAsyncGenerator σ V E) (j : ℕ) :
    ClosureAsyncGenerator σ V E × AsyncAnswer V E :=
  match g.acloses[j]? with
  | none => (g, ⟨.absent, []⟩)
  | some _ => ({ g with acloses := g.acloses.set j .finished }, ⟨.returned PyObject.none, []⟩)

/-! ## Histories -/

def step (g : ClosureAsyncGenerator σ V E) :
    AsyncCall V E → ClosureAsyncGenerator σ V E × AsyncAnswer V E
  | .asend value =>
    let (g, i, events) := g.create (some value) none
    (g, ⟨.awaitable i, events⟩)
  | .athrow exc =>
    let (g, i, events) := g.create none (some exc)
    (g, ⟨.awaitable i, events⟩)
  | .aclose => ({ g with acloses := g.acloses ++ [.created] }, ⟨.coroutine g.acloses.length, []⟩)
  | .send i value => g.send b i value
  | .throw i exc => g.throw b i exc
  | .close i => (g, ⟨if i < g.sends.length then .returned PyObject.none else .absent, []⟩)
  | .acloseSend j value => g.acloseSend b j value
  | .acloseThrow j exc => g.acloseThrow b j exc
  | .acloseClose j => g.acloseClose j

/-- An asynchronous generator driven by a history of calls. -/
def machine : Transducers.Transducer (ClosureAsyncGenerator σ V E) (AsyncCall V E)
    (AsyncAnswer V E) := ⟨step b⟩

end Calls

end ClosureAsyncGenerator

end DietPython.AsyncGenerators
