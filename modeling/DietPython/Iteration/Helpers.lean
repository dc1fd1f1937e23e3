import Mathlib.Data.Nat.Notation
import DietPython.Generators.Protocol

/-!
# Helpers of iteration

A `for` loop calls `next_or_sentinel`, an `async for` loop `anext_or_sentinel`, and an `await` goes
over `iter(await_iter(awaitable))`. The helpers call methods of the program and tell errors of the
protocol from errors of the program by what the call raises.

A method is a function on the state of the world. What the program does inside it is up to it. The
state also says what has resumed the coroutine last: the lowered delegation starts with that.
-/

namespace DietPython.Iteration

open Generators (Resumption)

/-! ## Exceptions -/

/-- The classes of exceptions that the helpers tell apart. -/
structure ExceptionClasses (E : Type) where
  isException : E → Bool
  isAttributeError : E → Bool
  isStopIteration : E → Bool
  isStopAsyncIteration : E → Bool
  exception_of_attributeError : ∀ exc, isAttributeError exc = true → isException exc = true
  exception_of_stopIteration : ∀ exc, isStopIteration exc = true → isException exc = true
  exception_of_stopAsyncIteration :
    ∀ exc, isStopAsyncIteration exc = true → isException exc = true

/-- What reaches the surrounding code. -/
inductive Raised (E : Type)
  /-- an exception of the program, unchanged -/
  | user (exc : E)
  /-- a new `TypeError`, with the exception that is its cause -/
  | typeError (cause : Option E)
  /-- the `RuntimeError` for a `StopIteration` that leaves a coroutine -/
  | runtimeError (cause : E)

/-! ## Objects -/

section Objects

variable (σ V : Type) {E : Type} (classes : ExceptionClasses E)

/-- An object with `__next__`, unless that is missing. -/
structure NextObject (E : Type) where
  next : Option (σ → Except E V × σ)

/-- What an iterator gives that `yield from` goes over. A `StopIteration` ends the iterator. -/
inductive Driven
  | finished (value : V)
  | raised (exc : {exc : E // classes.isStopIteration exc = false})

/-- How a delegation goes on that starts with this resumption. -/
abbrev Drive := Resumption V E → σ → Driven V classes × σ

/-- An iterator, with its `__iter__`, unless that is missing. The method returns an iterator, or an
object that is none. -/
structure DelegateIterator where
  iter : Option (σ → Except E (Option (Drive σ V classes)) × σ)
  drive : Drive σ V classes

/-- An object with `__await__`, unless that is missing. The method returns an iterator, or an object
that is none. -/
structure AwaitableObject (σ I E : Type) where
  await : Option (σ → Except E (Option I) × σ)

/-- An object with `__anext__`, unless that is missing. -/
structure AnextObject where
  anext : Option (σ → Except E (AwaitableObject σ (DelegateIterator σ V classes) E) × σ)

end Objects

/-! ## The helpers -/

section Helpers

variable {σ V E : Type} (classes : ExceptionClasses E) (iterComplete : V)

/-- `next_or_sentinel` -/
def nextOrSentinel (iterator : NextObject σ V E) (s : σ) : Except (Raised E) V × σ :=
  match iterator.next with
  | none => (.error (.typeError none), s)
  | some next =>
    match next s with
    | (.ok value, s) => (.ok value, s)
    | (.error exc, s) =>
      if classes.isAttributeError exc then (.error (.typeError none), s)
      else if classes.isStopIteration exc then (.ok iterComplete, s)
      else (.error (.user exc), s)

/-- `await_iter` and `_get_awaitable_iter`, which differ in their messages. -/
def awaitIter {I : Type} (awaitable : AwaitableObject σ I E) (s : σ) :
    Except (Raised E) I × σ :=
  match awaitable.await with
  | none => (.error (.typeError none), s)
  | some await =>
    match await s with
    | (.ok (some iterator), s) => (.ok iterator, s)
    | (.ok none, s) => (.error (.typeError none), s)
    | (.error exc, s) =>
      if classes.isAttributeError exc then (.error (.typeError none), s)
      else if classes.isException exc then (.error (.typeError (some exc)), s)
      else (.error (.user exc), s)

/-- An exception that leaves a coroutine. -/
def leaveCoroutine : Raised E → Raised E
  | .user exc => if classes.isStopIteration exc then .runtimeError exc else .user exc
  | raised => raised

variable {classes}

/-- `iter(iterator)` -/
def iterOf (iterator : DelegateIterator σ V classes) (s : σ) :
    Except (Raised E) (Drive σ V classes) × σ :=
  match iterator.iter with
  | none => (.error (.typeError none), s)
  | some iter =>
    match iter s with
    | (.ok (some drive), s) => (.ok drive, s)
    | (.ok none, s) => (.error (.typeError none), s)
    | (.error exc, s) => (.error (.user exc), s)

/-- What has been driven to its end. -/
def drivenResult : Driven V classes × σ → Except (Raised E) V × σ
  | (.finished value, s) => (.ok value, s)
  | (.raised exc, s) => (.error (.user exc.1), s)

variable (pyNone : V)

/-- The body of `anext_or_sentinel`, which Python runs. -/
def anextOrSentinelBody (iterator : AnextObject σ V classes) (s : σ) : Except (Raised E) V × σ :=
  match iterator.anext with
  | none => (.error (.typeError none), s)
  | some anext =>
    match anext s with
    | (.error exc, s) =>
      if classes.isAttributeError exc then (.error (.typeError none), s)
      else (.error (.user exc), s)
    | (.ok awaitable, s) =>
      match awaitIter classes awaitable s with
      | (.error raised, s) => (.error raised, s)
      | (.ok iterator, s) =>
        match iterator.drive (.send pyNone) s with
        | (.finished value, s) => (.ok value, s)
        | (.raised exc, s) =>
          if classes.isStopAsyncIteration exc.1 then (.ok iterComplete, s)
          else (.error (.user exc.1), s)

variable (current : σ → Resumption V E)

/-- `await anext_or_sentinel(iterator)`: the coroutine of the helper starts with what has resumed
the coroutine around it, and a coroutine that has not started takes nothing but `None`. -/
def anextOrSentinel [DecidableEq V] (iterator : AnextObject σ V classes) (s : σ) :
    Except (Raised E) V × σ :=
  match current s with
  | .send value =>
    if value = pyNone then
      match anextOrSentinelBody iterComplete pyNone iterator s with
      | (.ok value, s) => (.ok value, s)
      | (.error raised, s) => (.error (leaveCoroutine classes raised), s)
    else (.error (.typeError none), s)
  | .throw exc => (.error (leaveCoroutine classes (.user exc)), s)

/-- `await awaitable`, which is `yield from await_iter(awaitable)`. The delegation starts with what
has resumed the coroutine. -/
def lowerAwait (awaitable : AwaitableObject σ (DelegateIterator σ V classes) E) (s : σ) :
    Except (Raised E) V × σ :=
  match awaitIter classes awaitable s with
  | (.error raised, s) => (.error raised, s)
  | (.ok iterator, s) =>
    match iterOf iterator s with
    | (.error raised, s) => (.error raised, s)
    | (.ok drive, s) => drivenResult (drive (current s) s)

end Helpers

/-! ## Rounds of a loop -/

/-- What one call for the next item gives. -/
inductive Round (V E : Type)
  | item (value : V)
  | exhausted
  | raised (raised : Raised E)

section Rounds

variable {σ V E : Type} [DecidableEq V] (iterComplete : V)

/-- The test `tmp is ITER_COMPLETE`. -/
def checkComplete : Except (Raised E) V × σ → Round V E × σ
  | (.ok value, s) => (if value = iterComplete then .exhausted else .item value, s)
  | (.error raised, s) => (.raised raised, s)

/-- A round of a `for` loop. -/
def forRound (classes : ExceptionClasses E) (iterator : NextObject σ V E) (s : σ) :
    Round V E × σ :=
  checkComplete iterComplete (nextOrSentinel classes iterComplete iterator s)

/-- A round of an `async for` loop. -/
def asyncForRound {classes : ExceptionClasses E} (pyNone : V) (current : σ → Resumption V E)
    (iterator : AnextObject σ V classes) (s : σ) : Round V E × σ :=
  checkComplete iterComplete (anextOrSentinel iterComplete pyNone current iterator s)

end Rounds

end DietPython.Iteration
