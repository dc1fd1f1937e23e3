import Mathlib.Tactic.Common
import DietPython.Lib.Transducer

/-!
# Python's generator protocol

The vocabulary of the generator modules (objects, exceptions, the signal that a resumption
carries), and the generator object of the language reference as a state machine: not started,
suspended or finished. A body is what runs between two suspensions; the machine says which
calls run the body and with which signal, and what every call gives back.
-/

namespace DietPython.Generators

open Transducers

/-- Python objects with their `None`. -/
class PyObject (V : Type*) where
  none : V

/-- Exceptions, as far as the generator protocol tells them apart. -/
inductive PyExc (V E : Type*)
  | stopIteration (value : V)
  | generatorExit
  | typeError (message : String)
  | runtimeError (message : String)
  | other (exc : E)
  deriving DecidableEq

namespace PyExc

variable {V E : Type*}

/-- `except (GeneratorExit, StopIteration)`. -/
def endsClose : PyExc V E → Bool
  | generatorExit | stopIteration _ => true
  | _ => false

end PyExc

/-- What a resumption carries to the suspended body. `NO_DEFAULT` fills the other argument. -/
inductive Signal (V E : Type*)
  | send (value : V)
  | throw (exc : PyExc V E)
  deriving DecidableEq

/-- What resumes a body, whatever its exceptions are. -/
inductive Resumption (V E : Type)
  | send (value : V)
  | throw (exc : E)
  deriving DecidableEq

/-- How one resumption of a body ends. -/
inductive Outcome (V E : Type*)
  | yielded (value : V)
  | returned (value : V)
  | raised (exc : PyExc V E)
  deriving DecidableEq

/-- The calls a user makes on a generator object. -/
inductive Call (V E : Type*)
  | next
  | send (value : V)
  | throw (exc : PyExc V E)
  | close

/-- What a call gives back, `close` the value it returns. A body that never ends gives nothing. -/
inductive Reply (V E : Type*)
  | yielded (value : V)
  | raised (exc : PyExc V E)
  | closed (value : V)
  | diverges
  deriving DecidableEq

/-- A reply, and the body runs the call started: where each was entered and with which signal. -/
structure Answer (V E : Type*) where
  reply : Reply V E
  entered : List (ℕ × Signal V E)
  deriving DecidableEq

/-- The body of a generator over its own state. `enter point signal` runs from an entry point to
the next suspension or to the end, `none` if it never gets there. Point `1` is the beginning,
the others up to `points` are the suspensions, each of which names the point of its
continuation. -/
structure Body (σ V E : Type*) where
  points : ℕ
  enter : ℕ → Signal V E → σ → Option (σ × ℕ × Outcome V E)
  points_pos : 1 ≤ points
  point_of_yielded : ∀ {point signal s s' point' value},
    enter point signal s = some (s', point', .yielded value) → 2 ≤ point' ∧ point' ≤ points

/-- How the run ends that a signal starts at an entry point. -/
def Body.outcome {σ V E : Type*} (b : Body σ V E) (point : ℕ) (signal : Signal V E) (s : σ) :
    Option (Outcome V E) :=
  (b.enter point signal s).map fun r => r.2.2

/-! ## The generator object of the language -/

inductive Status
  | notStarted
  | suspended (point : ℕ)
  | finished
  deriving DecidableEq

structure PyGenerator (σ : Type*) where
  status : Status
  store : σ

namespace PyGenerator

variable {σ V E : Type*} [PyObject V]

/-- Runs the body from an entry point and records where it left. -/
def resume (b : Body σ V E) (g : PyGenerator σ) (point : ℕ) (signal : Signal V E) :
    PyGenerator σ :=
  match b.enter point signal g.store with
  | none => g
  | some (s, point', .yielded _) => ⟨.suspended point', s⟩
  | some (s, _, .returned _) | some (s, _, .raised _) => ⟨.finished, s⟩

/-- What leaves the frame. A return value leaves in a `StopIteration`, and no other
`StopIteration` leaves. -/
def leave : Outcome V E → Reply V E
  | .yielded v => .yielded v
  | .returned v => .raised (.stopIteration v)
  | .raised (.stopIteration _) => .raised (.runtimeError "generator raised StopIteration")
  | .raised e => .raised e

def replyOfOutcome : Option (Outcome V E) → Reply V E
  | none => .diverges
  | some outcome => leave outcome

/-- What `close` makes of the outcome of throwing `GeneratorExit`: it returns what the body
returns. -/
def replyOfClose : Option (Outcome V E) → Reply V E
  | none => .diverges
  | some (.yielded _) => .raised (.runtimeError "generator ignored GeneratorExit")
  | some (.returned v) => .closed v
  | some (.raised .generatorExit) => .closed PyObject.none
  | some outcome => leave outcome

/-- Resumes with a value: a generator that has not started accepts nothing but `None`. -/
def send [DecidableEq V] (b : Body σ V E) (g : PyGenerator σ) (value : V) :
    PyGenerator σ × Answer V E :=
  match g.status with
  | .notStarted =>
    if value = PyObject.none then
      (g.resume b 1 (.send value),
        ⟨replyOfOutcome (b.outcome 1 (.send value) g.store), [(1, .send value)]⟩)
    else (g, ⟨.raised (.typeError "can't send non-None value to a just-started generator"), []⟩)
  | .suspended point =>
    (g.resume b point (.send value),
      ⟨replyOfOutcome (b.outcome point (.send value) g.store), [(point, .send value)]⟩)
  | .finished => (g, ⟨.raised (.stopIteration PyObject.none), []⟩)

/-- Throws into the frame, at its beginning where the generator has not started. -/
def throw (b : Body σ V E) (g : PyGenerator σ) (exc : PyExc V E) : PyGenerator σ × Answer V E :=
  match g.status with
  | .notStarted => ({ g with status := .finished }, ⟨leave (.raised exc), []⟩)
  | .suspended point =>
    (g.resume b point (.throw exc),
      ⟨replyOfOutcome (b.outcome point (.throw exc) g.store), [(point, .throw exc)]⟩)
  | .finished => (g, ⟨.raised exc, []⟩)

def close (b : Body σ V E) (g : PyGenerator σ) : PyGenerator σ × Answer V E :=
  match g.status with
  | .notStarted => ({ g with status := .finished }, ⟨.closed PyObject.none, []⟩)
  | .suspended point =>
    (g.resume b point (.throw .generatorExit),
      ⟨replyOfClose (b.outcome point (.throw .generatorExit) g.store),
        [(point, .throw .generatorExit)]⟩)
  | .finished => (g, ⟨.closed PyObject.none, []⟩)

variable [DecidableEq V]

def step (b : Body σ V E) (g : PyGenerator σ) : Call V E → PyGenerator σ × Answer V E
  | .next => g.send b PyObject.none
  | .send value => g.send b value
  | .throw exc => g.throw b exc
  | .close => g.close b

/-- The generator object driven by a history of calls. -/
def machine (b : Body σ V E) : Transducer (PyGenerator σ) (Call V E) (Answer V E) := ⟨step b⟩

/-- A new generator object. -/
def new (store : σ) : PyGenerator σ := ⟨.notStarted, store⟩

end PyGenerator

end DietPython.Generators
