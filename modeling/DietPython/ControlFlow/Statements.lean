import DietPython.Lib.Machine

/-!
# Structured statements and how they run

The statement trees that statement-sequence lowering takes apart, and what they mean: a machine
whose state is the statements still to run in front of a continuation of frames. A frame is one
enclosing statement that is not finished: the rest of a sequence, a loop, the body of a `try`, a
handler, a `finally` body with the signal it has to carry on with.

The index of a statement says whether it stands inside a loop, so that `break` and `continue`
outside one cannot be built, and a continuation of a statement inside a loop has a loop frame.

Statements have the meaning that Python gives them and the meaning that the lowered code gives
them, and the two differ in two places, which are the parameters of the machine (`Meaning`): which
exception a handler finds when it asks for the current one, and whether a `break` or `continue`
runs the `finally` bodies on its way.

Two components of the state are history: `caught` is the exception that a handler or a `finally`
body received last, and `arrival` is how control came to where it stands. Python's meaning does
not depend on them.
-/

namespace DietPython.ControlFlow

open Machines

/-! ## Statements -/

mutual

/-- One statement, after the compound statements that only expand have been expanded. `E` is
an expression with everything it does, `T` an assignment target. -/
inductive Stmt (E T : Type) : Bool → Type
  | simple {l : Bool} (e : E) : Stmt E T l
  | raiseStmt {l : Bool} (exc : Option E) : Stmt E T l
  | returnStmt {l : Bool} (value : Option E) : Stmt E T l
  | ifStmt {l : Bool} (test : E) (body orelse : Stmts E T l) : Stmt E T l
  | whileStmt {l : Bool} (test : E) (body : Stmts E T true) (orelse : Stmts E T l) : Stmt E T l
  | forStmt {l : Bool} (isAsync : Bool) (target : T) (iter : E) (body : Stmts E T true)
      (orelse : Stmts E T l) : Stmt E T l
  | breakStmt : Stmt E T true
  | continueStmt : Stmt E T true
  /-- `try` with its handlers, which the rewriting of `try` has turned into one bare `except`
  whose body is `first :: more`. An empty `finalbody` is a `try` without `finally`. -/
  | tryExcept {l : Bool} (body : Stmts E T l) (first : Stmt E T l) (more : Stmts E T l)
      (orelse finalbody : Stmts E T l) : Stmt E T l
  /-- `try` with the `finally` body `first :: more` and no handler. -/
  | tryFinally {l : Bool} (body : Stmts E T l) (first : Stmt E T l) (more : Stmts E T l) :
      Stmt E T l

/-- A statement list. `expanded` marks a statement that begins the expansion of a compound
statement (`with`, `match`, `assert`, ..): the driver of a sequence stops in front of it. -/
inductive Stmts (E T : Type) : Bool → Type
  | nil {l : Bool} : Stmts E T l
  | cons {l : Bool} (expanded : Bool) (stmt : Stmt E T l) (rest : Stmts E T l) : Stmts E T l

end

mutual

/-- Bounds the frames that a statement can open without running anything. -/
def Stmt.weight {E T : Type} : {l : Bool} → Stmt E T l → ℕ
  | _, .tryExcept _ first more orelse _ => first.weight + more.weight + orelse.weight + 8
  | _, _ => 4

def Stmts.weight {E T : Type} : {l : Bool} → Stmts E T l → ℕ
  | _, .nil => 0
  | _, .cons _ stmt rest => stmt.weight + rest.weight

end

namespace Stmts

variable {E T : Type} {l : Bool}

def length : Stmts E T l → ℕ
  | nil => 0
  | cons _ _ rest => rest.length + 1

def append : Stmts E T l → Stmts E T l → Stmts E T l
  | nil, ys => ys
  | cons x s rest, ys => cons x s (rest.append ys)

/-- The statements of a list, none of which begins an expansion. -/
def ofList : List (Stmt E T l) → Stmts E T l
  | [] => nil
  | s :: rest => cons false s (ofList rest)

end Stmts

/-! ## The running program -/

/-- What running code asks of the objects it works on. `St` is everything that user code sees,
`V` the objects, `X` the exceptions in flight. -/
structure Runtime (E T V X St : Type) where
  /-- The expression has a `current_exception()` call. -/
  readsException : E → Bool
  eval : E → Option X → St → Except X V × St
  test : E → Option X → St → Except X Bool × St
  raiseValue : V → St → X × St
  /-- `raise` where no exception is handled. -/
  noActiveException : St → X × St
  noneValue : V
  iter : Bool → V → St → Except X V × St
  /-- `next_or_sentinel`; `none` stands for `ITER_COMPLETE`. -/
  next : Bool → V → St → Except X (Option V) × St
  assign : T → V → St → Except X Unit × St
  /-- The error of a slot that does not hold what the code takes from it. -/
  slotError : St → X × St

namespace Runtime

variable {E T V X St : Type}

/-- The exception that an expression is given: one with no `current_exception()` gets none. -/
def given (rt : Runtime E T V X St) (e : E) (current : Option X) : Option X :=
  if rt.readsException e then current else none

theorem given_congr (rt : Runtime E T V X St) (e : E) {a b : Option X}
    (h : rt.readsException e = true → a = b) : rt.given e a = rt.given e b := by
  unfold given
  split
  · next hr => exact h hr
  · rfl

end Runtime

/-! ## The two meanings -/

/-- Which exception code in a handler or a `finally` body finds. -/
inductive Reading
  /-- The one that the innermost region which is still active handles. -/
  | innermost
  /-- The one that was caught last. -/
  | caughtLast
  deriving DecidableEq

/-- What `break` and `continue` do at a `finally` body between them and their loop. -/
inductive LoopExit
  | runsFinally
  | skipsFinally
  deriving DecidableEq

structure Meaning where
  reading : Reading
  loopExit : LoopExit
  deriving DecidableEq

namespace Meaning

def python : Meaning := ⟨.innermost, .runsFinally⟩

def lowered : Meaning := ⟨.caughtLast, .skipsFinally⟩

end Meaning

/-- What `current_exception()` and a bare `raise` find. -/
inductive Held (X : Type)
  /-- No exception is handled. -/
  | absent
  | exc (e : X)
  /-- A slot that holds `None`. -/
  | noneObject
  deriving DecidableEq

namespace Held

variable {X : Type}

def exception? : Held X → Option X
  | exc e => some e
  | _ => none

end Held

/-! ## Signals, frames and states -/

/-- How control leaves a statement. -/
inductive Signal (V X : Type) : Bool → Type
  | normal {l : Bool} : Signal V X l
  | exc {l : Bool} (e : X) : Signal V X l
  | ret {l : Bool} (v : V) : Signal V X l
  | brk : Signal V X true
  | cont : Signal V X true

/-- Whether a signal on its way out runs a `finally` body. -/
def Meaning.entersFinal {V X : Type} (mn : Meaning) {l : Bool} : Signal V X l → Bool
  | .brk | .cont => mn.loopExit == .runsFinally
  | _ => true

/-- The statements around the one that runs, innermost first. -/
inductive Kont (E T V X : Type) : Bool → Type
  | done : Kont E T V X false
  | seq {l : Bool} (rest : Stmts E T l) (k : Kont E T V X l) : Kont E T V X l
  /-- In the body of a `while`; `opens` is set when the loop opens a `finally` body. -/
  | whileLoop {l : Bool} (opens : Bool) (test : E) (body : Stmts E T true) (orelse : Stmts E T l)
      (k : Kont E T V X l) : Kont E T V X true
  | forLoop {l : Bool} (isAsync : Bool) (iterator : V) (target : T) (body : Stmts E T true)
      (orelse : Stmts E T l) (k : Kont E T V X l) : Kont E T V X true
  /-- In the body of a `try` with a handler. -/
  | tryBody {l : Bool} (first : Stmt E T l) (more orelse finalbody : Stmts E T l)
      (k : Kont E T V X l) : Kont E T V X l
  /-- In the `else` body of a `try`, or in the body of one without a handler. -/
  | guarded {l : Bool} (finalbody : Stmts E T l) (k : Kont E T V X l) : Kont E T V X l
  | handling {l : Bool} (exc : X) (finalbody : Stmts E T l) (k : Kont E T V X l) : Kont E T V X l
  /-- In a `finally` body, which was entered by `pending`. -/
  | finalBody {l : Bool} (pending : Signal V X l) (k : Kont E T V X l) : Kont E T V X l

namespace Kont

variable {E T V X : Type}

/-- The exception that `current_exception()` and a bare `raise` denote: the one caught by the
innermost handler that is still active, or the one a `finally` body interrupts. -/
def current : {l : Bool} → Kont E T V X l → Option X
  | _, done => none
  | _, seq _ k | _, whileLoop _ _ _ _ k | _, forLoop _ _ _ _ _ k | _, tryBody _ _ _ _ k
  | _, guarded _ k => k.current
  | _, handling e _ _ => some e
  | _, finalBody (.exc e) _ => some e
  | _, finalBody _ k => k.current

/-- The code stands in a handler or in a `finally` body. -/
def inRegion : {l : Bool} → Kont E T V X l → Bool
  | _, done => false
  | _, seq _ k | _, whileLoop _ _ _ _ k | _, forLoop _ _ _ _ _ k | _, tryBody _ _ _ _ k
  | _, guarded _ k => k.inRegion
  | _, handling .. | _, finalBody .. => true

theorem current_eq_none {l : Bool} {k : Kont E T V X l} (h : k.inRegion = false) :
    k.current = none := by
  induction k with
  | done => rfl
  | seq _ _ ih | whileLoop _ _ _ _ _ ih | forLoop _ _ _ _ _ _ ih | tryBody _ _ _ _ _ ih
  | guarded _ _ ih => exact ih h
  | handling | finalBody => cases h

end Kont

/-- How control came to the statement it stands at. -/
inductive Arrival
  /-- At the first statement of a `finally` body. -/
  | opens
  /-- By a branch, or along an exception. -/
  | branched
  /-- Behind another statement of the same block; what follows is reached by a jump. -/
  | jumps
  deriving DecidableEq

structure State (X St : Type) where
  user : St
  caught : Option X
  arrival : Arrival

/-- How a run ends. -/
inductive Outcome (V X St : Type)
  | fellThrough (user : St)
  | returned (value : V) (user : St)
  | raised (exc : X) (user : St)
  /-- A graph without the block that control goes to. -/
  | stuck
  deriving DecidableEq

def Outcome.map {V X St St' : Type} (f : St → St') : Outcome V X St → Outcome V X St'
  | fellThrough user => fellThrough (f user)
  | returned value user => returned value (f user)
  | raised exc user => raised exc (f user)
  | stuck => stuck

inductive Config (E T V X St : Type)
  | run {l : Bool} (stmts : Stmts E T l) (k : Kont E T V X l) (s : State X St)
  | unwind {l : Bool} (signal : Signal V X l) (k : Kont E T V X l) (s : State X St)

namespace State

variable {E T V X St : Type}

/-- Outside handlers and `finally` bodies nothing is caught. -/
def caughtIn {l : Bool} (s : State X St) (k : Kont E T V X l) : Option X :=
  if k.inRegion then s.caught else none

/-- The state at the start of a `finally` body. A `return` brings along what was caught where it
stands. -/
def enterFinal {l : Bool} (s : State X St) (pending : Signal V X l) (k : Kont E T V X l) :
    State X St where
  user := s.user
  caught :=
    match pending with
    | .exc e => some e
    | .ret _ => s.caught
    | _ => s.caughtIn k
  arrival := .opens

/-- The state in which a statement is run. What begins an expansion has a block of its own. -/
def settle (s : State X St) (expanded : Bool) : State X St :=
  { s with arrival := if expanded ∧ s.arrival = .jumps then .branched else s.arrival }

end State

namespace Reading

variable {E T V X St : Type}

def held {l : Bool} (k : Kont E T V X l) (s : State X St) : Reading → Held X
  | innermost => k.current.elim .absent .exc
  | caughtLast => if k.inRegion then s.caught.elim .noneObject .exc else .absent

end Reading

section Step

variable {E T V X St : Type} (rt : Runtime E T V X St) (mn : Meaning)

/-- Control leaves the part of a `try` that only its `finally` body protects. -/
def leaveRegion {l : Bool} (finalbody : Stmts E T l) (signal : Signal V X l)
    (k : Kont E T V X l) (s : State X St) : Config E T V X St :=
  match finalbody with
  | .nil => .unwind signal k s
  | .cons x first more =>
    if mn.entersFinal signal then
      .run (.cons x first more) (.finalBody signal k) (s.enterFinal signal k)
    else .unwind signal k s

/-- Start the body of a `try`. -/
def enterBody {l : Bool} (body : Stmts E T l) (k : Kont E T V X l) (s : State X St) :
    Config E T V X St :=
  match body with
  | .nil => .unwind .normal k { s with arrival := .jumps }
  | .cons x first more => .run (.cons x first more) k { s with arrival := .branched }

/-- The exception that an expression is given. -/
def givenTo (e : E) {l : Bool} (k : Kont E T V X l) (s : State X St) : Option X :=
  rt.given e (mn.reading.held k s).exception?

/-- A bare `raise`. -/
def reraise {l : Bool} (k : Kont E T V X l) (s : State X St) : X × St :=
  match mn.reading.held k s with
  | .absent => rt.noActiveException s.user
  | .exc e => (e, s.user)
  | .noneObject => rt.raiseValue rt.noneValue s.user

/-- Run the first statement of a list. -/
def stepStmt {l : Bool} (stmt : Stmt E T l) (rest : Stmts E T l) (k : Kont E T V X l)
    (s : State X St) : Config E T V X St :=
  match stmt with
  | .simple e =>
    match rt.eval e (givenTo rt mn e k s) s.user with
    | (.ok _, u) => .run rest k ⟨u, s.caught, .jumps⟩
    | (.error x, u) => .unwind (.exc x) k ⟨u, s.caught, .branched⟩
  | .raiseStmt none =>
    let (x, u) := reraise rt mn k s
    .unwind (.exc x) k ⟨u, s.caught, .branched⟩
  | .raiseStmt (some e) =>
    match rt.eval e (givenTo rt mn e k s) s.user with
    | (.ok v, u) =>
      let (x, u) := rt.raiseValue v u
      .unwind (.exc x) k ⟨u, s.caught, .branched⟩
    | (.error x, u) => .unwind (.exc x) k ⟨u, s.caught, .branched⟩
  | .returnStmt none => .unwind (.ret rt.noneValue) k ⟨s.user, s.caughtIn k, .jumps⟩
  | .returnStmt (some e) =>
    match rt.eval e (givenTo rt mn e k s) s.user with
    | (.ok v, u) => .unwind (.ret v) k ⟨u, s.caughtIn k, .jumps⟩
    | (.error x, u) => .unwind (.exc x) k ⟨u, s.caught, .branched⟩
  | .ifStmt test body orelse =>
    match rt.test test (givenTo rt mn test k s) s.user with
    | (.ok true, u) => .run body (.seq rest k) ⟨u, s.caught, .branched⟩
    | (.ok false, u) => .run orelse (.seq rest k) ⟨u, s.caught, .branched⟩
    | (.error x, u) => .unwind (.exc x) k ⟨u, s.caught, .branched⟩
  | .whileStmt test body orelse =>
    .unwind .cont (.whileLoop (s.arrival == .opens) test body orelse (.seq rest k))
      ⟨s.user, s.caught, if s.arrival = .jumps then .jumps else .branched⟩
  | .forStmt isAsync target iter body orelse =>
    match rt.eval iter (givenTo rt mn iter k s) s.user with
    | (.ok v, u) =>
      match rt.iter isAsync v u with
      | (.ok it, u) =>
        .unwind .cont (.forLoop isAsync it target body orelse (.seq rest k)) ⟨u, s.caught, .jumps⟩
      | (.error x, u) => .unwind (.exc x) k ⟨u, s.caught, .branched⟩
    | (.error x, u) => .unwind (.exc x) k ⟨u, s.caught, .branched⟩
  | .breakStmt => .unwind .brk k ⟨s.user, s.caught, .jumps⟩
  | .continueStmt => .unwind .cont k ⟨s.user, s.caught, .jumps⟩
  | .tryExcept body first more orelse finalbody =>
    enterBody body (.tryBody first more orelse finalbody (.seq rest k)) s
  | .tryFinally body first more =>
    enterBody body (.guarded (.cons false first more) (.seq rest k)) s

/-- Carry a signal out of the innermost frame. -/
def stepUnwind {l : Bool} (signal : Signal V X l) (k : Kont E T V X l) (s : State X St) :
    Config E T V X St ⊕ Outcome V X St :=
  match k with
  | .done =>
    match signal with
    | .normal => .inr (.fellThrough s.user)
    | .exc x => .inr (.raised x s.user)
    | .ret v => .inr (.returned v s.user)
  | .seq rest k =>
    match signal with
    | .normal =>
      match rest with
      | .nil => .inl (.unwind .normal k s)
      | .cons x stmt more => .inl (.run (.cons x stmt more) k { s with arrival := .branched })
    | signal => .inl (.unwind signal k s)
  | .whileLoop opens test body orelse k =>
    match signal with
    | .normal => .inl (.unwind .cont (.whileLoop opens test body orelse k) s)
    | .exc x => .inl (.unwind (.exc x) k s)
    | .ret v => .inl (.unwind (.ret v) k s)
    | .brk => .inl (.unwind .normal k s)
    | .cont =>
      match rt.test test (givenTo rt mn test k s) s.user with
      | (.ok true, u) =>
        .inl (.run body (.whileLoop opens test body orelse k) ⟨u, s.caught, .branched⟩)
      | (.ok false, u) => .inl (.run orelse k ⟨u, s.caught, .branched⟩)
      | (.error x, u) => .inl (.unwind (.exc x) k ⟨u, s.caught, .branched⟩)
  | .forLoop isAsync it target body orelse k =>
    match signal with
    | .normal => .inl (.unwind .cont (.forLoop isAsync it target body orelse k) s)
    | .exc x => .inl (.unwind (.exc x) k s)
    | .ret v => .inl (.unwind (.ret v) k s)
    | .brk => .inl (.unwind .normal k s)
    | .cont =>
      match rt.next isAsync it s.user with
      | (.ok none, u) => .inl (.run orelse k ⟨u, s.caught, .branched⟩)
      | (.ok (some v), u) =>
        match rt.assign target v u with
        | (.ok (), u) =>
          .inl (.run body (.forLoop isAsync it target body orelse k) ⟨u, s.caught, .branched⟩)
        | (.error x, u) => .inl (.unwind (.exc x) k ⟨u, s.caught, .branched⟩)
      | (.error x, u) => .inl (.unwind (.exc x) k ⟨u, s.caught, .branched⟩)
  | .tryBody first more orelse finalbody k =>
    match signal with
    | .normal =>
      match orelse with
      | .nil => .inl (.unwind .normal (.guarded finalbody k) s)
      | .cons x stmt rest =>
        .inl (.run (.cons x stmt rest) (.guarded finalbody k) { s with arrival := .branched })
    | .exc x =>
      .inl (.run (.cons false first more) (.handling x finalbody k) ⟨s.user, some x, .branched⟩)
    | signal => .inl (leaveRegion mn finalbody signal k s)
  | .guarded finalbody k => .inl (leaveRegion mn finalbody signal k s)
  | .handling _ finalbody k => .inl (leaveRegion mn finalbody signal k s)
  | .finalBody pending k =>
    match signal with
    | .normal =>
      match pending with
      | .ret v => .inl (.unwind (.ret v) k ⟨s.user, s.caughtIn k, .jumps⟩)
      | pending => .inl (.unwind pending k { s with arrival := .branched })
    | signal => .inl (.unwind signal k s)

/-- One step of a structured program. -/
def step : Config E T V X St → Config E T V X St ⊕ Outcome V X St
  | .run .nil k s =>
    .inl (.unwind .normal k { s with arrival := if s.arrival = .jumps then .jumps else .branched })
  | .run (.cons expanded stmt rest) k s => .inl (stepStmt rt mn stmt rest k (s.settle expanded))
  | .unwind signal k s => stepUnwind rt mn signal k s

/-- The machine that runs structured programs. -/
def structured : Machine (Config E T V X St) (Outcome V X St) := ⟨step rt mn⟩

end Step

/-- A callable's body at its start. -/
def start {E T V X St : Type} (body : Stmts E T false) (user : St) : Config E T V X St :=
  .run body .done ⟨user, none, .branched⟩

/-! ## The steps that do not run anything -/

namespace Kont

variable {E T V X : Type}

/-- The number of frames. -/
def depth : {l : Bool} → Kont E T V X l → ℕ
  | _, done => 0
  | _, seq _ k | _, whileLoop _ _ _ _ k | _, forLoop _ _ _ _ _ k | _, tryBody _ _ _ _ k
  | _, guarded _ k | _, handling _ _ k | _, finalBody _ k => k.depth + 1

/-- What is left to unwind, with the statements that a frame still holds. -/
def weight : {l : Bool} → Kont E T V X l → ℕ
  | _, done => 0
  | _, seq rest k => rest.weight + k.weight + 2
  | _, whileLoop _ _ _ _ k | _, forLoop _ _ _ _ _ k => k.weight + 2
  | _, tryBody first more orelse _ k => first.weight + more.weight + orelse.weight + k.weight + 4
  | _, guarded _ k | _, handling _ _ k | _, finalBody _ k => k.weight + 1

end Kont

namespace Config

variable {E T V X St : Type}

/-- Falls with every step that only moves between frames. -/
def weight : Config E T V X St → ℕ
  | run stmts k _ => stmts.weight + k.weight + 2
  | unwind .normal k _ => k.weight + 1
  | unwind _ k _ => k.weight

end Config

end DietPython.ControlFlow
