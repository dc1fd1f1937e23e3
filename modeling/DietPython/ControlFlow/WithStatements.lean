import DietPython.ControlFlow.Statements

/-!
# Statements with `with`

The statement trees before `with` and `async with` are desugared. A `with` statement has the
meaning that Python gives it: an item whose enter has succeeded is a frame, and a signal that leaves
the frame calls the exit of the item, once, with the exception in flight or with none. All other
statements have the meaning of the lowered code (`Meaning.lowered`), so that what follows is about
`with` only.
-/

namespace DietPython.ControlFlow.Source

open Machines

/-! ## Statements -/

/-- An item of a `with`. `isSimple` says that its context expression is a name or a literal other
than a string, which is not put into a temporary. -/
structure WithItem (E T : Type) where
  contextExpr : E
  isSimple : Bool
  optionalVars : Option T

mutual

inductive Stmt (E T : Type) : Bool → Type
  | simple {l : Bool} (e : E) : Stmt E T l
  | raiseStmt {l : Bool} (exc : Option E) : Stmt E T l
  | returnStmt {l : Bool} (value : Option E) : Stmt E T l
  | ifStmt {l : Bool} (test : E) (body orelse : Stmts E T l) : Stmt E T l
  | whileStmt {l : Bool} (test : E) (body : Stmts E T true) (orelse : Stmts E T l) : Stmt E T l
  | forStmt {l : Bool} (isAsync : Bool) (target : T) (iter : E) (body : Stmts E T true)
      (orelse : Stmts E T l) : Stmt E T l
  | breakStmt : Stmt E T true
  | continueStmt : Stmt E T true
  | tryExcept {l : Bool} (body : Stmts E T l) (first : Stmt E T l) (more : Stmts E T l)
      (orelse finalbody : Stmts E T l) : Stmt E T l
  | tryFinally {l : Bool} (body : Stmts E T l) (first : Stmt E T l) (more : Stmts E T l) :
      Stmt E T l
  /-- `with item, more..: body`. -/
  | withStmt {l : Bool} (isAsync : Bool) (item : WithItem E T) (more : List (WithItem E T))
      (body : Stmts E T l) : Stmt E T l

inductive Stmts (E T : Type) : Bool → Type
  | nil {l : Bool} : Stmts E T l
  | cons {l : Bool} (expanded : Bool) (stmt : Stmt E T l) (rest : Stmts E T l) : Stmts E T l

end

/-- A list of statements none of which begins an expansion. -/
def Stmts.ofList {E T : Type} {l : Bool} : List (Stmt E T l) → Stmts E T l
  | [] => nil
  | s :: rest => cons false s (ofList rest)

/-! ## Context managers -/

/-- What `with` asks of the objects it manages. The flag says whether the call is awaited. -/
structure ContextManagers (V X St : Type) where
  /-- `contextmanager_get_exit`. -/
  getExit : Bool → V → St → Except X V × St
  /-- `contextmanager_enter`. -/
  enter : Bool → V → St → Except X V × St
  /-- The exit, called with the exception in flight, or with three `None`s. -/
  callExit : Bool → V → Option X → St → Except X V × St
  /-- The truth of what an exit gives. -/
  truth : V → St → Except X Bool × St

/-- Call an exit with an exception: whether it suppresses it. -/
def ContextManagers.suppresses {V X St : Type} (cm : ContextManagers V X St) (isAsync : Bool)
    (exitFn : V) (exc : X) (s : St) : Except X Bool × St :=
  match cm.callExit isAsync exitFn (some exc) s with
  | (.ok v, u) => cm.truth v u
  | (.error x, u) => (.error x, u)

/-! ## The running program -/

/-- The statements around the one that runs. -/
inductive Kont (E T V X : Type) : Bool → Type
  | done : Kont E T V X false
  | seq {l : Bool} (rest : Stmts E T l) (k : Kont E T V X l) : Kont E T V X l
  | whileLoop {l : Bool} (test : E) (body : Stmts E T true) (orelse : Stmts E T l)
      (k : Kont E T V X l) : Kont E T V X true
  | forLoop {l : Bool} (isAsync : Bool) (iterator : V) (target : T) (body : Stmts E T true)
      (orelse : Stmts E T l) (k : Kont E T V X l) : Kont E T V X true
  | tryBody {l : Bool} (first : Stmt E T l) (more orelse finalbody : Stmts E T l)
      (k : Kont E T V X l) : Kont E T V X l
  | guarded {l : Bool} (finalbody : Stmts E T l) (k : Kont E T V X l) : Kont E T V X l
  | handling {l : Bool} (exc : X) (finalbody : Stmts E T l) (k : Kont E T V X l) : Kont E T V X l
  | finalBody {l : Bool} (pending : Signal V X l) (k : Kont E T V X l) : Kont E T V X l
  /-- An item that has been entered, with its exit. -/
  | withBody {l : Bool} (isAsync : Bool) (exitFn : V) (k : Kont E T V X l) : Kont E T V X l

def Kont.inRegion {E T V X : Type} : {l : Bool} → Kont E T V X l → Bool
  | _, .done => false
  | _, .seq _ k | _, .whileLoop _ _ _ k | _, .forLoop _ _ _ _ _ k | _, .tryBody _ _ _ _ k
  | _, .guarded _ k | _, .withBody _ _ k => k.inRegion
  | _, .handling .. | _, .finalBody .. => true

/-- The state of user code, and the exception that was caught last. An exit that receives an
exception has caught it. -/
structure State (X St : Type) where
  user : St
  caught : Option X

namespace State

variable {E T V X St : Type} {l : Bool}

def caughtIn (s : State X St) (k : Kont E T V X l) : Option X :=
  if k.inRegion then s.caught else none

def held (s : State X St) (k : Kont E T V X l) : Held X :=
  if k.inRegion then s.caught.elim .noneObject .exc else .absent

def enterFinal (s : State X St) (pending : Signal V X l) (k : Kont E T V X l) : State X St where
  user := s.user
  caught :=
    match pending with
    | .exc e => some e
    | .ret _ => s.caught
    | _ => s.caughtIn k

end State

inductive Config (E T V X St : Type)
  | run {l : Bool} (stmts : Stmts E T l) (k : Kont E T V X l) (s : State X St)
  | unwind {l : Bool} (signal : Signal V X l) (k : Kont E T V X l) (s : State X St)

def Config.user {E T V X St : Type} : Config E T V X St → St
  | .run _ _ s | .unwind _ _ s => s.user

section Step

variable {E T V X St : Type} (rt : Runtime E T V X St) (cm : ContextManagers V X St) {l : Bool}

/-- How the entering of an item ends. -/
inductive Entered (V X : Type)
  /-- The item is not entered. -/
  | failed (x : X)
  /-- The item is entered, and the assignment of what it gave has this result. -/
  | entered (exitFn : V) (assigned : Except X Unit)

/-- Enter an item, and assign what it gives. -/
def enterItem (isAsync : Bool) (item : WithItem E T) (current : Option X) (s : St) :
    Entered V X × St :=
  match rt.eval item.contextExpr (rt.given item.contextExpr current) s with
  | (.error x, u) => (.failed x, u)
  | (.ok ctx, u) =>
    match cm.getExit isAsync ctx u with
    | (.error x, u) => (.failed x, u)
    | (.ok exitFn, u) =>
      match cm.enter isAsync ctx u with
      | (.error x, u) => (.failed x, u)
      | (.ok v, u) =>
        match item.optionalVars with
        | none => (.entered exitFn (.ok ()), u)
        | some target =>
          let (r, u) := rt.assign target v u
          (.entered exitFn r, u)

def givenTo (e : E) (k : Kont E T V X l) (s : State X St) : Option X :=
  rt.given e (s.held k).exception?

def reraise (k : Kont E T V X l) (s : State X St) : X × St :=
  match s.held k with
  | .absent => rt.noActiveException s.user
  | .exc e => (e, s.user)
  | .noneObject => rt.raiseValue rt.noneValue s.user

def leaveRegion (finalbody : Stmts E T l) (signal : Signal V X l) (k : Kont E T V X l)
    (s : State X St) : Config E T V X St :=
  match finalbody with
  | .nil => .unwind signal k s
  | .cons x first more =>
    if Meaning.lowered.entersFinal signal then
      .run (.cons x first more) (.finalBody signal k) (s.enterFinal signal k)
    else .unwind signal k s

/-- Start the statements of a region. -/
def enterBody (body : Stmts E T l) (k : Kont E T V X l) (s : State X St) : Config E T V X St :=
  match body with
  | .nil => .unwind .normal k s
  | .cons x first more => .run (.cons x first more) k s

/-- Call the exit of an item that control leaves. -/
def leaveWith (isAsync : Bool) (exitFn : V) (signal : Signal V X l) (k : Kont E T V X l)
    (s : State X St) : Config E T V X St :=
  match signal with
  | .exc x =>
    match cm.suppresses isAsync exitFn x s.user with
    | (.ok true, u) => .unwind .normal k ⟨u, if k.inRegion then some x else none⟩
    | (.ok false, u) => .unwind (.exc x) k ⟨u, s.caught⟩
    | (.error y, u) => .unwind (.exc y) k ⟨u, s.caught⟩
  | signal =>
    match cm.callExit isAsync exitFn none s.user with
    | (.ok _, u) => .unwind signal k ⟨u, s.caughtIn k⟩
    | (.error y, u) => .unwind (.exc y) k ⟨u, s.caught⟩

def stepStmt (stmt : Stmt E T l) (rest : Stmts E T l) (k : Kont E T V X l) (s : State X St) :
    Config E T V X St :=
  match stmt with
  | .simple e =>
    match rt.eval e (givenTo rt e k s) s.user with
    | (.ok _, u) => .run rest k ⟨u, s.caught⟩
    | (.error x, u) => .unwind (.exc x) k ⟨u, s.caught⟩
  | .raiseStmt none =>
    let (x, u) := reraise rt k s
    .unwind (.exc x) k ⟨u, s.caught⟩
  | .raiseStmt (some e) =>
    match rt.eval e (givenTo rt e k s) s.user with
    | (.ok v, u) =>
      let (x, u) := rt.raiseValue v u
      .unwind (.exc x) k ⟨u, s.caught⟩
    | (.error x, u) => .unwind (.exc x) k ⟨u, s.caught⟩
  | .returnStmt none => .unwind (.ret rt.noneValue) k ⟨s.user, s.caughtIn k⟩
  | .returnStmt (some e) =>
    match rt.eval e (givenTo rt e k s) s.user with
    | (.ok v, u) => .unwind (.ret v) k ⟨u, s.caughtIn k⟩
    | (.error x, u) => .unwind (.exc x) k ⟨u, s.caught⟩
  | .ifStmt test body orelse =>
    match rt.test test (givenTo rt test k s) s.user with
    | (.ok true, u) => .run body (.seq rest k) ⟨u, s.caught⟩
    | (.ok false, u) => .run orelse (.seq rest k) ⟨u, s.caught⟩
    | (.error x, u) => .unwind (.exc x) k ⟨u, s.caught⟩
  | .whileStmt test body orelse => .unwind .cont (.whileLoop test body orelse (.seq rest k)) s
  | .forStmt isAsync target iter body orelse =>
    match rt.eval iter (givenTo rt iter k s) s.user with
    | (.ok v, u) =>
      match rt.iter isAsync v u with
      | (.ok it, u) =>
        .unwind .cont (.forLoop isAsync it target body orelse (.seq rest k)) ⟨u, s.caught⟩
      | (.error x, u) => .unwind (.exc x) k ⟨u, s.caught⟩
    | (.error x, u) => .unwind (.exc x) k ⟨u, s.caught⟩
  | .breakStmt => .unwind .brk k s
  | .continueStmt => .unwind .cont k s
  | .tryExcept body first more orelse finalbody =>
    enterBody body (.tryBody first more orelse finalbody (.seq rest k)) s
  | .tryFinally body first more =>
    enterBody body (.guarded (.cons false first more) (.seq rest k)) s
  | .withStmt isAsync item more body =>
    match enterItem rt cm isAsync item (s.held k).exception? s.user with
    | (.failed x, u) => .unwind (.exc x) k ⟨u, s.caught⟩
    | (.entered exitFn (.error x), u) =>
      .unwind (.exc x) (.withBody isAsync exitFn (.seq rest k)) ⟨u, s.caught⟩
    | (.entered exitFn (.ok ()), u) =>
      match more with
      | [] => enterBody body (.withBody isAsync exitFn (.seq rest k)) ⟨u, s.caught⟩
      | next :: more =>
        .run (.cons false (.withStmt isAsync next more body) .nil)
          (.withBody isAsync exitFn (.seq rest k)) ⟨u, s.caught⟩

def stepUnwind (signal : Signal V X l) (k : Kont E T V X l) (s : State X St) :
    Config E T V X St ⊕ Outcome V X St :=
  match k with
  | .done =>
    match signal with
    | .normal => .inr (.fellThrough s.user)
    | .exc x => .inr (.raised x s.user)
    | .ret v => .inr (.returned v s.user)
  | .seq rest k =>
    match signal with
    | .normal => .inl (enterBody rest k s)
    | signal => .inl (.unwind signal k s)
  | .whileLoop test body orelse k =>
    match signal with
    | .normal => .inl (.unwind .cont (.whileLoop test body orelse k) s)
    | .exc x => .inl (.unwind (.exc x) k s)
    | .ret v => .inl (.unwind (.ret v) k s)
    | .brk => .inl (.unwind .normal k s)
    | .cont =>
      match rt.test test (givenTo rt test k s) s.user with
      | (.ok true, u) => .inl (.run body (.whileLoop test body orelse k) ⟨u, s.caught⟩)
      | (.ok false, u) => .inl (.run orelse k ⟨u, s.caught⟩)
      | (.error x, u) => .inl (.unwind (.exc x) k ⟨u, s.caught⟩)
  | .forLoop isAsync it target body orelse k =>
    match signal with
    | .normal => .inl (.unwind .cont (.forLoop isAsync it target body orelse k) s)
    | .exc x => .inl (.unwind (.exc x) k s)
    | .ret v => .inl (.unwind (.ret v) k s)
    | .brk => .inl (.unwind .normal k s)
    | .cont =>
      match rt.next isAsync it s.user with
      | (.ok none, u) => .inl (.run orelse k ⟨u, s.caught⟩)
      | (.ok (some v), u) =>
        match rt.assign target v u with
        | (.ok (), u) =>
          .inl (.run body (.forLoop isAsync it target body orelse k) ⟨u, s.caught⟩)
        | (.error x, u) => .inl (.unwind (.exc x) k ⟨u, s.caught⟩)
      | (.error x, u) => .inl (.unwind (.exc x) k ⟨u, s.caught⟩)
  | .tryBody first more orelse finalbody k =>
    match signal with
    | .normal => .inl (enterBody orelse (.guarded finalbody k) s)
    | .exc x => .inl (.run (.cons false first more) (.handling x finalbody k) ⟨s.user, some x⟩)
    | signal => .inl (leaveRegion finalbody signal k s)
  | .guarded finalbody k => .inl (leaveRegion finalbody signal k s)
  | .handling _ finalbody k => .inl (leaveRegion finalbody signal k s)
  | .finalBody pending k =>
    match signal with
    | .normal =>
      match pending with
      | .ret v => .inl (.unwind (.ret v) k ⟨s.user, s.caughtIn k⟩)
      | pending => .inl (.unwind pending k s)
    | signal => .inl (.unwind signal k s)
  | .withBody isAsync exitFn k => .inl (leaveWith cm isAsync exitFn signal k s)

def step : Config E T V X St → Config E T V X St ⊕ Outcome V X St
  | .run .nil k s => .inl (.unwind .normal k s)
  | .run (.cons _ stmt rest) k s => .inl (stepStmt rt cm stmt rest k s)
  | .unwind signal k s => stepUnwind rt cm signal k s

/-- The machine that runs statements with `with`. -/
def structured : Machine (Config E T V X St) (Outcome V X St) := ⟨step rt cm⟩

end Step

/-- A callable's body at its start. -/
def start {E T V X St : Type} (body : Stmts E T false) (user : St) : Config E T V X St :=
  .run body .done ⟨user, none⟩

end DietPython.ControlFlow.Source
