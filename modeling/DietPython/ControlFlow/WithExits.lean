import DietPython.ControlFlow.WithStatements

/-!
# Items are a stack

What Python's meaning of `with` promises about exits: along every run, entering an item pushes its
exit, and leaving the item pops it and calls it, so that an item that was entered has its exit
called once, behind those of the items entered later. A body that has come to an end has no item
left.
-/

namespace DietPython.ControlFlow.Source

open Machines

variable {E T V X St : Type} {l : Bool}

/-! ## Events -/

/-- The exits of the items around, the last one entered first. -/
def Kont.exits : {l : Bool} → Kont E T V X l → List (Bool × V)
  | _, .done => []
  | _, .seq _ k | _, .whileLoop _ _ _ k | _, .forLoop _ _ _ _ _ k | _, .tryBody _ _ _ _ k
  | _, .guarded _ k | _, .handling _ _ k | _, .finalBody _ k => k.exits
  | _, .withBody isAsync exitFn k => (isAsync, exitFn) :: k.exits

def Config.exits : Config E T V X St → List (Bool × V)
  | .run _ k _ | .unwind _ k _ => k.exits

/-- What happens to an item. -/
inductive ItemEvent (V X : Type)
  | entered (isAsync : Bool) (exitFn : V)
  /-- The exit is called, with the exception in flight or with three `None`s. -/
  | called (isAsync : Bool) (exitFn : V) (exc : Option X)

def excOfSignal : Signal V X l → Option X
  | .exc x => some x
  | _ => none

section Events

variable (rt : Runtime E T V X St) (cm : ContextManagers V X St)

/-- What the step from a state does to an item. -/
def itemEvent : Config E T V X St → List (ItemEvent V X)
  | .run (.cons _ (.withStmt isAsync item _ _) _) k s =>
    match enterItem rt cm isAsync item (s.held k).exception? s.user with
    | (.failed _, _) => []
    | (.entered exitFn _, _) => [.entered isAsync exitFn]
  | .unwind signal (.withBody isAsync exitFn _) _ => [.called isAsync exitFn (excOfSignal signal)]
  | _ => []

/-- The events of the first `n` steps. -/
def itemEvents : ℕ → Config E T V X St → List (ItemEvent V X)
  | 0, _ => []
  | n + 1, c =>
    itemEvent rt cm c ++
      match (structured rt cm).step c with
      | .inl c' => itemEvents n c'
      | .inr _ => []

end Events

/-- Events that take one stack of exits to another. -/
inductive Nested : List (ItemEvent V X) → List (Bool × V) → List (Bool × V) → Prop
  | nil {exits : List (Bool × V)} : Nested [] exits exits
  | entered {events : List (ItemEvent V X)} {isAsync : Bool} {exitFn : V}
      {exits exits' : List (Bool × V)} (h : Nested events ((isAsync, exitFn) :: exits) exits') :
      Nested (.entered isAsync exitFn :: events) exits exits'
  | called {events : List (ItemEvent V X)} {isAsync : Bool} {exitFn : V} {exc : Option X}
      {exits exits' : List (Bool × V)} (h : Nested events exits exits') :
      Nested (.called isAsync exitFn exc :: events) ((isAsync, exitFn) :: exits) exits'

theorem Nested.append {events events' : List (ItemEvent V X)}
    {exits exits' exits'' : List (Bool × V)}
    (h : Nested events exits exits') (h' : Nested events' exits' exits'') :
    Nested (events ++ events') exits exits'' := by
  induction h with
  | nil => exact h'
  | entered _ ih => exact .entered (ih h')
  | called _ ih => exact .called (ih h')

/-! ## Steps -/

section Steps

variable {rt : Runtime E T V X St} {cm : ContextManagers V X St} {k : Kont E T V X l}
  {s : State X St}

theorem exits_enterBody (body : Stmts E T l) : (enterBody body k s).exits = k.exits := by
  cases body <;> rfl

theorem exits_leaveRegion (finalbody : Stmts E T l) (signal : Signal V X l) :
    (leaveRegion finalbody signal k s).exits = k.exits := by
  cases finalbody with
  | nil => rfl
  | cons x first more =>
    simp only [leaveRegion]
    split <;> rfl

theorem exits_leaveWith (isAsync : Bool) (exitFn : V) (signal : Signal V X l) :
    (leaveWith cm isAsync exitFn signal k s).exits = k.exits := by
  unfold leaveWith
  split <;> split <;> rfl

theorem nested_stepStmt (x : Bool) (stmt : Stmt E T l) (rest : Stmts E T l) :
    Nested (itemEvent rt cm (.run (.cons x stmt rest) k s)) k.exits
      (stepStmt rt cm stmt rest k s).exits := by
  cases stmt with
  | simple e =>
    simp only [stepStmt]
    split <;> exact .nil
  | raiseStmt exc =>
    cases exc with
    | none => exact .nil
    | some e =>
      simp only [stepStmt]
      split <;> exact .nil
  | returnStmt value =>
    cases value with
    | none => exact .nil
    | some e =>
      simp only [stepStmt]
      split <;> exact .nil
  | ifStmt test body orelse =>
    simp only [stepStmt]
    split <;> exact .nil
  | whileStmt | breakStmt | continueStmt => exact .nil
  | forStmt isAsync target iter body orelse =>
    simp only [stepStmt]
    split
    · split <;> exact .nil
    · exact .nil
  | tryExcept body first more orelse finalbody =>
    simp only [stepStmt, exits_enterBody]
    exact .nil
  | tryFinally body first more =>
    simp only [stepStmt, exits_enterBody]
    exact .nil
  | withStmt isAsync item more body =>
    simp only [stepStmt, itemEvent]
    rcases enterItem rt cm isAsync item (s.held k).exception? s.user with ⟨y | ⟨exitFn, y | _⟩, u⟩
    · exact .nil
    · exact .entered .nil
    · cases more with
      | nil =>
        simp only [exits_enterBody]
        exact .entered .nil
      | cons next more => exact .entered .nil

/-- What a step does to the items around. -/
def NestedTo (events : List (ItemEvent V X)) (exits : List (Bool × V)) :
    Config E T V X St ⊕ Outcome V X St → Prop
  | .inl c => Nested events exits c.exits
  | .inr _ => Nested events exits []

theorem nested_stepUnwind (signal : Signal V X l) :
    NestedTo (itemEvent rt cm (.unwind signal k s)) k.exits (stepUnwind rt cm signal k s) := by
  cases k with
  | done => cases signal <;> exact .nil
  | seq rest k =>
    cases signal with
    | normal =>
      simp only [stepUnwind, NestedTo, exits_enterBody]
      exact .nil
    | exc | ret | brk | cont => exact .nil
  | whileLoop test body orelse k =>
    cases signal with
    | normal | exc | ret | brk => exact .nil
    | cont =>
      simp only [stepUnwind]
      split <;> exact .nil
  | forLoop isAsync it target body orelse k =>
    cases signal with
    | normal | exc | ret | brk => exact .nil
    | cont =>
      simp only [stepUnwind]
      split
      · exact .nil
      · split <;> exact .nil
      · exact .nil
  | tryBody first more orelse finalbody k =>
    cases signal with
    | normal =>
      simp only [stepUnwind, NestedTo, exits_enterBody]
      exact .nil
    | exc => exact .nil
    | ret | brk | cont =>
      simp only [stepUnwind, NestedTo, exits_leaveRegion]
      exact .nil
  | guarded | handling =>
    simp only [stepUnwind, NestedTo, exits_leaveRegion]
    exact .nil
  | finalBody pending k =>
    cases signal with
    | normal => cases pending <;> exact .nil
    | exc | ret | brk | cont => exact .nil
  | withBody isAsync exitFn k =>
    simp only [stepUnwind, NestedTo, exits_leaveWith]
    exact .called .nil

/-- **One step.** -/
theorem nested_step (c : Config E T V X St) :
    NestedTo (itemEvent rt cm c) c.exits ((structured rt cm).step c) := by
  cases c with
  | run stmts k s =>
    cases stmts with
    | nil => exact .nil
    | cons x stmt rest => exact nested_stepStmt x stmt rest
  | unwind signal k s => exact nested_stepUnwind signal

/-! ## Runs -/

/-- **Every item that is entered is left once, the last one first.** -/
theorem nested_run {n : ℕ} {c : Config E T V X St} {r : Outcome V X St}
    (h : (structured rt cm).run n c = some r) : Nested (itemEvents rt cm n c) c.exits [] := by
  induction n generalizing c with
  | zero => cases h
  | succ n ih =>
    have hc : NestedTo (itemEvent rt cm c) c.exits ((structured rt cm).step c) := nested_step c
    unfold itemEvents
    cases hstep : (structured rt cm).step c with
    | inl c₁ =>
      rw [Machine.run_succ_of_step _ hstep] at h
      rw [hstep] at hc
      exact hc.append (ih h)
    | inr r =>
      rw [hstep] at hc
      have hc : Nested (itemEvent rt cm c) c.exits [] := hc
      rwa [List.append_nil]

end Steps

end DietPython.ControlFlow.Source
