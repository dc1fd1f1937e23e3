import DietPython.Lib.EventTraces

/-!
# Core expressions and their effects

The expressions that are left after lowering, with the setup statements that lowering puts in front
of them. Everything user code can notice is an event: a name load, an operation on values (a
call, an attribute or item access, an operator, a suspension, a name store) and a truth test.
The world answers an event from the whole history, so it may change between two events in any
way. Literals, setup temporaries and displays of values are silent.

Every node carries the index of the source node it comes from, and its events carry that index.
-/

namespace DietPython.Expressions

open LoggedComputations

abbrev NodeIndex := Nat

abbrev Name := String

/-! ## Syntax -/

/-- A setup name. `fresh_setup_name` and `fresh_eval_name` number their names; here a name is told
apart by the node that asked for it and by its role there. -/
inductive Temp
  | target (n : NodeIndex)
  | compare (n : NodeIndex) (step : Nat)
  | tmp (n : NodeIndex)
  | eval (n : NodeIndex)
deriving DecidableEq

/-- The node that asked for a setup name. -/
def Temp.site : Temp → NodeIndex
  | .target n | .compare n _ | .tmp n | .eval n => n

inductive UnaryOp
  | invert | not | uAdd | uSub
deriving DecidableEq

inductive Operator
  | add | sub | mult | matMult | div | mod | pow | lShift | rShift | bitOr | bitXor | bitAnd
  | floorDiv
deriving DecidableEq

inductive CmpOp
  | eq | notEq | lt | ltE | gt | gtE | is | isNot | isIn | notIn
deriving DecidableEq

/-- `in` and `not in` become `Contains(right, left)`; the other comparisons keep their order. -/
def CmpOp.swapped : CmpOp → Bool
  | .isIn | .notIn => true
  | _ => false

/-- What a node does with the values of its operands. `unpack` and `unpackMapping` are a starred
and a double starred item; the negation in `IsNot` and `NotIn` is one of a plain boolean and part
of the comparison. -/
inductive Op
  | getAttr (attr : Name)
  | getItem
  | call (keywords : List (Option Name))
  | unaryOp (op : UnaryOp)
  | binOp (op : Operator)
  | compare (op : CmpOp)
  | tuple | list | slice | set | dict | unpack | unpackMapping
  | await | yield | yieldFrom
  | store (id : Name)
deriving DecidableEq

/-- Building a tuple, a list or a slice from values runs no user code. -/
def Op.silent : Op → Bool
  | .tuple | .list | .slice => true
  | _ => false

mutual

inductive Core (V : Type) : Type
  | literal (c : V)
  | load (n : NodeIndex) (id : Name)
  | temp (t : Temp)
  | operation (n : NodeIndex) (op : Op) (args : Cores V)

inductive Cores (V : Type) : Type
  | nil
  | cons (e : Core V) (es : Cores V)

end

/-- Setup statements in front of what follows them. `instr` runs an instruction for its effect,
`branch` is a structured `if` on `test` or, when `negated`, on `not test`. -/
inductive Setup (V : Type) : Type
  | done
  | assign (t : Temp) (value : Core V) (next : Setup V)
  | instr (value : Core V) (next : Setup V)
  | delete (t : Temp) (next : Setup V)
  | branch (n : NodeIndex) (negated : Bool) (test : Core V) (body orelse next : Setup V)

variable {V E : Type}

/-- The statements of `s` and then those of `s'`. -/
def Setup.append : Setup V → Setup V → Setup V
  | .done, s' => s'
  | .assign t v next, s' => .assign t v (next.append s')
  | .instr v next, s' => .instr v (next.append s')
  | .delete t next, s' => .delete t (next.append s')
  | .branch n negated test body orelse next, s' =>
      .branch n negated test body orelse (next.append s')

instance : Append (Setup V) := ⟨Setup.append⟩

/-! ## Events and the world -/

/-- What user code can notice; `perform` lists the operands in the order of the operation. -/
inductive Event (V : Type)
  | load (n : NodeIndex) (id : Name)
  | perform (n : NodeIndex) (op : Op) (operands : List V)
  | test (n : NodeIndex) (value : V)

def Event.site : Event V → NodeIndex
  | .load n _ | .perform n _ _ | .test n _ => n

/-- An exception of the program, or a lowering that stopped the compiler. -/
inductive Failure (E : Type)
  | exception (e : E)
  | lowering

/-- The environment of a run. -/
structure World (V E : Type) where
  answer : List (Event V) → Event V → Except E V
  truth : List (Event V) → Event V → Except E Bool
  build : Op → List V → V
  deleted : V

abbrev Run (V E : Type) (α : Type) := Logged (Event V) (Failure E) α

namespace World

variable (w : World V E)

def ask (ev : Event V) : Run V E V :=
  Logged.observe ev fun l => (w.answer l ev).mapError .exception

/-- The truth of a value. -/
def test (n : NodeIndex) (v : V) : Run V E Bool :=
  Logged.observe (.test n v) fun l => (w.truth l (.test n v)).mapError .exception

def operate (n : NodeIndex) (op : Op) (vs : List V) : Run V E V :=
  if op.silent then pure (w.build op vs) else w.ask (.perform n op vs)

end World

/-! ## Evaluation -/

/-- The values of the setup names. -/
abbrev Temps (V : Type) := Temp → V

mutual

/-- Operands are evaluated from left to right, and then the operation. -/
def Core.eval (w : World V E) (σ : Temps V) : Core V → Run V E V
  | .literal c => pure c
  | .load n id => w.ask (.load n id)
  | .temp t => pure (σ t)
  | .operation n op args => do
      let vs ← args.eval w σ
      w.operate n op vs

def Cores.eval (w : World V E) (σ : Temps V) : Cores V → Run V E (List V)
  | .nil => pure []
  | .cons e es => do
      let v ← e.eval w σ
      let vs ← es.eval w σ
      pure (v :: vs)

end

def Setup.exec (w : World V E) : Setup V → Temps V → Run V E (Temps V)
  | .done, σ => pure σ
  | .assign t v next, σ => do
      let x ← v.eval w σ
      next.exec w (Function.update σ t x)
  | .instr v next, σ => do
      let _ ← v.eval w σ
      next.exec w σ
  | .delete t next, σ => next.exec w (Function.update σ t w.deleted)
  | .branch n negated test body orelse next, σ => do
      let x ← test.eval w σ
      let b ← w.test n x
      (if b != negated then body.exec w σ else orelse.exec w σ) >>= fun σ' => next.exec w σ'

theorem exec_append (w : World V E) (s s' : Setup V) (σ : Temps V) :
    (s ++ s').exec w σ = s.exec w σ >>= s'.exec w := by
  induction s generalizing σ with
  | done => rw [Setup.exec, pure_bind]; rfl
  | assign t v next ih =>
    rw [Setup.exec, bind_assoc]
    exact bind_congr fun x => ih _
  | instr v next ih =>
    rw [Setup.exec, bind_assoc]
    exact bind_congr fun _ => ih _
  | delete t next ih => exact ih _
  | branch n negated test body orelse next _ _ ih =>
    simp only [Setup.exec, bind_assoc]
    exact bind_congr fun x => bind_congr fun b => bind_congr fun σ' => ih σ'

end DietPython.Expressions
