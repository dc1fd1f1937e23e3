import DietPython.Lib.Ledgers
import Mathlib.Algebra.Order.Group.Multiset
import Mathlib.Data.List.Nodup
import Mathlib.Logic.Function.Basic
import Mathlib.Tactic.Abel

/-!
# References in the code of a block

The code of an instruction takes references to objects: those that its operands give, which are its
own to release, and those in the stack slots of the locals. An operand that is a local is borrowed
from its slot. An operation that fails leaves by the exit of the block, where the slots are released
and nothing else.

1. `Expr.emit` is the emitted code, run on the references that it has.
2. `Expr.steady`: the operands that are borrowed stay in their slots.
3. `Expr.tight`: no failure can pass a reference that is still to be released.

The locals of a block are all in stack slots. Calls with keywords or unpacking, and those of runtime
helpers that have code of their own, are left out.
-/

namespace DietPython.Jit

open Ledgers

/-! ## Instructions -/

mutual

/-- An instruction, with the name of the helper that it calls. -/
inductive Expr
  /-- A load from a stack slot. -/
  | loadLocal (name : String)
  /-- A load from a cell, from the globals or from the runtime module. -/
  | loadOwned (helper : String)
  | constant (index : ℕ)
  /-- An operator, an attribute or an item, or a store that is not to a local. -/
  | operation (helper : String) (args : Exprs)
  | identity (left right : Expr)
  | call (func : Expr) (args : Exprs)
  | storeLocal (name : String) (value : Expr)
  | delLocal (name : String)

inductive Exprs
  | nil
  | cons (arg : Expr) (rest : Exprs)

end

/-- What the code is run with. Module constants are immortal, as are `None`, `True` and `False`. -/
structure Helpers (O σ : Type) where
  immortal : O → Bool
  constant : ℕ → O
  noneConst : O
  trueConst : O
  falseConst : O
  deletedConst : O
  /-- A new reference, or null. -/
  call : String → List O → σ → Option O × σ
  constant_immortal : ∀ index, immortal (constant index) = true
  none_immortal : immortal noneConst = true
  true_immortal : immortal trueConst = true
  false_immortal : immortal falseConst = true

/-- The objects in the stack slots, and everything else. -/
structure Slots (O σ : Type) where
  slots : String → O
  world : σ

abbrev JitAct (O σ α : Type) := Act O (Slots O σ) α

/-- `codegen_expr_is_borrowable` -/
def Expr.borrowable : Expr → Bool
  | .loadLocal _ => true
  | _ => false

section Emit

variable {O σ : Type} [DecidableEq O] (rt : Helpers O σ)

/-- A helper takes objects that there are references to, and gives a new reference or null. -/
def runHelper (helper : String) (args : List O) : JitAct O σ (Option O) := fun s =>
  match rt.call helper args s.own.world with
  | (some value, world) =>
    (.ok (some value), ⟨ref rt.immortal value + s.held, { s.own with world }⟩)
  | (none, world) => (.ok none, ⟨s.held, { s.own with world }⟩)

def callHelper (helper : String) (args : List O) : JitAct O σ (Option O) := do
  args.forM (use rt.immortal)
  runHelper rt helper args

/-- `release_arg_values`: a value and whether it is borrowed. -/
def releaseArgValues : List (O × Bool) → JitAct O σ Unit
  | [] => pure ()
  | (value, borrowed) :: args => do
    if !borrowed then release rt.immortal value
    releaseArgValues args

/-- `finish_owned_result` -/
def finishOwnedResult : Option O → JitAct O σ O
  | some value => pure value
  | none => exit

def loadSlot (name : String) : JitAct O σ O := fun s => (.ok (s.own.slots name), s)

def storeSlot (name : String) (value : O) : JitAct O σ Unit := fun s =>
  (.ok (), { s with own.slots := Function.update s.own.slots name value })

/-- `replace_cloned_value` -/
def replaceCloned (name : String) (value : O) : JitAct O σ Unit := do
  let previous ← loadSlot name
  acquire rt.immortal value
  storeSlot name value
  release rt.immortal previous

mutual

/-- `emit_codegen_expr` -/
def Expr.emit : Expr → Bool → JitAct O σ O
  | .loadLocal name, borrowed => do
    let value ← loadSlot name
    if !borrowed then acquire rt.immortal value
    pure value
  | .loadOwned helper, _ => do
    finishOwnedResult (← callHelper rt helper [])
  | .constant index, _ => pure (rt.constant index)
  | .operation helper args, _ => do
    let values ← args.emit
    let result ← callHelper rt helper (values.map Prod.fst)
    releaseArgValues rt values
    finishOwnedResult result
  | .identity left right, _ => do
    let left' ← left.emit left.borrowable
    let right' ← right.emit right.borrowable
    releaseArgValues rt [(left', left.borrowable), (right', right.borrowable)]
    let value := if left' = right' then rt.trueConst else rt.falseConst
    acquire rt.immortal value
    pure value
  | .call func args, _ => do
    let callable ← func.emit func.borrowable
    let values ← args.emit
    let result ← callHelper rt "py_vectorcall" (callable :: values.map Prod.fst)
    releaseArgValues rt values
    releaseArgValues rt [(callable, func.borrowable)]
    finishOwnedResult result
  | .storeLocal name value, _ => do
    let value' ← value.emit false
    replaceCloned rt name value'
    release rt.immortal value'
    acquire rt.immortal rt.noneConst
    pure rt.noneConst
  | .delLocal name, _ => do
    replaceCloned rt name rt.deletedConst
    acquire rt.immortal rt.noneConst
    pure rt.noneConst

/-- `emit_arg_values` -/
def Exprs.emit : Exprs → JitAct O σ (List (O × Bool))
  | .nil => pure []
  | .cons arg rest => do
    let value ← arg.emit arg.borrowable
    let values ← rest.emit
    pure ((value, arg.borrowable) :: values)

end

/-- `emit_codegen_ops` -/
def emitOps : List Expr → JitAct O σ Unit
  | [] => pure ()
  | op :: ops => do
    let value ← op.emit rt false
    release rt.immortal value
    emitOps ops

/-- `decref_all`, at the exit of a block that has no handler. -/
def decrefAll : List String → JitAct O σ Unit
  | [] => pure ()
  | name :: names => do
    let value ← loadSlot name
    release rt.immortal value
    decrefAll names

end Emit

/-! ## The conditions -/

/-- The local whose reference an operand borrows. -/
def Expr.slot : Expr → Option String
  | .loadLocal name => some name
  | _ => none

/-- An operand whose result is a reference that the code has to release. -/
def Expr.ownsResult : Expr → Bool
  | .loadOwned _ => true
  | .operation _ _ => true
  | .call _ _ => true
  | _ => false

mutual

/-- The locals that an instruction reads or writes. -/
def Expr.locals : Expr → List String
  | .loadLocal name => [name]
  | .loadOwned _ => []
  | .constant _ => []
  | .operation _ args => args.locals
  | .identity left right => left.locals ++ right.locals
  | .call func args => func.locals ++ args.locals
  | .storeLocal name value => name :: value.locals
  | .delLocal name => [name]

def Exprs.locals : Exprs → List String
  | .nil => []
  | .cons arg rest => arg.locals ++ rest.locals

end

mutual

def Expr.writes : Expr → List String
  | .loadLocal _ => []
  | .loadOwned _ => []
  | .constant _ => []
  | .operation _ args => args.writes
  | .identity left right => left.writes ++ right.writes
  | .call func args => func.writes ++ args.writes
  | .storeLocal name value => name :: value.writes
  | .delLocal name => [name]

def Exprs.writes : Exprs → List String
  | .nil => []
  | .cons arg rest => arg.writes ++ rest.writes

end

mutual

/-- The number of helpers that an instruction calls. Each of them can fail. -/
def Expr.calls : Expr → ℕ
  | .loadLocal _ => 0
  | .loadOwned _ => 1
  | .constant _ => 0
  | .operation _ args => args.calls + 1
  | .identity left right => left.calls + right.calls
  | .call func args => func.calls + args.calls + 1
  | .storeLocal _ value => value.calls
  | .delLocal _ => 0

def Exprs.calls : Exprs → ℕ
  | .nil => 0
  | .cons arg rest => arg.calls + rest.calls

end

mutual

/-- No operand writes a local whose reference an operand before it borrows. -/
def Expr.steady : Expr → Bool
  | .operation _ args => args.steady
  | .identity left right => left.steady && right.steady && left.slot.all (· ∉ right.writes)
  | .call func args => func.steady && args.steady && func.slot.all (· ∉ args.writes)
  | .storeLocal _ value => value.steady
  | _ => true

def Exprs.steady : Exprs → Bool
  | .nil => true
  | .cons arg rest => arg.steady && rest.steady && arg.slot.all (· ∉ rest.writes)

end

mutual

/-- No operand that can fail comes after one whose result is to be released. -/
def Expr.tight : Expr → Bool
  | .operation _ args => args.tight
  | .identity left right => left.tight && right.tight && (!left.ownsResult || right.calls == 0)
  | .call func args => func.tight && args.tight && (!func.ownsResult || args.calls == 0)
  | .storeLocal _ value => value.tight
  | _ => true

def Exprs.tight : Exprs → Bool
  | .nil => true
  | .cons arg rest => arg.tight && rest.tight && (!arg.ownsResult || rest.calls == 0)

end

end DietPython.Jit
