import DietPython.Blocks.Basic

/-!
# Core instructions

The instructions of the passes that are left when statements and expressions have become blocks.
Names are unresolved at first and have a location later, and there are yields until generators are
lowered: a yield carries evidence that it may be there.
-/

namespace DietPython.Blocks

inductive BinOpKind
  | add | sub | mul | matMul | trueDiv | floorDiv | mod | pow | lShift | rShift | or | xor | and
  | eq | ne | lt | le | gt | ge | contains | is
  | inplaceAdd | inplaceSub | inplaceMul | inplaceMatMul | inplaceTrueDiv | inplaceFloorDiv
  | inplaceMod | inplacePow | inplaceLShift | inplaceRShift | inplaceOr | inplaceXor | inplaceAnd
  deriving DecidableEq

inductive UnaryOpKind
  | pos | neg | invert | not | truth
  deriving DecidableEq

inductive FunctionKind
  | function | coroutine | generator | asyncGenerator
  deriving DecidableEq

/-- A floating point number is given by its bits. -/
inductive CoreNumberLiteralValue
  | int (value : ℕ)
  | float (bits : UInt64)
  deriving DecidableEq

inductive BlockPyLiteral
  | stringLiteral (value : String)
  | bytesLiteral (value : List UInt8)
  | numberLiteral (value : CoreNumberLiteralValue)
  deriving DecidableEq

inductive CellLocation
  | owned (slot : ℕ)
  | closure (slot : ℕ)
  | capturedSource (slot : ℕ)
  deriving DecidableEq

inductive UnresolvedName
  | sourceName (name : String)
  | runtimeName (name : String)
  deriving DecidableEq

mutual

/-- An instruction with names `N`. There is a yield in it only if there is evidence `Y`, and a
literal or a cell that is looked up by its name only if there is evidence `L`. -/
inductive Instr (Y L N : Type)
  | literal (may : L) (literal : BlockPyLiteral)
  | binOp (kind : BinOpKind) (left right : Instr Y L N)
  | unaryOp (kind : UnaryOpKind) (operand : Instr Y L N)
  | call (func : Instr Y L N) (args : Args Y L N) (keywords : Keywords Y L N)
  | getAttr (value attr : Instr Y L N)
  | setAttr (value attr replacement : Instr Y L N)
  | getItem (value index : Instr Y L N)
  | setItem (value index replacement : Instr Y L N)
  | delItem (value index : Instr Y L N)
  | load (name : N)
  | store (name : N) (value : Instr Y L N)
  | del (name : N) (quietly : Bool)
  | makeCell (initialValue : Instr Y L N)
  | cellRefForName (may : L) (logicalName : String)
  | cellRef (location : CellLocation)
  | makeFunction (functionId : ℕ) (kind : FunctionKind) (paramDefaults annotateFn : Instr Y L N)
  | yield (may : Y) (value : Instr Y L N)
  | yieldFrom (may : Y) (value : Instr Y L N)

/-- `Vec<CallArgPositional>` -/
inductive Args (Y L N : Type)
  | nil
  | positional (value : Instr Y L N) (rest : Args Y L N)
  | starred (value : Instr Y L N) (rest : Args Y L N)

/-- `Vec<CallArgKeyword>` -/
inductive Keywords (Y L N : Type)
  | nil
  | named (arg : String) (value : Instr Y L N) (rest : Keywords Y L N)
  | starred (value : Instr Y L N) (rest : Keywords Y L N)

end

abbrev CoreBlockPyExprWithYield := Instr Unit Unit UnresolvedName

abbrev CoreBlockPyExpr := Instr Empty Unit UnresolvedName

/-! ## Operands of terminators -/

namespace BlockTerm

variable {I J : Type}

def operand : BlockTerm I → Option I
  | .jump _ => none
  | .ifTerm test _ _ => some test
  | .branchTable index _ _ => some index
  | .raiseTerm exc => exc
  | .ret value => some value

/-- `map_term`, with an effect. -/
def mapM {m : Type → Type} [Monad m] (f : I → m J) : BlockTerm I → m (BlockTerm J)
  | .jump edge => pure (.jump edge)
  | .ifTerm test thenLabel elseLabel => do
    return .ifTerm (← f test) thenLabel elseLabel
  | .branchTable index targets defaultLabel => do
    return .branchTable (← f index) targets defaultLabel
  | .raiseTerm none => pure (.raiseTerm none)
  | .raiseTerm (some exc) => do return .raiseTerm (some (← f exc))
  | .ret value => do return .ret (← f value)

end BlockTerm

end DietPython.Blocks
