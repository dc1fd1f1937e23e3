import Mathlib.Data.Nat.Notation

/-!
# Identifiers of functions and instructions
-/

namespace DietPython.Counters

/-- The module in the high half, the function in the low half. -/
structure FunctionId where
  packed : UInt64
  deriving DecidableEq

namespace FunctionId

def global : FunctionId := ⟨0⟩

def new (moduleId functionId : UInt32) : FunctionId :=
  ⟨moduleId.toUInt64 <<< 32 ||| functionId.toUInt64⟩

def moduleId (id : FunctionId) : ℕ := id.packed.toNat / 4294967296

def functionId (id : FunctionId) : ℕ := id.packed.toNat % 4294967296

def display (id : FunctionId) : String := s!"{id.moduleId}:{id.functionId}"

end FunctionId

structure InstrId where
  blockLabel : UInt32
  instrIndexInBlock : UInt32
  deriving DecidableEq

end DietPython.Counters
