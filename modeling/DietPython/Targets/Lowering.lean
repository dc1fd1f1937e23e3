import DietPython.Targets.Unpack

/-!
# Assignment targets and their two lowerings

`lower_assignment_target_into` emits the instructions of a target, with temporaries for its object,
its index and what is unpacked. `rewrite_assignment_target`, which `for` and `with` use, makes
assignment statements of the tree instead, and these are lowered as statements of their own: the
value goes into a temporary first, in front of the object and the index.
-/

namespace DietPython.Targets

/-! ## Targets -/

mutual

/-- An assignment target. `E` is an expression with everything it does, `N` a name. -/
inductive Target (E N : Type)
  | name (n : N)
  | attribute (object : E) (attr : String)
  | subscript (object slice : E)
  /-- A tuple or a list. -/
  | unpack (elts : Elts E N)

inductive Elts (E N : Type)
  | nil
  | cons (starred : Bool) (target : Target E N) (rest : Elts E N)

end

namespace Elts

variable {E N : Type}

def length : Elts E N → ℕ
  | nil => 0
  | cons _ _ rest => rest.length + 1

/-- The flags of the targets: `False` is a starred one. -/
def spec : Elts E N → List Bool
  | nil => []
  | cons starred _ rest => (!starred) :: rest.spec

/-- No more than one target is starred. -/
def atMostOneStar (elts : Elts E N) : Bool := elts.spec.count false ≤ 1

end Elts

mutual

/-- No more than one target is starred in any list of targets. -/
def Target.accepted {E N : Type} : Target E N → Bool
  | .name _ => true
  | .attribute _ _ => true
  | .subscript _ _ => true
  | .unpack elts => elts.atMostOneStar && elts.accepted

def Elts.accepted {E N : Type} : Elts E N → Bool
  | .nil => true
  | .cons _ target rest => target.accepted && rest.accepted

end

/-! ## Instructions -/

/-- An operand of an emitted instruction; temporaries have numbers. -/
inductive Operand (E : Type)
  | source (e : E)
  /-- The object of a target: a name is checked for a deleted value. -/
  | object (e : E)
  | temp (t : ℕ)
  /-- `t[i]` -/
  | item (t i : ℕ)
  /-- `__soac__.list(t[i])` -/
  | listItem (t i : ℕ)

inductive Instr (E N : Type)
  | bind (t : ℕ) (value : Operand E)
  /-- `t = __soac__.unpack(value, spec)` -/
  | bindUnpack (t : ℕ) (value : Operand E) (spec : List Bool)
  | storeName (n : N) (value : Operand E)
  | setAttr (object : ℕ) (attr : String) (value : Operand E)
  | setItem (object index : ℕ) (value : Operand E)
  | delTemp (t : ℕ)

/-- Statements that `rewrite_assignment_target` makes. -/
inductive AssignStmt (E N : Type)
  | name (n : N) (value : Operand E)
  | attribute (object : E) (attr : String) (value : Operand E)
  | subscript (object slice : E) (value : Operand E)
  | temp (t : ℕ) (value : Operand E)
  | unpack (t : ℕ) (value : Operand E) (spec : List Bool)
  | delTemp (t : ℕ)

section Lowering

variable {E N : Type}

/-- The value of one target of an unpacking. -/
def itemOperand (starred : Bool) (t i : ℕ) : Operand E :=
  if starred then .listItem t i else .item t i

/-! ## Into instructions -/

mutual

/-- `lower_assignment_target_into`. The number is the next temporary's. -/
def Target.lower (rhs : Operand E) : Target E N → ℕ → Except String (List (Instr E N) × ℕ)
  | .name n, t => pure ([.storeName n rhs], t)
  | .attribute object attr, t => pure ([.bind t (.object object), .setAttr t attr rhs], t + 1)
  | .subscript object slice, t =>
    pure ([.bind t (.object object), .bind (t + 1) (.source slice), .setItem t (t + 1) rhs], t + 2)
  | .unpack elts, t => do
    if !elts.atMostOneStar then throw "unsupported starred assignment target"
    let (code, next) ← elts.lower t 0 (t + 1)
    pure (.bindUnpack t rhs elts.spec :: code ++ [.delTemp t], next)

/-- The targets from place `i` on, of what has been unpacked into `unpacked`. -/
def Elts.lower (unpacked : ℕ) : Elts E N → ℕ → ℕ → Except String (List (Instr E N) × ℕ)
  | .nil, _, t => pure ([], t)
  | .cons starred target rest, i, t => do
    let (code, next) ← target.lower (itemOperand starred unpacked i) t
    let (more, last) ← rest.lower unpacked (i + 1) next
    pure (code ++ more, last)

end

/-- `StmtAssign::to_blockpy`: a single name takes the value itself. -/
def lowerAssign (value : Operand E) (targets : List (Target E N)) (t : ℕ) :
    Except String (List (Instr E N) × ℕ) :=
  match targets with
  | [.name n] => pure ([.storeName n value], t)
  | targets => do
    let (code, next) ← targets.foldlM (fun (code, next) target => do
      let (more, last) ← target.lower (.temp t) next
      pure (code ++ more, last)) ([], t + 1)
    pure (.bind t value :: code, next)

/-! ## Into statements -/

mutual

/-- `rewrite_assignment_target` -/
def Target.rewrite (rhs : Operand E) :
    Target E N → ℕ → Except String (List (AssignStmt E N) × ℕ)
  | .name n, t => pure ([.name n rhs], t)
  | .attribute object attr, t => pure ([.attribute object attr rhs], t)
  | .subscript object slice, t => pure ([.subscript object slice rhs], t)
  | .unpack elts, t => do
    if !elts.atMostOneStar then throw "unsupported starred with-target assignment"
    let (code, next) ← elts.rewrite t 0 (t + 1)
    pure (.unpack t rhs elts.spec :: code ++ [.delTemp t], next)

def Elts.rewrite (unpacked : ℕ) : Elts E N → ℕ → ℕ → Except String (List (AssignStmt E N) × ℕ)
  | .nil, _, t => pure ([], t)
  | .cons starred target rest, i, t => do
    let (code, next) ← target.rewrite (itemOperand starred unpacked i) t
    let (more, last) ← rest.rewrite unpacked (i + 1) next
    pure (code ++ more, last)

end

/-- `build_for_target_assign_body` -/
def buildForTargetAssignBody (target : Target E N) (rhs : Operand E) (tmp t : ℕ) :
    Except String (List (AssignStmt E N) × ℕ) := do
  let (code, next) ← target.rewrite (.temp tmp) t
  pure (.temp tmp rhs :: code ++ [.delTemp tmp], next)

/-- The lowering of such a statement. -/
def AssignStmt.lower : AssignStmt E N → ℕ → List (Instr E N) × ℕ
  | .name n value, t => ([.storeName n value], t)
  | .attribute object attr value, t =>
    ([.bind t value, .bind (t + 1) (.object object), .setAttr (t + 1) attr (.temp t)], t + 2)
  | .subscript object slice value, t =>
    ([.bind t value, .bind (t + 1) (.object object), .bind (t + 2) (.source slice),
      .setItem (t + 1) (t + 2) (.temp t)], t + 3)
  | .temp u value, t => ([.bind u value], t)
  | .unpack u value spec, t => ([.bindUnpack u value spec], t)
  | .delTemp u, t => ([.delTemp u], t)

def lowerStmts : List (AssignStmt E N) → ℕ → List (Instr E N)
  | [], _ => []
  | stmt :: rest, t => (stmt.lower t).1 ++ lowerStmts rest (stmt.lower t).2

end Lowering

/-! ## Running instructions -/

/-- What assigning asks of the program. -/
structure Storing (E N V X σ : Type) extends Iterators V X σ where
  eval : E → Act X σ V
  object : E → Act X σ V
  store : N → V → Act X σ Unit
  setAttr : V → String → V → Act X σ Unit
  setItem : V → V → V → Act X σ Unit
  /-- A new list object. -/
  newList : List V → V
  /-- The error of a temporary that does not hold what the code takes from it. -/
  tempError : σ → X × σ

/-- What a temporary holds. -/
inductive TempValue (V : Type)
  | object (v : V)
  /-- The tuple that an unpacking gives. -/
  | unpacked (slots : List (Slot V))

abbrev Temps (V : Type) := ℕ → Option (TempValue V)

section Running

variable {E N V X σ : Type} (rt : Storing E N V X σ)

def raiseTempError {α : Type} : Act X σ α := fun s =>
  (.error (rt.tempError s).1, (rt.tempError s).2)

/-- The object of a slot. -/
def slotValue : Slot V → V
  | .item v => v
  | .rest vs => rt.newList vs

def Operand.eval (temps : Temps V) : Operand E → Act X σ V
  | .source e => rt.eval e
  | .object e => rt.object e
  | .temp t =>
    match temps t with
    | some (.object v) => pure v
    | _ => raiseTempError rt
  | .item t i =>
    match temps t with
    | some (.unpacked slots) =>
      match slots[i]? with
      | some slot => pure (slotValue rt slot)
      | none => raiseTempError rt
    | _ => raiseTempError rt
  | .listItem t i =>
    match temps t with
    | some (.unpacked slots) =>
      match slots[i]? with
      | some (.rest vs) => pure (rt.newList vs)
      | _ => raiseTempError rt
    | _ => raiseTempError rt

/-- The object in a temporary. -/
def readTemp (temps : Temps V) (t : ℕ) : Act X σ V := (Operand.temp t : Operand E).eval rt temps

def Instr.run (temps : Temps V) : Instr E N → Act X σ (Temps V)
  | .bind t value => do
    pure (Function.update temps t (some (.object (← value.eval rt temps))))
  | .bindUnpack t value spec => do
    pure (Function.update temps t
      (some (.unpacked (← unpack rt.toIterators (← value.eval rt temps) spec))))
  | .storeName n value => do
    rt.store n (← value.eval rt temps)
    pure temps
  | .setAttr object attr value => do
    rt.setAttr (← readTemp rt temps object) attr (← value.eval rt temps)
    pure temps
  | .setItem object index value => do
    rt.setItem (← readTemp rt temps object) (← readTemp rt temps index) (← value.eval rt temps)
    pure temps
  | .delTemp t => pure (Function.update temps t none)

def runInstrs : List (Instr E N) → Temps V → Act X σ (Temps V)
  | [], temps => pure temps
  | instr :: rest, temps => do runInstrs rest (← instr.run rt temps)

/-! ## What an assignment is -/

/-- The counts of the targets: those in front of the starred one, and those behind it. -/
def Elts.counts : Elts E N → ℕ × Option ℕ
  | .nil => (0, none)
  | .cons true _ rest => (0, some rest.length)
  | .cons false _ rest => (rest.counts.1 + 1, rest.counts.2)

mutual

/-- Assign a value: the object and the index of a target are evaluated just before the store. -/
def Target.assign : Target E N → V → Act X σ Unit
  | .name n, v => rt.store n v
  | .attribute object attr, v => do rt.setAttr (← rt.object object) attr v
  | .subscript object slice, v => do rt.setItem (← rt.object object) (← rt.eval slice) v
  | .unpack elts, v => do
    elts.assignAll (← unpackIterable rt.toIterators v elts.counts.1 elts.counts.2)

/-- Assign from left to right. -/
def Elts.assignAll : Elts E N → List (Slot V) → Act X σ Unit
  | .nil, _ => pure ()
  | .cons _ _ _, [] => raiseTempError rt
  | .cons _ target rest, slot :: slots => do
    target.assign (slotValue rt slot)
    rest.assignAll slots

end

end Running

end DietPython.Targets
