import DietPython.Blocks.Basic
import DietPython.ControlFlow.Statements

/-!
# Block graphs

The blocks that statement-sequence lowering builds, with their parameters and edges, and the
machine that runs them: one operation or one terminator at a time.

The parameters of a block are slots of the frame, by name. A `Jump` writes the parameters of its
target from the arguments that `populate_jump_edge_args` completes, an exception edge from those
of `populate_exception_edge_args`; the edges of `IfTerm` and `BranchTable` have no arguments and
leave the slots as they are. `current_exception()` and a bare `raise` in a block with an
exception parameter read that parameter's slot (`rewrite_current_exception_in_core_blocks`).

The blocks are those of a plain function. Generators and coroutines keep these slots in cells of
their frame, and edges write no cell.
-/

namespace DietPython.ControlFlow

open Blocks (BlockParamRole)
open Machines

/-- The names that `FunctionNameGen::next_tmp_name` makes up, by prefix and number. -/
inductive Name
  | iter (n : ℕ)
  | tmp (n : ℕ)
  | tryExc (n : ℕ)
  | tryAbruptKind (n : ℕ)
  | tryAbruptPayload (n : ℕ)
  deriving DecidableEq, Repr

inductive AbruptKind
  | fallthrough
  | ret
  | exception
  deriving DecidableEq, Repr

namespace AbruptKind

/-- The number that the dispatch of a `finally` branches on. -/
def index : AbruptKind → ℕ
  | fallthrough => 0
  | ret => 1
  | exception => 2

end AbruptKind

structure BlockParam where
  name : Name
  role : BlockParamRole
  deriving DecidableEq, Repr

inductive BlockArg
  | name (x : Name)
  | none
  | currentException
  | abruptKind (k : AbruptKind)
  deriving DecidableEq, Repr

structure BlockEdge where
  target : ℕ
  args : List BlockArg
  deriving DecidableEq, Repr

/-- The operand of a `Return`. -/
inductive ReturnValue (E : Type)
  | implicitNone
  | expr (e : E)
  | name (x : Name)
  deriving DecidableEq, Repr

inductive RaiseValue (E : Type)
  | bare
  | expr (e : E)
  | name (x : Name)
  deriving DecidableEq, Repr

inductive Test (E : Type)
  | expr (e : E)
  /-- `tmp is __soac__.ITER_COMPLETE`. -/
  | iterComplete (tmp : Name)
  deriving DecidableEq, Repr

/-- A statement in the body of a block. -/
inductive Op (E T : Type)
  | simple (e : E)
  /-- `iter = __soac__.iter(e)`, or `aiter`. -/
  | storeIter (iter : Name) (isAsync : Bool) (e : E)
  /-- `tmp = __soac__.next_or_sentinel(iter)`, or `await .. anext_or_sentinel`. -/
  | storeNext (tmp iter : Name) (isAsync : Bool)
  /-- The assignments of `build_for_target_assign_body`. -/
  | assignTarget (target : T) (tmp : Name)
  /-- `payload = value` in front of the jump to a `finally` body. -/
  | storePayload (payload : Name) (value : ReturnValue E)
  deriving DecidableEq, Repr

inductive BlockTerm (E : Type)
  | jump (edge : BlockEdge)
  | ifTerm (test : Test E) (thenLabel elseLabel : ℕ)
  | branchTable (index : Name) (targets : List ℕ) (defaultLabel : ℕ)
  | raiseTerm (exc : RaiseValue E)
  | returnTerm (value : ReturnValue E)
  deriving DecidableEq, Repr

structure Block (E T : Type) where
  label : ℕ
  body : List (Op E T)
  term : BlockTerm E
  params : List BlockParam
  excEdge : Option ℕ
  deriving DecidableEq, Repr

namespace Block

variable {E T : Type}

def exceptionParam (b : Block E T) : Option Name :=
  (b.params.find? fun p => p.role == .exception).map (·.name)

def hasParam (b : Block E T) (x : Name) : Bool := b.params.any fun p => p.name == x

/-- `ensure_param`. -/
def ensureParam (b : Block E T) (x : Name) (role : BlockParamRole) : Block E T :=
  if b.hasParam x then b else { b with params := b.params ++ [⟨x, role⟩] }

/-- `set_exception_param`: the parameter replaces one of another name. -/
def setExceptionParam (b : Block E T) (x : Name) : Block E T :=
  let kept := b.params.filter fun p => p.role != .exception || p.name == x
  { b with
    params :=
      if kept.any fun p => p.name == x then
        kept.map fun p => if p.name = x then ⟨x, .exception⟩ else p
      else kept ++ [⟨x, .exception⟩] }

/-- `bb_params`: the parameters by role. -/
def bbParams (b : Block E T) : List BlockParam :=
  b.params.filter (·.role == .exception) ++ b.params.filter (·.role == .abruptKind) ++
    b.params.filter (·.role == .abruptPayload)

end Block

/-! ## The arguments of edges -/

variable {E T V X St : Type}

/-- The argument that `populate_jump_edge_args` gives a parameter without an explicit one: the
source's parameter of the same name, or of the same role, or `None`. -/
def implicitArg (source : Block E T) (param : BlockParam) : BlockArg :=
  if source.hasParam param.name then .name param.name
  else
    match source.bbParams.find? fun p => p.role == param.role with
    | some p => .name p.name
    | none => .none

/-- `populate_jump_edge_args`: the explicit arguments stand at the end. -/
def jumpArgs (source target : Block E T) (explicit : List BlockArg) :
    List (BlockParam × BlockArg) :=
  let params := target.bbParams
  let start := params.length - explicit.length
  params.mapIdx fun i param =>
    (param, if start ≤ i then explicit.getD (i - start) .none else implicitArg source param)

/-- The names that the jump of an exception entry passes on as exceptions. -/
def currentExceptionAliases (target : Block E T) : List Name :=
  match target.term with
  | .jump edge => edge.args.filterMap fun
      | .name (.tryExc n) => some (.tryExc n)
      | _ => none
  | _ => []

/-- `populate_exception_edge_args`. -/
def exceptionArgs (source target : Block E T) : List (BlockParam × BlockArg) :=
  target.bbParams.map fun param =>
    (param,
      if target.exceptionParam = some param.name then .currentException
      else if param.name ∈ currentExceptionAliases target then .currentException
      else if source.hasParam param.name then .name param.name
      else .none)

/-! ## Running a graph -/

/-- What a slot of the frame holds. -/
inductive Slot (V X : Type)
  | unbound
  | obj (v : V)
  | exc (x : X)
  | kind (k : AbruptKind)
  | iterComplete
  deriving DecidableEq

namespace Slot

def exception? : Slot V X → Option X
  | exc x => some x
  | _ => none

end Slot

/-- The state of a frame. -/
structure Frame (V X St : Type) where
  user : St
  slots : Name → Slot V X

namespace Frame

def set (s : Frame V X St) (x : Name) (v : Slot V X) : Frame V X St :=
  { s with slots := Function.update s.slots x v }

end Frame

/-- The blocks of a callable, and the label behind its last statement. -/
structure Graph (E T : Type) where
  blocks : List (Block E T)
  exit : ℕ

def Graph.find (g : Graph E T) (label : ℕ) : Option (Block E T) :=
  g.blocks.find? fun b => b.label == label

/-- Where a run of a graph stands: in front of a block, inside one with the operations left, or
on its way out of the callable. -/
inductive Place (E T V X St : Type)
  | goto (label : ℕ) (s : Frame V X St)
  | inside (block : Block E T) (ops : List (Op E T)) (s : Frame V X St)
  | leave (outcome : Outcome V X St)

section Run

variable (rt : Runtime E T V X St)

/-- What an argument stands for; `thrown` is the exception that travels along an exception edge. -/
def argValue (s : Frame V X St) (thrown : Option X) : BlockArg → Slot V X
  | .name x => s.slots x
  | .none => .obj rt.noneValue
  | .currentException => (thrown.map Slot.exc).getD (.obj rt.noneValue)
  | .abruptKind k => .kind k

/-- Write the parameters of a block, all from the state in front of the edge. -/
def bindArgs (s : Frame V X St) (thrown : Option X) (args : List (BlockParam × BlockArg)) :
    Frame V X St :=
  { s with
    slots := fun x =>
      match args.find? fun pa => pa.1.name == x with
      | some pa => argValue rt s thrown pa.2
      | none => s.slots x }

/-- The exception that `current_exception()` finds in a block. -/
def currentIn (b : Block E T) (s : Frame V X St) : Option X :=
  b.exceptionParam.bind fun x => (s.slots x).exception?

variable (g : Graph E T)

/-- An exception leaves a block along its exception edge, or the callable. -/
def throwFrom (b : Block E T) (x : X) (s : Frame V X St) : Place E T V X St :=
  match b.excEdge with
  | none => .leave (.raised x s.user)
  | some handler =>
    match g.find handler with
    | none => .leave .stuck
    | some target => .goto handler (bindArgs rt s (some x) (exceptionArgs b target))

def jumpFrom (b : Block E T) (edge : BlockEdge) (s : Frame V X St) : Place E T V X St :=
  match g.find edge.target with
  | none => .goto edge.target s
  | some target => .goto edge.target (bindArgs rt s none (jumpArgs b target edge.args))

/-- The value of a `Return` operand. -/
def returnValue (b : Block E T) (s : Frame V X St) : ReturnValue E → Except X V × St
  | .implicitNone => (.ok rt.noneValue, s.user)
  | .expr e => rt.eval e (rt.given e (currentIn b s)) s.user
  | .name x =>
    match s.slots x with
    | .obj v => (.ok v, s.user)
    | _ => let (x, u) := rt.slotError s.user; (.error x, u)

/-- The exception that a `Raise` raises. -/
def raisedValue (b : Block E T) (s : Frame V X St) : RaiseValue E → X × St
  | .bare =>
    match b.exceptionParam with
    | none => rt.noActiveException s.user
    | some x =>
      match s.slots x with
      | .exc e => (e, s.user)
      | .obj v => rt.raiseValue v s.user
      | _ => rt.slotError s.user
  | .expr e =>
    match rt.eval e (rt.given e (currentIn b s)) s.user with
    | (.ok v, u) => rt.raiseValue v u
    | (.error x, u) => (x, u)
  | .name x =>
    match s.slots x with
    | .exc e => (e, s.user)
    | .obj v => rt.raiseValue v s.user
    | _ => rt.slotError s.user

def runOp (b : Block E T) (s : Frame V X St) : Op E T → Except (X × St) (Frame V X St)
  | .simple e =>
    match rt.eval e (rt.given e (currentIn b s)) s.user with
    | (.ok _, u) => .ok { s with user := u }
    | (.error x, u) => .error (x, u)
  | .storeIter iter isAsync e =>
    match rt.eval e (rt.given e (currentIn b s)) s.user with
    | (.ok v, u) =>
      match rt.iter isAsync v u with
      | (.ok it, u) => .ok (({ s with user := u } : Frame V X St).set iter (.obj it))
      | (.error x, u) => .error (x, u)
    | (.error x, u) => .error (x, u)
  | .storeNext tmp iter isAsync =>
    match s.slots iter with
    | .obj it =>
      match rt.next isAsync it s.user with
      | (.ok (some v), u) => .ok (({ s with user := u } : Frame V X St).set tmp (.obj v))
      | (.ok none, u) => .ok (({ s with user := u } : Frame V X St).set tmp .iterComplete)
      | (.error x, u) => .error (x, u)
    | _ => .error (rt.slotError s.user)
  | .assignTarget target tmp =>
    match s.slots tmp with
    | .obj v =>
      match rt.assign target v s.user with
      | (.ok (), u) => .ok (({ s with user := u } : Frame V X St).set tmp .unbound)
      | (.error x, u) => .error (x, u)
    | _ => .error (rt.slotError s.user)
  | .storePayload payload value =>
    match returnValue rt b s value with
    | (.ok v, u) => .ok (({ s with user := u } : Frame V X St).set payload (.obj v))
    | (.error x, u) => .error (x, u)

def runTerm (b : Block E T) (s : Frame V X St) : BlockTerm E → Place E T V X St
  | .jump edge => jumpFrom rt g b edge s
  | .ifTerm (.expr e) thenLabel elseLabel =>
    match rt.test e (rt.given e (currentIn b s)) s.user with
    | (.ok c, u) => .goto (if c then thenLabel else elseLabel) { s with user := u }
    | (.error x, u) => throwFrom rt g b x { s with user := u }
  | .ifTerm (.iterComplete tmp) thenLabel elseLabel =>
    match s.slots tmp with
    | .iterComplete => .goto thenLabel s
    | _ => .goto elseLabel s
  | .branchTable index targets defaultLabel =>
    match s.slots index with
    | .kind k => .goto (targets.getD k.index defaultLabel) s
    | _ => let (x, u) := rt.slotError s.user; throwFrom rt g b x { s with user := u }
  | .raiseTerm exc =>
    let (x, u) := raisedValue rt b s exc
    throwFrom rt g b x { s with user := u }
  | .returnTerm value =>
    match returnValue rt b s value with
    | (.ok v, u) => .leave (.returned v u)
    | (.error x, u) => throwFrom rt g b x { s with user := u }

/-- One step of a graph. -/
def graphStep : Place E T V X St → Place E T V X St ⊕ Outcome V X St
  | .goto label s =>
    match g.find label with
    | some b => .inl (.inside b b.body s)
    | none => if label = g.exit then .inr (.fellThrough s.user) else .inr .stuck
  | .inside b (op :: ops) s =>
    match runOp rt b s op with
    | .ok s' => .inl (.inside b ops s')
    | .error (x, u) => .inl (throwFrom rt g b x { s with user := u })
  | .inside b [] s => .inl (runTerm rt g b s b.term)
  | .leave outcome => .inr outcome

/-- The machine that runs a graph. -/
def blocks : Machine (Place E T V X St) (Outcome V X St) := ⟨graphStep rt g⟩

end Run

end DietPython.ControlFlow
