import DietPython.ControlFlow.Graph

/-!
# Lowering statement sequences

`lower_stmt_sequence_with_state` and what it calls: a sequence is lowered from its end, so the
statements behind a control statement are lowered before it and their entry label is where the
control statement continues. The simple statements in front of a control statement travel along
as the linear prefix.

The rewritings that `finalize_try_regions` and `lower_try_regions` make on the blocks of a region
once it is lowered are kept as data (`Pass`), so that later modules can speak about the blocks
that a graph holds in the end: a block as it was pushed, and the passes made on it since.
-/

namespace DietPython.ControlFlow

variable {E T : Type}

/-! ## Generated names, targets, results -/

/-- The counters of `FunctionNameGen`. -/
structure Gen where
  label : ℕ
  tmp : ℕ

structure LoopLabels where
  breakLabel : ℕ
  continueLabel : ℕ

structure RegionTargets where
  normalCont : ℕ
  loopLabels : Option LoopLabels
  activeExc : Option ℕ

namespace RegionTargets

def nested (t : RegionTargets) (normalCont : ℕ) : RegionTargets :=
  ⟨normalCont, t.loopLabels, t.activeExc⟩

def nestedWithLoop (t : RegionTargets) (normalCont : ℕ) (loopLabels : LoopLabels) :
    RegionTargets :=
  ⟨normalCont, some loopLabels, t.activeExc⟩

end RegionTargets

/-- The entry label of a lowered sequence, the blocks it pushed, and the counters after it. -/
structure Lowered (E T : Type) where
  entry : ℕ
  blocks : List (Block E T)
  gen : Gen

/-- Lower a sequence behind a linear prefix. -/
abbrev Lower (E T : Type) := List (Op E T) → RegionTargets → Gen → Lowered E T

/-! ## Blocks -/

/-- `emit_sequence_jump_block`. -/
def sequenceJumpBlock (label : ℕ) (linear : List (Op E T)) (target : ℕ) (exc : Option ℕ) :
    Block E T :=
  ⟨label, linear, .jump ⟨target, []⟩, [], exc⟩

def sequenceReturnBlock (label : ℕ) (linear : List (Op E T)) (value : Option E)
    (exc : Option ℕ) : Block E T :=
  ⟨label, linear, .returnTerm (value.elim .implicitNone .expr), [], exc⟩

def sequenceRaiseBlock (label : ℕ) (linear : List (Op E T)) (value : Option E)
    (exc : Option ℕ) : Block E T :=
  ⟨label, linear, .raiseTerm (value.elim .bare .expr), [], exc⟩

def ifBranchBlock (label : ℕ) (linear : List (Op E T)) (test : Test E) (thenLabel elseLabel : ℕ)
    (exc : Option ℕ) : Block E T :=
  ⟨label, linear, .ifTerm test thenLabel elseLabel, [], exc⟩

/-! ## Passes over the blocks of a region -/

/-- `rewrite_region_returns_to_finally_blockpy`, at one block. -/
def rewriteReturnToFinally (finallyTarget : ℕ) (payload : Name) (b : Block E T) : Block E T :=
  match b.term with
  | .returnTerm value =>
    { b with
      body := b.body ++ [.storePayload payload value]
      term := .jump ⟨finallyTarget, [.abruptKind .ret, .name payload]⟩ }
  | _ => b

/-- The parameters that the entry of a `finally` body is given. -/
def addFinallyParams (finallyLabel : ℕ) (kind payload : Name) (b : Block E T) : Block E T :=
  if b.label = finallyLabel then
    (b.ensureParam kind .abruptKind).ensureParam payload .abruptPayload
  else b

/-- `rewrite_edge_args`. -/
def renameArg (old new : Name) : BlockArg → BlockArg
  | .name x => .name (if x = old then new else x)
  | arg => arg

/-- `rename_exception_edge_args`. The exception edge has no arguments yet. -/
def renameExceptionEdgeArgs (b : Block E T) (old new : Name) : Block E T :=
  match b.term with
  | .jump edge => { b with term := .jump ⟨edge.target, edge.args.map (renameArg old new)⟩ }
  | _ => b

/-- `set_region_exc_param`, at one block. -/
def setRegionExcParam (x : Name) (b : Block E T) : Block E T :=
  match b.exceptionParam with
  | none => b.setExceptionParam x
  | some old =>
    if old = x then b.setExceptionParam x
    else renameExceptionEdgeArgs (b.setExceptionParam x) old x

inductive Pass
  | returnsToFinally (finallyTarget : ℕ) (payload : Name)
  | finallyParams (finallyLabel : ℕ) (kind payload : Name)
  | regionExcParam (x : Name)

def Pass.apply : Pass → Block E T → Block E T
  | returnsToFinally finallyTarget payload => rewriteReturnToFinally finallyTarget payload
  | finallyParams finallyLabel kind payload => addFinallyParams finallyLabel kind payload
  | regionExcParam x => setRegionExcParam x

def applyPass (p : Pass) (blocks : List (Block E T)) : List (Block E T) := blocks.map p.apply

/-! ## `try` -/

/-- What `build_try_plan` reserves for a `finally` body. -/
structure FinallyPlan where
  abruptKind : Name
  abruptPayload : Name
  dispatchLabel : ℕ
  returnLabel : ℕ
  raiseLabel : ℕ

/-- `except_exc_name` of `build_try_plan`, the first name it makes up. -/
def exceptExcName (g : Gen) : Name := .tryExc g.tmp

/-- The rest of `build_try_plan`, when there is a `finally` body. -/
def finallyPlan (g : Gen) : FinallyPlan where
  abruptKind := .tryAbruptKind (g.tmp + 1)
  abruptPayload := .tryAbruptPayload (g.tmp + 2)
  dispatchLabel := g.label
  returnLabel := g.label + 1
  raiseLabel := g.label + 2

/-- `emit_finally_abrupt_dispatch_blocks`. -/
def finallyDispatchBlocks (plan : FinallyPlan) (restEntry : ℕ) (exc : Option ℕ) :
    List (Block E T) :=
  [⟨plan.returnLabel, [], .returnTerm (.name plan.abruptPayload), [], exc⟩,
    ⟨plan.raiseLabel, [], .raiseTerm (.name plan.abruptPayload), [], exc⟩,
    ⟨plan.dispatchLabel, [],
      .branchTable plan.abruptKind [restEntry, plan.returnLabel, plan.raiseLabel] restEntry, [],
      exc⟩]

/-- The block that enters a `finally` body when nothing is pending. -/
def finallyNormalEntry (label finallyLabel : ℕ) (exc : Option ℕ) : Block E T :=
  ⟨label, [], .jump ⟨finallyLabel, [.abruptKind .fallthrough, .none]⟩, [], exc⟩

/-- The block that enters a `finally` body with an exception. -/
def finallyExceptionEntry (label finallyLabel : ℕ) (excName : Name) (exc : Option ℕ) :
    Block E T :=
  ⟨label, [], .jump ⟨finallyLabel, [.abruptKind .exception, .name excName]⟩,
    [⟨excName, .exception⟩], exc⟩

/-- The `finally` part of `lower_try_regions`, with `set_region_exc_param` of its region: the
labels of its entries, and the blocks of the body and the entries. -/
structure FinallyRegion (E T : Type) where
  finallyLabel : ℕ
  normalEntry : ℕ
  exceptionEntry : ℕ
  blocks : List (Block E T)
  gen : Gen

def lowerFinallyRegion (finalbody : Lower E T) (excName : Name) (plan : FinallyPlan)
    (t : RegionTargets) (g : Gen) : FinallyRegion E T :=
  let f := finalbody [] (t.nested plan.dispatchLabel) g
  { finallyLabel := f.entry
    normalEntry := f.gen.label
    exceptionEntry := f.gen.label + 1
    blocks :=
      applyPass (.regionExcParam excName)
          (applyPass (.finallyParams f.entry plan.abruptKind plan.abruptPayload) f.blocks) ++
        ([finallyNormalEntry f.gen.label f.entry t.activeExc] ++
          [finallyExceptionEntry (f.gen.label + 1) f.entry excName t.activeExc])
    gen := ⟨f.gen.label + 2, f.gen.tmp⟩ }

/-- `rewrite_region_returns_to_finally_blockpy` of `finalize_try_regions`, when there is a
`finally` body. -/
def returnsTo (finallyTarget : Option (ℕ × Name)) (blocks : List (Block E T)) :
    List (Block E T) :=
  match finallyTarget with
  | none => blocks
  | some (label, payload) => applyPass (.returnsToFinally label payload) blocks

/-- The `else`, `except` and body parts of `lower_try_regions` with `finalize_try_regions`.
`cleanup` is where the regions continue, `cleanupExc` where their exceptions go. -/
def lowerTryBodies (body orelse : Lower E T) (handler : Option (Lower E T)) (excName : Name)
    (finallyTarget : Option (ℕ × Name)) (cleanup : ℕ) (cleanupExc : Option ℕ)
    (t : RegionTargets) (g : Gen) : Lowered E T :=
  let o := orelse [] ⟨cleanup, t.loopLabels, cleanupExc⟩ g
  match handler with
  | some handler =>
    let h := handler [] ⟨cleanup, t.loopLabels, cleanupExc⟩ o.gen
    let b := body [] ⟨o.entry, t.loopLabels, some h.entry⟩ h.gen
    ⟨b.entry,
      returnsTo finallyTarget o.blocks ++
        applyPass (.regionExcParam excName) (returnsTo finallyTarget h.blocks) ++
        returnsTo finallyTarget b.blocks,
      b.gen⟩
  | none =>
    let b := body [] ⟨o.entry, t.loopLabels, cleanupExc⟩ o.gen
    ⟨b.entry, returnsTo finallyTarget o.blocks ++ returnsTo finallyTarget b.blocks, b.gen⟩

/-- `lower_try_stmt_sequence` without a `finally` body. -/
def lowerTryExcept (body orelse : Lower E T) (handler : Option (Lower E T)) (rest : Lower E T) :
    Lower E T := fun linear t g =>
  let label := g.label
  let r := rest [] t ⟨g.label + 1, g.tmp + 1⟩
  let b := lowerTryBodies body orelse handler (exceptExcName g) none r.entry t.activeExc t r.gen
  ⟨label, r.blocks ++ b.blocks ++ [sequenceJumpBlock label linear b.entry t.activeExc], b.gen⟩

/-- `lower_try_stmt_sequence` with a `finally` body. -/
def lowerTryFinally (body orelse : Lower E T) (handler : Option (Lower E T))
    (finalbody rest : Lower E T) : Lower E T := fun linear t g =>
  let plan := finallyPlan g
  let label := g.label + 3
  let r := rest [] t ⟨g.label + 4, g.tmp + 3⟩
  let f := lowerFinallyRegion finalbody (exceptExcName g) plan t r.gen
  let b := lowerTryBodies body orelse handler (exceptExcName g)
    (some (f.finallyLabel, plan.abruptPayload)) f.normalEntry (some f.exceptionEntry) t f.gen
  ⟨label,
    r.blocks ++ f.blocks ++ finallyDispatchBlocks plan r.entry t.activeExc ++ b.blocks ++
      [sequenceJumpBlock label linear b.entry t.activeExc],
    b.gen⟩

/-! ## Branches and loops -/

/-- `lower_if_stmt_sequence_from_stmt`. -/
def lowerIf (test : E) (body orelse rest : Lower E T) : Lower E T := fun linear t g =>
  let label := g.label
  let r := rest [] t ⟨g.label + 1, g.tmp⟩
  let b := body [] (t.nested r.entry) r.gen
  let o := orelse [] (t.nested r.entry) b.gen
  ⟨label,
    r.blocks ++ b.blocks ++ o.blocks ++
      [ifBranchBlock label linear (.expr test) b.entry o.entry t.activeExc],
    o.gen⟩

/-- `lower_while_stmt_sequence` and `emit_simple_while_blocks`. -/
def lowerWhile (test : E) (body orelse rest : Lower E T) : Lower E T := fun linear t g =>
  let testLabel := g.label
  let linearLabel := g.label + 1
  let r := rest [] t ⟨if linear.isEmpty then g.label + 1 else g.label + 2, g.tmp⟩
  let o := orelse [] (t.nested r.entry) r.gen
  let b := body [] (t.nestedWithLoop testLabel ⟨r.entry, testLabel⟩) o.gen
  let blocks := r.blocks ++ o.blocks ++ b.blocks ++
    [ifBranchBlock testLabel [] (.expr test) b.entry o.entry t.activeExc]
  if linear.isEmpty then ⟨testLabel, blocks, b.gen⟩
  else ⟨linearLabel, blocks ++ [sequenceJumpBlock linearLabel linear testLabel t.activeExc], b.gen⟩

/-- `lower_for_stmt_sequence` and `emit_for_loop_blocks`. -/
def lowerFor (isAsync : Bool) (target : T) (iterable : E) (body orelse rest : Lower E T) :
    Lower E T := fun linear t g =>
  let iterName := Name.iter g.tmp
  let tmpName := Name.tmp (g.tmp + 1)
  let checkLabel := g.label
  let assignLabel := g.label + 1
  let setupLabel := g.label + 2
  let r := rest [] t ⟨g.label + 3, g.tmp + 2⟩
  let o := orelse [] (t.nested r.entry) r.gen
  let b := body [] (t.nestedWithLoop checkLabel ⟨r.entry, checkLabel⟩) o.gen
  ⟨setupLabel,
    r.blocks ++ o.blocks ++ b.blocks ++
      [sequenceJumpBlock assignLabel [.assignTarget target tmpName] b.entry t.activeExc,
        ifBranchBlock checkLabel [.storeNext tmpName iterName isAsync] (.iterComplete tmpName)
          o.entry assignLabel t.activeExc,
        sequenceJumpBlock setupLabel (linear ++ [.storeIter iterName isAsync iterable]) checkLabel
          t.activeExc],
    b.gen⟩

/-- `break` and `continue`; outside a loop the sequence is dropped. -/
def lowerLoopJump (label : LoopLabels → ℕ) : Lower E T := fun linear t g =>
  match t.loopLabels with
  | some loopLabels =>
    ⟨g.label, [sequenceJumpBlock g.label linear (label loopLabels) t.activeExc],
      ⟨g.label + 1, g.tmp⟩⟩
  | none => ⟨t.normalCont, [], g⟩

/-- The end of a sequence: `Exhausted`, or a sequence without statements. -/
def lowerEnd : Lower E T := fun linear t g =>
  if linear.isEmpty then ⟨t.normalCont, [], g⟩
  else
    ⟨g.label, [sequenceJumpBlock g.label linear t.normalCont t.activeExc],
      ⟨g.label + 1, g.tmp⟩⟩

/-- `lower_expanded_stmt_sequence`: the prefix gets a block of its own. -/
def lowerExpanded (lower : Lower E T) : Lower E T := fun linear t g =>
  if linear.isEmpty then lower [] t g
  else
    let r := lower [] t ⟨g.label + 1, g.tmp⟩
    ⟨g.label, r.blocks ++ [sequenceJumpBlock g.label linear r.entry t.activeExc], r.gen⟩

/-! ## Sequences -/

mutual

/-- Lower the first statement of a sequence, given how the rest is lowered. -/
def lowerHead : {l : Bool} → Stmt E T l → Lower E T → Lower E T
  | _, .simple e, rest => fun linear t g => rest (linear ++ [.simple e]) t g
  | _, .raiseStmt exc, _ => fun linear t g =>
    ⟨g.label, [sequenceRaiseBlock g.label linear exc t.activeExc], ⟨g.label + 1, g.tmp⟩⟩
  | _, .returnStmt value, _ => fun linear t g =>
    ⟨g.label, [sequenceReturnBlock g.label linear value t.activeExc], ⟨g.label + 1, g.tmp⟩⟩
  | _, .ifStmt test body orelse, rest => lowerIf test (lowerStmts body) (lowerStmts orelse) rest
  | _, .whileStmt test body orelse, rest =>
    lowerWhile test (lowerStmts body) (lowerStmts orelse) rest
  | _, .forStmt isAsync target iterable body orelse, rest =>
    lowerFor isAsync target iterable (lowerStmts body) (lowerStmts orelse) rest
  | _, .breakStmt, _ => lowerLoopJump (·.breakLabel)
  | _, .continueStmt, _ => lowerLoopJump (·.continueLabel)
  | _, .tryExcept body first more orelse finalbody, rest =>
    let handler := some (lowerHead first (lowerStmts more))
    if finalbody.length = 0 then
      lowerTryExcept (lowerStmts body) (lowerStmts orelse) handler rest
    else
      lowerTryFinally (lowerStmts body) (lowerStmts orelse) handler (lowerStmts finalbody) rest
  | _, .tryFinally body first more, rest =>
    lowerTryFinally (lowerStmts body) lowerEnd none (lowerHead first (lowerStmts more)) rest

/-- `lower_stmt_sequence_with_state`. -/
def lowerStmts : {l : Bool} → Stmts E T l → Lower E T
  | _, .nil => lowerEnd
  | _, .cons false stmt rest => lowerHead stmt (lowerStmts rest)
  | _, .cons true stmt rest => lowerExpanded (lowerHead stmt (lowerStmts rest))

end

/-- A callable's body: label `0` is behind its last statement. -/
def lowerCallable (body : Stmts E T false) : Lowered E T :=
  lowerStmts body [] ⟨0, none, none⟩ ⟨1, 0⟩

/-- The graph of a callable's body. -/
def graphOf (body : Stmts E T false) : Graph E T := ⟨(lowerCallable body).blocks, 0⟩

/-- A graph in front of its first block, with no slot set. -/
def enter {V X St : Type} (body : Stmts E T false) (user : St) : Place E T V X St :=
  .goto (lowerCallable body).entry ⟨user, fun _ => .unbound⟩

end DietPython.ControlFlow
