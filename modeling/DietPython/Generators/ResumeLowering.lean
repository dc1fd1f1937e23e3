import DietPython.Generators.YieldBlocks

/-!
# The resume function

Each block with yields becomes a chain of blocks without. A yield stores the number of its resume
point in `_dp_pc` and returns its value; the resume function starts with a dispatch over `_dp_pc`.
A returned expression is moved into a block of its own, which raises `StopIteration` and is in no
region.

Labels, resume points and temporaries are drawn from counters, in the order in which the code draws
them. The blocks of the callable keep their positions as labels.
-/

namespace DietPython.Generators

/-! ## Blocks of the resume function -/

/-- The value that a completion raises `StopIteration` with. -/
inductive Completion (L : Lang)
  | expr (x : L.Expr)
  /-- `_dp_send_value` -/
  | sendValue
  /-- `_dp_yield_from_value` -/
  | yieldFromValue
  | nothing

/-- A statement. Temporaries are numbered. -/
inductive ResumeStmt (L : Lang)
  | plain (s : L.Stmt)
  /-- `_dp_throw_context = ` the exception parameter, or `None`. -/
  | storeThrowContext (params : List (BlockParam L))
  /-- `_dp_throw_context = exc` -/
  | storeThrowContextTemp (exc : ℕ)
  /-- `_dp_pc = pc` -/
  | storePc (pc : ℕ)
  /-- `_dp_yieldfrom = None` -/
  | clearYieldfrom
  /-- `_dp_yieldfrom = iter(value)` -/
  | storeIter (value : L.Expr)
  /-- `t = next(_dp_yieldfrom)` -/
  | callNext (t : ℕ)
  /-- `t = _dp_yieldfrom.send(_dp_send_value)` -/
  | callSend (t : ℕ)
  /-- `t = getattr(_dp_yieldfrom, method, None)` -/
  | lookupMethod (t : ℕ) (method : Method)
  /-- `close()` -/
  | callClose (close : ℕ)
  /-- `t = throw(_dp_resume_exc)` -/
  | callThrow (t throw : ℕ)
  /-- `t = exc.value` -/
  | storeStopValue (t exc : ℕ)
  /-- `_dp_yield_from_value = t` -/
  | storeYieldFromValue (t : ℕ)
  /-- `x = _dp_send_value` -/
  | assignSendValue (x : L.Name)
  /-- `x = t` -/
  | assignTemp (x : L.Name) (t : ℕ)

inductive ResumeTerm (L : Lang)
  | jump (target : ℕ) (args : List (BlockArg L))
  /-- A jump without arguments. The parameters keep their values. -/
  | goto (target : ℕ)
  | ifTerm (test : L.Expr) (thenLabel elseLabel : ℕ)
  | branchTable (index : L.Expr) (targets : List ℕ) (default : ℕ)
  /-- Without an operand, the exception parameter is raised. -/
  | raiseTerm (params : List (BlockParam L)) (exc : Option L.Expr)
  /-- Return the value of a `yield`. -/
  | ret (value : Option L.Expr)
  | retTemp (t : ℕ)
  /-- `completion_raise` -/
  | complete (value : Completion L)
  /-- `raise _dp_resume_exc` -/
  | raiseResumeExc
  | raiseTemp (exc : ℕ)
  /-- `_dp_resume_exc is not NO_DEFAULT` -/
  | ifResumeExc (thenLabel elseLabel : ℕ)
  /-- `_dp_send_value is None` -/
  | ifSendNone (thenLabel elseLabel : ℕ)
  /-- `isinstance(_dp_resume_exc, GeneratorExit)` -/
  | ifGeneratorExit (thenLabel elseLabel : ℕ)
  /-- `t is None` -/
  | ifTempNone (t thenLabel elseLabel : ℕ)
  /-- `t is not None` -/
  | ifTempNotNone (t thenLabel elseLabel : ℕ)
  /-- `exception_matches(exc, StopIteration)` -/
  | ifStopIteration (exc thenLabel elseLabel : ℕ)
  /-- The dispatch over `_dp_pc`. -/
  | dispatch (targets : List ℕ) (default : ℕ)

structure ResumeBlock (L : Lang) where
  label : ℕ
  params : List (BlockParam L)
  /-- The temporary that is the exception parameter. -/
  caught : Option ℕ
  body : List (ResumeStmt L)
  term : ResumeTerm L
  exc : Option ℕ

/-! ## Lowering -/

structure ResumeLoweringState (L : Lang) where
  nextLabel : ℕ
  nextTemp : ℕ
  nextResumePc : ℕ
  blocks : List (ResumeBlock L)
  resumeTargets : List (ℕ × ℕ)

/-- `generator_resume_declared_params`: the roles that are kept are all the roles there are. -/
def generatorResumeDeclaredParams {L : Lang} (params : List (BlockParam L)) :
    List (BlockParam L) :=
  params.filter fun param => param.role = .exception ∨ param.role = .abruptKind ∨
    param.role = .abruptPayload

@[simp] theorem generatorResumeDeclaredParams_eq {L : Lang} (params : List (BlockParam L)) :
    generatorResumeDeclaredParams params = params := by
  unfold generatorResumeDeclaredParams
  rw [List.filter_eq_self]
  rintro ⟨_, role⟩ _
  cases role <;> rfl

/-- The exception parameter is taken out. -/
def withoutException {L : Lang} (params : List (BlockParam L)) : List (BlockParam L) :=
  params.filter fun param => param.role ≠ .exception

/-- A block as `push_block` leaves it. -/
def pushedBlock {L : Lang} (label : ℕ) (params : List (BlockParam L))
    (body : List (ResumeStmt L)) (term : ResumeTerm L) (exc : Option ℕ) : ResumeBlock L :=
  ⟨label, params, none, .storeThrowContext params :: body, term, exc⟩

/-- A block whose exception parameter is a temporary. -/
def pushedCatchBlock {L : Lang} (label : ℕ) (params : List (BlockParam L)) (caught : ℕ)
    (body : List (ResumeStmt L)) (term : ResumeTerm L) (exc : Option ℕ) : ResumeBlock L :=
  ⟨label, withoutException params, some caught,
    .storeThrowContextTemp caught :: body, term, exc⟩

namespace ResumeLoweringState

variable {L : Lang} (st : ResumeLoweringState L)

def push (blocks : List (ResumeBlock L)) : ResumeLoweringState L :=
  { st with blocks := st.blocks ++ blocks }

/-- `push_completion_raise_block`, with the label that it draws. -/
def pushCompletionRaiseBlock (label : ℕ) (body : List (ResumeStmt L)) (value : Completion L)
    (params : List (BlockParam L)) (exc : Option ℕ) : ResumeLoweringState L :=
  { st.push [pushedBlock label params body (.goto st.nextLabel) exc,
      pushedBlock st.nextLabel params [] (.complete value) none] with
    nextLabel := st.nextLabel + 1 }

end ResumeLoweringState

/-! ### A plain yield -/

/-- The labels of a yield: its resume point, `yield_throw` and `yield_continue`. -/
structure YieldSite where
  pc : ℕ
  label : ℕ

namespace YieldSite

variable (y : YieldSite) {L : Lang}

def throwLabel : ℕ := y.label + 1
def continueLabel : ℕ := y.label + 2

/-- `emit_resume_after_yield`, up to the continuation. -/
def blocks (params : List (BlockParam L)) (exc : Option ℕ) : List (ResumeBlock L) :=
  [pushedBlock y.label params [] (.ifResumeExc y.throwLabel y.continueLabel) exc,
    pushedBlock y.throwLabel params [] .raiseResumeExc exc]

end YieldSite

namespace ResumeLoweringState

variable {L : Lang} (st : ResumeLoweringState L)

def yieldSite : YieldSite := ⟨st.nextResumePc, st.nextLabel⟩

/-- `emit_yield_site` for a plain yield, up to the continuation. -/
def emitYield (label : ℕ) (body : List (ResumeStmt L)) (value : Option L.Expr)
    (params : List (BlockParam L)) (exc : Option ℕ) : ResumeLoweringState L :=
  { st.push (pushedBlock label params (body ++ [.storePc st.yieldSite.pc, .clearYieldfrom])
      (.ret value) exc :: st.yieldSite.blocks params exc) with
    nextLabel := st.nextLabel + 3
    nextResumePc := st.nextResumePc + 1
    resumeTargets := st.resumeTargets ++ [(st.yieldSite.pc, st.yieldSite.label)] }

end ResumeLoweringState

/-! ### A delegation -/

/-- The labels and temporaries of a delegation. -/
structure DelegateSite where
  pc : ℕ
  label : ℕ
  temp : ℕ

namespace DelegateSite

variable (d : DelegateSite) {L : Lang}

def sendDispatch : ℕ := d.label + 1
def excDispatch : ℕ := d.label + 2
def nextCall : ℕ := d.label + 3
def sendCall : ℕ := d.label + 4
def throwLookup : ℕ := d.label + 5
def throwCall : ℕ := d.label + 6
def closeLookup : ℕ := d.label + 7
def closeCall : ℕ := d.label + 8
def raiseResumeExc : ℕ := d.label + 9
def callExcept : ℕ := d.label + 10
def stopiter : ℕ := d.label + 11
def nonStopiter : ℕ := d.label + 12
def yielded : ℕ := d.label + 13
def done : ℕ := d.label + 14

def yieldedValue : ℕ := d.temp
def throwName : ℕ := d.temp + 1
def closeName : ℕ := d.temp + 2
def caughtExc : ℕ := d.temp + 3

/-- `explicit_jump_args_for_params`: every parameter is passed its own value. -/
def selfArgs (params : List (BlockParam L)) : List (BlockArg L) :=
  params.map fun param => .name param.name

/-- The blocks of `emit_yield_from_site` between the one that starts the delegation and the
continuation. -/
def blocks (params : List (BlockParam L)) (exc : Option ℕ) : List (ResumeBlock L) :=
  [pushedBlock d.label params [] (.ifResumeExc d.excDispatch d.sendDispatch) exc,
    pushedBlock d.sendDispatch params [] (.ifSendNone d.nextCall d.sendCall) exc,
    pushedBlock d.nextCall params [.callNext d.yieldedValue] (.goto d.yielded)
      (some d.callExcept),
    pushedBlock d.sendCall params [.callSend d.yieldedValue] (.goto d.yielded)
      (some d.callExcept),
    pushedBlock d.excDispatch params [] (.ifGeneratorExit d.closeLookup d.throwLookup) exc,
    pushedBlock d.closeLookup params [.lookupMethod d.closeName .close]
      (.ifTempNotNone d.closeName d.closeCall d.raiseResumeExc) exc,
    pushedBlock d.closeCall params [.callClose d.closeName] (.goto d.raiseResumeExc) exc,
    pushedBlock d.throwLookup params [.lookupMethod d.throwName .throw]
      (.ifTempNone d.throwName d.raiseResumeExc d.throwCall) exc,
    pushedBlock d.throwCall params [.callThrow d.yieldedValue d.throwName] (.goto d.yielded)
      (some d.callExcept),
    pushedCatchBlock d.callExcept params d.caughtExc []
      (.ifStopIteration d.caughtExc d.stopiter d.nonStopiter) exc,
    pushedCatchBlock d.stopiter params d.caughtExc [.storeStopValue d.yieldedValue d.caughtExc]
      (.jump d.done (selfArgs params)) exc,
    pushedCatchBlock d.nonStopiter params d.caughtExc [] (.raiseTemp d.caughtExc) exc,
    pushedBlock d.yielded params [.storePc d.pc] (.retTemp d.yieldedValue) exc,
    pushedBlock d.raiseResumeExc params [] .raiseResumeExc exc]

end DelegateSite

namespace ResumeLoweringState

variable {L : Lang} (st : ResumeLoweringState L)

def delegateSite : DelegateSite := ⟨st.nextResumePc, st.nextLabel, st.nextTemp⟩

/-- `emit_yield_from_site`, up to the continuation. -/
def emitYieldFrom (label : ℕ) (body : List (ResumeStmt L)) (value : L.Expr)
    (params : List (BlockParam L)) (exc : Option ℕ) : ResumeLoweringState L :=
  { st.push (pushedBlock label params
      (body ++ [.storeIter value, .storePc st.delegateSite.pc])
      (.goto st.delegateSite.label) exc :: st.delegateSite.blocks params exc) with
    nextLabel := st.nextLabel + 15
    nextTemp := st.nextTemp + 4
    nextResumePc := st.nextResumePc + 1
    resumeTargets := st.resumeTargets ++ [(st.delegateSite.pc, st.delegateSite.label)] }

end ResumeLoweringState

/-! ### Fragments -/

section Fragments

variable {n : ℕ} {L : Lang}

/-- What the continuation of a plain yield starts with. -/
def afterYield : Option L.Name → List (ResumeStmt L)
  | none => []
  | some x => [.assignSendValue x]

/-- What the continuation of a delegation starts with. -/
def afterYieldFrom (t : ℕ) : Option L.Name → List (ResumeStmt L)
  | none => [.clearYieldfrom]
  | some x => [.clearYieldfrom, .assignTemp x t]

/-- `lower_resume_fragment`, with the statements that have been passed. Awaits have been lowered. -/
def lowerResumeFragment (params : List (BlockParam L)) (exc : Option ℕ) :
    ResumeLoweringState L → ℕ → List (ResumeStmt L) → List (YieldStmt L) → YieldTerm n L →
      ResumeLoweringState L
  | st, label, front, .plain s :: body, term =>
    lowerResumeFragment params exc st label (front ++ [.plain s]) body term
  | st, label, front, .yieldValue x value :: body, term =>
    lowerResumeFragment params exc (st.emitYield label front value params exc)
      st.yieldSite.continueLabel (afterYield x) body term
  | st, label, front, .yieldFrom x value :: body, term =>
    lowerResumeFragment params exc (st.emitYieldFrom label front value.lowerAwait params exc)
      st.delegateSite.done (afterYieldFrom st.delegateSite.yieldedValue x) body term
  | st, label, front, [], .retYield value =>
    (st.emitYield label front value params exc).pushCompletionRaiseBlock
      st.yieldSite.continueLabel [] .sendValue params exc
  | st, label, front, [], .retYieldFrom value =>
    (st.emitYieldFrom label front value.lowerAwait params exc).pushCompletionRaiseBlock
      st.delegateSite.done [.clearYieldfrom, .storeYieldFromValue st.delegateSite.yieldedValue]
      .yieldFromValue params exc
  | st, label, front, [], .ret value =>
    st.pushCompletionRaiseBlock label front (.expr value) params exc
  | st, label, front, [], .jump l args =>
    st.push [pushedBlock label params front (.jump l args) exc]
  | st, label, front, [], .ifTerm test l l' =>
    st.push [pushedBlock label params front (.ifTerm test l l') exc]
  | st, label, front, [], .branchTable index ls l =>
    st.push [pushedBlock label params front (.branchTable index (ls.map Fin.val) l) exc]
  | st, label, front, [], .raiseTerm x =>
    st.push [pushedBlock label params front (.raiseTerm params x) exc]

end Fragments

/-! ### The function -/

section Function

variable {n : ℕ} {L : Lang}

/-- The loop over the blocks of the callable. -/
def lowerBlocks (p : YieldProgram n L) :
    List (Fin (n + 1)) → ResumeLoweringState L → ResumeLoweringState L
  | [], st => st
  | l :: ls, st =>
    lowerBlocks p ls (lowerResumeFragment (generatorResumeDeclaredParams (p l).params)
      ((p l).exc.map Fin.val) st l [] (p l).body (p l).term)

/-- The state before the loop. `exhausted_label` is drawn behind the labels of the callable, and
resume point 1 is the entry block. -/
def ResumeLoweringState.initial (n : ℕ) (L : Lang) : ResumeLoweringState L where
  nextLabel := n + 2
  nextTemp := 0
  nextResumePc := 2
  blocks := []
  resumeTargets := [(1, 0)]

def exhaustedLabel (n : ℕ) : ℕ := n + 1

def loweredState (p : YieldProgram n L) : ResumeLoweringState L :=
  lowerBlocks p (List.finRange (n + 1)) (.initial n L)

/-- The jump table of the dispatch. -/
def dispatchTargets (resumeTargets : List (ℕ × ℕ)) (exhausted : ℕ) : List ℕ :=
  resumeTargets.foldl (fun targets e => targets.set e.1 e.2)
    (List.replicate ((resumeTargets.map Prod.fst).foldl max 1 + 1) exhausted)

def dispatchLabel (p : YieldProgram n L) : ℕ := (loweredState p).nextLabel

/-- The jump table of the resume function. -/
abbrev jumpTable (p : YieldProgram n L) : List ℕ :=
  dispatchTargets (loweredState p).resumeTargets (exhaustedLabel n)

/-- `lower_resume_blocks`, the dispatch first. -/
def lowerResumeBlocks (p : YieldProgram n L) : List (ResumeBlock L) :=
  ⟨dispatchLabel p, [], none, [], .dispatch (jumpTable p) (exhaustedLabel n), none⟩ ::
    (loweredState p).blocks ++ [⟨exhaustedLabel n, [], none, [], .complete .nothing, none⟩]

end Function

end DietPython.Generators
