import DietPython.Generators.ResumeLowering

/-!
# Running the resume function

A call of the resume function starts with the dispatch. The store, `_dp_pc`, `_dp_yieldfrom` and
`_dp_throw_context` are cells that outlive the call. The arguments, the temporaries and the stack
slots do not.
-/

namespace DietPython.Generators

open Machines

/-- What outlives a call. -/
structure ResumeCells (σ V : Type) where
  store : σ
  pc : ℕ
  yieldfrom : V
  throwContext : V

structure ResumeFrame (σ K V E : Type) extends ResumeCells σ V where
  slots : K
  sendValue : V
  /-- `_dp_resume_exc`, unless it is `NO_DEFAULT`. -/
  resumeExc : Option E
  temps : ℕ → Option V
  caught : ℕ → Option E
  yieldFromValue : Option V

namespace ResumeFrame

variable {σ K V E : Type} (f : ResumeFrame σ K V E)

def setStore (s : σ) : ResumeFrame σ K V E := { f with store := s }

def setSlots (slots : K) : ResumeFrame σ K V E := { f with slots := slots }

def setTemp (t : ℕ) (v : V) : ResumeFrame σ K V E :=
  { f with temps := Function.update f.temps t (some v) }

def setCaught (t : ℕ) (e : E) : ResumeFrame σ K V E :=
  { f with caught := Function.update f.caught t (some e) }

end ResumeFrame

section States

variable (L : Lang) (σ K V E : Type)

structure ResumeState where
  body : List (ResumeStmt L)
  term : ResumeTerm L
  exc : Option ℕ
  frame : ResumeFrame σ K V E

inductive ResumeResult
  /-- The frame ends with the call. -/
  | returned (value : V) (frame : ResumeFrame σ K V E)
  | raised (exc : E) (cells : ResumeCells σ V)
  /-- A block that does not exist. -/
  | stuck

end States

section Step

variable {L : Lang} {σ K V E : Type} [DecidableEq V]
variable (rt : YieldRuntime L σ K V E) (g : List (ResumeBlock L))

/-- The block with a label. -/
def blockAt (g : List (ResumeBlock L)) (label : ℕ) : Option (ResumeBlock L) :=
  g.find? fun b => b.label == label

def gotoBlock (label : ℕ) (f : ResumeFrame σ K V E) :
    ResumeState L σ K V E ⊕ ResumeResult σ K V E :=
  match blockAt g label with
  | some b => .inl ⟨b.body, b.term, b.exc, f⟩
  | none => .inr .stuck

/-- The parameters of a `finally` body are read from their cells, which a jump does not write. -/
def jumpBlock (label : ℕ) (args : List (BlockArg L)) (f : ResumeFrame σ K V E) :
    ResumeState L σ K V E ⊕ ResumeResult σ K V E :=
  match blockAt g label with
  | some b => .inl ⟨b.body, b.term, b.exc, f.setSlots (rt.passArgs b.params args f.slots f.store)⟩
  | none => .inr .stuck

/-- An exception goes along the exception edge, or leaves the function. -/
def throwTo (exc : Option ℕ) (e : E) (f : ResumeFrame σ K V E) :
    ResumeState L σ K V E ⊕ ResumeResult σ K V E :=
  match exc with
  | none => .inr (.raised e f.toResumeCells)
  | some h =>
    match blockAt g h with
    | some b =>
      match b.caught with
      | none => .inl ⟨b.body, b.term, b.exc, f.setSlots (rt.catchExc b.params e f.slots)⟩
      | some t => .inl ⟨b.body, b.term, b.exc, f.setCaught t e⟩
    | none => .inr .stuck

/-- Go on with the result of an effect. -/
def thenDo {α : Type} (exc : Option ℕ) (f : ResumeFrame σ K V E) (r : σ × Except E α)
    (next : α → ResumeFrame σ K V E → ResumeState L σ K V E ⊕ ResumeResult σ K V E) :
    ResumeState L σ K V E ⊕ ResumeResult σ K V E :=
  match r.2 with
  | .ok a => next a (f.setStore r.1)
  | .error e => throwTo rt g exc e (f.setStore r.1)

/-- Go on with the value of a local, which may not have one. -/
def readLocal {α : Type} (exc : Option ℕ) (f : ResumeFrame σ K V E) (value : Option α)
    (next : α → ResumeState L σ K V E ⊕ ResumeResult σ K V E) :
    ResumeState L σ K V E ⊕ ResumeResult σ K V E :=
  match value with
  | some a => next a
  | none => throwTo rt g exc rt.unbound f

/-- One statement. -/
def resumeStmt (stmt : ResumeStmt L) (exc : Option ℕ) (f : ResumeFrame σ K V E)
    (next : ResumeFrame σ K V E → ResumeState L σ K V E ⊕ ResumeResult σ K V E) :
    ResumeState L σ K V E ⊕ ResumeResult σ K V E :=
  match stmt with
  | .plain s => thenDo rt g exc f (rt.exec s f.slots f.store) fun _ f => next f
  | .storeThrowContext params =>
    next { f with throwContext := (rt.currentException params f.slots).getD rt.none }
  | .storeThrowContextTemp exc' =>
    readLocal rt g exc f (f.caught exc') fun e => next { f with throwContext := rt.excObject e }
  | .storePc pc => next { f with pc := pc }
  | .clearYieldfrom => next { f with yieldfrom := rt.none }
  | .storeIter value =>
    thenDo rt g exc f (rt.eval value f.slots f.store) fun v f =>
      thenDo rt g exc f (rt.iter v f.store) fun it f => next { f with yieldfrom := it }
  | .callNext t => thenDo rt g exc f (rt.next f.yieldfrom f.store) fun y f => next (f.setTemp t y)
  | .callSend t =>
    thenDo rt g exc f (rt.send f.yieldfrom f.sendValue f.store) fun y f => next (f.setTemp t y)
  | .lookupMethod t method =>
    thenDo rt g exc f (rt.lookup method f.yieldfrom f.store) fun m f =>
      next (f.setTemp t (m.getD rt.none))
  | .callClose close =>
    readLocal rt g exc f (f.temps close) fun m =>
      thenDo rt g exc f (rt.callClose m f.store) fun _ f => next f
  | .callThrow t throw =>
    readLocal rt g exc f (f.temps throw) fun m =>
      readLocal rt g exc f f.resumeExc fun e =>
        thenDo rt g exc f (rt.callThrow m e f.store) fun y f => next (f.setTemp t y)
  | .storeStopValue t exc' =>
    readLocal rt g exc f (f.caught exc' >>= rt.stopValue) fun v => next (f.setTemp t v)
  | .storeYieldFromValue t =>
    readLocal rt g exc f (f.temps t) fun v => next { f with yieldFromValue := some v }
  | .assignSendValue x =>
    thenDo rt g exc f (rt.assign x f.sendValue f.store) fun _ f => next f
  | .assignTemp x t =>
    readLocal rt g exc f (f.temps t) fun v =>
      thenDo rt g exc f (rt.assign x v f.store) fun _ f => next f

/-- `raise StopIteration(value)`. -/
def completionRaise (value : Completion L) (exc : Option ℕ) (f : ResumeFrame σ K V E) :
    ResumeState L σ K V E ⊕ ResumeResult σ K V E :=
  match value with
  | .expr x => thenDo rt g exc f (rt.eval x f.slots f.store) fun v f =>
      throwTo rt g exc (rt.stopIteration v) f
  | .sendValue => throwTo rt g exc (rt.stopIteration f.sendValue) f
  | .yieldFromValue => readLocal rt g exc f f.yieldFromValue fun v =>
      throwTo rt g exc (rt.stopIteration v) f
  | .nothing => throwTo rt g exc (rt.stopIteration rt.none) f

/-- One terminator. -/
def resumeTerm (term : ResumeTerm L) (exc : Option ℕ) (f : ResumeFrame σ K V E) :
    ResumeState L σ K V E ⊕ ResumeResult σ K V E :=
  match term with
  | .jump l args => jumpBlock rt g l args f
  | .goto l => gotoBlock g l f
  | .ifTerm test l l' =>
    thenDo rt g exc f (rt.eval test f.slots f.store) fun v f =>
      thenDo rt g exc f (rt.truth v f.store) fun b f => gotoBlock g (if b then l else l') f
  | .branchTable index ls l =>
    thenDo rt g exc f (rt.eval index f.slots f.store) fun v f =>
      thenDo rt g exc f (rt.tableIndex v f.store) fun i f => gotoBlock g (ls[i]?.getD l) f
  | .raiseTerm params none =>
    let r := rt.raised (rt.currentException params f.slots) f.store
    throwTo rt g exc r.2 (f.setStore r.1)
  | .raiseTerm _ (some x) =>
    thenDo rt g exc f (rt.eval x f.slots f.store) fun v f =>
      let r := rt.raised (some v) f.store
      throwTo rt g exc r.2 (f.setStore r.1)
  | .ret value => thenDo rt g exc f (evalYield rt value f.slots f.store) fun v f =>
      .inr (.returned v f)
  | .retTemp t => readLocal rt g exc f (f.temps t) fun v => .inr (.returned v f)
  | .complete value => completionRaise rt g value exc f
  | .raiseResumeExc => readLocal rt g exc f f.resumeExc fun e => throwTo rt g exc e f
  | .raiseTemp exc' => readLocal rt g exc f (f.caught exc') fun e => throwTo rt g exc e f
  | .ifResumeExc l l' => gotoBlock g (if f.resumeExc.isSome then l else l') f
  | .ifSendNone l l' => gotoBlock g (if f.sendValue = rt.none then l else l') f
  | .ifGeneratorExit l l' =>
    gotoBlock g (if f.resumeExc.any rt.isGeneratorExit then l else l') f
  | .ifTempNone t l l' =>
    readLocal rt g exc f (f.temps t) fun v => gotoBlock g (if v = rt.none then l else l') f
  | .ifTempNotNone t l l' =>
    readLocal rt g exc f (f.temps t) fun v => gotoBlock g (if v ≠ rt.none then l else l') f
  | .ifStopIteration exc' l l' =>
    readLocal rt g exc f (f.caught exc') fun e =>
      gotoBlock g (if (rt.stopValue e).isSome then l else l') f
  | .dispatch targets l => gotoBlock g (targets[f.pc]?.getD l) f

def resumeStep (t : ResumeState L σ K V E) : ResumeState L σ K V E ⊕ ResumeResult σ K V E :=
  match t.body with
  | [] => resumeTerm rt g t.term t.exc t.frame
  | stmt :: body =>
    resumeStmt rt g stmt t.exc t.frame fun f => .inl { t with body := body, frame := f }

def resumeMachine : Machine (ResumeState L σ K V E) (ResumeResult σ K V E) := ⟨resumeStep rt g⟩

/-- The frame of a call. -/
def callFrame (cells : ResumeCells σ V) (slots : K) :
    Resumption V E → ResumeFrame σ K V E
  | .send v => ⟨cells, slots, v, none, fun _ => none, fun _ => none, none⟩
  | .throw e => ⟨cells, slots, rt.noDefault, some e, fun _ => none, fun _ => none, none⟩

end Step

end DietPython.Generators
