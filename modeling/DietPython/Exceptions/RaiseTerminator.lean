import Mathlib.Logic.Function.Basic
import DietPython.Lib.Transducer

/-!
# `raise`

Every raise of the program ends in the same terminator, whose code calls `raise_from(exc, None)` and
raises what that returns: the raise statements, the re-raises at the end of a `finally` body and
behind the last `except` clause, and the resumption of a generator with an exception. The call
assigns `None` to `__cause__` and `True` to `__suppress_context__`, whatever a `from` clause has set
before. These are assignments to attributes, which go through the `__setattr__` of the class, while
the language writes the two slots.
-/

namespace DietPython.Exceptions

open Transducers

/-! ## Exception objects -/

structure Attrs (O : Type) where
  cause : Option O
  suppressContext : Bool
  deriving DecidableEq

/-- What the program can reach, and the slots of the exception objects. -/
structure ExcState (σ O : Type) where
  user : σ
  attrs : O → Attrs O

/-- A step that fails with an exception. -/
abbrev Raises (σ O α : Type) := ExcState σ O → ExcState σ O × Except O α

/-- An operand of `raise`. -/
inductive Operand (O C : Type)
  | none
  | instance (exc : O)
  | class (exc : C)
  | other

/-- What raising needs of the runtime. -/
structure RaiseRuntime (σ O C : Type) where
  /-- Calling an exception class. The result may be no exception. -/
  call : C → Raises σ O (Option O)
  /-- `exc.__cause__ = cause`, by the class of the exception. -/
  assignCause : O → Option O → Raises σ O Unit
  /-- `exc.__suppress_context__ = True`, by the class of the exception. -/
  assignSuppress : O → Raises σ O Unit
  /-- A new exception of the interpreter. -/
  newError : ExcState σ O → ExcState σ O × O
  /-- A new object can be told from the objects that were there. -/
  newError_new : ∀ st, (newError st).1 ≠ st

namespace ExcState

variable {σ O : Type} [DecidableEq O] (st : ExcState σ O)

/-- The slots after `from cause`. -/
def setCause (exc : O) (cause : Option O) : ExcState σ O :=
  { st with attrs := Function.update st.attrs exc ⟨cause, true⟩ }

/-- The slot of `__suppress_context__`. -/
def setSuppress (exc : O) : ExcState σ O :=
  { st with attrs := Function.update st.attrs exc ⟨(st.attrs exc).cause, true⟩ }

@[simp] theorem setCause_attrs_self (exc : O) (cause : Option O) :
    (st.setCause exc cause).attrs exc = ⟨cause, true⟩ := Function.update_self ..

@[simp] theorem setCause_setCause (exc : O) (cause cause' : Option O) :
    (st.setCause exc cause).setCause exc cause' = st.setCause exc cause' := by
  unfold setCause
  rw [Function.update_idem]

/-- The attributes have these values already. -/
theorem setCause_eq_self {exc : O} {cause : Option O} (h : st.attrs exc = ⟨cause, true⟩) :
    st.setCause exc cause = st := by
  unfold setCause
  rw [← h, Function.update_eq_self]

@[simp] theorem setCause_setSuppress (exc : O) (cause : Option O) :
    (st.setCause exc cause).setSuppress exc = st.setCause exc cause := by
  have h := (st.setCause exc cause).setCause_eq_self (st.setCause_attrs_self exc cause)
  unfold setSuppress
  rw [setCause_attrs_self]
  exact h

end ExcState

/-! ## `raise_from` -/

section Raising

variable {σ O C : Type} (rt : RaiseRuntime σ O C)

/-- No failure. -/
def done {α : Type} (a : α) : Raises σ O α := fun st => (st, .ok a)

/-- Go on unless there is an exception. -/
def andThen {α β : Type} (m : Raises σ O α) (next : α → Raises σ O β) : Raises σ O β := fun st =>
  match m st with
  | (st', .ok a) => next a st'
  | (st', .error e) => (st', .error e)

/-- `raise TypeError(..)` -/
def raiseError {α : Type} : Raises σ O α := fun st =>
  ((rt.newError st).1, .error (rt.newError st).2)

@[simp] theorem done_andThen {α β : Type} (a : α) (next : α → Raises σ O β) :
    andThen (done a) next = next a := rfl

@[simp] theorem andThen_done {α : Type} (m : Raises σ O α) : andThen m done = m := by
  funext st
  unfold andThen
  cases hm : m st with
  | mk st' r => cases r <;> rfl

@[simp] theorem andThen_assoc {α β γ : Type} (m : Raises σ O α) (f : α → Raises σ O β)
    (g : β → Raises σ O γ) : andThen (andThen m f) g = andThen m fun a => andThen (f a) g := by
  funext st
  unfold andThen
  cases hm : (m st).2 with
  | error e =>
    have hm : m st = ((m st).1, .error e) := Prod.ext rfl hm
    rw [hm]
  | ok a =>
    have hm : m st = ((m st).1, .ok a) := Prod.ext rfl hm
    rw [hm]

/-- What has not failed has come through both parts. -/
theorem ok_of_andThen {α β : Type} {m : Raises σ O α} {next : α → Raises σ O β}
    {st st' : ExcState σ O} {b : β} (h : andThen m next st = (st', .ok b)) :
    ∃ a st₁, m st = (st₁, .ok a) ∧ next a st₁ = (st', .ok b) := by
  unfold andThen at h
  cases hm : m st with
  | mk st₁ r =>
    rw [hm] at h
    cases r with
    | ok a => exact ⟨a, st₁, rfl, h⟩
    | error e => cases h

/-- `_call_exception_class` -/
def callExceptionClass (excType : C) : Raises σ O O :=
  andThen (rt.call excType) fun inst =>
    match inst with
    | some exc => done exc
    | none => raiseError rt

/-- The exception of an operand. -/
def exceptionOf : Operand O C → Raises σ O O
  | .none => raiseError rt
  | .class excType => callExceptionClass rt excType
  | .instance exc => done exc
  | .other => raiseError rt

theorem exceptionOf_instance (exc : O) :
    exceptionOf rt (.instance exc : Operand O C) = done exc := rfl

/-- `exc.__cause__ = cause` and `exc.__suppress_context__ = True`. -/
def assign (exc : O) (cause : Option O) : Raises σ O Unit :=
  andThen (rt.assignCause exc cause) fun _ => rt.assignSuppress exc

/-- `raise_from` -/
def raiseFrom (exc cause : Operand O C) : Raises σ O O :=
  andThen (exceptionOf rt exc) fun exc =>
    match cause with
    | .none => andThen (assign rt exc none) fun _ => done exc
    | cause => andThen (exceptionOf rt cause) fun cause =>
        andThen (assign rt exc (some cause)) fun _ => done exc

/-- `_normalize_throw_exc`, without a value and a traceback. -/
def normalizeThrowExc (typ : Operand O C) : Raises σ O O := raiseFrom rt typ .none

end Raising

/-! ## Raise terminators -/

/-- The operand of a raise terminator. -/
inductive RaiseExpr (O C : Type)
  | operand (exc : Operand O C)
  /-- `__soac__.raise_from(exc, cause)` -/
  | callRaiseFrom (exc cause : Operand O C)

/-- `rewrite_raise_stmt` -/
def rewriteRaiseStmt (exc : Operand O C) : Option (Operand O C) → RaiseExpr O C
  | none => .operand exc
  | some cause => .callRaiseFrom exc cause

/-- What raises an exception. -/
inductive RaiseSite (O C : Type)
  /-- `raise exc` -/
  | raise (exc : Operand O C)
  /-- `raise exc from cause` -/
  | raiseFrom (exc cause : Operand O C)
  /-- A bare `raise`, the end of a `finally` body, or no `except` clause that matches. The code
  raises what the parameter of the region holds, if it is in one and holds an exception, and the
  language the exception that is pending. -/
  | reraise (param : Option O) (pending : O)
  /-- A bare `raise` with nothing to raise again. -/
  | outside
  /-- `throw(exc)` on a generator or on a coroutine, which hands it on to its generator. -/
  | throwInto (exc : Operand O C) (coroutine : Bool)

section Sites

variable {σ O C : Type} (rt : RaiseRuntime σ O C)

def evalRaiseExpr : RaiseExpr O C → Raises σ O (Operand O C)
  | .operand exc => done exc
  | .callRaiseFrom exc cause => andThen (raiseFrom rt exc cause) fun exc => done (.instance exc)

/-- The code of a raise terminator, up to raising what it returns. -/
def raiseTerminator : Option (RaiseExpr O C) → Raises σ O O
  | none => raiseFrom rt .none .none
  | some exc => andThen (evalRaiseExpr rt exc) fun exc => raiseFrom rt exc .none

/-- What the generated code and the runtime do. -/
def lowered : RaiseSite O C → Raises σ O O
  | .raise exc => raiseTerminator rt (some (rewriteRaiseStmt exc none))
  | .raiseFrom exc cause => raiseTerminator rt (some (rewriteRaiseStmt exc (some cause)))
  | .reraise none _ => raiseTerminator rt none
  | .reraise (some param) _ => raiseTerminator rt (some (.operand (.instance param)))
  | .outside => raiseTerminator rt none
  | .throwInto typ false =>
    andThen (normalizeThrowExc rt typ) fun exc =>
      raiseTerminator rt (some (.operand (.instance exc)))
  | .throwInto typ true =>
    andThen (normalizeThrowExc rt typ) fun exc =>
      andThen (normalizeThrowExc rt (.instance exc)) fun exc =>
        raiseTerminator rt (some (.operand (.instance exc)))

variable [DecidableEq O]

/-- `raise exc from cause` in the language: a `from` clause writes the slots. -/
def pythonRaiseFrom (exc cause : Operand O C) : Raises σ O O :=
  andThen (exceptionOf rt exc) fun exc =>
    match cause with
    | .none => fun st => (st.setCause exc none, .ok exc)
    | cause => andThen (exceptionOf rt cause) fun cause st =>
        (st.setCause exc (some cause), .ok exc)

/-- What the language does: the attributes change through a `from` clause. -/
def python : RaiseSite O C → Raises σ O O
  | .raise exc => exceptionOf rt exc
  | .raiseFrom exc cause => pythonRaiseFrom rt exc cause
  | .reraise _ pending => done pending
  | .outside => raiseError rt
  | .throwInto typ _ => exceptionOf rt typ

/-! ## What the code adds -/

/-- An exception that is ready to be raised. -/
structure Prepared (O : Type) where
  /-- The exception that the language raises. -/
  exc : O
  /-- The exception that the code raises. -/
  param : O
  /-- What a `from` clause sets. -/
  clause : Option (Option O)
  /-- What the code assigns to `__cause__`, one after the other. -/
  causes : List (Option O)

/-- The exception of a site and of its `from` clause. -/
def prepare : RaiseSite O C → Raises σ O (Prepared O)
  | .raise exc => andThen (exceptionOf rt exc) fun exc => done ⟨exc, exc, none, [none]⟩
  | .raiseFrom exc .none =>
    andThen (exceptionOf rt exc) fun exc => done ⟨exc, exc, some none, [none, none]⟩
  | .raiseFrom exc cause =>
    andThen (exceptionOf rt exc) fun exc => andThen (exceptionOf rt cause) fun cause =>
      done ⟨exc, exc, some (some cause), [some cause, none]⟩
  | .reraise param pending => done ⟨pending, param.getD pending, none, [none]⟩
  | .outside => raiseError rt
  | .throwInto exc coroutine =>
    andThen (exceptionOf rt exc) fun exc =>
      done ⟨exc, exc, none, none :: none :: if coroutine then [none] else []⟩

/-- The assignments of the code. -/
def assignAll (exc : O) : List (Option O) → Raises σ O O
  | [] => done exc
  | cause :: causes => andThen (assign rt exc cause) fun _ => assignAll exc causes

/-- The `from` clause of the language. -/
def Prepared.after (ready : Prepared O) (st : ExcState σ O) : ExcState σ O :=
  match ready.clause with
  | none => st
  | some cause => st.setCause ready.exc cause

/-- The language raises what a site prepares. -/
theorem python_eq (site : RaiseSite O C) :
    python rt site = andThen (prepare rt site) fun ready st => (ready.after st, .ok ready.exc) := by
  match site with
  | .raise _ | .throwInto _ _ =>
    simp only [python, prepare, andThen_assoc, done_andThen, Prepared.after]
    exact (andThen_done _).symm
  | .raiseFrom _ .none =>
    simp only [python, pythonRaiseFrom, prepare, andThen_assoc, done_andThen, Prepared.after]
  | .raiseFrom _ (.instance _) | .raiseFrom _ (.class _) | .raiseFrom _ .other =>
    simp only [python, pythonRaiseFrom, prepare, andThen_assoc, done_andThen, Prepared.after]
  | .reraise _ _ => rfl
  | .outside => rfl

omit [DecidableEq O] in
/-- A site prepares what it raises and then makes its assignments, unless it has lost it. -/
theorem lowered_eq {site : RaiseSite O C} (hsite : ∀ pending, site ≠ .reraise none pending) :
    lowered rt site =
      andThen (prepare rt site) fun ready => assignAll rt ready.param ready.causes := by
  match site with
  | .raise _ =>
    simp only [lowered, rewriteRaiseStmt, raiseTerminator, evalRaiseExpr, done_andThen, raiseFrom,
      prepare, andThen_assoc, assignAll]
  | .raiseFrom _ .none =>
    simp only [lowered, rewriteRaiseStmt, raiseTerminator, evalRaiseExpr, exceptionOf_instance,
      raiseFrom, prepare, andThen_assoc, done_andThen, assignAll]
  | .raiseFrom _ (.instance _) | .raiseFrom _ (.class _) | .raiseFrom _ .other =>
    simp only [lowered, rewriteRaiseStmt, raiseTerminator, evalRaiseExpr, exceptionOf_instance,
      raiseFrom, prepare, andThen_assoc, done_andThen, assignAll]
  | .reraise none pending => exact absurd rfl (hsite pending)
  | .reraise (some param) _ => rfl
  | .outside => rfl
  | .throwInto _ false | .throwInto _ true =>
    simp only [lowered, normalizeThrowExc, raiseTerminator, evalRaiseExpr, exceptionOf_instance,
      raiseFrom, prepare, andThen_assoc, done_andThen, assignAll, if_true, Bool.false_eq_true,
      if_false]

/-- The class leaves the attributes to the slots: no `__setattr__` of its own. -/
structure Plain (exc : O) : Prop where
  cause : ∀ cause st, rt.assignCause exc cause st = (st.setCause exc cause, .ok ())
  suppress : ∀ st, rt.assignSuppress exc st = (st.setSuppress exc, .ok ())

variable {rt}

theorem assign_plain {exc : O} (h : Plain rt exc) (cause : Option O) (st : ExcState σ O) :
    assign rt exc cause st = (st.setCause exc cause, .ok ()) := by
  unfold assign andThen
  rw [h.cause]
  show rt.assignSuppress exc (st.setCause exc cause) = _
  rw [h.suppress, ExcState.setCause_setSuppress]

/-- Of several assignments to a plain object the last one counts. -/
theorem assignAll_plain {exc : O} (h : Plain rt exc) (causes : List (Option O)) (cause : Option O)
    (st : ExcState σ O) :
    assignAll rt exc (causes ++ [cause]) st = (st.setCause exc cause, .ok exc) := by
  induction causes generalizing st with
  | nil =>
    show andThen (assign rt exc cause) (fun _ => done exc) st = _
    unfold andThen
    rw [assign_plain h]
    rfl
  | cons first causes ih =>
    show andThen (assign rt exc first) (fun _ => assignAll rt exc (causes ++ [cause])) st = _
    unfold andThen
    rw [assign_plain h]
    show assignAll rt exc (causes ++ [cause]) (st.setCause exc first) = _
    rw [ih, ExcState.setCause_setCause]

end Sites

/-! ## Histories -/

/-- A raise, or anything else that the program does. -/
inductive Action (σ O C : Type)
  | site (site : RaiseSite O C)
  | user (run : ExcState σ O → ExcState σ O)

section Histories

variable {σ O C : Type} [DecidableEq O] (rt : RaiseRuntime σ O C)

/-- The exception that propagates, and the state in which it does. -/
def propagates (r : ExcState σ O × Except O O) : O × ExcState σ O :=
  match r.2 with
  | .ok exc => (exc, r.1)
  | .error exc => (exc, r.1)

/-- A program that raises again and again. -/
def machine (raises : RaiseSite O C → Raises σ O O) :
    Transducer (ExcState σ O) (Action σ O C) (Option (O × ExcState σ O)) where
  step st
    | .site site => ((raises site st).1, some (propagates (raises site st)))
    | .user run => (run st, none)

/-- What the assignments of the code may find. A plain object is the one that the language raises
and has no cause and a suppressed context there already; what the class of another object does with
the assignments comes to what the language does. -/
structure Suppressed (ready : Prepared O) (st : ExcState σ O) : Prop where
  plain : Plain rt ready.param →
    ready.param = ready.exc ∧ (ready.after st).attrs ready.exc = ⟨none, true⟩
  overridden : ¬ Plain rt ready.param →
    propagates (assignAll rt ready.param ready.causes st) = (ready.exc, ready.after st)

/-- The condition on an action: a re-raise has its exception, and the assignments of the code find
nothing to change. -/
def RaisesSuppressed (st : ExcState σ O) : Action σ O C → Prop
  | .site (.reraise none _) => False
  | .site site => ∀ ready st', prepare rt site st = (st', .ok ready) → Suppressed rt ready st'
  | .user _ => True

variable {rt}

omit [DecidableEq O] in
/-- The last assignment of every site is the one of the terminator. -/
theorem causes_of_prepare {site : RaiseSite O C} {st st' : ExcState σ O} {ready : Prepared O}
    (h : prepare rt site st = (st', .ok ready)) : ∃ causes, ready.causes = causes ++ [none] := by
  match site with
  | .raise _ =>
    obtain ⟨_, _, -, ⟨⟩⟩ := ok_of_andThen h
    exact ⟨[], rfl⟩
  | .raiseFrom _ .none =>
    obtain ⟨_, _, -, ⟨⟩⟩ := ok_of_andThen h
    exact ⟨[none], rfl⟩
  | .raiseFrom _ (.instance _) | .raiseFrom _ (.class _) | .raiseFrom _ .other =>
    obtain ⟨_, _, -, h⟩ := ok_of_andThen h
    obtain ⟨cause, _, -, ⟨⟩⟩ := ok_of_andThen h
    exact ⟨[some cause], rfl⟩
  | .reraise _ _ =>
    cases h
    exact ⟨[], rfl⟩
  | .outside => cases h
  | .throwInto _ false =>
    obtain ⟨_, _, -, ⟨⟩⟩ := ok_of_andThen h
    exact ⟨[none], rfl⟩
  | .throwInto _ true =>
    obtain ⟨_, _, -, ⟨⟩⟩ := ok_of_andThen h
    exact ⟨[none, none], rfl⟩

theorem suppressed_plain {ready : Prepared O} (hplain : Plain rt ready.param)
    {causes : List (Option O)} (hcauses : ready.causes = causes ++ [none]) (st : ExcState σ O) :
    propagates (assignAll rt ready.param ready.causes st) = (ready.exc, ready.after st) ↔
      ready.param = ready.exc ∧ (ready.after st).attrs ready.exc = ⟨none, true⟩ := by
  rw [hcauses, assignAll_plain hplain]
  show (ready.param, st.setCause ready.param none) = _ ↔ _
  rw [Prod.mk.injEq]
  refine and_congr_right fun hexc => ?_
  rw [hexc]
  unfold Prepared.after
  cases ready.clause with
  | none =>
    constructor
    · intro h
      rw [← h]
      exact ExcState.setCause_attrs_self ..
    · exact ExcState.setCause_eq_self st
  | some cause =>
    constructor
    · intro h
      rw [← h]
      exact ExcState.setCause_attrs_self ..
    · intro h
      have h : (⟨cause, true⟩ : Attrs O) = ⟨none, true⟩ :=
        (ExcState.setCause_attrs_self st ready.exc cause).symm.trans h
      rw [(Attrs.mk.inj h).1]

/-- **One raise.** The same exception propagates in the same state exactly under the condition. -/
theorem propagates_eq_iff (site : RaiseSite O C) (st : ExcState σ O) :
    propagates (python rt site st) = propagates (lowered rt site st) ↔
      RaisesSuppressed rt st (.site site) := by
  by_cases hsite : ∀ pending, site ≠ .reraise none pending
  · have hcond : RaisesSuppressed rt st (.site site) ↔
        ∀ ready st', prepare rt site st = (st', .ok ready) → Suppressed rt ready st' := by
      cases site with
      | reraise param pending =>
        cases param with
        | none => exact absurd rfl (hsite pending)
        | some param => rfl
      | _ => rfl
    rw [hcond, python_eq, lowered_eq rt hsite]
    unfold andThen
    cases hr : prepare rt site st with
    | mk st' r =>
      cases r with
      | error e =>
        refine iff_of_true rfl fun ready st' heq => ?_
        cases heq
      | ok ready =>
        obtain ⟨causes, hcauses⟩ := causes_of_prepare hr
        show (ready.exc, ready.after st') = propagates _ ↔ _
        rw [eq_comm]
        constructor
        · rintro h _ _ ⟨⟩
          exact ⟨fun hplain => (suppressed_plain hplain hcauses st').mp h, fun _ => h⟩
        · intro h
          have h := h ready st' rfl
          by_cases hplain : Plain rt ready.param
          · exact (suppressed_plain hplain hcauses st').mpr (h.plain hplain)
          · exact h.overridden hplain
  · obtain ⟨pending, hsite⟩ := not_forall.mp hsite
    obtain rfl := not_not.mp hsite
    refine iff_of_false (fun heq => ?_) id
    exact rt.newError_new st (congrArg Prod.snd heq).symm

end Histories

/-- Objects are numbers, a class makes the object with its number, and the state counts errors. -/
def countingRuntime : RaiseRuntime ℕ ℕ ℕ where
  call excType st := (st, .ok (some excType))
  assignCause exc cause st := (st.setCause exc cause, .ok ())
  assignSuppress exc st := (st.setSuppress exc, .ok ())
  newError st := ({ st with user := st.user + 1 }, 0)
  newError_new st h := absurd (congrArg ExcState.user h) (by simp)

end DietPython.Exceptions
