import DietPython.Generators.Protocol

/-!
# `ClosureGenerator`

The runtime's generator object. Its state is split: `_is_closed` lives in the wrapper, `_dp_pc`
in the resume closure, whose dispatch jumps through a table of entry points and to the exhausted
block for every other value of `_dp_pc`.

The wrapper resumes the closure in every state but the closed one, the dispatch enters point `1`
whatever the resumption carries, a `StopIteration` of the body looks like its completion, and
`close` drops what the body returns. A history of calls is answered as the language says exactly
when it goes through none of these.
-/

namespace DietPython.Generators

open Transducers

variable {σ V E : Type*} [PyObject V]

/-- `ClosureGenerator` with the state of its resume closure. -/
structure ClosureGenerator (σ : Type*) where
  isClosed : Bool
  pc : ℕ
  store : σ

namespace ClosureGenerator

/-- A new wrapper: `_dp_pc` starts at `RuntimePcUnstarted`. -/
def new (store : σ) : ClosureGenerator σ := ⟨false, 1, store⟩

/-- How the lowered body leaves the resume function: what it yields is returned, and a return
value raised in a `StopIteration` (`completion_raise`). -/
def leaveResume : Outcome V E → Except (PyExc V E) V
  | .yielded v => .ok v
  | .returned v => .error (.stopIteration v)
  | .raised e => .error e

/-- `_resume_fn(self, send_value, resume_exc)`: the dispatch on `_dp_pc`, then the entered code. -/
def resumeFn (b : Body σ V E) (g : ClosureGenerator σ) (signal : Signal V E) :
    ClosureGenerator σ × Option (Except (PyExc V E) V) × List (ℕ × Signal V E) :=
  if 1 ≤ g.pc ∧ g.pc ≤ b.points then
    match b.enter g.pc signal g.store with
    | none => (g, none, [(g.pc, signal)])
    | some (s, pc, outcome) =>
      ({ g with pc := pc, store := s }, some (leaveResume outcome), [(g.pc, signal)])
  else (g, some (.error (.stopIteration PyObject.none)), [])

/-- `_mark_closed`. -/
def markClosed (g : ClosureGenerator σ) : ClosureGenerator σ := { g with isClosed := true }

/-- `try: return self._resume_fn(..)`, closing the wrapper on every exception. -/
def guardedResume (b : Body σ V E) (g : ClosureGenerator σ) (signal : Signal V E) :
    ClosureGenerator σ × Option (Except (PyExc V E) V) × List (ℕ × Signal V E) :=
  match g.resumeFn b signal with
  | (g', some (.error e), entered) => (g'.markClosed, some (.error e), entered)
  | r => r

/-- A call hands on what the resume function returns or raises. -/
def handOn : Option (Except (PyExc V E) V) → Reply V E
  | none => .diverges
  | some (.ok v) => .yielded v
  | some (.error e) => .raised e

def send (b : Body σ V E) (g : ClosureGenerator σ) (value : V) :
    ClosureGenerator σ × Answer V E :=
  if g.isClosed then (g, ⟨.raised (.stopIteration PyObject.none), []⟩)
  else
    let r := g.guardedResume b (.send value)
    (r.1, ⟨handOn r.2.1, r.2.2⟩)

def throw (b : Body σ V E) (g : ClosureGenerator σ) (exc : PyExc V E) :
    ClosureGenerator σ × Answer V E :=
  if g.isClosed then (g, ⟨.raised exc, []⟩)
  else
    let r := g.guardedResume b (.throw exc)
    (r.1, ⟨handOn r.2.1, r.2.2⟩)

/-- How `close` turns the reply of its `throw(GeneratorExit)` around: it returns `None`. -/
def turnAround : Reply V E → Reply V E
  | .raised e => if e.endsClose then .closed PyObject.none else .raised e
  | .yielded _ => .raised (.runtimeError "generator ignored GeneratorExit")
  | other => other

def close (b : Body σ V E) (g : ClosureGenerator σ) : ClosureGenerator σ × Answer V E :=
  if g.isClosed then (g, ⟨.closed PyObject.none, []⟩)
  else
    let r := g.throw b .generatorExit
    (r.1, ⟨turnAround r.2.reply, r.2.entered⟩)

def step (b : Body σ V E) (g : ClosureGenerator σ) :
    Call V E → ClosureGenerator σ × Answer V E
  | .next => g.send b PyObject.none
  | .send value => g.send b value
  | .throw exc => g.throw b exc
  | .close => g.close b

/-- The wrapper driven by a history of calls. -/
def machine (b : Body σ V E) : Transducer (ClosureGenerator σ) (Call V E) (Answer V E) :=
  ⟨step b⟩

/-! ## The condition on a call -/

/-- The generator has not been resumed yet. -/
def NotStarted (g : ClosureGenerator σ) : Prop := g.isClosed = false ∧ g.pc = 1

/-- The calls that only start a generator. -/
def Starts : Call V E → Prop
  | .next => True
  | .send value => value = PyObject.none
  | .throw _ | .close => False

/-- What a call resumes the body with. -/
def signal : Call V E → Signal V E
  | .next => .send PyObject.none
  | .send value => .send value
  | .throw exc => .throw exc
  | .close => .throw .generatorExit

/-- The body raises no `StopIteration`. -/
def RaisesNoStop (r : Option (Outcome V E)) : Prop := ∀ v, r ≠ some (.raised (.stopIteration v))

/-- If the body returns, it returns `None`. -/
def ReturnsNone (r : Option (Outcome V E)) : Prop :=
  ∀ v, r = some (.returned v) → v = PyObject.none

/-- The condition on a call: a generator that has not started is only asked to start, no run of
the body raises a `StopIteration`, and one that `close` starts returns nothing. -/
structure CallGuard (b : Body σ V E) (g : ClosureGenerator σ) (call : Call V E) : Prop where
  starts : g.NotStarted → Starts call
  raisesNoStop : g.isClosed = false → RaisesNoStop (b.outcome g.pc (signal call) g.store)
  closesWithNone : g.isClosed = false → call = .close →
    ReturnsNone (b.outcome g.pc (signal call) g.store)

/-! ## Replies -/

omit [PyObject V] in
theorem handOn_eq_iff {r : Option (Outcome V E)} :
    handOn (r.map leaveResume) = PyGenerator.replyOfOutcome r ↔ RaisesNoStop r := by
  unfold RaisesNoStop
  cases r with
  | none => simp [handOn, PyGenerator.replyOfOutcome]
  | some outcome =>
    cases outcome with
    | yielded v => simp [handOn, leaveResume, PyGenerator.replyOfOutcome, PyGenerator.leave]
    | returned v => simp [handOn, leaveResume, PyGenerator.replyOfOutcome, PyGenerator.leave]
    | raised e =>
      cases e <;> simp [handOn, leaveResume, PyGenerator.replyOfOutcome, PyGenerator.leave]

theorem turnAround_eq_iff {r : Option (Outcome V E)} :
    turnAround (handOn (r.map leaveResume)) = PyGenerator.replyOfClose r ↔
      RaisesNoStop r ∧ ReturnsNone r := by
  unfold RaisesNoStop ReturnsNone
  cases r with
  | none => simp [handOn, turnAround, PyGenerator.replyOfClose]
  | some outcome =>
    cases outcome with
    | yielded v => simp [handOn, leaveResume, turnAround, PyGenerator.replyOfClose]
    | returned v =>
      simp [handOn, leaveResume, turnAround, PyExc.endsClose, PyGenerator.replyOfClose, eq_comm]
    | raised e =>
      cases e <;> simp [handOn, leaveResume, turnAround, PyExc.endsClose,
        PyGenerator.replyOfClose, PyGenerator.leave]

/-! ## Agreement with the protocol -/

/-- The wrapper and the protocol object are in the same state of the protocol. -/
inductive Agrees (b : Body σ V E) : ClosureGenerator σ → PyGenerator σ → Prop
  | notStarted (s : σ) : Agrees b ⟨false, 1, s⟩ ⟨.notStarted, s⟩
  | suspended (pc : ℕ) (s : σ) (h : 2 ≤ pc ∧ pc ≤ b.points) :
      Agrees b ⟨false, pc, s⟩ ⟨.suspended pc, s⟩
  | finished (pc : ℕ) (s t : σ) : Agrees b ⟨true, pc, s⟩ ⟨.finished, t⟩

omit [PyObject V] in
theorem agrees_new (b : Body σ V E) (s : σ) : Agrees b (new s) (PyGenerator.new s) := .notStarted s

section Resume

variable {b : Body σ V E}

/-- What resuming an open wrapper gives, and which run of the body it starts. -/
theorem guardedResume_eq {pc : ℕ} (hpc : 1 ≤ pc ∧ pc ≤ b.points) (s : σ) (signal : Signal V E) :
    ((⟨false, pc, s⟩ : ClosureGenerator σ).guardedResume b signal).2 =
      ((b.outcome pc signal s).map leaveResume, [(pc, signal)]) := by
  unfold guardedResume resumeFn Body.outcome
  rw [if_pos hpc]
  cases henter : b.enter pc signal s with
  | none => rfl
  | some result =>
    obtain ⟨s', pc', outcome⟩ := result
    cases outcome <;> rfl

/-- Both objects stand in the same state of the protocol afterwards. `status` is the protocol
state the wrapper was in. -/
theorem guardedResume_agrees {pc : ℕ} (hpc : 1 ≤ pc ∧ pc ≤ b.points) (s : σ)
    (signal : Signal V E) {status : Status} (hsame : Agrees b ⟨false, pc, s⟩ ⟨status, s⟩) :
    Agrees b ((⟨false, pc, s⟩ : ClosureGenerator σ).guardedResume b signal).1
      ((⟨status, s⟩ : PyGenerator σ).resume b pc signal) := by
  unfold guardedResume resumeFn PyGenerator.resume
  rw [if_pos hpc]
  cases henter : b.enter pc signal s with
  | none => exact hsame
  | some result =>
    obtain ⟨s', pc', outcome⟩ := result
    cases outcome with
    | yielded v => exact .suspended pc' s' (b.point_of_yielded henter)
    | returned v => exact .finished pc' s' s'
    | raised e => exact .finished pc' s' s'

/-- A resumption with a value, from every state but the not started one. -/
theorem send_agrees [DecidableEq V] {g : ClosureGenerator σ} {p : PyGenerator σ}
    (h : Agrees b g p) (value : V) (hguard : CallGuard b g (.send value)) :
    (g.send b value).2 = (p.send b value).2 ∧ Agrees b (g.send b value).1 (p.send b value).1 := by
  have hreply (hopen : g.isClosed = false) := handOn_eq_iff.mpr (hguard.raisesNoStop hopen)
  cases h with
  | notStarted s =>
    obtain rfl : value = PyObject.none := hguard.starts ⟨rfl, rfl⟩
    have hpc : 1 ≤ 1 ∧ 1 ≤ b.points := ⟨Nat.le_refl 1, b.points_pos⟩
    have hstate := guardedResume_agrees hpc s (.send PyObject.none) (.notStarted s)
    simp only [send, PyGenerator.send, if_true, Bool.false_eq_true, if_false,
      guardedResume_eq hpc]
    exact ⟨congrArg (Answer.mk · _) (hreply rfl), hstate⟩
  | suspended pc s hsusp =>
    have hpc : 1 ≤ pc ∧ pc ≤ b.points := ⟨by omega, hsusp.2⟩
    have hstate := guardedResume_agrees hpc s (.send value) (.suspended pc s hsusp)
    simp only [send, PyGenerator.send, Bool.false_eq_true, if_false, guardedResume_eq hpc]
    exact ⟨congrArg (Answer.mk · _) (hreply rfl), hstate⟩
  | finished pc s t =>
    simp only [send, PyGenerator.send, if_true]
    exact ⟨trivial, .finished pc s t⟩

theorem throw_agrees {g : ClosureGenerator σ} {p : PyGenerator σ} (h : Agrees b g p)
    (exc : PyExc V E) (hguard : CallGuard b g (.throw exc)) :
    (g.throw b exc).2 = (p.throw b exc).2 ∧ Agrees b (g.throw b exc).1 (p.throw b exc).1 := by
  have hreply (hopen : g.isClosed = false) := handOn_eq_iff.mpr (hguard.raisesNoStop hopen)
  cases h with
  | notStarted s => exact (hguard.starts ⟨rfl, rfl⟩).elim
  | suspended pc s hsusp =>
    have hpc : 1 ≤ pc ∧ pc ≤ b.points := ⟨by omega, hsusp.2⟩
    have hstate := guardedResume_agrees hpc s (.throw exc) (.suspended pc s hsusp)
    simp only [throw, PyGenerator.throw, Bool.false_eq_true, if_false, guardedResume_eq hpc]
    exact ⟨congrArg (Answer.mk · _) (hreply rfl), hstate⟩
  | finished pc s t =>
    simp only [throw, PyGenerator.throw, if_true]
    exact ⟨trivial, .finished pc s t⟩

theorem close_agrees {g : ClosureGenerator σ} {p : PyGenerator σ} (h : Agrees b g p)
    (hguard : CallGuard b g .close) :
    (g.close b).2 = (p.close b).2 ∧ Agrees b (g.close b).1 (p.close b).1 := by
  have hreply (hopen : g.isClosed = false) :=
    turnAround_eq_iff.mpr ⟨hguard.raisesNoStop hopen, hguard.closesWithNone hopen rfl⟩
  cases h with
  | notStarted s => exact (hguard.starts ⟨rfl, rfl⟩).elim
  | suspended pc s hsusp =>
    have hpc : 1 ≤ pc ∧ pc ≤ b.points := ⟨by omega, hsusp.2⟩
    have hstate := guardedResume_agrees hpc s (.throw .generatorExit) (.suspended pc s hsusp)
    simp only [close, throw, PyGenerator.close, Bool.false_eq_true, if_false,
      guardedResume_eq hpc]
    exact ⟨congrArg (Answer.mk · _) (hreply rfl), hstate⟩
  | finished pc s t =>
    simp only [close, PyGenerator.close, if_true]
    exact ⟨trivial, .finished pc s t⟩

/-- A guarded call is answered alike and keeps the two objects in agreement. -/
theorem step_agrees [DecidableEq V] {g : ClosureGenerator σ} {p : PyGenerator σ}
    (h : Agrees b g p) (call : Call V E) (hguard : CallGuard b g call) :
    (g.step b call).2 = (p.step b call).2 ∧ Agrees b (g.step b call).1 (p.step b call).1 := by
  cases call with
  | next =>
    refine send_agrees h PyObject.none ⟨fun _ => rfl, hguard.raisesNoStop, fun _ hclose => ?_⟩
    cases hclose
  | send value => exact send_agrees h value hguard
  | throw exc => exact throw_agrees h exc hguard
  | close => exact close_agrees h hguard

/-- A call that does not only start a generator that has not started runs body code, which the
protocol forbids. -/
theorem start_differs [DecidableEq V] (s : σ) {call : Call V E} (hstarts : ¬ Starts call) :
    ((⟨false, 1, s⟩ : ClosureGenerator σ).step b call).2 ≠
      ((⟨.notStarted, s⟩ : PyGenerator σ).step b call).2 := by
  have hresume (signal : Signal V E) := guardedResume_eq ⟨Nat.le_refl 1, b.points_pos⟩ s signal
  intro heq
  have hruns := congrArg Answer.entered heq
  cases call with
  | next => exact hstarts trivial
  | send value =>
    have hvalue : value ≠ PyObject.none := hstarts
    simp [step, PyGenerator.step, send, PyGenerator.send, hresume, hvalue] at hruns
  | throw exc => simp [step, PyGenerator.step, throw, PyGenerator.throw, hresume] at hruns
  | close => simp [step, PyGenerator.step, close, throw, PyGenerator.close, hresume] at hruns

/-- The replies of a call that starts a run of the body, in the states before it. -/
theorem step_reply [DecidableEq V] {g : ClosureGenerator σ} {p : PyGenerator σ}
    (h : Agrees b g p) (hopen : g.isClosed = false) {call : Call V E}
    (hstarts : g.NotStarted → Starts call) :
    (g.step b call).2.reply = (p.step b call).2.reply ↔
      RaisesNoStop (b.outcome g.pc (signal call) g.store) ∧
        (call = .close → ReturnsNone (b.outcome g.pc (signal call) g.store)) := by
  cases h with
  | notStarted s =>
    have hresume (signal : Signal V E) := guardedResume_eq ⟨Nat.le_refl 1, b.points_pos⟩ s signal
    have hstarts := hstarts ⟨rfl, rfl⟩
    cases call with
    | next =>
      simp [step, PyGenerator.step, send, PyGenerator.send, hresume, signal, handOn_eq_iff]
    | send value =>
      obtain rfl : value = PyObject.none := hstarts
      simp [step, PyGenerator.step, send, PyGenerator.send, hresume, signal, handOn_eq_iff]
    | throw exc => exact hstarts.elim
    | close => exact hstarts.elim
  | suspended pc s hsusp =>
    have hresume (signal : Signal V E) := guardedResume_eq ⟨by omega, hsusp.2⟩ s signal
    cases call with
    | next =>
      simp [step, PyGenerator.step, send, PyGenerator.send, hresume, signal, handOn_eq_iff]
    | send value =>
      simp [step, PyGenerator.step, send, PyGenerator.send, hresume, signal, handOn_eq_iff]
    | throw exc =>
      simp [step, PyGenerator.step, throw, PyGenerator.throw, hresume, signal, handOn_eq_iff]
    | close =>
      simp [step, PyGenerator.step, close, throw, PyGenerator.close, hresume, signal,
        turnAround_eq_iff]
  | finished pc s t => cases hopen

/-- Any other call is answered differently. -/
theorem step_differs [DecidableEq V] {g : ClosureGenerator σ} {p : PyGenerator σ}
    (h : Agrees b g p) (call : Call V E) (hguard : ¬ CallGuard b g call) :
    (g.step b call).2 ≠ (p.step b call).2 := by
  by_cases hstarts : g.NotStarted → Starts call
  · intro heq
    refine hguard ⟨hstarts, fun hopen => ?_, fun hopen hclose => ?_⟩
    · exact ((step_reply h hopen hstarts).mp (congrArg Answer.reply heq)).1
    · exact ((step_reply h hopen hstarts).mp (congrArg Answer.reply heq)).2 hclose
  · obtain ⟨hnew, hcall⟩ := Classical.not_imp.mp hstarts
    cases h with
    | notStarted s => exact start_differs s hcall
    | suspended pc s hsusp =>
      have hone : pc = 1 := hnew.2
      omega
    | finished pc s t => exact absurd hnew.1 (by simp)

end Resume

/-- A body that yields once, whatever resumes it, and then returns. -/
def yieldOnce : Body Unit (Option ℕ) Empty where
  points := 2
  enter point _ _ := if point = 1 then some ((), 2, .yielded (some 7))
    else some ((), point, .returned none)
  points_pos := by omega
  point_of_yielded := by
    intro point signal s s' point' value h
    split at h
    · obtain ⟨-, rfl⟩ : point = 1 ∧ point' = 2 := by simp_all
      omega
    · simp at h

instance : PyObject (Option ℕ) := ⟨none⟩

end ClosureGenerator

end DietPython.Generators
