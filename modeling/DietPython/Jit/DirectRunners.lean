import DietPython.Counters.Ids
import DietPython.Lib.Transducer
import Mathlib.Logic.Function.Basic

/-!
# The cache of direct runners

A call that finds no entry for its function marks it as in progress, lets go of the lock and
compiles. Meanwhile other calls come and go, on other threads or from inside of the compilation, so
that a history is any order of steps of any number of calls. What the compiler answers is part of
the history.

An attempt that ends with the query of the code pointer takes its mark away. One that finds no
function, or that the compiler refuses, does not.
-/

namespace DietPython.Jit

open Counters (FunctionId)
open Transducers

namespace DirectRunners

/-! ## Calls -/

section Calls

variable (H P : Type)

inductive DirectRunnerCacheEntry
  | inProgress
  | ready (handle : H)
  deriving DecidableEq

/-- Where a call stands that has marked its function. -/
inductive Stage
  | looking
  | compiling
  | querying (handle : H)
  | removing (err : String)
  | storing (handle : H) (codePtr : P)
  deriving DecidableEq

structure Call where
  functionId : FunctionId
  stage : Stage H P
  deriving DecidableEq

/-- The cache, and the calls that are running. -/
structure State where
  cache : FunctionId → Option (DirectRunnerCacheEntry H)
  calls : ℕ → Option (Call H P)

/-- What the compiler and the query of the code pointer answer, if they are asked. -/
structure Answer where
  handle : Except String H
  codePtr : Except String P

inductive Event
  /-- A call starts. -/
  | enter (call : ℕ) (functionId : FunctionId) (answer : Answer H P)
  /-- A call goes on. -/
  | advance (call : ℕ) (answer : Answer H P)

/-- A call returns. -/
structure Reply where
  functionId : FunctionId
  result : Except String (Option P)

end Calls

section Step

variable {H P : Type} (functions : List FunctionId)

def State.new (H P : Type) : State H P := ⟨fun _ => none, fun _ => none⟩

namespace State

variable (s : State H P)

def goTo (call : ℕ) (functionId : FunctionId) (stage : Stage H P) : State H P :=
  { s with calls := Function.update s.calls call (some ⟨functionId, stage⟩) }

def finish (call : ℕ) : State H P := { s with calls := Function.update s.calls call none }

def write (functionId : FunctionId) (entry : Option (DirectRunnerCacheEntry H)) : State H P :=
  { s with cache := Function.update s.cache functionId entry }

end State

def missingTarget (functionId : FunctionId) : String :=
  s!"missing direct-call target for function_id={functionId.display}"

/-- One step of a call that has marked its function. -/
def advance (s : State H P) (call : ℕ) (running : Call H P) (answer : Answer H P) :
    State H P × Option (Reply P) :=
  let functionId := running.functionId
  match running.stage with
  | .looking =>
    if functionId ∈ functions then (s.goTo call functionId .compiling, none)
    else (s.finish call, some ⟨functionId, .error (missingTarget functionId)⟩)
  | .compiling =>
    match answer.handle with
    | .ok handle => (s.goTo call functionId (.querying handle), none)
    | .error err => (s.finish call, some ⟨functionId, .error err⟩)
  | .querying handle =>
    match answer.codePtr with
    | .ok codePtr => (s.goTo call functionId (.storing handle codePtr), none)
    | .error err => (s.goTo call functionId (.removing err), none)
  | .removing err =>
    ((s.write functionId none).finish call, some ⟨functionId, .error err⟩)
  | .storing handle codePtr =>
    ((s.write functionId (some (.ready handle))).finish call,
      some ⟨functionId, .ok (some codePtr)⟩)

/-- `lookup_or_compile_direct_code_ptr`, in steps between which other calls may take theirs. An
event that names no such call changes nothing. -/
def step (s : State H P) : Event H P → State H P × Option (Reply P)
  | .enter call functionId answer =>
    match s.calls call with
    | some _ => (s, none)
    | none =>
      match s.cache functionId with
      | some (.ready _) => (s, some ⟨functionId, answer.codePtr.map some⟩)
      | some .inProgress => (s, some ⟨functionId, .ok none⟩)
      | none => ((s.write functionId (some .inProgress)).goTo call functionId .looking, none)
  | .advance call answer =>
    match s.calls call with
    | none => (s, none)
    | some running => advance functions s call running answer

def machine : Transducer (State H P) (Event H P) (Option (Reply P)) := ⟨step functions⟩

end Step

/-! ## The laws -/

section Laws

variable {H P : Type} (functions : List FunctionId)

/-- No call is running. -/
def State.Idle (s : State H P) : Prop := ∀ call, s.calls call = none

/-- What is marked as in progress is in progress. -/
def State.Clean (s : State H P) : Prop :=
  ∀ functionId, s.cache functionId = some .inProgress →
    ∃ call running, s.calls call = some running ∧ running.functionId = functionId

/-- The entry that a call has found when it started. -/
def entryBefore (s : State H P) (functionId : FunctionId) :
    Event H P → Option (DirectRunnerCacheEntry H)
  | .enter _ _ _ => s.cache functionId
  | .advance _ _ => none

/-- A call that fails leaves the entry that it has found. -/
def Restores (s : State H P) (e : Event H P) : Prop :=
  ∀ reply, (step functions s e).2 = some reply → ∀ err, reply.result = .error err →
    (step functions s e).1.cache reply.functionId = entryBefore s reply.functionId e

/-- The function of a call is one of the module, and it is compiled. -/
def Compiles (s : State H P) : Event H P → Prop
  | .enter _ _ _ => True
  | .advance call answer =>
    ∀ running, s.calls call = some running →
      (running.stage = .looking → running.functionId ∈ functions) ∧
      (running.stage = .compiling → ∃ handle, answer.handle = .ok handle)

/-- Nothing, or a handle. -/
def Settled : Option (DirectRunnerCacheEntry H) → Prop
  | some .inProgress => False
  | _ => True

end Laws

/-! ## One step -/

section Steps

variable {H P : Type} {functions : List FunctionId} {s : State H P} {call : ℕ}

/-- The function of a running call is marked, and no other call runs for it. -/
structure State.Marked (s : State H P) : Prop where
  inProgress : ∀ {call running}, s.calls call = some running →
    s.cache running.functionId = some .inProgress
  unique : ∀ {call call' running running'}, s.calls call = some running →
    s.calls call' = some running' → running.functionId = running'.functionId → call = call'

theorem calls_goTo {functionId : FunctionId} {stage : Stage H P} {other : ℕ} {running : Call H P}
    (h : (s.goTo call functionId stage).calls other = some running) :
    (other = call ∧ running = ⟨functionId, stage⟩) ∨
      (other ≠ call ∧ s.calls other = some running) := by
  have h : Function.update s.calls call (some ⟨functionId, stage⟩) other = some running := h
  by_cases heq : other = call
  · subst heq
    rw [Function.update_self] at h
    exact .inl ⟨rfl, (Option.some.inj h).symm⟩
  · rw [Function.update_of_ne heq] at h
    exact .inr ⟨heq, h⟩

theorem calls_goTo_self {functionId : FunctionId} {stage : Stage H P} :
    (s.goTo call functionId stage).calls call = some ⟨functionId, stage⟩ :=
  Function.update_self call _ s.calls

theorem calls_goTo_of_ne {functionId : FunctionId} {stage : Stage H P} {other : ℕ}
    (h : other ≠ call) : (s.goTo call functionId stage).calls other = s.calls other :=
  Function.update_of_ne h _ s.calls

theorem calls_finish {other : ℕ} {running : Call H P} :
    (s.finish call).calls other = some running ↔ other ≠ call ∧ s.calls other = some running := by
  show Function.update s.calls call none other = some running ↔ _
  by_cases heq : other = call
  · subst heq
    rw [Function.update_self]
    exact ⟨fun h => (by cases h), fun h => absurd rfl h.1⟩
  · rw [Function.update_of_ne heq]
    exact ⟨fun h => ⟨heq, h⟩, And.right⟩

theorem cache_write_self {functionId : FunctionId} {entry : Option (DirectRunnerCacheEntry H)} :
    (s.write functionId entry).cache functionId = entry := by
  show Function.update s.cache functionId entry functionId = entry
  exact Function.update_self functionId entry s.cache

theorem cache_write_of_ne {functionId other : FunctionId}
    {entry : Option (DirectRunnerCacheEntry H)} (h : other ≠ functionId) :
    (s.write functionId entry).cache other = s.cache other := by
  show Function.update s.cache functionId entry other = s.cache other
  exact Function.update_of_ne h entry s.cache

namespace State.Marked

/-- A running call goes on. -/
theorem goTo (h : s.Marked) {running : Call H P} (hrunning : s.calls call = some running)
    (stage : Stage H P) : (s.goTo call running.functionId stage).Marked := by
  constructor
  · intro other running' hother
    show s.cache running'.functionId = some .inProgress
    have hmarked := h.inProgress hrunning
    rcases calls_goTo hother with ⟨-, rfl⟩ | ⟨-, hother⟩
    · exact hmarked
    · exact h.inProgress hother
  · intro other other' running₁ running₂ h₁ h₂ heq
    rcases calls_goTo h₁ with ⟨rfl, rfl⟩ | ⟨-, h₁'⟩
    · rcases calls_goTo h₂ with ⟨rfl, -⟩ | ⟨-, h₂'⟩
      · rfl
      · exact h.unique hrunning h₂' heq
    · rcases calls_goTo h₂ with ⟨rfl, rfl⟩ | ⟨-, h₂'⟩
      · exact h.unique h₁' hrunning heq
      · exact h.unique h₁' h₂' heq

/-- A running call returns. -/
theorem finish (h : s.Marked) (call : ℕ) : (s.finish call).Marked := by
  constructor
  · intro other running hother
    exact h.inProgress (calls_finish.mp hother).2
  · intro other other' running₁ running₂ h₁ h₂
    exact h.unique (calls_finish.mp h₁).2 (calls_finish.mp h₂).2

/-- A running call writes its entry and returns. -/
theorem write_finish (h : s.Marked) {running : Call H P} (hrunning : s.calls call = some running)
    (entry : Option (DirectRunnerCacheEntry H)) :
    ((s.write running.functionId entry).finish call).Marked := by
  constructor
  · intro other running' hother
    obtain ⟨hne, hother⟩ := calls_finish.mp hother
    have hfunction : running'.functionId ≠ running.functionId := fun heq =>
      hne (h.unique hother hrunning heq)
    show (s.write running.functionId entry).cache running'.functionId = some .inProgress
    rw [cache_write_of_ne hfunction]
    exact h.inProgress hother
  · intro other other' running₁ running₂ h₁ h₂
    exact h.unique (calls_finish.mp h₁).2 (calls_finish.mp h₂).2

/-- A call marks its function. -/
theorem enter (h : s.Marked) {functionId : FunctionId} (hcache : s.cache functionId = none)
    (stage : Stage H P) :
    ((s.write functionId (some .inProgress)).goTo call functionId stage).Marked := by
  have hfresh : ∀ {other running}, s.calls other = some running →
      running.functionId ≠ functionId := by
    intro other running hother heq
    have hmarked := h.inProgress hother
    rw [heq, hcache] at hmarked
    cases hmarked
  constructor
  · intro other running hother
    show (s.write functionId (some .inProgress)).cache running.functionId = some .inProgress
    rcases calls_goTo hother with ⟨-, rfl⟩ | ⟨-, hother⟩
    · exact cache_write_self
    · rw [cache_write_of_ne (hfresh hother)]
      exact h.inProgress hother
  · intro other other' running₁ running₂ h₁ h₂ heq
    rcases calls_goTo h₁ with ⟨rfl, rfl⟩ | ⟨-, h₁'⟩
    · rcases calls_goTo h₂ with ⟨rfl, -⟩ | ⟨-, h₂'⟩
      · rfl
      · exact absurd heq.symm (hfresh h₂')
    · rcases calls_goTo h₂ with ⟨rfl, rfl⟩ | ⟨-, h₂'⟩
      · exact absurd heq (hfresh h₁')
      · exact h.unique h₁' h₂' heq

end State.Marked

theorem marked_new : (State.new H P).Marked := ⟨fun h => (by cases h), fun h => (by cases h)⟩

/-- Every step keeps the marks of the running calls. -/
theorem marked_step (h : s.Marked) (e : Event H P) : (step functions s e).1.Marked := by
  cases e with
  | enter call functionId answer =>
    rw [step]
    cases s.calls call with
    | some running => exact h
    | none =>
      cases hcache : s.cache functionId with
      | none => exact h.enter hcache .looking
      | some entry => cases entry <;> exact h
  | advance call answer =>
    rw [step]
    cases hcall : s.calls call with
    | none => exact h
    | some running =>
      obtain ⟨functionId, stage⟩ := running
      show (advance functions s call ⟨functionId, stage⟩ answer).1.Marked
      unfold advance
      cases stage with
      | looking =>
        by_cases hmem : functionId ∈ functions
        · simp only [if_pos hmem]
          exact h.goTo hcall .compiling
        · simp only [if_neg hmem]
          exact h.finish call
      | compiling =>
        cases answer.handle with
        | ok handle => exact h.goTo hcall (.querying handle)
        | error err => exact h.finish call
      | querying handle =>
        cases answer.codePtr with
        | ok codePtr => exact h.goTo hcall (.storing handle codePtr)
        | error err => exact h.goTo hcall (.removing err)
      | removing err => exact h.write_finish hcall none
      | storing handle codePtr => exact h.write_finish hcall (some (.ready handle))

namespace State.Clean

theorem goTo (h : s.Clean) {running : Call H P} (hrunning : s.calls call = some running)
    (stage : Stage H P) : (s.goTo call running.functionId stage).Clean := by
  intro functionId hcache
  obtain ⟨other, running', hother, rfl⟩ := h functionId hcache
  by_cases heq : other = call
  · subst heq
    obtain rfl := Option.some.inj (hrunning.symm.trans hother)
    exact ⟨other, _, calls_goTo_self, rfl⟩
  · exact ⟨other, running', (calls_goTo_of_ne heq).trans hother, rfl⟩

/-- A call that returns leaves its function without a mark. -/
theorem write_finish (h : s.Clean) {running : Call H P} (hrunning : s.calls call = some running)
    {entry : Option (DirectRunnerCacheEntry H)} (hentry : entry ≠ some .inProgress) :
    ((s.write running.functionId entry).finish call).Clean := by
  intro functionId hcache
  have hcache : (s.write running.functionId entry).cache functionId = some .inProgress := hcache
  by_cases heq : functionId = running.functionId
  · subst heq
    rw [cache_write_self] at hcache
    exact absurd hcache hentry
  · rw [cache_write_of_ne heq] at hcache
    obtain ⟨other, running', hother, rfl⟩ := h functionId hcache
    refine ⟨other, running', calls_finish.mpr ⟨?_, hother⟩, rfl⟩
    rintro rfl
    exact heq (congrArg Call.functionId (Option.some.inj (hother.symm.trans hrunning)))

theorem enter (h : s.Clean) (hcall : s.calls call = none) (functionId : FunctionId)
    (stage : Stage H P) :
    ((s.write functionId (some .inProgress)).goTo call functionId stage).Clean := by
  intro other hcache
  have hcache : (s.write functionId (some .inProgress)).cache other = some .inProgress := hcache
  by_cases heq : other = functionId
  · exact ⟨call, _, calls_goTo_self, heq.symm⟩
  · rw [cache_write_of_ne heq] at hcache
    obtain ⟨call', running, hrunning, rfl⟩ := h other hcache
    refine ⟨call', running, (calls_goTo_of_ne ?_).trans hrunning, rfl⟩
    rintro rfl
    rw [hcall] at hrunning
    cases hrunning

end State.Clean

/-- A call that only returns leaves its mark behind. -/
theorem not_clean_finish (h : s.Marked) {running : Call H P}
    (hrunning : s.calls call = some running) : ¬ (s.finish call).Clean := by
  intro hclean
  obtain ⟨other, running', hother, heq⟩ := hclean running.functionId (h.inProgress hrunning)
  obtain ⟨hne, hother⟩ := calls_finish.mp hother
  exact hne (h.unique hother hrunning heq)

theorem step_advance {running : Call H P} (h : s.calls call = some running)
    (answer : Answer H P) :
    step functions s (.advance call answer) = advance functions s call running answer := by
  rw [step, h]

theorem compiles_advance {running : Call H P} (h : s.calls call = some running)
    (answer : Answer H P) : Compiles functions s (.advance call answer) ↔
      (running.stage = .looking → running.functionId ∈ functions) ∧
        (running.stage = .compiling → ∃ handle, answer.handle = .ok handle) := by
  unfold Compiles
  constructor
  · exact fun hall => hall running h
  · rintro hone running' hrunning'
    obtain rfl := Option.some.inj (h.symm.trans hrunning')
    exact hone

/-- **One step.** -/
theorem clean_step_iff (h : s.Marked) (hclean : s.Clean) (e : Event H P) :
    (step functions s e).1.Clean ↔ Compiles functions s e := by
  cases e with
  | enter call functionId answer =>
    refine iff_of_true ?_ trivial
    rw [step]
    cases hcall : s.calls call with
    | some running => exact hclean
    | none =>
      cases hcache : s.cache functionId with
      | none => exact hclean.enter hcall functionId .looking
      | some entry => cases entry <;> exact hclean
  | advance call answer =>
    cases hcall : s.calls call with
    | none =>
      rw [step, hcall]
      refine iff_of_true hclean fun running hrunning => ?_
      rw [hcall] at hrunning
      cases hrunning
    | some running =>
      obtain ⟨functionId, stage⟩ := running
      rw [step_advance hcall, compiles_advance hcall]
      cases stage with
      | looking =>
        rw [advance]
        by_cases hmem : functionId ∈ functions
        · rw [if_pos hmem]
          refine iff_of_true (hclean.goTo hcall .compiling) ⟨fun _ => hmem, fun hne => ?_⟩
          cases hne
        · rw [if_neg hmem]
          exact iff_of_false (not_clean_finish h hcall) fun hboth => hmem (hboth.1 rfl)
      | compiling =>
        rw [advance]
        cases hanswer : answer.handle with
        | ok handle =>
          refine iff_of_true (hclean.goTo hcall (.querying handle)) ⟨fun hne => (by cases hne), ?_⟩
          exact fun _ => ⟨handle, rfl⟩
        | error err =>
          refine iff_of_false (not_clean_finish h hcall) fun hboth => ?_
          obtain ⟨handle, hhandle⟩ := hboth.2 rfl
          cases hhandle
      | querying handle =>
        have hfuture : ∀ stage, (s.goTo call functionId stage).Clean := hclean.goTo hcall
        refine iff_of_true ?_ ⟨fun hne => (by cases hne), fun hne => (by cases hne)⟩
        rw [advance]
        cases answer.codePtr with
        | ok codePtr => exact hfuture (.storing handle codePtr)
        | error err => exact hfuture (.removing err)
      | removing err =>
        refine iff_of_true ?_ ⟨fun hne => (by cases hne), fun hne => (by cases hne)⟩
        exact hclean.write_finish hcall fun hne => (by cases hne)
      | storing handle codePtr =>
        refine iff_of_true ?_ ⟨fun hne => (by cases hne), fun hne => (by cases hne)⟩
        exact hclean.write_finish hcall fun hne => (by cases hne)

/-- A call that returns at once changes nothing. -/
theorem step_enter_reply {functionId : FunctionId} {answer : Answer H P} {reply : Reply P}
    (h : (step functions s (.enter call functionId answer)).2 = some reply) :
    (step functions s (.enter call functionId answer)).1 = s := by
  rw [step] at h ⊢
  cases hcall : s.calls call with
  | some running => rfl
  | none =>
    simp only [hcall] at h
    cases hcache : s.cache functionId with
    | none =>
      rw [hcache] at h
      cases h
    | some entry => cases entry <;> rfl

/-- A call that fails is one that takes its mark away, unless it has no code to run. -/
theorem restores_iff (h : s.Marked) (e : Event H P) :
    Restores functions s e ↔ Compiles functions s e := by
  cases e with
  | enter call functionId answer =>
    refine iff_of_true (fun reply hreply err herr => ?_) trivial
    rw [step_enter_reply hreply]
    rfl
  | advance call answer =>
    cases hcall : s.calls call with
    | none =>
      have hnone : (step functions s (.advance call answer)).2 = none := by
        rw [step, hcall]
      refine iff_of_true (fun reply hreply => ?_) fun running hrunning => ?_
      · rw [hnone] at hreply
        cases hreply
      · rw [hcall] at hrunning
        cases hrunning
    | some running =>
      obtain ⟨functionId, stage⟩ := running
      have hmarked := h.inProgress hcall
      unfold Restores
      rw [step_advance hcall, compiles_advance hcall]
      cases stage with
      | looking =>
        rw [advance]
        by_cases hmem : functionId ∈ functions
        · rw [if_pos hmem]
          refine iff_of_true (fun reply hreply => ?_) ⟨fun _ => hmem, fun hne => (by cases hne)⟩
          cases hreply
        · rw [if_neg hmem]
          refine iff_of_false (fun hrestores => ?_) fun hboth => hmem (hboth.1 rfl)
          have hnone := hrestores _ rfl _ rfl
          rw [show (s.finish call).cache functionId = some .inProgress from hmarked] at hnone
          cases hnone
      | compiling =>
        rw [advance]
        cases hanswer : answer.handle with
        | ok handle =>
          refine iff_of_true (fun reply hreply => ?_) ⟨fun hne => (by cases hne), ?_⟩
          · cases hreply
          · exact fun _ => ⟨handle, rfl⟩
        | error err =>
          refine iff_of_false (fun hrestores => ?_) fun hboth => ?_
          · have hnone := hrestores _ rfl _ rfl
            rw [show (s.finish call).cache functionId = some .inProgress from hmarked] at hnone
            cases hnone
          · obtain ⟨handle, hhandle⟩ := hboth.2 rfl
            cases hhandle
      | querying handle =>
        refine iff_of_true (fun reply hreply => ?_)
          ⟨fun hne => (by cases hne), fun hne => (by cases hne)⟩
        rw [advance] at hreply
        cases hptr : answer.codePtr <;> rw [hptr] at hreply <;> cases hreply
      | removing err =>
        refine iff_of_true (fun reply hreply err' herr => ?_)
          ⟨fun hne => (by cases hne), fun hne => (by cases hne)⟩
        obtain rfl := Option.some.inj hreply
        exact cache_write_self
      | storing handle codePtr =>
        refine iff_of_true (fun reply hreply err' herr => ?_)
          ⟨fun hne => (by cases hne), fun hne => (by cases hne)⟩
        obtain rfl := Option.some.inj hreply
        cases herr

end Steps

/-! ## Histories -/

section Histories

variable {H P : Type} {functions : List FunctionId}

/-- Nothing is running, and no mark is left. -/
theorem State.Clean.settled {s : State H P} (h : s.Clean) (hidle : s.Idle)
    (functionId : FunctionId) : Settled (s.cache functionId) := by
  cases hcache : s.cache functionId with
  | none => trivial
  | some entry =>
    cases entry with
    | ready handle => trivial
    | inProgress =>
      obtain ⟨call, running, hrunning, -⟩ := h functionId hcache
      rw [hidle call] at hrunning
      cases hrunning

/-- **Direct runners.** In a history of calls of a new module state, whenever no call is running the
cache has nothing or a handle for every function, and every call that fails leaves the entry that
it has found, exactly if every call that marks a function finds it in the module and has it
compiled. -/
theorem settled_iff (events : List (Event H P)) :
    ((∀ s ∈ (machine functions).trace (.new H P) events, s.Idle →
        ∀ functionId, Settled (s.cache functionId)) ∧
      (machine functions).Guarded (Restores functions) (.new H P) events) ↔
        (machine functions).Guarded (Compiles functions) (.new H P) events := by
  have hrestores : (machine functions).Guarded (Restores functions) (.new H P) events ↔
      (machine functions).Guarded (Compiles functions) (.new H P) events := by
    have hstep : ∀ (s t : State H P) (e : Event H P), s = t ∧ s.Marked →
        ((machine functions).step s e).1 = ((machine functions).step t e).1 ∧
          ((machine functions).step s e).1.Marked := by
      rintro s _ e ⟨rfl, h⟩
      exact ⟨rfl, marked_step h e⟩
    refine Transducer.guarded_iff_of_rel _ _ hstep ?_ ⟨rfl, marked_new⟩ events
    rintro s _ e ⟨rfl, h⟩
    exact restores_iff h e
  have hclean : (∀ s ∈ (machine functions).trace (.new H P) events, s.Clean) ↔
      (machine functions).Guarded (Compiles functions) (.new H P) events := by
    have hkeeps : ∀ (s : State H P) (e : Event H P), s.Marked →
        ((machine functions).step s e).1.Marked := fun s e h => marked_step h e
    have hone : ∀ (s : State H P) (e : Event H P), s.Marked → s.Clean →
        (((machine functions).step s e).1.Clean ↔ Compiles functions s e) :=
      fun s e h hs => clean_step_iff h hs e
    have hnew : (State.new H P).Clean := fun _ h => by cases h
    exact Transducer.trace_invariant_iff _ _ hkeeps hone marked_new hnew events
  constructor
  · exact fun h => hrestores.mp h.2
  · intro h
    refine ⟨fun s hs hidle functionId => ?_, hrestores.mpr h⟩
    exact (hclean.mpr h s hs).settled hidle functionId

/-- A call whose function is not compiled, and a later one. -/
def refusedThenAgain (functionId : FunctionId) : List (Event Unit Unit) :=
  let answer : Answer Unit Unit := ⟨.error "unsupported", .ok ()⟩
  [.enter 0 functionId answer, .advance 0 answer, .advance 0 answer, .enter 1 functionId answer]

/-- The mark is left, and the later call is told that its function is still in progress. -/
theorem refusedThenAgain_inProgress :
    ((machine [.new 1 2]).outputs (.new Unit Unit) (refusedThenAgain (.new 1 2)))[3]? =
        some (some ⟨.new 1 2, .ok none⟩) ∧
      ¬ ∀ events, (∀ s ∈ (machine [.new 1 2]).trace (.new Unit Unit) events, s.Idle →
          ∀ functionId, Settled (s.cache functionId)) ∧
        (machine [.new 1 2]).Guarded (Restores [.new 1 2]) (.new Unit Unit) events := by
  refine ⟨rfl, fun hall => ?_⟩
  have hidle :
      ((machine [.new 1 2]).final (.new Unit Unit) (refusedThenAgain (.new 1 2))).Idle := by
    intro call
    cases call with
    | zero => rfl
    | succ call => rfl
  exact (hall (refusedThenAgain (.new 1 2))).1 _ (Transducer.final_mem_trace _ _ _) hidle (.new 1 2)

end Histories

end DirectRunners

end DietPython.Jit
