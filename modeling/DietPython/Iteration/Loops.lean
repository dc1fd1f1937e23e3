import DietPython.Iteration.Helpers

/-!
# Loops and awaits

What the protocols allow a round of a loop, or an `await`, to do, and when the lowered code keeps to
it. A run of a loop is a relation, so that a loop may also go on forever.

1. `NextAllows`, `AnextAllows` and `AwaitAllows` are the protocols. They drive what `__await__`
   returns, from a first `None` on.
2. `NextFine`, `AnextFine` and `AwaitFine` are conditions on what the methods of the program do, and
   on what has resumed the coroutine.
3. A loop keeps to its protocol in all runs, whatever its body does, exactly if every call is fine
   (`loops_allowed_iff`).
-/

namespace DietPython.Iteration

open Generators (Resumption)

/-! ## Runs of loops -/

/-- What the body of a loop does with an item. -/
inductive BodyEnd (X : Type)
  | continues
  /-- `break`, `return` or an exception -/
  | leaves (how : X)

inductive LoopEnd (X E : Type)
  /-- The loop ends by itself, and goes on with its `else`. -/
  | exhausted
  | left (how : X)
  | raised (raised : Raised E)

/-- The runs of a loop that end. -/
inductive LoopRun {σ V E X : Type} (round : σ → Round V E × σ → Prop)
    (body : V → σ → BodyEnd X × σ) : σ → LoopEnd X E × σ → Prop
  | exhausted {s s' : σ} (h : round s (.exhausted, s')) : LoopRun round body s (.exhausted, s')
  | raised {s s' : σ} {raised : Raised E} (h : round s (.raised raised, s')) :
    LoopRun round body s (.raised raised, s')
  | leaves {s s₁ s' : σ} {value : V} {how : X} (h : round s (.item value, s₁))
    (hbody : body value s₁ = (.leaves how, s')) : LoopRun round body s (.left how, s')
  | continues {s s₁ s₂ : σ} {value : V} {last : LoopEnd X E × σ} (h : round s (.item value, s₁))
    (hbody : body value s₁ = (.continues, s₂)) (hrest : LoopRun round body s₂ last) :
    LoopRun round body s last

section Runs

variable {σ V E : Type} {round round' : σ → Round V E × σ → Prop}

/-- If every round keeps to the protocol, every run does. -/
theorem LoopRun.mono {X : Type} {body : V → σ → BodyEnd X × σ} {s : σ} {last : LoopEnd X E × σ}
    (hround : ∀ s result, round s result → round' s result) (h : LoopRun round body s last) :
    LoopRun round' body s last := by
  induction h with
  | exhausted h => exact .exhausted (hround _ _ h)
  | raised h => exact .raised (hround _ _ h)
  | leaves h hbody => exact .leaves (hround _ _ h) hbody
  | continues h hbody _ ih => exact .continues (hround _ _ h) hbody ih

/-- The body that leaves the loop with the first item. -/
def leaveWith (value : V) (s : σ) : BodyEnd (V × σ) × σ := (.leaves (value, s), s)

theorem round_of_loopRun {s : σ} {result : Round V E × σ} (h : round s result)
    (hruns : ∀ last, LoopRun round leaveWith s last → LoopRun round' leaveWith s last) :
    round' s result := by
  obtain ⟨outcome, s'⟩ := result
  cases outcome with
  | item value =>
    cases hruns _ (.leaves h rfl) with
    | leaves h' hbody =>
      cases hbody
      exact h'
    | continues _ hbody _ => cases hbody
  | exhausted =>
    cases hruns _ (.exhausted h) with
    | exhausted h' => exact h'
    | continues _ hbody _ => cases hbody
  | raised raised =>
    cases hruns _ (.raised h) with
    | raised h' => exact h'
    | continues _ hbody _ => cases hbody

/-- The runs keep to a protocol, whatever the body does, exactly if the rounds do. -/
theorem loopRuns_iff : (∀ (X : Type) (body : V → σ → BodyEnd X × σ) (s : σ)
      (last : LoopEnd X E × σ), LoopRun round body s last → LoopRun round' body s last) ↔
    ∀ s result, round s result → round' s result := by
  constructor
  · intro hruns s result h
    exact round_of_loopRun h (hruns _ leaveWith s)
  · intro hround X body s last h
    exact h.mono hround

end Runs

/-! ## The protocols -/

section Protocols

variable {σ V E : Type}

/-- How a call of a method of the program that raises an exception ends a round. -/
def roundOfExc (isStop : E → Bool) (exc : E) : Round V E :=
  if isStop exc then .exhausted else .raised (.user exc)

/-- A `TypeError` of the protocol itself. -/
def IsTypeError (s : σ) (result : Round V E × σ) : Prop :=
  ∃ cause, result = (.raised (.typeError cause), s)

/-- What `__next__` lets a `for` loop do. -/
def NextAllows (classes : ExceptionClasses E) (iterator : NextObject σ V E) (s : σ)
    (result : Round V E × σ) : Prop :=
  match iterator.next with
  | none => IsTypeError s result
  | some next =>
    match next s with
    | (.ok value, s) => result = (.item value, s)
    | (.error exc, s) => result = (roundOfExc classes.isStopIteration exc, s)

variable {classes : ExceptionClasses E} (pyNone : V)

/-- What the object that `__anext__` returns lets an `async for` loop do. A failure of `__await__`
may be turned into a `TypeError` that has it as its cause. -/
def AwaitedItemAllows (awaitable : AwaitableObject σ (DelegateIterator σ V classes) E) (s : σ)
    (result : Round V E × σ) : Prop :=
  match awaitable.await with
  | none => IsTypeError s result
  | some await =>
    match await s with
    | (.error exc, s) =>
      result = (.raised (.typeError (some exc)), s) ∨ result = (.raised (.user exc), s)
    | (.ok none, s) => IsTypeError s result
    | (.ok (some iterator), s) =>
      match iterator.drive (.send pyNone) s with
      | (.finished value, s) => result = (.item value, s)
      | (.raised exc, s) => result = (roundOfExc classes.isStopAsyncIteration exc.1, s)

/-- What `__anext__` lets an `async for` loop do. -/
def AnextAllows (iterator : AnextObject σ V classes) (s : σ) (result : Round V E × σ) : Prop :=
  match iterator.anext with
  | none => IsTypeError s result
  | some anext =>
    match anext s with
    | (.error exc, s) => result = (roundOfExc classes.isStopAsyncIteration exc, s)
    | (.ok awaitable, s) => AwaitedItemAllows pyNone awaitable s result

/-- What `__await__` lets an `await` do. -/
def AwaitAllows (awaitable : AwaitableObject σ (DelegateIterator σ V classes) E) (s : σ)
    (result : Except (Raised E) V × σ) : Prop :=
  match awaitable.await with
  | none => ∃ cause, result = (.error (.typeError cause), s)
  | some await =>
    match await s with
    | (.error exc, s) => result = (.error (.user exc), s)
    | (.ok none, s) => ∃ cause, result = (.error (.typeError cause), s)
    | (.ok (some iterator), s) => result = drivenResult (iterator.drive (.send pyNone) s)

end Protocols

/-! ## Fine calls -/

section Fine

variable {σ V E : Type} (iterComplete : V)

/-- `__next__` does not raise an `AttributeError` or return `ITER_COMPLETE`. -/
def NextFine (classes : ExceptionClasses E) (iterator : NextObject σ V E) (s : σ) : Prop :=
  match iterator.next with
  | none => True
  | some next =>
    match next s with
    | (.ok value, _) => value ≠ iterComplete
    | (.error exc, _) => classes.isAttributeError exc = false

variable {classes : ExceptionClasses E} (pyNone : V)

/-- `__await__` of the object that `__anext__` returns does not raise an `AttributeError`, and
awaiting it does not give `ITER_COMPLETE`. -/
def AwaitedItemFine (awaitable : AwaitableObject σ (DelegateIterator σ V classes) E) (s : σ) :
    Prop :=
  match awaitable.await with
  | none => True
  | some await =>
    match await s with
    | (.error exc, _) => classes.isAttributeError exc = false
    | (.ok none, _) => True
    | (.ok (some iterator), s) =>
      match iterator.drive (.send pyNone) s with
      | (.finished value, _) => value ≠ iterComplete
      | (.raised _, _) => True

/-- `__anext__` itself raises none of the three exceptions that the helper or its coroutine takes
for something else. -/
def AnextCallFine (iterator : AnextObject σ V classes) (s : σ) : Prop :=
  match iterator.anext with
  | none => True
  | some anext =>
    match anext s with
    | (.error exc, _) => classes.isAttributeError exc = false ∧
        classes.isStopIteration exc = false ∧ classes.isStopAsyncIteration exc = false
    | (.ok awaitable, s) => AwaitedItemFine iterComplete pyNone awaitable s

/-- A method is missing or returns an invalid object, and nothing has changed until then. -/
def InvalidAnyway (iterator : AnextObject σ V classes) (s : σ) : Prop :=
  match iterator.anext with
  | none => True
  | some anext =>
    match anext s with
    | (.error _, _) => False
    | (.ok awaitable, s₁) =>
      match awaitable.await with
      | none => s₁ = s
      | some await =>
        match await s₁ with
        | (.error _, _) | (.ok (some _), _) => False
        | (.ok none, s₂) => s₂ = s

/-- A method raises this exception, and nothing has changed until then. -/
def RaisesAnyway (iterator : AnextObject σ V classes) (s : σ) (exc : E) : Prop :=
  match iterator.anext with
  | none => False
  | some anext =>
    match anext s with
    | (.error exc', s₁) => exc' = exc ∧ s₁ = s ∧ classes.isStopAsyncIteration exc = false
    | (.ok awaitable, s₁) =>
      match awaitable.await with
      | none => False
      | some await =>
        match await s₁ with
        | (.error exc', s₂) => exc' = exc ∧ s₂ = s
        | (.ok none, _) => False
        | (.ok (some iterator), s₂) =>
          match iterator.drive (.send pyNone) s₂ with
          | (.finished _, _) => False
          | (.raised exc', s₃) =>
            exc'.1 = exc ∧ s₃ = s ∧ classes.isStopAsyncIteration exc = false

/-- In a run that `None` has started, the calls of the methods are fine. In any other run they are
not made, which is fine where they come to the same. -/
def AnextFine [DecidableEq V] (current : σ → Resumption V E) (iterator : AnextObject σ V classes)
    (s : σ) : Prop :=
  match current s with
  | .send value =>
    if value = pyNone then AnextCallFine iterComplete pyNone iterator s
    else InvalidAnyway iterator s
  | .throw exc => classes.isStopIteration exc = false ∧ RaisesAnyway pyNone iterator s exc

/-- `iter` of the iterator gives one that goes on with what has resumed the coroutine as the
iterator itself goes on with `None`. Where `__iter__` raises, the iterator would have raised it. -/
def IterFine (current : σ → Resumption V E) (iterator : DelegateIterator σ V classes) (s : σ) :
    Prop :=
  match iterator.iter with
  | none => False
  | some iter =>
    match iter s with
    | (.ok none, _) => False
    | (.ok (some drive), s') => drive (current s') s' = iterator.drive (.send pyNone) s
    | (.error exc, s') => ∃ hstop : classes.isStopIteration exc = false,
        iterator.drive (.send pyNone) s = (.raised ⟨exc, hstop⟩, s')

/-- `__await__` raises nothing below `Exception`, and what it returns can be delegated to. -/
def AwaitFine (current : σ → Resumption V E)
    (awaitable : AwaitableObject σ (DelegateIterator σ V classes) E) (s : σ) : Prop :=
  match awaitable.await with
  | none => True
  | some await =>
    match await s with
    | (.error exc, _) => classes.isException exc = false
    | (.ok none, _) => True
    | (.ok (some iterator), s) => IterFine pyNone current iterator s

end Fine

/-! ## What the lowered code does -/

section Lowered

variable {σ V E : Type}

/-- What has been driven says all about how it ended. -/
theorem drivenResult_inj {classes : ExceptionClasses E} {driven driven' : Driven V classes × σ} :
    drivenResult driven = drivenResult driven' ↔ driven = driven' := by
  obtain ⟨value | exc, s⟩ := driven <;> obtain ⟨value' | exc', s'⟩ := driven' <;>
    simp [drivenResult, Subtype.ext_iff]

/-- The lowered delegation from an iterator, against driving the iterator itself. -/
theorem iterOf_allows_iff {classes : ExceptionClasses E} (pyNone : V)
    (current : σ → Resumption V E) (iterator : DelegateIterator σ V classes) (s : σ) :
    (match iterOf iterator s with
      | (.error raised, s) => (.error raised, s)
      | (.ok drive, s) => drivenResult (drive (current s) s)) =
        drivenResult (iterator.drive (.send pyNone) s) ↔
      IterFine pyNone current iterator s := by
  obtain ⟨iter, drive⟩ := iterator
  unfold iterOf IterFine
  dsimp only
  cases iter with
  | none =>
    generalize drive (.send pyNone) s = driven
    obtain ⟨value | exc, s₁⟩ := driven <;> simp [drivenResult]
  | some iter =>
    dsimp only
    generalize iter s = call
    obtain ⟨exc | _ | delegate, s₁⟩ := call
    · generalize drive (.send pyNone) s = driven
      obtain ⟨value | exc', s₂⟩ := driven
      · simp [drivenResult]
      · obtain ⟨exc', hstop⟩ := exc'
        simp only [drivenResult, Prod.mk.injEq, Except.error.injEq, Raised.user.injEq,
          Driven.raised.injEq, Subtype.mk.injEq]
        constructor
        · rintro ⟨rfl, rfl⟩
          exact ⟨hstop, rfl, rfl⟩
        · rintro ⟨-, rfl, rfl⟩
          exact ⟨rfl, rfl⟩
    · generalize drive (.send pyNone) s = driven
      obtain ⟨value | exc, s₂⟩ := driven <;> simp [drivenResult]
    · exact drivenResult_inj

theorem awaitAllows_iff {classes : ExceptionClasses E} (pyNone : V) (current : σ → Resumption V E)
    (awaitable : AwaitableObject σ (DelegateIterator σ V classes) E) (s : σ) :
    AwaitAllows pyNone awaitable s (lowerAwait current awaitable s) ↔
      AwaitFine pyNone current awaitable s := by
  unfold AwaitAllows AwaitFine lowerAwait awaitIter
  cases awaitable.await with
  | none => exact iff_of_true ⟨none, rfl⟩ trivial
  | some await =>
    dsimp only
    generalize await s = call
    obtain ⟨exc | _ | iterator, s₁⟩ := call
    · have hclass := classes.exception_of_attributeError exc
      dsimp only
      cases hattr : classes.isAttributeError exc with
      | true => simp [hclass hattr]
      | false => cases classes.isException exc <;> simp
    · exact iff_of_true ⟨none, rfl⟩ trivial
    · exact iterOf_allows_iff pyNone current iterator s₁

/-- A round in which the coroutine of the helper refuses a value. -/
theorem anextAllows_typeError_iff {classes : ExceptionClasses E} (pyNone : V)
    (iterator : AnextObject σ V classes) (s : σ) :
    AnextAllows pyNone iterator s (.raised (.typeError none), s) ↔ InvalidAnyway iterator s := by
  obtain ⟨anext | anext⟩ := iterator
  · exact iff_of_true ⟨none, rfl⟩ trivial
  · unfold AnextAllows InvalidAnyway
    dsimp only
    generalize anext s = call
    obtain ⟨exc | awaitable, s₁⟩ := call
    · dsimp only [roundOfExc]
      cases classes.isStopAsyncIteration exc <;> simp
    · unfold AwaitedItemAllows IsTypeError
      dsimp only
      cases awaitable.await with
      | none => simp [eq_comm]
      | some await =>
        dsimp only
        generalize await s₁ = call
        obtain ⟨exc | _ | iterator, s₂⟩ := call
        · simp
        · simp [eq_comm]
        · dsimp only
          generalize iterator.drive (.send pyNone) s₂ = driven
          obtain ⟨value | exc, s₃⟩ := driven
          · simp
          · dsimp only [roundOfExc]
            cases classes.isStopAsyncIteration exc.1 <;> simp

/-- A round in which an exception is raised where the coroutine of the helper begins. -/
theorem anextAllows_user_iff {classes : ExceptionClasses E} (pyNone : V)
    (iterator : AnextObject σ V classes) (s : σ) (exc : E) :
    AnextAllows pyNone iterator s (.raised (.user exc), s) ↔
      RaisesAnyway pyNone iterator s exc := by
  obtain ⟨anext | anext⟩ := iterator
  · simp [AnextAllows, RaisesAnyway, IsTypeError]
  · unfold AnextAllows RaisesAnyway
    dsimp only
    generalize anext s = call
    obtain ⟨exc' | awaitable, s₁⟩ := call
    · dsimp only [roundOfExc]
      by_cases hexc : exc = exc'
      · subst hexc
        cases classes.isStopAsyncIteration exc <;> simp [eq_comm]
      · cases classes.isStopAsyncIteration exc' <;> simp [hexc, Ne.symm hexc]
    · unfold AwaitedItemAllows IsTypeError
      dsimp only
      cases awaitable.await with
      | none => simp
      | some await =>
        dsimp only
        generalize await s₁ = call
        obtain ⟨exc' | _ | iterator, s₂⟩ := call
        · simp [eq_comm]
        · simp
        · dsimp only
          generalize iterator.drive (.send pyNone) s₂ = driven
          obtain ⟨value | exc', s₃⟩ := driven
          · simp
          · dsimp only [roundOfExc]
            by_cases hexc : exc = exc'.1
            · subst hexc
              cases classes.isStopAsyncIteration exc'.1 <;> simp [eq_comm]
            · cases classes.isStopAsyncIteration exc'.1 <;> simp [hexc, Ne.symm hexc]

theorem not_anextAllows_runtimeError {classes : ExceptionClasses E} (pyNone : V)
    (iterator : AnextObject σ V classes) (s : σ) (exc : E) :
    ¬ AnextAllows pyNone iterator s (.raised (.runtimeError exc), s) := by
  obtain ⟨anext | anext⟩ := iterator
  · simp [AnextAllows, IsTypeError]
  · unfold AnextAllows AwaitedItemAllows IsTypeError
    dsimp only
    generalize anext s = call
    obtain ⟨exc' | awaitable, s₁⟩ := call
    · dsimp only [roundOfExc]
      cases classes.isStopAsyncIteration exc' <;> simp
    · dsimp only
      cases awaitable.await with
      | none => simp
      | some await =>
        dsimp only
        generalize await s₁ = call
        obtain ⟨exc' | _ | iterator, s₂⟩ := call
        · simp
        · simp
        · dsimp only
          generalize iterator.drive (.send pyNone) s₂ = driven
          obtain ⟨value | exc', s₃⟩ := driven
          · simp
          · dsimp only [roundOfExc]
            cases classes.isStopAsyncIteration exc'.1 <;> simp

variable [DecidableEq V] (iterComplete : V)

theorem nextAllows_iff (classes : ExceptionClasses E) (iterator : NextObject σ V E) (s : σ) :
    NextAllows classes iterator s (forRound iterComplete classes iterator s) ↔
      NextFine iterComplete classes iterator s := by
  unfold NextAllows NextFine forRound nextOrSentinel
  cases iterator.next with
  | none => exact iff_of_true ⟨none, rfl⟩ trivial
  | some next =>
    dsimp only
    generalize next s = call
    obtain ⟨exc | value, s₁⟩ := call
    · dsimp only [roundOfExc]
      cases classes.isAttributeError exc with
      | true => cases classes.isStopIteration exc <;> simp [checkComplete]
      | false => cases classes.isStopIteration exc <;> simp [checkComplete]
    · by_cases hvalue : value = iterComplete <;> simp [checkComplete, hvalue]

variable {classes : ExceptionClasses E} (pyNone : V) (current : σ → Resumption V E)

/-- How a round ends that runs the helper. -/
def roundOfBody (iterator : AnextObject σ V classes) (s : σ) : Round V E × σ :=
  match anextOrSentinelBody iterComplete pyNone iterator s with
  | (.ok value, s) => (if value = iterComplete then .exhausted else .item value, s)
  | (.error raised, s) => (.raised (leaveCoroutine classes raised), s)

theorem asyncForRound_of_none {s : σ} (iterator : AnextObject σ V classes)
    (hcurrent : current s = .send pyNone) :
    asyncForRound iterComplete pyNone current iterator s =
      roundOfBody iterComplete pyNone iterator s := by
  unfold asyncForRound anextOrSentinel roundOfBody
  rw [hcurrent]
  dsimp only
  rw [if_pos rfl]
  generalize anextOrSentinelBody iterComplete pyNone iterator s = result
  obtain ⟨raised | value, s₁⟩ := result <;> rfl

theorem asyncForRound_of_send {s : σ} {value : V} (iterator : AnextObject σ V classes)
    (hcurrent : current s = .send value) (hvalue : value ≠ pyNone) :
    asyncForRound iterComplete pyNone current iterator s = (.raised (.typeError none), s) := by
  unfold asyncForRound anextOrSentinel
  rw [hcurrent]
  dsimp only
  rw [if_neg hvalue]
  rfl

theorem asyncForRound_of_throw {s : σ} {exc : E} (iterator : AnextObject σ V classes)
    (hcurrent : current s = .throw exc) :
    asyncForRound iterComplete pyNone current iterator s =
      (.raised (leaveCoroutine classes (.user exc)), s) := by
  unfold asyncForRound anextOrSentinel
  rw [hcurrent]
  rfl

/-- A round from the object that `__anext__` returned. -/
theorem awaitedItemAllows_iff
    (awaitable : AwaitableObject σ (DelegateIterator σ V classes) E)
    (anext : σ → Except E (AwaitableObject σ (DelegateIterator σ V classes) E) × σ) (s s₁ : σ)
    (hcall : anext s = (.ok awaitable, s₁)) :
    AwaitedItemAllows pyNone awaitable s₁ (roundOfBody iterComplete pyNone ⟨some anext⟩ s) ↔
      AwaitedItemFine iterComplete pyNone awaitable s₁ := by
  unfold AwaitedItemAllows AwaitedItemFine roundOfBody anextOrSentinelBody awaitIter
  dsimp only
  rw [hcall]
  dsimp only
  cases awaitable.await with
  | none => exact iff_of_true ⟨none, rfl⟩ trivial
  | some await =>
    dsimp only
    generalize await s₁ = call
    obtain ⟨exc | _ | iterator, s₂⟩ := call
    · have hstop := classes.exception_of_stopIteration exc
      dsimp only
      cases hattr : classes.isAttributeError exc with
      | true => simp [leaveCoroutine]
      | false =>
        cases hexc : classes.isException exc with
        | true => simp [leaveCoroutine]
        | false =>
          have hother : classes.isStopIteration exc = false := by
            rw [hexc] at hstop
            exact Bool.eq_false_iff.mpr fun h => Bool.false_ne_true (hstop h)
          simp [leaveCoroutine, hother]
    · exact iff_of_true ⟨none, rfl⟩ trivial
    · dsimp only
      generalize iterator.drive (.send pyNone) s₂ = driven
      obtain ⟨value | exc, s₃⟩ := driven
      · by_cases hvalue : value = iterComplete <;> simp [hvalue]
      · dsimp only [roundOfExc]
        cases classes.isStopAsyncIteration exc.1 <;> simp [leaveCoroutine, exc.2]

/-- A round in which the helper runs. -/
theorem anextCallAllows_iff (iterator : AnextObject σ V classes) (s : σ) :
    AnextAllows pyNone iterator s (roundOfBody iterComplete pyNone iterator s) ↔
      AnextCallFine iterComplete pyNone iterator s := by
  obtain ⟨anext | anext⟩ := iterator
  · exact iff_of_true ⟨none, rfl⟩ trivial
  · cases hcall : anext s with
    | mk outcome s₁ =>
      cases outcome with
      | ok awaitable =>
        unfold AnextAllows AnextCallFine
        dsimp only
        rw [hcall]
        exact awaitedItemAllows_iff iterComplete pyNone awaitable anext s s₁ hcall
      | error exc =>
        unfold AnextAllows AnextCallFine roundOfBody anextOrSentinelBody
        dsimp only [roundOfExc]
        rw [hcall]
        dsimp only
        cases hstop : classes.isStopIteration exc <;>
          cases classes.isAttributeError exc <;>
          cases classes.isStopAsyncIteration exc <;>
          simp [leaveCoroutine, hstop]

theorem anextAllows_iff (iterator : AnextObject σ V classes) (s : σ) :
    AnextAllows pyNone iterator s (asyncForRound iterComplete pyNone current iterator s) ↔
      AnextFine iterComplete pyNone current iterator s := by
  unfold AnextFine
  cases hcurrent : current s with
  | send value =>
    dsimp only
    by_cases hvalue : value = pyNone
    · subst hvalue
      rw [if_pos rfl, asyncForRound_of_none iterComplete value current iterator hcurrent]
      exact anextCallAllows_iff iterComplete value iterator s
    · rw [if_neg hvalue,
        asyncForRound_of_send iterComplete pyNone current iterator hcurrent hvalue]
      exact anextAllows_typeError_iff pyNone iterator s
  | throw exc =>
    rw [asyncForRound_of_throw iterComplete pyNone current iterator hcurrent]
    unfold leaveCoroutine
    cases hstop : classes.isStopIteration exc with
    | false => simpa [hstop] using anextAllows_user_iff pyNone iterator s exc
    | true => simpa [hstop] using not_anextAllows_runtimeError pyNone iterator s exc

end Lowered

/-! ## An iterator with an error of its own -/

inductive PyException
  | attributeError
  | stopIteration
  | stopAsyncIteration
  | keyboardInterrupt
  deriving DecidableEq

def pyExceptionClasses : ExceptionClasses PyException where
  isException exc := exc ≠ .keyboardInterrupt
  isAttributeError exc := exc = .attributeError
  isStopIteration exc := exc = .stopIteration
  isStopAsyncIteration exc := exc = .stopAsyncIteration
  exception_of_attributeError exc := by cases exc <;> decide
  exception_of_stopIteration exc := by cases exc <;> decide
  exception_of_stopAsyncIteration exc := by cases exc <;> decide

/-- A `__next__` that uses an attribute that is missing. -/
def misspelledNext : NextObject Unit ℕ PyException := ⟨some fun s => (.error .attributeError, s)⟩

end DietPython.Iteration
