import DietPython.Generators.ResumeAgreement

/-!
# A `StopIteration` that leaves the body

The completion of a body is a `StopIteration` that the resume function raises. The wrapper hands on
every exception of a call, so that a `StopIteration` which the body itself raises looks like a
completion; `close` takes it for one. In the language it becomes a `RuntimeError`.

The objects of the language here resume the blocks as the resume function does, and differ from the
wrapper in what they make of it: when they run the body, and what leaves it.
-/

namespace DietPython.Generators

open Machines Machine Transducers

variable {n : ℕ} {L : Lang} {σ K V E : Type} [DecidableEq V]

/-! ## Generator and coroutine objects -/

inductive ObjectKind
  | generator
  | coroutine
  deriving DecidableEq

/-- A call of `send`, `throw` or `close`, with the store that it finds. `next` sends `None`. -/
inductive GeneratorCall (σ V E : Type)
  | send (value : V) (s : σ)
  | throw (exc : E) (s : σ)
  | close (s : σ)

inductive GeneratorReply (σ V E : Type)
  | value (v : V) (s : σ)
  | raised (exc : E) (s : σ)
  /-- What `close` returns. -/
  | closed (v : V) (s : σ)
  | never
  deriving DecidableEq

/-- A reply, and whether the call has run the body. -/
structure GeneratorAnswer (σ V E : Type) where
  reply : GeneratorReply σ V E
  ran : Bool
  deriving DecidableEq

/-- Exceptions that the objects make. Their texts name the kind of object. -/
structure GeneratorExceptions (rt : YieldRuntime L σ K V E) where
  /-- `GeneratorExit()` -/
  exit : E
  /-- `RuntimeError("generator ignored GeneratorExit")` -/
  ignoredExit : ObjectKind → E
  /-- `RuntimeError("generator raised StopIteration") from exc` -/
  stopRaised : ObjectKind → E → E
  /-- `TypeError("can't send non-None value to a just-started generator")` -/
  sentToNew : ObjectKind → E
  /-- `RuntimeError("cannot reuse already awaited coroutine")` -/
  reused : E
  stopRaised_stopValue : ∀ kind e, rt.stopValue (stopRaised kind e) = none
  stopRaised_exit : ∀ kind e, rt.isGeneratorExit (stopRaised kind e) = false
  ignoredExit_ne : ignoredExit .coroutine ≠ ignoredExit .generator
  reused_ne : reused ≠ rt.stopIteration rt.none
  stopValue_stopIteration : ∀ v, rt.stopValue (rt.stopIteration v) = some v

section Objects

variable (rt : YieldRuntime L σ K V E) (p : YieldProgram n L) (ge : GeneratorExceptions rt)

namespace ResumeWrapper

/-- `try: return self._resume_fn(..)`, closing the wrapper on every exception. -/
noncomputable def resume (f : ResumeFrame σ K V E) (i : Resume σ V E) :
    Option (ResumeFrame σ K V E) × GeneratorReply σ V E :=
  match callResume rt p f i with
  | some (.returned v f) => (some f, .value v f.store)
  | some (.raised e cells) => (none, .raised e cells.store)
  | some .stuck | none => (none, .never)

/-- How `close` turns the reply of a `throw(GeneratorExit)` around. -/
def closeReply : GeneratorReply σ V E → GeneratorReply σ V E
  | .raised e s =>
    if rt.isGeneratorExit e ∨ (rt.stopValue e).isSome then .closed rt.none s else .raised e s
  | .value _ s => .raised (ge.ignoredExit .generator) s
  | reply => reply

/-- `ClosureGenerator`, with the frame that its resume function has left. A closed one has none. -/
noncomputable def step :
    Option (ResumeFrame σ K V E) → GeneratorCall σ V E →
      Option (ResumeFrame σ K V E) × GeneratorAnswer σ V E
  | none, .send _ s => (none, ⟨.raised (rt.stopIteration rt.none) s, false⟩)
  | none, .throw e s => (none, ⟨.raised e s, false⟩)
  | none, .close s => (none, ⟨.closed rt.none s, false⟩)
  | some f, .send v s =>
    let r := resume rt p f ⟨.send v, s⟩
    (r.1, ⟨r.2, true⟩)
  | some f, .throw e s =>
    let r := resume rt p f ⟨.throw e, s⟩
    (r.1, ⟨r.2, true⟩)
  | some f, .close s =>
    let r := resume rt p f ⟨.throw ge.exit, s⟩
    (r.1, ⟨closeReply rt ge r.2, true⟩)

noncomputable def generator :
    Transducer (Option (ResumeFrame σ K V E)) (GeneratorCall σ V E) (GeneratorAnswer σ V E) :=
  ⟨step rt p ge⟩

/-- `Coroutine`: every call goes to the generator object in it. -/
structure Coroutine (G : Type) where
  gen : G

noncomputable def coroutine : Transducer (Coroutine (Option (ResumeFrame σ K V E)))
    (GeneratorCall σ V E) (GeneratorAnswer σ V E) where
  step c call :=
    let r := step rt p ge c.gen call
    (⟨r.1⟩, r.2)

theorem coroutine_outputs (f : Option (ResumeFrame σ K V E)) (calls : List (GeneratorCall σ V E)) :
    (coroutine rt p ge).outputs ⟨f⟩ calls = (generator rt p ge).outputs f calls := by
  induction calls generalizing f with
  | nil => rfl
  | cons call calls ih => exact congrArg _ (ih _)

end ResumeWrapper

namespace LanguageObject

variable (kind : ObjectKind)

/-- Where the body waits after a run. -/
def waiting : Option (YieldResult n L σ K V E) → Option (Waiting n L K V)
  | some (.yielded _ at_ k _) => some (.suspended at_ k)
  | _ => none

/-- An exception that leaves the frame of a body is no `StopIteration`. -/
def leave (e : E) : E := if (rt.stopValue e).isSome then ge.stopRaised kind e else e

/-- What the caller of `send` or `throw` gets: a return value in a `StopIteration`. -/
def reply : Option (YieldResult n L σ K V E) → GeneratorReply σ V E
  | some (.yielded v _ _ s) => .value v s
  | some (.returned v s) => .raised (rt.stopIteration v) s
  | some (.raised e s) => .raised (leave rt ge kind e) s
  | none => .never

/-- What the caller of `close` gets: the return value itself. -/
def closeReply : Option (YieldResult n L σ K V E) → GeneratorReply σ V E
  | some (.yielded _ _ _ s) => .raised (ge.ignoredExit kind) s
  | some (.returned v s) => .closed v s
  | some (.raised e s) =>
    if rt.isGeneratorExit (leave rt ge kind e) then .closed rt.none s
    else .raised (leave rt ge kind e) s
  | none => .never

/-- A generator that has ended goes on raising `StopIteration`, a coroutine cannot be used again.
Neither minds being closed. -/
def finished : ObjectKind → GeneratorCall σ V E → GeneratorReply σ V E
  | .generator, .send _ s => .raised (rt.stopIteration rt.none) s
  | .generator, .throw e s => .raised e s
  | .coroutine, .send _ s | .coroutine, .throw _ s => .raised ge.reused s
  | _, .close s => .closed rt.none s

/-- A generator or coroutine object of the language over the same blocks. -/
noncomputable def step :
    Option (Waiting n L K V) → GeneratorCall σ V E →
      Option (Waiting n L K V) × GeneratorAnswer σ V E
  | none, call => (none, ⟨finished rt ge kind call, false⟩)
  | some .start, .send v s =>
    if v = rt.none then
      let r := runBlocks rt p (.lowered rt) .start ⟨.send v, s⟩
      (waiting r, ⟨reply rt ge kind r, true⟩)
    else (some .start, ⟨.raised (ge.sentToNew kind) s, false⟩)
  | some .start, .throw e s => (none, ⟨.raised (leave rt ge kind e) s, false⟩)
  | some .start, .close s => (none, ⟨.closed rt.none s, false⟩)
  | some (.suspended at_ k), .send v s =>
    let r := runBlocks rt p (.lowered rt) (.suspended at_ k) ⟨.send v, s⟩
    (waiting r, ⟨reply rt ge kind r, true⟩)
  | some (.suspended at_ k), .throw e s =>
    let r := runBlocks rt p (.lowered rt) (.suspended at_ k) ⟨.throw e, s⟩
    (waiting r, ⟨reply rt ge kind r, true⟩)
  | some (.suspended at_ k), .close s =>
    let r := runBlocks rt p (.lowered rt) (.suspended at_ k) ⟨.throw ge.exit, s⟩
    (waiting r, ⟨closeReply rt ge kind r, true⟩)

noncomputable def machine :
    Transducer (Option (Waiting n L K V)) (GeneratorCall σ V E) (GeneratorAnswer σ V E) :=
  ⟨step rt p ge kind⟩

end LanguageObject

end Objects

/-! ## The condition on a call -/

section Conditions

variable (rt : YieldRuntime L σ K V E) (p : YieldProgram n L) (ge : GeneratorExceptions rt)
variable (kind : ObjectKind)

/-- The resumption that a call makes. -/
def GeneratorCall.resumption : GeneratorCall σ V E → Resume σ V E
  | .send v s => ⟨.send v, s⟩
  | .throw e s => ⟨.throw e, s⟩
  | .close s => ⟨.throw ge.exit, s⟩

def GeneratorCall.IsClose : GeneratorCall σ V E → Prop
  | .close _ => True
  | _ => False

/-- The calls that start an object. -/
def Starts : GeneratorCall σ V E → Prop
  | .send v _ => v = rt.none
  | _ => False

/-- Calls on an object that has ended: a coroutine is only closed, or is thrown what the language
raises. -/
def LeavesEnded : GeneratorCall σ V E → Prop
  | .send _ _ => kind = .generator
  | .throw e _ => kind = .coroutine → e = ge.reused
  | .close _ => True

/-- The run does not raise a `StopIteration`. -/
def RaisesNoStop (r : Option (YieldResult n L σ K V E)) : Prop :=
  ∀ e s, r = some (.raised e s) → rt.stopValue e = none

/-- A run that `close` starts returns nothing but `None`, and in a coroutine it yields nothing,
since the text of the exception names a generator. -/
structure Closes (r : Option (YieldResult n L σ K V E)) : Prop where
  returns : ∀ v s, r = some (.returned v s) → v = rt.none
  yields : ∀ v at_ k s, r = some (.yielded v at_ k s) → kind = .generator

/-- The condition on a call. -/
def CallFollows : Option (Waiting n L K V) → GeneratorCall σ V E → Prop
  | none, call => LeavesEnded rt ge kind call
  | some w, call =>
    (w = .start → Starts rt call) ∧
      RaisesNoStop rt (runBlocks rt p (.lowered rt) w (call.resumption rt ge)) ∧
      (call.IsClose → Closes rt kind (runBlocks rt p (.lowered rt) w (call.resumption rt ge)))

end Conditions

/-! ## Agreement -/

section Agreement

variable {rt : YieldRuntime L σ K V E} {p : YieldProgram n L} {ge : GeneratorExceptions rt}
variable {kind : ObjectKind} {w : Waiting n L K V} {f : ResumeFrame σ K V E} {i : Resume σ V E}

omit [DecidableEq V] in
theorem leave_ne {e : E} (h : (rt.stopValue e).isSome) : LanguageObject.leave rt ge kind e ≠ e := by
  intro heq
  unfold LanguageObject.leave at heq
  rw [if_pos h] at heq
  rw [← heq, ge.stopRaised_stopValue] at h
  cases h

omit [DecidableEq V] in
theorem leave_eq_iff {e : E} : LanguageObject.leave rt ge kind e = e ↔ rt.stopValue e = none := by
  cases h : rt.stopValue e with
  | none => simp [LanguageObject.leave, h]
  | some v =>
    have hne : LanguageObject.leave rt ge kind e ≠ e := leave_ne (by rw [h]; rfl)
    simpa using hne

/-- The object waits where the frame does after a run. -/
theorem resume_waits (h : WaitsAt rt p w f) (i : Resume σ V E) :
    Option.Rel (WaitsAt rt p) (LanguageObject.waiting (runBlocks rt p (.lowered rt) w i))
      (ResumeWrapper.resume rt p f i).1 := by
  have hmatch := callResume_matches rt h i
  unfold ResumeWrapper.resume
  generalize runBlocks rt p (.lowered rt) w i = r at hmatch ⊢
  generalize callResume rt p f i = q at hmatch ⊢
  cases hmatch with
  | none => exact .none
  | some hmatch =>
    cases hmatch with
    | yielded hsusp => exact .some ⟨hsusp, rfl⟩
    | returned => exact .none
    | raised => exact .none

/-- A run is answered alike exactly if it raises no `StopIteration`. -/
theorem reply_eq_iff (h : WaitsAt rt p w f) (i : Resume σ V E) :
    LanguageObject.reply rt ge kind (runBlocks rt p (.lowered rt) w i) =
        (ResumeWrapper.resume rt p f i).2 ↔
      RaisesNoStop rt (runBlocks rt p (.lowered rt) w i) := by
  have hmatch := callResume_matches rt h i
  unfold ResumeWrapper.resume RaisesNoStop
  generalize runBlocks rt p (.lowered rt) w i = r at hmatch ⊢
  generalize callResume rt p f i = q at hmatch ⊢
  cases hmatch with
  | none => simp [LanguageObject.reply]
  | some hmatch =>
    cases hmatch with
    | yielded hsusp => simp [LanguageObject.reply]
    | returned => simp [LanguageObject.reply]
    | raised => simp [LanguageObject.reply, leave_eq_iff]

omit [DecidableEq V] in
/-- What `close` makes of an exception. -/
theorem closeReply_raised_eq_iff {e : E} {s s' : σ} (hs : s = s') :
    LanguageObject.closeReply rt ge kind
        (some (.raised e s) : Option (YieldResult n L σ K V E)) =
        ResumeWrapper.closeReply rt ge (.raised e s') ↔ rt.stopValue e = none := by
  subst hs
  cases h : rt.stopValue e with
  | none =>
    have hleave : LanguageObject.leave rt ge kind e = e := leave_eq_iff.mpr h
    simp [LanguageObject.closeReply, ResumeWrapper.closeReply, hleave, h]
  | some v =>
    have hleave : LanguageObject.leave rt ge kind e = ge.stopRaised kind e := by
      simp [LanguageObject.leave, h]
    simp [LanguageObject.closeReply, ResumeWrapper.closeReply, hleave, h, ge.stopRaised_exit]

/-- A run that `close` starts is answered alike exactly if it also closes as a generator does. -/
theorem closeReply_eq_iff (h : WaitsAt rt p w f) (i : Resume σ V E) :
    LanguageObject.closeReply rt ge kind (runBlocks rt p (.lowered rt) w i) =
        ResumeWrapper.closeReply rt ge (ResumeWrapper.resume rt p f i).2 ↔
      RaisesNoStop rt (runBlocks rt p (.lowered rt) w i) ∧
        Closes rt kind (runBlocks rt p (.lowered rt) w i) := by
  have hmatch := callResume_matches rt h i
  unfold ResumeWrapper.resume RaisesNoStop
  generalize runBlocks rt p (.lowered rt) w i = r at hmatch ⊢
  generalize callResume rt p f i = q at hmatch ⊢
  rw [show Closes rt kind r ↔ (∀ v s, r = some (.returned v s) → v = rt.none) ∧
    ∀ v at_ k s, r = some (.yielded v at_ k s) → kind = .generator from
    ⟨fun h => ⟨h.returns, h.yields⟩, fun h => ⟨h.1, h.2⟩⟩]
  cases hmatch with
  | none => simp [LanguageObject.closeReply, ResumeWrapper.closeReply]
  | some hmatch =>
    cases hmatch with
    | yielded hsusp =>
      cases kind <;> simp [LanguageObject.closeReply, ResumeWrapper.closeReply, ge.ignoredExit_ne]
    | returned =>
      simp [LanguageObject.closeReply, ResumeWrapper.closeReply, ge.stopValue_stopIteration]
    | raised => simp [closeReply_raised_eq_iff rfl]

/-- An object that has ended. -/
theorem ended_eq_iff (call : GeneratorCall σ V E) :
    (⟨LanguageObject.finished rt ge kind call, false⟩ : GeneratorAnswer σ V E) =
        (ResumeWrapper.step rt p ge none call).2 ↔ LeavesEnded rt ge kind call := by
  cases call with
  | send v s =>
    cases kind <;>
      simp [LanguageObject.finished, ResumeWrapper.step, LeavesEnded, ge.reused_ne]
  | throw e s =>
    cases kind <;> simp [LanguageObject.finished, ResumeWrapper.step, LeavesEnded, eq_comm]
  | close s => cases kind <;> simp [LanguageObject.finished, ResumeWrapper.step, LeavesEnded]

/-- An object that has not started. The wrapper runs the body whatever the call is. -/
theorem start_eq_iff (h : WaitsAt rt p .start f) (call : GeneratorCall σ V E) :
    (LanguageObject.step rt p ge kind (some .start) call).2 =
        (ResumeWrapper.step rt p ge (some f) call).2 ↔
      Starts rt call ∧
        RaisesNoStop rt (runBlocks rt p (.lowered rt) .start (call.resumption rt ge)) := by
  cases call with
  | send v s =>
    by_cases hv : v = rt.none
    · simp [LanguageObject.step, ResumeWrapper.step, Starts, hv, GeneratorCall.resumption,
        reply_eq_iff h]
    · simp [LanguageObject.step, ResumeWrapper.step, Starts, hv]
  | throw e s => simp [LanguageObject.step, ResumeWrapper.step, Starts]
  | close s => simp [LanguageObject.step, ResumeWrapper.step, Starts]

/-- A call is answered alike exactly if it meets the condition. -/
theorem step_eq_iff {w : Option (Waiting n L K V)} {f : Option (ResumeFrame σ K V E)}
    (h : Option.Rel (WaitsAt rt p) w f) (call : GeneratorCall σ V E) :
    (LanguageObject.step rt p ge kind w call).2 = (ResumeWrapper.step rt p ge f call).2 ↔
      CallFollows rt p ge kind w call := by
  cases h with
  | none => exact ended_eq_iff call
  | @some w f h =>
    cases w with
    | start =>
      rw [start_eq_iff h]
      cases call with
      | send v s => simp [CallFollows, GeneratorCall.IsClose]
      | throw e s => simp [CallFollows, Starts]
      | close s => simp [CallFollows, Starts]
    | suspended at_ k =>
      cases call with
      | send v s =>
        simp [LanguageObject.step, ResumeWrapper.step, CallFollows, GeneratorCall.resumption,
          GeneratorCall.IsClose, reply_eq_iff h]
      | throw e s =>
        simp [LanguageObject.step, ResumeWrapper.step, CallFollows, GeneratorCall.resumption,
          GeneratorCall.IsClose, reply_eq_iff h]
      | close s =>
        simp [LanguageObject.step, ResumeWrapper.step, CallFollows, GeneratorCall.resumption,
          GeneratorCall.IsClose, closeReply_eq_iff h]

/-- After a call that meets the condition, both wait in the same place. -/
theorem step_waits {w : Option (Waiting n L K V)} {f : Option (ResumeFrame σ K V E)}
    (h : Option.Rel (WaitsAt rt p) w f) (call : GeneratorCall σ V E)
    (hfollows : CallFollows rt p ge kind w call) :
    Option.Rel (WaitsAt rt p) (LanguageObject.step rt p ge kind w call).1
      (ResumeWrapper.step rt p ge f call).1 := by
  cases h with
  | none => cases call <;> exact .none
  | @some w f h =>
    cases w with
    | start =>
      cases call with
      | send v s =>
        have hv : v = rt.none := hfollows.1 rfl
        simpa [LanguageObject.step, ResumeWrapper.step, hv] using resume_waits h ⟨.send rt.none, s⟩
      | throw e s => exact (hfollows.1 rfl).elim
      | close s => exact (hfollows.1 rfl).elim
    | suspended at_ k => cases call <;> exact resume_waits h _

theorem object_outputs_iff (kind : ObjectKind) (s : σ) (calls : List (GeneratorCall σ V E)) :
    (LanguageObject.machine rt p ge kind).outputs (some .start) calls =
        (ResumeWrapper.generator rt p ge).outputs (some (newFrame rt s)) calls ↔
      (LanguageObject.machine rt p ge kind).Guarded (CallFollows rt p ge kind) (some .start)
        calls := by
  refine Transducer.outputs_eq_iff _ _ _ (fun w f call h hguard => ?_)
    (fun w f call h hguard => ?_) (waitsAt_newFrame (p := p) rt s) calls
  · exact ⟨(step_eq_iff h call).mpr hguard, step_waits h call hguard⟩
  · exact fun heq => hguard ((step_eq_iff h call).mp heq)

end Agreement

/-- `yield`. -/
def yieldOnly : YieldProgram 0 smallLang := fun _ =>
  ⟨[], [.yieldValue none none], .ret (.value 9), none⟩

def smallExceptions : GeneratorExceptions smallRuntime where
  exit := .exit
  ignoredExit
    | .generator => .other 10
    | .coroutine => .other 11
  stopRaised _ _ := .other 12
  sentToNew _ := .other 13
  reused := .other 14
  stopRaised_stopValue _ _ := rfl
  stopRaised_exit _ _ := rfl
  ignoredExit_ne := by decide
  reused_ne := by decide
  stopValue_stopIteration _ := rfl

end DietPython.Generators
