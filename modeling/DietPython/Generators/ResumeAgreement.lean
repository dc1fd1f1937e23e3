import DietPython.Generators.DelegateHandlers
import DietPython.Generators.ResumeSlots

/-!
# Where the resume function follows the language

The policy of the language and the lowered policy differ in seven steps: an unstarted generator that
is resumed with an exception, an `await` of an object that `await_iter` takes for another one, a
delegation that starts in a run which something other than `None` has started, a method of a
delegate that is `None`, a returned expression that raises inside of a region, a jump that changes
how a `finally` body is left, and a step that reads an exception which a suspension has lost. A
history whose runs go through none of them is answered as the language says.
-/

namespace DietPython.Generators

open Machines Machine Transducers

variable {n : ℕ} {L : Lang} {σ K V E : Type} [DecidableEq V]

/-! ## Conditions on a step -/

section Conditions

variable (rt : YieldRuntime L σ K V E) (p : YieldProgram n L) (sig : Resumption V E)

/-- An unstarted generator is not resumed with an exception. -/
def StartsWithValue : YieldState n L σ K V E → Prop
  | .start _ => ∃ v, sig = .send v
  | _ => True

/-- A returned expression raises in no region. -/
def ReturnsOutside : YieldState n L σ K V E → Prop
  | .run place [] (.ret x) k s => place.exc = none ∨ ∃ v, (rt.eval x k s).2 = .ok v
  | _ => True

/-- A jump passes to a `finally` body what its variables hold already. -/
def KeepsAbrupt : YieldState n L σ K V E → Prop
  | .run _ [] (.jump l args) k s => rt.passAbrupt (p l).params args k s = s
  | _ => True

/-- `__await__` is there for what can be awaited, raises nothing below `Exception`, and returns an
iterator that `iter` leaves as it is. -/
def AwaitsPlainly (v : V) (s : σ) : Prop :=
  rt.awaits.isCoroutineGenerator v = false ∧ rt.awaits.beingAwaited v s = false ∧
    match (rt.awaits.object v).await with
    | none => True
    | some await =>
      match await s with
      | (.error e, _) => rt.awaits.classes.isException e = false
      | (.ok none, _) => True
      | (.ok (some it), s) =>
        rt.awaits.isCoroutineGenerator it = false ∧ rt.iter it s = (s, .ok it)

/-- What is awaited is awaited plainly, and a delegation that gets to its delegate is started in a
run that `None` has started. -/
structure StartsPlainly (value : Operand L) (k : K) (s : σ) : Prop where
  awaits : ∀ x v s', value = .awaitable x → rt.eval x k s = (s', .ok v) → AwaitsPlainly rt v s'
  signal : ∀ it s', rt.loweredDelegate value k s = (s', .ok it) → sig = .send rt.none

/-- A delegation starts plainly, and the method that an exception is forwarded to is not `None`. -/
def DelegatesPlainly : YieldState n L σ K V E → Prop
  | .run _ [] (.retYieldFrom value) k s => StartsPlainly rt sig value k s
  | .run _ (.yieldFrom _ value :: _) _ k s => StartsPlainly rt sig value k s
  | .delegate it (.throw e) _ _ s =>
    (rt.lookup (if rt.isGeneratorExit e then .close else .throw) it s).2 ≠ .ok (some rt.none)
  | _ => True

/-- The conditions on a step, in a run with the slots of the resume function beside. -/
structure FollowsLanguage (t : YieldState n L σ (K × K) V E) : Prop where
  starts : StartsWithValue sig t
  returns : ReturnsOutside rt (t.mapSlots Prod.snd)
  abrupt : KeepsAbrupt rt p (t.mapSlots Prod.snd)
  delegates : DelegatesPlainly rt sig (t.mapSlots Prod.snd)
  reads : ReadsAlike rt p Prod.snd t

end Conditions

section Steps

variable {rt : YieldRuntime L σ K V E} {p : YieldProgram n L} {sig : Resumption V E}

/-- A method that is not `None` is found. -/
theorem lowered_found {m : Option V} (h : m ≠ some rt.none) :
    (Policy.lowered rt : Policy n L σ K V E).found m = m := by
  cases m with
  | none => rfl
  | some v =>
    have hv : (some v).getD rt.none ≠ rt.none := fun heq => h (congrArg some heq)
    exact lowered_found_of_ne hv

omit [DecidableEq V] in
/-- What follows an effect matters where it has a value. -/
theorem andThen_congr {α : Type} {exc : Option (Fin (n + 1))} {k : K} {r : σ × Except E α}
    {next next' : α → σ → YieldState n L σ K V E ⊕ YieldResult n L σ K V E}
    (h : ∀ a, r.2 = .ok a → next a r.1 = next' a r.1) :
    andThen rt p exc k r next = andThen rt p exc k r next' := by
  unfold andThen
  cases hr : r.2 with
  | ok a => exact h a hr
  | error e => rfl

theorem stepDelegate_eq {pol : Policy n L σ K V E} (hfound : pol.found = id) {it : V}
    {op : Resumption V E} {rest : Rest n L} {k : K} {s : σ}
    (h : DelegatesPlainly rt sig (.delegate it op rest k s)) :
    stepDelegate rt p pol it op rest k s = stepDelegate rt p (.lowered rt) it op rest k s := by
  cases op with
  | send v => rfl
  | throw e =>
    have h : (rt.lookup (if rt.isGeneratorExit e then .close else .throw) it s).2 ≠
      .ok (some rt.none) := h
    have hm : ∀ {m : Option V}, m ≠ some rt.none →
        pol.found m = (Policy.lowered rt : Policy n L σ K V E).found m := fun hm => by
      rw [hfound, lowered_found hm, id]
    unfold stepDelegate
    by_cases he : rt.isGeneratorExit e = true
    · rw [if_pos he] at h
      simp only [if_pos he]
      refine andThen_congr fun m hr => ?_
      rw [hm fun heq => h (by rw [hr, heq])]
    · rw [if_neg he] at h
      simp only [if_neg he]
      refine andThen_congr fun m hr => ?_
      rw [hm fun heq => h (by rw [hr, heq])]

omit [DecidableEq V] in
/-- A plain `await` goes over what `__await__` returns. -/
theorem awaitIter_iter {v : V} {s : σ} (h : AwaitsPlainly rt v s) :
    bindEff (rt.awaits.awaitIter v s) rt.iter = rt.awaits.getAwaitable v s := by
  obtain ⟨hgenerator, hawaited, h⟩ := h
  unfold Awaits.awaitIter Awaits.getAwaitable Iteration.awaitIter
  rw [if_neg (by rw [hgenerator]; exact Bool.false_ne_true),
    if_neg (by rw [hawaited]; exact Bool.false_ne_true)]
  cases hobject : (rt.awaits.object v).await with
  | none => rfl
  | some await =>
    simp only [hobject] at h ⊢
    cases hcall : await s with
    | mk outcome s₁ =>
      rw [hcall] at h
      match outcome, h with
      | .error e, hexc =>
        have hattribute : rt.awaits.classes.isAttributeError e = false :=
          Bool.eq_false_iff.mpr fun hattribute => Bool.false_ne_true
            (hexc.symm.trans (rt.awaits.classes.exception_of_attributeError e hattribute))
        have hexc : rt.awaits.classes.isException e = false := hexc
        simp only [hattribute, hexc, Bool.false_eq_true, if_false, rt.awaits.raised_user]
        rfl
      | .ok none, _ => rfl
      | .ok (some it), h =>
        simp only [h.1, Bool.false_eq_true, if_false]
        exact h.2

omit [DecidableEq V] in
theorem loweredDelegate_eq {value : Operand L} {k : K} {s : σ}
    (h : StartsPlainly rt sig value k s) :
    rt.loweredDelegate value k s = rt.delegateOf value k s := by
  cases value with
  | iterable x => rfl
  | awaitable x =>
    show bindEff (rt.eval (L.awaitIter x) k s) rt.iter =
      bindEff (rt.eval x k s) rt.awaits.getAwaitable
    rw [rt.eval_awaitIter]
    cases hr : rt.eval x k s with
    | mk s' outcome =>
      cases outcome with
      | error e => rfl
      | ok v => exact awaitIter_iter (h.awaits x v s' rfl hr)

omit [DecidableEq V] in
theorem startDelegate_eq [DecidableEq V] {pol : Policy n L σ K V E}
    (hdelegate : pol.delegate = rt.delegateOf)
    (hfirst : ∀ sig, pol.firstEntry sig = .send rt.none) {value : Operand L} {k : K} {s : σ}
    (h : StartsPlainly rt sig value k s) (rest : Rest n L) :
    startDelegate rt p pol sig value rest k s =
      startDelegate rt p (.lowered rt) sig value rest k s := by
  have hlowered := loweredDelegate_eq h
  unfold startDelegate
  rw [hdelegate, ← hlowered]
  refine andThen_congr fun it hr => ?_
  rw [hfirst, h.signal it _ (Prod.ext rfl hr)]
  rfl

/-- A policy that resumes as the lowered one and delegates as the language does takes the lowered
step where delegations are plain, unless it starts, returns or jumps in another way. -/
theorem step_eq_lowered {pol : Policy n L σ K V E} (hdelegate : pol.delegate = rt.delegateOf)
    (hfirst : ∀ sig, pol.firstEntry sig = .send rt.none) (hfound : pol.found = id)
    (hresumed : ∀ k, pol.resumed k = rt.newSlots) {t : YieldState n L σ K V E}
    (hstart : ∀ s, t = .start s → pol.start sig = none)
    (hret : ∀ place x k s, t = .run place [] (.ret x) k s →
      pol.returnExc place.exc = none ∨ ∃ v, (rt.eval x k s).2 = .ok v)
    (hpassed : ∀ place l args k s, t = .run place [] (.jump l args) k s →
      pol.passed (p l).params args k s = s)
    (h : DelegatesPlainly rt sig t) :
    yieldStep rt p pol sig t = yieldStep rt p (.lowered rt) sig t := by
  match t, h with
  | .start s, _ =>
    rw [yieldStep, hstart s rfl]
    rfl
  | .resume (.plain rest) k s, _ =>
    cases sig with
    | send v =>
      rw [yieldStep, hresumed]
      rfl
    | throw e =>
      rw [yieldStep, hresumed]
      rfl
  | .resume (.delegation it rest) k s, _ =>
    rw [yieldStep, hresumed]
    rfl
  | .delegate it op rest k s, h => exact stepDelegate_eq hfound h
  | .run _ (.plain _ :: _) _ _ _, _ => rfl
  | .run _ (.yieldValue _ _ :: _) _ _ _, _ => rfl
  | .run place (.yieldFrom x value :: body) term k s, h =>
    exact startDelegate_eq hdelegate hfirst h _
  | .run place [] (.retYieldFrom value) k s, h => exact startDelegate_eq hdelegate hfirst h _
  | .run place [] (.jump l args) k s, _ =>
    rw [yieldStep, stepTerm, hpassed place l args k s rfl]
    rfl
  | .run _ [] (.ifTerm _ _ _) _ _, _ => rfl
  | .run _ [] (.branchTable _ _ _) _ _, _ => rfl
  | .run _ [] (.raiseTerm none) _ _, _ => rfl
  | .run _ [] (.raiseTerm (some _)) _ _, _ => rfl
  | .run _ [] (.retYield _) _ _, _ => rfl
  | .run place [] (.ret x) k s, _ =>
    rw [yieldStep, yieldStep, stepTerm, stepTerm]
    rcases hret place x k s rfl with hexc | ⟨v, hv⟩
    · rw [hexc]
      rfl
    · unfold andThen
      rw [hv]

/-- A delegation that is plain follows the lowered policy. -/
theorem delegating_step_eq {t : YieldState n L σ K V E} (h : DelegatesPlainly rt sig t) :
    yieldStep rt p (.delegating rt) sig t = yieldStep rt p (.lowered rt) sig t :=
  step_eq_lowered rfl (fun _ => rfl) rfl (fun _ => rfl) (fun _ _ => rfl) (fun _ _ _ _ _ => .inl rfl)
    (fun _ _ _ _ _ _ => rfl) h

/-- The language, but for the slots of a resumed body. -/
theorem resuming_step_eq {t : YieldState n L σ K V E} (hstart : StartsWithValue sig t)
    (hret : ReturnsOutside rt t) (hpassed : KeepsAbrupt rt p t) (h : DelegatesPlainly rt sig t) :
    yieldStep rt p (.resuming rt fun _ => rt.newSlots) sig t =
      yieldStep rt p (.lowered rt) sig t := by
  refine step_eq_lowered rfl (fun _ => rfl) rfl (fun _ => rfl) (fun s hs => ?_)
    (fun place x k s hs => ?_) (fun place l args k s hs => ?_) h
  · subst hs
    obtain ⟨v, rfl⟩ := hstart
    rfl
  · subst hs
    exact hret
  · subst hs
    exact hpassed

omit [DecidableEq V] in
theorem startsWithValue_mapSlots {t : YieldState n L σ (K × K) V E} (h : StartsWithValue sig t)
    (side : K × K → K) : StartsWithValue sig (t.mapSlots side) := by cases t <;> exact h

/-- Where the conditions hold, the language goes where the lowered policy goes with the slots of the
resume function. -/
theorem watched_step_eq {t : YieldState n L σ (K × K) V E} (h : FollowsLanguage rt p sig t) :
    yieldStep rt p (.lowered rt) sig (t.mapSlots Prod.snd) =
      mapOutcome Prod.snd (yieldStep rt.paired p (.watched rt) sig t) := by
  rw [← resuming_step_eq (startsWithValue_mapSlots h.starts _) h.returns h.abrupt h.delegates]
  exact yieldStep_mapSlots (isSide_snd rt) (fun _ => rfl) sig t h.reads

end Steps

/-! ## Histories -/

section Histories

variable {rt : YieldRuntime L σ K V E} {p : YieldProgram n L} {pol : Policy n L σ K V E}

/-- A policy that takes the lowered steps where its runs go answers as the lowered one. -/
theorem outputs_eq_lowered {cond : Resumption V E → YieldState n L σ K V E → Prop}
    (hstep : ∀ sig t, cond sig t →
      yieldStep rt p pol sig t = yieldStep rt p (.lowered rt) sig t)
    {w : Option (Waiting n L K V)} {is : List (Resume σ V E)}
    (h : (blocksProcess rt p pol).Guarded (RunsFollow rt p pol cond) w is) :
    (blocksProcess rt p pol).outputs w is = (blocksProcess rt p (.lowered rt)).outputs w is := by
  have hsame : ∀ w w' i, w = w' → RunsFollow rt p pol cond w i →
      ((blocksProcess rt p pol).step w i).2 =
          ((blocksProcess rt p (.lowered rt)).step w' i).2 ∧
        ((blocksProcess rt p pol).step w i).1 =
          ((blocksProcess rt p (.lowered rt)).step w' i).1 := by
    rintro w _ i rfl hguard
    cases w with
    | none => exact ⟨rfl, rfl⟩
    | some w =>
      have hruns : runBlocks rt p pol w i = runBlocks rt p (.lowered rt) w i :=
        (sameRuns_congr (hstep i.sig) hguard).outcome_eq
      unfold blocksProcess
      simp only [hruns, and_self]
  exact Transducer.outputs_eq_of_guarded _ _ _ hsame rfl h

theorem runBlocks_of_run {w : Waiting n L K V} {i : Resume σ V E} {r : YieldResult n L σ K V E}
    (j : ℕ) (h : (yieldMachine rt p pol i.sig).run j (w.enter i.store) = some r) :
    runBlocks rt p pol w i = some r := Finishes.outcome_eq ⟨j, h⟩

end Histories

/-! ## A small runtime -/

inductive SmallValue
  | none
  | deleted
  | num (k : ℕ)
  deriving DecidableEq

/-- Expressions with a value, the variable, the exception of the handler, an expression that raises,
and a call of `await_iter`. -/
inductive SmallExpr
  | value (v : ℕ)
  | variable
  | caught
  | fails
  | awaitIter (value : SmallExpr)

inductive SmallExc
  | stop (value : SmallValue)
  | exit
  | other (k : ℕ)
  deriving DecidableEq

abbrev smallLang : Lang := ⟨Unit, SmallExpr, Unit, .awaitIter⟩

/-- Every object returns itself from `__await__`. -/
def smallAwaits : Awaits SmallValue SmallValue SmallExc where
  classes :=
    { isException := fun e => e ≠ .exit
      isAttributeError := fun _ => false
      isStopIteration := fun e => match e with
        | .stop _ => true
        | _ => false
      isStopAsyncIteration := fun _ => false
      exception_of_attributeError := fun _ h => nomatch h
      exception_of_stopIteration := fun exc h => by cases exc <;> simp_all
      exception_of_stopAsyncIteration := fun _ h => nomatch h }
  object v := ⟨some fun s => (.ok (some v), s)⟩
  raised
    | .user e => e
    | _ => .other 2
  raised_user _ := rfl
  isCoroutineGenerator _ := false
  beingAwaited _ _ := false
  awaitedAlready := .other 2

def SmallExpr.eval : SmallExpr → SmallValue → Eff SmallValue SmallExc SmallValue
  | .value v, _, s => (s, .ok (.num v))
  | .variable, _, s => (s, .ok s)
  | .caught, k, s => (s, .ok k)
  | .fails, _, s => (s, .error (.other 1))
  | .awaitIter x, k, s => bindEff (x.eval k s) smallAwaits.awaitIter

/-- One variable, and one slot. A delegate yields 0 for `next()`, and for `send()` what it is
sent. -/
def smallRuntime : YieldRuntime smallLang SmallValue SmallValue SmallValue SmallExc where
  none := .none
  noDefault := .deleted
  deleted := .deleted
  exec _ _ s := (s, .ok ())
  eval := SmallExpr.eval
  truth v s := (s, .ok (v ≠ .none))
  tableIndex
    | .num k, s => (s, .ok k)
    | _, s => (s, .error (.other 2))
  raised
    | some (.num k), s => (s, .other k)
    | _, s => (s, .other 0)
  assign _ v _ := (v, .ok ())
  newSlots := .deleted
  currentException
    | [], _ => none
    | _ :: _, k => some k
  currentException_newSlots params k := by cases params <;> rfl
  passArgs _ _ k _ := k
  passArgs_self _ _ _ := rfl
  passAbrupt _ _ _ s := s
  catchExc
    | _, .other k, _ => .num k
    | _, _, _ => .none
  awaits := smallAwaits
  eval_awaitIter _ _ _ := rfl
  iter v s := (s, .ok v)
  next _ s := (s, .ok (.num 0))
  send _ v s := (s, .ok v)
  lookup _ _ s := (s, .ok none)
  callClose _ s := (s, .ok .none)
  callThrow _ e s := (s, .error e)
  excObject
    | .other k => .num k
    | _ => .none
  isGeneratorExit e := e = .exit
  stopValue
    | .stop v => some v
    | _ => none
  stopIteration := .stop
  unbound := .other 2

/-! ## The language -/

section Language

variable {rt : YieldRuntime L σ K V E} {p : YieldProgram n L}

/-- `try: x = yield 5` and `except: return 9`. -/
def yieldInTry : YieldProgram 1 smallLang := fun l =>
  if l = 0 then ⟨[], [.yieldValue (some ()) (some (.value 5))], .ret .variable, some 1⟩
  else ⟨[⟨(), .exception⟩], [], .ret (.value 9), none⟩

theorem yieldInTry_fits : HandlersFit yieldInTry := ⟨by decide, by decide⟩

/-- `try: return f()` and `except: yield e`. -/
def returnInTry : YieldProgram 1 smallLang := fun l =>
  if l = 0 then ⟨[], [], .ret .fails, some 1⟩
  else ⟨[⟨(), .exception⟩], [.yieldValue none (some .caught)], .ret (.value 9), none⟩

/-- `yield`, and then a delegation. -/
def delegateAfterYield (value : Operand smallLang) : YieldProgram 0 smallLang := fun _ =>
  ⟨[], [.yieldValue none none, .yieldFrom none value], .ret (.value 9), none⟩

/-- The body behind the first yield. -/
abbrev beforeDelegation (value : Operand smallLang) : Suspension 0 smallLang SmallValue :=
  .plain (.block ⟨[], none⟩ none [.yieldFrom none value] (.ret (.value 9)))

/-- The delegation has started. -/
abbrev whileDelegating : Suspension 0 smallLang SmallValue :=
  .delegation (.num 5) (.block ⟨[], none⟩ none [] (.ret (.value 9)))

theorem delegateAfterYield_fits : HandlersFit (delegateAfterYield (.awaitable (.value 5))) :=
  ⟨by decide, by decide⟩

/-- `yield` and then `yield from 5`. -/
abbrev delegateToFive : YieldProgram 0 smallLang := delegateAfterYield (.iterable (.value 5))

end Language

end DietPython.Generators
