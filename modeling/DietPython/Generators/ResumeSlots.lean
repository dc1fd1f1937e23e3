import DietPython.Generators.ResumeRuns

/-!
# Slots that a suspension loses

The language keeps the slots of a suspended body, and a call of the resume function starts with
slots of its own. To say where that makes a difference, the blocks run with two kinds of slots side
by side: the first are those of the language, the second are those that the resume function has.
Only the first are read.

The runs project on both sides: on the first always, and on the second as long as the steps read
from the second slots what they read from the first ones.
-/

namespace DietPython.Generators

open Machines Machine Transducers

variable {n : ℕ} {L : Lang} {σ K V E : Type}

/-! ## Two kinds of slots -/

/-- The runtime with slots side by side. -/
def YieldRuntime.paired (rt : YieldRuntime L σ K V E) : YieldRuntime L σ (K × K) V E :=
  { rt with
    exec := fun stmt k => rt.exec stmt k.1
    eval := fun x k => rt.eval x k.1
    eval_awaitIter := fun x k s => rt.eval_awaitIter x k.1 s
    newSlots := (rt.newSlots, rt.newSlots)
    currentException := fun params k => rt.currentException params k.1
    currentException_newSlots := fun params k => rt.currentException_newSlots params k.1
    passArgs := fun params args k s =>
      (rt.passArgs params args k.1 s, rt.passArgs params args k.2 s)
    passArgs_self := fun params k s =>
      congrArg₂ Prod.mk (rt.passArgs_self params k.1 s) (rt.passArgs_self params k.2 s)
    passAbrupt := fun params args k => rt.passAbrupt params args k.1
    catchExc := fun params e k => (rt.catchExc params e k.1, rt.catchExc params e k.2) }

namespace Policy

variable (rt : YieldRuntime L σ K V E)

/-- The language, with other slots after a suspension. -/
def resuming (resumed : K → K) : Policy n L σ K V E := { python rt with resumed := resumed }

/-- The language, and the slots that the resume function has beside its slots. -/
def watched : Policy n L σ (K × K) V E := resuming rt.paired fun k => (k.1, rt.newSlots)

end Policy

/-! ## Projections -/

section Maps

variable {K' : Type} (side : K → K')

namespace YieldState

def mapSlots : YieldState n L σ K V E → YieldState n L σ K' V E
  | .start s => .start s
  | .resume at_ k s => .resume at_ (side k) s
  | .run place body term k s => .run place body term (side k) s
  | .delegate it op rest k s => .delegate it op rest (side k) s

end YieldState

def YieldResult.mapSlots : YieldResult n L σ K V E → YieldResult n L σ K' V E
  | .yielded v at_ k s => .yielded v at_ (side k) s
  | .returned v s => .returned v s
  | .raised e s => .raised e s

def Waiting.mapSlots : Waiting n L K V → Waiting n L K' V
  | .start => .start
  | .suspended at_ k => .suspended at_ (side k)

/-- An outcome of a step. -/
abbrev mapOutcome (o : YieldState n L σ K V E ⊕ YieldResult n L σ K V E) :
    YieldState n L σ K' V E ⊕ YieldResult n L σ K' V E :=
  o.map (YieldState.mapSlots side) (YieldResult.mapSlots side)

end Maps

section Projection

variable (rt : YieldRuntime L σ K V E) (p : YieldProgram n L) (side : K × K → K)

/-- One of the two kinds of slots: they start and change as the other kind does. -/
structure IsSide : Prop where
  newSlots : side rt.paired.newSlots = rt.newSlots
  catchExc : ∀ params e k, side (rt.paired.catchExc params e k) = rt.catchExc params e (side k)
  passArgs : ∀ params args k s,
    side (rt.paired.passArgs params args k s) = rt.passArgs params args (side k) s

theorem isSide_fst : IsSide rt Prod.fst := ⟨rfl, fun _ _ _ => rfl, fun _ _ _ _ => rfl⟩

theorem isSide_snd : IsSide rt Prod.snd := ⟨rfl, fun _ _ _ => rfl, fun _ _ _ _ => rfl⟩

/-- What a terminator reads from the slots is the same on this side. -/
def TermReadsAlike (place : Place n L) (k : K × K) (s : σ) : YieldTerm n L → Prop
  | .jump l args =>
    rt.passAbrupt (p l).params args (side k) s = rt.passAbrupt (p l).params args k.1 s
  | .ifTerm x _ _ | .branchTable x _ _ | .raiseTerm (some x) | .ret x =>
    rt.eval x (side k) s = rt.eval x k.1 s
  | .retYieldFrom x => rt.eval x.value (side k) s = rt.eval x.value k.1 s
  | .raiseTerm none =>
    rt.currentException place.params (side k) = rt.currentException place.params k.1
  | .retYield value => evalYield rt value (side k) s = evalYield rt value k.1 s

/-- What a step reads from the slots is the same on this side. -/
def ReadsAlike : YieldState n L σ (K × K) V E → Prop
  | .run place [] term k s => TermReadsAlike rt p side place k s term
  | .run _ (.plain stmt :: _) _ k s => rt.exec stmt (side k) s = rt.exec stmt k.1 s
  | .run _ (.yieldValue _ value :: _) _ k s =>
    evalYield rt value (side k) s = evalYield rt value k.1 s
  | .run _ (.yieldFrom _ x :: _) _ k s => rt.eval x.value (side k) s = rt.eval x.value k.1 s
  | _ => True

theorem readsAlike_fst (t : YieldState n L σ (K × K) V E) : ReadsAlike rt p Prod.fst t := by
  match t with
  | .start _ | .resume _ _ _ | .delegate _ _ _ _ _ => trivial
  | .run _ (.plain _ :: _) _ _ _ | .run _ (.yieldValue _ _ :: _) _ _ _
  | .run _ (.yieldFrom _ _ :: _) _ _ _ => rfl
  | .run _ [] (.jump _ _) _ _ | .run _ [] (.ifTerm _ _ _) _ _ | .run _ [] (.branchTable _ _ _) _ _
  | .run _ [] (.raiseTerm none) _ _ | .run _ [] (.raiseTerm (some _)) _ _ | .run _ [] (.ret _) _ _
  | .run _ [] (.retYield _) _ _ | .run _ [] (.retYieldFrom _) _ _ => rfl

end Projection

/-! ## One step -/

section Steps

variable {rt : YieldRuntime L σ K V E} {p : YieldProgram n L} {side : K × K → K}
  (hside : IsSide rt side)
include hside

theorem raiseTo_mapSlots (exc : Option (Fin (n + 1))) (e : E) (k : K × K) (s : σ) :
    raiseTo rt p exc e (side k) s = mapOutcome side (raiseTo rt.paired p exc e k s) := by
  cases exc with
  | none => rfl
  | some h =>
    show Sum.inl (enterBlock p h (rt.catchExc (p h).params e (side k)) s) =
      Sum.inl (enterBlock p h (side (rt.paired.catchExc (p h).params e k)) s)
    rw [hside.catchExc]

theorem andThen_mapSlots {α : Type} (exc : Option (Fin (n + 1))) (k : K × K) (r : σ × Except E α)
    {next : α → σ → YieldState n L σ K V E ⊕ YieldResult n L σ K V E}
    {next' : α → σ → YieldState n L σ (K × K) V E ⊕ YieldResult n L σ (K × K) V E}
    (h : ∀ a s, next a s = mapOutcome side (next' a s)) :
    andThen rt p exc (side k) r next = mapOutcome side (andThen rt.paired p exc k r next') := by
  unfold andThen
  cases r.2 with
  | ok a => exact h a r.1
  | error e => exact raiseTo_mapSlots hside exc e k r.1

theorem continueWith_mapSlots (v : V) (rest : Rest n L) (k : K × K) (s : σ) :
    continueWith rt p v rest (side k) s =
      mapOutcome side (continueWith rt.paired p v rest k s) := by
  match rest with
  | .block _ none _ _ | .ret _ => rfl
  | .block place (some x) body term =>
    rw [continueWith, continueWith]
    exact andThen_mapSlots hside place.exc k (rt.assign x v s) fun _ _ => rfl

theorem delegated_mapSlots (it : V) (rest : Rest n L) (k : K × K) (r : σ × Except E V) :
    delegated rt p it rest (side k) r = mapOutcome side (delegated rt.paired p it rest k r) := by
  unfold delegated
  cases r.2 with
  | ok y => rfl
  | error e =>
    have hpaired : rt.paired.stopValue e = rt.stopValue e := rfl
    cases hstop : rt.stopValue e with
    | some v =>
      simp only [hpaired, hstop]
      exact continueWith_mapSlots hside v rest k r.1
    | none =>
      simp only [hpaired, hstop]
      exact raiseTo_mapSlots hside rest.place.exc e k r.1

section Policies

variable [DecidableEq V] {resumed : K → K} {resumed' : K × K → K × K}

theorem stepDelegate_mapSlots (it : V) (op : Resumption V E) (rest : Rest n L) (k : K × K) (s : σ) :
    stepDelegate rt p (.resuming rt resumed) it op rest (side k) s =
      mapOutcome side (stepDelegate rt.paired p (.resuming rt.paired resumed') it op rest k s) := by
  cases op with
  | send v => exact delegated_mapSlots hside it rest k _
  | throw e =>
    unfold stepDelegate
    have hpaired : rt.paired.isGeneratorExit e = rt.isGeneratorExit e := rfl
    simp only [hpaired]
    by_cases he : rt.isGeneratorExit e = true
    · rw [if_pos he, if_pos he]
      refine andThen_mapSlots hside rest.place.exc k _ fun m s' => ?_
      cases m with
      | none => exact raiseTo_mapSlots hside rest.place.exc e k s'
      | some m =>
        refine andThen_mapSlots hside rest.place.exc k _ fun _ s'' => ?_
        exact raiseTo_mapSlots hside rest.place.exc e k s''
    · rw [if_neg he, if_neg he]
      refine andThen_mapSlots hside rest.place.exc k _ fun m s' => ?_
      cases m with
      | none => exact raiseTo_mapSlots hside rest.place.exc e k s'
      | some m => exact delegated_mapSlots hside it rest k _

omit [DecidableEq V] in
theorem startDelegate_mapSlots (sig : Resumption V E) (x : Operand L) (rest : Rest n L) (k : K × K)
    (s : σ) (hread : rt.eval x.value (side k) s = rt.eval x.value k.1 s) :
    startDelegate rt p (.resuming rt resumed) sig x rest (side k) s =
      mapOutcome side
        (startDelegate rt.paired p (.resuming rt.paired resumed') sig x rest k s) := by
  have hdelegate : rt.delegateOf x (side k) s = rt.paired.delegateOf x k s := by
    cases x with
    | iterable x => exact congrArg (bindEff · rt.iter) hread
    | awaitable x => exact congrArg (bindEff · rt.awaits.getAwaitable) hread
  show andThen rt p rest.place.exc (side k) (rt.delegateOf x (side k) s) _ = _
  rw [hdelegate]
  exact andThen_mapSlots hside rest.place.exc k _ fun it s' => rfl

omit [DecidableEq V] in
theorem stepTerm_mapSlots (sig : Resumption V E) (term : YieldTerm n L) (place : Place n L)
    (k : K × K) (s : σ) (hread : TermReadsAlike rt p side place k s term) :
    stepTerm rt p (.resuming rt resumed) sig term place (side k) s =
      mapOutcome side
        (stepTerm rt.paired p (.resuming rt.paired resumed') sig term place k s) := by
  cases term with
  | jump l args =>
    have hread : rt.passAbrupt (p l).params args (side k) s =
      rt.passAbrupt (p l).params args k.1 s := hread
    show Sum.inl (enterBlock p l _ (rt.passAbrupt (p l).params args (side k) s)) = _
    rw [hread, ← hside.passArgs]
    rfl
  | ifTerm x l l' =>
    have hread : rt.eval x (side k) s = rt.eval x k.1 s := hread
    rw [stepTerm, stepTerm, hread]
    refine andThen_mapSlots hside place.exc k _ fun v s' => ?_
    exact andThen_mapSlots hside place.exc k _ fun b s'' => rfl
  | branchTable x ls l =>
    have hread : rt.eval x (side k) s = rt.eval x k.1 s := hread
    rw [stepTerm, stepTerm, hread]
    refine andThen_mapSlots hside place.exc k _ fun v s' => ?_
    exact andThen_mapSlots hside place.exc k _ fun i s'' => rfl
  | raiseTerm x =>
    cases x with
    | none =>
      have hread : rt.currentException place.params (side k) =
        rt.currentException place.params k.1 := hread
      rw [stepTerm, stepTerm, hread]
      exact raiseTo_mapSlots hside place.exc _ k _
    | some x =>
      have hread : rt.eval x (side k) s = rt.eval x k.1 s := hread
      rw [stepTerm, stepTerm, hread]
      refine andThen_mapSlots hside place.exc k _ fun v s' => ?_
      exact raiseTo_mapSlots hside place.exc _ k _
  | ret x =>
    have hread : rt.eval x (side k) s = rt.eval x k.1 s := hread
    rw [stepTerm, stepTerm, hread]
    exact andThen_mapSlots hside place.exc k _ fun _ _ => rfl
  | retYield value =>
    have hread : evalYield rt value (side k) s = evalYield rt value k.1 s := hread
    rw [stepTerm, stepTerm, hread]
    cases value <;> exact andThen_mapSlots hside place.exc k _ fun _ _ => rfl
  | retYieldFrom x => exact startDelegate_mapSlots hside sig x (.ret place) k s hread

omit [DecidableEq V] in
theorem stepStmt_mapSlots (sig : Resumption V E) (stmt : YieldStmt L) (place : Place n L)
    (body : List (YieldStmt L)) (term : YieldTerm n L) (k : K × K) (s : σ)
    (hread : ReadsAlike rt p side (.run place (stmt :: body) term k s)) :
    stepStmt rt p (.resuming rt resumed) sig stmt place body term (side k) s =
      mapOutcome side
        (stepStmt rt.paired p (.resuming rt.paired resumed') sig stmt place body term k s) := by
  cases stmt with
  | plain stmt =>
    have hread : rt.exec stmt (side k) s = rt.exec stmt k.1 s := hread
    rw [stepStmt, stepStmt, hread]
    exact andThen_mapSlots hside place.exc k _ fun _ _ => rfl
  | yieldValue x value =>
    have hread : evalYield rt value (side k) s = evalYield rt value k.1 s := hread
    rw [stepStmt, stepStmt, hread]
    cases value <;> exact andThen_mapSlots hside place.exc k _ fun _ _ => rfl
  | yieldFrom x value =>
    exact startDelegate_mapSlots hside sig value (.block place x body term) k s hread

/-- A step on one side. -/
theorem yieldStep_mapSlots (hresumed : ∀ k, resumed (side k) = side (resumed' k))
    (sig : Resumption V E) (t : YieldState n L σ (K × K) V E) (hread : ReadsAlike rt p side t) :
    yieldStep rt p (.resuming rt resumed) sig (t.mapSlots side) =
      mapOutcome side (yieldStep rt.paired p (.resuming rt.paired resumed') sig t) := by
  match t, hread with
  | .start s, _ =>
    cases sig with
    | send v =>
      show Sum.inl (enterBlock p 0 rt.newSlots s) =
        Sum.inl (enterBlock p 0 (side rt.paired.newSlots) s)
      rw [hside.newSlots]
    | throw e => rfl
  | .resume (.plain rest) k s, _ =>
    have hk : (Policy.resuming rt resumed : Policy n L σ K V E).resumed (side k) =
      side (resumed' k) := hresumed k
    cases sig with
    | send v =>
      rw [YieldState.mapSlots, yieldStep, yieldStep, hk]
      exact continueWith_mapSlots hside v rest (resumed' k) s
    | throw e =>
      rw [YieldState.mapSlots, yieldStep, yieldStep, hk]
      exact raiseTo_mapSlots hside rest.place.exc e (resumed' k) s
  | .resume (.delegation it rest) k s, _ =>
    show Sum.inl (YieldState.delegate it sig rest (resumed (side k)) s) =
      Sum.inl (YieldState.delegate it sig rest (side (resumed' k)) s)
    rw [hresumed]
  | .run place [] term k s, hread => exact stepTerm_mapSlots hside sig term place k s hread
  | .run place (stmt :: body) term k s, hread =>
    exact stepStmt_mapSlots hside sig stmt place body term k s hread
  | .delegate it op rest k s, _ => exact stepDelegate_mapSlots hside it op rest k s

end Policies

end Steps

/-! ## Histories -/

section Histories

variable [DecidableEq V] {rt : YieldRuntime L σ K V E} {p : YieldProgram n L}

section

variable {pol : Policy n L σ K V E} {pol' : Policy n L σ (K × K) V E} (side : K × K → K)

/-- A run on one side. -/
theorem runBlocks_mapSlots {cond : YieldState n L σ (K × K) V E → Prop} {i : Resume σ V E}
    (hstep : ∀ t, cond t → yieldStep rt p pol i.sig (t.mapSlots side) =
      mapOutcome side (yieldStep rt.paired p pol' i.sig t)) {w : Waiting n L (K × K) V}
    (hguard : (yieldMachine rt.paired p pol' i.sig).GuardedFrom cond (w.enter i.store)) :
    runBlocks rt p pol (w.mapSlots side) i =
      (runBlocks rt.paired p pol' w i).map (YieldResult.mapSlots side) := by
  have henter : (w.mapSlots side).enter i.store =
      (w.enter i.store : YieldState n L σ (K × K) V E).mapSlots side := by cases w <;> rfl
  unfold runBlocks
  rw [henter]
  exact outcome_map _ _ hstep hguard

omit [DecidableEq V] in
theorem observeBlocks_mapSlots (r : Option (YieldResult n L σ (K × K) V E)) :
    observeBlocks rt (r.map (YieldResult.mapSlots side)) =
      ((observeBlocks rt.paired r).1.map (Waiting.mapSlots side),
        (observeBlocks rt.paired r).2) := by
  match r with
  | none => rfl
  | some (.yielded _ _ _ _) | some (.returned _ _) | some (.raised _ _) => rfl

/-- A history on one side. -/
theorem outputs_mapSlots {cond : Resumption V E → YieldState n L σ (K × K) V E → Prop}
    (hstep : ∀ sig t, cond sig t → yieldStep rt p pol sig (t.mapSlots side) =
      mapOutcome side (yieldStep rt.paired p pol' sig t)) {is : List (Resume σ V E)}
    (h : (blocksProcess rt.paired p pol').Guarded (RunsFollow rt.paired p pol' cond)
      (some .start) is) :
    (blocksProcess rt.paired p pol').outputs (some .start) is =
      (blocksProcess rt p pol).outputs (some .start) is := by
  have hsame : ∀ w w' i, w' = w.map (Waiting.mapSlots side) →
      RunsFollow rt.paired p pol' cond w i →
      ((blocksProcess rt.paired p pol').step w i).2 =
          ((blocksProcess rt p pol).step w' i).2 ∧
        ((blocksProcess rt p pol).step w' i).1 =
          ((blocksProcess rt.paired p pol').step w i).1.map (Waiting.mapSlots side) := by
    rintro w _ i rfl hguard
    cases w with
    | none => exact ⟨rfl, rfl⟩
    | some w =>
      have hruns := runBlocks_mapSlots side (hstep i.sig) hguard
      unfold blocksProcess
      simp only [Option.map_some, hruns, observeBlocks_mapSlots, and_self]
  exact Transducer.outputs_eq_of_guarded _ _ _ hsame rfl h

end

/-- The slots beside those of the language do not matter. -/
theorem watched_outputs (is : List (Resume σ V E)) :
    (blocksProcess rt.paired p (.watched rt)).outputs (some .start) is =
      (blocksProcess rt p (.python rt)).outputs (some .start) is := by
  have hstep : ∀ (sig : Resumption V E) (t : YieldState n L σ (K × K) V E), True →
      yieldStep rt p (.python rt) sig (t.mapSlots Prod.fst) =
        mapOutcome Prod.fst (yieldStep rt.paired p (.watched rt) sig t) := fun sig t _ =>
    yieldStep_mapSlots (isSide_fst rt) (fun _ => rfl) sig t (readsAlike_fst rt p t)
  refine outputs_mapSlots Prod.fst hstep (Transducer.guarded_of_forall _ _ (fun w i => ?_) _ is)
  cases w with
  | none => trivial
  | some w => exact fun _ _ => trivial

end Histories

end DietPython.Generators
