import DietPython.Generators.ResumePlacement

/-!
# The resume function follows the blocks

Every step of the blocks, with the lowered policy, is followed by steps of the resume function: a
suspension by a return with the resume point in `_dp_pc`, a return by a `StopIteration`, and a
resumption by the dispatch and the resume blocks.
-/

namespace DietPython.Generators

open Machines Machine

variable {n : ℕ} {L : Lang} {σ K V E : Type} [DecidableEq V]

/-- A method that is `None` is not found. -/
theorem lowered_found_of_eq {rt : YieldRuntime L σ K V E} {m : Option V}
    (h : m.getD rt.none = rt.none) : (Policy.lowered rt : Policy n L σ K V E).found m = none := by
  show m.filter _ = none
  cases m with
  | none => rfl
  | some v =>
    have hv : v = rt.none := h
    simp [Option.filter, hv]

theorem lowered_found_of_ne {rt : YieldRuntime L σ K V E} {m : Option V}
    (h : m.getD rt.none ≠ rt.none) :
    (Policy.lowered rt : Policy n L σ K V E).found m = some (m.getD rt.none) := by
  show m.filter _ = _
  cases m with
  | none => exact absurd rfl h
  | some v =>
    have hv : v ≠ rt.none := h
    simp [Option.filter, hv]

/-! ## Related states -/

/-- The call carries the resumption. -/
def Carries : Resumption V E → ResumeFrame σ K V E → Prop
  | .send v, f => f.sendValue = v ∧ f.resumeExc = none
  | .throw e, f => f.resumeExc = some e

omit [DecidableEq V] in
/-- The rest of the frame does not matter. -/
theorem Carries.of_eq {sig : Resumption V E} {f f' : ResumeFrame σ K V E} (h : Carries sig f)
    (hvalue : f'.sendValue = f.sendValue) (hexc : f'.resumeExc = f.resumeExc) : Carries sig f' := by
  cases sig with
  | send v => exact ⟨hvalue.trans h.1, hexc.trans h.2⟩
  | throw e => exact hexc.trans h

section Relation

variable (rt : YieldRuntime L σ K V E) (g : List (ResumeBlock L))
  (targets : List ℕ) (exhausted : ℕ)

/-- The cells say where the body is suspended. -/
def SuspendedAt : Suspension n L V → ResumeCells σ V → Prop
  | .plain rest, cells => ∃ y,
      YieldPlaced g targets rest.place.params (rest.place.exc.map Fin.val) y ∧
      y.RestAt g targets rest ∧ cells.pc = y.pc
  | .delegation it rest, cells => ∃ d,
      DelegatePlaced g targets rest.place.params (rest.place.exc.map Fin.val) d ∧
      d.RestAt g targets rest ∧ cells.pc = d.pc ∧ cells.yieldfrom = it

/-- The start of a call. -/
def dispatchState (f : ResumeFrame σ K V E) : ResumeState L σ K V E :=
  ⟨[], .dispatch targets exhausted, none, f⟩

inductive ResumeRelated (sig : Resumption V E) :
    YieldState n L σ K V E → ResumeState L σ K V E → Prop
  | start {f : ResumeFrame σ K V E} (hpc : f.pc = 1) (hslots : f.slots = rt.newSlots)
      (hsig : Carries sig f) :
      ResumeRelated sig (.start f.store) (dispatchState targets exhausted f)
  | resume {f : ResumeFrame σ K V E} {susp : Suspension n L V} {slots : K}
      (hsusp : SuspendedAt g targets susp f.toResumeCells)
      (hslots : f.slots = rt.newSlots) (hsig : Carries sig f) :
      ResumeRelated sig (.resume susp slots f.store) (dispatchState targets exhausted f)
  | run {f : ResumeFrame σ K V E} {place : Place n L} {body : List (YieldStmt L)}
      {term : YieldTerm n L} {code : List (ResumeStmt L)} {t : ResumeTerm L}
      (hcode : Emitted g targets place.params place.exc body term code t)
      (hsig : Carries sig f) :
      ResumeRelated sig (.run place body term f.slots f.store)
        ⟨code, t, place.exc.map Fin.val, f⟩
  | delegate {f : ResumeFrame σ K V E} {rest : Rest n L} {d : DelegateSite}
      (hplaced : DelegatePlaced g targets rest.place.params (rest.place.exc.map Fin.val) d)
      (hrest : d.RestAt g targets rest) (hsig : Carries sig f) :
      ResumeRelated sig (.delegate f.yieldfrom sig rest f.slots f.store)
        ⟨[], .ifResumeExc d.excDispatch d.sendDispatch, rest.place.exc.map Fin.val, f⟩

/-- What a call ends with, for each way in which the blocks stop. -/
inductive ResumeMatches : YieldResult n L σ K V E → ResumeResult σ K V E → Prop
  | yielded {v : V} {susp : Suspension n L V} {f : ResumeFrame σ K V E}
      (hsusp : SuspendedAt g targets susp f.toResumeCells) :
      ResumeMatches (.yielded v susp f.slots f.store) (.returned v f)
  | returned {v : V} {cells : ResumeCells σ V} :
      ResumeMatches (.returned v cells.store) (.raised (rt.stopIteration v) cells)
  | raised {e : E} {cells : ResumeCells σ V} :
      ResumeMatches (.raised e cells.store) (.raised e cells)

end Relation

/-! ## Catching up -/

section Catching

variable {rt : YieldRuntime L σ K V E} {p : YieldProgram n L} {g : List (ResumeBlock L)}
  {targets : List ℕ} {exhausted : ℕ} {sig : Resumption V E}

variable (rt g targets exhausted sig) in
/-- The resume function gets to where the blocks are. -/
abbrev Catches (o : YieldState n L σ K V E ⊕ YieldResult n L σ K V E)
    (o' : ResumeState L σ K V E ⊕ ResumeResult σ K V E) : Prop :=
  (resumeMachine rt g).CatchesUp (ResumeRelated rt g targets exhausted sig)
    (ResumeMatches rt g targets) o o'

/-- After one more statement. -/
theorem catches_stmt {o : YieldState n L σ K V E ⊕ YieldResult n L σ K V E} {stmt : ResumeStmt L}
    {body : List (ResumeStmt L)} {t : ResumeTerm L} {exc : Option ℕ} {f : ResumeFrame σ K V E}
    (h : Catches rt g targets exhausted sig o
      (resumeStmt rt g stmt exc f fun f => .inl ⟨body, t, exc, f⟩)) :
    Catches rt g targets exhausted sig o (.inl ⟨stmt :: body, t, exc, f⟩) := CatchesUp.step rfl h

/-- After the terminator. -/
theorem catches_term {o : YieldState n L σ K V E ⊕ YieldResult n L σ K V E} {t : ResumeTerm L}
    {exc : Option ℕ} {f : ResumeFrame σ K V E}
    (h : Catches rt g targets exhausted sig o (resumeTerm rt g t exc f)) :
    Catches rt g targets exhausted sig o (.inl ⟨[], t, exc, f⟩) := CatchesUp.step rfl h

/-- A step that is a statement. -/
theorem steps_stmt {o : YieldState n L σ K V E ⊕ YieldResult n L σ K V E} {stmt : ResumeStmt L}
    {body : List (ResumeStmt L)} {t : ResumeTerm L} {exc : Option ℕ} {f : ResumeFrame σ K V E}
    (h : Catches rt g targets exhausted sig o
      (resumeStmt rt g stmt exc f fun f => .inl ⟨body, t, exc, f⟩)) :
    Catches rt g targets exhausted sig o (resumeStep rt g ⟨stmt :: body, t, exc, f⟩) := h

/-- A step that is a terminator. -/
theorem steps_term {o : YieldState n L σ K V E ⊕ YieldResult n L σ K V E} {t : ResumeTerm L}
    {exc : Option ℕ} {f : ResumeFrame σ K V E}
    (h : Catches rt g targets exhausted sig o (resumeTerm rt g t exc f)) :
    Catches rt g targets exhausted sig o (resumeStep rt g ⟨[], t, exc, f⟩) := h

/-- A local with a value is read. -/
theorem catches_readLocal {o : YieldState n L σ K V E ⊕ YieldResult n L σ K V E} {α : Type}
    {exc : Option ℕ} {f : ResumeFrame σ K V E} {value : Option α} {a : α} (ha : value = some a)
    {next : α → ResumeState L σ K V E ⊕ ResumeResult σ K V E}
    (h : Catches rt g targets exhausted sig o (next a)) :
    Catches rt g targets exhausted sig o (readLocal rt g exc f value next) := by
  subst ha
  exact h

/-- The frame in a block, which has stored the throw context. -/
def inBlock (rt : YieldRuntime L σ K V E) (params : List (BlockParam L)) (f : ResumeFrame σ K V E) :
    ResumeFrame σ K V E :=
  { f with throwContext := (rt.currentException params f.slots).getD rt.none }

omit [DecidableEq V] in
theorem Carries.inBlock (rt : YieldRuntime L σ K V E) {f : ResumeFrame σ K V E}
    (h : Carries sig f) (params : List (BlockParam L)) : Carries sig (inBlock rt params f) :=
  h.of_eq rfl rfl

/-- Entering a block. -/
theorem catches_goto {o : YieldState n L σ K V E ⊕ YieldResult n L σ K V E} {label : ℕ}
    {params : List (BlockParam L)} {body : List (ResumeStmt L)} {t : ResumeTerm L}
    {exc : Option ℕ} (hplaced : Placed g [pushedBlock label params body t exc])
    {f : ResumeFrame σ K V E}
    (h : Catches rt g targets exhausted sig o (.inl ⟨body, t, exc, inBlock rt params f⟩)) :
    Catches rt g targets exhausted sig o (gotoBlock g label f) := by
  have hblock : blockAt g label = some (pushedBlock label params body t exc) :=
    hplaced _ (List.mem_singleton_self _)
  have hstep : (resumeMachine rt g).step ⟨.storeThrowContext params :: body, t, exc, f⟩ =
      .inl ⟨body, t, exc, inBlock rt params f⟩ := rfl
  unfold gotoBlock
  rw [hblock]
  exact CatchesUp.step hstep h

/-- Entering a block whose exception parameter is a temporary. -/
theorem catches_gotoCatch {o : YieldState n L σ K V E ⊕ YieldResult n L σ K V E} {label caught : ℕ}
    {params : List (BlockParam L)} {body : List (ResumeStmt L)} {t : ResumeTerm L}
    {exc : Option ℕ} (hplaced : Placed g [pushedCatchBlock label params caught body t exc])
    {f : ResumeFrame σ K V E} {e : E} (hcaught : f.caught caught = some e)
    (h : Catches rt g targets exhausted sig o
      (.inl ⟨body, t, exc, { f with throwContext := rt.excObject e }⟩)) :
    Catches rt g targets exhausted sig o (gotoBlock g label f) := by
  have hblock : blockAt g label = some (pushedCatchBlock label params caught body t exc) :=
    hplaced _ (List.mem_singleton_self _)
  have hstep : (resumeMachine rt g).step ⟨.storeThrowContextTemp caught :: body, t, exc, f⟩ =
      .inl ⟨body, t, exc, { f with throwContext := rt.excObject e }⟩ := by
    show readLocal rt g exc f (f.caught caught) _ = _
    rw [hcaught]
    rfl
  unfold gotoBlock
  rw [hblock]
  exact CatchesUp.step hstep h

/-- The code of a block is reached. -/
theorem catches_code {place : Place n L} {body : List (YieldStmt L)} {term : YieldTerm n L}
    {code : List (ResumeStmt L)} {t : ResumeTerm L}
    (hcode : Emitted g targets place.params place.exc body term code t)
    {f : ResumeFrame σ K V E} (hsig : Carries sig f) {slots : K} {s : σ}
    (hslots : f.slots = slots) (hs : f.store = s) :
    Catches rt g targets exhausted sig (.inl (.run place body term slots s))
      (.inl ⟨code, t, place.exc.map Fin.val, f⟩) := by
  subst hslots hs
  exact .of_rel (.run hcode hsig)

/-- The body is suspended. -/
theorem catches_yielded {v : V} {susp : Suspension n L V} {f : ResumeFrame σ K V E}
    {slots : K} {s : σ} (hslots : f.slots = slots) (hs : f.store = s)
    (hsusp : SuspendedAt g targets susp f.toResumeCells) :
    Catches rt g targets exhausted sig (.inr (.yielded v susp slots s))
      (.inr (.returned v f)) := by
  subst hslots hs
  exact ResumeMatches.yielded hsusp

/-- The body has returned. -/
theorem catches_returned {v : V} {f : ResumeFrame σ K V E} {s : σ} (hs : f.store = s) :
    Catches (n := n) rt g targets exhausted sig (.inr (.returned v s))
      (throwTo rt g none (rt.stopIteration v) f) := by
  subst hs
  exact ResumeMatches.returned

variable (hlowers : Lowers g targets p)
include hlowers

/-- Entering a block of the callable. -/
theorem catches_enterBlock (l : Fin (n + 1)) {f : ResumeFrame σ K V E} (hsig : Carries sig f) :
    Catches rt g targets exhausted sig (.inl (enterBlock p l f.slots f.store))
      (gotoBlock g l f) := by
  obtain ⟨code, t, hplaced, hcode⟩ := hlowers l
  let place : Place n L := ⟨(p l).params, (p l).exc⟩
  have hcode : Emitted g targets place.params place.exc (p l).body (p l).term code t := hcode
  exact catches_goto hplaced (catches_code hcode (hsig.inBlock rt _) rfl rfl)

/-- Entering a block of the callable with arguments. -/
theorem catches_jump (l : Fin (n + 1)) (args : List (BlockArg L)) {f : ResumeFrame σ K V E}
    (hsig : Carries sig f) :
    Catches rt g targets exhausted sig
      (.inl (enterBlock p l
        (rt.passArgs (p l).params args f.slots f.store) f.store))
      (jumpBlock rt g l args f) := by
  obtain ⟨code, t, hplaced, _⟩ := hlowers l
  have hblock : blockAt g l = some (pushedBlock l (p l).params code t _) :=
    hplaced _ (List.mem_singleton_self _)
  have hsame : jumpBlock rt g l args f =
      gotoBlock g l (f.setSlots (rt.passArgs (p l).params args f.slots f.store)) := by
    unfold jumpBlock gotoBlock
    rw [hblock]
    rfl
  rw [hsame]
  have hsig : Carries sig (f.setSlots (rt.passArgs (p l).params args f.slots f.store)) := by
    cases sig <;> exact hsig
  exact catches_enterBlock hlowers l hsig

/-- An exception goes to the same handler. -/
theorem catches_raise (exc : Option (Fin (n + 1))) (e : E) {f : ResumeFrame σ K V E}
    (hsig : Carries sig f) :
    Catches rt g targets exhausted sig
      (raiseTo rt p exc e f.slots f.store)
      (throwTo rt g (exc.map Fin.val) e f) := by
  cases exc with
  | none => exact .raised
  | some h =>
    obtain ⟨code, t, hplaced, _⟩ := hlowers h
    have hblock : blockAt g h = some (pushedBlock h (p h).params code t _) :=
      hplaced _ (List.mem_singleton_self _)
    have hsame : throwTo rt g (some h.val) e f =
        gotoBlock g h (f.setSlots (rt.catchExc (p h).params e f.slots)) := by
      unfold throwTo gotoBlock
      simp only [hblock]
      rfl
    show Catches rt g targets exhausted sig _ (throwTo rt g (some h.val) e f)
    rw [hsame]
    have hsig : Carries sig (f.setSlots (rt.catchExc (p h).params e f.slots)) := by
      cases sig <;> exact hsig
    exact catches_enterBlock hlowers h hsig

/-- An effect, and what follows it. -/
theorem catches_andThen {α : Type} {exc : Option (Fin (n + 1))} {r : σ × Except E α}
    {f : ResumeFrame σ K V E} (hsig : Carries sig f) {slots : K} (hslots : f.slots = slots)
    {next : α → σ → YieldState n L σ K V E ⊕ YieldResult n L σ K V E}
    {next' : α → ResumeFrame σ K V E → ResumeState L σ K V E ⊕ ResumeResult σ K V E}
    (h : ∀ a, Carries sig (f.setStore r.1) →
      Catches rt g targets exhausted sig (next a r.1) (next' a (f.setStore r.1))) :
    Catches rt g targets exhausted sig (andThen rt p exc slots r next)
      (thenDo rt g (exc.map Fin.val) f r next') := by
  subst hslots
  have hsig : Carries sig (f.setStore r.1) := hsig.of_eq rfl rfl
  unfold andThen thenDo
  cases r.2 with
  | ok a => exact h a hsig
  | error e => exact catches_raise hlowers exc e hsig

/-! ## After a yield -/

/-- The continuation of a plain yield. -/
theorem catches_afterYield {y : YieldSite} {rest : Rest n L} (hrest : y.RestAt g targets rest)
    {f : ResumeFrame σ K V E} (hsig : Carries sig f) :
    Catches rt g targets exhausted sig
      (continueWith rt p f.sendValue rest f.slots f.store)
      (gotoBlock g y.continueLabel f) := by
  cases rest with
  | block place x body term =>
    obtain ⟨code, t, hplaced, hcode⟩ := hrest
    refine catches_goto hplaced ?_
    have hin : Carries sig (inBlock rt place.params f) := hsig.inBlock rt _
    cases x with
    | none => exact catches_code hcode hin rfl rfl
    | some x =>
      rw [continueWith]
      refine catches_stmt (catches_andThen hlowers hin rfl fun _ hsig => ?_)
      exact catches_code hcode hsig rfl rfl
  | ret place =>
    obtain ⟨l, hplaced⟩ := hrest
    refine catches_goto (hplaced.of_mem (.head _)) (catches_term ?_)
    refine catches_goto (hplaced.of_mem (.tail _ (.head _))) (catches_term ?_)
    exact catches_returned rfl

/-- The continuation of a delegation. -/
theorem catches_afterYieldFrom {d : DelegateSite} {rest : Rest n L}
    (hrest : d.RestAt g targets rest) {f : ResumeFrame σ K V E}
    (hsig : Carries sig f) {v : V} (hv : f.temps d.yieldedValue = some v) :
    Catches rt g targets exhausted sig
      (continueWith rt p v rest f.slots f.store) (gotoBlock g d.done f) := by
  cases rest with
  | block place x body term =>
    obtain ⟨code, t, hplaced, hcode⟩ := hrest
    refine catches_goto hplaced ?_
    have hin : Carries sig ({ inBlock rt place.params f with
      yieldfrom := rt.none } : ResumeFrame σ K V E) := hsig.of_eq rfl rfl
    cases x with
    | none => exact catches_stmt (catches_code hcode hin rfl rfl)
    | some x =>
      rw [continueWith]
      refine catches_stmt (catches_stmt (catches_readLocal hv ?_))
      refine catches_andThen hlowers hin rfl fun _ hsig => ?_
      exact catches_code hcode hsig rfl rfl
  | ret place =>
    obtain ⟨l, hplaced⟩ := hrest
    refine catches_goto (hplaced.of_mem (.head _)) (catches_stmt (catches_stmt ?_))
    refine catches_readLocal hv (catches_term ?_)
    refine catches_goto (hplaced.of_mem (.tail _ (.head _))) (catches_term ?_)
    rw [resumeTerm, completionRaise]
    exact catches_readLocal rfl (catches_returned rfl)

/-! ## A delegation -/

omit [DecidableEq V] hlowers in
/-- Every parameter of a block keeps its value. -/
theorem jumpBlock_selfArgs {label : ℕ} {params : List (BlockParam L)} {body : List (ResumeStmt L)}
    {t : ResumeTerm L} {exc : Option ℕ} (hplaced : Placed g [pushedBlock label params body t exc])
    (f : ResumeFrame σ K V E) :
    jumpBlock rt g label (DelegateSite.selfArgs params) f = gotoBlock g label f := by
  have hblock : blockAt g label = some (pushedBlock label params body t exc) :=
    hplaced _ (List.mem_singleton_self _)
  have hself : rt.passArgs params (DelegateSite.selfArgs params) f.slots f.store = f.slots :=
    rt.passArgs_self params f.slots f.store
  unfold jumpBlock gotoBlock
  rw [hblock]
  show Sum.inl (ResumeState.mk _ _ _ (f.setSlots (rt.passArgs params _ _ _))) = _
  rw [hself]
  rfl

omit hlowers in
/-- The block behind a delegation. -/
theorem DelegateSite.RestAt.placed {d : DelegateSite} {rest : Rest n L}
    (hrest : d.RestAt g targets rest) :
    ∃ body t, Placed g [pushedBlock d.done rest.place.params body t
      (rest.place.exc.map Fin.val)] := by
  cases rest with
  | block place x body term =>
    obtain ⟨code, t, hplaced, _⟩ := hrest
    exact ⟨_, _, hplaced⟩
  | ret place =>
    obtain ⟨l, hplaced⟩ := hrest
    exact ⟨_, _, hplaced.of_mem (.head _)⟩

/-- The delegate has answered: its value is yielded, its `StopIteration` ends the delegation and
any other exception is raised. -/
theorem catches_delegated {d : DelegateSite} {rest : Rest n L}
    (hplaced : DelegatePlaced g targets rest.place.params (rest.place.exc.map Fin.val) d)
    (hrest : d.RestAt g targets rest) {f : ResumeFrame σ K V E}
    (hsig : Carries sig f) {it : V} (hit : f.yieldfrom = it)
    {slots : K} (hslots : f.slots = slots) (r : σ × Except E V) :
    Catches rt g targets exhausted sig (delegated rt p it rest slots r)
      (thenDo rt g (some d.callExcept) f r fun y f =>
        .inl ⟨[], .goto d.yielded, some d.callExcept, f.setTemp d.yieldedValue y⟩) := by
  subst hit hslots
  have hblocks := hplaced.2
  unfold delegated thenDo
  cases r.2 with
  | ok y =>
    have hyielded : Placed g [pushedBlock d.yielded rest.place.params [.storePc d.pc]
      (.retTemp d.yieldedValue) (rest.place.exc.map Fin.val)] :=
      hblocks.of_mem (by simp [DelegateSite.blocks])
    refine catches_term (catches_goto hyielded ?_)
    refine catches_stmt (catches_term ?_)
    rw [resumeTerm]
    refine catches_readLocal (Function.update_self (β := fun _ => Option V) ..) ?_
    exact catches_yielded rfl rfl ⟨d, hplaced, hrest, rfl, rfl⟩
  | error e =>
    have hcatch : Placed g [pushedCatchBlock d.callExcept rest.place.params d.caughtExc []
      (.ifStopIteration d.caughtExc d.stopiter d.nonStopiter) (rest.place.exc.map Fin.val)] :=
      hblocks.of_mem (by simp [DelegateSite.blocks])
    have hcaught : ((f.setStore r.1).setCaught d.caughtExc e).caught d.caughtExc = some e :=
      Function.update_self ..
    have hin : Carries sig ((f.setStore r.1).setCaught d.caughtExc e) :=
      hsig.of_eq rfl rfl
    have hsame : throwTo rt g (some d.callExcept) e (f.setStore r.1) =
        gotoBlock g d.callExcept ((f.setStore r.1).setCaught d.caughtExc e) := by
      have hblock : blockAt g d.callExcept = some (pushedCatchBlock d.callExcept _ _ _ _ _) :=
        hcatch _ (List.mem_singleton_self _)
      simp only [throwTo, gotoBlock, hblock]
      rfl
    show Catches rt g targets exhausted sig _
      (throwTo rt g (some d.callExcept) e (f.setStore r.1))
    rw [hsame]
    refine catches_gotoCatch hcatch hcaught (catches_term ?_)
    rw [resumeTerm]
    refine catches_readLocal hcaught ?_
    simp only
    have hin : Carries sig ({ (f.setStore r.1).setCaught d.caughtExc e with
      throwContext := rt.excObject e } : ResumeFrame σ K V E) := hin.of_eq rfl rfl
    cases hv : rt.stopValue e with
    | some v =>
      have hstop : Placed g [pushedCatchBlock d.stopiter rest.place.params d.caughtExc
        [.storeStopValue d.yieldedValue d.caughtExc]
        (.jump d.done (DelegateSite.selfArgs rest.place.params)) (rest.place.exc.map Fin.val)] :=
        hblocks.of_mem (by simp [DelegateSite.blocks])
      obtain ⟨body, t, hdone⟩ := hrest.placed
      refine catches_gotoCatch hstop hcaught (catches_stmt ?_)
      rw [resumeStmt]
      refine catches_readLocal (a := v) ((congrArg (· >>= rt.stopValue) hcaught).trans hv) ?_
      refine catches_term ?_
      rw [resumeTerm, jumpBlock_selfArgs hdone]
      have hin : Carries sig
        ((({ (f.setStore r.1).setCaught d.caughtExc e with
          throwContext := rt.excObject e } : ResumeFrame σ K V E)).setTemp d.yieldedValue v) :=
        hin.of_eq rfl rfl
      exact catches_afterYieldFrom hlowers hrest hin
        (Function.update_self (β := fun _ => Option V) ..)
    | none =>
      have hraise : Placed g [pushedCatchBlock d.nonStopiter rest.place.params d.caughtExc []
        (.raiseTemp d.caughtExc) (rest.place.exc.map Fin.val)] :=
        hblocks.of_mem (by simp [DelegateSite.blocks])
      refine catches_gotoCatch hraise hcaught (catches_term ?_)
      rw [resumeTerm]
      refine catches_readLocal hcaught ?_
      exact catches_raise hlowers rest.place.exc e hin

section Forward

variable {d : DelegateSite} {rest : Rest n L}
  (hplaced : DelegatePlaced g targets rest.place.params (rest.place.exc.map Fin.val) d)
include hplaced

/-- The exception of the resumption is raised at the delegation. -/
theorem catches_raiseResumeExc {f : ResumeFrame σ K V E} {e : E}
    (hsig : Carries (.throw e) f) {slots : K} (hslots : f.slots = slots)
    {s : σ} (hs : f.store = s) :
    Catches rt g targets exhausted (.throw e)
      (raiseTo rt p rest.place.exc e slots s)
      (gotoBlock g d.raiseResumeExc f) := by
  subst hslots hs
  have hraise : Placed g [pushedBlock d.raiseResumeExc rest.place.params [] .raiseResumeExc
    (rest.place.exc.map Fin.val)] := hplaced.2.of_mem (by simp [DelegateSite.blocks])
  refine catches_goto hraise (catches_term ?_)
  rw [resumeTerm]
  refine catches_readLocal (show _ = some e from hsig) ?_
  exact catches_raise hlowers rest.place.exc e (hsig.inBlock rt _)

/-- `GeneratorExit` closes the delegate and is raised. -/
theorem catches_close {f : ResumeFrame σ K V E} {e : E}
    (hsig : Carries (.throw e) f) :
    Catches rt g targets exhausted (.throw e)
      (andThen rt p rest.place.exc f.slots
          (rt.lookup .close f.yieldfrom f.store) fun m s' =>
        match (Policy.lowered rt : Policy n L σ K V E).found m with
        | none => raiseTo rt p rest.place.exc e f.slots s'
        | some m => andThen rt p rest.place.exc f.slots
            (rt.callClose m s') fun _ s'' =>
            raiseTo rt p rest.place.exc e f.slots s'')
      (gotoBlock g d.closeLookup f) := by
  have hlookup : Placed g [pushedBlock d.closeLookup rest.place.params
    [.lookupMethod d.closeName .close]
    (.ifTempNotNone d.closeName d.closeCall d.raiseResumeExc) (rest.place.exc.map Fin.val)] :=
    hplaced.2.of_mem (by simp [DelegateSite.blocks])
  have hcall : Placed g [pushedBlock d.closeCall rest.place.params [.callClose d.closeName]
    (.goto d.raiseResumeExc) (rest.place.exc.map Fin.val)] :=
    hplaced.2.of_mem (by simp [DelegateSite.blocks])
  refine catches_goto hlookup (catches_stmt ?_)
  rw [resumeStmt]
  refine catches_andThen hlowers (hsig.inBlock rt _) rfl fun m hsig => catches_term ?_
  have hsig : Carries (.throw e) (((inBlock rt rest.place.params f).setStore
    (rt.lookup .close f.yieldfrom f.store).1).setTemp d.closeName (m.getD rt.none)) :=
    hsig.of_eq rfl rfl
  rw [resumeTerm]
  refine catches_readLocal (Function.update_self (β := fun _ => Option V) ..) ?_
  by_cases hm : m.getD rt.none = rt.none
  · rw [lowered_found_of_eq hm, if_neg (not_not.mpr hm)]
    exact catches_raiseResumeExc hlowers hplaced hsig rfl rfl
  · rw [lowered_found_of_ne hm, if_pos hm]
    refine catches_goto hcall (catches_stmt ?_)
    rw [resumeStmt]
    refine catches_readLocal (Function.update_self (β := fun _ => Option V) ..) ?_
    refine catches_andThen hlowers (hsig.inBlock rt _) rfl fun _ hsig =>
      catches_term ?_
    exact catches_raiseResumeExc hlowers hplaced hsig rfl rfl

/-- Any other exception is thrown into the delegate. -/
theorem catches_throw (hrest : d.RestAt g targets rest) {f : ResumeFrame σ K V E} {e : E}
    (hsig : Carries (.throw e) f) :
    Catches rt g targets exhausted (.throw e)
      (andThen rt p rest.place.exc f.slots
          (rt.lookup .throw f.yieldfrom f.store) fun m s' =>
        match (Policy.lowered rt : Policy n L σ K V E).found m with
        | none => raiseTo rt p rest.place.exc e f.slots s'
        | some m => delegated rt p f.yieldfrom rest f.slots
            (rt.callThrow m e s'))
      (gotoBlock g d.throwLookup f) := by
  have hlookup : Placed g [pushedBlock d.throwLookup rest.place.params
    [.lookupMethod d.throwName .throw]
    (.ifTempNone d.throwName d.raiseResumeExc d.throwCall) (rest.place.exc.map Fin.val)] :=
    hplaced.2.of_mem (by simp [DelegateSite.blocks])
  have hcall : Placed g [pushedBlock d.throwCall rest.place.params
    [.callThrow d.yieldedValue d.throwName] (.goto d.yielded) (some d.callExcept)] :=
    hplaced.2.of_mem (by simp [DelegateSite.blocks])
  refine catches_goto hlookup (catches_stmt ?_)
  rw [resumeStmt]
  refine catches_andThen hlowers (hsig.inBlock rt _) rfl fun m hsig => catches_term ?_
  have hsig : Carries (.throw e) (((inBlock rt rest.place.params f).setStore
    (rt.lookup .throw f.yieldfrom f.store).1).setTemp d.throwName (m.getD rt.none)) :=
    hsig.of_eq rfl rfl
  rw [resumeTerm]
  refine catches_readLocal (Function.update_self (β := fun _ => Option V) ..) ?_
  by_cases hm : m.getD rt.none = rt.none
  · rw [lowered_found_of_eq hm, if_pos hm]
    exact catches_raiseResumeExc hlowers hplaced hsig rfl rfl
  · rw [lowered_found_of_ne hm, if_neg hm]
    refine catches_goto hcall (catches_stmt ?_)
    rw [resumeStmt]
    refine catches_readLocal (Function.update_self (β := fun _ => Option V) ..) ?_
    refine catches_readLocal (show _ = some e from hsig) ?_
    exact catches_delegated hlowers hplaced hrest (hsig.inBlock rt _) rfl rfl _

/-- The resumption is forwarded to the delegate. -/
theorem catches_delegate (hrest : d.RestAt g targets rest) {f : ResumeFrame σ K V E}
    (hsig : Carries sig f) :
    Catches rt g targets exhausted sig
      (stepDelegate rt p (.lowered rt) f.yieldfrom sig rest f.slots f.store)
      (resumeTerm rt g (.ifResumeExc d.excDispatch d.sendDispatch)
        (rest.place.exc.map Fin.val) f) := by
  rw [resumeTerm]
  cases sig with
  | send v =>
    obtain ⟨rfl, hexc⟩ := hsig
    have hsend : Placed g [pushedBlock d.sendDispatch rest.place.params []
      (.ifSendNone d.nextCall d.sendCall) (rest.place.exc.map Fin.val)] :=
      hplaced.2.of_mem (by simp [DelegateSite.blocks])
    have hnext : Placed g [pushedBlock d.nextCall rest.place.params [.callNext d.yieldedValue]
      (.goto d.yielded) (some d.callExcept)] := hplaced.2.of_mem (by simp [DelegateSite.blocks])
    have hcall : Placed g [pushedBlock d.sendCall rest.place.params [.callSend d.yieldedValue]
      (.goto d.yielded) (some d.callExcept)] := hplaced.2.of_mem (by simp [DelegateSite.blocks])
    rw [hexc]
    refine catches_goto hsend (catches_term ?_)
    have hsig : Carries (.send f.sendValue) (inBlock rt rest.place.params f) := ⟨rfl, hexc⟩
    rw [resumeTerm, stepDelegate]
    by_cases hv : f.sendValue = rt.none
    · rw [if_pos hv, if_pos (show (inBlock rt _ f).sendValue = rt.none from hv)]
      refine catches_goto hnext (catches_stmt ?_)
      exact catches_delegated hlowers hplaced hrest (hsig.inBlock rt _) rfl rfl _
    · rw [if_neg hv, if_neg (show (inBlock rt _ f).sendValue ≠ rt.none from hv)]
      refine catches_goto hcall (catches_stmt ?_)
      exact catches_delegated hlowers hplaced hrest (hsig.inBlock rt _) rfl rfl _
  | throw e =>
    have hexc : f.resumeExc = some e := hsig
    have hdispatch : Placed g [pushedBlock d.excDispatch rest.place.params []
      (.ifGeneratorExit d.closeLookup d.throwLookup) (rest.place.exc.map Fin.val)] :=
      hplaced.2.of_mem (by simp [DelegateSite.blocks])
    rw [hexc]
    refine catches_goto hdispatch (catches_term ?_)
    have hsig := hsig.inBlock rt rest.place.params
    rw [resumeTerm, stepDelegate,
      show (inBlock rt rest.place.params f).resumeExc = some e from hexc]
    by_cases he : rt.isGeneratorExit e = true
    · rw [if_pos he, if_pos (by simpa using he)]
      exact catches_close hlowers hplaced hsig
    · rw [if_neg he, if_neg (by simpa using he)]
      exact catches_throw hlowers hplaced hrest hsig

/-- A delegation starts with the current resumption. -/
theorem catches_startDelegate (hrest : d.RestAt g targets rest) (value : Operand L)
    {f : ResumeFrame σ K V E} (hsig : Carries sig f) :
    Catches rt g targets exhausted sig
      (startDelegate rt p (.lowered rt) sig value rest f.slots f.store)
      (resumeStep rt g
        ⟨[.storeIter value.lowerAwait, .storePc d.pc], .goto d.label,
          rest.place.exc.map Fin.val, f⟩) := by
  have hlabel : Placed g [pushedBlock d.label rest.place.params []
    (.ifResumeExc d.excDispatch d.sendDispatch) (rest.place.exc.map Fin.val)] :=
    hplaced.2.of_mem (by simp [DelegateSite.blocks])
  refine steps_stmt ?_
  rw [startDelegate, resumeStmt]
  show Catches rt g targets exhausted sig
    (andThen rt p rest.place.exc f.slots (bindEff _ rt.iter) fun it s' =>
      .inl (.delegate it sig rest f.slots s')) _
  rw [andThen_bindEff]
  refine catches_andThen hlowers hsig rfl fun v hsig => ?_
  refine catches_andThen hlowers hsig rfl fun it hsig => ?_
  refine catches_stmt (catches_term ?_)
  have hsig : Carries sig ({ (f.setStore
      (rt.eval value.lowerAwait f.slots f.store).1).setStore
      (rt.iter v (rt.eval value.lowerAwait f.slots f.store).1).1 with
        yieldfrom := it
        pc := d.pc } :
    ResumeFrame σ K V E) := hsig.of_eq rfl rfl
  refine catches_goto hlabel (CatchesUp.of_rel ?_)
  exact .delegate hplaced hrest (hsig.inBlock rt _)

end Forward

/-- A yield is resumed: it has the value that is sent, or raises the exception that is thrown. -/
theorem catches_resumeYield {y : YieldSite} {rest : Rest n L}
    (hplaced : YieldPlaced g targets rest.place.params (rest.place.exc.map Fin.val) y)
    (hrest : y.RestAt g targets rest) {f : ResumeFrame σ K V E}
    (hslots : f.slots = rt.newSlots) (hsig : Carries sig f) (slots : K) :
    Catches rt g targets exhausted sig
      (yieldStep rt p (.lowered rt) sig (.resume (.plain rest) slots f.store))
      (gotoBlock g y.label f) := by
  have hlabel : Placed g [pushedBlock y.label rest.place.params []
    (.ifResumeExc y.throwLabel y.continueLabel) (rest.place.exc.map Fin.val)] :=
    hplaced.2.of_mem (by simp [YieldSite.blocks])
  have hthrow : Placed g [pushedBlock y.throwLabel rest.place.params [] .raiseResumeExc
    (rest.place.exc.map Fin.val)] := hplaced.2.of_mem (by simp [YieldSite.blocks])
  have hresumed : (Policy.lowered rt : Policy n L σ K V E).resumed slots = f.slots := hslots.symm
  have hframe : (inBlock rt rest.place.params f).resumeExc = f.resumeExc := rfl
  have hin := hsig.inBlock rt rest.place.params
  refine catches_goto hlabel (catches_term ?_)
  rw [resumeTerm, hframe]
  cases sig with
  | send v =>
    obtain ⟨rfl, hexc⟩ := hsig
    rw [yieldStep, hresumed, hexc]
    exact catches_afterYield hlowers hrest hin
  | throw e =>
    have hexc : f.resumeExc = some e := hsig
    rw [yieldStep, hresumed, hexc]
    refine catches_goto hthrow (catches_term ?_)
    rw [resumeTerm]
    refine catches_readLocal hexc ?_
    exact catches_raise hlowers rest.place.exc e (hin.inBlock rt _)

/-! ## Terminators and statements -/

section Blocks

variable {place : Place n L}

/-- A terminator. -/
theorem catches_stepTerm {term : YieldTerm n L} {code : List (ResumeStmt L)} {t : ResumeTerm L}
    (hcode : EmittedTerm g targets place.params place.exc term code t) {f : ResumeFrame σ K V E}
    (hsig : Carries sig f) :
    Catches rt g targets exhausted sig
      (stepTerm rt p (.lowered rt) sig term place f.slots f.store)
      (resumeStep rt g ⟨code, t, place.exc.map Fin.val, f⟩) := by
  cases term with
  | jump l args =>
    obtain ⟨rfl, rfl⟩ := hcode
    exact steps_term (catches_jump hlowers l args hsig)
  | ifTerm test l l' =>
    obtain ⟨rfl, rfl⟩ := hcode
    refine steps_term ?_
    rw [stepTerm, resumeTerm]
    refine catches_andThen hlowers hsig rfl fun v hsig => ?_
    refine catches_andThen hlowers hsig rfl fun b hsig => ?_
    cases b with
    | true => exact catches_enterBlock hlowers l hsig
    | false => exact catches_enterBlock hlowers l' hsig
  | branchTable index ls l =>
    obtain ⟨rfl, rfl⟩ := hcode
    refine steps_term ?_
    rw [stepTerm, resumeTerm]
    refine catches_andThen hlowers hsig rfl fun v hsig => ?_
    refine catches_andThen hlowers hsig rfl fun i hsig => ?_
    have htarget : (ls.map Fin.val)[i]?.getD l.val = (ls[i]?.getD l).val := by
      rw [List.getElem?_map]
      cases ls[i]? <;> rfl
    rw [htarget]
    exact catches_enterBlock hlowers _ hsig
  | raiseTerm x =>
    obtain ⟨rfl, rfl⟩ := hcode
    refine steps_term ?_
    cases x with
    | none =>
      have hsig : Carries sig
        (f.setStore (rt.raised (rt.currentException place.params f.slots) f.store).1) :=
        hsig.of_eq rfl rfl
      exact catches_raise hlowers place.exc _ hsig
    | some x =>
      rw [stepTerm, resumeTerm]
      refine catches_andThen hlowers hsig rfl fun v hsig => ?_
      have hsig : Carries sig ((f.setStore (rt.eval x f.slots f.store).1).setStore
        (rt.raised (some v) (rt.eval x f.slots f.store).1).1) := hsig.of_eq rfl rfl
      exact catches_raise hlowers place.exc _ hsig
  | ret x =>
    obtain ⟨l, rfl, rfl, hcomplete⟩ := hcode
    refine steps_term (catches_goto hcomplete (catches_term ?_))
    rw [stepTerm, resumeTerm, completionRaise]
    show Catches rt g targets exhausted sig
      (andThen rt p none f.slots (rt.eval x f.slots f.store) fun v s' =>
        .inr (.returned v s'))
      (thenDo rt g (Option.map Fin.val (none : Option (Fin (n + 1))))
        (inBlock rt place.params f) (rt.eval x f.slots f.store) fun v f =>
          throwTo rt g none (rt.stopIteration v) f)
    exact catches_andThen hlowers (hsig.inBlock rt _) rfl fun v _ => catches_returned rfl
  | retYield value =>
    obtain ⟨y, rfl, rfl, hplaced, hrest⟩ := hcode
    refine steps_stmt (catches_stmt (catches_term ?_))
    rw [stepTerm, resumeTerm]
    have hsig : Carries sig ({ f with pc := y.pc, yieldfrom := rt.none } :
      ResumeFrame σ K V E) := hsig.of_eq rfl rfl
    refine catches_andThen hlowers hsig rfl fun v _ => ?_
    exact catches_yielded rfl rfl ⟨y, hplaced, hrest, rfl⟩
  | retYieldFrom value =>
    obtain ⟨d, rfl, rfl, hplaced, hrest⟩ := hcode
    let rest : Rest n L := .ret place
    have hplaced : DelegatePlaced g targets rest.place.params (rest.place.exc.map Fin.val) d :=
      hplaced
    have hrest : d.RestAt g targets rest := hrest
    exact catches_startDelegate hlowers hplaced hrest value hsig

/-- A statement or a terminator. -/
theorem catches_run {body : List (YieldStmt L)} {term : YieldTerm n L} {code : List (ResumeStmt L)}
    {t : ResumeTerm L} (hcode : Emitted g targets place.params place.exc body term code t)
    {f : ResumeFrame σ K V E} (hsig : Carries sig f) :
    Catches rt g targets exhausted sig
      (yieldStep rt p (.lowered rt) sig (.run place body term f.slots f.store))
      (resumeStep rt g ⟨code, t, place.exc.map Fin.val, f⟩) := by
  match body, hcode with
  | [], hcode => exact catches_stepTerm hlowers hcode hsig
  | .plain stmt :: body, hcode =>
    obtain ⟨code', rfl, hcode'⟩ := hcode
    refine steps_stmt ?_
    rw [yieldStep, stepStmt, resumeStmt]
    refine catches_andThen hlowers hsig rfl fun _ hsig => ?_
    exact catches_code hcode' hsig rfl rfl
  | .yieldValue x value :: body, hcode =>
    obtain ⟨y, rfl, rfl, hplaced, hrest⟩ := hcode
    refine steps_stmt (catches_stmt (catches_term ?_))
    rw [yieldStep, stepStmt, resumeTerm]
    have hsig : Carries sig ({ f with pc := y.pc, yieldfrom := rt.none } :
      ResumeFrame σ K V E) := hsig.of_eq rfl rfl
    refine catches_andThen hlowers hsig rfl fun v _ => ?_
    exact catches_yielded rfl rfl ⟨y, hplaced, hrest, rfl⟩
  | .yieldFrom x value :: body, hcode =>
    obtain ⟨d, rfl, rfl, hplaced, hrest⟩ := hcode
    let rest : Rest n L := .block place x body term
    have hplaced : DelegatePlaced g targets rest.place.params (rest.place.exc.map Fin.val) d :=
      hplaced
    have hrest : d.RestAt g targets rest := hrest
    exact catches_startDelegate hlowers hplaced hrest value hsig

end Blocks

/-! ## Every step -/

/-- A step of the blocks is followed by the resume function. -/
theorem resume_follows (hstart : targets[1]? = some 0) {s : YieldState n L σ K V E}
    {t : ResumeState L σ K V E} (hrel : ResumeRelated rt g targets exhausted sig s t) :
    Catches rt g targets exhausted sig ((yieldMachine rt p (.lowered rt) sig).step s)
      (resumeStep rt g t) := by
  cases hrel with
  | start hpc hslots hsig =>
    refine steps_term ?_
    rw [resumeTerm, hpc, hstart]
    have henter : Catches rt g targets exhausted sig _ _ := catches_enterBlock hlowers 0 hsig
    rw [hslots] at henter
    exact henter
  | run hcode hsig => exact catches_run hlowers hcode hsig
  | delegate hplaced hrest hsig =>
    exact steps_term (catches_delegate hlowers hplaced hrest hsig)
  | @resume f susp slots hsusp hslots hsig =>
    refine steps_term ?_
    rw [resumeTerm]
    cases susp with
    | plain rest =>
      obtain ⟨y, hplaced, hrest, hpc⟩ := hsusp
      rw [hpc, hplaced.1]
      exact catches_resumeYield hlowers hplaced hrest hslots hsig slots
    | delegation it rest =>
      obtain ⟨d, hplaced, hrest, hpc, rfl⟩ := hsusp
      rw [hpc, hplaced.1]
      have hlabel : Placed g [pushedBlock d.label rest.place.params []
        (.ifResumeExc d.excDispatch d.sendDispatch) (rest.place.exc.map Fin.val)] :=
        hplaced.2.of_mem (by simp [DelegateSite.blocks])
      have hresumed : (Policy.lowered rt : Policy n L σ K V E).resumed slots = f.slots :=
        hslots.symm
      show Catches rt g targets exhausted sig
        (.inl (.delegate f.yieldfrom sig rest ((Policy.lowered rt).resumed slots) f.store)) _
      rw [hresumed]
      exact catches_goto hlabel (.of_rel (.delegate hplaced hrest (hsig.inBlock rt _)))

end Catching

end DietPython.Generators
