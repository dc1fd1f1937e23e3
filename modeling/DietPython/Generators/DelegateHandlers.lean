import Mathlib.Data.Option.Basic
import DietPython.Generators.ResumeRuns

/-!
# Handlers with parameters

Compiled code passes one value on to a handler, the exception that has been raised. A handler with
more parameters is not accepted by the code generator, and then there is no function.

The handler of a delegation takes the exception that it catches, beside the parameters of its block.
So a delegation cannot stand in a block that has the parameters of a `finally` body.
-/

namespace DietPython.Generators

open Transducers

variable {n : ℕ} {L : Lang} {σ K V E : Type}

/-! ## Compiled handlers -/

section Handlers

variable (g : List (ResumeBlock L))

/-- The values that a jump to the code of a block passes. -/
def ResumeBlock.registerParams (b : ResumeBlock L) : ℕ := b.params.length + b.caught.toList.length

/-- A handler takes no other value than the exception. -/
def HandlerTakesOne (exc : Option ℕ) : Prop :=
  ∀ h ∈ exc, ∀ handler ∈ blockAt g h, handler.registerParams ≤ 1

instance (exc : Option ℕ) : Decidable (HandlerTakesOne g exc) := by
  unfold HandlerTakesOne
  infer_instance

/-- The resume function as it is compiled, if it is. -/
noncomputable def compileResume [DecidableEq V] (rt : YieldRuntime L σ K V E)
    (p : YieldProgram n L) :
    Option (Transducer (Option (ResumeFrame σ K V E)) (Resume σ V E) (Observed σ V E)) :=
  if ∀ b ∈ lowerResumeBlocks p, HandlerTakesOne (lowerResumeBlocks p) b.exc then
    some (resumeProcess rt p)
  else none

end Handlers

/-! ## Blocks with delegations -/

def YieldStmt.delegates : YieldStmt L → Bool
  | .yieldFrom _ _ => true
  | _ => false

def YieldTerm.delegates : YieldTerm n L → Bool
  | .retYieldFrom _ => true
  | _ => false

/-- No handler has the parameters of a `finally` body, and no delegation stands in a block that has
them. -/
structure HandlersFit (p : YieldProgram n L) : Prop where
  handlers : ∀ l, ∀ h ∈ (p l).exc, (p h).params.length ≤ 1
  delegations : ∀ l, ((p l).body.any YieldStmt.delegates || (p l).term.delegates) = true →
    withoutException (p l).params = []

/-! ## What fits is compiled -/

section Fits

variable {g : List (ResumeBlock L)} {targets : List ℕ}

theorem handlerTakesOne_none : HandlerTakesOne g none := fun _ hh => nomatch hh

theorem HandlerTakesOne.of_placed {h : ℕ} {b : ResumeBlock L} (hplaced : blockAt g h = some b)
    (hb : b.registerParams ≤ 1) : HandlerTakesOne g (some h) := by
  rintro _ ⟨⟩ handler hhandler
  rw [hplaced] at hhandler
  cases hhandler
  exact hb

section Sites

variable {params : List (BlockParam L)} {exc : Option ℕ} (hexc : HandlerTakesOne g exc)
include hexc

theorem yieldBlocks_takeOne (y : YieldSite) :
    ∀ b ∈ y.blocks params exc, HandlerTakesOne g b.exc := by
  intro b hb
  simp only [YieldSite.blocks, List.mem_cons, List.not_mem_nil, or_false] at hb
  rcases hb with rfl | rfl <;> exact hexc

/-- The handler of a delegation has one parameter, if the block of the delegation has none but the
exception. -/
theorem delegateBlocks_takeOne {d : DelegateSite} (hparams : withoutException params = [])
    (hplaced : Placed g (d.blocks params exc)) :
    ∀ b ∈ d.blocks params exc, HandlerTakesOne g b.exc := by
  have hcatch : blockAt g d.callExcept = some (pushedCatchBlock d.callExcept params d.caughtExc []
      (.ifStopIteration d.caughtExc d.stopiter d.nonStopiter) exc) :=
    hplaced (pushedCatchBlock d.callExcept params d.caughtExc []
      (.ifStopIteration d.caughtExc d.stopiter d.nonStopiter) exc) (by simp [DelegateSite.blocks])
  have hcall : HandlerTakesOne g (some d.callExcept) := by
    refine .of_placed hcatch ?_
    show (withoutException params).length + 1 ≤ 1
    rw [hparams]
    exact Nat.le_refl _
  intro b hb
  simp only [DelegateSite.blocks, List.mem_cons, List.not_mem_nil, or_false] at hb
  rcases hb with rfl | rfl | rfl | rfl | rfl | rfl | rfl | rfl | rfl | rfl | rfl | rfl | rfl | rfl
  case inr.inr.inl | inr.inr.inr.inl | inr.inr.inr.inr.inr.inr.inr.inr.inl => exact hcall
  all_goals exact hexc

end Sites

/-- What has been pushed since a state. -/
def NewTakeOne (g : List (ResumeBlock L)) (st st' : ResumeLoweringState L) : Prop :=
  ∀ b ∈ st'.blocks, b ∈ st.blocks ∨ HandlerTakesOne g b.exc

theorem NewTakeOne.trans {st st₁ st₂ : ResumeLoweringState L} (h : NewTakeOne g st st₁)
    (h' : NewTakeOne g st₁ st₂) : NewTakeOne g st st₂ := fun b hb =>
  (h' b hb).elim (h b) .inr

theorem newTakeOne_push {st st' : ResumeLoweringState L} {blocks : List (ResumeBlock L)}
    (hblocks : st'.blocks = st.blocks ++ blocks)
    (h : ∀ b ∈ blocks, HandlerTakesOne g b.exc) : NewTakeOne g st st' := by
  intro b hb
  rw [hblocks] at hb
  exact (List.mem_append.mp hb).imp_right (h b)

section Pushes

variable {st : ResumeLoweringState L} {params : List (BlockParam L)} {exc : Option ℕ}
  (hexc : HandlerTakesOne g exc) (label : ℕ) (front : List (ResumeStmt L))
include hexc

theorem newTakeOne_single (term : ResumeTerm L) :
    NewTakeOne g st (st.push [pushedBlock label params front term exc]) := by
  refine newTakeOne_push rfl fun b hb => ?_
  obtain rfl := List.mem_singleton.mp hb
  exact hexc

theorem newTakeOne_completion (value : Completion L) :
    NewTakeOne g st (st.pushCompletionRaiseBlock label front value params exc) := by
  refine newTakeOne_push rfl fun b hb => ?_
  rcases List.mem_pair.mp hb with rfl | rfl
  · exact hexc
  · exact handlerTakesOne_none

theorem newTakeOne_emitYield (value : Option L.Expr) :
    NewTakeOne g st (st.emitYield label front value params exc) := by
  refine newTakeOne_push rfl fun b hb => ?_
  rcases List.mem_cons.mp hb with rfl | hb
  · exact hexc
  · exact yieldBlocks_takeOne hexc _ b hb

theorem newTakeOne_emitYieldFrom {value : L.Expr} (hparams : withoutException params = [])
    (h : Holds g targets (st.emitYieldFrom label front value params exc)) :
    NewTakeOne g st (st.emitYieldFrom label front value params exc) := by
  refine newTakeOne_push rfl fun b hb => ?_
  rcases List.mem_cons.mp hb with rfl | hb
  · exact hexc
  · exact delegateBlocks_takeOne hexc hparams h.emitYieldFrom.2.2 b hb

end Pushes

/-- The blocks of a fragment. -/
theorem lowerResumeFragment_takeOne (params : List (BlockParam L)) {exc : Option ℕ}
    (hexc : HandlerTakesOne g exc) (st : ResumeLoweringState L) (label : ℕ)
    (front : List (ResumeStmt L)) (body : List (YieldStmt L)) (term : YieldTerm n L) :
    ((body.any YieldStmt.delegates || term.delegates) = true → withoutException params = []) →
      Holds g targets (lowerResumeFragment params exc st label front body term) →
      NewTakeOne g st (lowerResumeFragment params exc st label front body term) := by
  fun_induction lowerResumeFragment params exc st label front body term with
  | case1 st label front s body term ih => exact ih
  | case2 st label front x value body term ih =>
    exact fun hparams h => (newTakeOne_emitYield hexc label front value).trans (ih hparams h)
  | case3 st label front x value body term ih =>
    intro hparams h
    have hsite := h.of_pushed (lowerResumeFragment_pushed ..)
    exact (newTakeOne_emitYieldFrom hexc label front (hparams rfl) hsite).trans
      (ih (fun _ => hparams rfl) h)
  | case4 st label front value =>
    exact fun _ _ => (newTakeOne_emitYield hexc label front value).trans
      (newTakeOne_completion hexc _ _ _)
  | case5 st label front value =>
    intro hparams h
    have hsite := h.of_pushed (pushed_completion ..)
    exact (newTakeOne_emitYieldFrom hexc label front (hparams rfl) hsite).trans
      (newTakeOne_completion hexc _ _ _)
  | case6 st label front value => exact fun _ _ => newTakeOne_completion hexc label front _
  | case7 | case8 | case9 | case10 => exact fun _ _ => newTakeOne_single hexc _ _ _

theorem lowerBlocks_takeOne {p : YieldProgram n L} (hfit : HandlersFit p)
    (hexc : ∀ l, HandlerTakesOne g ((p l).exc.map Fin.val)) (ls : List (Fin (n + 1)))
    (st : ResumeLoweringState L) (h : Holds g targets (lowerBlocks p ls st)) :
    NewTakeOne g st (lowerBlocks p ls st) := by
  induction ls generalizing st with
  | nil => exact fun b hb => .inl hb
  | cons l ls ih =>
    have hfragment := h.of_pushedAll (lowerBlocks_pushed p ls _)
    have hparams := hfit.delegations l
    rw [← generatorResumeDeclaredParams_eq (p l).params] at hparams
    exact (lowerResumeFragment_takeOne _ (hexc l) _ _ _ _ _ hparams hfragment).trans (ih _ h)

/-- A handler of the callable keeps its parameters. -/
theorem lowerResumeBlocks_handler {p : YieldProgram n L} (hfit : HandlersFit p) (l : Fin (n + 1)) :
    HandlerTakesOne (lowerResumeBlocks p) ((p l).exc.map Fin.val) := by
  cases hexc : (p l).exc with
  | none => exact handlerTakesOne_none
  | some h =>
    obtain ⟨code, t, hplaced, -⟩ := lowerResumeBlocks_lowers p h
    exact .of_placed (hplaced _ (List.mem_singleton_self _)) (hfit.handlers l h hexc)

/-- **Compiled.** Where the handlers fit, there is a resume function. -/
theorem compileResume_of_fit [DecidableEq V] {rt : YieldRuntime L σ K V E} {p : YieldProgram n L}
    (hfit : HandlersFit p) : compileResume rt p = some (resumeProcess rt p) := by
  refine if_pos fun b hb => ?_
  have hnew := lowerBlocks_takeOne hfit (lowerResumeBlocks_handler hfit) _ _
    (lowerResumeBlocks_holds p)
  rcases List.mem_append.mp hb with hb | hb
  · rcases List.mem_cons.mp hb with rfl | hb
    · exact handlerTakesOne_none
    · exact (hnew b hb).resolve_left (List.not_mem_nil)
  · obtain rfl := List.mem_singleton.mp hb
    exact handlerTakesOne_none

end Fits

end DietPython.Generators
