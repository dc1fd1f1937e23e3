import DietPython.Generators.ResumeSimulation
import DietPython.Lib.Transducer

/-!
# Histories of resumptions

A body is resumed again and again, each time with a value or an exception and with the store as the
rest of the program has left it. `blocksProcess` answers with the blocks, under a policy, and
`resumeProcess` with calls of the resume function. The two answer every history alike when the
policy is the lowered one.
-/

namespace DietPython.Generators

open Machines Machine Transducers

variable {n : ℕ} {L : Lang} {σ K V E : Type} [DecidableEq V]

/-! ## The two processes -/

/-- A resumption, and the store that it finds. -/
structure Resume (σ V E : Type) where
  sig : Resumption V E
  store : σ

/-- What the resumer sees. A body that returns raises `StopIteration`. -/
inductive Observed (σ V E : Type)
  | yielded (value : V) (s : σ)
  | raised (exc : E) (s : σ)
  /-- The run does not end. -/
  | never
  /-- The body has ended before. -/
  | over
  deriving DecidableEq

/-- Where a body waits to be resumed, and with which slots. -/
inductive Waiting (n : ℕ) (L : Lang) (K V : Type)
  | start
  | suspended (at_ : Suspension n L V) (k : K)

def Waiting.enter (w : Waiting n L K V) (s : σ) : YieldState n L σ K V E :=
  match w with
  | .start => .start s
  | .suspended at_ k => .resume at_ k s

section Processes

variable (rt : YieldRuntime L σ K V E) (p : YieldProgram n L)

/-- One resumption of the blocks. -/
noncomputable def runBlocks (pol : Policy n L σ K V E) (w : Waiting n L K V) (i : Resume σ V E) :
    Option (YieldResult n L σ K V E) := (yieldMachine rt p pol i.sig).outcome (w.enter i.store)

/-- What the resumer sees of a run of the blocks. -/
def observeBlocks : Option (YieldResult n L σ K V E) → Option (Waiting n L K V) × Observed σ V E
  | some (.yielded v susp k s) => (some (.suspended susp k), .yielded v s)
  | some (.returned v s) => (none, .raised (rt.stopIteration v) s)
  | some (.raised e s) => (none, .raised e s)
  | none => (none, .never)

/-- The blocks of a generator, resumed again and again. -/
noncomputable def blocksProcess (pol : Policy n L σ K V E) :
    Transducer (Option (Waiting n L K V)) (Resume σ V E) (Observed σ V E) where
  step
    | some w, i => observeBlocks rt (runBlocks rt p pol w i)
    | none, _ => (none, .over)

/-- The condition holds in every state that the run of a resumption visits. -/
def RunsFollow (pol : Policy n L σ K V E) (cond : Resumption V E → YieldState n L σ K V E → Prop) :
    Option (Waiting n L K V) → Resume σ V E → Prop
  | some w, i => (yieldMachine rt p pol i.sig).GuardedFrom (cond i.sig) (w.enter i.store)
  | none, _ => True

/-- A call of the resume function starts with its first block, the dispatch. -/
def resumeEntry (f : ResumeFrame σ K V E) : ResumeState L σ K V E :=
  dispatchState (jumpTable p) (exhaustedLabel n) f

/-- A call finds the cells that the last one has left, the store of the resumption and new slots. -/
def callEntry (f : ResumeFrame σ K V E) (i : Resume σ V E) : ResumeState L σ K V E :=
  resumeEntry p (callFrame rt { f.toResumeCells with store := i.store } rt.newSlots i.sig)

noncomputable def callResume (f : ResumeFrame σ K V E) (i : Resume σ V E) :
    Option (ResumeResult σ K V E) :=
  (resumeMachine rt (lowerResumeBlocks p)).outcome (callEntry rt p f i)

/-- What the resumer sees of a call. -/
def observeCall : Option (ResumeResult σ K V E) → Option (ResumeFrame σ K V E) × Observed σ V E
  | some (.returned v f) => (some f, .yielded v f.store)
  | some (.raised e cells) => (none, .raised e cells.store)
  | some .stuck => (none, .over)
  | none => (none, .never)

/-- The resume function, called again and again. -/
noncomputable def resumeProcess :
    Transducer (Option (ResumeFrame σ K V E)) (Resume σ V E) (Observed σ V E) where
  step
    | some f, i => observeCall (callResume rt p f i)
    | none, _ => (none, .over)

/-- Before the first call, `_dp_pc` is 1. -/
def newFrame (s : σ) : ResumeFrame σ K V E :=
  callFrame rt ⟨s, 1, rt.none, rt.none⟩ rt.newSlots (.send rt.none)

end Processes

/-! ## Refinement -/

section Refinement

variable (rt : YieldRuntime L σ K V E) (p : YieldProgram n L)

/-- The states of the resume function that stand for states of the blocks. -/
abbrev StandsFor (sig : Resumption V E) :
    YieldState n L σ K V E → ResumeState L σ K V E → Prop :=
  ResumeRelated rt (lowerResumeBlocks p) (jumpTable p) (exhaustedLabel n) sig

/-- The results of a call that stand for results of the blocks. -/
abbrev StandsForResult : YieldResult n L σ K V E → ResumeResult σ K V E → Prop :=
  ResumeMatches rt (lowerResumeBlocks p) (jumpTable p)

/-- The cells say where the body waits, and the slots are those that were left. -/
def WaitsAt : Waiting n L K V → ResumeFrame σ K V E → Prop
  | .start, f => f.pc = 1 ∧ f.slots = rt.newSlots
  | .suspended at_ k, f =>
    SuspendedAt (lowerResumeBlocks p) (jumpTable p) at_ f.toResumeCells ∧ f.slots = k

section CallFrame

variable (cells : ResumeCells σ V) (slots : K) (sig : Resumption V E)

omit [DecidableEq V] in
theorem carries_callFrame : Carries sig (callFrame rt cells slots sig) := by
  cases sig with
  | send v => exact ⟨rfl, rfl⟩
  | throw e => rfl

omit [DecidableEq V] in
theorem callFrame_cells : (callFrame rt cells slots sig).toResumeCells = cells := by
  cases sig <;> rfl

omit [DecidableEq V] in
theorem callFrame_slots : (callFrame rt cells slots sig).slots = slots := by cases sig <;> rfl

end CallFrame

variable {p}

omit [DecidableEq V] in
/-- The frame of a call on a frame that has been left. -/
theorem entry_standsFor {w : Waiting n L K V} {f : ResumeFrame σ K V E} (h : WaitsAt rt p w f)
    {f' : ResumeFrame σ K V E} (hpc : f'.pc = f.pc) (hdelegate : f'.yieldfrom = f.yieldfrom)
    (hslots : f'.slots = rt.newSlots) {sig : Resumption V E} (hsig : Carries sig f') :
    StandsFor rt p sig (w.enter f'.store) (resumeEntry p f') := by
  cases w with
  | start => exact .start (hpc.trans h.1) hslots hsig
  | suspended at_ k =>
    refine .resume ?_ hslots hsig
    cases at_ with
    | plain rest =>
      obtain ⟨⟨y, hplaced, hrest, hy⟩, -⟩ := h
      exact ⟨y, hplaced, hrest, hpc.trans hy⟩
    | delegation it rest =>
      obtain ⟨⟨d, hplaced, hrest, hd, hit⟩, -⟩ := h
      exact ⟨d, hplaced, hrest, hpc.trans hd, hdelegate.trans hit⟩

omit [DecidableEq V] in
/-- The call starts where the body waits. -/
theorem callEntry_standsFor {w : Waiting n L K V} {f : ResumeFrame σ K V E} (h : WaitsAt rt p w f)
    (i : Resume σ V E) : StandsFor rt p i.sig (w.enter i.store) (callEntry rt p f i) := by
  let cells : ResumeCells σ V := { f.toResumeCells with store := i.store }
  have hcells := callFrame_cells rt cells rt.newSlots i.sig
  have hpc : (callFrame rt cells rt.newSlots i.sig).pc = f.pc := by rw [hcells]
  have hdelegate : (callFrame rt cells rt.newSlots i.sig).yieldfrom = f.yieldfrom := by rw [hcells]
  have hrel := entry_standsFor rt h hpc hdelegate (callFrame_slots rt cells rt.newSlots i.sig)
    (carries_callFrame rt cells rt.newSlots i.sig)
  rwa [congrArg ResumeCells.store hcells] at hrel

/-- A step of the blocks is answered by the resume function. -/
theorem resume_answers (sig : Resumption V E) (u : YieldState n L σ K V E)
    (t : ResumeState L σ K V E) (hrel : StandsFor rt p sig u t) :
    (resumeMachine rt (lowerResumeBlocks p)).Answers (StandsFor rt p sig) (StandsForResult rt p)
      (fun _ => 0) u t ((yieldMachine rt p (.lowered rt) sig).step u) :=
  CatchesUp.answers rfl (resume_follows (lowerResumeBlocks_lowers p) (jumpTable_entry p) hrel)

/-- A call of the resume function ends as the resumption of the blocks does. -/
theorem callResume_matches {w : Waiting n L K V} {f : ResumeFrame σ K V E} (h : WaitsAt rt p w f)
    (i : Resume σ V E) :
    Option.Rel (StandsForResult rt p) (runBlocks rt p (.lowered rt) w i) (callResume rt p f i) :=
  simulates_outcome (fun u t hrel _ => resume_answers rt i.sig u t hrel)
    (callEntry_standsFor rt h i) fun _ _ => trivial

omit [DecidableEq V] in
/-- One answer. -/
theorem observe_matches {r : Option (YieldResult n L σ K V E)}
    {q : Option (ResumeResult σ K V E)} (h : Option.Rel (StandsForResult rt p) r q) :
    (observeBlocks rt r).2 = (observeCall q).2 ∧
      Option.Rel (WaitsAt rt p) (observeBlocks rt r).1 (observeCall q).1 := by
  cases h with
  | none => exact ⟨rfl, .none⟩
  | some h =>
    cases h with
    | yielded hsusp => exact ⟨rfl, .some ⟨hsusp, rfl⟩⟩
    | returned => exact ⟨rfl, .none⟩
    | raised => exact ⟨rfl, .none⟩

omit [DecidableEq V] in
theorem waitsAt_newFrame (s : σ) :
    Option.Rel (WaitsAt rt p) (some .start) (some (newFrame rt s : ResumeFrame σ K V E)) :=
  .some ⟨rfl, rfl⟩

/-- The two processes wait in the same place, and answer alike. -/
theorem process_matches {w : Option (Waiting n L K V)} {f : Option (ResumeFrame σ K V E)}
    (h : Option.Rel (WaitsAt rt p) w f) (i : Resume σ V E) :
    ((blocksProcess rt p (.lowered rt)).step w i).2 = ((resumeProcess rt p).step f i).2 ∧
      Option.Rel (WaitsAt rt p) ((blocksProcess rt p (.lowered rt)).step w i).1
        ((resumeProcess rt p).step f i).1 := by
  cases h with
  | none => exact ⟨rfl, .none⟩
  | some h => exact observe_matches rt (callResume_matches rt h i)

/-- **Refinement.** The resume function answers every history of resumptions as the blocks do under
the lowered policy. -/
theorem resumeProcess_refines (s : σ) (is : List (Resume σ V E)) :
    (blocksProcess rt p (.lowered rt)).outputs (some .start) is =
      (resumeProcess rt p).outputs (some (newFrame rt s)) is := by
  refine Transducer.outputs_eq_of_guarded _ _ (fun _ _ => True) (fun w f i hrel _ => ?_)
    (waitsAt_newFrame (p := p) rt s) (Transducer.guarded_of_forall _ _ (fun _ _ => trivial) _ is)
  exact process_matches rt hrel i

end Refinement

end DietPython.Generators
