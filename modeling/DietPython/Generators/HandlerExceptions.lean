import DietPython.Generators.ResumeAgreement

/-!
# Exceptions of suspended handlers

The exception of a handler is in a stack slot, which a bare `raise` and every read of the current
exception go to. A call of the resume function starts with new slots, and nothing brings the old
values back: the statement that should keep a cell in step with the slot is located so that it
copies the slot onto itself. So a handler that is suspended and resumed has lost its exception.
-/

namespace DietPython.Generators

open Machines Machine Transducers

/-! ## The statement that should save the exception -/

section Sync

variable {N V : Type} [DecidableEq N]

inductive NameLocation
  | localSlot
  | cell
  deriving DecidableEq

/-- `locate_name`: the name of an exception parameter is its slot, whatever else it is bound to. -/
def locateName (exceptionParamNames cellBindings : List N) (x : N) : NameLocation :=
  if x ∈ exceptionParamNames then .localSlot
  else if x ∈ cellBindings then .cell
  else .localSlot

/-- The slots and the cells of a call. -/
structure Storage (N V : Type) where
  slots : N → V
  cells : N → V

def loadAt (x : N) (st : Storage N V) : NameLocation → V
  | .localSlot => st.slots x
  | .cell => st.cells x

def storeAt (x : N) (v : V) (st : Storage N V) : NameLocation → Storage N V
  | .localSlot => { st with slots := Function.update st.slots x v }
  | .cell => { st with cells := Function.update st.cells x v }

/-- `sync_exception_param_cell_in_block`: the statement `exc = exc`, with its names located. -/
def syncExceptionParamCell (exceptionParamNames cellBindings : List N) (exc : N)
    (st : Storage N V) : Storage N V :=
  let location := locateName exceptionParamNames cellBindings exc
  storeAt exc (loadAt exc st location) st location

/-- It saves nothing. -/
theorem syncExceptionParamCell_eq (exceptionParamNames cellBindings : List N) (exc : N)
    (st : Storage N V) :
    syncExceptionParamCell exceptionParamNames cellBindings exc st = st := by
  unfold syncExceptionParamCell
  cases locateName exceptionParamNames cellBindings exc with
  | localSlot =>
    show { st with slots := Function.update st.slots exc (st.slots exc) } = st
    rw [Function.update_eq_self]
  | cell =>
    show { st with cells := Function.update st.cells exc (st.cells exc) } = st
    rw [Function.update_eq_self]

/-- What a name denotes. -/
def Storage.read (exceptionParamNames cellBindings : List N) (st : Storage N V) (x : N) : V :=
  loadAt x st (locateName exceptionParamNames cellBindings x)

/-- The next call starts with new slots and the same cells. -/
def Storage.resumed (deleted : V) (st : Storage N V) : Storage N V :=
  { st with slots := fun _ => deleted }

/-- A resumption forgets the exception parameters, saved or not, and keeps the variables, which a
generator has in cells. -/
theorem read_resumed (deleted : V) (exceptionParamNames cellBindings : List N) (exc x : N)
    (st : Storage N V) :
    ((syncExceptionParamCell exceptionParamNames cellBindings exc st).resumed deleted).read
        exceptionParamNames cellBindings x =
      if x ∈ exceptionParamNames ∨ x ∉ cellBindings then deleted
      else st.read exceptionParamNames cellBindings x := by
  rw [syncExceptionParamCell_eq]
  unfold Storage.read locateName
  by_cases hexc : x ∈ exceptionParamNames
  · rw [if_pos hexc, if_pos (.inl hexc)]
    rfl
  · by_cases hcell : x ∈ cellBindings
    · rw [if_neg hexc, if_pos hcell, if_neg (not_or.mpr ⟨hexc, not_not.mpr hcell⟩)]
      rfl
    · rw [if_neg hexc, if_neg hcell, if_pos (.inr hcell)]
      rfl

end Sync

/-! ## Resumptions -/

variable {n : ℕ} {L : Lang} {σ K V E : Type} [DecidableEq V]

section Resumptions

variable (rt : YieldRuntime L σ K V E) (p : YieldProgram n L)

/-- The block that a call goes on with. -/
def resumedBlock (f : ResumeFrame σ K V E) : Option (ResumeBlock L) :=
  blockAt (lowerResumeBlocks p) ((jumpTable p)[f.pc]?.getD (exhaustedLabel n))

/-- The exception parameter of the block has the value that it had when the last call ended. -/
def KeepsException : Option (ResumeFrame σ K V E) → Resume σ V E → Prop
  | some f, i => ∀ b, resumedBlock p f = some b →
    rt.currentException b.params (callEntry rt p f i).frame.slots =
      rt.currentException b.params f.slots
  | none, _ => True

/-- The body does not wait in a handler that has its exception. -/
def OutsideHandler : Option (Waiting n L K V) → Resume σ V E → Prop
  | some (.suspended at_ k), _ =>
    ∀ v, rt.currentException at_.rest.place.params k = some v → v = rt.deleted
  | _, _ => True

variable {rt p}

omit [DecidableEq V] in
/-- The block at the resume point has the parameters of the block that the yield is in. -/
theorem resumedBlock_params {at_ : Suspension n L V} {f : ResumeFrame σ K V E}
    (h : SuspendedAt (lowerResumeBlocks p) (jumpTable p) at_ f.toResumeCells) :
    ∃ b, resumedBlock p f = some b ∧ b.params = at_.rest.place.params := by
  cases at_ with
  | plain rest =>
    obtain ⟨y, ⟨htarget, hplaced⟩, -, hpc⟩ := h
    let b : ResumeBlock L := pushedBlock y.label rest.place.params []
      (.ifResumeExc y.throwLabel y.continueLabel) (rest.place.exc.map Fin.val)
    have hblock := hplaced b (by simp [b, YieldSite.blocks])
    refine ⟨b, ?_, rfl⟩
    unfold resumedBlock
    rw [hpc, htarget]
    exact hblock
  | delegation it rest =>
    obtain ⟨d, ⟨htarget, hplaced⟩, -, hpc, -⟩ := h
    let b : ResumeBlock L := pushedBlock d.label rest.place.params []
      (.ifResumeExc d.excDispatch d.sendDispatch) (rest.place.exc.map Fin.val)
    have hblock := hplaced b (by simp [b, DelegateSite.blocks])
    refine ⟨b, ?_, rfl⟩
    unfold resumedBlock
    rw [hpc, htarget]
    exact hblock

omit [DecidableEq V] in
theorem callEntry_slots (f : ResumeFrame σ K V E) (i : Resume σ V E) :
    (callEntry rt p f i).frame.slots = rt.newSlots := callFrame_slots rt _ rt.newSlots i.sig

omit [DecidableEq V] in
/-- An exception parameter has no value in new slots. -/
theorem newSlots_eq_iff (params : List (BlockParam L)) (k : K) :
    rt.currentException params rt.newSlots = rt.currentException params k ↔
      ∀ v, rt.currentException params k = some v → v = rt.deleted := by
  rw [rt.currentException_newSlots params k]
  cases rt.currentException params k with
  | none => exact ⟨fun _ v hv => (by cases hv), fun _ => rfl⟩
  | some v =>
    constructor
    · intro heq v' hv'
      obtain rfl := Option.some.inj hv'
      exact (Option.some.inj heq).symm
    · intro hdeleted
      exact congrArg some (hdeleted v rfl).symm

omit [DecidableEq V] in
/-- **One resumption.** -/
theorem keepsException_iff {w : Option (Waiting n L K V)} {f : Option (ResumeFrame σ K V E)}
    (h : Option.Rel (WaitsAt rt p) w f) (i : Resume σ V E) :
    KeepsException rt p f i ↔ OutsideHandler rt w i := by
  cases h with
  | none => exact Iff.rfl
  | @some w f h =>
    cases w with
    | start =>
      refine ⟨fun _ => trivial, fun _ b _ => ?_⟩
      rw [callEntry_slots, h.2]
    | suspended at_ k =>
      obtain ⟨hsusp, rfl⟩ := h
      obtain ⟨b, hblock, hparams⟩ := resumedBlock_params hsusp
      constructor
      · intro hkeeps
        have hkeeps := hkeeps b hblock
        rw [callEntry_slots, hparams] at hkeeps
        exact (newSlots_eq_iff _ _).mp hkeeps
      · intro houtside b' hb'
        obtain rfl := Option.some.inj (hblock.symm.trans hb')
        rw [callEntry_slots, hparams]
        exact (newSlots_eq_iff _ _).mpr houtside

end Resumptions

/-! ## Histories -/

/-- **Exceptions of handlers.** In a history of resumptions, every call finds the exception of its
handler as the last call has left it exactly if no resumption finds the body in a handler with an
exception. The statement that should save the exception changes nothing about that, and the `as`
name of the handler is a variable: a resumption keeps it. -/
theorem exceptions_kept_iff {N : Type} [DecidableEq N] {rt : YieldRuntime L σ K V E}
    {p : YieldProgram n L} (s : σ) (is : List (Resume σ V E)) :
    ((resumeProcess rt p).Guarded (KeepsException rt p) (some (newFrame rt s)) is ↔
      (blocksProcess rt p (.lowered rt)).Guarded (OutsideHandler rt) (some .start) is) ∧
    ∀ (exceptionParamNames cellBindings : List N) (exc x : N) (st : Storage N V),
      ((syncExceptionParamCell exceptionParamNames cellBindings exc st).resumed rt.deleted).read
          exceptionParamNames cellBindings x =
        if x ∈ exceptionParamNames ∨ x ∉ cellBindings then rt.deleted
        else st.read exceptionParamNames cellBindings x := by
  refine ⟨?_, read_resumed rt.deleted⟩
  refine (Transducer.guarded_iff_of_rel _ _ (fun w f i hrel => ?_) (fun w f i hrel => ?_)
    (waitsAt_newFrame (p := p) rt s) is).symm
  · exact (process_matches rt hrel i).2
  · exact (keepsException_iff hrel i).symm

/-- `try: f()` and `except: yield 5; raise`. -/
def raiseAfterYield : YieldProgram 1 smallLang :=
  Fin.cases ⟨[], [.plain ()], .raiseTerm (some (.value 7)), some (Fin.last 1)⟩ fun _ =>
    ⟨[⟨(), .exception⟩], [.yieldValue none (some (.value 5))], .raiseTerm none, none⟩

/-- The second resumption finds the handler without its exception. -/
theorem raiseAfterYield_loses :
    ¬ ∀ is : List (Resume SmallValue SmallValue SmallExc),
      (resumeProcess smallRuntime raiseAfterYield).Guarded
        (KeepsException smallRuntime raiseAfterYield)
        (some (newFrame smallRuntime .none)) is := by
  intro h
  have hyield : runBlocks smallRuntime raiseAfterYield (.lowered smallRuntime) .start
      ⟨.send .none, .none⟩ = some (.yielded (.num 5) (.plain (.block
        ⟨[⟨(), .exception⟩], none⟩ none [] (.raiseTerm none))) (.num 7) .none) :=
    runBlocks_of_run 4 rfl
  have hrel := (process_matches smallRuntime (waitsAt_newFrame (p := raiseAfterYield)
    smallRuntime .none) (⟨.send .none, .none⟩ : Resume SmallValue SmallValue SmallExc)).2
  have hkeeps := (h [⟨.send .none, .none⟩, ⟨.send .none, .none⟩]).2.1
  have houtside := (keepsException_iff hrel _).mp hkeeps
  have hwaits : ((blocksProcess smallRuntime raiseAfterYield (.lowered smallRuntime)).step
      (some .start) ⟨.send .none, .none⟩).1 = some (.suspended (.plain (.block
        ⟨[⟨(), .exception⟩], none⟩ none [] (.raiseTerm none))) (.num 7)) := by
    show (observeBlocks _ (runBlocks _ _ _ _ _)).1 = _
    rw [hyield]
    rfl
  rw [hwaits] at houtside
  cases houtside (.num 7) rfl

end DietPython.Generators
