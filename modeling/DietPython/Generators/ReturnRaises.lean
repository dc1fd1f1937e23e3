import DietPython.Generators.ResumeAgreement

/-!
# Returned expressions that raise

A returned expression is evaluated in the completion block, which is in no region. So an exception
that the expression raises ends the call, wherever the `return` stands. In a plain function the
exception goes to the handler of the region that the `return` is in. The two agree where there is no
such region.
-/

namespace DietPython.Generators

open Machines Machine Transducers

variable {n : ℕ} {L : Lang} {σ K V E : Type} [DecidableEq V]

/-! ## One `return` -/

section Return

variable (rt : YieldRuntime L σ K V E) (p : YieldProgram n L) (sig : Resumption V E)

/-- The resume function gets to where a `return` of a plain function goes: the handler of the region
if the expression raises, and the completion if it does not. -/
def DeliversReturn : YieldState n L σ K V E → ResumeState L σ K V E → Prop
  | .run place [] (.ret x) k s, t =>
    Catches rt (lowerResumeBlocks p) (jumpTable p) (exhaustedLabel n) sig
      (stepTerm rt p (.python rt) sig (.ret x) place k s) (resumeStep rt (lowerResumeBlocks p) t)
  | _, _ => True

variable {rt p sig}

omit [DecidableEq V] in
/-- The code of the callable completes nowhere. -/
theorem emitted_ne_complete {g : List (ResumeBlock L)} {targets : List ℕ}
    {params : List (BlockParam L)} {exc : Option (Fin (n + 1))} {body : List (YieldStmt L)}
    {term : YieldTerm n L} {code : List (ResumeStmt L)} {t : ResumeTerm L}
    (h : Emitted g targets params exc body term code t) (value : Completion L) :
    t ≠ .complete value := by
  rintro rfl
  induction body generalizing code with
  | nil =>
    cases term with
    | jump l args => cases h.2
    | ifTerm test l l' => cases h.2
    | branchTable index ls l => cases h.2
    | raiseTerm x => cases h.2
    | ret x =>
      obtain ⟨l, -, hterm, -⟩ := h
      cases hterm
    | retYield value =>
      obtain ⟨y, -, hterm, -⟩ := h
      cases hterm
    | retYieldFrom value =>
      obtain ⟨d, -, hterm, -⟩ := h
      cases hterm
  | cons stmt body ih =>
    cases stmt with
    | plain s =>
      obtain ⟨code', -, hcode⟩ := h
      exact ih hcode
    | yieldValue x value =>
      obtain ⟨y, -, hterm, -⟩ := h
      cases hterm
    | yieldFrom x value =>
      obtain ⟨d, -, hterm, -⟩ := h
      cases hterm

omit [DecidableEq V] in
/-- No state of a completion stands for a state of the blocks. -/
theorem completion_not_standsFor {u : YieldState n L σ K V E} {code : List (ResumeStmt L)}
    {value : Completion L} {exc : Option ℕ} {f : ResumeFrame σ K V E} :
    ¬ StandsFor rt p sig u ⟨code, .complete value, exc, f⟩ := by
  intro h
  cases h with
  | run hcode _ => exact emitted_ne_complete hcode _ rfl

/-- An expression that raises in the completion block ends the call. -/
theorem completion_misses {params : List (BlockParam L)} {x : L.Expr} {f : ResumeFrame σ K V E}
    {e : E} (he : (rt.eval x f.slots f.store).2 = .error e) {u : YieldState n L σ K V E} :
    ¬ Catches rt (lowerResumeBlocks p) (jumpTable p) (exhaustedLabel n) sig (.inl u)
      (.inl ⟨[.storeThrowContext params], .complete (.expr x), none, f⟩) := by
  rintro ⟨t, ⟨j, hj⟩, hrel⟩
  have hstore : (resumeMachine rt (lowerResumeBlocks p)).step
      ⟨[.storeThrowContext params], .complete (.expr x), none, f⟩ =
        .inl ⟨[], .complete (.expr x), none, inBlock rt params f⟩ := rfl
  match j with
  | 0 =>
    obtain rfl := Option.some.inj hj
    exact completion_not_standsFor hrel
  | 1 =>
    rw [after_succ_of_step _ hstore] at hj
    obtain rfl := Option.some.inj hj
    exact completion_not_standsFor hrel
  | j + 2 =>
    have hraise : (resumeMachine rt (lowerResumeBlocks p)).step
        ⟨[], .complete (.expr x), none, inBlock rt params f⟩ =
          throwTo rt (lowerResumeBlocks p) none e
            ((inBlock rt params f).setStore (rt.eval x f.slots f.store).1) := by
      show thenDo rt _ none (inBlock rt params f) (rt.eval x f.slots f.store) _ = _
      unfold thenDo
      rw [he]
    rw [after_succ_of_step _ hstore] at hj
    simp [after, hraise, throwTo] at hj

/-- **One `return`.** It goes where a `return` of a plain function goes exactly if it is in no
region or its expression does not raise. -/
theorem deliversReturn_iff {u : YieldState n L σ K V E} {t : ResumeState L σ K V E}
    (hrel : StandsFor rt p sig u t) : DeliversReturn rt p sig u t ↔ ReturnsOutside rt u := by
  match u, hrel with
  | .run place [] (.ret x) k s, hrel =>
    have hfollows := resume_follows (lowerResumeBlocks_lowers p) (jumpTable_entry p) hrel
    constructor
    · intro hdelivers
      show place.exc = none ∨ ∃ v, (rt.eval x k s).2 = .ok v
      cases hr : (rt.eval x k s).2 with
      | ok v => exact .inr ⟨v, rfl⟩
      | error e =>
        refine .inl ?_
        cases hexc : place.exc with
        | none => rfl
        | some h =>
          have hpython : stepTerm rt p (.python rt) sig (.ret x) place k s =
              .inl (enterBlock p h (rt.catchExc (p h).params e k) (rt.eval x k s).1) := by
            have hreturn : (Policy.python rt : Policy n L σ K V E).returnExc place.exc = some h :=
              hexc
            rw [stepTerm, hreturn]
            unfold andThen
            rw [hr]
            rfl
          have hdelivers : Catches rt (lowerResumeBlocks p) (jumpTable p) (exhaustedLabel n) sig
            (stepTerm rt p (.python rt) sig (.ret x) place k s)
            (resumeStep rt (lowerResumeBlocks p) t) := hdelivers
          rw [hpython] at hdelivers
          cases hrel with
          | run hcode _ =>
            obtain ⟨l, rfl, rfl, hplaced⟩ := hcode
            have hblock : blockAt (lowerResumeBlocks p) l = some _ :=
              hplaced _ (List.mem_singleton_self _)
            have hgoto : ∀ f, resumeStep rt (lowerResumeBlocks p)
                ⟨[], .goto l, place.exc.map Fin.val, f⟩ =
                  .inl ⟨[.storeThrowContext place.params], .complete (.expr x), none, f⟩ := by
              intro f
              show gotoBlock (lowerResumeBlocks p) l f = _
              unfold gotoBlock
              rw [hblock]
              rfl
            rw [hgoto] at hdelivers
            exact (completion_misses hr hdelivers).elim
    · intro houtside
      have hsame : yieldStep rt p (.lowered rt) sig (.run place [] (.ret x) k s) =
          stepTerm rt p (.python rt) sig (.ret x) place k s := by
        rw [yieldStep, stepTerm, stepTerm]
        rcases houtside with hexc | ⟨v, hv⟩
        · rw [hexc]
          rfl
        · unfold andThen
          rw [hv]
      show Catches rt (lowerResumeBlocks p) (jumpTable p) (exhaustedLabel n) sig _ _
      rw [← hsame]
      exact hfollows
  | .start _, _ | .resume _ _ _, _ | .delegate _ _ _ _ _, _ | .run _ (_ :: _) _ _ _, _
  | .run _ [] (.jump _ _) _ _, _ | .run _ [] (.ifTerm _ _ _) _ _, _
  | .run _ [] (.branchTable _ _ _) _ _, _ | .run _ [] (.raiseTerm _) _ _, _
  | .run _ [] (.retYield _) _ _, _ | .run _ [] (.retYieldFrom _) _ _, _ => exact Iff.rfl

end Return

/-! ## Histories -/

section Histories

variable (rt : YieldRuntime L σ K V E) (p : YieldProgram n L)

/-- Every `return` that a call of the resume function gets to, along the run of the blocks, goes
where it goes in a plain function. -/
def DeliversReturns : Option (Waiting n L K V) × Option (ResumeFrame σ K V E) → Resume σ V E → Prop
  | (some w, some f), i => ∀ u t,
    (yieldMachine rt p (.lowered rt) i.sig).Reaches (w.enter i.store) u →
    (resumeMachine rt (lowerResumeBlocks p)).Reaches (callEntry rt p f i) t →
    StandsFor rt p i.sig u t → DeliversReturn rt p i.sig u t
  | _, _ => True

variable {rt p}

theorem deliversReturns_iff {w : Option (Waiting n L K V)} {f : Option (ResumeFrame σ K V E)}
    (h : Option.Rel (WaitsAt rt p) w f) (i : Resume σ V E) :
    DeliversReturns rt p (w, f) i ↔
      RunsFollow rt p (.lowered rt) (fun _ => ReturnsOutside rt) w i := by
  cases h with
  | none => exact Iff.rfl
  | @some w f h =>
    constructor
    · intro hdelivers u hu
      have hguard : (yieldMachine rt p (.lowered rt) i.sig).GuardedFrom (fun _ => True)
        (w.enter i.store) := fun _ _ => trivial
      obtain ⟨t, ht, hrel⟩ := simulates_reaches
        (fun u t hrel _ => resume_answers rt i.sig u t hrel) (callEntry_standsFor rt h i) hguard hu
      exact (deliversReturn_iff hrel).mp (hdelivers u t hu ht hrel)
    · intro houtside u t hu _ hrel
      exact (deliversReturn_iff hrel).mpr (houtside u hu)

/-- **Returned expressions.** In a history of resumptions of the blocks and of the resume function,
every `return` goes where it goes in a plain function exactly if no returned expression raises in a
region. -/
theorem returns_delivered_iff (s : σ) (is : List (Resume σ V E)) :
    ((blocksProcess rt p (.lowered rt)).prod (resumeProcess rt p)).Guarded (DeliversReturns rt p)
        (some .start, some (newFrame rt s)) is ↔
      (blocksProcess rt p (.lowered rt)).Guarded
        (RunsFollow rt p (.lowered rt) fun _ => ReturnsOutside rt) (some .start) is := by
  refine Transducer.guarded_prod_iff _ (fun w f i hrel => ?_) (fun w f i hrel => ?_)
    (waitsAt_newFrame (p := p) rt s) is
  · exact (process_matches rt hrel i).2
  · exact deliversReturns_iff hrel i

end Histories

/-- The `return` in `returnInTry` misses the handler around it. -/
theorem returnInTry_missed :
    ¬ ∀ is : List (Resume SmallValue SmallValue SmallExc),
      ((blocksProcess smallRuntime returnInTry (.lowered smallRuntime)).prod
        (resumeProcess smallRuntime returnInTry)).Guarded
          (DeliversReturns smallRuntime returnInTry)
          (some .start, some (newFrame smallRuntime .none)) is := by
  intro h
  have hrel : Option.Rel (WaitsAt smallRuntime returnInTry) (some .start)
    (some (newFrame smallRuntime SmallValue.none)) := waitsAt_newFrame smallRuntime .none
  have hruns := (deliversReturns_iff hrel _).mp (h [⟨.send .none, .none⟩]).1
  have hreturn := hruns _ ⟨1, rfl⟩
  rcases hreturn with hexc | ⟨v, hv⟩
  · cases hexc
  · cases hv

end DietPython.Generators
