import DietPython.Lib.Labels
import DietPython.ControlFlow.Lowering

/-!
# The labels of lowered sequences

Every block that lowering pushes has a label of its own: each combinator of the lowering draws
its labels from the counter between where it starts and where it ends.
-/

namespace DietPython.ControlFlow

open Blocks (BlockParamRole)
open Labelled

variable {E T : Type}

/-! ## Passes keep labels -/

@[simp] theorem ensureParam_label (b : Block E T) (x : Name) (role : BlockParamRole) :
    (b.ensureParam x role).label = b.label := by
  unfold Block.ensureParam
  split <;> rfl

@[simp] theorem setExceptionParam_label (b : Block E T) (x : Name) :
    (b.setExceptionParam x).label = b.label := rfl

@[simp] theorem renameExceptionEdgeArgs_label (b : Block E T) (old new : Name) :
    (renameExceptionEdgeArgs b old new).label = b.label := by
  unfold renameExceptionEdgeArgs
  split <;> rfl

@[simp] theorem rewriteReturnToFinally_label (finallyTarget : ℕ) (payload : Name)
    (b : Block E T) : (rewriteReturnToFinally finallyTarget payload b).label = b.label := by
  unfold rewriteReturnToFinally
  split <;> rfl

@[simp] theorem addFinallyParams_label (finallyLabel : ℕ) (kind payload : Name)
    (b : Block E T) : (addFinallyParams finallyLabel kind payload b).label = b.label := by
  unfold addFinallyParams
  split <;> simp

@[simp] theorem setRegionExcParam_label (x : Name) (b : Block E T) :
    (setRegionExcParam x b).label = b.label := by
  unfold setRegionExcParam
  split
  · rfl
  · split <;> simp

@[simp] theorem Pass.apply_label (p : Pass) (b : Block E T) : (p.apply b).label = b.label := by
  cases p <;> simp [Pass.apply]

/-! ## Combinators -/

/-- The blocks pushed between two readings of the counters. -/
structure Draws (g g' : Gen) (blocks : List (Block E T)) : Prop where
  label_le : g.label ≤ g'.label
  tmp_le : g.tmp ≤ g'.tmp
  span : Span Block.label g.label g'.label blocks

namespace Draws

variable {g g₁ g₂ : Gen} {xs ys : List (Block E T)}

theorem nil (h : g.label ≤ g₁.label) (h' : g.tmp ≤ g₁.tmp) :
    Draws g g₁ ([] : List (Block E T)) :=
  ⟨h, h', Span.nil _ _⟩

theorem append (hx : Draws g g₁ xs) (hy : Draws g₁ g₂ ys) : Draws g g₂ (xs ++ ys) :=
  ⟨Nat.le_trans hx.label_le hy.label_le, Nat.le_trans hx.tmp_le hy.tmp_le,
    hx.span.append hy.span hx.label_le hy.label_le⟩

/-- Blocks pushed last under labels reserved between `g` and `g₁`. -/
theorem append_reserved (hx : Draws g₁ g₂ xs) (hy : Span Block.label g.label g₁.label ys)
    (hlabel : g.label ≤ g₁.label) (htmp : g.tmp ≤ g₁.tmp) : Draws g g₂ (xs ++ ys) :=
  ⟨Nat.le_trans hlabel hx.label_le, Nat.le_trans htmp hx.tmp_le,
    hx.span.append_reserved hy hlabel hx.label_le⟩

theorem applyPass (h : Draws g g₁ xs) (p : Pass) : Draws g g₁ (applyPass p xs) :=
  ⟨h.label_le, h.tmp_le, h.span.map _ (p.apply_label ·)⟩

theorem returnsTo (h : Draws g g₁ xs) (target : Option (ℕ × Name)) :
    Draws g g₁ (returnsTo target xs) := by
  cases target with
  | none => exact h
  | some target => exact h.applyPass _

end Draws

/-- Lowering draws its labels and names from the counters, and no label twice. -/
def Fresh (lower : Lower E T) : Prop :=
  ∀ linear t g, Draws g (lower linear t g).gen (lower linear t g).blocks

section Combinators

variable {body orelse rest lower : Lower E T}

/-- One block with the next label. -/
theorem span_one {n : ℕ} (b : Block E T) (h : b.label = n) :
    Span Block.label n (n + 1) [b] :=
  Span.singleton b (Nat.le_of_eq h.symm) (by rw [h]; exact Nat.lt_succ_self n)

/-- Two blocks with the next two labels. -/
theorem span_two {n : ℕ} (b c : Block E T) (hb : b.label = n) (hc : c.label = n + 1) :
    Span Block.label n (n + 2) ([b] ++ [c]) :=
  (span_one b hb).append (span_one c hc) (Nat.le_succ _) (Nat.le_succ _)

theorem lowerEnd_fresh : Fresh (lowerEnd : Lower E T) := by
  intro linear t g
  unfold lowerEnd
  split
  · exact Draws.nil (Nat.le_refl _) (Nat.le_refl _)
  · exact ⟨Nat.le_succ _, Nat.le_refl _, span_one _ rfl⟩

theorem lowerLoopJump_fresh (label : LoopLabels → ℕ) :
    Fresh (lowerLoopJump label : Lower E T) := by
  intro linear t g
  unfold lowerLoopJump
  split
  · exact ⟨Nat.le_succ _, Nat.le_refl _, span_one _ rfl⟩
  · exact Draws.nil (Nat.le_refl _) (Nat.le_refl _)

theorem lowerExpanded_fresh (h : Fresh lower) : Fresh (lowerExpanded lower) := by
  intro linear t g
  unfold lowerExpanded
  split
  · exact h [] t g
  · exact (h [] t ⟨g.label + 1, g.tmp⟩).append_reserved (span_one _ rfl) (Nat.le_succ _)
      (Nat.le_refl _)

theorem lowerIf_fresh (test : E) (hbody : Fresh body) (horelse : Fresh orelse)
    (hrest : Fresh rest) : Fresh (lowerIf test body orelse rest) := fun _ t g =>
  (((hrest [] t ⟨g.label + 1, g.tmp⟩).append (hbody [] _ _)).append
    (horelse [] _ _)).append_reserved (span_one _ rfl) (Nat.le_succ _) (Nat.le_refl _)

theorem lowerWhile_fresh (test : E) (hbody : Fresh body) (horelse : Fresh orelse)
    (hrest : Fresh rest) : Fresh (lowerWhile test body orelse rest) := by
  intro linear t g
  unfold lowerWhile
  extract_lets testLabel linearLabel r o b blocks
  have hparts := ((hrest [] t _).append (horelse [] (t.nested r.entry) r.gen)).append
    (hbody [] (t.nestedWithLoop testLabel ⟨r.entry, testLabel⟩) o.gen)
  cases linear with
  | nil => exact hparts.append_reserved (span_one _ rfl) (Nat.le_succ _) (Nat.le_refl _)
  | cons op linear =>
    -- the test block has the first label, the block of the prefix the second
    have hown : Span Block.label g.label (g.label + 2)
        ([ifBranchBlock testLabel [] (.expr test) b.entry o.entry t.activeExc] ++
          [sequenceJumpBlock linearLabel (op :: linear) testLabel t.activeExc]) :=
      span_two _ _ rfl rfl
    have hall := hparts.append_reserved hown (Nat.le_add_right _ _) (Nat.le_refl _)
    rw [← List.append_assoc] at hall
    exact hall

theorem lowerFor_fresh (isAsync : Bool) (target : T) (iterable : E) (hbody : Fresh body)
    (horelse : Fresh orelse) (hrest : Fresh rest) :
    Fresh (lowerFor isAsync target iterable body orelse rest) := by
  intro linear t g
  have hparts := fun u v =>
    ((hrest [] t ⟨g.label + 3, g.tmp + 2⟩).append (horelse [] u _)).append (hbody [] v _)
  refine (hparts _ _).append_reserved ⟨fun b hb => ?_, ?_⟩ (Nat.le_add_right _ _)
    (Nat.le_add_right _ _)
  · simp only [List.mem_cons, List.not_mem_nil, or_false] at hb
    rcases hb with rfl | rfl | rfl <;> simp [sequenceJumpBlock, ifBranchBlock]
  · simp [sequenceJumpBlock, ifBranchBlock]

theorem lowerTryBodies_draws {handler : Option (Lower E T)} (hbody : Fresh body)
    (horelse : Fresh orelse) (hhandler : ∀ h ∈ handler, Fresh h) (excName : Name)
    (target : Option (ℕ × Name)) (cleanup : ℕ) (cleanupExc : Option ℕ) (t : RegionTargets)
    (g : Gen) :
    Draws g (lowerTryBodies body orelse handler excName target cleanup cleanupExc t g).gen
      (lowerTryBodies body orelse handler excName target cleanup cleanupExc t g).blocks := by
  cases handler with
  | none => exact ((horelse [] _ g).returnsTo _).append ((hbody [] _ _).returnsTo _)
  | some handler =>
    exact (((horelse [] _ g).returnsTo _).append
      (((hhandler handler rfl [] _ _).returnsTo _).applyPass _)).append ((hbody [] _ _).returnsTo _)

theorem lowerFinallyRegion_draws (h : Fresh lower) (excName : Name) (plan : FinallyPlan)
    (t : RegionTargets) (g : Gen) :
    Draws g (lowerFinallyRegion lower excName plan t g).gen
      (lowerFinallyRegion lower excName plan t g).blocks := by
  have hf := h [] (t.nested plan.dispatchLabel) g
  exact ((hf.applyPass _).applyPass _).append ⟨Nat.le_add_right _ _, Nat.le_refl _,
    span_two _ _ rfl rfl⟩

theorem finallyDispatchBlocks_span (g : Gen) (restEntry : ℕ) (exc : Option ℕ) :
    Span Block.label g.label (g.label + 3)
      (finallyDispatchBlocks (finallyPlan g) restEntry exc : List (Block E T)) := by
  refine ⟨fun b hb => ?_, ?_⟩
  · simp only [finallyDispatchBlocks, finallyPlan, List.mem_cons, List.not_mem_nil, or_false] at hb
    rcases hb with rfl | rfl | rfl <;> simp
  · simp [finallyDispatchBlocks, finallyPlan]

theorem lowerTryExcept_fresh {handler : Option (Lower E T)} (hbody : Fresh body)
    (horelse : Fresh orelse) (hhandler : ∀ h ∈ handler, Fresh h) (hrest : Fresh rest) :
    Fresh (lowerTryExcept body orelse handler rest) := fun _ t g =>
  ((hrest [] t _).append (lowerTryBodies_draws hbody horelse hhandler _ _ _ _ t _)).append_reserved
    (span_one (n := g.label) _ rfl) (Nat.le_succ _) (Nat.le_succ _)

theorem lowerTryFinally_fresh {handler : Option (Lower E T)} (hbody : Fresh body)
    (horelse : Fresh orelse) (hhandler : ∀ h ∈ handler, Fresh h) (hfinal : Fresh lower)
    (hrest : Fresh rest) : Fresh (lowerTryFinally body orelse handler lower rest) := by
  intro linear t g
  unfold lowerTryFinally
  extract_lets plan label r f b
  have hparts := ((hrest [] t ⟨g.label + 4, g.tmp + 3⟩).append
      (lowerFinallyRegion_draws hfinal (exceptExcName g) plan t r.gen)).append
    (lowerTryBodies_draws hbody horelse hhandler (exceptExcName g)
      (some (f.finallyLabel, plan.abruptPayload)) f.normalEntry (some f.exceptionEntry) t f.gen)
  have hown := (finallyDispatchBlocks_span g r.entry t.activeExc).append
    (span_one (n := g.label + 3) (sequenceJumpBlock label linear b.entry t.activeExc) rfl)
    (Nat.le_add_right _ _) (Nat.le_succ _)
  have hall := hparts.append_reserved (g := g) hown (Nat.le_add_right _ _) (Nat.le_add_right _ _)
  refine ⟨hall.label_le, hall.tmp_le, hall.span.perm ?_⟩
  -- only the dispatch blocks stand elsewhere
  rw [List.append_assoc (r.blocks ++ f.blocks), List.append_assoc (r.blocks ++ f.blocks),
    List.append_assoc (r.blocks ++ f.blocks)]
  exact (List.perm_append_comm_assoc _ _ _).append_left _

end Combinators

/-! ## Sequences -/

mutual

theorem lowerHead_fresh : {l : Bool} → (stmt : Stmt E T l) → {rest : Lower E T} → Fresh rest →
    Fresh (lowerHead stmt rest)
  | _, .simple _, _, hrest => fun _ t g => hrest _ t g
  | _, .raiseStmt _, _, _ => fun _ _ _ => ⟨Nat.le_succ _, Nat.le_refl _, span_one _ rfl⟩
  | _, .returnStmt _, _, _ => fun _ _ _ => ⟨Nat.le_succ _, Nat.le_refl _, span_one _ rfl⟩
  | _, .ifStmt test body orelse, _, hrest =>
    lowerIf_fresh test (lowerStmts_fresh body) (lowerStmts_fresh orelse) hrest
  | _, .whileStmt test body orelse, _, hrest =>
    lowerWhile_fresh test (lowerStmts_fresh body) (lowerStmts_fresh orelse) hrest
  | _, .forStmt isAsync target iterable body orelse, _, hrest =>
    lowerFor_fresh isAsync target iterable (lowerStmts_fresh body) (lowerStmts_fresh orelse) hrest
  | _, .breakStmt, _, _ => lowerLoopJump_fresh _
  | _, .continueStmt, _, _ => lowerLoopJump_fresh _
  | _, .tryExcept body first more orelse finalbody, _, hrest => by
    have hhandler : ∀ h ∈ some (lowerHead first (lowerStmts more)), Fresh h := by
      intro h hmem
      obtain rfl := Option.mem_some.mp hmem
      exact lowerHead_fresh first (lowerStmts_fresh more)
    unfold lowerHead
    split
    · exact lowerTryExcept_fresh (lowerStmts_fresh body) (lowerStmts_fresh orelse) hhandler hrest
    · exact lowerTryFinally_fresh (lowerStmts_fresh body) (lowerStmts_fresh orelse) hhandler
        (lowerStmts_fresh finalbody) hrest
  | _, .tryFinally body first more, _, hrest =>
    lowerTryFinally_fresh (lowerStmts_fresh body) lowerEnd_fresh (fun _ h => by cases h)
      (lowerHead_fresh first (lowerStmts_fresh more)) hrest

theorem lowerStmts_fresh : {l : Bool} → (stmts : Stmts E T l) → Fresh (lowerStmts stmts)
  | _, .nil => lowerEnd_fresh
  | _, .cons false stmt rest => lowerHead_fresh stmt (lowerStmts_fresh rest)
  | _, .cons true stmt rest => lowerExpanded_fresh (lowerHead_fresh stmt (lowerStmts_fresh rest))

end

end DietPython.ControlFlow
