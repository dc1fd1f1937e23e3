import DietPython.Blocks.ExplicitYields
import DietPython.Generators.ResumeLowering

/-!
# The resume function of core blocks

Where a yield is expected to be explicit, the lowering of a generator stops the compiler at any
other yield. After the order of evaluation has been made explicit there is no such yield, and the
resume function is that of a program in which yields are statements of their own.
-/

namespace DietPython.Generators

open Blocks (Instr Args Keywords CoreBlockPyExprWithYield CoreBlockPyExpr UnresolvedName BlockTerm
  BlockLabel BlockEdge IsYield Explicit)

/-! ## Instructions without yields -/

mutual

/-- `ErrOnYield`: there is no result if there is a yield. -/
def withoutYield? {Y L N : Type} : Instr Y L N → Option (Instr Empty L N)
  | .literal may literal => some (.literal may literal)
  | .binOp kind left right => do return .binOp kind (← withoutYield? left) (← withoutYield? right)
  | .unaryOp kind operand => do return .unaryOp kind (← withoutYield? operand)
  | .call func args keywords => do
    return .call (← withoutYield? func) (← argsWithoutYield? args)
      (← keywordsWithoutYield? keywords)
  | .getAttr value attr => do return .getAttr (← withoutYield? value) (← withoutYield? attr)
  | .setAttr value attr replacement => do
    return .setAttr (← withoutYield? value) (← withoutYield? attr) (← withoutYield? replacement)
  | .getItem value index => do return .getItem (← withoutYield? value) (← withoutYield? index)
  | .setItem value index replacement => do
    return .setItem (← withoutYield? value) (← withoutYield? index) (← withoutYield? replacement)
  | .delItem value index => do return .delItem (← withoutYield? value) (← withoutYield? index)
  | .load name => some (.load name)
  | .store name value => do return .store name (← withoutYield? value)
  | .del name quietly => some (.del name quietly)
  | .makeCell initialValue => do return .makeCell (← withoutYield? initialValue)
  | .cellRefForName may logicalName => some (.cellRefForName may logicalName)
  | .cellRef location => some (.cellRef location)
  | .makeFunction functionId kind paramDefaults annotateFn => do
    return .makeFunction functionId kind (← withoutYield? paramDefaults)
      (← withoutYield? annotateFn)
  | .yield _ _ | .yieldFrom _ _ => none

def argsWithoutYield? {Y L N : Type} : Args Y L N → Option (Args Empty L N)
  | .nil => some .nil
  | .positional value rest => do
    return .positional (← withoutYield? value) (← argsWithoutYield? rest)
  | .starred value rest => do return .starred (← withoutYield? value) (← argsWithoutYield? rest)

def keywordsWithoutYield? {Y L N : Type} : Keywords Y L N → Option (Keywords Empty L N)
  | .nil => some .nil
  | .named arg value rest => do
    return .named arg (← withoutYield? value) (← keywordsWithoutYield? rest)
  | .starred value rest => do
    return .starred (← withoutYield? value) (← keywordsWithoutYield? rest)

end

section WithoutYield

variable {Y L N : Type}

mutual

theorem withoutYield?_of_free : ∀ expr : Instr Y L N, expr.containsYield = false →
    ∃ r, withoutYield? expr = some r
  | .literal _ _, _ | .load _, _ | .del _ _, _ | .cellRefForName _ _, _ | .cellRef _, _ => ⟨_, rfl⟩
  | .binOp kind left right, h | .getAttr left right, h | .getItem left right, h
  | .delItem left right, h | .makeFunction _ _ left right, h => by
    obtain ⟨hl, hr⟩ := Bool.or_eq_false_iff.mp h
    obtain ⟨l, hl⟩ := withoutYield?_of_free left hl
    obtain ⟨r, hr⟩ := withoutYield?_of_free right hr
    rw [withoutYield?, hl, hr]
    exact ⟨_, rfl⟩
  | .unaryOp _ value, h | .store _ value, h | .makeCell value, h => by
    obtain ⟨r, hr⟩ := withoutYield?_of_free value h
    rw [withoutYield?, hr]
    exact ⟨_, rfl⟩
  | .call func args keywords, h => by
    obtain ⟨hf, h⟩ := Bool.or_eq_false_iff.mp h
    obtain ⟨ha, hk⟩ := Bool.or_eq_false_iff.mp h
    obtain ⟨f, hf⟩ := withoutYield?_of_free func hf
    obtain ⟨a, ha⟩ := argsWithoutYield?_of_free args ha
    obtain ⟨k, hk⟩ := keywordsWithoutYield?_of_free keywords hk
    rw [withoutYield?, hf, ha, hk]
    exact ⟨_, rfl⟩
  | .setAttr value middle replacement, h | .setItem value middle replacement, h => by
    obtain ⟨hv, h⟩ := Bool.or_eq_false_iff.mp h
    obtain ⟨hm, hr⟩ := Bool.or_eq_false_iff.mp h
    obtain ⟨v, hv⟩ := withoutYield?_of_free value hv
    obtain ⟨m, hm⟩ := withoutYield?_of_free middle hm
    obtain ⟨r, hr⟩ := withoutYield?_of_free replacement hr
    rw [withoutYield?, hv, hm, hr]
    exact ⟨_, rfl⟩
  | .yield _ _, h | .yieldFrom _ _, h => by cases h

theorem argsWithoutYield?_of_free : ∀ args : Args Y L N, args.containsYield = false →
    ∃ r, argsWithoutYield? args = some r
  | .nil, _ => ⟨_, rfl⟩
  | .positional value rest, h | .starred value rest, h => by
    obtain ⟨hv, hr⟩ := Bool.or_eq_false_iff.mp h
    obtain ⟨v, hv⟩ := withoutYield?_of_free value hv
    obtain ⟨r, hr⟩ := argsWithoutYield?_of_free rest hr
    rw [argsWithoutYield?, hv, hr]
    exact ⟨_, rfl⟩

theorem keywordsWithoutYield?_of_free : ∀ keywords : Keywords Y L N,
    keywords.containsYield = false → ∃ r, keywordsWithoutYield? keywords = some r
  | .nil, _ => ⟨_, rfl⟩
  | .named _ value rest, h | .starred value rest, h => by
    obtain ⟨hv, hr⟩ := Bool.or_eq_false_iff.mp h
    obtain ⟨v, hv⟩ := withoutYield?_of_free value hv
    obtain ⟨r, hr⟩ := keywordsWithoutYield?_of_free rest hr
    rw [keywordsWithoutYield?, hv, hr]
    exact ⟨_, rfl⟩

end

end WithoutYield

/-! ## Sites -/

/-- The source's `YieldSite`. -/
inductive CoreYieldSite
  | exprYield (value : Option CoreBlockPyExprWithYield)
  | assignYield (target : UnresolvedName) (value : Option CoreBlockPyExprWithYield)
  | returnYield (value : Option CoreBlockPyExprWithYield)
  | exprYieldFrom (value : CoreBlockPyExprWithYield)
  | assignYieldFrom (target : UnresolvedName) (value : CoreBlockPyExprWithYield)
  | returnYieldFrom (value : CoreBlockPyExprWithYield)

def isImplicitNoneExpr : CoreBlockPyExprWithYield → Bool
  | .load name => name = .runtimeName "NONE"
  | _ => false

def explicitYieldValue (value : CoreBlockPyExprWithYield) : Option CoreBlockPyExprWithYield :=
  if isImplicitNoneExpr value then none else some value

def stmtYieldSite : CoreBlockPyExprWithYield → Option CoreYieldSite
  | .yield _ value => some (.exprYield (explicitYieldValue value))
  | .yieldFrom _ value => some (.exprYieldFrom value)
  | .store name (.yield _ value) => some (.assignYield name (explicitYieldValue value))
  | .store name (.yieldFrom _ value) => some (.assignYieldFrom name value)
  | _ => none

def termYieldSite : BlockTerm CoreBlockPyExprWithYield → Option CoreYieldSite
  | .ret (.yield _ value) => some (.returnYield (explicitYieldValue value))
  | .ret (.yieldFrom _ value) => some (.returnYieldFrom value)
  | _ => none

/-! ## The conversions that stop the compiler -/

def lowerStmtNoYield (stmt : CoreBlockPyExprWithYield) : Option CoreBlockPyExpr :=
  withoutYield? stmt

def lowerTermNoYield (term : BlockTerm CoreBlockPyExprWithYield) :
    Option (BlockTerm CoreBlockPyExpr) :=
  term.mapM withoutYield?

/-- Without a value, `None` is yielded. -/
def yieldValueExpr : Option CoreBlockPyExprWithYield → Option (Option CoreBlockPyExpr)
  | none => some none
  | some value => (withoutYield? value).map some

/-! ## Fragments -/

/-- Statements and expressions are core instructions without yields. -/
abbrev coreLang : Lang where
  Stmt := CoreBlockPyExpr
  Expr := CoreBlockPyExpr
  Name := UnresolvedName
  awaitIter value := .call (.load (.runtimeName "await_iter")) (.positional value .nil) .nil

def resumeParam (param : Blocks.BlockParam) : BlockParam coreLang where
  name := UnresolvedName.sourceName param.name
  role := param.role

def abruptKindIndex : Blocks.AbruptKind → ℕ
  | .fallthrough => 0
  | .ret => 1
  | .exception => 2
  | .break => 3
  | .continue => 4

def resumeArg : Blocks.BlockArg → BlockArg coreLang
  | .name x => .name (UnresolvedName.sourceName x)
  | .none => .none
  | .currentException => .currentException
  | .abruptKind kind => .abruptKind (abruptKindIndex kind)

section Fragments

variable {n : ℕ} (relabel : BlockLabel → Fin (n + 1)) (params : List (BlockParam coreLang))
  (exc : Option ℕ)

/-- A terminator other than a `Return`, with the labels of the resume function. -/
def relabelledTerm : BlockTerm CoreBlockPyExpr → ResumeTerm coreLang
  | .jump edge => .jump (relabel edge.target) (edge.args.map resumeArg)
  | .ifTerm test thenLabel elseLabel => .ifTerm test (relabel thenLabel) (relabel elseLabel)
  | .branchTable index targets defaultLabel =>
    .branchTable index (targets.map fun target => (relabel target).val) (relabel defaultLabel)
  | .raiseTerm exc => .raiseTerm params exc
  | .ret value => .ret (some value)

/-- `emit_yield_site`: the state, the label of the continuation and what it starts with. -/
def emitYieldSite (st : ResumeLoweringState coreLang) (label : ℕ)
    (front : List (ResumeStmt coreLang)) :
    CoreYieldSite → Option (ResumeLoweringState coreLang × ℕ × List (ResumeStmt coreLang))
  | .exprYield value | .returnYield value => do
    return (st.emitYield label front (← yieldValueExpr value) params exc,
      st.yieldSite.continueLabel, afterYield none)
  | .assignYield target value => do
    return (st.emitYield label front (← yieldValueExpr value) params exc,
      st.yieldSite.continueLabel, afterYield (some target))
  | .exprYieldFrom value => do
    return (st.emitYieldFrom label front (← withoutYield? value) params exc,
      st.delegateSite.done, afterYieldFrom st.delegateSite.yieldedValue none)
  | .assignYieldFrom target value => do
    return (st.emitYieldFrom label front (← withoutYield? value) params exc,
      st.delegateSite.done,
      afterYieldFrom st.delegateSite.yieldedValue (some target))
  | .returnYieldFrom value => do
    return (st.emitYieldFrom label front (← withoutYield? value) params exc,
      st.delegateSite.done, [.clearYieldfrom, .storeYieldFromValue st.delegateSite.yieldedValue])

/-- What the callable returns after a yield in its `Return`. -/
def returnedAfter : CoreYieldSite → Completion coreLang
  | .returnYield _ | .exprYield _ | .assignYield _ _ => .sendValue
  | .returnYieldFrom _ | .exprYieldFrom _ | .assignYieldFrom _ _ => .yieldFromValue

/-- The end of `lower_resume_fragment`, where no statement has a yield. -/
def lowerCoreResumeTerm (st : ResumeLoweringState coreLang) (label : ℕ)
    (front : List (ResumeStmt coreLang)) (term : BlockTerm CoreBlockPyExprWithYield) :
    Option (ResumeLoweringState coreLang) :=
  match termYieldSite term with
  | some site => do
    let r ← emitYieldSite params exc st label front site
    return r.1.pushCompletionRaiseBlock r.2.1 r.2.2 (returnedAfter site) params exc
  | none =>
    match term with
    | .ret value => do
      return st.pushCompletionRaiseBlock label front (.expr (← withoutYield? value)) params exc
    | other => do
      let lowered ← lowerTermNoYield other
      return st.push [pushedBlock label params front (relabelledTerm relabel params lowered) exc]

/-- `lower_resume_fragment`, with the statements that have been passed. There is no result where
the compiler stops. -/
def lowerCoreResumeFragment : ResumeLoweringState coreLang → ℕ → List (ResumeStmt coreLang) →
    List CoreBlockPyExprWithYield → BlockTerm CoreBlockPyExprWithYield →
      Option (ResumeLoweringState coreLang)
  | st, label, front, [], term => lowerCoreResumeTerm relabel params exc st label front term
  | st, label, front, stmt :: body, term =>
    match stmtYieldSite stmt with
    | some site => do
      let r ← emitYieldSite params exc st label front site
      lowerCoreResumeFragment r.1 r.2.1 r.2.2 body term
    | none => do
      let lowered ← lowerStmtNoYield stmt
      lowerCoreResumeFragment st label (front ++ [.plain lowered]) body term

/-! ## Explicit blocks are lowered -/

theorem stmtYieldSite_of_free {stmt : CoreBlockPyExprWithYield}
    (h : stmt.containsYield = false) : stmtYieldSite stmt = none := by
  cases stmt with
  | yield may value => cases h
  | yieldFrom may value => cases h
  | store name value =>
    cases value with
    | yield may value => cases h
    | yieldFrom may value => cases h
    | _ => rfl
  | _ => rfl

theorem termYieldSite_of_free {term : BlockTerm CoreBlockPyExprWithYield}
    (h : ∀ e, term.operand = some e → e.containsYield = false) : termYieldSite term = none := by
  cases term with
  | ret value =>
    have hvalue := h value rfl
    cases value with
    | yield may value => cases hvalue
    | yieldFrom may value => cases hvalue
    | _ => rfl
  | _ => rfl

theorem yieldValueExpr_of_free {value : CoreBlockPyExprWithYield}
    (h : value.containsYield = false) :
    ∃ v, yieldValueExpr (explicitYieldValue value) = some v := by
  unfold explicitYieldValue
  by_cases hnone : isImplicitNoneExpr value = true
  · rw [if_pos hnone]
    exact ⟨none, rfl⟩
  · obtain ⟨v, hv⟩ := withoutYield?_of_free value h
    rw [if_neg hnone, yieldValueExpr, hv]
    exact ⟨some v, rfl⟩

/-- A statement with its yield apart. -/
def yieldStmt? : CoreBlockPyExprWithYield → Option (YieldStmt coreLang)
  | .yield _ value => do return .yieldValue none (← yieldValueExpr (explicitYieldValue value))
  | .yieldFrom _ value => do return .yieldFrom none (.iterable (← withoutYield? value))
  | .store name (.yield _ value) => do
    return .yieldValue (some name) (← yieldValueExpr (explicitYieldValue value))
  | .store name (.yieldFrom _ value) => do
    return .yieldFrom (some name) (.iterable (← withoutYield? value))
  | stmt => (lowerStmtNoYield stmt).map .plain

theorem yieldStmt?_of_free {stmt : CoreBlockPyExprWithYield} (h : stmt.containsYield = false) :
    yieldStmt? stmt = (lowerStmtNoYield stmt).map (YieldStmt.plain (L := coreLang)) := by
  cases stmt with
  | yield may value => cases h
  | yieldFrom may value => cases h
  | store name value =>
    cases value with
    | yield may value => cases h
    | yieldFrom may value => cases h
    | _ => rfl
  | _ => rfl

/-- The lowering goes on behind a statement as it does behind the statement `y` with its yield
apart. -/
def LowersAs (stmt : CoreBlockPyExprWithYield) (y : YieldStmt coreLang) : Prop :=
  ∀ (body : List CoreBlockPyExprWithYield) (term : BlockTerm CoreBlockPyExprWithYield)
    (stmts : List (YieldStmt coreLang)) (yieldTerm : YieldTerm n coreLang),
    (∀ st label front, lowerCoreResumeFragment relabel params exc st label front body term =
      some (lowerResumeFragment params exc st label front stmts yieldTerm)) →
    ∀ st label front,
      lowerCoreResumeFragment relabel params exc st label front (stmt :: body) term =
        some (lowerResumeFragment params exc st label front (y :: stmts) yieldTerm)

/-- **Statements.** An explicit statement is lowered. -/
theorem lowersAs_of_explicit {stmt : CoreBlockPyExprWithYield} (h : Explicit stmt) :
    ∃ y, yieldStmt? stmt = some y ∧ LowersAs relabel params exc stmt y := by
  have hyield : ∀ {value : CoreBlockPyExprWithYield}, IsYield value → ∀ target,
      (target = none → stmt = value) → (∀ x, target = some x → stmt = .store x value) →
      ∃ y, yieldStmt? stmt = some y ∧ LowersAs relabel params exc stmt y := by
    intro value hvalue target hnone hsome
    cases hvalue with
    | @yield may value hvalue =>
      obtain ⟨v, hv⟩ := yieldValueExpr_of_free hvalue
      refine ⟨.yieldValue target v, ?_, fun body term stmts yieldTerm hrest st label front => ?_⟩
      · cases target with
        | none =>
          rw [hnone rfl, yieldStmt?, hv]
          rfl
        | some x =>
          rw [hsome x rfl, yieldStmt?, hv]
          rfl
      rw [lowerResumeFragment, ← hrest]
      cases target with
      | none =>
        rw [hnone rfl, lowerCoreResumeFragment, stmtYieldSite]
        simp only [emitYieldSite, hv]
        rfl
      | some x =>
        rw [hsome x rfl, lowerCoreResumeFragment, stmtYieldSite]
        simp only [emitYieldSite, hv]
        rfl
    | @yieldFrom may value hvalue =>
      obtain ⟨v, hv⟩ := withoutYield?_of_free value hvalue
      refine ⟨.yieldFrom target (.iterable v), ?_,
        fun body term stmts yieldTerm hrest st label front => ?_⟩
      · cases target with
        | none =>
          rw [hnone rfl, yieldStmt?, hv]
          rfl
        | some x =>
          rw [hsome x rfl, yieldStmt?, hv]
          rfl
      rw [lowerResumeFragment, ← hrest]
      cases target with
      | none =>
        rw [hnone rfl, lowerCoreResumeFragment, stmtYieldSite]
        simp only [emitYieldSite, hv]
        rfl
      | some x =>
        rw [hsome x rfl, lowerCoreResumeFragment, stmtYieldSite]
        simp only [emitYieldSite, hv]
        rfl
  cases h with
  | free hfree =>
    obtain ⟨s, hs⟩ := withoutYield?_of_free stmt hfree
    refine ⟨.plain s, ?_, fun body term stmts yieldTerm hrest st label front => ?_⟩
    · rw [yieldStmt?_of_free hfree, lowerStmtNoYield, hs]
      rfl
    rw [lowerResumeFragment, ← hrest, lowerCoreResumeFragment, stmtYieldSite_of_free hfree]
    simp only [lowerStmtNoYield, hs]
    rfl
  | yields hvalue =>
    refine hyield hvalue none (fun _ => rfl) fun x hx => ?_
    cases hx
  | stores name hvalue =>
    refine hyield hvalue (some name) (fun hx => ?_) fun x hx => ?_
    · cases hx
    · obtain rfl := Option.some.inj hx
      rfl

/-- A terminator without yields, with the labels of the callable. -/
def yieldTermOf : BlockTerm CoreBlockPyExpr → YieldTerm n coreLang
  | .jump edge => .jump (relabel edge.target) (edge.args.map resumeArg)
  | .ifTerm test thenLabel elseLabel => .ifTerm test (relabel thenLabel) (relabel elseLabel)
  | .branchTable index targets defaultLabel =>
    .branchTable index (targets.map relabel) (relabel defaultLabel)
  | .raiseTerm exc => .raiseTerm exc
  | .ret value => .ret value

/-- A terminator without yields is lowered. -/
theorem lowerCoreResumeTerm_of_free {term : BlockTerm CoreBlockPyExprWithYield}
    (h : ∀ e, term.operand = some e → e.containsYield = false) :
    ∃ t, lowerTermNoYield term = some t ∧ ∀ st label front,
      lowerCoreResumeTerm relabel params exc st label front term =
        some (lowerResumeFragment params exc st label front [] (yieldTermOf relabel t)) := by
  have hsite := termYieldSite_of_free h
  unfold lowerCoreResumeTerm
  rw [hsite]
  cases term with
  | jump edge => exact ⟨.jump edge, rfl, fun _ _ _ => rfl⟩
  | ifTerm test thenLabel elseLabel =>
    obtain ⟨t, ht⟩ := withoutYield?_of_free test (h test rfl)
    have hterm : lowerTermNoYield (.ifTerm test thenLabel elseLabel) =
        some (.ifTerm t thenLabel elseLabel) := by
      simp only [lowerTermNoYield, BlockTerm.mapM, ht]
      rfl
    refine ⟨_, hterm, fun st label front => ?_⟩
    simp only [hterm]
    rfl
  | branchTable index targets defaultLabel =>
    obtain ⟨i, hi⟩ := withoutYield?_of_free index (h index rfl)
    have hterm : lowerTermNoYield (.branchTable index targets defaultLabel) =
        some (.branchTable i targets defaultLabel) := by
      simp only [lowerTermNoYield, BlockTerm.mapM, hi]
      rfl
    refine ⟨_, hterm, fun st label front => ?_⟩
    simp only [hterm]
    rw [yieldTermOf, lowerResumeFragment, List.map_map]
    rfl
  | raiseTerm operand =>
    cases operand with
    | none => exact ⟨.raiseTerm none, rfl, fun _ _ _ => rfl⟩
    | some e =>
      obtain ⟨e', he⟩ := withoutYield?_of_free e (h e rfl)
      have hterm : lowerTermNoYield (.raiseTerm (some e)) = some (.raiseTerm (some e')) := by
        simp only [lowerTermNoYield, BlockTerm.mapM, he]
        rfl
      refine ⟨_, hterm, fun st label front => ?_⟩
      simp only [hterm]
      rfl
  | ret value =>
    obtain ⟨v, hv⟩ := withoutYield?_of_free value (h value rfl)
    have hterm : lowerTermNoYield (.ret value) = some (.ret v) := by
      simp only [lowerTermNoYield, BlockTerm.mapM, hv]
      rfl
    refine ⟨_, hterm, fun st label front => ?_⟩
    simp only [hv]
    rfl

/-- **Fragments.** What is explicit is lowered as a program in which yields are statements. -/
theorem lowerCoreResumeFragment_of_explicit {body : List CoreBlockPyExprWithYield}
    {term : BlockTerm CoreBlockPyExprWithYield} (hbody : ∀ stmt ∈ body, Explicit stmt)
    (hterm : ∀ e, term.operand = some e → e.containsYield = false) :
    ∃ stmts t, body.mapM yieldStmt? = some stmts ∧ lowerTermNoYield term = some t ∧
      ∀ st label front, lowerCoreResumeFragment relabel params exc st label front body term =
        some (lowerResumeFragment params exc st label front stmts (yieldTermOf relabel t)) := by
  induction body with
  | nil =>
    obtain ⟨t, ht, h⟩ := lowerCoreResumeTerm_of_free relabel params exc hterm
    exact ⟨[], t, rfl, ht, h⟩
  | cons stmt body ih =>
    obtain ⟨stmts, t, hstmts, ht, hrest⟩ := ih fun s hs => hbody s (List.mem_cons_of_mem _ hs)
    obtain ⟨y, hstmt, hy⟩ :=
      lowersAs_of_explicit relabel params exc (hbody stmt List.mem_cons_self)
    refine ⟨y :: stmts, t, ?_, ht, hy body term stmts (yieldTermOf relabel t) hrest⟩
    rw [List.mapM_cons, hstmt, hstmts]
    rfl

end Fragments

/-! ## The function -/

/-- A block of a callable before generators are lowered. -/
abbrev CoreYieldBlock := Blocks.Block CoreBlockPyExprWithYield CoreBlockPyExprWithYield

section Function

variable {n : ℕ} (relabel : BlockLabel → Fin (n + 1)) (p : Fin (n + 1) → CoreYieldBlock)

/-- The parameters of the blocks that a block becomes. -/
def resumeParams (block : CoreYieldBlock) : List (BlockParam coreLang) :=
  generatorResumeDeclaredParams (block.params.map resumeParam)

def resumeExcTarget (block : CoreYieldBlock) : Option (Fin (n + 1)) :=
  block.excEdge.map fun edge => relabel edge.target

/-- The loop over the blocks of the callable. -/
def lowerCoreBlocks : List (Fin (n + 1)) → ResumeLoweringState coreLang →
    Option (ResumeLoweringState coreLang)
  | [], st => some st
  | l :: ls, st => do
    let st ← lowerCoreResumeFragment relabel (resumeParams (p l))
      ((resumeExcTarget relabel (p l)).map Fin.val) st l [] (p l).body (p l).term
    lowerCoreBlocks ls st

/-- `lower_resume_blocks` -/
def lowerCoreResumeBlocks : Option (List (ResumeBlock coreLang)) := do
  let st ← lowerCoreBlocks relabel p (List.finRange (n + 1)) (.initial n coreLang)
  let targets := dispatchTargets st.resumeTargets (exhaustedLabel n)
  return ⟨st.nextLabel, [], none, [], .dispatch targets (exhaustedLabel n), none⟩ ::
    st.blocks ++ [⟨exhaustedLabel n, [], none, [], .complete .nothing, none⟩]

/-- A block whose statements have their yields apart. -/
structure YieldsApart (block : CoreYieldBlock) (b : YieldBlock n coreLang) : Prop where
  params : b.params = block.params.map resumeParam
  body : block.body.mapM yieldStmt? = some b.body
  term : ∃ t, lowerTermNoYield block.term = some t ∧ b.term = yieldTermOf relabel t
  exc : b.exc = resumeExcTarget relabel block

/-- Explicit blocks are lowered like the program in which their yields are statements. -/
theorem lowerCoreResumeBlocks_of_explicit (h : ∀ l, (p l).Explicit) :
    ∃ q : YieldProgram n coreLang, (∀ l, YieldsApart relabel (p l) (q l)) ∧
      lowerCoreResumeBlocks relabel p = some (lowerResumeBlocks q) := by
  have hfragment := fun l => lowerCoreResumeFragment_of_explicit relabel (resumeParams (p l))
    ((resumeExcTarget relabel (p l)).map Fin.val) (h l).body (h l).term
  choose stmts term hstmts hterm hlower using hfragment
  let q : YieldProgram n coreLang := fun l =>
    ⟨(p l).params.map resumeParam, stmts l, yieldTermOf relabel (term l),
      resumeExcTarget relabel (p l)⟩
  have hblocks : ∀ (ls : List (Fin (n + 1))) (st : ResumeLoweringState coreLang),
      lowerCoreBlocks relabel p ls st = some (lowerBlocks q ls st) := by
    intro ls
    induction ls with
    | nil => exact fun st => rfl
    | cons l ls ih =>
      intro st
      rw [lowerCoreBlocks, hlower l, lowerBlocks]
      exact ih _
  refine ⟨q, fun l => ⟨rfl, hstmts l, ⟨term l, hterm l, rfl⟩, rfl⟩, ?_⟩
  rw [lowerCoreResumeBlocks, hblocks]
  rfl

end Function

/-- **Yields.** After the order of evaluation has been made explicit, a yield is a statement or the
value of a store, and no conversion of the lowering meets another one: it succeeds for every
block, and for the callable as a whole, whose blocks then have their yields apart. -/
theorem makeEvalOrderExplicit_lowers (blocks : List CoreYieldBlock) (counter : ℕ) :
    (∀ block ∈ (Blocks.makeEvalOrderExplicitInCoreCallableDef blocks counter).1,
      block.Explicit ∧ ∀ {n : ℕ} (relabel : BlockLabel → Fin (n + 1))
        (params : List (BlockParam coreLang)) (exc : Option ℕ)
        (st : ResumeLoweringState coreLang) (label : ℕ),
        ∃ st', lowerCoreResumeFragment relabel params exc st label [] block.body block.term =
          some st') ∧
    ∀ {n : ℕ} (relabel : BlockLabel → Fin (n + 1)) (p : Fin (n + 1) → CoreYieldBlock),
      (∀ l, p l ∈ (Blocks.makeEvalOrderExplicitInCoreCallableDef blocks counter).1) →
        ∃ q : YieldProgram n coreLang, (∀ l, YieldsApart relabel (p l) (q l)) ∧
          lowerCoreResumeBlocks relabel p = some (lowerResumeBlocks q) := by
  have hexplicit := Blocks.makeEvalOrderExplicitInCoreCallableDef_explicit blocks counter
  refine ⟨fun block hblock => ⟨hexplicit block hblock, ?_⟩, fun relabel p hp => ?_⟩
  · intro n relabel params exc st label
    obtain ⟨stmts, t, -, -, h⟩ := lowerCoreResumeFragment_of_explicit relabel params exc
      (hexplicit block hblock).body (hexplicit block hblock).term
    exact ⟨_, h st label []⟩
  · exact lowerCoreResumeBlocks_of_explicit relabel p fun l => hexplicit _ (hp l)

/-! ## A call with two yields -/

def named (x : String) : CoreBlockPyExprWithYield := .load (.sourceName x)

/-- `x = f((yield), *(yield from it))`, then `return (yield x)`. -/
def yieldsInCall : List CoreYieldBlock :=
  [⟨0, [.store (.sourceName "x") (.call (named "f")
      (.positional (.yield () (.load (.runtimeName "NONE")))
        (.starred (.yieldFrom () (named "it")) .nil)) .nil)],
    .ret (.yield () (named "x")), [], none⟩]

def yieldsMovedOut : CoreYieldBlock :=
  ⟨0, [.store (.sourceName "_dp_eval_1") (.yield () (.load (.runtimeName "NONE"))),
      .store (.sourceName "_dp_eval_2") (.yieldFrom () (named "it")),
      .store (.sourceName "x") (.call (named "f") (.positional (named "_dp_eval_1")
        (.starred (named "_dp_eval_2") .nil)) .nil),
      .del (.sourceName "_dp_eval_2") false, .del (.sourceName "_dp_eval_1") false,
      .store (.sourceName "_dp_eval_3") (.yield () (named "x"))],
    .ret (named "_dp_eval_3"), [], none⟩

theorem yieldsInCall_lowers :
    (Blocks.makeEvalOrderExplicitInCoreCallableDef yieldsInCall 0).1 = [yieldsMovedOut] ∧
      yieldsMovedOut.Explicit ∧ ∃ q : YieldProgram 0 coreLang,
        (∀ l, YieldsApart (fun _ => (0 : Fin 1)) yieldsMovedOut (q l)) ∧
        lowerCoreResumeBlocks (fun _ => (0 : Fin 1)) (fun _ => yieldsMovedOut) =
          some (lowerResumeBlocks q) := by
  have hblocks : (Blocks.makeEvalOrderExplicitInCoreCallableDef yieldsInCall 0).1 =
      [yieldsMovedOut] := rfl
  have hmem : yieldsMovedOut ∈
      (Blocks.makeEvalOrderExplicitInCoreCallableDef yieldsInCall 0).1 := by
    rw [hblocks]
    exact List.mem_singleton_self _
  obtain ⟨hexplicit, hlowers⟩ := makeEvalOrderExplicit_lowers yieldsInCall 0
  refine ⟨hblocks, (hexplicit _ hmem).1, ?_⟩
  exact hlowers (fun _ => 0) (fun _ => yieldsMovedOut) fun _ => hmem

end DietPython.Generators
