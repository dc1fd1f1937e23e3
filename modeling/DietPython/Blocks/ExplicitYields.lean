import DietPython.Blocks.Instr
import DietPython.Lib.StateInvariants

/-!
# Yields made explicit

`make_eval_order_explicit` moves every yield that is inside another instruction into a store to a
new name in front of it. What is left is explicit: a yield is a whole instruction or the value of a
store, and there is none in what it yields or in a terminator.
-/

namespace DietPython.Blocks

open StateInvariants

/-! ## Yields in an instruction -/

section ContainsYield

variable {Y L N : Type}

mutual

/-- `expr_contains_yield` -/
def Instr.containsYield : Instr Y L N → Bool
  | .literal _ _ | .load _ | .del _ _ | .cellRefForName _ _ | .cellRef _ => false
  | .binOp _ left right => left.containsYield || right.containsYield
  | .unaryOp _ operand => operand.containsYield
  | .call func args keywords =>
    func.containsYield || (args.containsYield || keywords.containsYield)
  | .getAttr value attr => value.containsYield || attr.containsYield
  | .setAttr value attr replacement =>
    value.containsYield || (attr.containsYield || replacement.containsYield)
  | .getItem value index => value.containsYield || index.containsYield
  | .setItem value index replacement =>
    value.containsYield || (index.containsYield || replacement.containsYield)
  | .delItem value index => value.containsYield || index.containsYield
  | .store _ value => value.containsYield
  | .makeCell initialValue => initialValue.containsYield
  | .makeFunction _ _ paramDefaults annotateFn =>
    paramDefaults.containsYield || annotateFn.containsYield
  | .yield _ _ | .yieldFrom _ _ => true

def Args.containsYield : Args Y L N → Bool
  | .nil => false
  | .positional value rest | .starred value rest => value.containsYield || rest.containsYield

def Keywords.containsYield : Keywords Y L N → Bool
  | .nil => false
  | .named _ value rest | .starred value rest => value.containsYield || rest.containsYield

end

end ContainsYield

/-! ## The pass -/

/-- The instructions in front, the names to delete afterwards, and how many names there are. -/
structure Hoisting where
  out : List CoreBlockPyExprWithYield
  cleanup : List UnresolvedName
  counter : ℕ

namespace Hoisting

/-- `fresh_eval_name` -/
def freshEvalName : StateM Hoisting UnresolvedName := fun s =>
  (.sourceName s!"_dp_eval_{s.counter + 1}", { s with counter := s.counter + 1 })

/-- Stores a value in front, in a name that is deleted afterwards. -/
def storeFirst (target : UnresolvedName) (value : CoreBlockPyExprWithYield) :
    StateM Hoisting Unit :=
  modify fun s => { s with
    out := s.out ++ [.store target value]
    cleanup := s.cleanup ++ [target] }

/-- What `hoist_core_expr_if_contains_yield` does after the recursive call. -/
def intoName (expr : CoreBlockPyExprWithYield) : StateM Hoisting CoreBlockPyExprWithYield :=
  if expr.containsYield then do
    let target ← freshEvalName
    storeFirst target expr
    return .load target
  else pure expr

end Hoisting

mutual

/-- `make_eval_order_explicit_in_core_expr` -/
def Instr.makeEvalOrderExplicit :
    CoreBlockPyExprWithYield → StateM Hoisting CoreBlockPyExprWithYield
  | .literal may literal => pure (.literal may literal)
  | .binOp kind left right => do
    return .binOp kind (← left.makeEvalOrderExplicit >>= Hoisting.intoName)
      (← right.makeEvalOrderExplicit >>= Hoisting.intoName)
  | .unaryOp kind operand => do
    return .unaryOp kind (← operand.makeEvalOrderExplicit >>= Hoisting.intoName)
  | .call func args keywords => do
    return .call (← func.makeEvalOrderExplicit >>= Hoisting.intoName) (← args.hoist)
      (← keywords.hoist)
  | .getAttr value attr => do
    return .getAttr (← value.makeEvalOrderExplicit >>= Hoisting.intoName)
      (← attr.makeEvalOrderExplicit >>= Hoisting.intoName)
  | .setAttr value attr replacement => do
    return .setAttr (← value.makeEvalOrderExplicit >>= Hoisting.intoName)
      (← attr.makeEvalOrderExplicit >>= Hoisting.intoName)
      (← replacement.makeEvalOrderExplicit >>= Hoisting.intoName)
  | .getItem value index => do
    return .getItem (← value.makeEvalOrderExplicit >>= Hoisting.intoName)
      (← index.makeEvalOrderExplicit >>= Hoisting.intoName)
  | .setItem value index replacement => do
    return .setItem (← value.makeEvalOrderExplicit >>= Hoisting.intoName)
      (← index.makeEvalOrderExplicit >>= Hoisting.intoName)
      (← replacement.makeEvalOrderExplicit >>= Hoisting.intoName)
  | .delItem value index => do
    return .delItem (← value.makeEvalOrderExplicit >>= Hoisting.intoName)
      (← index.makeEvalOrderExplicit >>= Hoisting.intoName)
  | .load name => pure (.load name)
  | .store name value => do
    return .store name (← value.makeEvalOrderExplicit >>= Hoisting.intoName)
  | .del name quietly => pure (.del name quietly)
  | .makeCell initialValue => do
    return .makeCell (← initialValue.makeEvalOrderExplicit >>= Hoisting.intoName)
  | .cellRefForName may logicalName => pure (.cellRefForName may logicalName)
  | .cellRef location => pure (.cellRef location)
  | .makeFunction functionId kind paramDefaults annotateFn => do
    return .makeFunction functionId kind
      (← paramDefaults.makeEvalOrderExplicit >>= Hoisting.intoName)
      (← annotateFn.makeEvalOrderExplicit >>= Hoisting.intoName)
  | .yield may value => do
    return .yield may (← value.makeEvalOrderExplicit >>= Hoisting.intoName)
  | .yieldFrom may value => do
    return .yieldFrom may (← value.makeEvalOrderExplicit >>= Hoisting.intoName)

def Args.hoist : Args Unit Unit UnresolvedName → StateM Hoisting (Args Unit Unit UnresolvedName)
  | .nil => pure .nil
  | .positional value rest => do
    return .positional (← value.makeEvalOrderExplicit >>= Hoisting.intoName) (← rest.hoist)
  | .starred value rest => do
    return .starred (← value.makeEvalOrderExplicit >>= Hoisting.intoName) (← rest.hoist)

def Keywords.hoist :
    Keywords Unit Unit UnresolvedName → StateM Hoisting (Keywords Unit Unit UnresolvedName)
  | .nil => pure .nil
  | .named arg value rest => do
    return .named arg (← value.makeEvalOrderExplicit >>= Hoisting.intoName) (← rest.hoist)
  | .starred value rest => do
    return .starred (← value.makeEvalOrderExplicit >>= Hoisting.intoName) (← rest.hoist)

end

/-- `hoist_core_expr_if_contains_yield` -/
def hoistCoreExprIfContainsYield (expr : CoreBlockPyExprWithYield) :
    StateM Hoisting CoreBlockPyExprWithYield :=
  expr.makeEvalOrderExplicit >>= Hoisting.intoName

/-- `append_stmt_cleanup`: the names are deleted in reverse. -/
def stmtCleanup (cleanup : List UnresolvedName) : List CoreBlockPyExprWithYield :=
  cleanup.reverse.map fun temp => .del temp false

/-- One instruction of a body. -/
def explicitStmt (expr : CoreBlockPyExprWithYield) (counter : ℕ) :
    List CoreBlockPyExprWithYield × ℕ :=
  if expr.containsYield then
    let r := expr.makeEvalOrderExplicit.run ⟨[], [], counter⟩
    (r.2.out ++ r.1 :: stmtCleanup r.2.cleanup, r.2.counter)
  else ([expr], counter)

def explicitBody : List CoreBlockPyExprWithYield → ℕ → List CoreBlockPyExprWithYield × ℕ
  | [], counter => ([], counter)
  | expr :: body, counter =>
    let stmt := explicitStmt expr counter
    let rest := explicitBody body stmt.2
    (stmt.1 ++ rest.1, rest.2)

/-- A block. What is stored for the terminator is not deleted. -/
def explicitBlock (block : Block CoreBlockPyExprWithYield CoreBlockPyExprWithYield) (counter : ℕ) :
    Block CoreBlockPyExprWithYield CoreBlockPyExprWithYield × ℕ :=
  let body := explicitBody block.body counter
  let r := (block.term.mapM hoistCoreExprIfContainsYield).run ⟨body.1, [], body.2⟩
  ({ block with body := r.2.out, term := r.1 }, r.2.counter)

/-- `make_eval_order_explicit_in_core_callable_def` -/
def makeEvalOrderExplicitInCoreCallableDef :
    List (Block CoreBlockPyExprWithYield CoreBlockPyExprWithYield) → ℕ →
      List (Block CoreBlockPyExprWithYield CoreBlockPyExprWithYield) × ℕ
  | [], counter => ([], counter)
  | block :: blocks, counter =>
    let b := explicitBlock block counter
    let rest := makeEvalOrderExplicitInCoreCallableDef blocks b.2
    (b.1 :: rest.1, rest.2)

/-! ## What is left -/

/-- A yield of something without yields. -/
inductive IsYield : CoreBlockPyExprWithYield → Prop
  | yield (may : Unit) {value : CoreBlockPyExprWithYield} (h : value.containsYield = false) :
    IsYield (.yield may value)
  | yieldFrom (may : Unit) {value : CoreBlockPyExprWithYield} (h : value.containsYield = false) :
    IsYield (.yieldFrom may value)

/-- A yield is the whole instruction, or the value of a store. -/
inductive Explicit : CoreBlockPyExprWithYield → Prop
  | free {expr : CoreBlockPyExprWithYield} (h : expr.containsYield = false) : Explicit expr
  | yields {expr : CoreBlockPyExprWithYield} (h : IsYield expr) : Explicit expr
  | stores (name : UnresolvedName) {value : CoreBlockPyExprWithYield} (h : IsYield value) :
    Explicit (.store name value)

/-- All instructions in front are explicit. -/
def Hoisting.AllExplicit (s : Hoisting) : Prop := ∀ stmt ∈ s.out, Explicit stmt

/-- A yield is outermost, and there is none in what it yields. -/
def Outermost (expr : CoreBlockPyExprWithYield) : Prop :=
  expr.containsYield = false ∨ IsYield expr

theorem Outermost.explicit {expr : CoreBlockPyExprWithYield} (h : Outermost expr) :
    Explicit expr := by
  rcases h with h | h
  · exact .free h
  · exact .yields h

namespace Hoisting

/-- What goes into a name is stored in front, and the load of the name has no yield. -/
theorem intoName_keeps {expr : CoreBlockPyExprWithYield} (h : Outermost expr) :
    Keeps AllExplicit (fun r => r.containsYield = false) (intoName expr) := by
  unfold intoName
  by_cases hyield : expr.containsYield = true
  · have hisYield : IsYield expr := by
      rcases h with h | h
      · rw [hyield] at h
        cases h
      · exact h
    rw [if_pos hyield]
    refine Keeps.bind (P := fun _ => True) (fun s hs => ⟨trivial, hs⟩) fun target _ => ?_
    refine Keeps.bind (P := fun _ => True) (fun s hs => ⟨trivial, ?_⟩) fun _ _ => Keeps.pure rfl
    intro stmt hstmt
    rcases List.mem_append.mp hstmt with hstmt | hstmt
    · exact hs stmt hstmt
    · rw [List.mem_singleton.mp hstmt]
      exact .stores target hisYield
  · rw [if_neg hyield]
    exact Keeps.pure (Bool.eq_false_iff.mpr hyield)

theorem hoist_keeps {x : StateM Hoisting CoreBlockPyExprWithYield}
    (h : Keeps AllExplicit Outermost x) :
    Keeps AllExplicit (fun r => r.containsYield = false) (x >>= intoName) :=
  h.bind fun _ hr => intoName_keeps hr

end Hoisting

section Keeps

open Hoisting

mutual

/-- **One instruction.** What is stored in front is explicit, and so is what is left. -/
theorem Instr.makeEvalOrderExplicit_keeps :
    ∀ expr : CoreBlockPyExprWithYield, Keeps AllExplicit Outermost expr.makeEvalOrderExplicit
  | .literal _ _ | .load _ | .del _ _ | .cellRefForName _ _ | .cellRef _ => Keeps.pure (.inl rfl)
  | .binOp kind left right => by
    rw [Instr.makeEvalOrderExplicit]
    refine (hoist_keeps left.makeEvalOrderExplicit_keeps).bind fun l hl => ?_
    refine (hoist_keeps right.makeEvalOrderExplicit_keeps).bind fun r hr => .pure (.inl ?_)
    simp [Instr.containsYield, hl, hr]
  | .unaryOp kind operand => by
    rw [Instr.makeEvalOrderExplicit]
    exact (hoist_keeps operand.makeEvalOrderExplicit_keeps).bind fun r hr => .pure (.inl hr)
  | .call func args keywords => by
    rw [Instr.makeEvalOrderExplicit]
    refine (hoist_keeps func.makeEvalOrderExplicit_keeps).bind fun f hf => ?_
    refine args.hoist_keeps.bind fun as has => ?_
    refine keywords.hoist_keeps.bind fun ks hks => .pure (.inl ?_)
    simp [Instr.containsYield, hf, has, hks]
  | .getAttr value attr => by
    rw [Instr.makeEvalOrderExplicit]
    refine (hoist_keeps value.makeEvalOrderExplicit_keeps).bind fun v hv => ?_
    refine (hoist_keeps attr.makeEvalOrderExplicit_keeps).bind fun a ha => .pure (.inl ?_)
    simp [Instr.containsYield, hv, ha]
  | .setAttr value attr replacement => by
    rw [Instr.makeEvalOrderExplicit]
    refine (hoist_keeps value.makeEvalOrderExplicit_keeps).bind fun v hv => ?_
    refine (hoist_keeps attr.makeEvalOrderExplicit_keeps).bind fun a ha => ?_
    refine (hoist_keeps replacement.makeEvalOrderExplicit_keeps).bind fun r hr => .pure (.inl ?_)
    simp [Instr.containsYield, hv, ha, hr]
  | .getItem value index => by
    rw [Instr.makeEvalOrderExplicit]
    refine (hoist_keeps value.makeEvalOrderExplicit_keeps).bind fun v hv => ?_
    refine (hoist_keeps index.makeEvalOrderExplicit_keeps).bind fun i hi => .pure (.inl ?_)
    simp [Instr.containsYield, hv, hi]
  | .setItem value index replacement => by
    rw [Instr.makeEvalOrderExplicit]
    refine (hoist_keeps value.makeEvalOrderExplicit_keeps).bind fun v hv => ?_
    refine (hoist_keeps index.makeEvalOrderExplicit_keeps).bind fun i hi => ?_
    refine (hoist_keeps replacement.makeEvalOrderExplicit_keeps).bind fun r hr => .pure (.inl ?_)
    simp [Instr.containsYield, hv, hi, hr]
  | .delItem value index => by
    rw [Instr.makeEvalOrderExplicit]
    refine (hoist_keeps value.makeEvalOrderExplicit_keeps).bind fun v hv => ?_
    refine (hoist_keeps index.makeEvalOrderExplicit_keeps).bind fun i hi => .pure (.inl ?_)
    simp [Instr.containsYield, hv, hi]
  | .store name value => by
    rw [Instr.makeEvalOrderExplicit]
    exact (hoist_keeps value.makeEvalOrderExplicit_keeps).bind fun v hv => .pure (.inl hv)
  | .makeCell initialValue => by
    rw [Instr.makeEvalOrderExplicit]
    exact (hoist_keeps initialValue.makeEvalOrderExplicit_keeps).bind fun v hv => .pure (.inl hv)
  | .makeFunction functionId kind paramDefaults annotateFn => by
    rw [Instr.makeEvalOrderExplicit]
    refine (hoist_keeps paramDefaults.makeEvalOrderExplicit_keeps).bind fun d hd => ?_
    refine (hoist_keeps annotateFn.makeEvalOrderExplicit_keeps).bind fun a ha => .pure (.inl ?_)
    simp [Instr.containsYield, hd, ha]
  | .yield may value => by
    rw [Instr.makeEvalOrderExplicit]
    exact (hoist_keeps value.makeEvalOrderExplicit_keeps).bind fun v hv =>
      .pure (.inr (.yield may hv))
  | .yieldFrom may value => by
    rw [Instr.makeEvalOrderExplicit]
    exact (hoist_keeps value.makeEvalOrderExplicit_keeps).bind fun v hv =>
      .pure (.inr (.yieldFrom may hv))

theorem Args.hoist_keeps : ∀ args : Args Unit Unit UnresolvedName,
    Keeps AllExplicit (fun r => r.containsYield = false) args.hoist
  | .nil => Keeps.pure rfl
  | .positional value rest | .starred value rest => by
    rw [Args.hoist]
    refine (Hoisting.hoist_keeps value.makeEvalOrderExplicit_keeps).bind fun v hv => ?_
    refine rest.hoist_keeps.bind fun r hr => .pure ?_
    simp [Args.containsYield, hv, hr]

theorem Keywords.hoist_keeps : ∀ keywords : Keywords Unit Unit UnresolvedName,
    Keeps AllExplicit (fun r => r.containsYield = false) keywords.hoist
  | .nil => Keeps.pure rfl
  | .named _ value rest | .starred value rest => by
    rw [Keywords.hoist]
    refine (Hoisting.hoist_keeps value.makeEvalOrderExplicit_keeps).bind fun v hv => ?_
    refine rest.hoist_keeps.bind fun r hr => .pure ?_
    simp [Keywords.containsYield, hv, hr]

end

theorem hoistCoreExprIfContainsYield_keeps (expr : CoreBlockPyExprWithYield) :
    Keeps AllExplicit (fun r => r.containsYield = false) (hoistCoreExprIfContainsYield expr) :=
  hoist_keeps expr.makeEvalOrderExplicit_keeps

end Keeps

/-! ## Blocks -/

theorem explicitStmt_explicit (expr : CoreBlockPyExprWithYield) (counter : ℕ) :
    ∀ stmt ∈ (explicitStmt expr counter).1, Explicit stmt := by
  intro stmt hstmt
  unfold explicitStmt at hstmt
  by_cases hyield : expr.containsYield = true
  · rw [if_pos hyield] at hstmt
    obtain ⟨hresult, hout⟩ := expr.makeEvalOrderExplicit_keeps ⟨[], [], counter⟩
      fun stmt h => by cases h
    rcases List.mem_append.mp hstmt with hstmt | hstmt
    · exact hout stmt hstmt
    · rcases List.mem_cons.mp hstmt with rfl | hstmt
      · exact hresult.explicit
      · obtain ⟨temp, -, rfl⟩ := List.mem_map.mp hstmt
        exact .free rfl
  · rw [if_neg hyield] at hstmt
    rw [List.mem_singleton.mp hstmt]
    exact .free (Bool.eq_false_iff.mpr hyield)

theorem explicitBody_explicit (body : List CoreBlockPyExprWithYield) (counter : ℕ) :
    ∀ stmt ∈ (explicitBody body counter).1, Explicit stmt := by
  induction body generalizing counter with
  | nil => exact fun stmt h => by cases h
  | cons expr body ih =>
    intro stmt hstmt
    rw [explicitBody] at hstmt
    rcases List.mem_append.mp hstmt with hstmt | hstmt
    · exact explicitStmt_explicit expr counter stmt hstmt
    · exact ih _ stmt hstmt

theorem hoistTerm_keeps (term : BlockTerm CoreBlockPyExprWithYield) :
    Keeps Hoisting.AllExplicit (fun r => ∀ e, r.operand = some e → e.containsYield = false)
      (term.mapM hoistCoreExprIfContainsYield) := by
  cases term with
  | jump edge => exact Keeps.pure fun e h => by cases h
  | ifTerm test thenLabel elseLabel =>
    refine (hoistCoreExprIfContainsYield_keeps test).bind fun r hr => Keeps.pure fun e h => ?_
    obtain rfl := Option.some.inj h
    exact hr
  | branchTable index targets defaultLabel =>
    refine (hoistCoreExprIfContainsYield_keeps index).bind fun r hr => Keeps.pure fun e h => ?_
    obtain rfl := Option.some.inj h
    exact hr
  | raiseTerm exc =>
    cases exc with
    | none => exact Keeps.pure fun e h => by cases h
    | some exc =>
      refine (hoistCoreExprIfContainsYield_keeps exc).bind fun r hr => Keeps.pure fun e h => ?_
      obtain rfl := Option.some.inj h
      exact hr
  | ret value =>
    refine (hoistCoreExprIfContainsYield_keeps value).bind fun r hr => Keeps.pure fun e h => ?_
    obtain rfl := Option.some.inj h
    exact hr

/-- Every yield of a block is explicit, and none is in the terminator. -/
structure Block.Explicit (block : Block CoreBlockPyExprWithYield CoreBlockPyExprWithYield) :
    Prop where
  body : ∀ stmt ∈ block.body, DietPython.Blocks.Explicit stmt
  term : ∀ e, block.term.operand = some e → e.containsYield = false

theorem explicitBlock_explicit (block : Block CoreBlockPyExprWithYield CoreBlockPyExprWithYield)
    (counter : ℕ) : (explicitBlock block counter).1.Explicit := by
  obtain ⟨hterm, hbody⟩ := hoistTerm_keeps block.term
    ⟨(explicitBody block.body counter).1, [], (explicitBody block.body counter).2⟩
    (explicitBody_explicit block.body counter)
  exact ⟨hbody, hterm⟩

theorem makeEvalOrderExplicitInCoreCallableDef_explicit
    (blocks : List (Block CoreBlockPyExprWithYield CoreBlockPyExprWithYield)) (counter : ℕ) :
    ∀ block ∈ (makeEvalOrderExplicitInCoreCallableDef blocks counter).1, block.Explicit := by
  induction blocks generalizing counter with
  | nil => exact fun block h => by cases h
  | cons b blocks ih =>
    intro block hblock
    rw [makeEvalOrderExplicitInCoreCallableDef] at hblock
    rcases List.mem_cons.mp hblock with rfl | hblock
    · exact explicitBlock_explicit b counter
    · exact ih _ block hblock

end DietPython.Blocks
