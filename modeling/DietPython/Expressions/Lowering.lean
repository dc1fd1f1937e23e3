import DietPython.Expressions.Core

/-!
# Expression lowering

The expressions of the source, their evaluation as CPython compiles it, and the lowering that hoists
boolean operators, comparison chains, conditional expressions and walruses into setup statements.
Every caller applies `from_lowered_expr` to the residual, so here the lowering returns the core
expression directly; `Expr.fromExpr` is that conversion for a subtree that lowering leaves alone.
Generic operands (attributes, subscripts, calls, displays, operators, suspensions) are lowered from
left to right in place and are one case of the definitions, `Expr.operation`.
-/

namespace DietPython.Expressions

open LoggedComputations

inductive BoolOp
  | and | or
deriving DecidableEq

mutual

inductive Expr (V : Type) : Type
  | literal (c : V)
  | name (n : NodeIndex) (id : Name)
  | operation (n : NodeIndex) (op : Op) (args : Exprs V)
  | starred (n : NodeIndex) (value : Expr V)
  | set (n : NodeIndex) (elts : Exprs V)
  | boolOp (n : NodeIndex) (op : BoolOp) (first second : Expr V) (rest : Exprs V)
  | compare (n : NodeIndex) (left : Expr V) (op : CmpOp) (first : Expr V) (rest : Comparators V)
  | ifExp (n : NodeIndex) (test body orelse : Expr V)
  | named (n : NodeIndex) (id : Name) (value : Expr V)

inductive Exprs (V : Type) : Type
  | nil
  | cons (e : Expr V) (es : Exprs V)

/-- The operators and comparators of a chain after its first comparison. -/
inductive Comparators (V : Type) : Type
  | nil
  | cons (op : CmpOp) (e : Expr V) (rest : Comparators V)

end

variable {V E : Type}

mutual

/-- The nodes of an expression. -/
def Expr.sites : Expr V → List NodeIndex
  | .literal _ => []
  | .name n _ => [n]
  | .operation n _ args => n :: args.sites
  | .starred n value => n :: value.sites
  | .set n elts => n :: elts.sites
  | .boolOp n _ first second rest => n :: (first.sites ++ (second.sites ++ rest.sites))
  | .compare n left _ first rest => n :: (left.sites ++ (first.sites ++ rest.sites))
  | .ifExp n test body orelse => n :: (test.sites ++ (body.sites ++ orelse.sites))
  | .named n _ value => n :: value.sites

def Exprs.sites : Exprs V → List NodeIndex
  | .nil => []
  | .cons e es => e.sites ++ es.sites

def Comparators.sites : Comparators V → List NodeIndex
  | .nil => []
  | .cons _ e rest => e.sites ++ rest.sites

end

/-- An expression of the parser: its nodes have indices of their own. -/
structure ParsedExpr (V : Type) where
  expr : Expr V
  nodup : expr.sites.Nodup

/-! ## Evaluation in Python -/

/-- The truth value with which a boolean operator goes on to its next operand. -/
def BoolOp.goesOn : BoolOp → Bool → Bool
  | .and, b => b
  | .or, b => !b

/-- The operands of a comparison in the order of the core operation. -/
def CmpOp.operands {α : Type} (op : CmpOp) (left right : α) : List α :=
  if op.swapped then [right, left] else [left, right]

def World.compare (w : World V E) (n : NodeIndex) (op : CmpOp) (left right : V) : Run V E V :=
  w.ask (.perform n (.compare op) (op.operands left right))

/-- A value, and its truth where the evaluation has come to know it. -/
abbrev Tested (V : Type) := V × Option Bool

/-- The truth of a value that is not known is asked for. -/
def World.decide (w : World V E) (n : NodeIndex) (r : Tested V) : Run V E Bool :=
  match r.2 with
  | some b => pure b
  | none => w.test n r.1

def Op.negates : Op → Bool
  | .unaryOp .not => true
  | _ => false

/-- An operation on operands, in a condition that `not` negates where `negated` holds: there the
truth of the operand is enough. -/
def World.operateOn (w : World V E) (n : NodeIndex) (op : Op) (negated : Bool)
    (rs : List (Tested V)) : Run V E (Tested V) :=
  match if negated then rs.findSome? Prod.snd else none with
  | some b => pure (w.build op (rs.map Prod.fst), some !b)
  | none => do
      let v ← w.operate n op (rs.map Prod.fst)
      pure (v, none)

mutual

/-- An operand that has decided a boolean operator is not tested by the operator around it. In a
condition the value does not matter, and then a failed comparison has decided its chain too, and
`not` goes to the other branch. -/
def Expr.evalIn (w : World V E) (condition : Bool) : Expr V → Run V E (Tested V)
  | .literal c => pure (c, none)
  | .name n id => do
      let v ← w.ask (.load n id)
      pure (v, none)
  | .operation n op args => do
      let rs ← args.evalIn w (condition && op.negates)
      w.operateOn n op (condition && op.negates) rs
  | .starred n value => do
      let r ← value.evalIn w false
      let v ← w.operate n .unpack [r.1]
      pure (v, none)
  | .set n elts => do
      let rs ← elts.evalIn w false
      let v ← w.operate n .set (rs.map Prod.fst)
      pure (v, none)
  | .boolOp n op first second rest => do
      let r ← first.evalIn w condition
      let b ← w.decide n r
      if op.goesOn b then
        let r' ← second.evalIn w condition
        rest.evalBoolOp w condition n op r'
      else
        pure (r.1, some b)
  | .compare n left op first rest => do
      let r ← left.evalIn w false
      let r' ← first.evalIn w false
      let result ← w.compare n op r.1 r'.1
      rest.evalChain w condition n r'.1 result
  | .ifExp n test body orelse => do
      let r ← test.evalIn w true
      let b ← w.decide n r
      if b then body.evalIn w condition else orelse.evalIn w condition
  | .named n id value => do
      let r ← value.evalIn w false
      let _ ← w.operate n (.store id) [r.1]
      pure (r.1, none)

def Exprs.evalIn (w : World V E) (condition : Bool) : Exprs V → Run V E (List (Tested V))
  | .nil => pure []
  | .cons e es => do
      let r ← e.evalIn w condition
      let rs ← es.evalIn w condition
      pure (r :: rs)

/-- The operands that are left when the last one had the value `r`; the truth of the last operand
is not asked. -/
def Exprs.evalBoolOp (w : World V E) (condition : Bool) (n : NodeIndex) (op : BoolOp) :
    Tested V → Exprs V → Run V E (Tested V)
  | r, .nil => pure r
  | r, .cons e es => do
      let b ← w.decide n r
      if op.goesOn b then
        let r' ← e.evalIn w condition
        es.evalBoolOp w condition n op r'
      else
        pure (r.1, some b)

/-- The comparisons that are left when the last one compared with `v` and gave `result`. -/
def Comparators.evalChain (w : World V E) (condition : Bool) (n : NodeIndex) :
    V → V → Comparators V → Run V E (Tested V)
  | _, result, .nil => pure (result, none)
  | v, result, .cons op e rest => do
      let b ← w.test n result
      if b then
        let r ← e.evalIn w false
        let result' ← w.compare n op v r.1
        rest.evalChain w condition n r.1 result'
      else
        pure (result, if condition then some false else none)

end

def Expr.eval (w : World V E) (e : Expr V) : Run V E V := e.evalIn w false >>= fun r => pure r.1

def Exprs.eval (w : World V E) (es : Exprs V) : Run V E (List V) :=
  es.evalIn w false >>= fun rs => pure (rs.map Prod.fst)

/-! ## Lowering -/

/-- `compare_expr` after `compare_expr_from_ast_with_meta`: a membership test has its operands
swapped. -/
def compareExpr (n : NodeIndex) (op : CmpOp) (left right : Core V) : Core V :=
  .operation n (.compare op)
    (if op.swapped then .cons right (.cons left .nil) else .cons left (.cons right .nil))

mutual

/-- The conversion of an expression that was not lowered; boolean operators, chains, conditional
expressions and walruses stop the compiler ("unexpected expr reached late core BlockPy"). -/
def Expr.fromExpr : Expr V → Option (Core V)
  | .literal c => some (.literal c)
  | .name n id => some (.load n id)
  | .operation n op args => args.fromExprs.map (.operation n op)
  | .starred n value => value.fromExpr.map fun r => .operation n .unpack (.cons r .nil)
  | .set n elts => elts.fromExprs.map (.operation n .set)
  | .boolOp _ _ _ _ _ | .ifExp _ _ _ _ | .named _ _ _ => none
  | .compare n left op first .nil => do
      let l ← left.fromExpr
      let r ← first.fromExpr
      some (compareExpr n op l r)
  | .compare _ _ _ _ (.cons _ _ _) => none

def Exprs.fromExprs : Exprs V → Option (Cores V)
  | .nil => some .nil
  | .cons e es => do
      let r ← e.fromExpr
      let rs ← es.fromExprs
      some (.cons r rs)

end

/-- One more operand of a boolean operator: `if target` or `if not target` around its setup and the
store of its residual. -/
def boolOpStep (n : NodeIndex) (op : BoolOp) (s : Setup V) (r : Core V)
    (next : Setup V) : Setup V :=
  .branch n (op == .or) (.temp (.target n)) (s ++ .assign (.target n) r .done) .done next

mutual

/-- `lower_expr_ast_recursive`: the setup statements and the residual. -/
def Expr.lower : Expr V → Option (Setup V × Core V)
  | .literal c => some (.done, .literal c)
  | .name n id => some (.done, .load n id)
  | .operation n op args => do
      let (s, rs) ← args.lower
      some (s, .operation n op rs)
  | .starred n value => do
      let (s, r) ← value.lower
      some (s, .operation n .unpack (.cons r .nil))
  | .set n elts => do
      let (s, rs) ← elts.lowerSet
      some (s, .operation n .set rs)
  -- lower_boolop_into
  | .boolOp n op first second rest => do
      let (s, r) ← first.lower
      let (s', r') ← second.lower
      let steps ← rest.lowerBoolOp n op
      some (s ++ .assign (.target n) r (boolOpStep n op s' r' steps), .temp (.target n))
  -- lower_compare_into
  | .compare n left op first .nil => do
      let (s, l) ← left.lower
      let (s', r) ← first.lower
      some (s ++ s', compareExpr n op l r)
  | .compare n left op first (.cons op' second rest) => do
      let (s, l) ← left.lower
      let (s', r) ← first.lower
      let (s'', r') ← second.lower
      let steps ← rest.lowerChain n op' 2 s'' r'
      some (s ++ .assign (.compare n 0) l (s' ++ .assign (.compare n 1) r
          (.assign (.target n) (compareExpr n op (.temp (.compare n 0)) (.temp (.compare n 1)))
            steps)),
        .temp (.target n))
  -- lower_if_expr_into
  | .ifExp n test body orelse => do
      let (s, r) ← test.lower
      let (s', r') ← body.lower
      let (s'', r'') ← orelse.lower
      some (s ++ .branch n false r (s' ++ .assign (.tmp n) r' .done)
          (s'' ++ .assign (.tmp n) r'' .done) .done,
        .temp (.tmp n))
  -- lower_named_expr_into
  | .named n id value => do
      let (s, r) ← value.lower
      some (s ++ .instr (.operation n (.store id) (.cons r .nil)) .done, .load n id)

/-- Operands that are lowered in place. -/
def Exprs.lower : Exprs V → Option (Setup V × Cores V)
  | .nil => some (.done, .nil)
  | .cons e es => do
      let (s, r) ← e.lower
      let (s', rs) ← es.lower
      some (s ++ s', .cons r rs)

/-- The elements of a set display; a starred element falls through the recursion unchanged. -/
def Exprs.lowerSet : Exprs V → Option (Setup V × Cores V)
  | .nil => some (.done, .nil)
  | .cons (.starred n value) es => do
      let r ← value.fromExpr
      let (s', rs) ← es.lowerSet
      some (s', .cons (.operation n .unpack (.cons r .nil)) rs)
  | .cons e es => do
      let (s, r) ← e.lower
      let (s', rs) ← es.lowerSet
      some (s ++ s', .cons r rs)

def Exprs.lowerBoolOp (n : NodeIndex) (op : BoolOp) : Exprs V → Option (Setup V)
  | .nil => some .done
  | .cons e es => do
      let (s, r) ← e.lower
      let steps ← es.lowerBoolOp n op
      some (boolOpStep n op s r steps)

/-- The step of a chain whose comparator was lowered to `s` and `r`, and the steps after it. Its
left operand is the setup name before `i`; only a comparator that is compared again is stored. -/
def Comparators.lowerChain (n : NodeIndex) (op : CmpOp) (i : Nat) (s : Setup V) (r : Core V) :
    Comparators V → Option (Setup V)
  | .nil =>
      some (.branch n false (.temp (.target n))
        (s ++ .assign (.target n) (compareExpr n op (.temp (.compare n (i - 1))) r) .done)
        .done .done)
  | .cons op' e rest => do
      let (s', r') ← e.lower
      let steps ← rest.lowerChain n op' (i + 1) s' r'
      some (.branch n false (.temp (.target n))
        (s ++ .assign (.compare n i) r (.assign (.target n)
          (compareExpr n op (.temp (.compare n (i - 1))) (.temp (.compare n i))) .done))
        .done steps)

end

/-- Running the lowered expression: its setup, then its residual. -/
def Expr.runLowered (w : World V E) (σ : Temps V) (e : Expr V) : Run V E V :=
  match e.lower with
  | some (s, r) => s.exec w σ >>= fun σ' => r.eval w σ'
  | none => Logged.raise .lowering

end DietPython.Expressions
