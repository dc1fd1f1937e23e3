import DietPython.Expressions.Hoisting

/-!
# Conditions

Python tests no value a second time whose truth a condition has told. `decides` says from the shape
of an expression whether its evaluation may end in that way. Where it does not, an expression is
evaluated alike as a condition and for its value.
-/

namespace DietPython.Expressions

open LoggedComputations Logged

variable {V E : Type}

mutual

/-- The evaluation may end with the truth of the value known. -/
def Expr.decides (condition : Bool) : Expr V → Bool
  | .literal _ | .name _ _ | .starred _ _ | .set _ _ | .named _ _ _ => false
  | .operation _ op args => (condition && op.negates) && args.decides (condition && op.negates)
  | .boolOp _ _ _ _ _ => true
  | .compare _ _ _ _ .nil => false
  | .compare _ _ _ _ (.cons _ _ _) => condition
  | .ifExp _ _ body orelse => body.decides condition || orelse.decides condition

def Exprs.decides (condition : Bool) : Exprs V → Bool
  | .nil => false
  | .cons e es => e.decides condition || es.decides condition

end

/-! ## Evaluation for the value -/

section Eval

variable (w : World V E)

@[simp] theorem decide_none (n : NodeIndex) (v : V) : w.decide n (v, none) = w.test n v := rfl

theorem operateOn_false (n : NodeIndex) (op : Op) (rs : List (Tested V)) :
    w.operateOn n op false rs =
      w.operate n op (rs.map Prod.fst) >>= fun v => pure (v, none) := rfl

theorem eval_literal (c : V) : (Expr.literal c).eval w = pure c := rfl

theorem eval_name (n : NodeIndex) (id : Name) :
    (Expr.name n id : Expr V).eval w = w.ask (.load n id) := by
  simp only [Expr.eval, Expr.evalIn, bind_assoc, pure_bind, bind_pure]

theorem evalAll_cons (e : Expr V) (es : Exprs V) :
    (Exprs.cons e es).eval w = e.eval w >>= fun v => es.eval w >>= fun vs => pure (v :: vs) := by
  simp only [Expr.eval, Exprs.eval, Exprs.evalIn, bind_assoc, pure_bind, List.map_cons]

theorem eval_operation (n : NodeIndex) (op : Op) (args : Exprs V) :
    (Expr.operation n op args).eval w = args.eval w >>= w.operate n op := by
  simp only [Expr.eval, Exprs.eval, Expr.evalIn, Bool.false_and, operateOn_false, bind_assoc,
    pure_bind, bind_pure]

theorem eval_starred (n : NodeIndex) (value : Expr V) :
    (Expr.starred n value).eval w = value.eval w >>= fun v => w.operate n .unpack [v] := by
  simp only [Expr.eval, Expr.evalIn, bind_assoc, pure_bind, bind_pure]

theorem eval_set (n : NodeIndex) (elts : Exprs V) :
    (Expr.set n elts).eval w = elts.eval w >>= w.operate n .set := by
  simp only [Expr.eval, Exprs.eval, Expr.evalIn, bind_assoc, pure_bind, bind_pure]

theorem eval_compare (n : NodeIndex) (left : Expr V) (op : CmpOp) (first : Expr V) :
    (Expr.compare n left op first .nil).eval w =
      left.eval w >>= fun v => first.eval w >>= w.compare n op v := by
  simp only [Expr.eval, Expr.evalIn, Comparators.evalChain, bind_assoc, pure_bind, bind_pure]

theorem eval_chain (n : NodeIndex) (left : Expr V) (op : CmpOp) (first : Expr V) (op' : CmpOp)
    (second : Expr V) :
    (Expr.compare n left op first (.cons op' second .nil)).eval w =
      left.eval w >>= fun v => first.eval w >>= fun v' => w.compare n op v v' >>= fun result =>
        w.test n result >>= fun b =>
          if b then second.eval w >>= fun v'' => w.compare n op' v' v'' else pure result := by
  simp only [Expr.eval, Expr.evalIn, Comparators.evalChain, bind_assoc, pure_bind]
  refine bind_congr fun r => bind_congr fun r' => bind_congr fun result => bind_congr fun b => ?_
  cases b <;> simp only [bind_assoc, pure_bind, bind_pure, if_true, if_false, Bool.false_eq_true]

end Eval

/-! ## Expressions that decide nothing -/

section Decides

variable (w : World V E)

/-- Nothing is known of the value. -/
theorem evalChain_eq (n : NodeIndex) : ∀ (v result : V) (rest : Comparators V),
    rest.evalChain w false n v result =
      rest.evalChain w false n v result >>= fun r => pure (r.1, none)
  | _, _, .nil => by rw [Comparators.evalChain, pure_bind]
  | v, result, .cons op e rest => by
    simp only [Comparators.evalChain, bind_assoc]
    refine bind_congr fun b => ?_
    cases b with
    | false => simp only [Bool.false_eq_true, if_false, pure_bind]
    | true =>
      simp only [if_true, bind_assoc]
      exact bind_congr fun r => bind_congr fun result' => evalChain_eq n r.1 result' rest

theorem findSome?_none (vs : List V) :
    (vs.map fun v => ((v, none) : Tested V)).findSome? Prod.snd = none := by
  induction vs with
  | nil => rfl
  | cons v vs ih => exact ih

mutual

/-- An expression that decides nothing is evaluated for its value. -/
theorem evalIn_eq : ∀ (condition : Bool) (e : Expr V), e.decides condition = false →
    e.evalIn w condition = e.eval w >>= fun v => pure (v, none)
  | condition, .literal c, _ => by rw [eval_literal, pure_bind]; rfl
  | condition, .name n id, _ => by rw [eval_name, Expr.evalIn]
  | condition, .operation n op args, h => by
    rw [eval_operation, Expr.evalIn, bind_assoc]
    cases hnegated : condition && op.negates with
    | false => simp only [Exprs.eval, bind_assoc, pure_bind, operateOn_false]
    | true =>
      rw [Expr.decides, hnegated, Bool.true_and] at h
      rw [evalInAll_eq true args h, bind_assoc]
      refine bind_congr fun vs => ?_
      have hvalues : (vs.map fun v => ((v, none) : Tested V)).map Prod.fst = vs := by
        simp only [List.map_map, Function.comp_def, List.map_id']
      simp only [pure_bind, World.operateOn, if_true, findSome?_none, hvalues]
  | condition, .starred n value, _ => by
    simp only [Expr.evalIn, Expr.eval, bind_assoc, pure_bind]
  | condition, .set n elts, _ => by
    simp only [eval_set, Expr.evalIn, Exprs.eval, bind_assoc, pure_bind]
  | condition, .compare n left op first .nil, _ => by
    simp only [Expr.evalIn, Comparators.evalChain, Expr.eval, bind_assoc, pure_bind]
  | condition, .compare n left op first (.cons op' second rest), h => by
    obtain rfl : condition = false := h
    simp only [Expr.eval, Expr.evalIn, bind_assoc, pure_bind]
    exact bind_congr fun r => bind_congr fun r' => bind_congr fun result =>
      evalChain_eq w n r'.1 result _
  | condition, .ifExp n test body orelse, h => by
    obtain ⟨hbody, horelse⟩ := Bool.or_eq_false_iff.mp h
    have ihbody := evalIn_eq condition body hbody
    have ihorelse := evalIn_eq condition orelse horelse
    rw [Expr.eval] at ihbody ihorelse
    simp only [Expr.eval, Expr.evalIn, bind_assoc, pure_bind] at ihbody ihorelse ⊢
    refine bind_congr fun r => bind_congr fun b => ?_
    cases b with
    | false => exact ihorelse
    | true => exact ihbody
  | condition, .named n id value, _ => by
    simp only [Expr.eval, Expr.evalIn, bind_assoc, pure_bind]

theorem evalInAll_eq : ∀ (condition : Bool) (es : Exprs V), es.decides condition = false →
    es.evalIn w condition = es.eval w >>= fun vs => pure (vs.map fun v => (v, none))
  | condition, .nil, _ => (pure_bind _ _).symm
  | condition, .cons e es, h => by
    obtain ⟨he, hes⟩ := Bool.or_eq_false_iff.mp h
    rw [evalAll_cons, Exprs.evalIn, evalIn_eq condition e he, evalInAll_eq condition es hes]
    simp only [bind_assoc, pure_bind, List.map_cons]

end

end Decides

/-- What decides nothing in a condition decides nothing elsewhere. -/
theorem decides_false_of_true : ∀ e : Expr V, e.decides true = false → e.decides false = false
  | .literal _, _ | .name _ _, _ | .operation _ _ _, _ | .starred _ _, _ | .set _ _, _
  | .named _ _ _, _ | .compare _ _ _ _ .nil, _ | .compare _ _ _ _ (.cons _ _ _), _ => rfl
  | .ifExp _ _ body orelse, h => by
    obtain ⟨hbody, horelse⟩ := Bool.or_eq_false_iff.mp h
    rw [Expr.decides, decides_false_of_true body hbody, decides_false_of_true orelse horelse]
    rfl

section Values

variable (w : World V E)

/-- A condition that decides nothing. -/
theorem evalIn_condition_eq {e : Expr V} (h : e.decides true = false) :
    e.evalIn w true = e.evalIn w false := by
  rw [evalIn_eq w true e h, evalIn_eq w false e (decides_false_of_true e h)]

theorem eval_boolOp {first : Expr V} (hfirst : first.decides false = false) (n : NodeIndex)
    (op : BoolOp) (second : Expr V) :
    (Expr.boolOp n op first second .nil).eval w =
      first.eval w >>= fun v => w.test n v >>= fun b =>
        if op.goesOn b then second.eval w else pure v := by
  rw [Expr.eval, Expr.evalIn, evalIn_eq w false first hfirst]
  simp only [bind_assoc, pure_bind, decide_none, Exprs.evalBoolOp, Expr.eval, bind_pure]
  refine bind_congr fun r => bind_congr fun b => ?_
  split <;> simp only [pure_bind]

theorem eval_ifExp {test : Expr V} (htest : test.decides true = false) (n : NodeIndex)
    (body orelse : Expr V) :
    (Expr.ifExp n test body orelse).eval w =
      test.eval w >>= fun v => w.test n v >>= fun b =>
        if b then body.eval w else orelse.eval w := by
  rw [Expr.eval, Expr.evalIn, evalIn_eq w true test htest]
  simp only [bind_assoc, pure_bind, decide_none, Expr.eval]
  refine bind_congr fun r => bind_congr fun b => ?_
  cases b <;> rfl

end Values

end DietPython.Expressions
