import DietPython.Expressions.Conditions

/-!
# Orderly expressions are lowered faithfully

`Orderly` says from the shape of an expression that hoisting keeps its effects in place. The
lowered form of an orderly expression behaves like the source in every world: by induction over
the expression, each fragment realizes the evaluation of its subtree.
-/

namespace DietPython.Expressions

open LoggedComputations Logged

variable {V E : Type}

/-! ## The condition -/

/-- An element of a set display that the conversion accepts. -/
def Expr.plainElement : Expr V → Bool
  | .starred _ value => !value.hoists
  | _ => true

def Exprs.plainElements : Exprs V → Bool
  | .nil => true
  | .cons e es => e.plainElement && es.plainElements

/-- The operands of a single comparison are evaluated in order. -/
def CmpOp.inOrder (op : CmpOp) (left right : Expr V) : Bool :=
  left.quiet || (!right.hoists && (!op.swapped || right.quiet))

mutual

/-- No operand is hoisted over an effect that is left in the residual of an earlier sibling, no
membership test has two operands with effects left, and nothing is asked or read twice: boolean
operators have two operands, chains two comparisons, what they or a conditional expression test has
decided nothing, and there is no walrus. -/
def Expr.Orderly : Expr V → Prop
  | .literal _ | .name _ _ => True
  | .operation _ _ args => args.Orderly
  | .starred _ value => value.Orderly
  | .set _ elts => elts.Orderly ∧ elts.plainElements = true
  | .boolOp _ _ first second .nil =>
      first.Orderly ∧ second.Orderly ∧ first.decides false = false
  | .boolOp _ _ _ _ (.cons _ _) => False
  | .compare _ left op first .nil =>
      left.Orderly ∧ first.Orderly ∧ op.inOrder left first = true
  | .compare _ left _ first (.cons _ second .nil) =>
      left.Orderly ∧ first.Orderly ∧ second.Orderly
  | .compare _ _ _ _ (.cons _ _ (.cons _ _ _)) => False
  | .ifExp _ test body orelse =>
      test.Orderly ∧ body.Orderly ∧ orelse.Orderly ∧ test.decides true = false
  | .named _ _ _ => False

def Exprs.Orderly : Exprs V → Prop
  | .nil => True
  | .cons e es => e.Orderly ∧ es.Orderly ∧ (es.hoists = false ∨ e.quiet = true)

end

/-! ## Fragments of single constructs -/

theorem owned_of_append {a b : List NodeIndex} (h : (a ++ b).Nodup) (t : Temp)
    (ht : Owned b t) : ¬ Owned a t :=
  fun ha => (List.nodup_append.mp h).2.2 _ ha _ ht rfl

section Constructs

variable {w : World V E} {s : Setup V} {r : Core V} {m : Run V E V}

/-- What follows the store of a residual sees its value, and the setup names as they were before,
but for those of the fragment. -/
theorem Realizes.assign {P : Temp → Prop} {t : Temp} {next : Setup V} {f : Temps V → Run V E V}
    {g : V → Run V E V} {σ : Temps V} (h : Realizes w s (fun σ => r.eval w σ) m)
    (hs : s.Writes P)
    (hnext : ∀ v σ', (∀ t', ¬ P t' → σ' t' = σ t') →
      next.exec w (Function.update σ' t v) >>= f = g v) :
    (s ++ .assign t r next).exec w σ >>= f = m >>= g := by
  rw [exec_append, bind_assoc, ← h.bind (σ := σ) hs hnext]
  refine bind_congr fun σ' => ?_
  rw [Setup.exec, bind_assoc]

/-- A setup name that is stored last is the value of the fragment. -/
theorem realizes_assign (t : Temp) (h : Realizes w s (fun σ => r.eval w σ) m)
    {P : Temp → Prop} (hs : s.Writes P) :
    Realizes w (s ++ .assign t r .done) (fun σ => pure (σ t)) m := by
  intro σ
  rw [h.assign hs (g := pure) fun v σ' _ => ?_, bind_pure]
  rw [Setup.exec, pure_bind, Function.update_self]

end Constructs

/-! ## Orderly expressions -/

theorem lowerSet_of_lower : ∀ {es : Exprs V} {s : Setup V} {rs : Cores V},
    es.plainElements = true → es.lower = some (s, rs) → es.lowerSet = some (s, rs)
  | .nil, s, rs, _, h => h
  | .cons e es, s, rs, hplain, h => by
    rw [Exprs.plainElements, Bool.and_eq_true] at hplain
    obtain ⟨s₁, r₁, s₂, rs₂, he, hes, rfl, rfl⟩ := lowerAll_cons_iff.mp h
    refine lowerSet_cons_iff.mpr
      ⟨s₁, r₁, s₂, rs₂, ?_, lowerSet_of_lower hplain.2 hes, rfl, rfl⟩
    cases e with
    | starred n value =>
      obtain ⟨c, hvalue, rfl⟩ := lower_starred_iff.mp he
      have hhoists : value.hoists = false := by simpa [Expr.plainElement] using hplain.1
      obtain rfl := (lower_lowered value hvalue).setup.mpr hhoists
      rw [Expr.lowerElement, (fromExpr_iff value c).mpr hvalue]
      rfl
    | _ => exact he

theorem eval_compareExpr_of_not_swapped (w : World V E) (σ : Temps V) (n : NodeIndex) {op : CmpOp}
    (hop : op.swapped = false) (l r : Core V) :
    (compareExpr n op l r).eval w σ = l.eval w σ >>= fun v => r.eval w σ >>= w.compare n op v := by
  have hcompare : ∀ v v', w.operate n (.compare op) [v, v'] = w.compare n op v v' := by
    intro v v'
    simp only [World.compare, CmpOp.operands, hop]
    rfl
  simp only [compareExpr, hop, Bool.false_eq_true, if_false, Core.eval, Cores.eval, bind_assoc,
    pure_bind, hcompare]

theorem eval_compareExpr_of_swapped (w : World V E) (σ : Temps V) (n : NodeIndex) {op : CmpOp}
    (hop : op.swapped = true) (l r : Core V) :
    (compareExpr n op l r).eval w σ =
      r.eval w σ >>= fun v' => l.eval w σ >>= fun v => w.compare n op v v' := by
  have hcompare : ∀ v v', w.operate n (.compare op) [v', v] = w.compare n op v v' := by
    intro v v'
    simp only [World.compare, CmpOp.operands, hop]
    rfl
  simp only [compareExpr, hop, if_true, Core.eval, Cores.eval, bind_assoc, pure_bind, hcompare]

/-- Running a single comparison after its operands. -/
theorem realizes_compare {w : World V E} {n : NodeIndex} {op : CmpOp} {left first : Expr V}
    {s s' : Setup V} {l r : Core V} (hl : Lowered left s l) (hr : Lowered first s' r)
    (hdisjoint : (left.sites ++ first.sites).Nodup) (hop : op.inOrder left first = true)
    (h : Realizes w s (fun σ => l.eval w σ) (left.eval w))
    (h' : Realizes w s' (fun σ => r.eval w σ) (first.eval w)) :
    Realizes w (s ++ s') (fun σ => (compareExpr n op l r).eval w σ)
      (left.eval w >>= fun v => first.eval w >>= w.compare n op v) := by
  rw [CmpOp.inOrder, Bool.or_eq_true, Bool.and_eq_true, ← hl.quiet, ← hr.quiet] at hop
  have hwrites : s'.Writes fun t => ¬ Owned left.sites t :=
    hr.writes.mono (owned_of_append hdisjoint)
  have hq : s' = .done ∨ l.quiet = true := by
    rw [hr.setup]
    exact hop.symm.imp_left fun h => by simpa using h.1
  have hpair := realizes_bind_bind h h' hl.reads hwrites hq (w.compare n op)
  refine fun σ => Eq.trans (bind_congr fun σ' => ?_) (hpair σ)
  cases hswap : op.swapped with
  | false => exact eval_compareExpr_of_not_swapped w σ' n hswap l r
  | true =>
    rw [eval_compareExpr_of_swapped w σ' n hswap]
    rcases hop with hquiet | ⟨-, hquiet⟩
    · exact quiet_bind_comm w σ' hquiet (r.eval w σ') fun v' v => w.compare n op v v'
    · rw [hswap] at hquiet
      exact (quiet_bind_comm w σ' hquiet (l.eval w σ') (w.compare n op)).symm

/-- A comparison with a stored left operand. -/
theorem eval_compareExpr_temp (w : World V E) (σ : Temps V) (n : NodeIndex) (op : CmpOp) (t : Temp)
    (r : Core V) :
    (compareExpr n op (.temp t) r).eval w σ = r.eval w σ >>= w.compare n op (σ t) := by
  cases hop : op.swapped with
  | false => rw [eval_compareExpr_of_not_swapped w σ n hop, Core.eval, pure_bind]
  | true =>
    rw [eval_compareExpr_of_swapped w σ n hop]
    exact bind_congr fun v' => by rw [Core.eval, pure_bind]

section Branches

variable {w : World V E} {n : NodeIndex} {P P' P'' : Temp → Prop} {s s' s'' : Setup V}
  {r r' r'' : Core V} {m m' m'' : Run V E V}

theorem realizes_boolOp (op : BoolOp) (h : Realizes w s (fun σ => r.eval w σ) m)
    (hs : s.Writes P) (h' : Realizes w s' (fun σ => r'.eval w σ) m') (hs' : s'.Writes P') :
    Realizes w (s ++ .assign (.target n) r (boolOpStep n op s' r' .done))
      (fun σ => (Core.temp (.target n)).eval w σ)
      (m >>= fun v => w.test n v >>= fun b => if op.goesOn b then m' else pure v) := by
  refine fun σ => h.assign hs fun v σ' _ => ?_
  simp only [boolOpStep, Setup.exec, Core.eval, pure_bind, bind_assoc, Function.update_self]
  refine bind_congr fun b => ?_
  have hgoes : (b != (op == .or)) = op.goesOn b := by cases op <;> cases b <;> rfl
  rw [hgoes]
  split
  · exact realizes_assign (.target n) h' hs' _
  · rw [pure_bind, Function.update_self]

theorem realizes_ifExp (h : Realizes w s (fun σ => r.eval w σ) m)
    (h' : Realizes w s' (fun σ => r'.eval w σ) m') (hs' : s'.Writes P')
    (h'' : Realizes w s'' (fun σ => r''.eval w σ) m'') (hs'' : s''.Writes P'') :
    Realizes w (s ++ .branch n false r (s' ++ .assign (.tmp n) r' .done)
        (s'' ++ .assign (.tmp n) r'' .done) .done)
      (fun σ => (Core.temp (.tmp n)).eval w σ)
      (m >>= fun v => w.test n v >>= fun b => if b then m' else m'') := by
  intro σ
  rw [exec_append, bind_assoc, ← h σ, bind_assoc]
  refine bind_congr fun σ' => ?_
  simp only [Setup.exec, bind_assoc, pure_bind, Bool.bne_false]
  refine bind_congr fun v => bind_congr fun b => ?_
  cases b with
  | true => exact realizes_assign (.tmp n) h' hs' σ'
  | false => exact realizes_assign (.tmp n) h'' hs'' σ'

/-- Two comparisons: the operands that are compared are stored, so that the setup of the later
comparators does not disturb them. -/
theorem realizes_chain (op op' : CmpOp) (h : Realizes w s (fun σ => r.eval w σ) m)
    (hs : s.Writes P) (h' : Realizes w s' (fun σ => r'.eval w σ) m') (hs' : s'.Writes P')
    (h'' : Realizes w s'' (fun σ => r''.eval w σ) m'') (hs'' : s''.Writes P'')
    (h₀ : ¬ P' (.compare n 0)) (h₁ : ¬ P'' (.compare n 1)) :
    Realizes w (s ++ .assign (.compare n 0) r (s' ++ .assign (.compare n 1) r'
        (.assign (.target n) (compareExpr n op (.temp (.compare n 0)) (.temp (.compare n 1)))
          (.branch n false (.temp (.target n)) (s'' ++ .assign (.target n)
            (compareExpr n op' (.temp (.compare n 1)) r'') .done) .done .done))))
      (fun σ => (Core.temp (.target n)).eval w σ)
      (m >>= fun v => m' >>= fun v' => w.compare n op v v' >>= fun result =>
        w.test n result >>= fun b =>
          if b then m'' >>= fun v'' => w.compare n op' v' v'' else pure result) := by
  refine fun σ => h.assign hs fun v σ₁ _ => h'.assign hs' fun v' σ₂ hσ₂ => ?_
  have hleft : Function.update σ₂ (.compare n 1) v' (.compare n 0) = v := by
    rw [Function.update_of_ne (by simp), hσ₂ _ h₀, Function.update_self]
  simp only [Setup.exec, eval_compareExpr_temp, Core.eval, pure_bind, bind_assoc,
    Function.update_self, hleft]
  refine bind_congr fun result => bind_congr fun b => ?_
  cases b with
  | false => simp only [bne_self_eq_false, Bool.false_eq_true, if_false, pure_bind,
      Function.update_self]
  | true =>
    simp only [Bool.bne_false, if_true]
    rw [exec_append, bind_assoc]
    refine Eq.trans ?_ (h''.bind (σ := Function.update (Function.update σ₂ (.compare n 1) v')
      (.target n) result) (k := fun v'' σ₃ => w.compare n op' (σ₃ (.compare n 1)) v'') hs''
      fun v'' σ₃ hσ₃ => ?_)
    · refine bind_congr fun σ₃ => ?_
      rw [Setup.exec, eval_compareExpr_temp, bind_assoc, bind_assoc]
      refine bind_congr fun v'' => ?_
      simp only [Setup.exec, pure_bind, Function.update_self, bind_pure]
    · rw [hσ₃ _ h₁, Function.update_of_ne (by simp), Function.update_self]

end Branches

mutual

/-- An orderly expression is lowered, and its fragment behaves like the source. -/
theorem lower_realizes (w : World V E) : ∀ e : Expr V, e.sites.Nodup → e.Orderly →
    ∃ s r, e.lower = some (s, r) ∧ Realizes w s (fun σ => r.eval w σ) (e.eval w)
  | .literal c, _, _ => ⟨.done, .literal c, rfl, realizes_done fun _ => rfl⟩
  | .name n id, _, _ => ⟨.done, .load n id, rfl, realizes_done fun _ => (eval_name w n id).symm⟩
  | .operation n op args, hnodup, h => by
    obtain ⟨s, rs, hargs, hrs⟩ := lowerAll_realizes w args hnodup.of_cons h
    refine ⟨s, _, lower_operation_iff.mpr ⟨rs, hargs, rfl⟩, ?_⟩
    rw [eval_operation]
    exact realizes_operation hrs n op
  | .starred n value, hnodup, h => by
    obtain ⟨s, r, hvalue, hr⟩ := lower_realizes w value hnodup.of_cons h
    refine ⟨s, _, lower_starred_iff.mpr ⟨r, hvalue, rfl⟩, fun σ => ?_⟩
    rw [eval_starred, ← hr σ, bind_assoc]
    refine bind_congr fun σ' => ?_
    simp only [Core.eval, Cores.eval, bind_assoc, pure_bind]
  | .set n elts, hnodup, h => by
    obtain ⟨s, rs, helts, hrs⟩ := lowerAll_realizes w elts hnodup.of_cons h.1
    refine ⟨s, _, lower_set_iff.mpr ⟨rs, lowerSet_of_lower h.2 helts, rfl⟩, ?_⟩
    rw [eval_set]
    exact realizes_operation hrs n .set
  | .boolOp n op first second .nil, hnodup, h => by
    have hparts := List.nodup_append.mp hnodup.of_cons
    have hsecond := (List.nodup_append.mp hparts.2.1).1
    obtain ⟨s₁, r₁, h₁, hr₁⟩ := lower_realizes w first hparts.1 h.1
    obtain ⟨s₂, r₂, h₂, hr₂⟩ := lower_realizes w second hsecond h.2.1
    refine ⟨_, _, lower_boolOp_iff.mpr ⟨s₁, r₁, s₂, r₂, .done, h₁, h₂, rfl, rfl, rfl⟩, ?_⟩
    rw [eval_boolOp w h.2.2]
    exact realizes_boolOp op hr₁ (lower_lowered first h₁).writes hr₂
      (lower_lowered second h₂).writes
  | .boolOp _ _ _ _ (.cons _ _), _, h => h.elim
  | .compare n left op first .nil, hnodup, h => by
    have hoperands : (left.sites ++ first.sites).Nodup := by
      have htail := hnodup.of_cons
      rwa [Comparators.sites, List.append_nil] at htail
    have hparts := List.nodup_append.mp hoperands
    obtain ⟨s, l, hleft, hl⟩ := lower_realizes w left hparts.1 h.1
    obtain ⟨s', r, hfirst, hr⟩ := lower_realizes w first hparts.2.1 h.2.1
    refine ⟨_, _, lower_compare_iff.mpr ⟨s, l, s', r, hleft, hfirst, rfl, rfl⟩, ?_⟩
    rw [eval_compare]
    exact realizes_compare (lower_lowered left hleft) (lower_lowered first hfirst) hoperands h.2.2
      hl hr
  | .compare n left op first (.cons op' second .nil), hnodup, h => by
    have hn := (List.nodup_cons.mp hnodup).1
    have hparts := List.nodup_append.mp hnodup.of_cons
    have hrest := List.nodup_append.mp hparts.2.1
    have hsecond := (List.nodup_append.mp hrest.2.1).1
    obtain ⟨s₁, l, h₁, hl⟩ := lower_realizes w left hparts.1 h.1
    obtain ⟨s₂, c, h₂, hc⟩ := lower_realizes w first hrest.1 h.2.1
    obtain ⟨s₃, c', h₃, hc'⟩ := lower_realizes w second hsecond h.2.2
    refine ⟨_, _, lower_chain_iff.mpr
      ⟨s₁, l, s₂, c, s₃, c', _, h₁, h₂, h₃, rfl, rfl, rfl⟩, ?_⟩
    rw [eval_chain]
    exact realizes_chain op op' hl (lower_lowered left h₁).writes hc
      (lower_lowered first h₂).writes hc' (lower_lowered second h₃).writes
      (fun hmem => hn (List.mem_append_right _ (List.mem_append_left _ hmem)))
      (fun hmem => hn (List.mem_append_right _ (List.mem_append_right _
        (List.mem_append_left _ hmem))))
  | .compare _ _ _ _ (.cons _ _ (.cons _ _ _)), _, h => h.elim
  | .ifExp n test body orelse, hnodup, h => by
    have hparts := List.nodup_append.mp hnodup.of_cons
    have hbranches := List.nodup_append.mp hparts.2.1
    obtain ⟨s₁, r₁, h₁, hr₁⟩ := lower_realizes w test hparts.1 h.1
    obtain ⟨s₂, r₂, h₂, hr₂⟩ := lower_realizes w body hbranches.1 h.2.1
    obtain ⟨s₃, r₃, h₃, hr₃⟩ := lower_realizes w orelse hbranches.2.1 h.2.2.1
    refine ⟨_, _, lower_ifExp_iff.mpr ⟨s₁, r₁, s₂, r₂, s₃, r₃, h₁, h₂, h₃, rfl, rfl⟩, ?_⟩
    rw [eval_ifExp w h.2.2.2]
    exact realizes_ifExp hr₁ hr₂ (lower_lowered body h₂).writes hr₃ (lower_lowered orelse h₃).writes
  | .named _ _ _, _, h => h.elim

theorem lowerAll_realizes (w : World V E) : ∀ es : Exprs V, es.sites.Nodup → es.Orderly →
    ∃ s rs, es.lower = some (s, rs) ∧ Realizes w s (fun σ => rs.eval w σ) (es.eval w)
  | .nil, _, _ => ⟨.done, .nil, rfl, realizes_done fun _ => rfl⟩
  | .cons e es, hnodup, h => by
    have hparts := List.nodup_append.mp hnodup
    obtain ⟨s₁, r₁, h₁, hr₁⟩ := lower_realizes w e hparts.1 h.1
    obtain ⟨s₂, rs₂, h₂, hrs₂⟩ := lowerAll_realizes w es hparts.2.1 h.2.1
    have hhead := lower_lowered e h₁
    have htail := lowerAll_lowered es h₂
    refine ⟨_, _, lowerAll_cons_iff.mpr ⟨s₁, r₁, s₂, rs₂, h₁, h₂, rfl, rfl⟩, ?_⟩
    rw [evalAll_cons]
    refine realizes_cons hr₁ hrs₂ hhead.reads (htail.writes.mono (owned_of_append hnodup)) ?_
    rw [htail.setup, hhead.quiet]
    exact h.2.2

end

end DietPython.Expressions
