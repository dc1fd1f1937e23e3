import DietPython.Expressions.Conditions

/-!
# The events of an expression

In a guided world every expression leaves a known list of nodes, and so does its lowered form. The
list of the source says which values are tested: `decided` is the truth that an evaluation has come
to know.
-/

namespace DietPython.Expressions

open LoggedComputations Logged

variable {V E : Type}

/-! ## Events of the source -/

section Events

variable (ω : NodeIndex → Bool)

mutual

/-- What is known of the truth of the value, in the world that `ω` guides. -/
def Expr.decided (condition : Bool) : Expr V → Option Bool
  | .literal _ | .name _ _ | .starred _ _ | .set _ _ | .named _ _ _ => none
  | .operation _ op args =>
      if condition && op.negates then
        (args.decided (condition && op.negates)).map not
      else none
  | .boolOp n op first second rest =>
      if op.goesOn ((first.decided condition).getD (ω n)) then
        rest.decidedBoolOp condition n op (second.decided condition)
      else some ((first.decided condition).getD (ω n))
  | .compare n _ _ _ rest => rest.decidedChain condition n
  | .ifExp n test body orelse =>
      if (test.decided true).getD (ω n) then body.decided condition else orelse.decided condition

/-- What is known of the first operand of which something is known. -/
def Exprs.decided (condition : Bool) : Exprs V → Option Bool
  | .nil => none
  | .cons e es => (e.decided condition).or (es.decided condition)

def Exprs.decidedBoolOp (condition : Bool) (n : NodeIndex) (op : BoolOp) :
    Option Bool → Exprs V → Option Bool
  | known, .nil => known
  | known, .cons e es =>
      if op.goesOn (known.getD (ω n)) then es.decidedBoolOp condition n op (e.decided condition)
      else some (known.getD (ω n))

def Comparators.decidedChain (condition : Bool) (n : NodeIndex) : Comparators V → Option Bool
  | .nil => none
  | .cons _ _ rest =>
      if ω n then rest.decidedChain condition n else if condition then some false else none

end

/-- The test of a value whose truth is not known. -/
def testTrace (n : NodeIndex) (known : Option Bool) : List NodeIndex :=
  if known.isSome then [] else [n]

mutual

/-- The nodes of the events of an expression in the world that `ω` guides. -/
def Expr.trace (condition : Bool) : Expr V → List NodeIndex
  | .literal _ => []
  | .name n _ => [n]
  | .operation n op args =>
      args.trace (condition && op.negates) ++
        if (condition && op.negates) && (args.decided ω (condition && op.negates)).isSome then []
        else if op.silent then [] else [n]
  | .starred n value => value.trace false ++ [n]
  | .set n elts => elts.trace false ++ [n]
  | .boolOp n op first second rest =>
      first.trace condition ++ (testTrace n (first.decided ω condition) ++
        if op.goesOn ((first.decided ω condition).getD (ω n)) then
          second.trace condition ++ rest.traceBoolOp condition n op (second.decided ω condition)
        else [])
  | .compare n left _ first rest =>
      left.trace false ++ (first.trace false ++ n :: rest.traceChain n)
  | .ifExp n test body orelse =>
      test.trace true ++ (testTrace n (test.decided ω true) ++
        if (test.decided ω true).getD (ω n) then body.trace condition else orelse.trace condition)
  | .named n _ value => value.trace false ++ [n]

def Exprs.trace (condition : Bool) : Exprs V → List NodeIndex
  | .nil => []
  | .cons e es => e.trace condition ++ es.trace condition

def Exprs.traceBoolOp (condition : Bool) (n : NodeIndex) (op : BoolOp) :
    Option Bool → Exprs V → List NodeIndex
  | _, .nil => []
  | known, .cons e es =>
      testTrace n known ++
        if op.goesOn (known.getD (ω n)) then
          e.trace condition ++ es.traceBoolOp condition n op (e.decided ω condition)
        else []

def Comparators.traceChain (n : NodeIndex) : Comparators V → List NodeIndex
  | .nil => []
  | .cons _ e rest => n :: if ω n then e.trace false ++ n :: rest.traceChain n else []

end

end Events

section Source

variable [Inhabited V] (ω : NodeIndex → Bool)

theorem tracesTo_operate (n : NodeIndex) (op : Op) (vs : List V) :
    TracesTo Event.site ((guided E ω : World V E).operate n op vs >>= fun v => pure (v, none))
      (if op.silent then [] else [n]) fun r : Tested V => r.2 = none :=
  (traces_operate ω n op vs).tracesTo.map_to fun _ _ => rfl

theorem tracesTo_decide (n : NodeIndex) {r : Tested V} {known : Option Bool}
    (hr : r.2 = known) :
    TracesTo Event.site ((guided E ω : World V E).decide n r) (testTrace n known)
      fun b => b = known.getD (ω n) := by
  subst hr
  obtain ⟨v, _ | b⟩ := r
  · exact tracesTo_observe Event.site (Event.test n v) rfl
  · exact tracesTo_pure Event.site rfl

theorem tracesTo_operateOn (n : NodeIndex) (op : Op) (negated : Bool) {rs : List (Tested V)}
    {known : Option Bool} (hrs : rs.findSome? Prod.snd = known) :
    TracesTo Event.site ((guided E ω : World V E).operateOn n op negated rs)
      (if negated && known.isSome then [] else if op.silent then [] else [n])
      fun r => r.2 = if negated then known.map not else none := by
  subst hrs
  unfold World.operateOn
  cases negated with
  | false => exact tracesTo_operate ω n op _
  | true =>
    cases rs.findSome? Prod.snd with
    | none => exact tracesTo_operate ω n op _
    | some b => exact tracesTo_pure Event.site rfl

mutual

theorem traces_source : ∀ (condition : Bool) (e : Expr V),
    TracesTo Event.site (e.evalIn (guided E ω) condition) (e.trace ω condition)
      fun r => r.2 = e.decided ω condition
  | condition, .literal _ => tracesTo_pure _ rfl
  | condition, .name n id => (traces_ask ω (.load n id)).tracesTo.map_to fun _ _ => rfl
  | condition, .operation n op args =>
    (traces_sourceAll _ args).bind fun rs hrs => tracesTo_operateOn ω n op _ hrs
  | condition, .starred n value =>
    (traces_source false value).bind fun r _ => tracesTo_operate ω n .unpack [r.1]
  | condition, .set n elts =>
    (traces_sourceAll false elts).bind fun rs _ => tracesTo_operate ω n .set _
  | condition, .boolOp n op first second rest => by
    refine (traces_source condition first).bind fun r hr =>
      (tracesTo_decide ω n hr).bind fun b hb => ?_
    rw [Expr.decided]
    subst hb
    split
    · exact (traces_source condition second).bind fun r' hr' =>
        traces_sourceBoolOp condition n op hr' rest
    · exact tracesTo_pure _ rfl
  | condition, .compare n left op first rest => by
    refine (traces_source false left).bind fun r _ => (traces_source false first).bind
      fun r' _ => ?_
    exact (traces_ask ω (.perform n _ _)).tracesTo.bind fun result _ =>
      traces_sourceChain condition n r'.1 result rest
  | condition, .ifExp n test body orelse => by
    refine (traces_source true test).bind fun r hr => (tracesTo_decide ω n hr).bind fun b hb => ?_
    rw [Expr.decided]
    subst hb
    split
    · exact traces_source condition body
    · exact traces_source condition orelse
  | condition, .named n id value =>
    (traces_source false value).bind fun r _ =>
      (traces_operate ω n (.store id) [r.1]).tracesTo.map_to fun _ _ => rfl

theorem traces_sourceAll : ∀ (condition : Bool) (es : Exprs V),
    TracesTo Event.site (es.evalIn (guided E ω) condition) (es.trace ω condition)
      fun rs => rs.findSome? Prod.snd = es.decided ω condition
  | condition, .nil => tracesTo_pure _ rfl
  | condition, .cons e es => by
    refine (traces_source condition e).bind fun r hr => ?_
    refine (traces_sourceAll condition es).map_to fun rs hrs => ?_
    rw [List.findSome?_cons, hr, hrs, Exprs.decided]
    cases e.decided ω condition <;> rfl

theorem traces_sourceBoolOp (condition : Bool) (n : NodeIndex) (op : BoolOp) {r : Tested V}
    {known : Option Bool} (hr : r.2 = known) : ∀ es : Exprs V,
    TracesTo Event.site (es.evalBoolOp (guided E ω) condition n op r)
      (es.traceBoolOp ω condition n op known)
      fun r' => r'.2 = es.decidedBoolOp ω condition n op known
  | .nil => tracesTo_pure _ hr
  | .cons e es => by
    refine (tracesTo_decide ω n hr).bind fun b hb => ?_
    rw [Exprs.decidedBoolOp]
    subst hb
    split
    · exact (traces_source condition e).bind fun r' hr' =>
        traces_sourceBoolOp condition n op hr' es
    · exact tracesTo_pure _ rfl

theorem traces_sourceChain (condition : Bool) (n : NodeIndex) (v result : V) :
    ∀ rest : Comparators V,
    TracesTo Event.site (rest.evalChain (guided E ω) condition n v result) (rest.traceChain ω n)
      fun r => r.2 = rest.decidedChain ω condition n
  | .nil => tracesTo_pure _ rfl
  | .cons op e rest => by
    have htest : TracesTo Event.site ((guided E ω : World V E).test n result) [n]
      fun b => b = ω n :=
      tracesTo_observe Event.site (Event.test n result) rfl
    rw [Comparators.traceChain, ← List.singleton_append]
    refine htest.bind fun b hb => ?_
    rw [Comparators.decidedChain]
    subst hb
    split
    · refine (traces_source false e).bind fun r _ => ?_
      exact (traces_ask ω (.perform n _ _)).tracesTo.bind fun result' _ =>
        traces_sourceChain condition n r.1 result' rest
    · exact tracesTo_pure _ rfl

end

end Source

theorem traces_eval_source [Inhabited V] (ω : NodeIndex → Bool) (e : Expr V) :
    Traces Event.site (e.eval (guided E ω)) (e.trace ω false) :=
  ((traces_source ω false e).map_to (R := fun _ => True) fun _ _ => trivial).traces

/-- A condition that decides nothing leaves the nodes it leaves elsewhere. -/
theorem trace_condition_eq [Inhabited V] (ω : NodeIndex → Bool) {e : Expr V}
    (h : e.decides true = false) : e.trace ω true = e.trace ω false := by
  have hrun := evalIn_condition_eq (guided Unit ω) h
  exact Traces.eq_of_eq (traces_source ω true e).traces (traces_source ω false e).traces hrun

/-! ## Nodes of the events -/

section Sites

variable (ω : NodeIndex → Bool)

theorem testTrace_subset (n : NodeIndex) (known : Option Bool) : testTrace n known ⊆ [n] := by
  unfold testTrace
  split
  · exact List.nil_subset _
  · exact List.Subset.refl _

mutual

theorem trace_subset : ∀ (condition : Bool) (e : Expr V), e.trace ω condition ⊆ e.sites
  | _, .literal _ => List.nil_subset _
  | _, .name _ _ => List.Subset.refl _
  | condition, .operation n op args => by
    have hargs := traceAll_subset (condition && op.negates) args
    intro x hx
    rw [Expr.trace] at hx
    rw [Expr.sites]
    grind
  | _, .starred n value => by
    have hvalue := trace_subset false value
    grind [Expr.trace, Expr.sites]
  | _, .set n elts => by
    have helts := traceAll_subset false elts
    grind [Expr.trace, Expr.sites]
  | condition, .boolOp n op first second rest => by
    have hfirst := trace_subset condition first
    have htest := testTrace_subset n (first.decided ω condition)
    have hsecond := trace_subset condition second
    have hrest := traceBoolOp_subset condition n op (second.decided ω condition) rest
    grind [Expr.trace, Expr.sites]
  | _, .compare n left op first rest => by
    have hleft := trace_subset false left
    have hfirst := trace_subset false first
    have hrest := traceChain_subset n rest
    grind [Expr.trace, Expr.sites]
  | condition, .ifExp n test body orelse => by
    have htest := trace_subset true test
    have hdecide := testTrace_subset n (test.decided ω true)
    have hbody := trace_subset condition body
    have horelse := trace_subset condition orelse
    grind [Expr.trace, Expr.sites]
  | _, .named n id value => by
    have hvalue := trace_subset false value
    grind [Expr.trace, Expr.sites]

theorem traceAll_subset : ∀ (condition : Bool) (es : Exprs V), es.trace ω condition ⊆ es.sites
  | _, .nil => List.nil_subset _
  | condition, .cons e es => by
    have he := trace_subset condition e
    have hes := traceAll_subset condition es
    grind [Exprs.trace, Exprs.sites]

theorem traceBoolOp_subset (condition : Bool) (n : NodeIndex) (op : BoolOp) :
    ∀ (known : Option Bool) (es : Exprs V),
    es.traceBoolOp ω condition n op known ⊆ n :: es.sites
  | _, .nil => List.nil_subset _
  | known, .cons e es => by
    have htest := testTrace_subset n known
    have he := trace_subset condition e
    have hes := traceBoolOp_subset condition n op (e.decided ω condition) es
    grind [Exprs.traceBoolOp, Exprs.sites]

theorem traceChain_subset (n : NodeIndex) : ∀ rest : Comparators V,
    rest.traceChain ω n ⊆ n :: rest.sites
  | .nil => List.nil_subset _
  | .cons op e rest => by
    have he := trace_subset false e
    have hrest := traceChain_subset n rest
    grind [Comparators.traceChain, Comparators.sites]

end

end Sites

/-! ## Guides that make an expression decide -/

theorem notMem_left_of_nodup {a b : List NodeIndex} (h : (a ++ b).Nodup) :
    ∀ x ∈ b, x ∉ a :=
  fun x hb ha => (List.nodup_append.mp h).2.2 x ha x hb rfl

section Congr

variable {ω ω' : NodeIndex → Bool}

mutual

/-- What an evaluation comes to know depends on the guide at the nodes of the expression. -/
theorem decided_congr (condition : Bool) : ∀ e : Expr V, (∀ m ∈ e.sites, ω m = ω' m) →
    e.decided ω condition = e.decided ω' condition
  | .literal _, _ | .name _ _, _ | .starred _ _, _ | .set _ _, _ | .named _ _ _, _ => rfl
  | .operation n op args, h => by
    have hargs := decidedAll_congr (condition && op.negates) args
      fun m hm => h m (List.mem_cons_of_mem n hm)
    rw [Expr.decided, Expr.decided, hargs]
  | .boolOp n op first second rest, h => by
    have hn : ω n = ω' n := h n List.mem_cons_self
    have hfirst := decided_congr condition first fun m hm => h m (by simp [Expr.sites, hm])
    have hsecond := decided_congr condition second fun m hm => h m (by simp [Expr.sites, hm])
    have hrest := decidedBoolOp_congr condition hn op (second.decided ω' condition) rest
      fun m hm => h m (by simp [Expr.sites, hm])
    simp only [Expr.decided, hn, hfirst, hsecond, hrest]
  | .compare n left op first rest, h => by
    have hn : ω n = ω' n := h n List.mem_cons_self
    rw [Expr.decided, Expr.decided, decidedChain_congr condition hn rest]
  | .ifExp n test body orelse, h => by
    have hn : ω n = ω' n := h n List.mem_cons_self
    have htest := decided_congr true test fun m hm => h m (by simp [Expr.sites, hm])
    have hbody := decided_congr condition body fun m hm => h m (by simp [Expr.sites, hm])
    have horelse := decided_congr condition orelse fun m hm => h m (by simp [Expr.sites, hm])
    simp only [Expr.decided, hn, htest, hbody, horelse]

theorem decidedAll_congr (condition : Bool) : ∀ es : Exprs V, (∀ m ∈ es.sites, ω m = ω' m) →
    es.decided ω condition = es.decided ω' condition
  | .nil, _ => rfl
  | .cons e es, h => by
    have he := decided_congr condition e fun m hm => h m (List.mem_append_left _ hm)
    have hes := decidedAll_congr condition es fun m hm => h m (List.mem_append_right _ hm)
    rw [Exprs.decided, Exprs.decided, he, hes]

theorem decidedBoolOp_congr (condition : Bool) {n : NodeIndex} (hn : ω n = ω' n) (op : BoolOp) :
    ∀ (known : Option Bool) (es : Exprs V), (∀ m ∈ es.sites, ω m = ω' m) →
    es.decidedBoolOp ω condition n op known = es.decidedBoolOp ω' condition n op known
  | _, .nil, _ => rfl
  | known, .cons e es, h => by
    have he := decided_congr condition e fun m hm => h m (List.mem_append_left _ hm)
    have hes := decidedBoolOp_congr condition hn op (e.decided ω' condition) es
      fun m hm => h m (List.mem_append_right _ hm)
    simp only [Exprs.decidedBoolOp, hn, he, hes]

theorem decidedChain_congr (condition : Bool) {n : NodeIndex} (hn : ω n = ω' n) :
    ∀ rest : Comparators V, rest.decidedChain ω condition n = rest.decidedChain ω' condition n
  | .nil => rfl
  | .cons _ _ rest => by
    rw [Comparators.decidedChain, Comparators.decidedChain, hn,
      decidedChain_congr condition hn rest]

end

end Congr

/-- Every guide has `P` after a change at the nodes `sites`. -/
def Steerable (sites : List NodeIndex) (P : (NodeIndex → Bool) → Prop) : Prop :=
  ∀ ω₀ : NodeIndex → Bool, ∃ ω : NodeIndex → Bool, (∀ m, m ∉ sites → ω m = ω₀ m) ∧ P ω

section Steerable

variable {sites sites' : List NodeIndex} {P Q : (NodeIndex → Bool) → Prop}

theorem Steerable.mono (h : Steerable sites P) (hsites : sites ⊆ sites')
    (himp : ∀ ω, P ω → Q ω) : Steerable sites' Q := fun ω₀ =>
  let ⟨ω, hω, hP⟩ := h ω₀
  ⟨ω, fun m hm => hω m fun hmem => hm (hsites hmem), himp ω hP⟩

theorem steerable_of_forall (h : ∀ ω, P ω) : Steerable sites P :=
  fun ω₀ => ⟨ω₀, fun _ _ => rfl, h ω₀⟩

theorem steerable_node (n : NodeIndex) (b : Bool) : Steerable [n] fun ω => ω n = b := fun ω₀ =>
  ⟨Function.update ω₀ n b,
    fun _ hm => Function.update_of_ne (fun heq => hm (List.mem_singleton.mpr heq)) b ω₀,
    Function.update_self n b ω₀⟩

/-- Disjoint parts are steered one after the other. -/
theorem Steerable.and (hP : Steerable sites P) (hQ : Steerable sites' Q)
    (hcongr : ∀ ω ω', (∀ m ∈ sites, ω m = ω' m) → P ω → P ω')
    (hdisjoint : ∀ m ∈ sites', m ∉ sites) :
    Steerable (sites ++ sites') fun ω => P ω ∧ Q ω := by
  intro ω₀
  obtain ⟨ω₁, h₁, hP₁⟩ := hP ω₀
  obtain ⟨ω₂, h₂, hQ₂⟩ := hQ ω₁
  have hkeep : ∀ m ∈ sites, ω₁ m = ω₂ m := fun m hm => (h₂ m fun hm' => hdisjoint m hm' hm).symm
  refine ⟨ω₂, fun m hm => ?_, hcongr ω₁ ω₂ hkeep hP₁, hQ₂⟩
  rw [List.mem_append, not_or] at hm
  rw [h₂ m hm.2, h₁ m hm.1]

/-- The node of the whole is steered first. -/
theorem Steerable.node (n : NodeIndex) (b : Bool) (hQ : Steerable sites Q) (hn : n ∉ sites) :
    Steerable (n :: sites) fun ω => ω n = b ∧ Q ω :=
  (steerable_node n b).and hQ (fun _ _ h hb => (h n (List.mem_singleton_self n)).symm.trans hb)
    fun _ hm hmem => hn (List.mem_singleton.mp hmem ▸ hm)

end Steerable

/-- None of the operands is known to be `b`. -/
def Exprs.Avoids (ω : NodeIndex → Bool) (condition b : Bool) : Exprs V → Prop
  | .nil => True
  | .cons e es => e.decided ω condition ≠ some b ∧ es.Avoids ω condition b

section Avoids

variable {ω : NodeIndex → Bool} {condition b : Bool}

theorem decidedAll_ne : ∀ {es : Exprs V}, es.Avoids ω condition b →
    es.decided ω condition ≠ some b
  | .nil, _ => nofun
  | .cons e es, h => by
    have hes := decidedAll_ne h.2
    rw [Exprs.decided]
    cases he : e.decided ω condition with
    | none => exact hes
    | some b' => exact fun hb => h.1 (he.trans hb)

theorem getD_of_ne {known : Option Bool} {x : Bool} (h : known ≠ some b) (hx : x = !b) :
    known.getD x = !b := by
  subst hx
  cases known with
  | none => rfl
  | some b' => cases b' <;> cases b <;> simp_all

theorem decidedBoolOp_ne {n : NodeIndex} (op : BoolOp) (hn : ω n = !b) :
    ∀ {known : Option Bool} {es : Exprs V}, known ≠ some b → es.Avoids ω condition b →
    es.decidedBoolOp ω condition n op known ≠ some b
  | _, .nil, hknown, _ => hknown
  | _, .cons e es, hknown, h => by
    rw [Exprs.decidedBoolOp, getD_of_ne hknown hn]
    split
    · exact decidedBoolOp_ne op hn h.1 h.2
    · simp

theorem decidedChain_ne {n : NodeIndex} (hn : ω n = !b) : ∀ rest : Comparators V,
    rest.decidedChain ω condition n ≠ some b
  | .nil => nofun
  | .cons _ _ rest => by
    have hrest := decidedChain_ne hn rest
    rw [Comparators.decidedChain, hn]
    cases b <;> cases condition <;> simp_all

end Avoids

mutual

/-- Some guide leaves the truth open or makes it the other one. -/
theorem steerable_avoids : ∀ (condition b : Bool) (e : Expr V), e.sites.Nodup →
    Steerable e.sites fun ω => e.decided ω condition ≠ some b
  | _, _, .literal _, _ | _, _, .name _ _, _ | _, _, .starred _ _, _ | _, _, .set _ _, _
  | _, _, .named _ _ _, _ => steerable_of_forall fun _ => nofun
  | condition, b, .operation n op args, hnodup => by
    refine (steerable_avoidsAll (condition && op.negates) (!b) args hnodup.of_cons).mono
      (List.subset_cons_self n _) fun ω h => ?_
    have hargs := decidedAll_ne h
    rw [Expr.decided]
    split
    · intro hb
      obtain ⟨b', hb', hnot⟩ := Option.map_eq_some_iff.mp hb
      exact hargs (by rw [hb', ← hnot, Bool.not_not])
    · exact nofun
  | condition, b, .boolOp n op first second rest, hnodup => by
    have hparts := List.nodup_append.mp hnodup.of_cons
    have htail := List.nodup_append.mp hparts.2.1
    have hoperands := (steerable_avoids condition b first hparts.1).and
      ((steerable_avoids condition b second htail.1).and
        (steerable_avoidsAll condition b rest htail.2.1)
        (fun ω ω' h hne => decided_congr condition second h ▸ hne)
        (notMem_left_of_nodup hparts.2.1))
      (fun ω ω' h hne => decided_congr condition first h ▸ hne)
      (notMem_left_of_nodup hnodup.of_cons)
    refine (hoperands.node n (!b) (List.nodup_cons.mp hnodup).1).mono (List.Subset.refl _)
      fun ω ⟨hn, hfirst, hsecond, hrest⟩ => ?_
    rw [Expr.decided, getD_of_ne hfirst hn]
    split
    · exact decidedBoolOp_ne op hn hsecond hrest
    · simp
  | condition, b, .compare n left op first rest, hnodup =>
    (steerable_node n (!b)).mono (by simp [Expr.sites]) fun ω hn => decidedChain_ne hn rest
  | condition, b, .ifExp n test body orelse, hnodup => by
    have hparts := List.nodup_append.mp hnodup.of_cons
    have hbranches := List.nodup_append.mp hparts.2.1
    refine ((steerable_avoids condition b body hbranches.1).and
      (steerable_avoids condition b orelse hbranches.2.1)
      (fun ω ω' h hne => decided_congr condition body h ▸ hne)
      (notMem_left_of_nodup hparts.2.1)).mono ?_ fun ω ⟨hbody, horelse⟩ => ?_
    · exact List.subset_cons_of_subset n (List.subset_append_right test.sites _)
    · rw [Expr.decided]
      split
      · exact hbody
      · exact horelse

theorem steerable_avoidsAll : ∀ (condition b : Bool) (es : Exprs V), es.sites.Nodup →
    Steerable es.sites fun ω => es.Avoids ω condition b
  | _, _, .nil, _ => steerable_of_forall fun _ => trivial
  | condition, b, .cons e es, hnodup =>
    (steerable_avoids condition b e (List.nodup_append.mp hnodup).1).and
      (steerable_avoidsAll condition b es (List.nodup_append.mp hnodup).2.1)
      (fun _ _ h hne => decided_congr condition e h ▸ hne) (notMem_left_of_nodup hnodup)

end

mutual

/-- An expression that may decide does so under some guide. -/
theorem steerable_decides : ∀ (condition : Bool) (e : Expr V), e.sites.Nodup →
    e.decides condition = true → Steerable e.sites fun ω => (e.decided ω condition).isSome
  | _, .literal _, _, h | _, .name _ _, _, h | _, .starred _ _, _, h | _, .set _ _, _, h
  | _, .named _ _ _, _, h | _, .compare _ _ _ _ .nil, _, h => Bool.noConfusion h
  | condition, .operation n op args, hnodup, h => by
    rw [Expr.decides, Bool.and_eq_true] at h
    refine (steerable_decidesAll (condition && op.negates) args hnodup.of_cons h.2).mono
      (List.subset_cons_self n _) fun ω hargs => ?_
    rw [Expr.decided, if_pos h.1, Option.isSome_map]
    exact hargs
  | condition, .boolOp n op first second rest, hnodup, _ => by
    -- The first operand decides, when the guide stops the operator at it.
    have hparts := List.nodup_append.mp hnodup.of_cons
    have hn : n ∉ first.sites := fun hmem =>
      (List.nodup_cons.mp hnodup).1 (List.mem_append_left _ hmem)
    refine ((steerable_avoids condition (op == .and) first hparts.1).node n (op == .or) hn).mono
      (List.cons_subset_cons n (List.subset_append_left _ _)) fun ω ⟨hn, hfirst⟩ => ?_
    have hstop : (op == .or) = !(op == .and) := by cases op <;> rfl
    have hgoes : op.goesOn (!(op == .and)) = false := by cases op <;> rfl
    rw [Expr.decided, getD_of_ne hfirst (hn.trans hstop), hgoes]
    rfl
  | condition, .compare n left op first (.cons op' second rest), _, h => by
    obtain rfl : condition = true := h
    refine (steerable_node n false).mono (by simp [Expr.sites]) fun ω hn => ?_
    rw [Expr.decided, Comparators.decidedChain, hn]
    rfl
  | condition, .ifExp n test body orelse, hnodup, h => by
    have hparts := List.nodup_append.mp hnodup.of_cons
    have hbranches := List.nodup_append.mp hparts.2.1
    have hnotMem := (List.nodup_cons.mp hnodup).1
    -- The guide makes the test end with `b`, where the branch for `b` decides.
    have hbranch : ∀ (b : Bool) (branch : Expr V), branch.sites ⊆ body.sites ++ orelse.sites →
        Steerable branch.sites (fun ω => (branch.decided ω condition).isSome) →
        Steerable (Expr.ifExp n test body orelse).sites fun ω =>
          (test.decided ω true).getD (ω n) = b ∧ (branch.decided ω condition).isSome := by
      intro b branch hsub hsteer
      have htest := (steerable_avoids true (!b) test hparts.1).and hsteer
        (fun ω ω' h hne => decided_congr true test h ▸ hne)
        fun m hm => notMem_left_of_nodup hnodup.of_cons m (hsub hm)
      have hn : n ∉ test.sites ++ branch.sites := fun hmem =>
        hnotMem (List.mem_append.mpr ((List.mem_append.mp hmem).imp_right fun hm => hsub hm))
      refine (htest.node n b hn).mono (by grind [Expr.sites]) fun ω ⟨hn, hne, hsome⟩ => ?_
      refine ⟨?_, hsome⟩
      rw [getD_of_ne hne (by rw [hn, Bool.not_not]), Bool.not_not]
    rw [Expr.decides, Bool.or_eq_true] at h
    rcases h with h | h
    · refine (hbranch true body (List.subset_append_left _ _)
        (steerable_decides condition body hbranches.1 h)).mono (List.Subset.refl _)
        fun ω ⟨hb, hsome⟩ => ?_
      rw [Expr.decided, hb]
      exact hsome
    · refine (hbranch false orelse (List.subset_append_right _ _)
        (steerable_decides condition orelse hbranches.2.1 h)).mono (List.Subset.refl _)
        fun ω ⟨hb, hsome⟩ => ?_
      rw [Expr.decided, hb]
      exact hsome

theorem steerable_decidesAll : ∀ (condition : Bool) (es : Exprs V), es.sites.Nodup →
    es.decides condition = true → Steerable es.sites fun ω => (es.decided ω condition).isSome
  | _, .nil, _, h => Bool.noConfusion h
  | condition, .cons e es, hnodup, h => by
    have hparts := List.nodup_append.mp hnodup
    rw [Exprs.decides, Bool.or_eq_true] at h
    rcases h with h | h
    · refine (steerable_decides condition e hparts.1 h).mono (List.subset_append_left _ _)
        fun ω hsome => ?_
      rw [Exprs.decided, Option.isSome_or, hsome, Bool.true_or]
    · refine (steerable_decidesAll condition es hparts.2.1 h).mono (List.subset_append_right _ _)
        fun ω hsome => ?_
      rw [Exprs.decided, Option.isSome_or, hsome, Bool.or_true]

end

/-- An expression that no guide makes decide. -/
theorem decides_eq_false {condition : Bool} {e : Expr V} (hnodup : e.sites.Nodup)
    (ω₀ : NodeIndex → Bool)
    (h : ∀ ω, (∀ m, m ∉ e.sites → ω m = ω₀ m) → e.decided ω condition = none) :
    e.decides condition = false := by
  by_contra hdecides
  obtain ⟨ω, hω, hsome⟩ := steerable_decides condition e hnodup (by simpa using hdecides) ω₀
  rw [h ω hω] at hsome
  exact Bool.noConfusion hsome

end DietPython.Expressions
