import DietPython.Expressions.Order
import DietPython.Expressions.OrderTraces

/-!
# Only orderly expressions are lowered faithfully

In a guided world every expression leaves a known list of nodes, and so does its lowered form. If
the two lists agree for every guide, then nothing was hoisted over a sibling: the nodes of
siblings are disjoint, so the lists of the parts can be read off the list of the whole.
-/

namespace DietPython.Expressions

open LoggedComputations Logged

variable {V E : Type}

/-! ## Events of the lowered form -/

/-- The events of a lowered expression: a setup has some, and all belong to nodes of the
expression. -/
structure LoweredEvents (sites : List NodeIndex) (hoists : Bool) (s : Setup V)
    (residual : List NodeIndex) : Prop where
  hoists_eq_false : ∀ ω, s.trace ω = [] → hoists = false
  setup : ∀ ω, s.trace ω ⊆ sites
  residual : residual ⊆ sites

theorem LoweredEvents.cons {sites sites' : List NodeIndex} {hoists hoists' : Bool}
    {s s' : Setup V} {r r' : List NodeIndex} (h : LoweredEvents sites hoists s r)
    (h' : LoweredEvents sites' hoists' s' r') :
    LoweredEvents (sites ++ sites') (hoists || hoists') (s ++ s') (r ++ r') where
  hoists_eq_false := by
    intro ω hω
    rw [trace_append, List.append_eq_nil_iff] at hω
    rw [h.hoists_eq_false ω hω.1, h'.hoists_eq_false ω hω.2, Bool.or_false]
  setup := by
    intro ω
    rw [trace_append]
    grind [h.setup ω, h'.setup ω]
  residual := by grind [h.residual, h'.residual]

theorem trace_compareExpr (n : NodeIndex) (op : CmpOp) (l r : Core V) :
    (compareExpr n op l r).trace =
      (if op.swapped then r.trace ++ l.trace else l.trace ++ r.trace) ++ [n] := by
  unfold compareExpr
  split <;> simp [Core.trace, Cores.trace, Op.silent]

theorem trace_boolOpStep (ω : NodeIndex → Bool) (n : NodeIndex) (op : BoolOp) (s : Setup V)
    (r : Core V) (next : Setup V) :
    (boolOpStep n op s r next).trace ω =
      n :: ((if op.goesOn (ω n) then s.trace ω ++ r.trace else []) ++ next.trace ω) := by
  have hgoes : (ω n != (op == .or)) = op.goesOn (ω n) := by cases op <;> cases ω n <;> rfl
  simp only [boolOpStep, Setup.trace, Core.trace, hgoes, trace_append, List.append_nil,
    List.nil_append]

mutual

theorem lower_events : ∀ (e : Expr V) {s : Setup V} {r : Core V}, e.lower = some (s, r) →
    LoweredEvents e.sites e.hoists s r.trace
  | .literal c, s, r, h => by
    obtain ⟨rfl, rfl⟩ := Prod.mk.inj (Option.some.inj h)
    exact ⟨fun _ _ => rfl, fun _ => List.nil_subset _, List.nil_subset _⟩
  | .name n id, s, r, h => by
    obtain ⟨rfl, rfl⟩ := Prod.mk.inj (Option.some.inj h)
    exact ⟨fun _ _ => rfl, fun _ => List.nil_subset _, List.Subset.refl _⟩
  | .operation n op args, s, r, h => by
    obtain ⟨rs, hargs, rfl⟩ := lower_operation_iff.mp h
    obtain ⟨hnil, hs, hr⟩ := lowerAll_events args hargs
    exact ⟨hnil, by grind [Expr.sites], by grind [Core.trace, Expr.sites]⟩
  | .starred n value, s, r, h => by
    obtain ⟨c, hvalue, rfl⟩ := lower_starred_iff.mp h
    obtain ⟨hnil, hs, hr⟩ := lower_events value hvalue
    exact ⟨hnil, by grind [Expr.sites], by grind [Core.trace, Cores.trace, Expr.sites]⟩
  | .set n elts, s, r, h => by
    obtain ⟨rs, helts, rfl⟩ := lower_set_iff.mp h
    obtain ⟨hnil, hs, hr⟩ := lowerSet_events elts helts
    exact ⟨hnil, by grind [Expr.sites], by grind [Core.trace, Expr.sites]⟩
  | .boolOp n op first second rest, s, r, h => by
    obtain ⟨s₁, r₁, s₂, r₂, steps, h₁, h₂, hrest, rfl, rfl⟩ := lower_boolOp_iff.mp h
    have hfirst := lower_events first h₁
    have hsecond := lower_events second h₂
    have hsteps := fun ω => lowerBoolOp_events ω n op rest hrest
    refine ⟨fun ω hω => ?_, fun ω => ?_, List.nil_subset _⟩
    · simp [trace_append, Setup.trace, trace_boolOpStep] at hω
    · simp only [trace_append, Setup.trace, trace_boolOpStep, Expr.sites]
      grind [hfirst.setup ω, hfirst.residual, hsecond.setup ω, hsecond.residual, hsteps ω]
  | .compare n left op first .nil, s, r, h => by
    obtain ⟨s₁, l, s₂, c, h₁, h₂, rfl, rfl⟩ := lower_compare_iff.mp h
    have hleft := lower_events left h₁
    have hfirst := lower_events first h₂
    refine ⟨fun ω hω => ?_, fun ω => ?_, ?_⟩
    · rw [trace_append, List.append_eq_nil_iff] at hω
      rw [Expr.hoists, hleft.hoists_eq_false ω hω.1, hfirst.hoists_eq_false ω hω.2]
      rfl
    · rw [trace_append, Expr.sites]
      grind [hleft.setup ω, hfirst.setup ω]
    · rw [trace_compareExpr, Expr.sites]
      grind [hleft.residual, hfirst.residual]
  | .compare n left op first (.cons op' second rest), s, r, h => by
    obtain ⟨s₁, l, s₂, c, s₃, c', steps, h₁, h₂, h₃, hrest, rfl, rfl⟩ := lower_chain_iff.mp h
    have hleft := lower_events left h₁
    have hfirst := lower_events first h₂
    have hsecond := lower_events second h₃
    have hsteps := fun ω => lowerChain_events ω n rest (hsecond.setup ω) hsecond.residual hrest
    refine ⟨fun ω hω => ?_, fun ω => ?_, List.nil_subset _⟩
    · simp [trace_append, Setup.trace, trace_compareExpr] at hω
    · simp only [trace_append, Setup.trace, trace_compareExpr, Core.trace, Expr.sites,
        Comparators.sites]
      grind [hleft.setup ω, hleft.residual, hfirst.setup ω, hfirst.residual, hsteps ω]
  | .ifExp n test body orelse, s, r, h => by
    obtain ⟨s₁, r₁, s₂, r₂, s₃, r₃, h₁, h₂, h₃, rfl, rfl⟩ := lower_ifExp_iff.mp h
    have htest := lower_events test h₁
    have hbody := lower_events body h₂
    have horelse := lower_events orelse h₃
    refine ⟨fun ω hω => ?_, fun ω => ?_, List.nil_subset _⟩
    · simp [trace_append, Setup.trace] at hω
    · simp only [trace_append, Setup.trace, Expr.sites]
      grind [htest.setup ω, htest.residual, hbody.setup ω, hbody.residual, horelse.setup ω,
        horelse.residual]
  | .named n id value, s, r, h => by
    obtain ⟨s₁, r₁, h₁, rfl, rfl⟩ := lower_named_iff.mp h
    have hvalue := lower_events value h₁
    refine ⟨fun ω hω => ?_, fun ω => ?_, ?_⟩
    · simp [trace_append, Setup.trace, Core.trace, Op.silent] at hω
    · simp only [trace_append, Setup.trace, Core.trace, Cores.trace, Expr.sites]
      grind [hvalue.setup ω, hvalue.residual]
    · grind [Core.trace, Expr.sites]

theorem lowerAll_events : ∀ (es : Exprs V) {s : Setup V} {rs : Cores V},
    es.lower = some (s, rs) → LoweredEvents es.sites es.hoists s rs.trace
  | .nil, s, rs, h => by
    obtain ⟨rfl, rfl⟩ := Prod.mk.inj (Option.some.inj h)
    exact ⟨fun _ _ => rfl, fun _ => List.nil_subset _, List.nil_subset _⟩
  | .cons e es, s, rs, h => by
    obtain ⟨s₁, r₁, s₂, rs₂, h₁, h₂, rfl, rfl⟩ := lowerAll_cons_iff.mp h
    exact (lower_events e h₁).cons (lowerAll_events es h₂)

theorem lowerSet_events : ∀ (es : Exprs V) {s : Setup V} {rs : Cores V},
    es.lowerSet = some (s, rs) → LoweredEvents es.sites es.hoists s rs.trace
  | .nil, s, rs, h => by
    obtain ⟨rfl, rfl⟩ := Prod.mk.inj (Option.some.inj h)
    exact ⟨fun _ _ => rfl, fun _ => List.nil_subset _, List.nil_subset _⟩
  | .cons e es, s, rs, h => by
    obtain ⟨s₁, r₁, s₂, rs₂, h₁, h₂, rfl, rfl⟩ := lowerSet_cons_iff.mp h
    exact (lower_events e (lower_of_lowerElement h₁)).cons (lowerSet_events es h₂)

theorem lowerBoolOp_events (ω : NodeIndex → Bool) (n : NodeIndex) (op : BoolOp) :
    ∀ (es : Exprs V) {s : Setup V}, es.lowerBoolOp n op = some s → s.trace ω ⊆ n :: es.sites
  | .nil, s, h => by
    obtain rfl := Option.some.inj h
    exact List.nil_subset _
  | .cons e es, s, h => by
    obtain ⟨s₁, r₁, steps, h₁, h₂, rfl⟩ := lowerBoolOp_cons_iff.mp h
    have he := lower_events e h₁
    have hes := lowerBoolOp_events ω n op es h₂
    rw [trace_boolOpStep, Exprs.sites]
    grind [he.setup ω, he.residual]

theorem lowerChain_events (ω : NodeIndex → Bool) (n : NodeIndex) :
    ∀ (rest : Comparators V) {op : CmpOp} {i : Nat} {s₀ : Setup V} {c : Core V}
    {sites : List NodeIndex} {s : Setup V}, s₀.trace ω ⊆ sites → c.trace ⊆ sites →
    rest.lowerChain n op i s₀ c = some s → s.trace ω ⊆ n :: (sites ++ rest.sites)
  | .nil, op, i, s₀, c, sites, s, hs₀, hc, h => by
    obtain rfl := Option.some.inj h
    simp only [Setup.trace, trace_append, trace_compareExpr, Core.trace]
    grind
  | .cons op' e rest, op, i, s₀, c, sites, s, hs₀, hc, h => by
    obtain ⟨s₁, r₁, steps, h₁, h₂, rfl⟩ := lowerChain_cons_iff.mp h
    have he := lower_events e h₁
    have hrest := lowerChain_events ω n rest (he.setup ω) he.residual h₂
    simp only [Setup.trace, trace_append, trace_compareExpr, Core.trace, Comparators.sites]
    grind

end

/-! ## Reading off the parts -/

/-- Two lists of nodes that depend on the guide are the same for every guide that agrees with `ω₀`
outside `sites`. -/
def SameFor (sites : List NodeIndex) (ω₀ : NodeIndex → Bool)
    (low src : (NodeIndex → Bool) → List NodeIndex) : Prop :=
  ∀ ω, (∀ m, m ∉ sites → ω m = ω₀ m) → low ω = src ω

/-- A part of the nodes, with the guide fixed at the node of the whole. -/
theorem SameFor.part {sites part : List NodeIndex} {ω₀ : NodeIndex → Bool} {n : NodeIndex}
    {low src low' src' : (NodeIndex → Bool) → List NodeIndex} (h : SameFor sites ω₀ low src)
    (hn : n ∈ sites) (hpart : part ⊆ sites) (hnpart : n ∉ part) (b : Bool)
    (himp : ∀ ω, ω n = b → low ω = src ω → low' ω = src' ω) :
    SameFor part (Function.update ω₀ n b) low' src' := by
  intro ω hω
  have hb : ω n = b := (hω n hnpart).trans (Function.update_self n b ω₀)
  refine himp ω hb (h ω fun m hm => ?_)
  rw [hω m fun hmem => hm (hpart hmem), Function.update_of_ne]
  rintro rfl
  exact hm hn

/-- A part of the nodes, whatever the guide is. -/
theorem SameFor.imp {sites part : List NodeIndex} {ω₀ : NodeIndex → Bool}
    {low src low' src' : (NodeIndex → Bool) → List NodeIndex} (h : SameFor sites ω₀ low src)
    (hpart : part ⊆ sites) (himp : ∀ ω, low ω = src ω → low' ω = src' ω) :
    SameFor part ω₀ low' src' :=
  fun ω hω => himp ω (h ω fun m hm => hω m fun hmem => hm (hpart hmem))

theorem SameFor.self {sites : List NodeIndex} {ω₀ : NodeIndex → Bool}
    {low src : (NodeIndex → Bool) → List NodeIndex} (h : SameFor sites ω₀ low src) :
    low ω₀ = src ω₀ := h ω₀ fun _ _ => rfl

section Split

variable {sites rest : List NodeIndex} {A C T B D U : List NodeIndex}

/-- What belongs to the first part comes first on both sides. -/
theorem split_sites (hdisjoint : ∀ x ∈ rest, x ∉ sites) (hA : A ⊆ sites) (hT : T ⊆ sites)
    (hD : D ⊆ rest) (hU : U ⊆ rest) (h : A ++ D = T ++ U) : A = T ∧ D = U :=
  append_inj_of_disjoint (p := fun x => x ∈ sites) (fun _ hx => hA hx) (fun _ hx => hT hx)
    (fun x hx => hdisjoint x (hD hx)) (fun x hx => hdisjoint x (hU hx)) h

theorem split_interleaved (hdisjoint : ∀ x ∈ rest, x ∉ sites) (hA : A ⊆ sites) (hC : C ⊆ sites)
    (hT : T ⊆ sites) (hB : B ⊆ rest) (hD : D ⊆ rest) (hU : U ⊆ rest)
    (h : A ++ B ++ (C ++ D) = T ++ U) : A ++ C = T ∧ B ++ D = U ∧ (B = [] ∨ C = []) :=
  interleaved_inj (p := fun x => x ∈ sites) (fun _ hx => hA hx) (fun _ hx => hC hx)
    (fun _ hx => hT hx) (fun x hx => hdisjoint x (hB hx)) (fun x hx => hdisjoint x (hD hx))
    (fun x hx => hdisjoint x (hU hx)) h

end Split

theorem plainElements_of_lowerSet : ∀ {es : Exprs V} {s : Setup V} {rs : Cores V},
    es.lowerSet = some (s, rs) → es.plainElements = true ∧ es.lower = some (s, rs)
  | .nil, s, rs, h => ⟨rfl, h⟩
  | .cons e es, s, rs, h => by
    obtain ⟨s₁, r₁, s₂, rs₂, he, hes, rfl, rfl⟩ := lowerSet_cons_iff.mp h
    obtain ⟨hplain, hlower⟩ := plainElements_of_lowerSet hes
    refine ⟨?_, lowerAll_cons_iff.mpr
      ⟨s₁, r₁, s₂, rs₂, lower_of_lowerElement he, hlower, rfl, rfl⟩⟩
    rw [Exprs.plainElements, hplain, Bool.and_true]
    cases e with
    | starred n value =>
      obtain ⟨c, hvalue, -⟩ := Option.map_eq_some_iff.mp he
      have hlowered := lower_lowered value ((fromExpr_iff value c).mp hvalue)
      rw [Expr.plainElement, hlowered.setup.mp rfl]
      rfl
    | _ => rfl

/-- The operands of a comparison that leaves the nodes of the source are evaluated in order. -/
theorem inOrder_of_trace (n : NodeIndex) (op : CmpOp) {left first : Expr V} {s s' : Setup V}
    {l r : Core V} (hl : left.lower = some (s, l)) (hr : first.lower = some (s', r))
    (hdisjoint : ∀ x ∈ first.sites, x ∉ left.sites) (ω : NodeIndex → Bool)
    (h : (s ++ s').trace ω ++ (compareExpr n op l r).trace =
      left.trace ω false ++ (first.trace ω false ++ [n])) :
    s.trace ω ++ l.trace = left.trace ω false ∧ s'.trace ω ++ r.trace = first.trace ω false ∧
      op.inOrder left first = true := by
  have hleft := lower_events left hl
  have hfirst := lower_events first hr
  rw [trace_append, trace_compareExpr, ← List.append_assoc, ← List.append_assoc] at h
  have hcancel := List.append_cancel_right h
  rw [CmpOp.inOrder, ← (lower_lowered left hl).quiet, ← (lower_lowered first hr).quiet]
  cases hop : op.swapped with
  | false =>
    rw [hop, if_neg Bool.false_ne_true] at hcancel
    obtain ⟨h₁, h₂, hnil⟩ := split_interleaved hdisjoint (hleft.setup ω) hleft.residual
      (trace_subset ω false left) (hfirst.setup ω) hfirst.residual
        (trace_subset ω false first) hcancel
    refine ⟨h₁, h₂, ?_⟩
    rcases hnil with hnil | hnil
    · rw [hfirst.hoists_eq_false ω hnil]
      simp
    · rw [(trace_eq_nil_iff l).mp hnil]
      rfl
  | true =>
    have hshape : s.trace ω ++ (s'.trace ω ++ r.trace) ++ (l.trace ++ []) =
        left.trace ω false ++ first.trace ω false := by
      rw [hop, if_pos rfl] at hcancel
      simpa only [List.append_assoc, List.append_nil] using hcancel
    obtain ⟨h₁, h₂, hnil⟩ := split_interleaved hdisjoint (hleft.setup ω) hleft.residual
      (trace_subset ω false left) (List.append_subset.mpr ⟨hfirst.setup ω, hfirst.residual⟩)
      (List.nil_subset _) (trace_subset ω false first) hshape
    rw [List.append_nil] at h₂
    refine ⟨h₁, h₂, ?_⟩
    rcases hnil with hnil | hnil
    · obtain ⟨hs', hr'⟩ := List.append_eq_nil_iff.mp hnil
      rw [hfirst.hoists_eq_false ω hs', (trace_eq_nil_iff r).mp hr']
      simp
    · rw [(trace_eq_nil_iff l).mp hnil]
      rfl

theorem lowerChain_trace_ne_nil (ω : NodeIndex → Bool) {n : NodeIndex} {op : CmpOp} {i : Nat}
    {s₀ : Setup V} {c : Core V} {rest : Comparators V} {s : Setup V}
    (h : rest.lowerChain n op i s₀ c = some s) : s.trace ω ≠ [] := by
  cases rest with
  | nil =>
    obtain rfl := Option.some.inj h
    simp [Setup.trace]
  | cons op' e rest =>
    obtain ⟨s₁, r₁, steps, -, -, rfl⟩ := lowerChain_cons_iff.mp h
    simp [Setup.trace]

/-- The lowered form leaves the nodes of the source, whatever the guide is at the nodes of the
expression. -/
def Expr.Matches (e : Expr V) : Prop :=
  ∃ s r ω₀, e.lower = some (s, r) ∧
    SameFor e.sites ω₀ (fun ω => s.trace ω ++ r.trace) fun ω => e.trace ω false

def Exprs.Matches (es : Exprs V) : Prop :=
  ∃ s rs ω₀, es.lower = some (s, rs) ∧
    SameFor es.sites ω₀ (fun ω => s.trace ω ++ rs.trace) fun ω => es.trace ω false

section Matches

variable {n : NodeIndex}

theorem operation_matches {op : Op} {args : Exprs V} (h : (Expr.operation n op args).Matches) :
    args.Matches := by
  obtain ⟨s, r, ω₀, hlower, hsame⟩ := h
  obtain ⟨rs, hargs, rfl⟩ := lower_operation_iff.mp hlower
  refine ⟨s, rs, ω₀, hargs, hsame.imp (List.subset_cons_self n _) fun ω hω => ?_⟩
  rw [Core.trace, ← List.append_assoc] at hω
  exact List.append_cancel_right hω

theorem starred_matches {value : Expr V} (h : (Expr.starred n value).Matches) : value.Matches := by
  obtain ⟨s, r, ω₀, hlower, hsame⟩ := h
  obtain ⟨c, hvalue, rfl⟩ := lower_starred_iff.mp hlower
  refine ⟨s, c, ω₀, hvalue, hsame.imp (List.subset_cons_self n _) fun ω hω => ?_⟩
  rw [Core.trace, Cores.trace, Cores.trace, List.append_nil, ← List.append_assoc] at hω
  exact List.append_cancel_right hω

theorem set_matches {elts : Exprs V} (h : (Expr.set n elts).Matches) :
    elts.Matches ∧ elts.plainElements = true := by
  obtain ⟨s, r, ω₀, hlower, hsame⟩ := h
  obtain ⟨rs, helts, rfl⟩ := lower_set_iff.mp hlower
  obtain ⟨hplain, hargs⟩ := plainElements_of_lowerSet helts
  refine ⟨⟨s, rs, ω₀, hargs, hsame.imp (List.subset_cons_self n _) fun ω hω => ?_⟩, hplain⟩
  rw [Core.trace, ← List.append_assoc] at hω
  exact List.append_cancel_right hω

theorem cons_matches {e : Expr V} {es : Exprs V} (hnodup : (Exprs.cons e es).sites.Nodup)
    (h : (Exprs.cons e es).Matches) :
    e.Matches ∧ es.Matches ∧ (es.hoists = false ∨ e.quiet = true) := by
  obtain ⟨s, rs, ω₀, hlower, hsame⟩ := h
  obtain ⟨s₁, r₁, s₂, rs₂, h₁, h₂, rfl, rfl⟩ := lowerAll_cons_iff.mp hlower
  have hhead := lower_events e h₁
  have htail := lowerAll_events es h₂
  have hsplit : ∀ ω, (s₁ ++ s₂).trace ω ++ (Cores.cons r₁ rs₂).trace =
      (Exprs.cons e es).trace ω false → s₁.trace ω ++ r₁.trace = e.trace ω false ∧
        s₂.trace ω ++ rs₂.trace = es.trace ω false ∧ (s₂.trace ω = [] ∨ r₁.trace = []) := by
    intro ω hω
    rw [trace_append, Cores.trace, Exprs.trace] at hω
    exact split_interleaved (notMem_left_of_nodup hnodup) (hhead.setup ω) hhead.residual
      (trace_subset ω false e) (htail.setup ω) htail.residual (traceAll_subset ω false es) hω
  refine ⟨⟨s₁, r₁, ω₀, h₁, hsame.imp (List.subset_append_left _ _) fun ω hω => (hsplit ω hω).1⟩,
    ⟨s₂, rs₂, ω₀, h₂, hsame.imp (List.subset_append_right _ _) fun ω hω => (hsplit ω hω).2.1⟩, ?_⟩
  rw [← (lower_lowered e h₁).quiet, ← trace_eq_nil_iff]
  exact (hsplit ω₀ hsame.self).2.2.imp_left (htail.hoists_eq_false ω₀)

theorem compare_matches {op : CmpOp} {left first : Expr V}
    (hnodup : (left.sites ++ first.sites).Nodup) (h : (Expr.compare n left op first .nil).Matches) :
    left.Matches ∧ first.Matches ∧ op.inOrder left first = true := by
  obtain ⟨s, r, ω₀, hlower, hsame⟩ := h
  obtain ⟨s₁, l, s₂, c, h₁, h₂, rfl, rfl⟩ := lower_compare_iff.mp hlower
  have hread := fun ω => inOrder_of_trace n op h₁ h₂ (notMem_left_of_nodup hnodup) ω
  exact ⟨⟨s₁, l, ω₀, h₁, hsame.imp (by grind [Expr.sites]) fun ω hω => (hread ω hω).1⟩,
    ⟨s₂, c, ω₀, h₂, hsame.imp (by grind [Expr.sites]) fun ω hω => (hread ω hω).2.1⟩,
    (hread ω₀ hsame.self).2.2⟩

/-- A walrus is read again after the store. -/
theorem not_named_matches {id : Name} {value : Expr V} (hn : n ∉ value.sites) :
    ¬ (Expr.named n id value).Matches := by
  rintro ⟨s, r, ω₀, hlower, hsame⟩
  obtain ⟨s₁, r₁, h₁, rfl, rfl⟩ := lower_named_iff.mp hlower
  have hvalue := lower_events value h₁
  have hlow := hsame.self
  simp only [trace_append, Setup.trace, Core.trace, Cores.trace, Op.silent, List.append_nil,
    Expr.trace, Bool.false_eq_true, if_false, List.append_assoc] at hlow
  rw [← List.append_assoc] at hlow
  have hdisjoint : ∀ x ∈ [n], x ∉ value.sites := by simpa using hn
  have htwice := (split_sites hdisjoint
    (List.append_subset.mpr ⟨hvalue.setup ω₀, hvalue.residual⟩) (trace_subset ω₀ false value)
    (by simp) (by simp) hlow).2
  simp at htwice

end Matches

/-! ### Boolean operators -/

section BoolOp

variable {n : NodeIndex} {op : BoolOp} {first second : Expr V} {rest : Exprs V}
  {s₁ s₂ steps : Setup V} {r₁ r₂ : Core V} {ω : NodeIndex → Bool}

/-- The first operand comes first on both sides; the lowered form goes on with its truth test. -/
theorem boolOp_split (hnodup : (Expr.boolOp n op first second rest).sites.Nodup)
    (h₁ : first.lower = some (s₁, r₁)) (h₂ : second.lower = some (s₂, r₂))
    (hrest : rest.lowerBoolOp n op = some steps)
    (h : (s₁ ++ .assign (.target n) r₁ (boolOpStep n op s₂ r₂ steps)).trace ω ++
      (Core.temp (.target n) : Core V).trace = (Expr.boolOp n op first second rest).trace ω false) :
    s₁.trace ω ++ r₁.trace = first.trace ω false ∧
      n :: ((if op.goesOn (ω n) then s₂.trace ω ++ r₂.trace else []) ++ steps.trace ω) =
        (Exprs.cons second rest).traceBoolOp ω false n op (first.decided ω false) := by
  have hn := (List.nodup_cons.mp hnodup).1
  have hdisjoint : ∀ x ∈ n :: (second.sites ++ rest.sites), x ∉ first.sites := by
    have hd := notMem_left_of_nodup hnodup.of_cons
    grind
  have hfirst := lower_events first h₁
  have hsecond := lower_events second h₂
  have hsteps := lowerBoolOp_events ω n op rest hrest
  simp only [trace_append, Setup.trace, trace_boolOpStep, Core.trace, List.append_nil,
    Expr.trace] at h
  rw [← List.append_assoc] at h
  exact split_sites hdisjoint (List.append_subset.mpr ⟨hfirst.setup ω, hfirst.residual⟩)
    (trace_subset ω false first) (by grind [hsecond.setup ω, hsecond.residual])
    (traceBoolOp_subset ω false n op (first.decided ω false) (.cons second rest)) h

theorem testTrace_of_mem {known : Option Bool} (h : n ∈ testTrace n known) : known = none := by
  cases known with
  | none => rfl
  | some b => exact absurd h List.not_mem_nil

/-- When the guide stops the operator, Python asks at the operator at most once. -/
theorem count_traceBoolOp_le (hstop : op.goesOn (ω n) = false) (condition : Bool) :
    ∀ (known : Option Bool) {es : Exprs V}, n ∉ es.sites →
    (es.traceBoolOp ω condition n op known).count n ≤ 1
  | _, .nil, _ => by simp [Exprs.traceBoolOp]
  | none, .cons e es, _ => by simp [Exprs.traceBoolOp, testTrace, hstop]
  | some b, .cons e es, h => by
    rw [Exprs.sites, List.mem_append, not_or] at h
    have he : n ∉ e.trace ω condition := fun hmem => h.1 (trace_subset ω condition e hmem)
    have hes := count_traceBoolOp_le hstop condition (e.decided ω condition) h.2
    rw [Exprs.traceBoolOp]
    split
    · rwa [testTrace, Option.isSome_some, if_pos rfl, List.nil_append, List.count_append,
        List.count_eq_zero.mpr he, Nat.zero_add]
    · simp [testTrace]

/-- The lowered form tests again at every operand that is left. -/
theorem lowerBoolOp_eq_nil (hnodup : (Expr.boolOp n op first second rest).sites.Nodup)
    (hrest : rest.lowerBoolOp n op = some steps) (hstop : op.goesOn (ω n) = false)
    (h : n :: ((if op.goesOn (ω n) then s₂.trace ω ++ r₂.trace else []) ++ steps.trace ω) =
      (Exprs.cons second rest).traceBoolOp ω false n op (first.decided ω false)) : rest = .nil := by
  cases rest with
  | nil => rfl
  | cons e es =>
    obtain ⟨s', r', steps', -, -, rfl⟩ := lowerBoolOp_cons_iff.mp hrest
    have hn : n ∉ (Exprs.cons second (.cons e es)).sites := fun hmem =>
      (List.nodup_cons.mp hnodup).1 (List.mem_append_right _ hmem)
    have hcount := count_traceBoolOp_le hstop false (first.decided ω false) hn
    rw [← h, hstop, trace_boolOpStep, hstop] at hcount
    simp at hcount

/-- Two operands, the first of which has decided nothing. -/
theorem boolOp_undecided (hn : n ∉ second.sites)
    (h : n :: (if op.goesOn (ω n) then s₂.trace ω ++ r₂.trace else []) =
      (Exprs.cons second .nil).traceBoolOp ω false n op (first.decided ω false)) :
    first.decided ω false = none ∧
      (op.goesOn (ω n) = true → s₂.trace ω ++ r₂.trace = second.trace ω false) := by
  have hmem : n ∈ (Exprs.cons second .nil).traceBoolOp ω false n op (first.decided ω false) :=
    h ▸ List.mem_cons_self
  have hnone : first.decided ω false = none := by
    rw [Exprs.traceBoolOp, List.mem_append] at hmem
    refine testTrace_of_mem (hmem.resolve_right fun hmem => ?_)
    split at hmem
    · rw [Exprs.traceBoolOp, List.append_nil] at hmem
      exact hn (trace_subset ω false second hmem)
    · exact List.not_mem_nil hmem
  refine ⟨hnone, fun hgoes => ?_⟩
  rw [hnone] at h
  simpa [Exprs.traceBoolOp, testTrace, hgoes] using h

theorem boolOp_matches (hnodup : (Expr.boolOp n op first second rest).sites.Nodup)
    (h : (Expr.boolOp n op first second rest).Matches) :
    first.Matches ∧ second.Matches ∧ first.decides false = false ∧ rest = .nil := by
  obtain ⟨s, r, ω₀, hlower, hsame⟩ := h
  obtain ⟨s₁, r₁, s₂, r₂, steps, h₁, h₂, hrest, rfl, rfl⟩ := lower_boolOp_iff.mp hlower
  have hparts := List.nodup_append.mp hnodup.of_cons
  have hn : n ∉ second.sites := fun hmem => (List.nodup_cons.mp hnodup).1
    (List.mem_append_right _ (List.mem_append_left _ hmem))
  have hsplit := fun ω => boolOp_split (ω := ω) hnodup h₁ h₂ hrest
  obtain rfl : rest = .nil := by
    have hstop : op.goesOn (Function.update ω₀ n (op == .or) n) = false := by
      rw [Function.update_self]
      cases op <;> rfl
    have hstopped : SameFor (Expr.boolOp n op first second rest).sites
        (Function.update ω₀ n (op == .or)) _ _ := fun ω hω => hsame ω fun m hm => by
      rw [hω m hm, Function.update_of_ne]
      rintro rfl
      exact hm List.mem_cons_self
    exact lowerBoolOp_eq_nil hnodup hrest hstop (hsplit _ hstopped.self).2
  obtain rfl : steps = .done := (Option.some.inj hrest).symm
  have hparts' := fun ω hω => boolOp_undecided hn
    (by simpa only [Setup.trace, List.append_nil] using (hsplit ω hω).2)
  refine ⟨⟨s₁, r₁, ω₀, h₁, hsame.imp (by grind [Expr.sites]) fun ω hω => (hsplit ω hω).1⟩,
    ⟨s₂, r₂, Function.update ω₀ n (op == .and), h₂, hsame.part (by simp [Expr.sites])
      (by grind [Expr.sites]) hn (op == .and) fun ω hωn hω => (hparts' ω hω).2 ?_⟩,
    decides_eq_false hparts.1 ω₀ fun ω hω => (hparts' ω (hsame ω fun m hm => hω m ?_)).1, rfl⟩
  · rw [hωn]
    cases op <;> rfl
  · exact fun hmem => hm (List.mem_cons_of_mem n (List.mem_append_left _ hmem))

end BoolOp

/-! ### Comparison chains -/

section Chain

variable {n : NodeIndex} {op op' : CmpOp} {left first second : Expr V} {rest : Comparators V}
  {s₁ s₂ s₃ steps : Setup V} {l c c' : Core V} {ω : NodeIndex → Bool}

theorem chain_split
    (hnodup : (Expr.compare n left op first (.cons op' second rest)).sites.Nodup)
    (h₁ : left.lower = some (s₁, l)) (h₂ : first.lower = some (s₂, c))
    (h₃ : second.lower = some (s₃, c')) (hrest : rest.lowerChain n op' 2 s₃ c' = some steps)
    (h : (s₁ ++ .assign (.compare n 0) l (s₂ ++ .assign (.compare n 1) c
        (.assign (.target n) (compareExpr n op (.temp (.compare n 0)) (.temp (.compare n 1)))
          steps))).trace ω ++ (Core.temp (.target n) : Core V).trace =
      (Expr.compare n left op first (.cons op' second rest)).trace ω false) :
    s₁.trace ω ++ l.trace = left.trace ω false ∧ s₂.trace ω ++ c.trace = first.trace ω false ∧
      steps.trace ω = (Comparators.cons op' second rest).traceChain ω n := by
  have hn := (List.nodup_cons.mp hnodup).1
  have hparts := List.nodup_append.mp hnodup.of_cons
  have hdisjoint : ∀ x ∈ n :: (first.sites ++ (second.sites ++ rest.sites)),
      x ∉ left.sites := by
    have hd := notMem_left_of_nodup hnodup.of_cons
    grind [Comparators.sites]
  have hdisjoint' : ∀ x ∈ n :: (second.sites ++ rest.sites), x ∉ first.sites := by
    have hd := notMem_left_of_nodup hparts.2.1
    grind [Comparators.sites]
  have hleft := lower_events left h₁
  have hfirst := lower_events first h₂
  have hsecond := lower_events second h₃
  have hsteps := lowerChain_events ω n rest (hsecond.setup ω) hsecond.residual hrest
  have hsub := trace_subset ω false first
  have hsub' := traceChain_subset ω n (.cons op' second rest)
  rw [Comparators.sites] at hsub'
  simp only [trace_append, Setup.trace, trace_compareExpr, Core.trace, List.append_nil,
    List.nil_append, ite_self, Expr.trace] at h
  rw [← List.append_assoc] at h
  obtain ⟨hhead, htail⟩ := split_sites hdisjoint
    (List.append_subset.mpr ⟨hleft.setup ω, hleft.residual⟩) (trace_subset ω false left)
    (by grind [hfirst.setup ω, hfirst.residual]) (by grind) h
  rw [← List.append_assoc] at htail
  obtain ⟨hhead', htail'⟩ := split_sites hdisjoint'
    (List.append_subset.mpr ⟨hfirst.setup ω, hfirst.residual⟩) hsub (by grind) (by grind) htail
  exact ⟨hhead, hhead', (List.cons.inj htail').2⟩

/-- When the first comparison fails, Python is done and the lowered form tests again. -/
theorem lowerChain_eq_nil (hrest : rest.lowerChain n op' 2 s₃ c' = some steps)
    (hω : ω n = false)
    (h : steps.trace ω = (Comparators.cons op' second rest).traceChain ω n) : rest = .nil := by
  cases rest with
  | nil => rfl
  | cons op'' e rest =>
    obtain ⟨s', r', steps', -, hmore, rfl⟩ := lowerChain_cons_iff.mp hrest
    have hsteps : steps'.trace ω ≠ [] := lowerChain_trace_ne_nil ω hmore
    simp [Setup.trace, Comparators.traceChain, Core.trace, hω, hsteps] at h

theorem chain_matches (hnodup : (Expr.compare n left op first (.cons op' second rest)).sites.Nodup)
    (h : (Expr.compare n left op first (.cons op' second rest)).Matches) :
    left.Matches ∧ first.Matches ∧ second.Matches ∧ rest = .nil := by
  obtain ⟨s, r, ω₀, hlower, hsame⟩ := h
  obtain ⟨s₁, l, s₂, c, s₃, c', steps, h₁, h₂, h₃, hrest, rfl, rfl⟩ := lower_chain_iff.mp hlower
  have hn : n ∉ second.sites := fun hmem => (List.nodup_cons.mp hnodup).1 (List.mem_append_right _
    (List.mem_append_right _ (List.mem_append_left _ hmem)))
  have hsplit := fun ω => chain_split (ω := ω) hnodup h₁ h₂ h₃ hrest
  obtain rfl : rest = .nil := by
    have hfails : SameFor (Expr.compare n left op first (.cons op' second rest)).sites
        (Function.update ω₀ n false) _ _ := fun ω hω => hsame ω fun m hm => by
      rw [hω m hm, Function.update_of_ne]
      rintro rfl
      exact hm List.mem_cons_self
    exact lowerChain_eq_nil hrest (Function.update_self n false ω₀) (hsplit _ hfails.self).2.2
  obtain rfl := Option.some.inj hrest
  refine ⟨⟨s₁, l, ω₀, h₁, hsame.imp (by grind [Expr.sites]) fun ω hω => (hsplit ω hω).1⟩,
    ⟨s₂, c, ω₀, h₂, hsame.imp (by grind [Expr.sites]) fun ω hω => (hsplit ω hω).2.1⟩,
    ⟨s₃, c', Function.update ω₀ n true, h₃, hsame.part (by simp [Expr.sites])
      (by grind [Expr.sites, Comparators.sites]) hn true fun ω hωn hω => ?_⟩, rfl⟩
  have htail := (hsplit ω hω).2.2
  simp only [Setup.trace, Comparators.traceChain, Core.trace, hωn, trace_append,
    trace_compareExpr] at htail
  simpa [← List.append_assoc] using htail

end Chain

/-! ### Conditional expressions -/

section IfExp

variable {n : NodeIndex} {test body orelse : Expr V} {s₁ s₂ s₃ : Setup V} {r₁ r₂ r₃ : Core V}
  {ω : NodeIndex → Bool}

/-- The lowered form tests at the node, so the test has decided nothing. -/
theorem ifExp_split (hnodup : (Expr.ifExp n test body orelse).sites.Nodup)
    (h₁ : test.lower = some (s₁, r₁)) (h₂ : body.lower = some (s₂, r₂))
    (h₃ : orelse.lower = some (s₃, r₃))
    (h : (s₁ ++ .branch n false r₁ (s₂ ++ .assign (.tmp n) r₂ .done)
        (s₃ ++ .assign (.tmp n) r₃ .done) .done).trace ω ++
        (Core.temp (.tmp n) : Core V).trace = (Expr.ifExp n test body orelse).trace ω false) :
    s₁.trace ω ++ r₁.trace = test.trace ω true ∧ test.decided ω true = none ∧
      (if ω n then s₂.trace ω ++ r₂.trace else s₃.trace ω ++ r₃.trace) =
        if ω n then body.trace ω false else orelse.trace ω false := by
  have hn := (List.nodup_cons.mp hnodup).1
  have hdisjoint : ∀ x ∈ n :: (body.sites ++ orelse.sites), x ∉ test.sites := by
    have hd := notMem_left_of_nodup hnodup.of_cons
    grind
  have htest := lower_events test h₁
  have hbody := lower_events body h₂
  have horelse := lower_events orelse h₃
  simp only [trace_append, Setup.trace, Core.trace, List.append_nil, Expr.trace,
    Bool.bne_false] at h
  rw [← List.append_assoc] at h
  have hdecide := testTrace_subset n (test.decided ω true)
  have hsub := trace_subset ω false body
  have hsub' := trace_subset ω false orelse
  obtain ⟨hhead, htail⟩ := split_sites hdisjoint
    (List.append_subset.mpr ⟨htest.setup ω, htest.residual⟩) (trace_subset ω true test)
    (by grind [hbody.setup ω, hbody.residual, horelse.setup ω, horelse.residual])
    (by grind) h
  have hnone : test.decided ω true = none := by
    refine testTrace_of_mem ((List.mem_append.mp (htail ▸ List.mem_cons_self)).resolve_right
      fun hmem => ?_)
    grind
  rw [hnone] at htail
  exact ⟨hhead, hnone, (List.cons.inj htail).2⟩

theorem ifExp_matches [Inhabited V] (hnodup : (Expr.ifExp n test body orelse).sites.Nodup)
    (h : (Expr.ifExp n test body orelse).Matches) :
    test.Matches ∧ body.Matches ∧ orelse.Matches ∧ test.decides true = false := by
  obtain ⟨s, r, ω₀, hlower, hsame⟩ := h
  obtain ⟨s₁, r₁, s₂, r₂, s₃, r₃, h₁, h₂, h₃, rfl, rfl⟩ := lower_ifExp_iff.mp hlower
  have hn := (List.nodup_cons.mp hnodup).1
  have hparts := List.nodup_append.mp hnodup.of_cons
  have hsplit := fun ω => ifExp_split (ω := ω) hnodup h₁ h₂ h₃
  have hdecides : test.decides true = false := by
    refine decides_eq_false hparts.1 ω₀ fun ω hω => (hsplit ω (hsame ω fun m hm => hω m ?_)).2.1
    exact fun hmem => hm (List.mem_cons_of_mem n (List.mem_append_left _ hmem))
  refine ⟨⟨s₁, r₁, ω₀, h₁, hsame.imp (by grind [Expr.sites]) fun ω hω =>
      (hsplit ω hω).1.trans (trace_condition_eq ω hdecides)⟩,
    ⟨s₂, r₂, Function.update ω₀ n true, h₂, hsame.part (by simp [Expr.sites])
      (by grind [Expr.sites]) (by grind) true fun ω hωn hω => ?_⟩,
    ⟨s₃, r₃, Function.update ω₀ n false, h₃, hsame.part (by simp [Expr.sites])
      (by grind [Expr.sites]) (by grind) false fun ω hωn hω => ?_⟩, hdecides⟩
  · simpa [hωn] using (hsplit ω hω).2.2
  · simpa [hωn] using (hsplit ω hω).2.2

end IfExp

mutual

/-- An expression whose lowered form leaves the nodes of the source, whatever the guide, is
orderly. -/
theorem orderly_of_matches [Inhabited V] : ∀ e : Expr V, e.sites.Nodup → e.Matches → e.Orderly
  | .literal _, _, _ | .name _ _, _, _ => trivial
  | .operation n op args, hnodup, h =>
    orderlyAll_of_matches args hnodup.of_cons (operation_matches h)
  | .starred n value, hnodup, h => orderly_of_matches value hnodup.of_cons (starred_matches h)
  | .set n elts, hnodup, h =>
    ⟨orderlyAll_of_matches elts hnodup.of_cons (set_matches h).1, (set_matches h).2⟩
  | .boolOp n op first second rest, hnodup, h => by
    obtain ⟨hfirst, hsecond, hdecides, rfl⟩ := boolOp_matches hnodup h
    have hparts := List.nodup_append.mp hnodup.of_cons
    exact ⟨orderly_of_matches first hparts.1 hfirst,
      orderly_of_matches second (List.nodup_append.mp hparts.2.1).1 hsecond, hdecides⟩
  | .compare n left op first .nil, hnodup, h => by
    have hoperands : (left.sites ++ first.sites).Nodup := by
      have htail := hnodup.of_cons
      rwa [Comparators.sites, List.append_nil] at htail
    have hparts := List.nodup_append.mp hoperands
    obtain ⟨hleft, hfirst, hop⟩ := compare_matches hoperands h
    exact ⟨orderly_of_matches left hparts.1 hleft, orderly_of_matches first hparts.2.1 hfirst, hop⟩
  | .compare n left op first (.cons op' second rest), hnodup, h => by
    obtain ⟨hleft, hfirst, hsecond, rfl⟩ := chain_matches hnodup h
    have hparts := List.nodup_append.mp hnodup.of_cons
    have htail := List.nodup_append.mp hparts.2.1
    exact ⟨orderly_of_matches left hparts.1 hleft, orderly_of_matches first htail.1 hfirst,
      orderly_of_matches second (List.nodup_append.mp htail.2.1).1 hsecond⟩
  | .ifExp n test body orelse, hnodup, h => by
    obtain ⟨htest, hbody, horelse, hdecides⟩ := ifExp_matches hnodup h
    have hparts := List.nodup_append.mp hnodup.of_cons
    have hbranches := List.nodup_append.mp hparts.2.1
    exact ⟨orderly_of_matches test hparts.1 htest, orderly_of_matches body hbranches.1 hbody,
      orderly_of_matches orelse hbranches.2.1 horelse, hdecides⟩
  | .named n id value, hnodup, h => not_named_matches (List.nodup_cons.mp hnodup).1 h

theorem orderlyAll_of_matches [Inhabited V] : ∀ es : Exprs V, es.sites.Nodup → es.Matches →
    es.Orderly
  | .nil, _, _ => trivial
  | .cons e es, hnodup, h => by
    obtain ⟨he, hes, hkeep⟩ := cons_matches hnodup h
    have hparts := List.nodup_append.mp hnodup
    exact ⟨orderly_of_matches e hparts.1 he, orderlyAll_of_matches es hparts.2.1 hes, hkeep⟩

end

/-! ## Exactness -/

theorem runLowered_of_lower {e : Expr V} {s : Setup V} {r : Core V} (h : e.lower = some (s, r))
    (w : World V E) (σ : Temps V) :
    e.runLowered w σ = s.exec w σ >>= fun σ' => r.eval w σ' := by
  rw [Expr.runLowered, h]

/-- `f(x, a and b)`. -/
def callWithBoolOp : ParsedExpr Nat where
  expr := .operation 0 (.call [none, none]) (.cons (.name 1 "f") (.cons (.name 2 "x")
    (.cons (.boolOp 3 .and (.name 4 "a") (.name 5 "b") .nil) .nil)))
  nodup := by decide

end DietPython.Expressions
