import DietPython.Expressions.Fragments
import DietPython.Expressions.Lowering

/-!
# What lowering hoists

`hoists` and `quiet` say from the shape of an expression whether lowering emits setup statements
for it and whether its residual has effects. `Lowered` collects what is true of every lowered
expression: these two, and that its setup names belong to its own nodes.
-/

namespace DietPython.Expressions

variable {V : Type}

mutual

/-- Lowering emits setup statements. -/
def Expr.hoists : Expr V → Bool
  | .literal _ | .name _ _ => false
  | .operation _ _ args => args.hoists
  | .starred _ value => value.hoists
  | .set _ elts => elts.hoists
  | .boolOp _ _ _ _ _ | .ifExp _ _ _ _ | .named _ _ _ => true
  | .compare _ left _ first .nil => left.hoists || first.hoists
  | .compare _ _ _ _ (.cons _ _ _) => true

def Exprs.hoists : Exprs V → Bool
  | .nil => false
  | .cons e es => e.hoists || es.hoists

end

mutual

/-- The residual has no effect. -/
def Expr.quiet : Expr V → Bool
  | .literal _ => true
  | .name _ _ => false
  | .operation _ op args => op.silent && args.quiet
  | .starred _ _ | .set _ _ => false
  | .boolOp _ _ _ _ _ | .ifExp _ _ _ _ => true
  | .named _ _ _ => false
  | .compare _ _ _ _ .nil => false
  | .compare _ _ _ _ (.cons _ _ _) => true

def Exprs.quiet : Exprs V → Bool
  | .nil => true
  | .cons e es => e.quiet && es.quiet

end

/-! ## Inversion of the lowering -/

section Inversion

attribute [local simp] Expr.lower Exprs.lower

variable {n : NodeIndex} {s : Setup V} {r : Core V}

theorem lower_operation_iff {op : Op} {args : Exprs V} :
    (Expr.operation n op args).lower = some (s, r) ↔
      ∃ rs, args.lower = some (s, rs) ∧ .operation n op rs = r := by
  simp [Option.bind_eq_some_iff]

theorem lower_starred_iff {value : Expr V} :
    (Expr.starred n value).lower = some (s, r) ↔
      ∃ c, value.lower = some (s, c) ∧ .operation n .unpack (.cons c .nil) = r := by
  simp [Option.bind_eq_some_iff]

theorem lower_set_iff {elts : Exprs V} :
    (Expr.set n elts).lower = some (s, r) ↔
      ∃ rs, elts.lowerSet = some (s, rs) ∧ .operation n .set rs = r := by
  simp [Option.bind_eq_some_iff]

theorem lower_boolOp_iff {op : BoolOp} {first second : Expr V} {rest : Exprs V} :
    (Expr.boolOp n op first second rest).lower = some (s, r) ↔
      ∃ s₁ r₁ s₂ r₂ steps, first.lower = some (s₁, r₁) ∧ second.lower = some (s₂, r₂) ∧
        rest.lowerBoolOp n op = some steps ∧
        s₁ ++ .assign (.target n) r₁ (boolOpStep n op s₂ r₂ steps) = s ∧
        .temp (.target n) = r := by
  simp [Option.bind_eq_some_iff]

theorem lower_compare_iff {op : CmpOp} {left first : Expr V} :
    (Expr.compare n left op first .nil).lower = some (s, r) ↔
      ∃ s₁ l s₂ c, left.lower = some (s₁, l) ∧ first.lower = some (s₂, c) ∧
        s₁ ++ s₂ = s ∧ compareExpr n op l c = r := by
  simp [Option.bind_eq_some_iff]

theorem lower_chain_iff {op op' : CmpOp} {left first second : Expr V} {rest : Comparators V} :
    (Expr.compare n left op first (.cons op' second rest)).lower = some (s, r) ↔
      ∃ s₁ l s₂ c s₃ c' steps, left.lower = some (s₁, l) ∧ first.lower = some (s₂, c) ∧
        second.lower = some (s₃, c') ∧ rest.lowerChain n op' 2 s₃ c' = some steps ∧
        s₁ ++ .assign (.compare n 0) l (s₂ ++ .assign (.compare n 1) c
          (.assign (.target n) (compareExpr n op (.temp (.compare n 0)) (.temp (.compare n 1)))
            steps)) = s ∧
        .temp (.target n) = r := by
  simp [Option.bind_eq_some_iff]

theorem lower_ifExp_iff {test body orelse : Expr V} :
    (Expr.ifExp n test body orelse).lower = some (s, r) ↔
      ∃ s₁ r₁ s₂ r₂ s₃ r₃, test.lower = some (s₁, r₁) ∧ body.lower = some (s₂, r₂) ∧
        orelse.lower = some (s₃, r₃) ∧
        s₁ ++ .branch n false r₁ (s₂ ++ .assign (.tmp n) r₂ .done)
          (s₃ ++ .assign (.tmp n) r₃ .done) .done = s ∧
        .temp (.tmp n) = r := by
  simp [Option.bind_eq_some_iff]

theorem lower_named_iff {id : Name} {value : Expr V} :
    (Expr.named n id value).lower = some (s, r) ↔
      ∃ s₁ r₁, value.lower = some (s₁, r₁) ∧
        s₁ ++ .instr (.operation n (.store id) (.cons r₁ .nil)) .done = s ∧ .load n id = r := by
  simp [Option.bind_eq_some_iff]

theorem lowerAll_cons_iff {e : Expr V} {es : Exprs V} {rs : Cores V} :
    (Exprs.cons e es).lower = some (s, rs) ↔
      ∃ s₁ r₁ s₂ rs₂, e.lower = some (s₁, r₁) ∧ es.lower = some (s₂, rs₂) ∧
        s₁ ++ s₂ = s ∧ .cons r₁ rs₂ = rs := by
  simp [Option.bind_eq_some_iff]

/-- The lowering of one element of a set display. -/
def Expr.lowerElement : Expr V → Option (Setup V × Core V)
  | .starred n value => value.fromExpr.map fun c => (.done, .operation n .unpack (.cons c .nil))
  | e => e.lower

theorem lowerSet_cons_iff {e : Expr V} {es : Exprs V} {rs : Cores V} :
    (Exprs.cons e es).lowerSet = some (s, rs) ↔
      ∃ s₁ r₁ s₂ rs₂, e.lowerElement = some (s₁, r₁) ∧ es.lowerSet = some (s₂, rs₂) ∧
        s₁ ++ s₂ = s ∧ .cons r₁ rs₂ = rs := by
  have hdone : ∀ s' : Setup V, .done ++ s' = s' := fun _ => rfl
  cases e <;>
    simp [Exprs.lowerSet, Expr.lowerElement, Option.bind_eq_some_iff, hdone]

theorem lowerBoolOp_cons_iff {op : BoolOp} {e : Expr V} {es : Exprs V} :
    (Exprs.cons e es).lowerBoolOp n op = some s ↔
      ∃ s₁ r₁ steps, e.lower = some (s₁, r₁) ∧ es.lowerBoolOp n op = some steps ∧
        boolOpStep n op s₁ r₁ steps = s := by
  simp [Exprs.lowerBoolOp, Option.bind_eq_some_iff]

theorem lowerChain_cons_iff {op op' : CmpOp} {i : Nat} {s₀ : Setup V} {c : Core V} {e : Expr V}
    {rest : Comparators V} :
    (Comparators.cons op' e rest).lowerChain n op i s₀ c = some s ↔
      ∃ s₁ r₁ steps, e.lower = some (s₁, r₁) ∧ rest.lowerChain n op' (i + 1) s₁ r₁ = some steps ∧
        .branch n false (.temp (.target n))
          (s₀ ++ .assign (.compare n i) c (.assign (.target n)
            (compareExpr n op (.temp (.compare n (i - 1))) (.temp (.compare n i))) .done))
          .done steps = s := by
  simp [Comparators.lowerChain, Option.bind_eq_some_iff]

theorem fromExprs_cons_iff {e : Expr V} {es : Exprs V} {rs : Cores V} :
    (Exprs.cons e es).fromExprs = some rs ↔
      ∃ r₁ rs₂, e.fromExpr = some r₁ ∧ es.fromExprs = some rs₂ ∧ .cons r₁ rs₂ = rs := by
  simp [Exprs.fromExprs, Option.bind_eq_some_iff]

end Inversion

theorem append_eq_done_iff {s s' : Setup V} : s ++ s' = .done ↔ s = .done ∧ s' = .done := by
  cases s with
  | done => exact (and_iff_right rfl).symm
  | _ => exact ⟨fun h => (nomatch h), fun h => (nomatch h.1)⟩

/-! ## The conversion without lowering -/

mutual

/-- A subtree can be converted without lowering when lowering leaves it alone. -/
theorem fromExpr_iff : ∀ (e : Expr V) (r : Core V),
    e.fromExpr = some r ↔ e.lower = some (.done, r)
  | .literal c, r => by simp [Expr.fromExpr, Expr.lower]
  | .name n id, r => by simp [Expr.fromExpr, Expr.lower]
  | .operation n op args, r => by
    simp only [Expr.fromExpr, lower_operation_iff, Option.map_eq_some_iff, fromExprs_iff args]
  | .starred n value, r => by
    simp only [Expr.fromExpr, lower_starred_iff, Option.map_eq_some_iff, fromExpr_iff value]
  | .set n elts, r => by
    simp only [Expr.fromExpr, lower_set_iff, Option.map_eq_some_iff, fromElements_iff elts]
  | .boolOp n op first second rest, r => by
    simp only [Expr.fromExpr, lower_boolOp_iff, append_eq_done_iff]
    simp
  | .compare n left op first .nil, r => by
    simp only [Expr.fromExpr, lower_compare_iff, append_eq_done_iff, Option.bind_eq_bind,
      Option.bind_eq_some_iff, fromExpr_iff left, fromExpr_iff first]
    constructor
    · rintro ⟨l, hl, c, hc, hr⟩
      exact ⟨.done, l, .done, c, hl, hc, ⟨rfl, rfl⟩, Option.some.inj hr⟩
    · rintro ⟨s₁, l, s₂, c, hl, hc, ⟨rfl, rfl⟩, rfl⟩
      exact ⟨l, hl, c, hc, rfl⟩
  | .compare n left op first (.cons op' second rest), r => by
    simp only [Expr.fromExpr, lower_chain_iff, append_eq_done_iff]
    simp
  | .ifExp n test body orelse, r => by
    simp only [Expr.fromExpr, lower_ifExp_iff, append_eq_done_iff]
    simp
  | .named n id value, r => by
    simp only [Expr.fromExpr, lower_named_iff, append_eq_done_iff]
    simp

theorem fromExprs_iff : ∀ (es : Exprs V) (rs : Cores V),
    es.fromExprs = some rs ↔ es.lower = some (.done, rs)
  | .nil, rs => by simp [Exprs.fromExprs, Exprs.lower]
  | .cons e es, rs => by
    simp only [fromExprs_cons_iff, lowerAll_cons_iff, append_eq_done_iff, fromExpr_iff e,
      fromExprs_iff es]
    constructor
    · rintro ⟨r₁, rs₂, h₁, h₂, rfl⟩
      exact ⟨.done, r₁, .done, rs₂, h₁, h₂, ⟨rfl, rfl⟩, rfl⟩
    · rintro ⟨s₁, r₁, s₂, rs₂, h₁, h₂, ⟨rfl, rfl⟩, rfl⟩
      exact ⟨r₁, rs₂, h₁, h₂, rfl⟩

theorem fromElements_iff : ∀ (es : Exprs V) (rs : Cores V),
    es.fromExprs = some rs ↔ es.lowerSet = some (.done, rs)
  | .nil, rs => by simp [Exprs.fromExprs, Exprs.lowerSet]
  | .cons e es, rs => by
    have he : ∀ r, e.fromExpr = some r ↔ e.lowerElement = some (.done, r) := by
      intro r
      have hlower := fromExpr_iff e r
      cases e with
      | starred n value => simp [Expr.fromExpr, Expr.lowerElement]
      | _ => exact hlower
    simp only [fromExprs_cons_iff, lowerSet_cons_iff, append_eq_done_iff, he, fromElements_iff es]
    constructor
    · rintro ⟨r₁, rs₂, h₁, h₂, rfl⟩
      exact ⟨.done, r₁, .done, rs₂, h₁, h₂, ⟨rfl, rfl⟩, rfl⟩
    · rintro ⟨s₁, r₁, s₂, rs₂, h₁, h₂, ⟨rfl, rfl⟩, rfl⟩
      exact ⟨r₁, rs₂, h₁, h₂, rfl⟩

end


/-- An element of a set display is lowered as an operand or stops the compiler. -/
theorem lower_of_lowerElement {e : Expr V} {s : Setup V} {r : Core V}
    (h : e.lowerElement = some (s, r)) : e.lower = some (s, r) := by
  cases e with
  | starred n value =>
    obtain ⟨c, hc, hr⟩ := Option.map_eq_some_iff.mp h
    obtain ⟨rfl, rfl⟩ := Prod.mk.inj hr
    exact lower_starred_iff.mpr ⟨c, (fromExpr_iff value c).mp hc, rfl⟩
  | _ => exact h

/-! ## Facts about lowered expressions -/

/-- The setup names of the nodes `sites`. -/
def Owned (sites : List NodeIndex) (t : Temp) : Prop := t.site ∈ sites

theorem Owned.mono {sites sites' : List NodeIndex} (h : sites ⊆ sites') (t : Temp)
    (ht : Owned sites t) : Owned sites' t := h ht

structure Lowered (e : Expr V) (s : Setup V) (r : Core V) : Prop where
  setup : s = .done ↔ e.hoists = false
  quiet : r.quiet = e.quiet
  writes : s.Writes (Owned e.sites)
  reads : r.Reads (Owned e.sites)

structure LoweredAll (es : Exprs V) (s : Setup V) (rs : Cores V) : Prop where
  setup : s = .done ↔ es.hoists = false
  quiet : rs.quiet = es.quiet
  writes : s.Writes (Owned es.sites)
  reads : rs.Reads (Owned es.sites)

theorem LoweredAll.cons {e : Expr V} {es : Exprs V} {s s' : Setup V} {r : Core V} {rs : Cores V}
    (h : Lowered e s r) (h' : LoweredAll es s' rs) :
    LoweredAll (.cons e es) (s ++ s') (.cons r rs) where
  setup := by
    rw [append_eq_done_iff, h.setup, h'.setup, Exprs.hoists, Bool.or_eq_false_iff]
  quiet := by rw [Cores.quiet, Exprs.quiet, h.quiet, h'.quiet]
  writes := writes_append (h.writes.mono (Owned.mono (List.subset_append_left _ _)))
    (h'.writes.mono (Owned.mono (List.subset_append_right _ _)))
  reads := ⟨h.reads.mono (Owned.mono (List.subset_append_left _ _)),
    h'.reads.mono (Owned.mono (List.subset_append_right _ _))⟩

/-- A single comparison reads what its operands read. -/
theorem reads_compareExpr {P : Temp → Prop} (n : NodeIndex) (op : CmpOp) {l r : Core V}
    (hl : l.Reads P) (hr : r.Reads P) : (compareExpr n op l r).Reads P := by
  unfold compareExpr
  split
  · exact ⟨hr, hl, trivial⟩
  · exact ⟨hl, hr, trivial⟩

theorem writes_boolOpStep {P : Temp → Prop} {n : NodeIndex} (op : BoolOp) {s next : Setup V}
    (r : Core V) (hn : ∀ t : Temp, t.site = n → P t) (hs : s.Writes P) (hnext : next.Writes P) :
    (boolOpStep n op s r next).Writes P :=
  ⟨writes_append hs ⟨hn _ rfl, trivial⟩, trivial, hnext⟩

mutual

theorem lower_lowered : ∀ (e : Expr V) {s : Setup V} {r : Core V},
    e.lower = some (s, r) → Lowered e s r
  | .literal c, s, r, h => by
    obtain ⟨rfl, rfl⟩ := Prod.mk.inj (Option.some.inj h)
    exact ⟨by simp [Expr.hoists], rfl, trivial, trivial⟩
  | .name n id, s, r, h => by
    obtain ⟨rfl, rfl⟩ := Prod.mk.inj (Option.some.inj h)
    exact ⟨by simp [Expr.hoists], rfl, trivial, trivial⟩
  | .operation n op args, s, r, h => by
    obtain ⟨rs, hargs, rfl⟩ := lower_operation_iff.mp h
    have ih := lowerAll_lowered args hargs
    have hsub := Owned.mono (List.subset_cons_self n args.sites)
    exact ⟨ih.setup, by rw [Core.quiet, ih.quiet]; rfl, ih.writes.mono hsub, ih.reads.mono hsub⟩
  | .starred n value, s, r, h => by
    obtain ⟨c, hvalue, rfl⟩ := lower_starred_iff.mp h
    have ih := lower_lowered value hvalue
    have hsub := Owned.mono (List.subset_cons_self n value.sites)
    exact ⟨ih.setup, rfl, ih.writes.mono hsub, ih.reads.mono hsub, trivial⟩
  | .set n elts, s, r, h => by
    obtain ⟨rs, helts, rfl⟩ := lower_set_iff.mp h
    have ih := lowerSet_lowered elts helts
    have hsub := Owned.mono (List.subset_cons_self n elts.sites)
    exact ⟨ih.setup, rfl, ih.writes.mono hsub, ih.reads.mono hsub⟩
  | .boolOp n op first second rest, s, r, h => by
    obtain ⟨s₁, r₁, s₂, r₂, steps, hfirst, hsecond, hrest, rfl, rfl⟩ := lower_boolOp_iff.mp h
    have ih₁ := (lower_lowered first hfirst).writes
    have ih₂ := (lower_lowered second hsecond).writes
    have hn : ∀ t : Temp, t.site = n → Owned (Expr.boolOp n op first second rest).sites t :=
      fun t ht => by simp [Owned, Expr.sites, ht]
    have hsteps := lowerBoolOp_writes n op rest hn
      (fun t ht => by simp [Owned, Expr.sites] at ht ⊢; simp [ht]) hrest
    refine ⟨by simp [append_eq_done_iff, Expr.hoists], rfl, writes_append ?_ ⟨hn _ rfl, ?_⟩,
      hn _ rfl⟩
    · exact ih₁.mono fun t ht => by simp [Owned, Expr.sites] at ht ⊢; simp [ht]
    · refine writes_boolOpStep op r₂ hn (ih₂.mono fun t ht => ?_) hsteps
      simp [Owned, Expr.sites] at ht ⊢
      simp [ht]
  | .compare n left op first .nil, s, r, h => by
    obtain ⟨s₁, l, s₂, c, hleft, hfirst, rfl, rfl⟩ := lower_compare_iff.mp h
    have ih₁ := lower_lowered left hleft
    have ih₂ := lower_lowered first hfirst
    have hsub₁ : ∀ t, Owned left.sites t → Owned (Expr.compare n left op first .nil).sites t :=
      fun t ht => by simp [Owned, Expr.sites] at ht ⊢; simp [ht]
    have hsub₂ : ∀ t, Owned first.sites t → Owned (Expr.compare n left op first .nil).sites t :=
      fun t ht => by simp [Owned, Expr.sites] at ht ⊢; simp [ht]
    refine ⟨?_, rfl, writes_append (ih₁.writes.mono hsub₁) (ih₂.writes.mono hsub₂),
      reads_compareExpr n op (ih₁.reads.mono hsub₁) (ih₂.reads.mono hsub₂)⟩
    rw [append_eq_done_iff, ih₁.setup, ih₂.setup, Expr.hoists, Bool.or_eq_false_iff]
  | .compare n left op first (.cons op' second rest), s, r, h => by
    obtain ⟨s₁, l, s₂, c, s₃, c', steps, hleft, hfirst, hsecond, hrest, rfl, rfl⟩ :=
      lower_chain_iff.mp h
    have ih₁ := (lower_lowered left hleft).writes
    have ih₂ := (lower_lowered first hfirst).writes
    have ih₃ := (lower_lowered second hsecond).writes
    have hn : ∀ t : Temp, t.site = n →
        Owned (Expr.compare n left op first (.cons op' second rest)).sites t :=
      fun t ht => by simp [Owned, Expr.sites, ht]
    have hsteps := lowerChain_writes n rest hn
      (fun t ht => by simp [Owned, Expr.sites, Comparators.sites] at ht ⊢; simp [ht])
      (ih₃.mono fun t ht => by simp [Owned, Expr.sites, Comparators.sites] at ht ⊢; simp [ht]) hrest
    refine ⟨by simp [append_eq_done_iff, Expr.hoists], rfl, writes_append ?_ ⟨hn _ rfl,
      writes_append ?_ ⟨hn _ rfl, hn _ rfl, hsteps⟩⟩, hn _ rfl⟩
    · exact ih₁.mono fun t ht => by simp [Owned, Expr.sites] at ht ⊢; simp [ht]
    · exact ih₂.mono fun t ht => by simp [Owned, Expr.sites] at ht ⊢; simp [ht]
  | .ifExp n test body orelse, s, r, h => by
    obtain ⟨s₁, r₁, s₂, r₂, s₃, r₃, htest, hbody, horelse, rfl, rfl⟩ := lower_ifExp_iff.mp h
    have ih₁ := (lower_lowered test htest).writes
    have ih₂ := (lower_lowered body hbody).writes
    have ih₃ := (lower_lowered orelse horelse).writes
    have hn : ∀ t : Temp, t.site = n → Owned (Expr.ifExp n test body orelse).sites t :=
      fun t ht => by simp [Owned, Expr.sites, ht]
    refine ⟨by simp [append_eq_done_iff, Expr.hoists], rfl, writes_append ?_
      ⟨writes_append ?_ ⟨hn _ rfl, trivial⟩, writes_append ?_ ⟨hn _ rfl, trivial⟩, trivial⟩,
      hn _ rfl⟩
    · exact ih₁.mono fun t ht => by simp [Owned, Expr.sites] at ht ⊢; simp [ht]
    · exact ih₂.mono fun t ht => by simp [Owned, Expr.sites] at ht ⊢; simp [ht]
    · exact ih₃.mono fun t ht => by simp [Owned, Expr.sites] at ht ⊢; simp [ht]
  | .named n id value, s, r, h => by
    obtain ⟨s₁, r₁, hvalue, rfl, rfl⟩ := lower_named_iff.mp h
    have ih := (lower_lowered value hvalue).writes
    refine ⟨by simp [append_eq_done_iff, Expr.hoists], rfl, writes_append ?_ trivial, trivial⟩
    exact ih.mono (Owned.mono (List.subset_cons_self n value.sites))

theorem lowerAll_lowered : ∀ (es : Exprs V) {s : Setup V} {rs : Cores V},
    es.lower = some (s, rs) → LoweredAll es s rs
  | .nil, s, rs, h => by
    obtain ⟨rfl, rfl⟩ := Prod.mk.inj (Option.some.inj h)
    exact ⟨by simp [Exprs.hoists], rfl, trivial, trivial⟩
  | .cons e es, s, rs, h => by
    obtain ⟨s₁, r₁, s₂, rs₂, he, hes, rfl, rfl⟩ := lowerAll_cons_iff.mp h
    exact (lowerAll_lowered es hes).cons (lower_lowered e he)

theorem lowerSet_lowered : ∀ (es : Exprs V) {s : Setup V} {rs : Cores V},
    es.lowerSet = some (s, rs) → LoweredAll es s rs
  | .nil, s, rs, h => by
    obtain ⟨rfl, rfl⟩ := Prod.mk.inj (Option.some.inj h)
    exact ⟨by simp [Exprs.hoists], rfl, trivial, trivial⟩
  | .cons e es, s, rs, h => by
    obtain ⟨s₁, r₁, s₂, rs₂, he, hes, rfl, rfl⟩ := lowerSet_cons_iff.mp h
    exact (lowerSet_lowered es hes).cons (lower_lowered e (lower_of_lowerElement he))

theorem lowerBoolOp_writes (n : NodeIndex) (op : BoolOp) : ∀ (es : Exprs V) {P : Temp → Prop}
    {s : Setup V}, (∀ t : Temp, t.site = n → P t) → (∀ t, Owned es.sites t → P t) →
    es.lowerBoolOp n op = some s → s.Writes P
  | .nil, P, s, _, _, h => by
    obtain rfl := Option.some.inj h
    trivial
  | .cons e es, P, s, hn, hes, h => by
    obtain ⟨s₁, r₁, steps, he, hrest, rfl⟩ := lowerBoolOp_cons_iff.mp h
    refine writes_boolOpStep op r₁ hn ((lower_lowered e he).writes.mono fun t ht => ?_) ?_
    · exact hes t (List.mem_append_left _ ht)
    · exact lowerBoolOp_writes n op es hn (fun t ht => hes t (List.mem_append_right _ ht)) hrest

theorem lowerChain_writes (n : NodeIndex) : ∀ (rest : Comparators V) {op : CmpOp} {i : Nat}
    {s₀ : Setup V} {c : Core V} {P : Temp → Prop} {s : Setup V},
    (∀ t : Temp, t.site = n → P t) → (∀ t, Owned rest.sites t → P t) → s₀.Writes P →
    rest.lowerChain n op i s₀ c = some s → s.Writes P
  | .nil, op, i, s₀, c, P, s, hn, _, hs₀, h => by
    obtain rfl := Option.some.inj h
    exact ⟨writes_append hs₀ ⟨hn _ rfl, trivial⟩, trivial, trivial⟩
  | .cons op' e rest, op, i, s₀, c, P, s, hn, hrest, hs₀, h => by
    obtain ⟨s₁, r₁, steps, he, hsteps, rfl⟩ := lowerChain_cons_iff.mp h
    refine ⟨writes_append hs₀ ⟨hn _ rfl, hn _ rfl, trivial⟩, trivial, ?_⟩
    refine lowerChain_writes n rest hn (fun t ht => hrest t (List.mem_append_right _ ht)) ?_ hsteps
    exact (lower_lowered e he).writes.mono fun t ht => hrest t (List.mem_append_left _ ht)

end

end DietPython.Expressions
