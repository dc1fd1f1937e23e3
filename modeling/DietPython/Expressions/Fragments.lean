import DietPython.Expressions.Core

/-!
# Setup statements with a residual

A lowered expression is a fragment: setup statements and a residual that is evaluated after them.
`Realizes` says that a fragment behaves like a computation of the source, whatever the setup
names hold before. Fragments of sibling operands are put together setup before setup and
residual before residual; `realizes_bind_bind` says when that keeps the order. `guided` worlds
answer every event in a fixed way, so the events that a fragment leaves there are known.
-/

namespace DietPython.Expressions

open LoggedComputations Logged

variable {V E : Type}

/-! ## Setup names that are read and written -/

mutual

/-- All setup names that the expression reads satisfy `P`. -/
def Core.Reads (P : Temp → Prop) : Core V → Prop
  | .literal _ | .load _ _ => True
  | .temp t => P t
  | .operation _ _ args => args.Reads P

def Cores.Reads (P : Temp → Prop) : Cores V → Prop
  | .nil => True
  | .cons e es => e.Reads P ∧ es.Reads P

end

/-- All setup names that the statements change satisfy `P`. -/
def Setup.Writes (P : Temp → Prop) : Setup V → Prop
  | .done => True
  | .assign t _ next | .delete t next => P t ∧ next.Writes P
  | .instr _ next => next.Writes P
  | .branch _ _ _ body orelse next => body.Writes P ∧ orelse.Writes P ∧ next.Writes P

theorem writes_append {P : Temp → Prop} {s s' : Setup V} (hs : s.Writes P) (hs' : s'.Writes P) :
    (s ++ s').Writes P := by
  induction s with
  | done => exact hs'
  | assign t v next ih => exact ⟨hs.1, ih hs.2⟩
  | instr v next ih => exact ih hs
  | delete t next ih => exact ⟨hs.1, ih hs.2⟩
  | branch n negated test body orelse next _ _ ih => exact ⟨hs.1, hs.2.1, ih hs.2.2⟩

theorem Setup.Writes.mono {P P' : Temp → Prop} (hP : ∀ t, P t → P' t) {s : Setup V}
    (hs : s.Writes P) : s.Writes P' := by
  induction s with
  | done => trivial
  | assign t v next ih => exact ⟨hP t hs.1, ih hs.2⟩
  | instr v next ih => exact ih hs
  | delete t next ih => exact ⟨hP t hs.1, ih hs.2⟩
  | branch n negated test body orelse next ihb iho ih =>
    exact ⟨ihb hs.1, iho hs.2.1, ih hs.2.2⟩

mutual

theorem Core.Reads.mono {P P' : Temp → Prop} (hP : ∀ t, P t → P' t) :
    ∀ {r : Core V}, r.Reads P → r.Reads P'
  | .literal _, _ | .load _ _, _ => trivial
  | .temp t, h => hP t h
  | .operation _ _ _, h => Cores.Reads.mono hP h

theorem Cores.Reads.mono {P P' : Temp → Prop} (hP : ∀ t, P t → P' t) :
    ∀ {rs : Cores V}, rs.Reads P → rs.Reads P'
  | .nil, _ => trivial
  | .cons _ _, h => ⟨Core.Reads.mono hP h.1, Cores.Reads.mono hP h.2⟩

end

section Frame

variable (w : World V E) {P : Temp → Prop}

mutual

/-- An expression depends on the setup names that it reads only. -/
theorem eval_congr {σ σ' : Temps V} (hσ : ∀ t, P t → σ' t = σ t) :
    ∀ {r : Core V}, r.Reads P → r.eval w σ' = r.eval w σ
  | .literal _, _ | .load _ _, _ => rfl
  | .temp t, h => by rw [Core.eval, Core.eval, hσ t h]
  | .operation _ _ args, h => by rw [Core.eval, Core.eval, evalAll_congr hσ h]

theorem evalAll_congr {σ σ' : Temps V} (hσ : ∀ t, P t → σ' t = σ t) :
    ∀ {rs : Cores V}, rs.Reads P → rs.eval w σ' = rs.eval w σ
  | .nil, _ => rfl
  | .cons _ _, h => by rw [Cores.eval, Cores.eval, eval_congr hσ h.1, evalAll_congr hσ h.2]

end

omit w in
theorem update_frame {σ σ' : Temps V} {t : Temp} {x : V} (ht : P t)
    (h : ∀ t', ¬ P t' → σ' t' = Function.update σ t x t') : ∀ t', ¬ P t' → σ' t' = σ t' := by
  intro t' ht'
  rw [h t' ht', Function.update_of_ne]
  rintro rfl
  exact ht' ht

/-- Setup names that the statements do not change keep their values. -/
theorem exec_frame {s : Setup V} (hs : s.Writes P) (σ : Temps V) :
    Ensures (s.exec w σ) fun σ' => ∀ t, ¬ P t → σ' t = σ t := by
  induction s generalizing σ with
  | done => exact ensures_pure fun t _ => rfl
  | assign t v next ih =>
    exact .bind_of_forall fun x => (ih hs.2 _).mono fun σ' hσ' => update_frame hs.1 hσ'
  | instr v next ih => exact .bind_of_forall fun _ => ih hs σ
  | delete t next ih => exact (ih hs.2 _).mono fun σ' hσ' => update_frame hs.1 hσ'
  | branch n negated test body orelse next ihb iho ih =>
    refine .bind_of_forall fun x => .bind_of_forall fun b => ?_
    refine Ensures.bind (Q := fun σ' => ∀ t, ¬ P t → σ' t = σ t) ?_ fun σ' hσ' => ?_
    · split
      · exact ihb hs.1 σ
      · exact iho hs.2.1 σ
    · exact (ih hs.2.2 σ').mono fun σ'' hσ'' t ht => (hσ'' t ht).trans (hσ' t ht)

end Frame

/-! ## Quiet expressions -/

mutual

/-- Evaluation leaves no event. -/
def Core.quiet : Core V → Bool
  | .literal _ | .temp _ => true
  | .load _ _ => false
  | .operation _ op args => op.silent && args.quiet

def Cores.quiet : Cores V → Bool
  | .nil => true
  | .cons e es => e.quiet && es.quiet

end

section Quiet

variable (w : World V E) (σ : Temps V)

mutual

theorem quiet_eval : ∀ {r : Core V}, r.quiet = true → ∃ v, r.eval w σ = pure v
  | .literal c, _ => ⟨c, rfl⟩
  | .temp t, _ => ⟨σ t, rfl⟩
  | .operation n op args, h => by
    rw [Core.quiet, Bool.and_eq_true] at h
    obtain ⟨vs, hvs⟩ := quiet_evalAll h.2
    exact ⟨w.build op vs, by rw [Core.eval, hvs, pure_bind, World.operate, if_pos h.1]⟩

theorem quiet_evalAll : ∀ {rs : Cores V}, rs.quiet = true → ∃ vs, rs.eval w σ = pure vs
  | .nil, _ => ⟨[], rfl⟩
  | .cons e es, h => by
    rw [Cores.quiet, Bool.and_eq_true] at h
    obtain ⟨v, hv⟩ := quiet_eval h.1
    obtain ⟨vs, hvs⟩ := quiet_evalAll h.2
    exact ⟨v :: vs, by rw [Cores.eval, hv, hvs, pure_bind, pure_bind]⟩

end

/-- A quiet expression can be evaluated before or after another computation. -/
theorem quiet_bind_comm {α β : Type} {r : Core V} (hr : r.quiet = true) (m : Run V E α)
    (k : α → V → Run V E β) :
    (m >>= fun a => r.eval w σ >>= k a) = r.eval w σ >>= fun v => m >>= fun a => k a v := by
  obtain ⟨v, hv⟩ := quiet_eval w σ hr
  rw [hv, pure_bind]
  exact bind_congr fun a => by rw [pure_bind]

end Quiet

/-! ## Fragments -/

section Realizes

variable {w : World V E} {α β : Type} {P : Temp → Prop} {σ : Temps V}

/-- The statements followed by the residual `f` behave like `m`, whatever the setup names hold. -/
def Realizes (w : World V E) (s : Setup V) (f : Temps V → Run V E α) (m : Run V E α) : Prop :=
  ∀ σ, s.exec w σ >>= f = m

theorem realizes_done {f : Temps V → Run V E α} {m : Run V E α} (h : ∀ σ, f σ = m) :
    Realizes w .done f m := fun σ => by rw [Setup.exec, pure_bind, h]

/-- What follows a fragment may rely on the setup names that the fragment does not change. -/
theorem Realizes.bind {s : Setup V} {f : Temps V → Run V E α} {m : Run V E α}
    (h : Realizes w s f m) (hs : s.Writes P) {k : α → Temps V → Run V E β} {g : α → Run V E β}
    (hk : ∀ a σ', (∀ t, ¬ P t → σ' t = σ t) → k a σ' = g a) :
    (s.exec w σ >>= fun σ' => f σ' >>= fun a => k a σ') = m >>= g := by
  rw [← h σ, bind_assoc]
  exact (exec_frame w hs σ).bind_congr fun σ' hσ' => bind_congr fun a => hk a σ' hσ'

/-- The setups of two operands, then their residuals: the first residual has to be quiet unless
the second operand has no setup. -/
theorem realizes_bind_bind {s s' : Setup V} {r : Core V} {f : Temps V → Run V E α}
    {m : Run V E V} {m' : Run V E α} (h : Realizes w s (fun σ => r.eval w σ) m)
    (h' : Realizes w s' f m') (hr : r.Reads P) (hs' : s'.Writes fun t => ¬ P t)
    (hq : s' = .done ∨ r.quiet = true) (k : V → α → Run V E β) :
    Realizes w (s ++ s') (fun σ => r.eval w σ >>= fun v => f σ >>= k v)
      (m >>= fun v => m' >>= k v) := by
  intro σ
  rw [exec_append, bind_assoc, ← h σ, bind_assoc]
  refine bind_congr fun σ₁ => ?_
  rcases hq with rfl | hq
  · rw [Setup.exec, pure_bind]
    refine bind_congr fun v => ?_
    rw [← h' σ₁, Setup.exec, pure_bind]
  · calc (s'.exec w σ₁ >>= fun σ₂ => r.eval w σ₂ >>= fun v => f σ₂ >>= k v)
        = s'.exec w σ₁ >>= fun σ₂ => r.eval w σ₁ >>= fun v => f σ₂ >>= k v := by
          refine (exec_frame w hs' σ₁).bind_congr fun σ₂ hσ₂ => ?_
          rw [eval_congr w (fun t ht => hσ₂ t (not_not.mpr ht)) hr]
      _ = r.eval w σ₁ >>= fun v => s'.exec w σ₁ >>= fun σ₂ => f σ₂ >>= k v :=
          quiet_bind_comm w σ₁ hq (s'.exec w σ₁) fun σ₂ v => f σ₂ >>= k v
      _ = r.eval w σ₁ >>= fun v => m' >>= k v := by
          refine bind_congr fun v => ?_
          rw [← bind_assoc, h' σ₁]

/-- The operands of a node. -/
theorem realizes_cons {s s' : Setup V} {r : Core V} {rs : Cores V} {m : Run V E V}
    {m' : Run V E (List V)} (h : Realizes w s (fun σ => r.eval w σ) m)
    (h' : Realizes w s' (fun σ => rs.eval w σ) m') (hr : r.Reads P)
    (hs' : s'.Writes fun t => ¬ P t) (hq : s' = .done ∨ r.quiet = true) :
    Realizes w (s ++ s') (fun σ => (Cores.cons r rs).eval w σ)
      (m >>= fun v => m' >>= fun vs => pure (v :: vs)) :=
  realizes_bind_bind h h' hr hs' hq fun v vs => pure (v :: vs)

theorem realizes_operation {s : Setup V} {rs : Cores V} {m : Run V E (List V)}
    (h : Realizes w s (fun σ => rs.eval w σ) m) (n : NodeIndex) (op : Op) :
    Realizes w s (fun σ => (Core.operation n op rs).eval w σ) (m >>= w.operate n op) := by
  intro σ
  rw [← h σ, bind_assoc]
  rfl

end Realizes

/-! ## Events in guided worlds -/

/-- The world that answers truth tests by `ω` and everything else by a default. -/
def guided [Inhabited V] (E : Type) (ω : NodeIndex → Bool) : World V E where
  answer := fun _ _ => .ok default
  truth := fun _ ev => .ok (ω ev.site)
  build := fun _ _ => default
  deleted := default

mutual

/-- The nodes of the events of an expression, in order. -/
def Core.trace : Core V → List NodeIndex
  | .literal _ | .temp _ => []
  | .load n _ => [n]
  | .operation n op args => args.trace ++ if op.silent then [] else [n]

def Cores.trace : Cores V → List NodeIndex
  | .nil => []
  | .cons e es => e.trace ++ es.trace

end

def Setup.trace (ω : NodeIndex → Bool) : Setup V → List NodeIndex
  | .done => []
  | .assign _ v next | .instr v next => v.trace ++ next.trace ω
  | .delete _ next => next.trace ω
  | .branch n negated test body orelse next =>
      test.trace ++ n :: ((if ω n != negated then body.trace ω else orelse.trace ω) ++
        next.trace ω)

theorem trace_append (ω : NodeIndex → Bool) (s s' : Setup V) :
    (s ++ s').trace ω = s.trace ω ++ s'.trace ω := by
  induction s with
  | done => rfl
  | assign t v next ih =>
    calc v.trace ++ (next ++ s').trace ω = v.trace ++ (next.trace ω ++ s'.trace ω) := by rw [ih]
      _ = (Setup.assign t v next).trace ω ++ s'.trace ω := (List.append_assoc _ _ _).symm
  | instr v next ih =>
    calc v.trace ++ (next ++ s').trace ω = v.trace ++ (next.trace ω ++ s'.trace ω) := by rw [ih]
      _ = (Setup.instr v next).trace ω ++ s'.trace ω := (List.append_assoc _ _ _).symm
  | delete t next ih => exact ih
  | branch n negated test body orelse next _ _ ih =>
    change test.trace ++ n :: (_ ++ (next ++ s').trace ω) = _
    rw [ih, Setup.trace]
    simp only [List.append_assoc, List.cons_append]

mutual

theorem trace_eq_nil_iff : ∀ r : Core V, r.trace = [] ↔ r.quiet = true
  | .literal _ | .temp _ => by simp [Core.trace, Core.quiet]
  | .load _ _ => by simp [Core.trace, Core.quiet]
  | .operation n op args => by
    rw [Core.trace, Core.quiet, List.append_eq_nil_iff, traceAll_eq_nil_iff args]
    cases op.silent <;> simp

theorem traceAll_eq_nil_iff : ∀ rs : Cores V, rs.trace = [] ↔ rs.quiet = true
  | .nil => by simp [Cores.trace, Cores.quiet]
  | .cons e es => by
    rw [Cores.trace, Cores.quiet, List.append_eq_nil_iff, trace_eq_nil_iff e,
      traceAll_eq_nil_iff es, Bool.and_eq_true]

end

section Guided

variable [Inhabited V] (ω : NodeIndex → Bool)

theorem traces_ask (ev : Event V) :
    Traces Event.site ((guided E ω : World V E).ask ev) [ev.site] :=
  traces_observe Event.site ev default

theorem traces_test_bind {α : Type} (n : NodeIndex) (v : V) {k : Bool → Run V E α}
    {tr : List NodeIndex} (hk : Traces Event.site (k (ω n)) tr) :
    Traces Event.site ((guided E ω : World V E).test n v >>= k) (n :: tr) :=
  traces_observe_bind (Event.test n v) (ω n) hk

theorem traces_operate (n : NodeIndex) (op : Op) (vs : List V) :
    Traces Event.site ((guided E ω : World V E).operate n op vs)
      (if op.silent then [] else [n]) := by
  rw [World.operate]
  split
  · exact traces_pure _ _
  · exact traces_ask ω (.perform n op vs)

variable (σ : Temps V)

mutual

theorem traces_eval : ∀ r : Core V, Traces Event.site (r.eval (guided E ω) σ) r.trace
  | .literal _ | .temp _ => traces_pure _ _
  | .load n id => traces_ask ω (.load n id)
  | .operation n op args => (traces_evalAll args).bind fun vs => traces_operate ω n op vs

theorem traces_evalAll : ∀ rs : Cores V, Traces Event.site (rs.eval (guided E ω) σ) rs.trace
  | .nil => traces_pure _ _
  | .cons e es => by
    refine (traces_eval e).bind fun v => ?_
    rw [← List.append_nil es.trace]
    exact (traces_evalAll es).bind fun vs => traces_pure _ _

end

theorem traces_exec (s : Setup V) :
    Traces Event.site (s.exec (guided E ω : World V E) σ) (s.trace ω) := by
  induction s generalizing σ with
  | done => exact traces_pure _ _
  | assign t v next ih => exact (traces_eval ω σ v).bind fun x => ih _
  | instr v next ih => exact (traces_eval ω σ v).bind fun _ => ih _
  | delete t next ih => exact ih _
  | branch n negated test body orelse next ihb iho ih =>
    refine (traces_eval ω σ test).bind fun x => traces_test_bind ω n x ?_
    refine Traces.bind ?_ fun σ' => ih σ'
    cases ω n != negated
    · exact iho σ
    · exact ihb σ

end Guided

end DietPython.Expressions
