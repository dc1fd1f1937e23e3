import DietPython.Jit.References

/-!
# When the code of a block gives back its references

`runBlock` is a block that ends in a return, with the exit of a block that has no handler: on both
ways out the slots are released. It gives back what it has taken exactly when no instruction of it
has an operand that can fail after one whose result is to be released.

`Expr.loses` finds the run in which references are lost: `countdown` is the runtime whose helpers
fail after a number of calls.
-/

namespace DietPython.Jit

open Ledgers

section Block

variable {O σ : Type} [DecidableEq O] (rt : Helpers O σ)

/-- The operations of a block, the value that it returns, and the release of the slots. -/
def runBlock (stackSlots : List String) (ops : List Expr) (value : Expr) : JitAct O σ O :=
  ensure (do emitOps rt ops; value.emit rt false) (decrefAll rt stackSlots)

end Block

/-- Whatever the objects and the helpers are, the code of a block ends with what it had. -/
def Balanced (stackSlots : List String) (ops : List Expr) (value : Expr) : Prop :=
  ∀ (O σ : Type) [DecidableEq O] (rt : Helpers O σ) (s : State O (Slots O σ)) (rest : Multiset O),
    s.held = slotRefs rt stackSlots s.own.slots + rest →
      Meets (runBlock rt stackSlots ops value) s
        (fun result s' => s'.held = rest + ref rt.immortal result) (fun s' => s'.held = rest)

section Balance

variable {O σ : Type} [DecidableEq O] {rt : Helpers O σ} {stackSlots : List String}
  {s : State O (Slots O σ)} {rest : Multiset O}

theorem decrefAll_meets {after : Unit → State O (Slots O σ) → Prop}
    {leaves : State O (Slots O σ) → Prop}
    (hheld : s.held = slotRefs rt stackSlots s.own.slots + rest)
    (h : after () { s with held := rest }) :
    Meets (decrefAll rt stackSlots) s after leaves := by
  induction stackSlots generalizing s with
  | nil =>
    have heq : s.held = rest := by simpa [slotRefs] using hheld
    subst heq
    exact meets_pure h
  | cons name names ih =>
    refine Meets.bind (fun value s' => value = s.own.slots name ∧ s = s') ⟨rfl, rfl⟩ ?_
    rintro _ _ ⟨rfl, rfl⟩
    have hsum : s.held = ref rt.immortal (s.own.slots name) +
        (slotRefs rt names s.own.slots + rest) := by
      rw [hheld, ← add_assoc]
      simp [slotRefs]
    refine Meets.bind (fun _ s' => s' = { s with held := slotRefs rt names s.own.slots + rest })
      (meets_release hsum rfl) ?_
    rintro _ _ rfl
    exact ih rfl h

/-- The number of helpers that the operations of a block call. -/
def callsOf (ops : List Expr) : ℕ := (ops.map Expr.calls).sum

theorem emitOps_meets (cost : σ → ℕ) (hnodup : stackSlots.Nodup) {ops : List Expr}
    (hsteady : ∀ op ∈ ops, op.steady = true) (hlocals : ∀ op ∈ ops, ∀ name ∈ op.locals,
      name ∈ stackSlots) (hheld : s.held = slotRefs rt stackSlots s.own.slots + rest) :
    Meets (emitOps rt ops) s
      (fun _ s' => s'.held = slotRefs rt stackSlots s'.own.slots + rest ∧
        (Counted rt cost → cost s'.own.world + callsOf ops = cost s.own.world))
      (Leaves rt stackSlots cost (callsOf ops) (ops.all Expr.tight) rest s) := by
  induction ops generalizing s with
  | nil => exact meets_pure ⟨hheld, fun _ => rfl⟩
  | cons op ops ih =>
    obtain ⟨hop, hops⟩ := List.forall_mem_cons.1 hsteady
    obtain ⟨hopLocals, hopsLocals⟩ := List.forall_mem_cons.1 hlocals
    have hcalls : callsOf (op :: ops) = op.calls + callsOf ops := by simp [callsOf]
    have hmeets : op.Meets rt stackSlots cost := op.meets hnodup hop hopLocals
    refine Meets.bind _ ((hmeets false s rest (fun h => absurd h Bool.false_ne_true) hheld).mono
      (fun _ _ h => h) ?_) ?_
    · rintro s' ⟨⟨leak, hheld', htight⟩, hpos, hcounted⟩
      refine ⟨⟨leak, hheld', fun hall => htight ?_⟩, by omega, fun hcost => ?_⟩
      · exact (List.all_eq_true.1 hall) op List.mem_cons_self
      · have := hcounted hcost
        omega
    · rintro value s' ⟨hgoes, -⟩
      have hsum : s'.held =
          ref rt.immortal value + (slotRefs rt stackSlots s'.own.slots + rest) := by
        rw [hgoes.held, add_comm]
        rfl
      refine Meets.bind (fun _ s'' => s'' =
        { s' with held := slotRefs rt stackSlots s'.own.slots + rest }) (meets_release hsum rfl) ?_
      rintro _ _ rfl
      refine (ih hops hopsLocals rfl).mono ?_ ?_
      · rintro _ s'' ⟨hheld'', hcounted⟩
        refine ⟨hheld'', fun hcost => ?_⟩
        have h₁ := hcounted hcost
        have h₂ := hgoes.counted hcost
        dsimp only at h₁
        omega
      · rintro s'' ⟨⟨leak, hheld'', htight⟩, hpos, hcounted⟩
        refine ⟨⟨leak, hheld'', fun hall => htight ?_⟩, by omega, fun hcost => ?_⟩
        · exact List.all_eq_true.2 fun other hother =>
            (List.all_eq_true.1 hall) other (List.mem_cons_of_mem _ hother)
        · have h₁ := hcounted hcost
          have h₂ := hgoes.counted hcost
          dsimp only at h₁
          omega

theorem runBlock_meets {ops : List Expr} {value : Expr} {P : Multiset O → Prop} {Q : Prop}
    (h : Meets (emitOps rt ops >>= fun _ => value.emit rt false) s
      (fun result s' =>
        s'.held = slotRefs rt stackSlots s'.own.slots + rest + ref rt.immortal result ∧ Q)
      (fun s' => ∃ leak, s'.held = slotRefs rt stackSlots s'.own.slots + rest + leak ∧ P leak)) :
    Meets (runBlock rt stackSlots ops value) s
      (fun result s' => s'.held = rest + ref rt.immortal result ∧ Q)
      (fun s' => ∃ leak, s'.held = rest + leak ∧ P leak) := by
  refine Meets.ensure _ _ h ?_ ?_
  · rintro result s' ⟨hheld, hQ⟩
    exact decrefAll_meets (by rw [hheld, add_assoc]) ⟨rfl, hQ⟩
  · rintro s' ⟨leak, hheld, hP⟩
    exact decrefAll_meets (by rw [hheld, add_assoc]) ⟨leak, rfl, hP⟩

theorem runBlock_tight (hnodup : stackSlots.Nodup) {ops : List Expr} {value : Expr}
    (hsteady : ∀ op ∈ value :: ops, op.steady = true)
    (hlocals : ∀ op ∈ value :: ops, ∀ name ∈ op.locals, name ∈ stackSlots)
    (htight : ∀ op ∈ value :: ops, op.tight = true)
    (hheld : s.held = slotRefs rt stackSlots s.own.slots + rest) :
    Meets (runBlock rt stackSlots ops value) s
      (fun result s' => s'.held = rest + ref rt.immortal result) (fun s' => s'.held = rest) := by
  obtain ⟨hvalue, hops⟩ := List.forall_mem_cons.1 hsteady
  obtain ⟨hvalueLocals, hopsLocals⟩ := List.forall_mem_cons.1 hlocals
  obtain ⟨hvalueTight, hopsTight⟩ := List.forall_mem_cons.1 htight
  have hmeets : value.Meets rt stackSlots (fun _ => 0) := value.meets hnodup hvalue hvalueLocals
  have hrun : Meets (runBlock rt stackSlots ops value) s
      (fun result s' => s'.held = rest + ref rt.immortal result ∧ True)
      (fun s' => ∃ leak, s'.held = rest + leak ∧ leak = 0) := by
    refine runBlock_meets (Meets.bind _ ((emitOps_meets (fun _ => 0) hnodup hops hopsLocals
      hheld).mono (fun _ _ h => h.1) ?_) ?_)
    · rintro s' ⟨⟨leak, hheld', hleak⟩, -, -⟩
      exact ⟨leak, hheld', hleak (List.all_eq_true.2 hopsTight)⟩
    · intro _ s' hheld'
      refine (hmeets false s' rest (fun h => absurd h Bool.false_ne_true) hheld').mono ?_ ?_
      · exact fun result s'' h => ⟨h.1.held, trivial⟩
      · rintro s'' ⟨⟨leak, hheld'', hleak⟩, -, -⟩
        exact ⟨leak, hheld'', hleak hvalueTight⟩
  refine hrun.mono (fun _ _ h => h.1) ?_
  rintro s' ⟨_, hheld', rfl⟩
  rw [hheld', add_zero]

end Balance

/-! ## The run in which references are lost -/

/-- The world is the number of calls that still succeed. -/
def countdown : Helpers ℕ ℕ where
  immortal o := o == 0
  constant _ := 0
  noneConst := 0
  trueConst := 0
  falseConst := 0
  deletedConst := 0
  call _ _
    | 0 => (none, 0)
    | left + 1 => (some 1, left)
  constant_immortal _ := rfl
  none_immortal := rfl
  true_immortal := rfl
  false_immortal := rfl

theorem countdown_counted : Counted countdown id := by
  intro helper args world
  cases world with
  | zero => exact ⟨fun value h => absurd h (Option.some_ne_none value).symm, fun _ => rfl⟩
  | succ left => exact ⟨fun _ _ => rfl, fun h => absurd h (Option.some_ne_none 1)⟩

theorem ref_countdown {helper : String} {args : List ℕ} {world value : ℕ}
    (h : (countdown.call helper args world).1 = some value) : ref countdown.immortal value ≠ 0 := by
  cases world with
  | zero => cases h
  | succ left =>
    cases h
    exact Multiset.singleton_ne_zero 1

section Leaks

variable {stackSlots : List String}

/-- With this number of calls that succeed, the code leaves with references that it has lost. -/
def Loses {α : Type} (stackSlots : List String) (m : JitAct ℕ ℕ α) (left : ℕ) : Prop :=
  ∀ (s : State ℕ (Slots ℕ ℕ)) (rest : Multiset ℕ), s.own.world = left →
    s.held = slotRefs countdown stackSlots s.own.slots + rest →
    Meets m s (fun _ _ => False)
      (fun s' => ∃ leak, s'.held = slotRefs countdown stackSlots s'.own.slots + rest + leak ∧
        leak ≠ 0)

theorem Loses.bind {α β : Type} {m : JitAct ℕ ℕ α} {left : ℕ} (h : Loses stackSlots m left)
    (f : α → JitAct ℕ ℕ β) : Loses stackSlots (m >>= f) left := fun s rest hworld hheld =>
  Meets.bind _ (h s rest hworld hheld) fun _ _ h => h.elim

/-- An instruction after which the references are lost. -/
theorem Loses.after {e : Expr} {α : Type} {f : ℕ → JitAct ℕ ℕ α} {left : ℕ} {borrowed : Bool}
    (hborrowed : borrowed = true → e.borrowable = true)
    (he : e.Meets countdown stackSlots id)
    (h : ∀ (s s' : State ℕ (Slots ℕ ℕ)) (rest : Multiset ℕ) (value : ℕ), s'.own.world = left →
      GoesOn countdown stackSlots id e.writes e.calls rest
        (ownedRef countdown value borrowed) s s' →
      Yields countdown e borrowed value s' →
      Meets (f value) s' (fun _ _ => False)
        (fun s'' => ∃ leak, s''.held = slotRefs countdown stackSlots s''.own.slots + rest + leak ∧
          leak ≠ 0)) :
    Loses stackSlots (e.emit countdown borrowed >>= f) (e.calls + left) := by
  intro s rest hworld hheld
  refine Meets.bind _ ((he borrowed s rest hborrowed hheld).mono (fun _ _ h => h) ?_) ?_
  · intro s' hleaves
    have hlt : s.own.world < e.calls := hleaves.counted countdown_counted
    omega
  · rintro value s' ⟨hgoes, hyields⟩
    have hcounted : s'.own.world + e.calls = s.own.world := hgoes.counted countdown_counted
    exact h s s' rest value (by omega) hgoes hyields

theorem operands_lose {arg : Expr} {args : Exprs} (harg : arg.Meets countdown stackSlots id)
    (hargs : args.Meets countdown stackSlots id)
    (ihArg : arg.tight = false → ∃ left, ∀ borrowed,
      Loses stackSlots (arg.emit countdown borrowed) left)
    (ihArgs : args.tight = false → ∃ left, Loses stackSlots (args.emit countdown) left)
    (htight : (Exprs.cons arg args).tight = false) :
    ∃ left, ∀ {α : Type} (K : ℕ → List (ℕ × Bool) → JitAct ℕ ℕ α), Loses stackSlots (do
      let value ← arg.emit countdown arg.borrowable
      let values ← args.emit countdown
      K value values) left := by
  by_cases hargTight : arg.tight = false
  · obtain ⟨left, h⟩ := ihArg hargTight
    exact ⟨left, fun K => (h arg.borrowable).bind _⟩
  by_cases hargsTight : args.tight = false
  · obtain ⟨left, h⟩ := ihArgs hargsTight
    refine ⟨arg.calls + left, fun K => Loses.after id harg ?_⟩
    intro s s' rest value hworld hgoes _
    have hlose := (h.bind (K value)) s' (rest + ownedRef countdown value arg.borrowable) hworld
      (by rw [hgoes.held, add_assoc])
    refine hlose.mono (fun _ _ h => h) ?_
    rintro s'' ⟨leak, hheld, hleak⟩
    refine ⟨ownedRef countdown value arg.borrowable + leak, ?_, add_ne_zero_right hleak⟩
    rw [hheld]
    abel
  · have hlast : arg.ownsResult = true ∧ 0 < args.calls := by
      simp only [Bool.not_eq_false] at hargTight hargsTight
      simpa [Exprs.tight, hargTight, hargsTight, Nat.pos_iff_ne_zero] using htight
    refine ⟨arg.calls + 0, fun K => Loses.after id harg ?_⟩
    intro s s' rest value hworld hgoes hyields
    have hmeets := hargs s' (rest + ownedRef countdown value arg.borrowable)
      (by rw [hgoes.held, add_assoc])
    refine Meets.bind (fun _ _ => False) (hmeets.mono ?_ ?_) fun _ _ h => h.elim
    · rintro values s'' ⟨hgoes', -⟩
      have hcounted : s''.own.world + args.calls = s'.own.world := hgoes'.counted countdown_counted
      omega
    · rintro s'' ⟨⟨leak, hheld, -⟩, -, -⟩
      refine ⟨ownedRef countdown value arg.borrowable + leak, by rw [hheld]; abel,
        add_ne_zero_left ?_⟩
      obtain ⟨helper, args', world, hcall⟩ := hyields.owned hlast.1
      have hborrowable : arg.borrowable = false := by
        cases arg <;> simp_all [Expr.ownsResult, Expr.borrowable]
      rw [hborrowable]
      exact ref_countdown hcall

mutual

theorem Expr.loses (hnodup : stackSlots.Nodup) : ∀ e : Expr, e.steady = true →
    (∀ name ∈ e.locals, name ∈ stackSlots) → e.tight = false →
      ∃ left, ∀ borrowed, Loses stackSlots (e.emit countdown borrowed) left
  | .operation helper args, hsteady, hlocals, htight => by
    obtain ⟨left, h⟩ := Exprs.loses hnodup args hsteady hlocals htight
    exact ⟨left, fun _ => h.bind _⟩
  | .identity left right, hsteady, hlocals, htight => by
    simp only [Expr.steady, Bool.and_eq_true] at hsteady
    have hin := List.forall_mem_append.1 hlocals
    have hright : right.Meets countdown stackSlots id :=
      Expr.meets hnodup right hsteady.1.2 hin.2
    have hsame : (Exprs.cons left (.cons right .nil)).tight = false := by
      simpa [Expr.tight, Exprs.tight, Exprs.calls] using htight
    have hrightLoses : (Exprs.cons right .nil).tight = false →
        ∃ n, Loses stackSlots ((Exprs.cons right .nil).emit countdown) n := fun hargs => by
      have hrightTight : right.tight = false := by simpa [Exprs.tight, Exprs.calls] using hargs
      obtain ⟨n, h⟩ := Expr.loses hnodup right hsteady.1.2 hin.2 hrightTight
      exact ⟨n, (h _).bind _⟩
    obtain ⟨n, h⟩ := operands_lose (Expr.meets hnodup left hsteady.1.1 hin.1)
      (cons_meets hright nil_meets hin.2 (by simp [Exprs.writes]))
      (fun hleft => Expr.loses hnodup left hsteady.1.1 hin.1 hleft) hrightLoses hsame
    refine ⟨n, fun borrowed => ?_⟩
    rw [emit_identity]
    exact h _
  | .call func args, hsteady, hlocals, htight => by
    simp only [Expr.steady, Bool.and_eq_true] at hsteady
    have hin := List.forall_mem_append.1 hlocals
    obtain ⟨left, h⟩ := operands_lose (Expr.meets hnodup func hsteady.1.1 hin.1)
      (Exprs.meets hnodup args hsteady.1.2 hin.2)
      (fun hfunc => Expr.loses hnodup func hsteady.1.1 hin.1 hfunc)
      (fun hargs => Exprs.loses hnodup args hsteady.1.2 hin.2 hargs) htight
    exact ⟨left, fun _ => h _⟩
  | .storeLocal _ value, hsteady, hlocals, htight => by
    have hin := List.forall_mem_cons.1 hlocals
    obtain ⟨left, h⟩ := Expr.loses hnodup value hsteady hin.2 htight
    exact ⟨left, fun _ => (h _).bind _⟩

theorem Exprs.loses (hnodup : stackSlots.Nodup) : ∀ args : Exprs, args.steady = true →
    (∀ name ∈ args.locals, name ∈ stackSlots) → args.tight = false →
      ∃ left, Loses stackSlots (args.emit countdown) left
  | .cons arg args, hsteady, hlocals, htight => by
    simp only [Exprs.steady, Bool.and_eq_true] at hsteady
    have hin := List.forall_mem_append.1 hlocals
    obtain ⟨left, h⟩ := operands_lose (Expr.meets hnodup arg hsteady.1.1 hin.1)
      (Exprs.meets hnodup args hsteady.1.2 hin.2)
      (fun harg => Expr.loses hnodup arg hsteady.1.1 hin.1 harg)
      (fun hargs => Exprs.loses hnodup args hsteady.1.2 hin.2 hargs) htight
    exact ⟨left, h _⟩

end

theorem emitOps_loses (hnodup : stackSlots.Nodup) {ops : List Expr}
    (hsteady : ∀ op ∈ ops, op.steady = true)
    (hlocals : ∀ op ∈ ops, ∀ name ∈ op.locals, name ∈ stackSlots)
    (htight : ∃ op ∈ ops, op.tight = false) :
    ∃ left, Loses stackSlots (emitOps countdown ops) left := by
  induction ops with
  | nil => exact absurd htight (by simp)
  | cons op ops ih =>
    obtain ⟨hop, hops⟩ := List.forall_mem_cons.1 hsteady
    obtain ⟨hopLocals, hopsLocals⟩ := List.forall_mem_cons.1 hlocals
    cases hopTight : op.tight with
    | false =>
      obtain ⟨left, h⟩ := op.loses hnodup hop hopLocals hopTight
      exact ⟨left, (h _).bind _⟩
    | true =>
      have hlater : ∃ op' ∈ ops, op'.tight = false := by
        obtain ⟨op', hop', hop'Tight⟩ := htight
        rcases List.mem_cons.1 hop' with rfl | hin
        · rw [hopTight] at hop'Tight
          exact absurd hop'Tight (by decide)
        · exact ⟨op', hin, hop'Tight⟩
      obtain ⟨left, h⟩ := ih hops hopsLocals hlater
      refine ⟨op.calls + left, Loses.after (fun h => absurd h Bool.false_ne_true)
        (op.meets hnodup hop hopLocals) ?_⟩
      intro s s' rest value hworld hgoes _
      have hsum : s'.held = ref countdown.immortal value +
          (slotRefs countdown stackSlots s'.own.slots + rest) := by
        rw [hgoes.held, add_comm]
        rfl
      refine Meets.bind (fun _ s'' => s'' =
        { s' with held := slotRefs countdown stackSlots s'.own.slots + rest })
        (meets_release hsum rfl) ?_
      rintro _ _ rfl
      exact h _ rest hworld rfl

theorem runBlock_loses (hnodup : stackSlots.Nodup) {ops : List Expr} {value : Expr}
    (hsteady : ∀ op ∈ value :: ops, op.steady = true)
    (hlocals : ∀ op ∈ value :: ops, ∀ name ∈ op.locals, name ∈ stackSlots)
    (htight : ∃ op ∈ value :: ops, op.tight = false) :
    ∃ left, Loses stackSlots (emitOps countdown ops >>= fun _ => value.emit countdown false)
      left := by
  obtain ⟨hvalue, hops⟩ := List.forall_mem_cons.1 hsteady
  obtain ⟨hvalueLocals, hopsLocals⟩ := List.forall_mem_cons.1 hlocals
  by_cases hopsTight : ∃ op ∈ ops, op.tight = false
  · obtain ⟨left, h⟩ := emitOps_loses hnodup hops hopsLocals hopsTight
    exact ⟨left, h.bind _⟩
  · have hvalueTight : value.tight = false := by
      obtain ⟨op, hop, hopTight⟩ := htight
      rcases List.mem_cons.1 hop with rfl | hin
      · exact hopTight
      · exact absurd ⟨op, hin, hopTight⟩ hopsTight
    obtain ⟨left, h⟩ := value.loses hnodup hvalue hvalueLocals hvalueTight
    refine ⟨callsOf ops + left, fun s rest hworld hheld => ?_⟩
    refine Meets.bind _ ((emitOps_meets id hnodup hops hopsLocals hheld).mono
      (fun _ _ h => h) ?_) ?_
    · intro s' hleaves
      have hlt : s.own.world < callsOf ops := hleaves.counted countdown_counted
      omega
    · rintro _ s' ⟨hheld', hcounted⟩
      have hworld' : s'.own.world + callsOf ops = s.own.world := hcounted countdown_counted
      exact h false s' rest (by omega) hheld'

end Leaks

/-- The code of a block gives back every reference that it has taken, on every path, if and only if
no operand that can fail comes after one whose result is to be released. -/
theorem runBlock_balanced_iff {stackSlots : List String} {ops : List Expr} {value : Expr}
    (hnodup : stackSlots.Nodup) (hsteady : ∀ op ∈ value :: ops, op.steady = true)
    (hlocals : ∀ op ∈ value :: ops, ∀ name ∈ op.locals, name ∈ stackSlots) :
    Balanced stackSlots ops value ↔ ∀ op ∈ value :: ops, op.tight = true := by
  refine ⟨fun hbalanced => ?_, fun htight O σ _ rt s rest hheld =>
    runBlock_tight hnodup hsteady hlocals htight hheld⟩
  by_contra hloose
  push Not at hloose
  obtain ⟨op, hop, hopTight⟩ := hloose
  obtain ⟨left, hloses⟩ := runBlock_loses hnodup hsteady hlocals
    ⟨op, hop, Bool.eq_false_iff.2 hopTight⟩
  -- No object that needs a reference is held at the start.
  have hempty : (0 : Multiset ℕ) = slotRefs countdown stackSlots (fun _ => 0) + 0 := by
    simp [slotRefs, ref, countdown]
  have hlost := runBlock_meets (Q := False) ((hloses ⟨0, ⟨fun _ => 0, left⟩⟩ 0 rfl hempty).mono
    (fun _ _ h => h.elim) (fun _ h => h))
  refine hlost.clash (hbalanced ℕ ℕ countdown ⟨0, ⟨fun _ => 0, left⟩⟩ 0 hempty)
    (fun _ _ h _ => h.2) ?_
  rintro s' ⟨leak, hheld, hleak⟩ hnone
  exact hleak (by rw [hnone, zero_add] at hheld; exact hheld.symm)

/-- `f(g(x), h())`, with the locals `f`, `g` and `x`: `h()` can fail after `g(x)`. -/
theorem runBlock_unbalanced_call : ¬Balanced ["f", "g", "x"]
    [.call (.loadLocal "f") (.cons (.call (.loadLocal "g") (.cons (.loadLocal "x") .nil))
      (.cons (.call (.loadOwned "h") .nil) .nil))] (.constant 0) := by
  rw [runBlock_balanced_iff (by decide) (by decide) (by decide)]
  decide

end DietPython.Jit
