import DietPython.Jit.Ownership
import Mathlib.Algebra.BigOperators.Group.List.Basic

/-!
# What the code of an instruction leaves held

The references of the code are those of the stack slots, those that it has from before, and those of
the values that are its own. `Expr.Goes` and `Expr.Leaves` say what is held when an instruction goes
on and when it leaves; the rules for operands, helpers and slots put them together.
-/

namespace DietPython.Jit

open Ledgers

section References

variable {O σ : Type} (rt : Helpers O σ)

/-- The references of the stack slots. -/
def slotRefs (stackSlots : List String) (slots : String → O) : Multiset O :=
  (stackSlots.map fun name => ref rt.immortal (slots name)).sum

def ownedRef (value : O) (borrowed : Bool) : Multiset O :=
  if borrowed then 0 else ref rt.immortal value

/-- The references of values that are to be released. -/
def ownedRefs (values : List (O × Bool)) : Multiset O :=
  (values.map fun (value, borrowed) => ownedRef rt value borrowed).sum

@[simp] theorem ownedRefs_nil : ownedRefs rt [] = 0 := rfl

@[simp] theorem ownedRefs_cons (value : O) (borrowed : Bool) (values : List (O × Bool)) :
    ownedRefs rt ((value, borrowed) :: values) =
      ownedRef rt value borrowed + ownedRefs rt values := by
  simp [ownedRefs]

theorem ownedRefs_append (values after : List (O × Bool)) :
    ownedRefs rt (values ++ after) = ownedRefs rt values + ownedRefs rt after := by
  simp [ownedRefs]

@[simp] theorem ref_constant (index : ℕ) : ref rt.immortal (rt.constant index) = 0 := by
  simp [ref, rt.constant_immortal]

@[simp] theorem ref_noneConst : ref rt.immortal rt.noneConst = 0 := by
  simp [ref, rt.none_immortal]

@[simp] theorem ref_boolConst (p : Prop) [Decidable p] :
    ref rt.immortal (if p then rt.trueConst else rt.falseConst) = 0 := by
  split <;> simp [ref, rt.true_immortal, rt.false_immortal]

theorem ref_le_slotRefs {stackSlots : List String} {slots : String → O} {name : String}
    (hname : name ∈ stackSlots) :
    ref rt.immortal (slots name) ≤ slotRefs rt stackSlots slots := by
  obtain ⟨before, after, rfl⟩ := List.append_of_mem hname
  simp only [slotRefs, List.map_append, List.map_cons, List.sum_append, List.sum_cons]
  rw [Multiset.add_comm, Multiset.add_assoc]
  exact Multiset.le_add_right _ _

theorem slotRefs_congr {stackSlots : List String} {slots slots' : String → O}
    (h : ∀ name ∈ stackSlots, slots' name = slots name) :
    slotRefs rt stackSlots slots' = slotRefs rt stackSlots slots := by
  unfold slotRefs
  rw [List.map_congr_left]
  intro name hname
  rw [h name hname]

theorem slotRefs_update [DecidableEq O] {stackSlots : List String} (hnodup : stackSlots.Nodup)
    {name : String} (hname : name ∈ stackSlots) (slots : String → O) (value : O) :
    ref rt.immortal (slots name) + slotRefs rt stackSlots (Function.update slots name value) =
      ref rt.immortal value + slotRefs rt stackSlots slots := by
  induction stackSlots with
  | nil => cases hname
  | cons head rest ih =>
    have hsplit : ∀ slots' : String → O,
        slotRefs rt (head :: rest) slots' =
          ref rt.immortal (slots' head) + slotRefs rt rest slots' := fun _ => by simp [slotRefs]
    obtain ⟨hhead, hrest⟩ := List.nodup_cons.1 hnodup
    rw [hsplit, hsplit]
    by_cases heq : name = head
    · subst heq
      have hsame : slotRefs rt rest (Function.update slots name value) = slotRefs rt rest slots :=
        slotRefs_congr rt fun other hother =>
          Function.update_of_ne (fun h : other = name => hhead (h ▸ hother)) _ _
      rw [Function.update_self, hsame]
      abel
    · rw [Function.update_of_ne (Ne.symm heq)]
      have hin : name ∈ rest := (List.mem_cons.1 hname).resolve_left heq
      calc ref rt.immortal (slots name) +
            (ref rt.immortal (slots head) + slotRefs rt rest (Function.update slots name value))
          = ref rt.immortal (slots head) +
            (ref rt.immortal (slots name) +
              slotRefs rt rest (Function.update slots name value)) := by abel
        _ = ref rt.immortal (slots head) +
            (ref rt.immortal value + slotRefs rt rest slots) := by rw [ih hrest hin]
        _ = _ := by abel

end References

/-! ## What an instruction leaves -/

section Specs

variable {O σ : Type} (rt : Helpers O σ) (stackSlots : List String) (cost : σ → ℕ)

/-- The helpers count down what they can still do, and fail when it is nothing. -/
def Counted : Prop := ∀ helper args world,
  (∀ value, (rt.call helper args world).1 = some value →
    cost (rt.call helper args world).2 + 1 = cost world) ∧
  ((rt.call helper args world).1 = none → cost world = 0)

/-- What holds when code with these writes and calls goes on. -/
structure GoesOn (writes : List String) (calls : ℕ) (rest owned : Multiset O)
    (s s' : State O (Slots O σ)) : Prop where
  held : s'.held = slotRefs rt stackSlots s'.own.slots + rest + owned
  slots : ∀ name ∉ writes, s'.own.slots name = s.own.slots name
  counted : Counted rt cost → cost s'.own.world + calls = cost s.own.world

/-- What holds when such code leaves: what is held is that of the slots, that from before, and what
was to be released. -/
structure Leaves (calls : ℕ) (tight : Bool) (rest : Multiset O)
    (s s' : State O (Slots O σ)) : Prop where
  held : ∃ leak, s'.held = slotRefs rt stackSlots s'.own.slots + rest + leak ∧
    (tight = true → leak = 0)
  calls_pos : 0 < calls
  counted : Counted rt cost → cost s.own.world < calls

/-- The value of an instruction. -/
structure Yields (e : Expr) (borrowed : Bool) (value : O) (s' : State O (Slots O σ)) : Prop where
  slot : borrowed = true → ∀ name, e.slot = some name → value = s'.own.slots name
  owned : e.ownsResult = true →
    ∃ helper args world, (rt.call helper args world).1 = some value
  unowned : e.ownsResult = false → e.borrowable = borrowed → ownedRef rt value borrowed = 0

variable [DecidableEq O]

def Expr.Meets (e : Expr) : Prop :=
  ∀ borrowed s rest, (borrowed = true → e.borrowable = true) →
    s.held = slotRefs rt stackSlots s.own.slots + rest →
    Ledgers.Meets (e.emit rt borrowed) s
      (fun value s' =>
        GoesOn rt stackSlots cost e.writes e.calls rest (ownedRef rt value borrowed) s s' ∧
          Yields rt e borrowed value s')
      (Leaves rt stackSlots cost e.calls e.tight rest s)

/-- The values of operands: those that are borrowed are in stack slots. -/
def Operands (values : List (O × Bool)) (s' : State O (Slots O σ)) : Prop :=
  ∀ value, (value, true) ∈ values → ∃ name ∈ stackSlots, s'.own.slots name = value

def Exprs.Meets (args : Exprs) : Prop :=
  ∀ s rest, s.held = slotRefs rt stackSlots s.own.slots + rest →
    Ledgers.Meets (args.emit rt) s
      (fun values s' =>
        GoesOn rt stackSlots cost args.writes args.calls rest (ownedRefs rt values) s s' ∧
          Operands stackSlots values s')
      (Leaves rt stackSlots cost args.calls args.tight rest s)

end Specs

/-! ## Helpers and releases -/

section Steps

variable {O σ : Type} [DecidableEq O] {rt : Helpers O σ} {stackSlots : List String}
  {s : State O (Slots O σ)} {leaves : State O (Slots O σ) → Prop}

theorem releaseArgValues_meets {values : List (O × Bool)} {rest : Multiset O}
    {after : Unit → State O (Slots O σ) → Prop} (hheld : s.held = rest + ownedRefs rt values)
    (h : after () { s with held := rest }) :
    Meets (releaseArgValues rt values) s after leaves := by
  induction values generalizing s with
  | nil =>
    rw [ownedRefs_nil, add_zero] at hheld
    subst hheld
    exact meets_pure h
  | cons head values ih =>
    obtain ⟨value, borrowed⟩ := head
    rw [ownedRefs_cons] at hheld
    cases borrowed with
    | true =>
      show Meets (releaseArgValues rt values) s after leaves
      exact ih (by simpa [ownedRef] using hheld) h
    | false =>
      show Meets (release rt.immortal value >>= fun _ => releaseArgValues rt values) s after leaves
      refine Meets.bind (fun _ s' =>
        s' = { s with held := rest + ownedRefs rt values }) ?_ ?_
      · refine meets_release ?_ rfl
        rw [hheld]
        simp only [ownedRef, Bool.false_eq_true, if_false]
        abel
      · rintro _ _ rfl
        exact ih rfl h

theorem uses_meets {args : List O} (hheld : ∀ value ∈ args, ref rt.immortal value ≤ s.held)
    {after : Unit → State O (Slots O σ) → Prop} (h : after () s) :
    Meets (args.forM (use rt.immortal)) s after leaves := by
  induction args with
  | nil => exact meets_pure h
  | cons value args ih =>
    refine Meets.bind (fun _ s' => s = s')
      (meets_use (hheld value List.mem_cons_self) rfl) ?_
    rintro _ _ rfl
    exact ih fun value' hvalue' => hheld value' (List.mem_cons_of_mem _ hvalue')

theorem releaseArgValues_append (values after : List (O × Bool)) :
    releaseArgValues rt (values ++ after) =
      (releaseArgValues rt values >>= fun _ => releaseArgValues rt after) := by
  induction values with
  | nil => rfl
  | cons head values ih =>
    obtain ⟨value, borrowed⟩ := head
    cases borrowed with
    | true => exact ih
    | false =>
      show (release rt.immortal value >>= fun _ => releaseArgValues rt (values ++ after)) =
        ((release rt.immortal value >>= fun _ => releaseArgValues rt values) >>=
          fun _ => releaseArgValues rt after)
      rw [ih, bind_assoc]

omit [DecidableEq O] in
theorem Operands.refs_le {values : List (O × Bool)} (h : Operands stackSlots values s)
    {rest : Multiset O}
    (hheld : s.held = slotRefs rt stackSlots s.own.slots + rest + ownedRefs rt values) :
    ∀ value ∈ values.map Prod.fst, ref rt.immortal value ≤ s.held := by
  intro value hvalue
  obtain ⟨⟨_, borrowed⟩, hmem, rfl⟩ := List.mem_map.1 hvalue
  rw [hheld]
  cases borrowed with
  | true =>
    obtain ⟨name, hname, hslot⟩ := h _ hmem
    have hle : ref rt.immortal (s.own.slots name) ≤ slotRefs rt stackSlots s.own.slots :=
      ref_le_slotRefs rt hname
    rw [hslot] at hle
    refine hle.trans ?_
    rw [add_assoc]
    exact Multiset.le_add_right _ _
  | false =>
    obtain ⟨before, after, rfl⟩ := List.append_of_mem hmem
    refine le_trans ?_ (Multiset.le_add_left _ _)
    simp only [ownedRefs, ownedRef, List.map_append, List.map_cons, List.sum_append, List.sum_cons,
      Bool.false_eq_true, if_false]
    rw [Multiset.add_comm, Multiset.add_assoc]
    exact Multiset.le_add_right _ _

omit [DecidableEq O] in
theorem runHelper_meets {helper : String} {args : List O} :
    Meets (runHelper rt helper args) s
      (fun result s' =>
        s' = { s with
          held := (result.elim 0 (ref rt.immortal)) + s.held
          own := { s.own with world := (rt.call helper args s.own.world).2 } } ∧
        (rt.call helper args s.own.world).1 = result) leaves := by
  unfold Ledgers.Meets runHelper
  rcases hcall : rt.call helper args s.own.world with ⟨_ | value, world⟩
  · exact ⟨by simp, rfl⟩
  · exact ⟨rfl, rfl⟩

/-- A helper called with operands, whose references are released before the result is looked at. -/
theorem helper_meets (cost : σ → ℕ) (e : Expr) (helper : String) {args : List O}
    {values : List (O × Bool)} {rest : Multiset O} (howns : e.ownsResult = true)
    (hargs : ∀ value ∈ args, ref rt.immortal value ≤ s.held)
    (hheld : s.held = slotRefs rt stackSlots s.own.slots + rest + ownedRefs rt values) :
    Meets (do
        let result ← callHelper rt helper args
        releaseArgValues rt values
        finishOwnedResult result) s
      (fun value s' => GoesOn rt stackSlots cost [] 1 rest (ref rt.immortal value) s s' ∧
        Yields rt e false value s')
      (Leaves rt stackSlots cost 1 e.tight rest s) := by
  refine Meets.bind (fun result s' =>
    s' = { s with
      held := (result.elim 0 (ref rt.immortal)) + s.held
      own := { s.own with world := (rt.call helper args s.own.world).2 } } ∧
    (rt.call helper args s.own.world).1 = result) ?_ ?_
  · refine Meets.bind (fun _ s' => s = s') (uses_meets hargs rfl) ?_
    rintro _ _ rfl
    exact runHelper_meets
  · rintro result _ ⟨rfl, hresult⟩
    refine Meets.bind (fun _ s' =>
      s' = { s with
        held := slotRefs rt stackSlots s.own.slots + rest + result.elim 0 (ref rt.immortal)
        own := { s.own with world := (rt.call helper args s.own.world).2 } }) ?_ ?_
    · refine releaseArgValues_meets ?_ rfl
      dsimp only
      rw [hheld]
      abel
    · rintro _ _ rfl
      cases result with
      | none =>
        refine meets_exit ⟨⟨0, rfl, fun _ => rfl⟩, Nat.one_pos, fun hcost => ?_⟩
        have h := (hcost helper args s.own.world).2 hresult
        omega
      | some value =>
        refine meets_pure ⟨⟨rfl, fun _ _ => rfl, fun hcost => ?_⟩, ?_, ?_, ?_⟩
        · exact (hcost helper args s.own.world).1 value hresult
        · intro h
          cases h
        · exact fun _ => ⟨helper, args, s.own.world, hresult⟩
        · intro h
          rw [howns] at h
          cases h

theorem replaceCloned_meets {name : String} {value : O} {rest : Multiset O}
    (hnodup : stackSlots.Nodup) (hname : name ∈ stackSlots)
    (hheld : s.held = slotRefs rt stackSlots s.own.slots + rest) :
    Meets (replaceCloned rt name value) s
      (fun _ s' => s'.held = slotRefs rt stackSlots s'.own.slots + rest ∧
        s'.own = ⟨Function.update s.own.slots name value, s.own.world⟩) leaves := by
  refine Meets.bind (fun previous s' => previous = s.own.slots name ∧ s = s')
    ⟨rfl, rfl⟩ ?_
  rintro _ _ ⟨rfl, rfl⟩
  refine Meets.bind (fun _ s' => s' = { s with held := ref rt.immortal value + s.held })
    (meets_acquire rfl) ?_
  rintro _ _ rfl
  refine Meets.bind (fun _ s' => s'.held = ref rt.immortal value + s.held ∧
    s'.own = ⟨Function.update s.own.slots name value, s.own.world⟩) ⟨rfl, rfl⟩ ?_
  rintro _ s' ⟨hheld', hown⟩
  have hsum : s'.held = ref rt.immortal (s.own.slots name) +
      (slotRefs rt stackSlots s'.own.slots + rest) := by
    rw [hheld', hheld, hown, ← add_assoc, ← add_assoc, slotRefs_update rt hnodup hname]
  exact meets_release hsum ⟨rfl, hown⟩

end Steps

/-! ## Operands -/

section Instructions

variable {O σ : Type} [DecidableEq O] {rt : Helpers O σ} {stackSlots : List String} {cost : σ → ℕ}

omit [DecidableEq O] in
theorem Leaves.mono {calls calls' : ℕ} {tight : Bool} {rest : Multiset O}
    {s s' : State O (Slots O σ)} (h : Leaves rt stackSlots cost calls tight rest s s')
    (hcalls : calls ≤ calls') : Leaves rt stackSlots cost calls' tight rest s s' where
  held := h.held
  calls_pos := h.calls_pos.trans_le hcalls
  counted hcost := (h.counted hcost).trans_le hcalls

omit [DecidableEq O] in
/-- The first operand leaves. -/
theorem Leaves.first {arg : Expr} {args : Exprs} {rest : Multiset O} {s s' : State O (Slots O σ)}
    (h : Leaves rt stackSlots cost arg.calls arg.tight rest s s') :
    Leaves rt stackSlots cost (Exprs.cons arg args).calls (Exprs.cons arg args).tight rest
      s s' := by
  obtain ⟨⟨leak, hheld, htight⟩, hpos, hcounted⟩ := h
  have hcalls : (Exprs.cons arg args).calls = arg.calls + args.calls := rfl
  refine ⟨⟨leak, hheld, fun hall => htight ?_⟩, by omega, fun hcost => ?_⟩
  · simp only [Exprs.tight, Bool.and_eq_true] at hall
    exact hall.1.1
  · have := hcounted hcost
    omega

omit [DecidableEq O] in
/-- An operand after the first leaves, and what the first owns is still held. -/
theorem Leaves.later {arg : Expr} {args : Exprs} {rest : Multiset O} {value : O}
    {s s' s'' : State O (Slots O σ)}
    (hgoes : GoesOn rt stackSlots cost arg.writes arg.calls rest
      (ownedRef rt value arg.borrowable) s s')
    (hyields : Yields rt arg arg.borrowable value s')
    (h : Leaves rt stackSlots cost args.calls args.tight
      (rest + ownedRef rt value arg.borrowable) s' s'') :
    Leaves rt stackSlots cost (Exprs.cons arg args).calls (Exprs.cons arg args).tight rest
      s s'' := by
  obtain ⟨⟨leak, hheld, htight⟩, hpos, hcounted⟩ := h
  have hcalls : (Exprs.cons arg args).calls = arg.calls + args.calls := rfl
  refine ⟨⟨ownedRef rt value arg.borrowable + leak, ?_, fun hall => ?_⟩, by omega, fun hcost => ?_⟩
  · rw [hheld]
    abel
  · simp only [Exprs.tight, Bool.and_eq_true, Bool.or_eq_true, Bool.not_eq_true',
      beq_iff_eq] at hall
    have howns : arg.ownsResult = false := hall.2.resolve_right (Nat.ne_of_gt hpos)
    rw [hyields.unowned howns rfl, htight hall.1.2, add_zero]
  · have h₁ := hgoes.counted hcost
    have h₂ := hcounted hcost
    omega

omit [DecidableEq O] in
theorem GoesOn.cons {arg : Expr} {args : Exprs} {rest : Multiset O} {value : O}
    {values : List (O × Bool)} {s s' s'' : State O (Slots O σ)}
    (harg : GoesOn rt stackSlots cost arg.writes arg.calls rest
      (ownedRef rt value arg.borrowable) s s')
    (hargs : GoesOn rt stackSlots cost args.writes args.calls
      (rest + ownedRef rt value arg.borrowable) (ownedRefs rt values) s' s'') :
    GoesOn rt stackSlots cost (Exprs.cons arg args).writes (Exprs.cons arg args).calls rest
      (ownedRefs rt ((value, arg.borrowable) :: values)) s s'' where
  held := by
    rw [hargs.held, ownedRefs_cons]
    abel
  slots name hname := by
    simp only [Exprs.writes, List.mem_append, not_or] at hname
    rw [hargs.slots name hname.2, harg.slots name hname.1]
  counted hcost := by
    have h₁ := harg.counted hcost
    have h₂ := hargs.counted hcost
    show _ + (arg.calls + args.calls) = _
    omega

theorem Expr.borrowable_iff (e : Expr) : e.borrowable = true ↔ ∃ name, e = .loadLocal name := by
  cases e <;> simp [Expr.borrowable]

omit [DecidableEq O] in
theorem Operands.cons {arg : Expr} {args : Exprs} {rest owned : Multiset O} {value : O}
    {values : List (O × Bool)} {s' s'' : State O (Slots O σ)}
    (hlocals : ∀ name ∈ arg.locals, name ∈ stackSlots)
    (hsteady : arg.slot.all (· ∉ args.writes) = true)
    (hyields : Yields rt arg arg.borrowable value s')
    (hargs : GoesOn rt stackSlots cost args.writes args.calls rest owned s' s'')
    (h : Operands stackSlots values s'') :
    Operands stackSlots ((value, arg.borrowable) :: values) s'' := by
  intro other hother
  rcases List.mem_cons.1 hother with heq | hin
  · obtain ⟨rfl, hborrowed⟩ := Prod.mk.inj heq
    obtain ⟨name, rfl⟩ := arg.borrowable_iff.1 hborrowed.symm
    refine ⟨name, hlocals name (List.mem_singleton.2 rfl), ?_⟩
    have hkept : name ∉ args.writes := by simpa [Expr.slot] using hsteady
    rw [hargs.slots name hkept]
    exact (hyields.slot rfl name rfl).symm
  · exact h other hin

theorem operands_meets {arg : Expr} {args : Exprs} {α : Type}
    {K : O → List (O × Bool) → JitAct O σ α}
    {s : State O (Slots O σ)} {rest : Multiset O} {goesOn : α → State O (Slots O σ) → Prop}
    {leaves : State O (Slots O σ) → Prop}
    (harg : arg.Meets rt stackSlots cost) (hargs : args.Meets rt stackSlots cost)
    (hlocals : ∀ name ∈ arg.locals, name ∈ stackSlots)
    (hsteady : arg.slot.all (· ∉ args.writes) = true)
    (hheld : s.held = slotRefs rt stackSlots s.own.slots + rest)
    (hleaves : ∀ s', Leaves rt stackSlots cost (Exprs.cons arg args).calls
      (Exprs.cons arg args).tight rest s s' → leaves s')
    (hK : ∀ value values s',
      GoesOn rt stackSlots cost (Exprs.cons arg args).writes (Exprs.cons arg args).calls rest
        (ownedRefs rt ((value, arg.borrowable) :: values)) s s' →
      Operands stackSlots ((value, arg.borrowable) :: values) s' →
      Ledgers.Meets (K value values) s' goesOn leaves) :
    Ledgers.Meets (do
      let value ← arg.emit rt arg.borrowable
      let values ← args.emit rt
      K value values) s goesOn leaves := by
  refine Meets.bind _ ((harg arg.borrowable s rest id hheld).mono (fun _ _ h => h)
    fun s' h => hleaves s' h.first) ?_
  rintro value s' ⟨hgoes, hyields⟩
  refine Meets.bind _ ((hargs s' _ (by rw [hgoes.held, add_assoc])).mono (fun _ _ h => h)
    fun s'' h => hleaves s'' (Leaves.later hgoes hyields h)) ?_
  rintro values s'' ⟨hgoes', hvalues⟩
  exact hK value values s'' (hgoes.cons hgoes') (hvalues.cons hlocals hsteady hyields hgoes')

/-! ## Instructions -/

omit [DecidableEq O] in
theorem GoesOn.helper {e : Expr} {args : Exprs} {rest owned result : Multiset O}
    {s s' s'' : State O (Slots O σ)} (hwrites : e.writes = args.writes)
    (hcalls : e.calls = args.calls + 1)
    (hargs : GoesOn rt stackSlots cost args.writes args.calls rest owned s s')
    (h : GoesOn rt stackSlots cost [] 1 rest result s' s'') :
    GoesOn rt stackSlots cost e.writes e.calls rest result s s'' where
  held := h.held
  slots name hname := by
    rw [hwrites] at hname
    rw [h.slots name List.not_mem_nil, hargs.slots name hname]
  counted hcost := by
    have h₁ := h.counted hcost
    have h₂ := hargs.counted hcost
    omega

omit [DecidableEq O] in
theorem Leaves.helper {e : Expr} {args : Exprs} {rest owned : Multiset O} {tight : Bool}
    {s s' s'' : State O (Slots O σ)} (hcalls : e.calls = args.calls + 1)
    (hargs : GoesOn rt stackSlots cost args.writes args.calls rest owned s s')
    (h : Leaves rt stackSlots cost 1 tight rest s' s'') :
    Leaves rt stackSlots cost e.calls tight rest s s'' where
  held := h.held
  calls_pos := by omega
  counted hcost := by
    have h₁ := h.counted hcost
    have h₂ := hargs.counted hcost
    omega

theorem loadLocal_meets {name : String} : (Expr.loadLocal name).Meets rt stackSlots cost := by
  intro borrowed s rest _ hheld
  refine Meets.bind (fun value s' => value = s.own.slots name ∧ s = s') ⟨rfl, rfl⟩ ?_
  rintro _ _ ⟨rfl, rfl⟩
  have hyields : ∀ s' : State O (Slots O σ), s'.own = s.own →
      Yields rt (.loadLocal name) borrowed (s.own.slots name) s' := fun s' hs' =>
    ⟨fun _ other hother => by rw [hs', Option.some.inj hother],
      fun h => absurd h Bool.false_ne_true, fun _ hborrowed => by rw [← hborrowed]; rfl⟩
  cases borrowed with
  | true =>
    exact meets_pure ⟨⟨by simpa [ownedRef] using hheld, fun _ _ => rfl, fun _ => rfl⟩,
      hyields s rfl⟩
  | false =>
    refine Meets.bind
      (fun _ s' => s' = { s with held := ref rt.immortal (s.own.slots name) + s.held })
      (meets_acquire rfl) ?_
    rintro _ _ rfl
    refine meets_pure ⟨⟨?_, fun _ _ => rfl, fun _ => rfl⟩, hyields _ rfl⟩
    rw [hheld, add_comm]
    rfl

theorem constant_meets {index : ℕ} : (Expr.constant index).Meets rt stackSlots cost := by
  intro borrowed s rest hborrowed hheld
  cases borrowed with
  | true => cases hborrowed rfl
  | false =>
    refine meets_pure ⟨⟨?_, fun _ _ => rfl, fun _ => rfl⟩,
      fun h => absurd h Bool.false_ne_true, fun h => absurd h Bool.false_ne_true,
      fun _ _ => by simp [ownedRef]⟩
    rw [hheld]
    simp [ownedRef]

theorem loadOwned_meets {helper : String} : (Expr.loadOwned helper).Meets rt stackSlots cost := by
  intro borrowed s rest hborrowed hheld
  cases borrowed with
  | true => cases hborrowed rfl
  | false =>
    exact helper_meets cost _ helper rfl (fun _ h => absurd h List.not_mem_nil)
      (show s.held = _ + ownedRefs rt [] by simpa using hheld)

theorem operation_meets {helper : String} {args : Exprs} (hargs : args.Meets rt stackSlots cost) :
    (Expr.operation helper args).Meets rt stackSlots cost := by
  intro borrowed s rest hborrowed hheld
  cases borrowed with
  | true => cases hborrowed rfl
  | false =>
    refine Meets.bind _ ((hargs s rest hheld).mono (fun _ _ h => h)
      fun s' h => h.mono (Nat.le_succ _)) ?_
    rintro values s' ⟨hgoes, hvalues⟩
    refine (helper_meets cost (.operation helper args) helper rfl (hvalues.refs_le hgoes.held)
      hgoes.held).mono ?_ ?_
    · rintro value s'' ⟨h, hyields⟩
      exact ⟨hgoes.helper rfl rfl h, hyields⟩
    · exact fun s'' h => Leaves.helper rfl hgoes h

theorem call_meets {func : Expr} {args : Exprs} (hfunc : func.Meets rt stackSlots cost)
    (hargs : args.Meets rt stackSlots cost) (hlocals : ∀ name ∈ func.locals, name ∈ stackSlots)
    (hsteady : func.slot.all (· ∉ args.writes) = true) :
    (Expr.call func args).Meets rt stackSlots cost := by
  intro borrowed s rest hborrowed hheld
  cases borrowed with
  | true => cases hborrowed rfl
  | false =>
    refine operands_meets hfunc hargs hlocals hsteady hheld
      (fun s' h => h.mono (Nat.le_succ _)) ?_
    intro callable values s' hgoes hvalues
    have hrest : s'.held = slotRefs rt stackSlots s'.own.slots + rest +
        ownedRefs rt (values ++ [(callable, func.borrowable)]) := by
      rw [hgoes.held, ownedRefs_cons, ownedRefs_append, ownedRefs_cons, ownedRefs_nil]
      abel
    have hcall := helper_meets cost (.call func args) "py_vectorcall" rfl
      (hvalues.refs_le hgoes.held) hrest
    simp only [releaseArgValues_append, bind_assoc] at hcall
    refine hcall.mono ?_ ?_
    · rintro value s'' ⟨h, hyields⟩
      exact ⟨hgoes.helper rfl rfl h, hyields⟩
    · exact fun s'' h => Leaves.helper rfl hgoes h

variable (rt) in
/-- The end of the code of an identity test, for the values of its operands. -/
def finishIdentity (borrowed : Bool) (left : O) (values : List (O × Bool)) : JitAct O σ O := do
  releaseArgValues rt ((left, borrowed) :: values)
  let value := if (values.map Prod.fst).head? = some left then rt.trueConst else rt.falseConst
  acquire rt.immortal value
  pure value

theorem emit_identity (left right : Expr) (borrowed : Bool) :
    (Expr.identity left right).emit rt borrowed = (do
      let left' ← left.emit rt left.borrowable
      let values ← (Exprs.cons right .nil).emit rt
      finishIdentity rt left.borrowable left' values) := by
  have hsame : ∀ a b : O, (some b = some a) = (a = b) := fun a b => by
    rw [Option.some.injEq]
    exact propext eq_comm
  simp only [Expr.emit, Exprs.emit, finishIdentity, bind_assoc, pure_bind, List.map_cons,
    List.head?_cons, hsame]

theorem identity_meets {left right : Expr} (hleft : left.Meets rt stackSlots cost)
    (hright : (Exprs.cons right .nil).Meets rt stackSlots cost)
    (hlocals : ∀ name ∈ left.locals, name ∈ stackSlots)
    (hsteady : left.slot.all (· ∉ right.writes) = true) :
    (Expr.identity left right).Meets rt stackSlots cost := by
  intro borrowed s rest hborrowed hheld
  cases borrowed with
  | true => cases hborrowed rfl
  | false =>
    rw [emit_identity]
    have hwrites : (Expr.identity left right).writes =
        (Exprs.cons left (.cons right .nil)).writes := by simp [Expr.writes, Exprs.writes]
    have htight : (Expr.identity left right).tight =
        (Exprs.cons left (.cons right .nil)).tight := by simp [Expr.tight, Exprs.tight, Exprs.calls]
    refine operands_meets hleft hright hlocals (by simpa [Exprs.writes] using hsteady) hheld
      (fun s' h => by rw [htight]; exact h) ?_
    intro left' values s' hgoes _
    refine Meets.bind
      (fun _ s'' => s'' = { s' with held := slotRefs rt stackSlots s'.own.slots + rest })
      (releaseArgValues_meets hgoes.held rfl) ?_
    rintro _ _ rfl
    refine Meets.bind
      (fun _ s'' => s'' = { s' with held := slotRefs rt stackSlots s'.own.slots + rest })
      (meets_acquire (by simp)) ?_
    rintro _ _ rfl
    refine meets_pure ⟨⟨?_, ?_, hgoes.counted⟩, ?_⟩
    · simp [ownedRef]
    · rw [hwrites]
      exact hgoes.slots
    · exact ⟨fun h => absurd h Bool.false_ne_true, fun h => absurd h Bool.false_ne_true,
        fun _ _ => by simp [ownedRef]⟩

omit [DecidableEq O] in
/-- The end of the code of a store: `None`, which needs no reference. -/
theorem noneConst_meets {e : Expr} {rest : Multiset O} {s s' : State O (Slots O σ)}
    {leaves : State O (Slots O σ) → Prop}
    (h : GoesOn rt stackSlots cost e.writes e.calls rest 0 s s') (howns : e.ownsResult = false) :
    Ledgers.Meets (do
        acquire rt.immortal rt.noneConst
        pure rt.noneConst) s'
      (fun value s'' =>
        GoesOn rt stackSlots cost e.writes e.calls rest (ownedRef rt value false) s s'' ∧
          Yields rt e false value s'') leaves := by
  refine Meets.bind (fun _ s'' => s' = s'') (meets_acquire (by simp)) ?_
  rintro _ _ rfl
  have hnone : ownedRef rt rt.noneConst false = 0 := by simp [ownedRef]
  refine meets_pure ⟨by rw [hnone]; exact h, fun h => absurd h Bool.false_ne_true, fun h => ?_,
    fun _ _ => hnone⟩
  rw [howns] at h
  exact absurd h Bool.false_ne_true

theorem storeLocal_meets {name : String} {value : Expr} (hnodup : stackSlots.Nodup)
    (hname : name ∈ stackSlots) (hvalue : value.Meets rt stackSlots cost) :
    (Expr.storeLocal name value).Meets rt stackSlots cost := by
  intro borrowed s rest hborrowed hheld
  cases borrowed with
  | true => cases hborrowed rfl
  | false =>
    refine Meets.bind _ (hvalue false s rest (fun h => absurd h Bool.false_ne_true) hheld) ?_
    rintro value' s' ⟨hgoes, -⟩
    refine Meets.bind _ (replaceCloned_meets hnodup hname (by rw [hgoes.held, add_assoc])) ?_
    rintro _ s'' ⟨hheld'', hown⟩
    refine Meets.bind
      (fun _ s₃ => s₃ = { s'' with held := slotRefs rt stackSlots s''.own.slots + rest })
      (meets_release (by rw [hheld'']; simp only [ownedRef]; abel) rfl) ?_
    rintro _ _ rfl
    refine noneConst_meets ⟨by simp, fun other hother => ?_, fun hcost => ?_⟩ rfl
    · simp only [Expr.writes, List.mem_cons, not_or] at hother
      rw [hown]
      exact (Function.update_of_ne hother.1 _ _).trans (hgoes.slots other hother.2)
    · rw [hown]
      exact hgoes.counted hcost

theorem delLocal_meets {name : String} (hnodup : stackSlots.Nodup) (hname : name ∈ stackSlots) :
    (Expr.delLocal name).Meets rt stackSlots cost := by
  intro borrowed s rest hborrowed hheld
  cases borrowed with
  | true => cases hborrowed rfl
  | false =>
    refine Meets.bind _ (replaceCloned_meets hnodup hname hheld) ?_
    rintro _ s' ⟨hheld', hown⟩
    refine noneConst_meets ⟨by rw [hheld', add_zero], fun other hother => ?_, fun _ => ?_⟩ rfl
    · rw [hown]
      exact Function.update_of_ne (fun h => hother (List.mem_singleton.2 h)) _ _
    · rw [hown]
      rfl

theorem nil_meets : Exprs.nil.Meets rt stackSlots cost := by
  intro s rest hheld
  exact meets_pure ⟨⟨by simpa using hheld, fun _ _ => rfl, fun _ => rfl⟩,
    fun _ h => absurd h List.not_mem_nil⟩

theorem cons_meets {arg : Expr} {args : Exprs} (harg : arg.Meets rt stackSlots cost)
    (hargs : args.Meets rt stackSlots cost) (hlocals : ∀ name ∈ arg.locals, name ∈ stackSlots)
    (hsteady : arg.slot.all (· ∉ args.writes) = true) :
    (Exprs.cons arg args).Meets rt stackSlots cost := by
  intro s rest hheld
  exact operands_meets harg hargs hlocals hsteady hheld (fun _ h => h)
    fun value values s' hgoes hvalues => meets_pure ⟨hgoes, hvalues⟩

mutual

theorem Expr.meets (hnodup : stackSlots.Nodup) : ∀ e : Expr, e.steady = true →
    (∀ name ∈ e.locals, name ∈ stackSlots) → e.Meets rt stackSlots cost
  | .loadLocal _, _, _ => loadLocal_meets
  | .loadOwned _, _, _ => loadOwned_meets
  | .constant _, _, _ => constant_meets
  | .operation _ args, hsteady, hlocals =>
    operation_meets (Exprs.meets hnodup args hsteady hlocals)
  | .identity left right, hsteady, hlocals => by
    simp only [Expr.steady, Bool.and_eq_true] at hsteady
    have hin := List.forall_mem_append.1 hlocals
    have hright := Expr.meets hnodup right hsteady.1.2 hin.2
    exact identity_meets (Expr.meets hnodup left hsteady.1.1 hin.1)
      (cons_meets hright nil_meets hin.2 (by simp [Exprs.writes])) hin.1 hsteady.2
  | .call func args, hsteady, hlocals => by
    simp only [Expr.steady, Bool.and_eq_true] at hsteady
    have hin := List.forall_mem_append.1 hlocals
    exact call_meets (Expr.meets hnodup func hsteady.1.1 hin.1)
      (Exprs.meets hnodup args hsteady.1.2 hin.2) hin.1 hsteady.2
  | .storeLocal _ value, hsteady, hlocals => by
    have hin := List.forall_mem_cons.1 hlocals
    exact storeLocal_meets hnodup hin.1 (Expr.meets hnodup value hsteady hin.2)
  | .delLocal name, _, hlocals => delLocal_meets hnodup (hlocals name (List.mem_singleton.2 rfl))

theorem Exprs.meets (hnodup : stackSlots.Nodup) : ∀ args : Exprs, args.steady = true →
    (∀ name ∈ args.locals, name ∈ stackSlots) → args.Meets rt stackSlots cost
  | .nil, _, _ => nil_meets
  | .cons arg args, hsteady, hlocals => by
    simp only [Exprs.steady, Bool.and_eq_true] at hsteady
    have hin := List.forall_mem_append.1 hlocals
    exact cons_meets (Expr.meets hnodup arg hsteady.1.1 hin.1)
      (Exprs.meets hnodup args hsteady.1.2 hin.2) hin.1 hsteady.2

end

end Instructions

end DietPython.Jit
