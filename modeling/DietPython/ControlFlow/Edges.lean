import DietPython.ControlFlow.Placement

/-!
# What the edges of a graph do to the frame

An exception edge writes the exception into the parameter of its handler. A jump whose target has
no parameter but the exception parameter of a region around leaves the frame as it is. A jump to
the entry of a `finally` body writes the kind and the payload.
-/

namespace DietPython.ControlFlow

open Blocks (BlockParamRole)

variable {E T V X St : Type} {rt : Runtime E T V X St} {G : Graph E T}
  {F : Floor G V X}

/-! ## Frames -/

@[simp] theorem Frame.set_user (s : Frame V X St) (x : Name) (v : Slot V X) :
    (s.set x v).user = s.user := rfl

@[simp] theorem Frame.set_slots_self (s : Frame V X St) (x : Name) (v : Slot V X) :
    (s.set x v).slots x = v := by simp [Frame.set]

theorem Frame.set_slots_ne (s : Frame V X St) {x y : Name} (v : Slot V X) (h : y ≠ x) :
    (s.set x v).slots y = s.slots y := by simp [Frame.set, h]

theorem PendingSlots.congr {l : Bool} {pending : Signal V X l} {plan : FinallyPlan}
    {slots slots' : Name → Slot V X} (h : PendingSlots rt slots plan pending)
    (hkind : slots' plan.abruptKind = slots plan.abruptKind)
    (hpayload : slots' plan.abruptPayload = slots plan.abruptPayload) :
    PendingSlots rt slots' plan pending := by
  cases pending <;> simp_all [PendingSlots]

theorem Surrounds.congr {slots slots' : Name → Slot V X} {l : Bool} {k : Kont E T V X l}
    {t : RegionTargets} {ms : List Pass} {n : ℕ} (h : Surrounds rt G F slots k t ms n)
    (ha : AgreeBelow n slots slots') : Surrounds rt G F slots' k t ms n := by
  induction h with
  | floor h => exact .floor (F.congr h ha)
  | seq _ hrest ih => exact .seq (ih ha) hrest
  | whileLoop _ horelse hbody hhead hopens ih => exact .whileLoop (ih ha) horelse hbody hhead hopens
  | @forLoop _ _ _ _ _ _ _ _ _ _ _ _ i _ _ _ hi horelse hbody hblocks hhead hiter ih =>
    exact .forLoop (ih (ha.mono (by omega))) hi horelse hbody hblocks hhead
      ((ha i (by omega)).1 ▸ hiter)
  | tryBody _ hcleanup horelse hhandler ih =>
    exact .tryBody (ih (ha.mono hcleanup.le_bound)) hcleanup horelse hhandler
  | guarded _ hcleanup ih => exact .guarded (ih (ha.mono hcleanup.le_bound)) hcleanup
  | handling _ hcleanup ih => exact .handling (ih (ha.mono hcleanup.le_bound)) hcleanup
  | @finalBody _ _ _ _ _ _ _ g _ hdispatch hbelow hn hpending ih =>
    exact .finalBody (ih (ha.mono (by omega))) hdispatch hbelow hn
      (hpending.congr (ha (g.tmp + 1) (by omega)).2.1.symm (ha (g.tmp + 2) (by omega)).2.2.symm)

theorem retOf_retPass (ret : Option (ℕ × Name)) (ms : List Pass) :
    retOf (retPass ret ++ ms) = ret.or (retOf ms) := by
  cases ret <;> rfl

/-- The payload of a return has one of the names of the continuation. -/
theorem Surrounds.ret_name {slots : Name → Slot V X} {l : Bool} {k : Kont E T V X l}
    {t : RegionTargets} {ms : List Pass} {n : ℕ} (h : Surrounds rt G F slots k t ms n)
    {label : ℕ} {payload : Name} (hret : retOf ms = some (label, payload)) :
    ∃ m < n, payload = .tryAbruptPayload m := by
  have hcleanup : ∀ {t : RegionTargets} {ms : List Pass} {n : ℕ} {l : Bool}
      {finalbody : Stmts E T l} {y : Name} {cleanup : ℕ} {cleanupExc : Option ℕ}
      {ret : Option (ℕ × Name)} {bound : ℕ},
      Cleanup G t ms n finalbody y cleanup cleanupExc ret bound →
      (retOf ms = some (label, payload) → ∃ m < n, payload = .tryAbruptPayload m) →
      ret.or (retOf ms) = some (label, payload) → ∃ m < bound, payload = .tryAbruptPayload m := by
    intro t ms n l finalbody y cleanup cleanupExc ret bound hc ih h
    cases hc with
    | noFinal y => exact ih h
    | withFinal g g₁ =>
      obtain ⟨-, rfl⟩ := Prod.mk.inj (Option.some.inj h)
      exact ⟨g.tmp + 2, by omega, rfl⟩
  induction h with
  | floor h => exact F.ret_name h hret
  | seq _ _ ih | whileLoop _ _ _ _ _ ih => exact ih hret
  | forLoop _ hi _ _ _ _ _ ih =>
    obtain ⟨m, hm, rfl⟩ := ih hret
    exact ⟨m, by omega, rfl⟩
  | tryBody _ hc _ _ ih | guarded _ hc ih =>
    rw [retOf_retPass] at hret
    exact hcleanup hc ih hret
  | handling _ hc ih =>
    rw [retOf_retPass] at hret
    exact hcleanup hc ih hret
  | finalBody _ _ _ hn _ ih =>
    obtain ⟨m, hm, rfl⟩ := ih hret
    exact ⟨m, by omega, rfl⟩

/-- Nothing around relies on the payload that a return is about to write. -/
theorem Surrounds.store {slots : Name → Slot V X} {l : Bool} {k : Kont E T V X l}
    {t : RegionTargets} {ms : List Pass} {n : ℕ} (h : Surrounds rt G F slots k t ms n)
    {label : ℕ} {payload : Name} (hret : retOf ms = some (label, payload)) (v : Slot V X) :
    Surrounds rt G F (Function.update slots payload v) k t ms n := by
  have hcleanup : ∀ {t : RegionTargets} {ms : List Pass} {n : ℕ} {l l' : Bool}
      {finalbody : Stmts E T l'} {y : Name} {cleanup : ℕ} {cleanupExc : Option ℕ}
      {ret : Option (ℕ × Name)} {bound : ℕ} {k : Kont E T V X l},
      Cleanup G t ms n finalbody y cleanup cleanupExc ret bound →
      Surrounds rt G F slots k t ms n →
      (retOf ms = some (label, payload) →
        Surrounds rt G F (Function.update slots payload v) k t ms n) →
      ret.or (retOf ms) = some (label, payload) →
      Surrounds rt G F (Function.update slots payload v) k t ms n := by
    intro t ms n l l' finalbody y cleanup cleanupExc ret bound k hc hk ih h
    cases hc with
    | noFinal y => exact ih h
    | withFinal g g₁ _ _ _ _ hn =>
      obtain ⟨-, rfl⟩ := Prod.mk.inj (Option.some.inj h)
      exact hk.congr (AgreeBelow.update_payload slots v (by omega))
  induction h with
  | floor h => exact .floor (F.store h hret v)
  | seq _ hrest ih => exact .seq (ih hret) hrest
  | whileLoop _ horelse hbody hhead hopens ih =>
    exact .whileLoop (ih hret) horelse hbody hhead hopens
  | @forLoop _ _ _ _ _ _ _ _ _ _ _ _ i _ _ hk hi horelse hbody hblocks hhead hiter ih =>
    obtain ⟨m, -, rfl⟩ := hk.ret_name hret
    exact .forLoop (ih hret) hi horelse hbody hblocks hhead (by simpa using hiter)
  | tryBody hk hc horelse hhandler ih =>
    rw [retOf_retPass] at hret
    exact .tryBody (hcleanup hc hk ih hret) hc horelse hhandler
  | guarded hk hc ih =>
    rw [retOf_retPass] at hret
    exact .guarded (hcleanup hc hk ih hret) hc
  | handling hk hc ih =>
    rw [retOf_retPass] at hret
    exact .handling (hcleanup hc hk ih hret) hc
  | @finalBody _ _ _ _ _ _ _ g hk hdispatch hbelow hn hpending ih =>
    -- the payload of the body has a name of its own, above those of what is around
    obtain ⟨m, hm, rfl⟩ := hk.ret_name hret
    have hkind : Function.update slots (.tryAbruptPayload m) v (finallyPlan g).abruptKind =
        slots (finallyPlan g).abruptKind := by simp [finallyPlan]
    have hne : (finallyPlan g).abruptPayload ≠ .tryAbruptPayload m := fun h => by
      injection h with h
      omega
    have hpayload : Function.update slots (.tryAbruptPayload m) v (finallyPlan g).abruptPayload =
        slots (finallyPlan g).abruptPayload := by rw [Function.update_of_ne hne]
    exact .finalBody (ih hret) hdispatch hbelow hn (hpending.congr hkind hpayload)

/-! ## Exception edges -/

theorem bbParams_of_single {b : Block E T} {x : Name} (h : b.params = [⟨x, .exception⟩]) :
    b.bbParams = [⟨x, .exception⟩] := by
  unfold Block.bbParams
  rw [h]
  rfl

theorem exceptionParam_of_single {b : Block E T} {x : Name} (h : b.params = [⟨x, .exception⟩]) :
    b.exceptionParam = some x := by
  unfold Block.exceptionParam
  rw [h]
  rfl

theorem throwFrom_handler (rt : Runtime E T V X St) {b : Block E T} {label : ℕ}
    (hedge : b.excEdge = some label) (hat : HandlerAt G label) (e : X) (s : Frame V X St) :
    ∃ target n, G.find label = some target ∧ target.params = [⟨.tryExc n, .exception⟩] ∧
      throwFrom rt G b e s = .goto label (s.set (.tryExc n) (.exc e)) := by
  obtain ⟨target, n, hfind, hparams⟩ := hat
  refine ⟨target, n, hfind, hparams, ?_⟩
  unfold throwFrom
  rw [hedge]
  simp only [hfind, exceptionArgs, bbParams_of_single hparams, exceptionParam_of_single hparams,
    List.map_cons, List.map_nil, if_true, Place.goto.injEq, true_and]
  unfold bindArgs Frame.set
  congr 1
  funext x
  by_cases hx : x = .tryExc n
  · subst hx
    simp [argValue]
  · have hne : (Name.tryExc n == x) = false := by simpa using Ne.symm hx
    simp [hne, hx]

theorem throwFrom_none (rt : Runtime E T V X St) {b : Block E T} (hedge : b.excEdge = none)
    (e : X) (s : Frame V X St) : throwFrom rt G b e s = .leave (.raised e s.user) := by
  unfold throwFrom
  rw [hedge]

/-- Under the passes, a block with no parameters of its own has those of the regions around. -/
theorem find_bare (hG : G.Ok) {ms : List Pass} (hw : ∀ p ∈ ms, p.WellNamed)
    {blocks : List (Block E T)} (hp : Placed G ms blocks) {b : Block E T} (hb : b ∈ blocks)
    (hparams : b.params = []) (hm : b.label ∉ marks ms) :
    ∃ b', G.find b.label = some b' ∧ b' = applyAll ms b ∧
      b'.params = excParams (excOf ms none) :=
  ⟨_, hG.find_placed hp hb, rfl, by
    have : (applyAll ms b).params = [] ++ excParams (excOf ms none) :=
      applyAll_params hw abrupt_nil hm (by rw [hparams]; rfl)
    exact this⟩

/-- Inside a region, a block with no parameters of its own can handle exceptions. -/
theorem handlerAt_of_region (hG : G.Ok) {ms : List Pass} (hw : ∀ p ∈ ms, p.WellNamed)
    {blocks : List (Block E T)} (hp : Placed G ms blocks) {b : Block E T} (hb : b ∈ blocks)
    (hparams : b.params = []) (hm : b.label ∉ marks ms) {x : Name}
    (hx : excOf ms none = some x) : HandlerAt G b.label := by
  obtain ⟨b', hfind, -, hb'⟩ := find_bare hG hw hp hb hparams hm
  obtain ⟨n, rfl⟩ := (ExcNamed.of hw excNamed_none) x hx
  exact ⟨b', n, hfind, by rw [hb', hx]; rfl⟩

/-- The entry of a sequence has at most the exception parameter of the regions around. -/
theorem Lies.entry_params (hG : G.Ok) {ms : List Pass} (hw : ∀ p ∈ ms, p.WellNamed) {n : ℕ}
    {l : Bool} {x : Bool} {first : Stmt E T l} {more : Stmts E T l} {t : RegionTargets} {g : Gen}
    (h : Lies G ms n (.cons x first more) t g) (hfits : Fits l t) {b : Block E T}
    (hb : G.find (lowerStmts (.cons x first more) [] t g).entry = some b) :
    b.params = excParams (excOf ms none) := by
  obtain ⟨e, he⟩ := lowerStmts_entry [] t g (.cons x first more) hfits (.inr (by simp))
  obtain ⟨c, hc, -, hparams⟩ := find_bare hG hw h.placed he.mem he.params
    (h.below.notMem ((lowerStmts_fresh _ [] t g).span.bounds e he.mem).1)
  rw [he.label] at hc
  obtain rfl := Option.some.inj (hc.symm.trans hb)
  exact hparams

/-- The entry of a sequence inside a region can handle exceptions. -/
theorem Lies.handlerAt (hG : G.Ok) {ms : List Pass} (hw : ∀ p ∈ ms, p.WellNamed) {n : ℕ}
    {l : Bool} {x : Bool} {first : Stmt E T l} {more : Stmts E T l} {t : RegionTargets} {g : Gen}
    (h : Lies G ms n (.cons x first more) t g) (hfits : Fits l t) {y : Name}
    (hy : excOf ms none = some y) :
    HandlerAt G (lowerStmts (.cons x first more) [] t g).entry := by
  obtain ⟨b, hb⟩ := lowerStmts_entry [] t g (.cons x first more) hfits (.inr (by simp))
  rw [← hb.label]
  exact handlerAt_of_region hG hw h.placed hb.mem hb.params
    (h.below.notMem ((lowerStmts_fresh _ [] t g).span.bounds b hb.mem).1) hy

theorem Cleanup.handlerAt (hG : G.Ok) {t : RegionTargets} {ms : List Pass} {n : ℕ} {l : Bool}
    {finalbody : Stmts E T l} {y : Name} {cleanup : ℕ} {cleanupExc : Option ℕ}
    {ret : Option (ℕ × Name)} {bound : ℕ}
    (h : Cleanup G t ms n finalbody y cleanup cleanupExc ret bound)
    (hw : ∀ p ∈ ms, p.WellNamed) (ht : ∀ label, t.activeExc = some label → HandlerAt G label)
    {label : ℕ} (hlabel : cleanupExc = some label) : HandlerAt G label := by
  cases h with
  | noFinal => exact ht label hlabel
  | @withFinal x first more g g₁ hregion hdispatch hbelow hg hn htmp =>
    obtain rfl := Option.some.inj hlabel
    have hgen := (lowerStmts_fresh (.cons x first more) []
      (t.nested (finallyPlan g).dispatchLabel) g₁).label_le
    have hplaced := hG.find_placed hregion.right.right (List.mem_singleton.mpr rfl)
    -- the exception entry brings a parameter of its own
    obtain ⟨z, hz⟩ : ∃ z, excOf ms (some (exceptExcName g)) = some z := by
      rw [excOf_eq]
      cases excOf ms none <;> simp
    have hexc : ExcNamed (some (exceptExcName g)) := fun y hy =>
      ⟨g.tmp, (Option.some.inj hy).symm⟩
    obtain ⟨m, rfl⟩ := (ExcNamed.of hw hexc) z hz
    refine ⟨_, m, hplaced, ?_⟩
    let entry : Block E T := finallyExceptionEntry ((lowerStmts (.cons x first more) []
      (t.nested (finallyPlan g).dispatchLabel) g₁).gen.label + 1) (lowerStmts (.cons x first more)
        [] (t.nested (finallyPlan g).dispatchLabel) g₁).entry (exceptExcName g) t.activeExc
    have hparams : (applyAll ms entry).params =
        [] ++ excParams (excOf ms (some (exceptExcName g))) :=
      applyAll_params hw abrupt_nil
        (hbelow.notMem (by simp only [entry, finallyExceptionEntry]; omega)
          (by simp only [entry, finallyExceptionEntry]; omega)) rfl
    rw [hz] at hparams
    exact hparams

theorem Surrounds.handlerAt (hG : G.Ok) {slots : Name → Slot V X} {l : Bool}
    {k : Kont E T V X l} {t : RegionTargets} {ms : List Pass} {n : ℕ}
    (h : Surrounds rt G F slots k t ms n) :
    ∀ label, t.activeExc = some label → HandlerAt G label := by
  induction h with
  | floor h => exact F.handlerAt h
  | seq _ _ ih | whileLoop _ _ _ _ _ ih | forLoop _ _ _ _ _ _ _ ih
  | finalBody _ _ _ _ _ ih => exact ih
  | @tryBody _ _ _ ms _ _ _ _ _ y _ _ ret _ _ _ hk hcleanup _ hhandler _ =>
    intro label hlabel
    obtain rfl := Option.some.inj hlabel
    obtain ⟨x, hx⟩ : ∃ x, excOf (retPass ret ++ .regionExcParam y :: ms) none = some x := by
      rw [excOf_retPass, excOf_cons, Pass.excAfter, excOf_eq]
      cases excOf ms none <;> simp
    exact hhandler.handlerAt hG (hcleanup.region_wellNamed hk.wellNamed) hk.fits hx
  | guarded hk hcleanup ih | handling hk hcleanup ih =>
    exact fun label => hcleanup.handlerAt hG hk.wellNamed ih

/-! ## Jumps -/

/-- The exception parameter of the regions around is a parameter of the block. -/
def Carries (b : Block E T) (ms : List Pass) : Prop :=
  ∀ x, excOf ms none = some x → b.hasParam x = true

/-- A block under passes carries on the exception parameter of the regions around. -/
theorem carries_applyAll (ms : List Pass) {b : Block E T} (hparams : b.params = []) :
    (applyAll ms b).exceptionParam = excOf ms none ∧ Carries (applyAll ms b) ms := by
  have hexc : (applyAll ms b).exceptionParam = excOf ms none := by
    rw [applyAll_exceptionParam]
    unfold Block.exceptionParam
    rw [hparams]
    rfl
  exact ⟨hexc, fun x hx => hasParam_of_exceptionParam (hexc.trans hx)⟩

theorem Carries.outer {b : Block E T} {ps ms : List Pass} (h : Carries b (ps ++ ms)) :
    Carries b ms := fun x hx => h x (by rw [excOf_append]; exact excOf_of_outer hx _)

theorem excParams_bbParams {b : Block E T} {o : Option Name} (h : b.params = excParams o) :
    b.bbParams = excParams o := by
  unfold Block.bbParams
  rw [h]
  cases o <;> rfl

theorem bindArgs_self (rt : Runtime E T V X St) (s : Frame V X St) (x : Name)
    (role : BlockParamRole) : bindArgs rt s none [(⟨x, role⟩, .name x)] = s := by
  obtain ⟨user, slots⟩ := s
  unfold bindArgs
  congr 1
  funext y
  by_cases hy : x = y
  · simp [hy, argValue]
  · have hne : (x == y) = false := by simpa using hy
    simp [hne]

/-- A jump to a block that has at most the exception parameter of a region around. -/
theorem jumpFrom_plain (rt : Runtime E T V X St) {b : Block E T} {label : ℕ} {ms : List Pass}
    (htarget : ∀ b', G.find label = some b' → b'.params = excParams (excOf ms none))
    (hcarry : Carries b ms) (s : Frame V X St) :
    jumpFrom rt G b ⟨label, []⟩ s = .goto label s := by
  unfold jumpFrom
  cases hfind : G.find label with
  | none => rfl
  | some target =>
    have hparams := excParams_bbParams (htarget target hfind)
    simp only [jumpArgs, hparams]
    cases hexc : excOf ms none with
    | none => simp [excParams, bindArgs]
    | some x =>
      have hparam := hcarry x hexc
      simp only [excParams, List.mapIdx_cons, List.mapIdx_nil, List.length_cons, List.length_nil,
        Nat.zero_add, Nat.sub_zero, implicitArg, hparam, if_true]
      rw [if_neg (by omega), bindArgs_self]

/-- What the exception parameter of a block holds, or the `None` that stands in for it. -/
def paramSlot (rt : Runtime E T V X St) (b : Block E T) (s : Frame V X St) : Slot V X :=
  b.exceptionParam.elim (.obj rt.noneValue) s.slots

/-- The argument of an exception parameter is the exception parameter of the source. -/
theorem implicitArg_exception {b : Block E T} (h : b.Tidy) (n : ℕ) :
    implicitArg b ⟨.tryExc n, .exception⟩ = b.exceptionParam.elim .none .name := by
  unfold implicitArg
  split
  · next hparam =>
    obtain ⟨p, hp, hname⟩ := List.any_eq_true.mp hparam
    have hname : p.name = .tryExc n := beq_iff_eq.mp hname
    rw [h.unique p hp (h.role_of_name p hp n hname), hname]
    rfl
  · cases hfind : b.bbParams.find? fun p => p.role == .exception with
    | none =>
      have hnone : b.exceptionParam = none := by
        unfold Block.exceptionParam
        rw [Option.map_eq_none_iff, List.find?_eq_none]
        intro p hp hrole
        refine List.find?_eq_none.mp hfind p ?_ hrole
        unfold Block.bbParams
        exact List.mem_append_left _ (List.mem_append_left _ (List.mem_filter.mpr ⟨hp, hrole⟩))
      rw [hnone]
      rfl
    | some p =>
      have hrole : p.role = .exception := by simpa using List.find?_some hfind
      have hmem : p ∈ b.params := by
        have := List.mem_of_find?_eq_some hfind
        simp only [Block.bbParams, List.mem_append, List.mem_filter] at this
        rcases this with (⟨h, -⟩ | ⟨h, -⟩) | ⟨h, -⟩ <;> exact h
      rw [h.unique p hmem hrole]
      rfl

/-- A jump to the entry of a `finally` body. -/
theorem jumpFrom_finally (rt : Runtime E T V X St) {b target : Block E T} {label : ℕ} {k p : Name}
    {n : ℕ} (a₁ a₂ : BlockArg) (hb : b.Tidy) (hfind : G.find label = some target)
    (hparams : target.params =
      [⟨k, .abruptKind⟩, ⟨p, .abruptPayload⟩, ⟨.tryExc n, .exception⟩])
    (hkp : k ≠ p) (hkx : k ≠ .tryExc n) (hpx : p ≠ .tryExc n) (s : Frame V X St) :
    ∃ s', jumpFrom rt G b ⟨label, [a₁, a₂]⟩ s = .goto label s' ∧ s'.user = s.user ∧
      s'.slots k = argValue rt s none a₁ ∧ s'.slots p = argValue rt s none a₂ ∧
      s'.slots (.tryExc n) = paramSlot rt b s ∧
      ∀ y, y ≠ k → y ≠ p → y ≠ .tryExc n → s'.slots y = s.slots y := by
  have hbb : target.bbParams =
      [⟨.tryExc n, .exception⟩, ⟨k, .abruptKind⟩, ⟨p, .abruptPayload⟩] := by
    unfold Block.bbParams
    rw [hparams]
    rfl
  have hargs : jumpArgs b target [a₁, a₂] =
      [(⟨.tryExc n, .exception⟩, b.exceptionParam.elim .none .name), (⟨k, .abruptKind⟩, a₁),
        (⟨p, .abruptPayload⟩, a₂)] := by
    unfold jumpArgs
    rw [hbb, ← implicitArg_exception hb n]
    rfl
  refine ⟨bindArgs rt s none (jumpArgs b target [a₁, a₂]), ?_, rfl, ?_, ?_, ?_,
    fun y hk hp hx => ?_⟩
  · unfold jumpFrom
    simp only [hfind]
  · have hxk : (Name.tryExc n == k) = false := by simpa using hkx.symm
    simp [bindArgs, hargs, hxk]
  · have hxp : (Name.tryExc n == p) = false := by simpa using hpx.symm
    have hkp' : (k == p) = false := by simpa using hkp
    simp [bindArgs, hargs, hxp, hkp']
  · simp only [bindArgs, hargs, List.find?_cons_of_pos, beq_self_eq_true]
    unfold paramSlot
    cases b.exceptionParam <;> rfl
  · have hxy : (Name.tryExc n == y) = false := by simpa using hx.symm
    have hky : (k == y) = false := by simpa using hk.symm
    have hpy : (p == y) = false := by simpa using hp.symm
    simp [bindArgs, hargs, hxy, hky, hpy]

end DietPython.ControlFlow
