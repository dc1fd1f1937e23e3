import DietPython.ControlFlow.SignalSteps

/-!
# The graph enters and leaves `finally` bodies

The entry block of a `finally` body takes the kind, the payload and the exception of its region.
It is reached from three blocks: the normal entry, the exception entry, and each block that
returns. The dispatch behind the body reads what they wrote.
-/

namespace DietPython.ControlFlow

open Machines

variable {E T V X St : Type} {rt : Runtime E T V X St} {G : Graph E T}
  {F : Floor G V X} {l : Bool}
  {k : Kont E T V X l} {t : RegionTargets} {ms : List Pass} {n : ℕ} {f : Frame V X St}
  {s : State X St} {p : Place E T V X St}

/-! ## Entering -/

section Entering

variable {x : Bool} {first : Stmt E T l} {more : Stmts E T l} {g g₁ : Gen}

/-- The parameters of the block that a `finally` body starts with. -/
theorem Placed.finally_params (hG : G.Ok) (hw : ∀ p ∈ ms, p.WellNamed) (hfits : Fits l t)
    (hplaced : Placed G (.finallyParams (lowerStmts (.cons x first more) [] t g₁).entry
      (finallyPlan g).abruptKind (finallyPlan g).abruptPayload ::
        .regionExcParam (exceptExcName g) :: ms) (lowerStmts (.cons x first more) [] t g₁).blocks)
    (hmark : (lowerStmts (.cons x first more) [] t g₁).entry ∉ marks ms) :
    ∃ target m, G.find (lowerStmts (.cons x first more) [] t g₁).entry = some target ∧
      excOf ms (some (exceptExcName g)) = some (.tryExc m) ∧
      target.params = [⟨(finallyPlan g).abruptKind, .abruptKind⟩,
        ⟨(finallyPlan g).abruptPayload, .abruptPayload⟩, ⟨.tryExc m, .exception⟩] := by
  obtain ⟨b, hb⟩ := lowerStmts_entry [] t g₁ (.cons x first more) hfits (.inr (by simp))
  have hfind := hG.find_placed hplaced hb.mem
  rw [hb.label] at hfind
  -- the two parameters of the entry are its first
  have hparams : (addFinallyParams (lowerStmts (.cons x first more) [] t g₁).entry
      (finallyPlan g).abruptKind (finallyPlan g).abruptPayload b).params =
      [⟨(finallyPlan g).abruptKind, .abruptKind⟩,
        ⟨(finallyPlan g).abruptPayload, .abruptPayload⟩] ++ excParams none := by
    unfold addFinallyParams
    rw [if_pos hb.label]
    simp [Block.ensureParam, Block.hasParam, hb.params, finallyPlan, excParams]
  have habrupt : Abrupt [⟨(finallyPlan g).abruptKind, .abruptKind⟩,
      ⟨(finallyPlan g).abruptPayload, .abruptPayload⟩] := by
    intro q hq
    simp only [List.mem_cons, List.not_mem_nil, or_false] at hq
    rcases hq with rfl | rfl <;> simp [finallyPlan]
  rw [← hb.label] at hmark
  have hwell : ∀ q ∈ .regionExcParam (exceptExcName g) :: ms, q.WellNamed := fun q hq => by
    rcases List.mem_cons.mp hq with rfl | hq
    · exact ⟨g.tmp, rfl⟩
    · exact hw q hq
  have hall := applyAll_params hwell habrupt (by rw [addFinallyParams_label]; exact hmark) hparams
  obtain ⟨z, hz⟩ : ∃ z, excOf ms (some (exceptExcName g)) = some z := by
    rw [excOf_eq]
    cases excOf ms none <;> simp
  obtain ⟨m, rfl⟩ := (ExcNamed.of hw fun y hy => ⟨g.tmp, (Option.some.inj hy).symm⟩) z hz
  refine ⟨_, m, hfind, hz, hall.trans ?_⟩
  rw [excOf_cons, Pass.excAfter, hz]
  rfl

/-- No region around marks the block that a new `finally` body starts with. -/
theorem entry_notMem_marks (hfits : Fits l t) (hbelow : BelowBut ms g.label (g.label + 3))
    (hlabel : g.label + 4 ≤ g₁.label) :
    (lowerStmts (.cons x first more) [] t g₁).entry ∉ marks ms := by
  obtain ⟨b, hb⟩ := lowerStmts_entry [] t g₁ (.cons x first more) hfits (.inr (by simp))
  have hspan := ((lowerStmts_fresh (.cons x first more) [] t g₁).span.bounds b hb.mem).1
  rw [← hb.label]
  exact hbelow.notMem (by omega) (by omega)

/-- The parameters of the entry of a `finally` region. -/
theorem finally_entry (hG : G.Ok) (hk : Surrounds rt G F f.slots k t ms n)
    (hregion : Placed G ms (lowerFinallyRegion (lowerStmts (.cons x first more))
      (exceptExcName g) (finallyPlan g) t g₁).blocks)
    (hbelow : BelowBut ms g.label (g.label + 3)) (hlabel : g.label + 4 ≤ g₁.label) :
    ∃ target m, G.find (lowerFinallyRegion (lowerStmts (.cons x first more)) (exceptExcName g)
        (finallyPlan g) t g₁).finallyLabel = some target ∧
      excOf ms (some (exceptExcName g)) = some (.tryExc m) ∧
      target.params = [⟨(finallyPlan g).abruptKind, .abruptKind⟩,
        ⟨(finallyPlan g).abruptPayload, .abruptPayload⟩, ⟨.tryExc m, .exception⟩] :=
  Placed.finally_params (t := t.nested (finallyPlan g).dispatchLabel) hG hk.wellNamed hk.fits
    (Placed.pass (Placed.pass hregion.left)) (entry_notMem_marks hk.fits hbelow hlabel)

/-- Behind the jump to a `finally` body, with the slots of its parameters written. -/
theorem corresponds_finally (hk : Surrounds rt G F f.slots k t ms n)
    (hregion : Placed G ms (lowerFinallyRegion (lowerStmts (.cons x first more))
      (exceptExcName g) (finallyPlan g) t g₁).blocks)
    (hdispatch : Placed G ms (finallyDispatchBlocks (finallyPlan g) t.normalCont t.activeExc))
    (hbelow : BelowBut ms g.label (g.label + 3)) (hlabel : g.label + 4 ≤ g₁.label)
    (hn : n ≤ g.tmp) (htmp : g.tmp + 3 ≤ g₁.tmp) {pending : Signal V X l} {m : ℕ}
    (hm : excOf ms (some (exceptExcName g)) = some (.tryExc m)) {f' : Frame V X St}
    (huser : f'.user = s.user)
    (hother : ∀ y, y ≠ (finallyPlan g).abruptKind → y ≠ (finallyPlan g).abruptPayload →
      y ≠ .tryExc m → f'.slots y = f.slots y)
    (hpending : PendingSlots rt f'.slots (finallyPlan g) pending)
    (hparam : f'.slots (.tryExc m) = heldSlot rt (s.enterFinal pending k).caught) :
    Corresponds rt G F (.run (.cons x first more) (.finalBody pending k) (s.enterFinal pending k))
      (.goto (lowerFinallyRegion (lowerStmts (.cons x first more)) (exceptExcName g)
        (finallyPlan g) t g₁).finallyLabel f') := by
  have hagree : AgreeBelow n f.slots f'.slots := fun i hi => by
    refine ⟨(hother _ ?_ ?_ ?_).symm, (hother _ ?_ ?_ ?_).symm, (hother _ ?_ ?_ ?_).symm⟩
    all_goals simp only [finallyPlan, ne_eq, reduceCtorEq, not_false_eq_true,
      Name.tryAbruptKind.injEq, Name.tryAbruptPayload.injEq]
    all_goals omega
  refine ⟨t.nested (finallyPlan g).dispatchLabel, _, g.tmp + 3, f', .finalBody (hk.congr hagree)
    hdispatch hbelow hn hpending, huser, ?_, .opens g₁
      (Placed.pass (Placed.pass hregion.left)) ?_ htmp (by simp) _ _ rfl
      (entry_notMem_marks hk.fits hbelow hlabel)⟩
  · intro y hy
    have hy : excOf ms (some (exceptExcName g)) = some y := hy
    obtain rfl := Option.some.inj (hm.symm.trans hy)
    exact hparam
  · intro y hy
    rcases List.mem_cons.mp hy with rfl | hy
    · exact .inr rfl
    · rcases hbelow y hy with hy | rfl <;> exact .inl (by omega)

/-- A block in front of a `finally` body jumps to it. -/
theorem answers_finally (hG : G.Ok) (hk : Surrounds rt G F f.slots k t ms n)
    (hregion : Placed G ms (lowerFinallyRegion (lowerStmts (.cons x first more))
      (exceptExcName g) (finallyPlan g) t g₁).blocks)
    (hdispatch : Placed G ms (finallyDispatchBlocks (finallyPlan g) t.normalCont t.activeExc))
    (hbelow : BelowBut ms g.label (g.label + 3)) (hlabel : g.label + 4 ≤ g₁.label)
    (hn : n ≤ g.tmp) (htmp : g.tmp + 3 ≤ g₁.tmp) (pending : Signal V X l)
    {b : Block E T} {a₁ a₂ : BlockArg} (hterm : b.term = .jump
      ⟨(lowerFinallyRegion (lowerStmts (.cons x first more)) (exceptExcName g) (finallyPlan g) t
        g₁).finallyLabel, [a₁, a₂]⟩)
    (htidy : b.Tidy) (huser : f.user = s.user)
    (hpending : ∀ slots : Name → Slot V X,
      slots (finallyPlan g).abruptKind = argValue rt f none a₁ →
      slots (finallyPlan g).abruptPayload = argValue rt f none a₂ →
      PendingSlots rt slots (finallyPlan g) pending)
    (hparam : paramSlot rt b f = heldSlot rt (s.enterFinal pending k).caught)
    (c : Config E T V X St) :
    Answered rt G F c (.inside b [] f)
      (.inl (.run (.cons x first more) (.finalBody pending k) (s.enterFinal pending k))) := by
  obtain ⟨target, m, hfind, hm, hparams⟩ := finally_entry hG hk hregion hbelow hlabel
  obtain ⟨f', hjump, huser', hkind, hpayload, hexc, hother⟩ := jumpFrom_finally rt a₁ a₂ htidy
    hfind hparams (by simp [finallyPlan]) (by simp [finallyPlan]) (by simp [finallyPlan]) f
  have hstep := (step_term (G := G) rt hterm f).trans (congrArg Sum.inl hjump)
  refine .arrive hstep ?_
  exact corresponds_finally hk hregion hdispatch hbelow hlabel hn htmp hm (huser'.trans huser)
    hother (hpending _ hkind hpayload) (hexc.trans hparam)

end Entering

/-! ## Leaving the region of a `try` -/

/-- A signal leaves a region with a `finally` body, or one without. -/
theorem answers_leave (hG : G.Ok) (hk : Surrounds rt G F f.slots k t ms n) {finalbody : Stmts E T l}
    {y : Name} {cleanup : ℕ} {cleanupExc : Option ℕ} {ret : Option (ℕ × Name)} {bound : ℕ}
    (hc : Cleanup G t ms n finalbody y cleanup cleanupExc ret bound) (huser : f.user = s.user)
    (ps : List Pass) (hps : retOf (ps ++ ms) = retOf ms) (signal : Signal V X l)
    (h : Carrying rt G (retPass ret ++ (ps ++ ms)) ⟨cleanup, t.loopLabels, cleanupExc⟩ s f p signal)
    {c : Config E T V X St} (hweight : (Config.unwind signal k s).weight < c.weight) :
    Answered rt G F c p (.inl (leaveRegion .lowered finalbody signal k s)) := by
  cases hc with
  | noFinal i =>
    have h : Carrying rt G (ps ++ ms) _ s f p signal := h
    exact .stay ⟨t, ms, n, f, hk, huser, h.outer (fun _ => rfl) rfl rfl hps⟩ hweight
  | @withFinal x first more g g₁ hregion hdispatch hbelow hlabel hn htmp =>
    have hw := hk.wellNamed
    have hgen := (lowerStmts_fresh (.cons x first more) []
      (t.nested (finallyPlan g).dispatchLabel) g₁).label_le
    cases signal with
    | brk =>
      obtain ⟨hcaught, loopLabels, hlabels, hleaving⟩ := h
      rw [← List.append_assoc] at hcaught hleaving
      exact .stay ⟨t, ms, n, f, hk, huser, hcaught.outer, loopLabels, hlabels, hleaving.outer⟩
        hweight
    | cont =>
      obtain ⟨hcaught, loopLabels, hlabels, hleaving⟩ := h
      rw [← List.append_assoc] at hcaught hleaving
      exact .stay ⟨t, ms, n, f, hk, huser, hcaught.outer, loopLabels, hlabels, hleaving.outer⟩
        hweight
    | normal =>
      obtain ⟨hcaught, hleaving⟩ := h
      rw [← List.append_assoc] at hcaught hleaving
      obtain ⟨j, B, hj, hplain⟩ := hleaving.outer.enter rt hG hw hregion.right.left
        (List.mem_singleton.mpr rfl) rfl rfl (by simp [finallyNormalEntry, Settled])
        (fun _ => hbelow.notMem (by simp only [lowerFinallyRegion]; omega)
          (by simp only [lowerFinallyRegion]; omega))
      show Answered rt G F c p
        (.inl (.run (.cons x first more) (.finalBody .normal k) (s.enterFinal .normal k)))
      refine .after hj (answers_finally hG hk hregion hdispatch hbelow hlabel hn htmp
        .normal hplain.term hplain.tidy huser (fun slots hkind hpayload => ⟨hkind, hpayload⟩) ?_ c)
      exact paramSlot_caughtIn hk.inRegion_eq hcaught.outer hplain.exceptionParam
    | ret v =>
      obtain ⟨b, rfl, hterm, htidy, hpayload, hparam⟩ := h
      show Answered rt G F c _
        (.inl (.run (.cons x first more) (.finalBody (.ret v) k) (s.enterFinal (.ret v) k)))
      exact answers_finally hG hk hregion hdispatch hbelow hlabel hn htmp (.ret v) hterm htidy huser
        (fun slots hkind hslot => ⟨hkind, hslot.trans hpayload⟩) hparam c
    | exc e =>
      obtain ⟨b, m, hfind, hparams, hslot, rfl⟩ := h
      let entry : Block E T := finallyExceptionEntry ((lowerStmts (.cons x first more) []
        (t.nested (finallyPlan g).dispatchLabel) g₁).gen.label + 1) (lowerStmts
        (.cons x first more) [] (t.nested (finallyPlan g).dispatchLabel) g₁).entry
        (exceptExcName g) t.activeExc
      have hentry : G.find entry.label = some (applyAll ms entry) :=
        hG.find_placed hregion.right.right (List.mem_singleton.mpr rfl)
      obtain ⟨hbody, z, hz, hterm⟩ := applyAll_exceptionEntry ms (b := entry)
        (z := exceptExcName g) rfl rfl
      have htidy : (applyAll ms entry).Tidy := applyAll_tidy hw
        ⟨fun q hq n hn => by rw [List.mem_singleton.mp hq], fun q hq hrole => by
          rw [List.mem_singleton.mp hq]; rfl⟩
      have hparam : (applyAll ms entry).exceptionParam = some z := by
        rw [applyAll_exceptionParam]
        exact hz
      obtain rfl : b = applyAll ms entry := Option.some.inj (hfind.symm.trans hentry)
      obtain rfl : .tryExc m = z :=
        Option.some.inj ((exceptionParam_of_single hparams).symm.trans hparam)
      show Answered rt G F c _
        (.inl (.run (.cons x first more) (.finalBody (.exc e) k) (s.enterFinal (.exc e) k)))
      refine .step (step_goto rt hfind f) ?_
      rw [hbody]
      refine answers_finally hG hk hregion hdispatch hbelow hlabel hn htmp (.exc e) hterm htidy
        huser (fun slots hkind hpayload => ⟨hkind, hpayload.trans hslot⟩) ?_ c
      unfold paramSlot
      rw [hparam]
      exact hslot

/-! ## The frames of a `try` -/

theorem answers_tryBody (hG : G.Ok) {first : Stmt E T l} {more orelse finalbody : Stmts E T l}
    {signal : Signal V X l}
    (hS : Surrounds rt G F f.slots (.tryBody first more orelse finalbody k) t ms n)
    (huser : f.user = s.user) (h : Carrying rt G ms t s f p signal) :
    Answered rt G F (.unwind signal (.tryBody first more orelse finalbody k) s) p
      (stepUnwind rt .lowered signal (.tryBody first more orelse finalbody k) s) := by
  cases hS with
  | floor h => cases F.isFloor h
  | @tryBody _ _ t ms n _ _ _ _ y cleanup cleanupExc ret bound go gh hk hc horelse hhandler =>
    have hweight : ∀ signal : Signal V X l, (Config.unwind signal k s).weight <
        (Config.unwind signal (.tryBody first more orelse finalbody k) s :
          Config E T V X St).weight := by
      intro signal
      cases signal <;> simp only [Config.weight, Kont.weight] <;> omega
    have hguarded := Surrounds.guarded hk hc
    cases signal with
    | normal =>
      cases orelse with
      | nil =>
        refine .stay ⟨_, _, _, f, hguarded, huser, h.1, h.2⟩ ?_
        simp only [Config.weight, Kont.weight]
        omega
      | cons x stmt rest =>
        refine answers_enter hG hguarded huser h.1 (by simp) horelse h.2 ?_
        simp only [Config.weight, Kont.weight]
        omega
    | exc e =>
      obtain ⟨b, m, hfind, hparams, hslot, rfl⟩ := h
      have hparams' := hhandler.entry_params hG (hc.region_wellNamed hk.wellNamed) hk.fits hfind
      refine .stay ⟨_, _, _, f, .handling hk hc, huser, ?_, .branched gh hhandler⟩ ?_
      · intro z hz
        rw [hz, hparams] at hparams'
        obtain rfl : .tryExc m = z := by simpa [excParams] using hparams'
        exact hslot
      · simp only [Config.weight, Kont.weight, Stmts.weight]
        omega
    | ret v => exact answers_leave hG hk hc huser [] rfl (.ret v) h (hweight _)
    | brk => exact answers_leave hG hk hc huser [] rfl .brk h (hweight _)
    | cont => exact answers_leave hG hk hc huser [] rfl .cont h (hweight _)

theorem answers_guarded (hG : G.Ok) {finalbody : Stmts E T l} {signal : Signal V X l}
    (hS : Surrounds rt G F f.slots (.guarded finalbody k) t ms n) (huser : f.user = s.user)
    (h : Carrying rt G ms t s f p signal) :
    Answered rt G F (.unwind signal (.guarded finalbody k) s) p
      (stepUnwind rt .lowered signal (.guarded finalbody k) s) := by
  cases hS with
  | floor h => cases F.isFloor h
  | @guarded _ _ t ms n _ y cleanup cleanupExc ret bound hk hc =>
    refine answers_leave hG hk hc huser [] rfl signal h ?_
    cases signal <;> simp only [Config.weight, Kont.weight] <;> omega

theorem answers_handling (hG : G.Ok) {e : X} {finalbody : Stmts E T l} {signal : Signal V X l}
    (hS : Surrounds rt G F f.slots (.handling e finalbody k) t ms n) (huser : f.user = s.user)
    (h : Carrying rt G ms t s f p signal) :
    Answered rt G F (.unwind signal (.handling e finalbody k) s) p
      (stepUnwind rt .lowered signal (.handling e finalbody k) s) := by
  cases hS with
  | floor h => cases F.isFloor h
  | @handling _ _ t ms n _ _ y cleanup cleanupExc ret bound hk hc =>
    refine answers_leave hG hk hc huser [.regionExcParam y] rfl signal h ?_
    cases signal <;> simp only [Config.weight, Kont.weight] <;> omega

/-- At the end of a `finally` body the dispatch carries on with what is pending. -/
theorem answers_finalBody (hG : G.Ok) {pending signal : Signal V X l}
    (hS : Surrounds rt G F f.slots (.finalBody pending k) t ms n) (huser : f.user = s.user)
    (h : Carrying rt G ms t s f p signal) (hinner : F.depth < (Kont.finalBody pending k).depth) :
    Answered rt G F (.unwind signal (.finalBody pending k) s) p
      (stepUnwind rt .lowered signal (.finalBody pending k) s) := by
  cases hS with
  | floor h => exact absurd (F.depth_eq h).symm (Nat.ne_of_lt hinner)
  | @finalBody _ _ t ms n _ label g hk hdispatch hbelow hn hpending =>
    have hw := hk.wellNamed
    cases signal with
    | exc | ret | brk | cont =>
      refine .stay ⟨t, ms, n, f, hk, huser, Carrying.outer (q := [_, _]) h (fun h => by cases h)
        rfl rfl rfl⟩ ?_
      simp only [Config.weight, Kont.weight]
      omega
    | normal =>
      obtain ⟨hcaught, hleaving⟩ := h
      have hcaught : CaughtAt rt ms s f := CaughtAt.outer (q := [_, _]) hcaught
      have hleaving : Leaving ms (finallyPlan g).dispatchLabel f s.arrival p :=
        Leaving.outer (q := [_, _]) hleaving
      have hmark : ∀ label, g.label ≤ label → label < g.label + 3 → label ∉ marks ms :=
        fun label hlo hhi => hbelow.notMem hlo (by omega)
      obtain ⟨j, B, hj, hplain⟩ := hleaving.enter rt hG hw hdispatch
        (List.mem_cons_of_mem _ (List.mem_cons_of_mem _ (List.mem_singleton.mpr rfl))) rfl rfl
        (by simp [Settled]) (fun _ => hmark g.label (Nat.le_refl _) (by omega))
      refine .after hj ?_
      -- the branch table reads the kind
      have htable : ∀ kind, f.slots (finallyPlan g).abruptKind = .kind kind →
          (blocks rt G).step (.inside B [] f) = .inl (.goto ([t.normalCont,
            (finallyPlan g).returnLabel, (finallyPlan g).raiseLabel].getD kind.index t.normalCont)
              f) := fun kind hkind => by
        rw [step_term rt hplain.term]
        simp only [runTerm, hkind]
      cases pending with
      | brk => exact hpending.elim
      | cont => exact hpending.elim
      | normal =>
        exact .arrive (htable .fallthrough hpending.1)
          ⟨t, ms, n, f, hk, huser, hcaught, .branched⟩
      | exc e =>
        have hraise : Leaving ms (finallyPlan g).raiseLabel f .branched
            (.goto (finallyPlan g).raiseLabel f : Place E T V X St) := .branched
        obtain ⟨i, R, hi, hraised⟩ := hraise.enter rt hG hw hdispatch
          (List.mem_cons_of_mem _ List.mem_cons_self) rfl rfl (by simp [Settled])
          (fun h => by cases h)
        refine .step (htable .exception hpending.1) (.after hi (.arrive
          (step_term rt hraised.term f) ?_))
        simp only [runTerm, raisedValue, hpending.2]
        exact corresponds_throw hG hk hraised.excEdge e huser
      | ret v =>
        have hfind := hG.find_placed hdispatch List.mem_cons_self
        refine .step (htable .ret hpending.1) (.step (step_goto rt hfind f) ?_)
        have hreturned := answers_returned (x := .ok v) (u := s.user) hG hk hcaught rfl rfl
          (b := (⟨(finallyPlan g).returnLabel, [],
            .returnTerm (.name (finallyPlan g).abruptPayload), [], t.activeExc⟩ : Block E T))
          rfl rfl (by simp only [returnValue, hpending.2, huser])
        exact hreturned _

/-! ## The end of the callable -/

theorem answers_done (hG : G.Ok) {signal : Signal V X false} {s : State X St}
    (hS : Surrounds rt G (.callable G V X) f.slots .done t ms n) (huser : f.user = s.user)
    (h : Carrying rt G ms t s f p signal) :
    Answered rt G (.callable G V X) (.unwind signal .done s) p
      (stepUnwind rt .lowered signal .done s) := by
  cases hS with
  | floor hfloor =>
    obtain ⟨-, rfl, rfl, rfl⟩ := hfloor
    cases signal with
    | normal =>
      obtain ⟨j, hj⟩ := h.2.follow (G := G) rt fun b hb => by
        rw [show RegionTargets.normalCont ⟨G.exit, none, none⟩ = G.exit from rfl,
          hG.find_exit] at hb
        cases hb
      refine .after hj (.finish (q := .fellThrough f.user) ?_ (by rw [huser]))
      show graphStep rt G (.goto G.exit f) = _
      unfold graphStep
      simp only [hG.find_exit, if_true]
    | exc e =>
      have h : p = .leave (.raised e f.user) := h
      subst h
      exact .finish rfl (by rw [huser])
    | ret v =>
      have h : p = .leave (.returned v f.user) := h
      subst h
      exact .finish rfl (by rw [huser])

end DietPython.ControlFlow
