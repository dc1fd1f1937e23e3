import DietPython.ControlFlow.CompoundSteps

/-!
# The graph follows the signals

Each step that carries a signal out of a frame is answered by the graph. Most need no step of the
graph: the label a signal is bound for stays the same when a frame is left. The loops run their
heads, and a `finally` body is entered by the jump that writes its kind and payload and left
through the dispatch that reads them.
-/

namespace DietPython.ControlFlow

open Machines

variable {E T V X St : Type} {rt : Runtime E T V X St} {G : Graph E T}
  {F : Floor G V X} {l : Bool}
  {k : Kont E T V X l} {t : RegionTargets} {ms : List Pass} {n : ℕ} {f : Frame V X St}
  {s : State X St} {p : Place E T V X St} {g : Gen}

/-! ## Leaving a region -/

theorem CaughtAt.outer {q : List Pass} (h : CaughtAt rt (q ++ ms) s f) : CaughtAt rt ms s f :=
  fun x hx => h x (by rw [excOf_append]; exact excOf_of_outer hx _)

theorem Leaving.outer {q : List Pass} {label : ℕ} {a : Arrival}
    (h : Leaving (q ++ ms) label f a p) : Leaving ms label f a p := by
  cases h with
  | branched => exact .branched
  | jumps b hterm hcarry htidy => exact .jumps b hterm hcarry.outer htidy

/-- A signal that a region lets pass. -/
theorem Carrying.outer {q : List Pass} {t' : RegionTargets} {signal : Signal V X l}
    (h : Carrying rt G (q ++ ms) t' s f p signal)
    (hnormal : signal = .normal → t'.normalCont = t.normalCont)
    (hloop : t'.loopLabels = t.loopLabels) (hexc : t'.activeExc = t.activeExc)
    (hret : retOf (q ++ ms) = retOf ms) : Carrying rt G ms t s f p signal := by
  cases signal with
  | normal => exact ⟨h.1.outer, hnormal rfl ▸ h.2.outer⟩
  | exc e =>
    unfold Carrying at h ⊢
    rwa [hexc] at h
  | ret v =>
    unfold Carrying at h ⊢
    rwa [hret] at h
  | brk =>
    obtain ⟨hcaught, loopLabels, hlabels, hleaving⟩ := h
    exact ⟨hcaught.outer, loopLabels, hloop ▸ hlabels, hleaving.outer⟩
  | cont =>
    obtain ⟨hcaught, loopLabels, hlabels, hleaving⟩ := h
    exact ⟨hcaught.outer, loopLabels, hloop ▸ hlabels, hleaving.outer⟩

/-- A signal that passes a frame with the same passes. -/
theorem Carrying.outer_nil {t' : RegionTargets} {signal : Signal V X l}
    (h : Carrying rt G ms t' s f p signal)
    (hnormal : signal = .normal → t'.normalCont = t.normalCont)
    (hloop : t'.loopLabels = t.loopLabels) (hexc : t'.activeExc = t.activeExc) :
    Carrying rt G ms t s f p signal := by
  rw [← List.nil_append ms] at h
  exact h.outer hnormal hloop hexc rfl

/-- A jump that is still to make is made. -/
theorem Leaving.follow (rt : Runtime E T V X St) {label : ℕ} {a : Arrival}
    (h : Leaving ms label f a p)
    (htarget : ∀ b, G.find label = some b → b.params = excParams (excOf ms none)) :
    ∃ j, (blocks rt G).after j p = some (.goto label f) := by
  cases h with
  | branched => exact ⟨0, rfl⟩
  | jumps b hterm hcarry htidy =>
    exact ⟨1, (blocks rt G).after_succ_of_step (step_jump rt hterm hcarry htarget f) 0⟩

/-- Into the block of a label. A jump needs that its own parameters are those of the regions
around. -/
theorem Leaving.enter (rt : Runtime E T V X St) {label : ℕ} {a : Arrival}
    (h : Leaving ms label f a p) (hG : G.Ok) (hw : ∀ p ∈ ms, p.WellNamed)
    {blks : List (Block E T)} (hp : Placed G ms blks) {b : Block E T} (hb : b ∈ blks)
    (hlabel : b.label = label) (hparams : b.params = []) (hs : Settled b.term)
    (hm : a = .jumps → label ∉ marks ms) :
    ∃ j B, (blocks rt G).after j p = some (.inside B b.body f) ∧ Plain ms b B := by
  subst hlabel
  have hfind := hG.find_placed hp hb
  have hplain := plain_applyAll hw hparams hs
  have henter := (blocks rt G).after_succ_of_step (step_goto rt hfind f) 0
  rw [hplain.body] at henter
  cases h with
  | branched => exact ⟨1, _, henter, hplain⟩
  | jumps b₀ hterm hcarry htidy =>
    have hstep := step_jump rt hterm hcarry (fun c hc => by
      obtain ⟨b', hfind', -, hb'⟩ := find_bare hG hw hp hb hparams (hm rfl)
      obtain rfl := Option.some.inj (hfind'.symm.trans hc)
      exact hb') f
    exact ⟨2, _, ((blocks rt G).after_succ_of_step hstep 1).trans henter, hplain⟩

/-! ## Sequences -/

/-- A sequence is entered, by a branch or by a jump. -/
theorem answers_enter (hG : G.Ok) (hS : Surrounds rt G F f.slots k t ms n) (huser : f.user = s.user)
    (hcaught : CaughtAt rt ms s f) {stmts : Stmts E T l} (hne : stmts ≠ .nil) {g : Gen}
    (hlies : Lies G ms n stmts t g)
    (hleaving : Leaving ms (lowerStmts stmts [] t g).entry f s.arrival p) {c : Config E T V X St}
    (hweight : (Config.run stmts k s).weight < c.weight) :
    Answered rt G F c p (.inl (.run stmts k { s with arrival := .branched })) := by
  obtain ⟨j, hj⟩ := hleaving.follow (G := G) rt fun b hb => by
    cases stmts with
    | nil => exact absurd rfl hne
    | cons x first more => exact hlies.entry_params hG hS.wellNamed hS.fits hb
  exact .after hj (.stay ⟨t, ms, n, f, hS, huser, hcaught, .branched g hlies⟩ hweight)

theorem answers_seq (hG : G.Ok) {rest : Stmts E T l} {signal : Signal V X l}
    (hS : Surrounds rt G F f.slots (.seq rest k) t ms n) (huser : f.user = s.user)
    (h : Carrying rt G ms t s f p signal) :
    Answered rt G F (.unwind signal (.seq rest k) s) p
      (stepUnwind rt .lowered signal (.seq rest k) s) := by
  cases hS with
  | floor h => cases F.isFloor h
  | @seq _ _ t _ _ _ g hk hrest =>
    have hpass : ∀ signal : Signal V X l, Carrying rt G ms (t.nested _) s f p signal →
        (signal = .normal → (lowerStmts rest [] t g).entry = t.normalCont) →
        (Config.unwind signal k s).weight <
          (Config.unwind signal (.seq rest k) s : Config E T V X St).weight →
        Answered rt G F (.unwind signal (.seq rest k) s) p (.inl (.unwind signal k s)) :=
      fun signal h hnormal hlt => .stay ⟨t, ms, n, f, hk, huser,
        h.outer_nil hnormal rfl rfl⟩ hlt
    cases signal with
    | normal =>
      cases rest with
      | nil =>
        refine hpass .normal h (fun _ => rfl) ?_
        simp only [Config.weight, Kont.weight, Stmts.weight]
        omega
      | cons x first more =>
        refine answers_enter hG hk huser h.1 (by simp) hrest h.2 ?_
        simp only [Config.weight, Kont.weight]
        omega
    | exc | ret | brk | cont =>
      refine hpass _ h (fun h => by cases h) ?_
      simp only [Config.weight, Kont.weight]
      omega

/-! ## Loops -/

/-- The head of a loop is entered, by a branch or by a jump. -/
theorem answers_while_signal (hG : G.Ok) {opens : Bool} {test : E} {body : Stmts E T true}
    {orelse : Stmts E T l} {signal : Signal V X true}
    (hS : Surrounds rt G F f.slots (.whileLoop opens test body orelse k) t ms n)
    (huser : f.user = s.user) (h : Carrying rt G ms t s f p signal)
    (hkeeps : KeepsPending (.unwind signal (.whileLoop opens test body orelse k) s)) :
    Answered rt G F (.unwind signal (.whileLoop opens test body orelse k) s) p
      (stepUnwind rt .lowered signal (.whileLoop opens test body orelse k) s) := by
  have hS' := hS
  cases hS with
  | floor h => cases F.isFloor h
  | @whileLoop _ _ t _ _ _ _ _ _ head go gb hk horelse hbody hhead hopens =>
    cases signal with
    | normal =>
      refine .stay ⟨_, ms, n, f, hS', huser, h.1, _, rfl, h.2⟩ ?_
      simp only [Config.weight]
      omega
    | exc e =>
      refine .stay ⟨t, ms, n, f, hk, huser, h⟩ ?_
      simp only [Config.weight, Kont.weight]
      omega
    | ret v =>
      refine .stay ⟨t, ms, n, f, hk, huser, h⟩ ?_
      simp only [Config.weight, Kont.weight]
      omega
    | brk =>
      obtain ⟨hcaught, loopLabels, hloop, hleaving⟩ := h
      obtain rfl := Option.some.inj hloop
      refine .stay ⟨t, ms, n, f, hk, huser, hcaught, hleaving⟩ ?_
      simp only [Config.weight, Kont.weight]
      omega
    | cont =>
      obtain ⟨hcaught, loopLabels, hloop, hleaving⟩ := h
      obtain rfl := Option.some.inj hloop
      -- only a head that is not the entry of a `finally` body is reached by a jump
      have hkeeps : (!(opens && s.arrival == .jumps)) = true := hkeeps
      have hmark : s.arrival = .jumps → head ∉ marks ms := fun ha =>
        hopens (by simpa [ha] using hkeeps)
      obtain ⟨j, B, hj, hplain⟩ := hleaving.enter rt hG hk.wellNamed hhead
        (List.mem_singleton.mpr rfl) rfl rfl (by simp [ifBranchBlock, Settled]) hmark
      refine .after hj (answers_test hG hk huser hcaught hplain.exceptionParam hplain.excEdge
        hplain.term
        (a := fun v u => if v then .run body (.whileLoop opens test body orelse k)
            ⟨u, s.caught, .branched⟩
          else .run orelse k ⟨u, s.caught, .branched⟩) (fun v u => ?_) ?_)
      · cases v with
        | true => exact ⟨_, ms, n, { f with user := u }, hS', rfl, hcaught, .branched gb hbody⟩
        | false => exact ⟨t, ms, n, { f with user := u }, hk, rfl, hcaught, .branched go horelse⟩
      · simp only [stepUnwind]
        rcases rt.test test (givenTo rt .lowered test k s) s.user with ⟨_ | ⟨_ | _⟩, _⟩ <;> rfl

/-- A slot that no region and no frame around relies on. -/
theorem CaughtAt.set_tmp (hw : ∀ p ∈ ms, p.WellNamed) (hcaught : CaughtAt rt ms s f) (i : ℕ)
    (v : Slot V X) : CaughtAt rt ms s (f.set (.tmp i) v) := fun x hx => by
  obtain ⟨j, rfl⟩ := (ExcNamed.of hw excNamed_none) x hx
  rw [Frame.set_slots_ne _ _ (by simp)]
  exact hcaught _ hx

/-- The entry of a loop body has no parameter of its own, also when the body is empty and its
entry is the head of the loop. -/
theorem entry_params_of_body (hG : G.Ok) (hw : ∀ p ∈ ms, p.WellNamed) {body : Stmts E T l}
    (hbody : Lies G ms n body t g) (hfits : Fits l t)
    (hcont : ∀ b, G.find t.normalCont = some b → b.params = excParams (excOf ms none))
    {b : Block E T} (hb : G.find (lowerStmts body [] t g).entry = some b) :
    b.params = excParams (excOf ms none) := by
  cases body with
  | nil => exact hcont b hb
  | cons x first more => exact hbody.entry_params hG hw hfits hb

/-- The assignment of a value to the target of a `for` loop, and the jump into the body. -/
theorem answers_assign (hG : G.Ok) {k' : Kont E T V X true} {t' : RegionTargets} {n' : ℕ}
    (hk : Surrounds rt G F f.slots k t ms n) (hk' : Surrounds rt G F f.slots k' t' ms n')
    (hcaught : CaughtAt rt ms s f) {target : T} {i assign : ℕ} {body : Stmts E T true} {gb : Gen}
    (hbody : Lies G ms n' body t' gb) {blks : List (Block E T)} (hp : Placed G ms blks)
    (hmem : sequenceJumpBlock assign [.assignTarget target (.tmp i)]
      (lowerStmts body [] t' gb).entry t.activeExc ∈ blks)
    (hcont : ∀ b, G.find t'.normalCont = some b → b.params = excParams (excOf ms none)) {v : V}
    (hv : f.slots (.tmp i) = .obj v) (c : Config E T V X St) :
    Answered rt G F c (.goto assign f)
      (match rt.assign target v f.user with
        | (.ok (), u) => .inl (.run body k' ⟨u, s.caught, .branched⟩)
        | (.error x, u) => .inl (.unwind (.exc x) k ⟨u, s.caught, .branched⟩)) := by
  have hw := hk.wellNamed
  have hleaving : Leaving ms assign f .branched (.goto assign f : Place E T V X St) := .branched
  obtain ⟨j, B, hj, hplain⟩ := hleaving.enter rt hG hw hp hmem rfl rfl
    (by simp [sequenceJumpBlock, Settled]) (fun h => by cases h)
  refine .after hj ?_
  rcases hassign : rt.assign target v f.user with ⟨x | _, u⟩
  · have hop : runOp rt B f (.assignTarget target (.tmp i)) = .error (x, u) := by
      simp only [runOp, hv, hassign]
    exact .arrive (step_op_error rt hop)
      (corresponds_throw (f := { f with user := u }) hG hk hplain.excEdge x rfl)
  · have hop : runOp rt B f (.assignTarget target (.tmp i)) =
        .ok (({ f with user := u } : Frame V X St).set (.tmp i) .unbound) := by
      simp only [runOp, hv, hassign]
    have hjump := step_jump rt hplain.term hplain.carries
      (fun _ => entry_params_of_body hG hw hbody hk'.fits hcont)
      (({ f with user := u } : Frame V X St).set (.tmp i) .unbound)
    exact .step (step_op rt hop) (.arrive hjump ⟨t', ms, n',
      ({ f with user := u } : Frame V X St).set (.tmp i) .unbound,
      hk'.congr (AgreeBelow.update_tmp f.slots i _), rfl,
      CaughtAt.set_tmp (f := { f with user := u }) hw hcaught i _, .branched gb hbody⟩)

theorem answers_for_signal (hG : G.Ok) {isAsync : Bool} {it : V} {target : T}
    {body : Stmts E T true} {orelse : Stmts E T l} {signal : Signal V X true}
    (hS : Surrounds rt G F f.slots (.forLoop isAsync it target body orelse k) t ms n)
    (huser : f.user = s.user) (h : Carrying rt G ms t s f p signal) :
    Answered rt G F (.unwind signal (.forLoop isAsync it target body orelse k) s) p
      (stepUnwind rt .lowered signal (.forLoop isAsync it target body orelse k) s) := by
  have hS' := hS
  cases hS with
  | floor h => cases F.isFloor h
  | @forLoop _ _ t _ n _ _ _ _ _ head assign i go gb hk hi horelse hbody hblocks hhead hiter =>
    cases signal with
    | normal =>
      refine .stay ⟨_, ms, i + 2, f, hS', huser, h.1, _, rfl, h.2⟩ ?_
      simp only [Config.weight]
      omega
    | exc e =>
      refine .stay ⟨t, ms, n, f, hk, huser, h⟩ ?_
      simp only [Config.weight, Kont.weight]
      omega
    | ret v =>
      refine .stay ⟨t, ms, n, f, hk, huser, h⟩ ?_
      simp only [Config.weight, Kont.weight]
      omega
    | brk =>
      obtain ⟨hcaught, loopLabels, hloop, hleaving⟩ := h
      obtain rfl := Option.some.inj hloop
      refine .stay ⟨t, ms, n, f, hk, huser, hcaught, hleaving⟩ ?_
      simp only [Config.weight, Kont.weight]
      omega
    | cont =>
      obtain ⟨hcaught, loopLabels, hloop, hleaving⟩ := h
      obtain rfl := Option.some.inj hloop
      obtain ⟨j, B, hj, hplain⟩ := hleaving.enter rt hG hk.wellNamed hblocks
        (List.mem_cons_of_mem _ List.mem_cons_self) rfl rfl (by simp [ifBranchBlock, Settled])
        (fun _ => hhead)
      have hedge : B.excEdge = t.activeExc := hplain.excEdge
      refine .after hj ?_
      rcases hnext : rt.next isAsync it s.user with ⟨x | _ | v, u⟩
      · have hop : runOp rt B f (.storeNext (.tmp (i + 1)) (.iter i) isAsync) = .error (x, u) := by
          simp only [runOp, hiter, huser, hnext]
        simp only [stepUnwind, hnext]
        exact .arrive (step_op_error rt hop)
          (corresponds_throw (f := { f with user := u }) hG hk hedge x rfl)
      · -- exhausted
        have hop : runOp rt B f (.storeNext (.tmp (i + 1)) (.iter i) isAsync) =
            .ok (({ f with user := u } : Frame V X St).set (.tmp (i + 1)) .iterComplete) := by
          simp only [runOp, hiter, huser, hnext]
        simp only [stepUnwind, hnext]
        exact .step (step_op rt hop) (.arrive (step_exhausted rt hplain.term
          (Frame.set_slots_self _ _ _)) ⟨t, ms, n,
          ({ f with user := u } : Frame V X St).set (.tmp (i + 1)) .iterComplete,
          hk.congr (AgreeBelow.update_tmp f.slots (i + 1) _), rfl,
          CaughtAt.set_tmp (f := { f with user := u }) hk.wellNamed hcaught (i + 1) _,
          .branched go ⟨horelse.placed, horelse.below, by have := horelse.names; omega⟩⟩)
      · -- the next value
        have hop : runOp rt B f (.storeNext (.tmp (i + 1)) (.iter i) isAsync) =
            .ok (({ f with user := u } : Frame V X St).set (.tmp (i + 1)) (.obj v)) := by
          simp only [runOp, hiter, huser, hnext]
        have hcont : ∀ b, G.find head = some b → b.params = excParams (excOf ms none) := by
          intro b hb
          obtain ⟨b', hfind, -, hb'⟩ := find_bare hG hk.wellNamed hblocks
            (List.mem_cons_of_mem _ List.mem_cons_self) rfl hhead
          obtain rfl := Option.some.inj (hfind.symm.trans hb)
          exact hb'
        have hassign := answers_assign (f := ({ f with user := u } : Frame V X St).set
            (.tmp (i + 1)) (.obj v)) hG (hk.congr (AgreeBelow.update_tmp f.slots (i + 1) _))
          (hS'.congr (AgreeBelow.update_tmp f.slots (i + 1) _))
          (CaughtAt.set_tmp (f := { f with user := u }) hk.wellNamed hcaught (i + 1) _) hbody
          hblocks List.mem_cons_self hcont (Frame.set_slots_self _ _ _)
          (.unwind .cont (.forLoop isAsync it target body orelse k) s)
        simp only [stepUnwind, hnext]
        exact .step (step_op rt hop) (.step (step_value rt hplain.term
          (Frame.set_slots_self _ _ _)) hassign)

end DietPython.ControlFlow
