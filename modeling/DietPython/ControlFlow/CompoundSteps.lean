import DietPython.ControlFlow.StatementSteps

/-!
# The graph follows the compound statements

Branches, loops and `try`: what the statement opens is a frame of the continuation on one side,
and on the other side targets, passes and blocks that are placed in the graph already.
-/

namespace DietPython.ControlFlow

open Machines

attribute [local simp] Config.weight Kont.weight Stmts.weight Stmt.weight

variable {E T V X St : Type} {rt : Runtime E T V X St} {G : Graph E T}
  {F : Floor G V X} {l : Bool}
  {k : Kont E T V X l} {t : RegionTargets} {ms : List Pass} {n : ℕ} {f : Frame V X St}
  {s : State X St} {rest : Stmts E T l} {g : Gen} {linear : List (Op E T)} {b : Block E T}

/-! ## Branches -/

/-- A test block, once its prefix has run. -/
theorem answers_test (hG : G.Ok) (hS : Surrounds rt G F f.slots k t ms n)
    (huser : f.user = s.user) (hcaught : CaughtAt rt ms s f) {test : E} {thenLabel elseLabel : ℕ}
    (hparam : b.exceptionParam = excOf ms none) (hedge : b.excEdge = t.activeExc)
    (hterm : b.term = .ifTerm (.expr test) thenLabel elseLabel) {c : Config E T V X St}
    {a : Bool → St → Config E T V X St}
    (ha : ∀ v u, Corresponds rt G F (a v u)
      (.goto (if v then thenLabel else elseLabel) { f with user := u }))
    {o : Config E T V X St ⊕ Outcome V X St}
    (ho : o = match rt.test test (givenTo rt .lowered test k s) s.user with
      | (.ok v, u) => .inl (a v u)
      | (.error x, u) => .inl (.unwind (.exc x) k ⟨u, s.caught, .branched⟩)) :
    Answered rt G F c (.inside b [] f) o := by
  have hgiven := given_current rt hS.inRegion_eq hcaught hparam test
  have hstep := step_term (G := G) rt hterm f
  simp only [runTerm, hgiven, huser] at hstep
  rcases htest : rt.test test (givenTo rt .lowered test k s) s.user with ⟨x | v, u⟩
  · rw [htest] at hstep ho
    subst ho
    exact Machine.Answers.arrive hstep
      (corresponds_throw (f := { f with user := u }) hG hS hedge x rfl)
  · rw [htest] at hstep ho
    subst ho
    exact Machine.Answers.arrive hstep (ha v u)

theorem answers_if (hG : G.Ok) (hS : Surrounds rt G F f.slots k t ms n)
    (huser : f.user = s.user) (hcaught : CaughtAt rt ms s f) {test : E} {body orelse : Stmts E T l}
    (h : Ready G ms n (.ifStmt test body orelse) rest t g linear b) (c : Config E T V X St) :
    Answered rt G F c (.inside (applyAll ms b) ((applyAll ms b).body.drop linear.length) f)
      (.inl (stepStmt rt .lowered (.ifStmt test body orelse) rest k s)) := by
  let g' : Gen := ⟨g.label + 1, g.tmp⟩
  let r := lowerStmts rest [] t g'
  let y := lowerStmts body [] (t.nested r.entry) r.gen
  let o := lowerStmts orelse [] (t.nested r.entry) y.gen
  have hr := lowerStmts_fresh rest [] t g'
  have hy := lowerStmts_fresh body [] (t.nested r.entry) r.gen
  have hrl : g.label + 1 ≤ r.gen.label := hr.label_le
  have hrt : g.tmp ≤ r.gen.tmp := hr.tmp_le
  have hyl : r.gen.label ≤ y.gen.label := hy.label_le
  have hyt : r.gen.tmp ≤ y.gen.tmp := hy.tmp_le
  have hn := h.names
  have hbelow : ∀ lo, g.label + 1 ≤ lo → Below ms lo := fun lo hlo =>
    h.below.below (by omega) (show g.label < lo by omega)
  have hplaced : Placed G ms (r.blocks ++ y.blocks ++ o.blocks) := Placed.left h.placed
  obtain rfl : b = ifBranchBlock g.label linear (.expr test) y.entry o.entry t.activeExc :=
    h.entry.unique (lowerStmts_fresh (.cons false (.ifStmt test body orelse) rest))
      (List.mem_append_right _ (List.mem_singleton.mpr rfl)) rfl
  obtain ⟨hdrop, hterm⟩ := h.settled hS.wellNamed (List.append_nil linear).symm
    (by simp [ifBranchBlock, Settled])
  rw [hdrop]
  have hS' : ∀ u, Surrounds rt G F ({ f with user := u } : Frame V X St).slots (.seq rest k)
      (t.nested r.entry) ms n := fun _ =>
    .seq hS ⟨hplaced.left.left, hbelow _ (Nat.le_refl _), hn⟩
  refine answers_test hG hS huser hcaught h.exceptionParam h.excEdge hterm
    (a := fun v u => if v then .run body (.seq rest k) ⟨u, s.caught, .branched⟩
      else .run orelse (.seq rest k) ⟨u, s.caught, .branched⟩) (fun v u => ?_) ?_
  · cases v with
    | true =>
      exact ⟨t.nested r.entry, ms, n, { f with user := u }, hS' u, rfl, hcaught,
        .branched r.gen ⟨hplaced.left.right, hbelow _ hrl, by omega⟩⟩
    | false =>
      exact ⟨t.nested r.entry, ms, n, { f with user := u }, hS' u, rfl, hcaught,
        .branched y.gen ⟨hplaced.right, hbelow _ (by omega), by omega⟩⟩
  · simp only [stepStmt]
    rcases rt.test test (givenTo rt .lowered test k s) s.user with ⟨_ | ⟨_ | _⟩, _⟩ <;> rfl

/-! ## Loops -/

/-- The blocks of a `while` loop, with what follows it. -/
theorem surrounds_while (hS : Surrounds rt G F f.slots k t ms n) {test : E}
    {body : Stmts E T true} {orelse : Stmts E T l} {opens : Bool} {head lo tmp : ℕ}
    {r o y : Lowered E T} (hr : r = lowerStmts rest [] t ⟨lo, tmp⟩)
    (ho : o = lowerStmts orelse [] (t.nested r.entry) r.gen)
    (hy : y = lowerStmts body [] (t.nestedWithLoop head ⟨r.entry, head⟩) o.gen)
    (hp : Placed G ms (r.blocks ++ o.blocks ++ y.blocks ++
      [ifBranchBlock head [] (.expr test) y.entry o.entry t.activeExc]))
    (hbelow : Below ms lo) (hn : n ≤ tmp) (hopens : opens = false → head ∉ marks ms) :
    Surrounds rt G F f.slots (.whileLoop opens test body orelse (.seq rest k))
      (t.nestedWithLoop head ⟨r.entry, head⟩) ms n := by
  have hrl : lo ≤ r.gen.label := hr ▸ (lowerStmts_fresh rest [] t ⟨lo, tmp⟩).label_le
  have hrt : tmp ≤ r.gen.tmp := hr ▸ (lowerStmts_fresh rest [] t ⟨lo, tmp⟩).tmp_le
  have hol : r.gen.label ≤ o.gen.label :=
    ho ▸ (lowerStmts_fresh orelse [] (t.nested r.entry) r.gen).label_le
  have hot : r.gen.tmp ≤ o.gen.tmp :=
    ho ▸ (lowerStmts_fresh orelse [] (t.nested r.entry) r.gen).tmp_le
  have hrest : Lies G ms n rest t ⟨lo, tmp⟩ := ⟨hr ▸ hp.left.left.left, hbelow, hn⟩
  have horelse : Lies G ms n orelse (t.nested r.entry) r.gen :=
    ⟨ho ▸ hp.left.left.right, hbelow.mono hrl, Nat.le_trans hn hrt⟩
  have hbody : Lies G ms n body (t.nestedWithLoop head ⟨r.entry, head⟩) o.gen :=
    ⟨hy ▸ hp.left.right, hbelow.mono (Nat.le_trans hrl hol),
      Nat.le_trans hn (Nat.le_trans hrt hot)⟩
  have hhead := hp.right
  subst hy ho hr
  exact .whileLoop (.seq hS hrest) horelse hbody hhead hopens

/-- A `while` loop is entered at its head. Only a prefix has to be left first. -/
theorem answers_while (hS : Surrounds rt G F f.slots k t ms n) (huser : f.user = s.user)
    (hcaught : CaughtAt rt ms s f) {test : E} {body : Stmts E T true} {orelse : Stmts E T l}
    {p : Place E T V X St} {x : Bool} {s₀ : State X St}
    (h : Standing G ms n (.cons false (.whileStmt test body orelse) rest) t f s.arrival p) :
    Answered rt G F (.run (.cons x (.whileStmt test body orelse) rest) k s₀) p
      (.inl (stepStmt rt .lowered (.whileStmt test body orelse) rest k s)) := by
  refine Machine.Answers.stay ?_ (by
    simp [stepStmt]
    omega)
  simp only [stepStmt]
  -- at the entry of the loop, whether or not it opens a `finally` body
  have hentry : ∀ g, Placed G ms (lowerStmts (.cons false (.whileStmt test body orelse) rest) []
      t g).blocks → BelowBut ms g.label g.label → n ≤ g.tmp →
      (∀ opens, (s.arrival == .opens) = opens → opens = false → g.label ∉ marks ms) →
      s.arrival ≠ .jumps → p = .goto g.label f →
      Corresponds rt G F (.unwind .cont (.whileLoop (s.arrival == .opens) test body orelse
        (.seq rest k)) ⟨s.user, s.caught, if s.arrival = .jumps then .jumps else .branched⟩) p := by
    rintro g hplaced hbelow hn hopens harrival rfl
    have hsurrounds := surrounds_while hS rfl rfl rfl hplaced
      (hbelow.below (Nat.le_succ _) (Nat.lt_succ_self _)) hn (hopens _ rfl)
    refine ⟨_, ms, n, f, hsurrounds, huser, hcaught, _, rfl, ?_⟩
    rw [if_neg harrival]
    exact .branched
  generalize ha : s.arrival = a at *
  cases h with
  | branched g h =>
    exact hentry g h.placed (h.below.but _) h.names
      (fun _ _ _ => h.below.notMem (Nat.le_refl _)) (by simp) rfl
  | opens g hplaced hbelow hn hne kind payload hentry hmark =>
    exact hentry g hplaced hbelow hn (fun _ h h' => by rw [← h] at h'; cases h') (by simp) rfl
  | jumps g linear b hlinear hplaced hb hbelow hn =>
    obtain ⟨op, linear, rfl⟩ := List.exists_cons_of_ne_nil hlinear
    have hsplit : Placed G ms _ := Placed.left hplaced
    have hsurrounds : Surrounds rt G F f.slots (.whileLoop false test body orelse (.seq rest k)) _
        ms n := surrounds_while hS rfl rfl rfl hsplit
      (hbelow.below (Nat.le_add_right _ 2) (Nat.lt_succ_self _)) hn
      (fun _ => hbelow.notMem (Nat.le_refl _) (Nat.ne_of_lt (Nat.lt_succ_self _)))
    have hjump := hb.unique (lowerStmts_fresh (.cons false (.whileStmt test body orelse) rest))
      (List.mem_append_right _ (List.mem_singleton.mpr rfl)) rfl
    have hready : Ready G ms n (.whileStmt test body orelse) rest t g (op :: linear) b :=
      ⟨hplaced, hb, hbelow, hn⟩
    obtain ⟨hdrop, hterm⟩ := hready.settled hS.wellNamed
      (by rw [hjump]; exact (List.append_nil _).symm)
        (by rw [hjump]; simp [sequenceJumpBlock, Settled])
    rw [hdrop]
    refine ⟨_, ms, n, f, hsurrounds, huser, hcaught, _, rfl, ?_⟩
    rw [if_pos rfl]
    exact .jumps _ (hterm.trans (by rw [hjump]; rfl)) hready.carries
      (applyAll_tidy hS.wellNamed (tidy_of_nil hb.params))

theorem answers_for (hG : G.Ok) (hS : Surrounds rt G F f.slots k t ms n)
    (huser : f.user = s.user) (hcaught : CaughtAt rt ms s f) {isAsync : Bool} {target : T}
    {iter : E} {body : Stmts E T true} {orelse : Stmts E T l}
    (h : Ready G ms n (.forStmt isAsync target iter body orelse) rest t g linear b)
    (c : Config E T V X St) :
    Answered rt G F c (.inside (applyAll ms b) ((applyAll ms b).body.drop linear.length) f)
      (.inl (stepStmt rt .lowered (.forStmt isAsync target iter body orelse) rest k s)) := by
  let r := lowerStmts rest [] t ⟨g.label + 3, g.tmp + 2⟩
  let o := lowerStmts orelse [] (t.nested r.entry) r.gen
  let y := lowerStmts body [] (t.nestedWithLoop g.label ⟨r.entry, g.label⟩) o.gen
  have hrl : g.label + 3 ≤ r.gen.label :=
    (lowerStmts_fresh rest [] t ⟨g.label + 3, g.tmp + 2⟩).label_le
  have hrt : g.tmp + 2 ≤ r.gen.tmp :=
    (lowerStmts_fresh rest [] t ⟨g.label + 3, g.tmp + 2⟩).tmp_le
  have hol : r.gen.label ≤ o.gen.label :=
    (lowerStmts_fresh orelse [] (t.nested r.entry) r.gen).label_le
  have hot : r.gen.tmp ≤ o.gen.tmp :=
    (lowerStmts_fresh orelse [] (t.nested r.entry) r.gen).tmp_le
  have hn := h.names
  have hbelow : Below ms (g.label + 3) := h.below.below (Nat.le_add_right _ _)
    (show g.label + 2 < g.label + 3 by omega)
  have hplaced : Placed G ms (r.blocks ++ o.blocks ++ y.blocks) := Placed.left h.placed
  have hown : Placed G ms
      [sequenceJumpBlock (g.label + 1) [.assignTarget target (.tmp (g.tmp + 1))] y.entry
          t.activeExc,
        ifBranchBlock g.label [.storeNext (.tmp (g.tmp + 1)) (.iter g.tmp) isAsync]
          (.iterComplete (.tmp (g.tmp + 1))) o.entry (g.label + 1) t.activeExc] :=
    (Placed.right h.placed).mono fun x hx => by
      rcases List.mem_cons.mp hx with rfl | hx
      · exact List.mem_cons_self
      · rw [List.mem_singleton.mp hx]
        exact List.mem_cons_of_mem _ List.mem_cons_self
  have hhead : g.label ∉ marks ms := h.below.notMem (Nat.le_refl _)
    (show g.label ≠ g.label + 2 by omega)
  obtain rfl : b = sequenceJumpBlock (g.label + 2)
      (linear ++ [.storeIter (.iter g.tmp) isAsync iter]) g.label t.activeExc :=
    h.entry.unique (lowerStmts_fresh (.cons false (.forStmt isAsync target iter body orelse) rest))
      (List.mem_append_right _ (List.mem_cons_of_mem _ (List.mem_cons_of_mem _
        (List.mem_singleton.mpr rfl)))) rfl
  obtain ⟨hdrop, hterm⟩ := h.settled hS.wellNamed rfl (by simp [sequenceJumpBlock, Settled])
  have hedge := h.excEdge
  have hcarries := h.carries
  have htidy : (applyAll ms _).Tidy := applyAll_tidy hS.wellNamed (tidy_of_nil h.entry.params)
  have hgiven := given_current rt hS.inRegion_eq hcaught h.exceptionParam iter
  rw [hdrop]
  generalize applyAll ms (sequenceJumpBlock (g.label + 2)
    (linear ++ [.storeIter (.iter g.tmp) isAsync iter]) g.label t.activeExc) = B at *
  rcases heval : rt.eval iter (givenTo rt .lowered iter k s) s.user with ⟨x | v, u⟩
  · have hop : runOp rt B f (.storeIter (.iter g.tmp) isAsync iter) = .error (x, u) := by
      simp only [runOp, hgiven, huser, heval]
    simp only [stepStmt, heval]
    exact Machine.Answers.arrive (step_op_error rt hop)
      (corresponds_throw (f := { f with user := u }) hG hS hedge x rfl)
  · rcases hiter : rt.iter isAsync v u with ⟨x | it, w⟩
    · have hop : runOp rt B f (.storeIter (.iter g.tmp) isAsync iter) = .error (x, w) := by
        simp only [runOp, hgiven, huser, heval, hiter]
      simp only [stepStmt, heval, hiter]
      exact Machine.Answers.arrive (step_op_error rt hop)
        (corresponds_throw (f := { f with user := w }) hG hS hedge x rfl)
    · have hop : runOp rt B f (.storeIter (.iter g.tmp) isAsync iter) =
          .ok (({ f with user := w } : Frame V X St).set (.iter g.tmp) (.obj it)) := by
        simp only [runOp, hgiven, huser, heval, hiter]
      simp only [stepStmt, heval, hiter]
      have hS' : Surrounds rt G F (({ f with user := w } : Frame V X St).set (.iter g.tmp)
          (.obj it)).slots k t ms n := hS.congr (AgreeBelow.update_iter f.slots (.obj it) hn)
      refine Machine.Answers.arrive (step_op rt hop) ⟨t.nestedWithLoop g.label ⟨r.entry, g.label⟩,
        ms, g.tmp + 2, ({ f with user := w } : Frame V X St).set (.iter g.tmp) (.obj it),
        .forLoop (.seq hS' ⟨hplaced.left.left, hbelow, Nat.le_trans hn (Nat.le_add_right _ 2)⟩) hn
          ⟨hplaced.left.right, hbelow.mono hrl, hrt⟩
          ⟨hplaced.right, hbelow.mono (by omega), by omega⟩ hown hhead
          (Frame.set_slots_self _ _ _), rfl, ?_, _, rfl, ?_⟩
      · intro z hz
        obtain ⟨i, rfl⟩ := (ExcNamed.of hS.wellNamed excNamed_none) z hz
        rw [Frame.set_slots_ne _ _ (by simp)]
        exact hcaught _ hz
      · exact .jumps B hterm hcarries htidy

/-- A block that only jumps, once its prefix has run. -/
theorem leaving_jump (hw : ∀ p ∈ ms, p.WellNamed) {label target : ℕ} {exc : Option ℕ}
    (hb : b = sequenceJumpBlock label linear target exc) :
    Leaving ms target f .jumps
      (.inside (applyAll ms b) ((applyAll ms b).body.drop linear.length) f) := by
  subst hb
  have hplain := plain_applyAll (b := sequenceJumpBlock label linear target exc) hw rfl
    (by simp [sequenceJumpBlock, Settled])
  rw [hplain.body, show (sequenceJumpBlock label linear target exc : Block E T).body = linear
    from rfl, List.drop_length]
  exact .jumps _ hplain.term hplain.carries hplain.tidy

/-- A `break` or `continue`, once the prefix has run. -/
theorem Ready.leaving_loop {stmt : Stmt E T true} {rest : Stmts E T true}
    (hw : ∀ p ∈ ms, p.WellNamed) (hfits : Fits true t) (h : Ready G ms n stmt rest t g linear b)
    (label : LoopLabels → ℕ)
    (hlower : lowerHead stmt (lowerStmts rest) = lowerLoopJump label) :
    ∃ loopLabels, t.loopLabels = some loopLabels ∧ Leaving ms (label loopLabels) f .jumps
      (.inside (applyAll ms b) ((applyAll ms b).body.drop linear.length) f) := by
  obtain ⟨loopLabels, hloop⟩ := Option.isSome_iff_exists.mp (hfits rfl)
  have hentry := h.entry
  rw [hlower] at hentry
  have hlowered : lowerLoopJump label linear t g =
      ⟨g.label, [sequenceJumpBlock g.label linear (label loopLabels) t.activeExc],
        ⟨g.label + 1, g.tmp⟩⟩ := by
    unfold lowerLoopJump
    rw [hloop]
  have hb : b = sequenceJumpBlock g.label linear (label loopLabels) t.activeExc :=
    hentry.unique (lowerLoopJump_fresh label) (by rw [hlowered]; exact List.mem_singleton.mpr rfl)
      (by rw [hlowered]; rfl)
  exact ⟨loopLabels, hloop, leaving_jump hw hb⟩

theorem answers_break {k : Kont E T V X true} {rest : Stmts E T true}
    (hS : Surrounds rt G F f.slots k t ms n) (huser : f.user = s.user)
    (hcaught : CaughtAt rt ms s f) (h : Ready G ms n .breakStmt rest t g linear b) (x : Bool)
    (s₀ : State X St) :
    Answered rt G F (.run (.cons x .breakStmt rest) k s₀)
      (.inside (applyAll ms b) ((applyAll ms b).body.drop linear.length) f)
      (.inl (stepStmt rt .lowered .breakStmt rest k s)) := by
  obtain ⟨loopLabels, hloop, hleaving⟩ := h.leaving_loop (f := f) hS.wellNamed hS.fits
    (·.breakLabel) rfl
  refine Machine.Answers.stay ⟨t, ms, n, f, hS, huser, hcaught, loopLabels, hloop, hleaving⟩ ?_
  simp [stepStmt]
  omega

theorem answers_continue {k : Kont E T V X true} {rest : Stmts E T true}
    (hS : Surrounds rt G F f.slots k t ms n) (huser : f.user = s.user)
    (hcaught : CaughtAt rt ms s f) (h : Ready G ms n .continueStmt rest t g linear b) (x : Bool)
    (s₀ : State X St) :
    Answered rt G F (.run (.cons x .continueStmt rest) k s₀)
      (.inside (applyAll ms b) ((applyAll ms b).body.drop linear.length) f)
      (.inl (stepStmt rt .lowered .continueStmt rest k s)) := by
  obtain ⟨loopLabels, hloop, hleaving⟩ := h.leaving_loop (f := f) hS.wellNamed hS.fits
    (·.continueLabel) rfl
  refine Machine.Answers.stay ⟨t, ms, n, f, hS, huser, hcaught, loopLabels, hloop, hleaving⟩ ?_
  simp [stepStmt]
  omega

/-! ## `try` -/

/-- A sequence whose exception parameter is the one of the regions around it. -/
theorem carries_congr {ms' : List Pass} (h : Carries b ms) (hexc : excOf ms' none = excOf ms none) :
    Carries b ms' := fun x hx => h x (hexc ▸ hx)

/-- The block of a `try` statement jumps to the body. -/
theorem answers_body (hG : G.Ok) {k' : Kont E T V X l} {t' : RegionTargets} {ms' : List Pass}
    {n' : ℕ} (hw : ∀ p ∈ ms, p.WellNamed) (hS : Surrounds rt G F f.slots k' t' ms' n')
    (huser : f.user = s.user) (hcaught : CaughtAt rt ms' s f)
    (hexc : excOf ms' none = excOf ms none)
    {body : Stmts E T l} {g : Gen} (hbody : Lies G ms' n' body t' g) {label : ℕ} {exc : Option ℕ}
    (hb : b = sequenceJumpBlock label linear (lowerStmts body [] t' g).entry exc)
    {c : Config E T V X St}
    (hweight : ∀ s' : State X St, (Config.unwind .normal k' s').weight < c.weight) :
    Answered rt G F c (.inside (applyAll ms b) ((applyAll ms b).body.drop linear.length) f)
      (.inl (enterBody body k' s)) := by
  subst hb
  have hplain := plain_applyAll
    (b := sequenceJumpBlock label linear (lowerStmts body [] t' g).entry exc) hw rfl
    (by simp [sequenceJumpBlock, Settled])
  have hcarry : Carries _ ms' := carries_congr hplain.carries hexc
  rw [hplain.body, show (sequenceJumpBlock label linear (lowerStmts body [] t' g).entry exc :
    Block E T).body = linear from rfl, List.drop_length]
  cases body with
  | nil =>
    exact Machine.Answers.stay
      ⟨t', ms', n', f, hS, huser, hcaught, .jumps _ hplain.term hcarry hplain.tidy⟩ (hweight _)
  | cons x first more =>
    exact Machine.Answers.arrive
      (step_jump rt hplain.term hcarry (fun _ => hbody.entry_params hG hS.wellNamed hS.fits) f)
      ⟨t', ms', n', f, hS, huser, hcaught, .branched g hbody⟩

section Try

variable {finalbody : Stmts E T l} {y : Name} {cleanup : ℕ} {cleanupExc : Option ℕ}
  {ret : Option (ℕ × Name)} {bound : ℕ}

theorem excOf_region (ret : Option (ℕ × Name)) (ms : List Pass) :
    excOf (retPass ret ++ ms) none = excOf ms none := excOf_retPass ret ms none

theorem below_retPass (ret : Option (ℕ × Name)) {lo : ℕ} (h : Below ms lo) :
    Below (retPass ret ++ ms) lo := fun x hx => h x (by simpa using hx)

/-- The body of a `try` with a handler, with the blocks of the handler and of `else`. -/
theorem surrounds_tryBody {slots : Name → Slot V X} (hS : Surrounds rt G F slots k t ms n)
    (hc : Cleanup G t ms n finalbody y cleanup cleanupExc ret bound) {body orelse : Stmts E T l}
    {first : Stmt E T l} {more : Stmts E T l}
    (hp : Placed G ms (lowerTryBodies (lowerStmts body) (lowerStmts orelse)
      (some (lowerHead first (lowerStmts more))) y ret cleanup cleanupExc t g).blocks)
    (hbelow : Below ms g.label) (hn : bound ≤ g.tmp) :
    ∃ t' gb, Surrounds rt G F slots (.tryBody first more orelse finalbody k) t'
        (retPass ret ++ ms) bound ∧
      Lies G (retPass ret ++ ms) bound body t' gb ∧
      (lowerTryBodies (lowerStmts body) (lowerStmts orelse)
        (some (lowerHead first (lowerStmts more))) y ret cleanup cleanupExc t g).entry =
        (lowerStmts body [] t' gb).entry := by
  let u : RegionTargets := ⟨cleanup, t.loopLabels, cleanupExc⟩
  let o := lowerStmts orelse [] u g
  let h := lowerStmts (.cons false first more) [] u o.gen
  have ho := lowerStmts_fresh orelse [] u g
  have hh := lowerStmts_fresh (.cons false first more) [] u o.gen
  have hbo : Below ms o.gen.label := hbelow.mono ho.label_le
  have hbh : Below ms h.gen.label := hbo.mono hh.label_le
  have hno : bound ≤ o.gen.tmp := Nat.le_trans hn ho.tmp_le
  have hp₁ : Placed G ms (returnsTo ret o.blocks) := Placed.left (Placed.left hp)
  have hp₂ : Placed G (.regionExcParam y :: ms) (returnsTo ret h.blocks) :=
    Placed.pass (Placed.right (Placed.left hp))
  refine ⟨_, h.gen, .tryBody hS hc ⟨hp₁.returnsTo, below_retPass ret hbelow, hn⟩
    ⟨hp₂.returnsTo, below_retPass ret hbo, hno⟩, ⟨(Placed.right hp).returnsTo,
      below_retPass ret hbh, Nat.le_trans hno hh.tmp_le⟩, rfl⟩

/-- The body of a `try` with nothing but a `finally`. -/
theorem surrounds_guarded {slots : Name → Slot V X} (hS : Surrounds rt G F slots k t ms n)
    (hc : Cleanup G t ms n finalbody y cleanup cleanupExc ret bound) {body : Stmts E T l}
    (hp : Placed G ms (lowerTryBodies (lowerStmts body) lowerEnd none y ret cleanup cleanupExc t
      g).blocks) (hbelow : Below ms g.label) (hn : bound ≤ g.tmp) :
    Surrounds rt G F slots (.guarded finalbody k) ⟨cleanup, t.loopLabels, cleanupExc⟩
        (retPass ret ++ ms) bound ∧
      Lies G (retPass ret ++ ms) bound body ⟨cleanup, t.loopLabels, cleanupExc⟩ g :=
  ⟨.guarded hS hc, (Placed.right hp).returnsTo, below_retPass ret hbelow, hn⟩

/-- The `finally` body of a `try`, with what follows the statement. -/
theorem cleanup_finally (hS : Surrounds rt G F f.slots k t ms n) {x : Bool} {first : Stmt E T l}
    {more : Stmts E T l} {r : Lowered E T} (hr : r = lowerStmts rest [] t ⟨g.label + 4, g.tmp + 3⟩)
    {region : FinallyRegion E T}
    (heq : region = lowerFinallyRegion (lowerStmts (.cons x first more)) (exceptExcName g)
      (finallyPlan g) t r.gen)
    (hp : Placed G ms (r.blocks ++ region.blocks ++
      finallyDispatchBlocks (finallyPlan g) r.entry t.activeExc))
    (hbelow : BelowBut ms g.label (g.label + 3)) (hn : n ≤ g.tmp) :
    Surrounds rt G F f.slots (.seq rest k) (t.nested r.entry) ms n ∧
      Cleanup G (t.nested r.entry) ms n (.cons x first more) (exceptExcName g) region.normalEntry
        (some region.exceptionEntry) (some (region.finallyLabel, (finallyPlan g).abruptPayload))
        (g.tmp + 3) ∧
      Below ms region.gen.label ∧ g.tmp + 3 ≤ region.gen.tmp := by
  have hb : Below ms (g.label + 4) := hbelow.below (Nat.le_add_right _ 4) (Nat.lt_succ_self _)
  have hrl : g.label + 4 ≤ r.gen.label :=
    hr ▸ (lowerStmts_fresh rest [] t ⟨g.label + 4, g.tmp + 3⟩).label_le
  have hrt : g.tmp + 3 ≤ r.gen.tmp :=
    hr ▸ (lowerStmts_fresh rest [] t ⟨g.label + 4, g.tmp + 3⟩).tmp_le
  have hdraws := lowerFinallyRegion_draws (lowerStmts_fresh (.cons x first more))
    (exceptExcName g) (finallyPlan g) t r.gen
  have hrest : Lies G ms n rest t ⟨g.label + 4, g.tmp + 3⟩ :=
    ⟨hr ▸ hp.left.left, hb, Nat.le_trans hn (Nat.le_add_right _ 3)⟩
  rw [← heq] at hdraws
  refine ⟨?_, ?_, hb.mono (Nat.le_trans hrl hdraws.label_le), Nat.le_trans hrt hdraws.tmp_le⟩
  · subst hr
    exact .seq hS hrest
  · have hregion := hp.left.right
    have hdispatch := hp.right
    subst heq
    exact .withFinal g r.gen hregion hdispatch hbelow hrl hn hrt

theorem CaughtAt.retPass (hcaught : CaughtAt rt ms s f) (ret : Option (ℕ × Name)) :
    CaughtAt rt (retPass ret ++ ms) s f := fun x hx => hcaught x (excOf_region ret ms ▸ hx)

/-- A `try` with a handler and no `finally`. -/
theorem answers_tryExcept (hG : G.Ok) (hS : Surrounds rt G F f.slots k t ms n)
    (huser : f.user = s.user) (hcaught : CaughtAt rt ms s f) {body : Stmts E T l}
    {first : Stmt E T l} {more orelse : Stmts E T l}
    (h : Ready G ms n (.tryExcept body first more orelse .nil) rest t g linear b) (x : Bool)
    (s₀ : State X St) :
    Answered rt G F (.run (.cons x (.tryExcept body first more orelse .nil) rest) k s₀)
      (.inside (applyAll ms b) ((applyAll ms b).body.drop linear.length) f)
      (.inl (enterBody body (.tryBody first more orelse .nil (.seq rest k)) s)) := by
  let r := lowerStmts rest [] t ⟨g.label + 1, g.tmp + 1⟩
  have hr := lowerStmts_fresh rest [] t ⟨g.label + 1, g.tmp + 1⟩
  have hbelow : Below ms (g.label + 1) := h.below.below (Nat.le_succ _) (Nat.lt_succ_self _)
  have hplaced := h.placed
  have hn : n ≤ g.tmp + 1 := Nat.le_succ_of_le h.names
  have hS' : Surrounds rt G F f.slots (.seq rest k) (t.nested r.entry) ms n :=
    .seq hS ⟨(Placed.left (Placed.left hplaced)), hbelow, hn⟩
  obtain ⟨t', gb, hbody, hlies, hentry⟩ := surrounds_tryBody (g := r.gen) hS'
    (.noFinal g.tmp) (Placed.right (Placed.left hplaced)) (hbelow.mono hr.label_le)
    (Nat.le_trans hn hr.tmp_le)
  have hb := h.entry.unique
    (lowerStmts_fresh (.cons false (.tryExcept body first more orelse .nil) rest))
    (List.mem_append_right _ (List.mem_singleton.mpr rfl)) rfl
  refine answers_body hG hS.wellNamed hbody huser (hcaught.retPass none) rfl hlies
    (hb.trans (congrArg (sequenceJumpBlock g.label linear · t.activeExc) hentry)) fun s' => ?_
  simp
  omega

/-- A `try` with a handler and a `finally` body. -/
theorem answers_tryExceptFinally (hG : G.Ok) (hS : Surrounds rt G F f.slots k t ms n)
    (huser : f.user = s.user) (hcaught : CaughtAt rt ms s f) {body : Stmts E T l}
    {first : Stmt E T l} {more orelse : Stmts E T l} {x₁ : Bool} {first₁ : Stmt E T l}
    {more₁ : Stmts E T l}
    (h : Ready G ms n (.tryExcept body first more orelse (.cons x₁ first₁ more₁)) rest t g linear b)
    (x : Bool) (s₀ : State X St) :
    Answered rt G F (.run (.cons x (.tryExcept body first more orelse (.cons x₁ first₁ more₁)) rest)
        k s₀)
      (.inside (applyAll ms b) ((applyAll ms b).body.drop linear.length) f)
      (.inl (enterBody body (.tryBody first more orelse (.cons x₁ first₁ more₁) (.seq rest k))
        s)) := by
  have hplaced := h.placed
  have hblocks := Placed.left hplaced
  obtain ⟨hS', hc, hbelow, hn⟩ := cleanup_finally hS rfl rfl (Placed.left hblocks) h.below h.names
  obtain ⟨t', gb, hbody, hlies, hentry⟩ := surrounds_tryBody hS' hc (Placed.right hblocks) hbelow hn
  have hb := h.entry.unique (lowerStmts_fresh (.cons false
    (.tryExcept body first more orelse (.cons x₁ first₁ more₁)) rest))
    (List.mem_append_right _ (List.mem_singleton.mpr rfl)) rfl
  refine answers_body hG hS.wellNamed hbody huser (hcaught.retPass _) (excOf_region _ _) hlies
    (hb.trans (congrArg (sequenceJumpBlock (g.label + 3) linear · t.activeExc) hentry)) fun s' => ?_
  simp
  omega

/-- A `try` with a `finally` body and no handler. -/
theorem answers_tryFinally (hG : G.Ok) (hS : Surrounds rt G F f.slots k t ms n)
    (huser : f.user = s.user) (hcaught : CaughtAt rt ms s f) {body : Stmts E T l}
    {first : Stmt E T l} {more : Stmts E T l}
    (h : Ready G ms n (.tryFinally body first more) rest t g linear b) (x : Bool)
    (s₀ : State X St) :
    Answered rt G F (.run (.cons x (.tryFinally body first more) rest) k s₀)
      (.inside (applyAll ms b) ((applyAll ms b).body.drop linear.length) f)
      (.inl (enterBody body (.guarded (.cons false first more) (.seq rest k)) s)) := by
  have hlower : lowerHead (.tryFinally body first more) (lowerStmts rest) =
      lowerTryFinally (lowerStmts body) lowerEnd none (lowerStmts (.cons false first more))
        (lowerStmts rest) := rfl
  obtain ⟨hplaced, hentry, hbut, hn⟩ := h
  rw [hlower] at hplaced hentry hbut
  have hblocks := Placed.left hplaced
  obtain ⟨hS', hc, hbelow, hn⟩ := cleanup_finally hS rfl rfl (Placed.left hblocks) hbut hn
  obtain ⟨hbody, hlies⟩ := surrounds_guarded hS' hc (Placed.right hblocks) hbelow hn
  have hb := hentry.unique
    (hlower ▸ lowerStmts_fresh (.cons false (.tryFinally body first more) rest))
    (List.mem_append_right _ (List.mem_singleton.mpr rfl)) rfl
  refine answers_body hG hS.wellNamed hbody huser (hcaught.retPass _) (excOf_region _ _) hlies hb
    fun s' => ?_
  simp
  omega

end Try

/-! ## Statements -/

/-- **Running a statement is answered.** -/
theorem answers_stmt (hG : G.Ok) (hS : Surrounds rt G F f.slots k t ms n)
    (huser : f.user = s.user) (hcaught : CaughtAt rt ms s f) {expanded : Bool} {stmt : Stmt E T l}
    {p : Place E T V X St}
    (h : Standing G ms n (.cons expanded stmt rest) t f s.arrival p) :
    Answered rt G F (.run (.cons expanded stmt rest) k s) p
      (.inl (stepStmt rt .lowered stmt rest k (s.settle expanded))) := by
  obtain ⟨j, p', hj, h'⟩ := settle_standing hG hS h
  refine Machine.Answers.after hj ?_
  have hcaught' : CaughtAt rt ms (s.settle expanded) f := hcaught
  have huser' : f.user = (s.settle expanded).user := huser
  generalize s.settle expanded = s' at *
  obtain ⟨i, g, linear, b, hi, hready⟩ := enter_standing hG hS h'
  cases stmt with
  | whileStmt test body orelse => exact answers_while hS huser' hcaught' h'
  | simple e => exact .after hi (answers_simple hG hS huser' hcaught' hready _)
  | raiseStmt exc => exact .after hi (answers_raise hG hS huser' hcaught' hready _)
  | returnStmt value => exact .after hi (answers_return hG hS huser' hcaught' hready _)
  | ifStmt test body orelse => exact .after hi (answers_if hG hS huser' hcaught' hready _)
  | forStmt isAsync target iter body orelse =>
    exact .after hi (answers_for hG hS huser' hcaught' hready _)
  | breakStmt => exact .after hi (answers_break hS huser' hcaught' hready expanded s)
  | continueStmt => exact .after hi (answers_continue hS huser' hcaught' hready expanded s)
  | tryExcept body first more orelse finalbody =>
    cases finalbody with
    | nil => exact .after hi (answers_tryExcept hG hS huser' hcaught' hready expanded s)
    | cons => exact .after hi (answers_tryExceptFinally hG hS huser' hcaught' hready expanded s)
  | tryFinally body first more =>
    exact .after hi (answers_tryFinally hG hS huser' hcaught' hready expanded s)

end DietPython.ControlFlow
