import DietPython.ControlFlow.Correspondence

/-!
# The graph follows the statements

Each step that runs a statement is answered by the graph: from the entry of what is lowered it
enters the block, and from inside the block it runs the operation or the terminator that the
statement has been lowered to.
-/

namespace DietPython.ControlFlow

open Machines

variable {E T V X St : Type} {rt : Runtime E T V X St} {G : Graph E T}
  {F : Floor G V X}

/-! ## Steps of a graph -/

section Steps

variable (rt)

theorem step_goto {label : ℕ} {b : Block E T} (h : G.find label = some b) (f : Frame V X St) :
    (blocks rt G).step (.goto label f) = .inl (.inside b b.body f) := by
  show graphStep rt G (.goto label f) = _
  unfold graphStep
  simp only [h]

theorem step_op {b : Block E T} {op : Op E T} {ops : List (Op E T)} {f f' : Frame V X St}
    (h : runOp rt b f op = .ok f') :
    (blocks rt G).step (.inside b (op :: ops) f) = .inl (.inside b ops f') := by
  show graphStep rt G (.inside b (op :: ops) f) = _
  unfold graphStep
  simp only [h]

theorem step_op_error {b : Block E T} {op : Op E T} {ops : List (Op E T)} {f : Frame V X St}
    {x : X} {u : St} (h : runOp rt b f op = .error (x, u)) :
    (blocks rt G).step (.inside b (op :: ops) f) =
      .inl (throwFrom rt G b x { f with user := u }) := by
  show graphStep rt G (.inside b (op :: ops) f) = _
  unfold graphStep
  simp only [h]

theorem step_term {b : Block E T} {term : BlockTerm E} (h : b.term = term) (f : Frame V X St) :
    (blocks rt G).step (.inside b [] f) = .inl (runTerm rt G b f term) := by
  subst h
  rfl

/-- A jump to a block with no parameter of its own. -/
theorem step_jump {b : Block E T} {label : ℕ} {ms : List Pass} (hterm : b.term = .jump ⟨label, []⟩)
    (hcarry : Carries b ms)
    (htarget : ∀ b', G.find label = some b' → b'.params = excParams (excOf ms none))
    (f : Frame V X St) : (blocks rt G).step (.inside b [] f) = .inl (.goto label f) := by
  rw [step_term rt hterm f]
  show Sum.inl (jumpFrom rt G b ⟨label, []⟩ f) = _
  rw [jumpFrom_plain rt htarget hcarry]

/-- The test of a `for` loop, when the iterator is exhausted. -/
theorem step_exhausted {b : Block E T} {tmp : Name} {thenLabel elseLabel : ℕ}
    (hterm : b.term = .ifTerm (.iterComplete tmp) thenLabel elseLabel) {f : Frame V X St}
    (h : f.slots tmp = .iterComplete) :
    (blocks rt G).step (.inside b [] f) = .inl (.goto thenLabel f) := by
  rw [step_term rt hterm]
  simp only [runTerm, h]

/-- The test of a `for` loop, when there is a value. -/
theorem step_value {b : Block E T} {tmp : Name} {thenLabel elseLabel : ℕ}
    (hterm : b.term = .ifTerm (.iterComplete tmp) thenLabel elseLabel) {f : Frame V X St} {v : V}
    (h : f.slots tmp = .obj v) :
    (blocks rt G).step (.inside b [] f) = .inl (.goto elseLabel f) := by
  rw [step_term rt hterm]
  simp only [runTerm, h]

end Steps

/-! ## Where a statement stands -/

theorem body_prefix_applyAll (ms : List Pass) (b : Block E T) :
    b.body <+: (applyAll ms b).body := by
  induction ms generalizing b with
  | nil => exact List.prefix_refl _
  | cons p ms ih =>
    have hone : b.body <+: (p.apply b).body := by
      cases p with
      | returnsToFinally label payload =>
        show b.body <+: (rewriteReturnToFinally label payload b).body
        unfold rewriteReturnToFinally
        split
        · exact List.prefix_append _ _
        · exact List.prefix_refl _
      | finallyParams label kind payload =>
        show b.body <+: (addFinallyParams label kind payload b).body
        unfold addFinallyParams Block.ensureParam
        repeat' split
        all_goals exact List.prefix_refl _
      | regionExcParam x =>
        show b.body <+: (setRegionExcParam x b).body
        unfold setRegionExcParam renameExceptionEdgeArgs Block.setExceptionParam
        repeat' split
        all_goals exact List.prefix_refl _
    exact hone.trans (ih _)

/-- What the passes leave of a block that neither returns nor has parameters. -/
structure Plain (ms : List Pass) (b B : Block E T) : Prop where
  body : B.body = b.body
  term : B.term = b.term
  excEdge : B.excEdge = b.excEdge
  exceptionParam : B.exceptionParam = excOf ms none
  carries : Carries B ms
  tidy : B.Tidy

theorem plain_applyAll {ms : List Pass} {b : Block E T} (hw : ∀ p ∈ ms, p.WellNamed)
    (hparams : b.params = []) (hs : Settled b.term) : Plain ms b (applyAll ms b) := by
  have hnone : b.exceptionParam = none := by
    unfold Block.exceptionParam
    rw [hparams]
    rfl
  obtain ⟨hbody, hterm⟩ := applyAll_settled hw (hnone ▸ excNamed_none) hs
  obtain ⟨hparam, hcarry⟩ := carries_applyAll ms hparams
  exact ⟨hbody, hterm, applyAll_excEdge ms b, hparam, hcarry,
    applyAll_tidy hw (tidy_of_nil hparams)⟩

/-- The entry block is the only block with the entry label. -/
theorem IsEntry.unique {lower : Lower E T} (hf : Fresh lower) {linear : List (Op E T)}
    {t : RegionTargets} {g : Gen} {b b' : Block E T} (h : IsEntry lower linear t g b)
    (hmem : b' ∈ (lower linear t g).blocks) (hlabel : b'.label = (lower linear t g).entry) :
    b = b' :=
  List.inj_on_of_nodup_map (hf linear t g).span.nodup h.mem hmem (h.label.trans hlabel.symm)

/-- The lowering of a statement, with what follows it, stands in the graph behind a prefix. -/
structure Ready (G : Graph E T) (ms : List Pass) (n : ℕ) {l : Bool} (stmt : Stmt E T l)
    (rest : Stmts E T l) (t : RegionTargets) (g : Gen) (linear : List (Op E T))
    (b : Block E T) : Prop where
  placed : Placed G ms (lowerHead stmt (lowerStmts rest) linear t g).blocks
  entry : IsEntry (lowerHead stmt (lowerStmts rest)) linear t g b
  below : BelowBut ms g.label (lowerHead stmt (lowerStmts rest) linear t g).entry
  names : n ≤ g.tmp

section Where

variable {l : Bool} {k : Kont E T V X l} {t : RegionTargets} {ms : List Pass} {n : ℕ}
  {stmt : Stmt E T l} {rest : Stmts E T l} {f : Frame V X St} {p : Place E T V X St}

/-- The block in front of an expansion jumps to it. -/
theorem settle_standing (hG : G.Ok) (hS : Surrounds rt G F f.slots k t ms n) {s : State X St}
    {expanded : Bool} (h : Standing G ms n (.cons expanded stmt rest) t f s.arrival p) :
    ∃ j p', (blocks rt G).after j p = some p' ∧
      Standing G ms n (.cons false stmt rest) t f (s.settle expanded).arrival p' := by
  cases expanded with
  | false => exact ⟨0, p, rfl, by simpa [State.settle] using h⟩
  | true =>
    generalize ha : s.arrival = a at h
    have hsettle : (s.settle true).arrival = if a = .jumps then .branched else a := by
      simp [State.settle, ha]
    rw [hsettle]
    cases h with
    | branched g h => exact ⟨0, _, rfl, .branched g ⟨h.placed, h.below, h.names⟩⟩
    | opens g hplaced hbelow hn hne kind payload hentry hmark =>
      exact ⟨0, _, rfl, .opens g hplaced hbelow hn (by simp) kind payload hentry hmark⟩
    | jumps g linear b hlinear hplaced hb hbelow hn =>
      obtain ⟨op, linear, rfl⟩ := List.exists_cons_of_ne_nil hlinear
      let g' : Gen := ⟨g.label + 1, g.tmp⟩
      let r := lowerHead stmt (lowerStmts rest) [] t g'
      have hjump : b = sequenceJumpBlock g.label (op :: linear) r.entry t.activeExc :=
        hb.unique (lowerStmts_fresh (.cons true stmt rest))
          (List.mem_append_right _ (List.mem_singleton.mpr rfl)) rfl
      obtain ⟨hbody, hterm⟩ := applyAll_settled (b := b) hS.wellNamed
        (by rw [hjump]; exact excNamed_none) (by rw [hjump]; simp [sequenceJumpBlock, Settled])
      have hbelow' : Below ms g'.label := hbelow.below (Nat.le_succ _) (Nat.lt_succ_self _)
      have hplaced' : Placed G ms r.blocks := Placed.left hplaced
      have hlies : Lies G ms n (.cons false stmt rest) t g' := ⟨hplaced', hbelow', hn⟩
      have hcarry : Carries (applyAll ms b) ms :=
        (carries_applyAll ms (by rw [hjump]; rfl)).2
      have hdrop : (applyAll ms b).body.drop (op :: linear).length = [] := by
        rw [hbody, hjump]
        exact List.drop_length
      rw [hdrop]
      exact ⟨1, .goto r.entry f, (blocks rt G).after_succ_of_step (step_jump rt
        (hterm.trans (by rw [hjump]; rfl)) hcarry
          (fun _ => hlies.entry_params hG hS.wellNamed hS.fits) f) 0, .branched g' hlies⟩

/-- From where a statement stands, the graph gets into the block that runs it. -/
theorem enter_standing (hG : G.Ok) (hS : Surrounds rt G F f.slots k t ms n) {a : Arrival}
    (h : Standing G ms n (.cons false stmt rest) t f a p) :
    ∃ j g linear b, (blocks rt G).after j p =
        some (.inside (applyAll ms b) ((applyAll ms b).body.drop linear.length) f) ∧
      Ready G ms n stmt rest t g linear b := by
  have hgoto : ∀ g, Placed G ms (lowerStmts (.cons false stmt rest) [] t g).blocks →
      BelowBut ms g.label (lowerStmts (.cons false stmt rest) [] t g).entry → n ≤ g.tmp →
      p = .goto (lowerStmts (.cons false stmt rest) [] t g).entry f →
      ∃ j g linear b, (blocks rt G).after j p =
          some (.inside (applyAll ms b) ((applyAll ms b).body.drop linear.length) f) ∧
        Ready G ms n stmt rest t g linear b := by
    rintro g hplaced hbelow hn rfl
    obtain ⟨b, hb⟩ := lowerStmts_entry [] t g (.cons false stmt rest) hS.fits (.inr (by simp))
    have hfind := hG.find_placed hplaced hb.mem
    rw [hb.label] at hfind
    exact ⟨1, g, [], b, (blocks rt G).after_succ_of_step (step_goto rt hfind f) 0,
      ⟨hplaced, hb, hbelow, hn⟩⟩
  cases h with
  | branched g h => exact hgoto g h.placed (h.below.but _) h.names rfl
  | opens g hplaced hbelow hn hne kind payload hentry hmark => exact hgoto g hplaced hbelow hn rfl
  | jumps g linear b hlinear hplaced hb hbelow hn =>
    exact ⟨0, g, linear, b, rfl, ⟨hplaced, hb, hbelow, hn⟩⟩

end Where

/-! ## Exceptions -/

/-- The graph answers a step. -/
abbrev Answered (rt : Runtime E T V X St) (G : Graph E T) (F : Floor G V X) (c : Config E T V X St)
    (p : Place E T V X St) (o : Config E T V X St ⊕ Outcome V X St) : Prop :=
  (blocks rt G).Answers (Corresponds rt G F) Eq Config.weight c p o

section Statements

variable {l : Bool} {k : Kont E T V X l} {t : RegionTargets} {ms : List Pass} {n : ℕ}
  {f : Frame V X St} {s : State X St}

/-- An exception that leaves a block arrives where the continuation handles it. -/
theorem corresponds_throw (hG : G.Ok) (hS : Surrounds rt G F f.slots k t ms n) {b : Block E T}
    (hb : b.excEdge = t.activeExc) (e : X) (hu : f.user = s.user) :
    Corresponds rt G F (.unwind (.exc e) k s) (throwFrom rt G b e f) := by
  cases hexc : t.activeExc with
  | none =>
    refine ⟨t, ms, n, f, hS, hu, ?_⟩
    simp only [Carrying, hexc]
    rw [throwFrom_none rt (hb.trans hexc)]
  | some label =>
    obtain ⟨target, m, hfind, hparams, hthrow⟩ :=
      throwFrom_handler rt (hb.trans hexc) (hS.handlerAt hG label hexc) e f
    refine ⟨t, ms, n, f.set (.tryExc m) (.exc e), hS.congr (AgreeBelow.update_tryExc _ _ _), hu, ?_⟩
    simp only [Carrying, hexc]
    exact ⟨target, m, hfind, hparams, f.set_slots_self _ _, hthrow⟩

/-! ## Simple statements, `raise` and `return` -/

variable {stmt : Stmt E T l} {rest : Stmts E T l} {g : Gen} {linear : List (Op E T)}
  {b : Block E T}

theorem Ready.excEdge (h : Ready G ms n stmt rest t g linear b) :
    (applyAll ms b).excEdge = t.activeExc := by
  rw [applyAll_excEdge, h.entry.excEdge]

theorem Ready.exceptionParam (h : Ready G ms n stmt rest t g linear b) :
    (applyAll ms b).exceptionParam = excOf ms none := (carries_applyAll ms h.entry.params).1

theorem Ready.carries (h : Ready G ms n stmt rest t g linear b) : Carries (applyAll ms b) ms :=
  (carries_applyAll ms h.entry.params).2

theorem Ready.excNamed (h : Ready G ms n stmt rest t g linear b) : ExcNamed b.exceptionParam := by
  rw [exceptionParam_congr (c := (⟨0, [], b.term, [], none⟩ : Block E T)) h.entry.params]
  exact excNamed_none

/-- A block that the passes leave alone, once its prefix has run. -/
theorem Ready.settled (h : Ready G ms n stmt rest t g linear b) (hw : ∀ p ∈ ms, p.WellNamed)
    {ops : List (Op E T)} (hbody : b.body = linear ++ ops) (hs : Settled b.term) :
    (applyAll ms b).body.drop linear.length = ops ∧ (applyAll ms b).term = b.term := by
  obtain ⟨hbody', hterm⟩ := applyAll_settled hw h.excNamed hs
  rw [hbody', hbody, List.drop_left]
  exact ⟨rfl, hterm⟩

theorem answers_simple (hG : G.Ok) (hS : Surrounds rt G F f.slots k t ms n)
    (huser : f.user = s.user) (hcaught : CaughtAt rt ms s f) {e : E}
    (h : Ready G ms n (.simple e) rest t g linear b) (c : Config E T V X St) :
    Answered rt G F c (.inside (applyAll ms b) ((applyAll ms b).body.drop linear.length) f)
      (.inl (stepStmt rt .lowered (.simple e) rest k s)) := by
  -- what follows is lowered behind the longer prefix, and its entry is the same block
  obtain ⟨b', hb'⟩ := lowerStmts_entry (linear ++ [.simple e]) t g rest hS.fits (.inl (by simp))
  obtain rfl : b = b' := h.entry.unique
    (lowerStmts_fresh (.cons false (.simple e) rest)) hb'.mem hb'.label
  obtain ⟨tail, htail⟩ := hb'.body.trans (body_prefix_applyAll ms b)
  have hdrop : (applyAll ms b).body.drop linear.length =
      .simple e :: (applyAll ms b).body.drop (linear ++ [Op.simple e]).length := by
    rw [← htail, List.drop_left, List.append_assoc, List.drop_left]
    rfl
  have hgiven := given_current rt hS.inRegion_eq hcaught h.exceptionParam e
  rw [hdrop]
  rcases heval : rt.eval e (givenTo rt .lowered e k s) s.user with ⟨x | v, u⟩
  · have hop : runOp rt (applyAll ms b) f (.simple e) = .error (x, u) := by
      simp only [runOp, hgiven, huser, heval]
    simp only [stepStmt, heval]
    exact Machine.Answers.arrive (step_op_error rt hop)
      (corresponds_throw (f := { f with user := u }) hG hS h.excEdge x rfl)
  · have hop : runOp rt (applyAll ms b) f (.simple e) = .ok { f with user := u } := by
      simp only [runOp, hgiven, huser, heval]
    simp only [stepStmt, heval]
    exact Machine.Answers.arrive (step_op rt hop) ⟨t, ms, n, { f with user := u }, hS, rfl, hcaught,
      .jumps g (linear ++ [.simple e]) b (by simp) h.placed hb' h.below h.names⟩

theorem answers_raise (hG : G.Ok) (hS : Surrounds rt G F f.slots k t ms n)
    (huser : f.user = s.user) (hcaught : CaughtAt rt ms s f) {exc : Option E}
    (h : Ready G ms n (.raiseStmt exc) rest t g linear b) (c : Config E T V X St) :
    Answered rt G F c (.inside (applyAll ms b) ((applyAll ms b).body.drop linear.length) f)
      (.inl (stepStmt rt .lowered (.raiseStmt exc) rest k s)) := by
  obtain rfl : b = sequenceRaiseBlock g.label linear exc t.activeExc := h.entry.unique
    (lowerStmts_fresh (.cons false (.raiseStmt exc) rest)) (List.mem_singleton.mpr rfl) rfl
  obtain ⟨hdrop, hterm⟩ := h.settled hS.wellNamed (List.append_nil linear).symm
    (by simp [sequenceRaiseBlock, Settled])
  have hedge := h.excEdge
  have hparam := h.exceptionParam
  generalize applyAll ms (sequenceRaiseBlock g.label linear exc t.activeExc) = B at *
  have hraised : ∀ x u, raisedValue rt B f (exc.elim .bare .expr) = (x, u) →
      Answered rt G F c (.inside B [] f) (.inl (.unwind (.exc x) k ⟨u, s.caught, .branched⟩)) := by
    intro x u hx
    have hstep : (blocks rt G).step (.inside B [] f) =
        .inl (runTerm rt G B f (.raiseTerm (exc.elim .bare .expr))) := step_term rt hterm f
    simp only [runTerm, hx] at hstep
    exact Machine.Answers.arrive hstep
      (corresponds_throw (f := { f with user := u }) hG hS hedge x rfl)
  rw [hdrop]
  cases exc with
  | none =>
    exact hraised _ _ (raisedValue_bare rt hS.inRegion_eq hcaught hparam huser)
  | some e =>
    have hgiven := given_current rt hS.inRegion_eq hcaught hparam e
    rcases heval : rt.eval e (givenTo rt .lowered e k s) s.user with ⟨x | v, u⟩
    · simp only [stepStmt, heval]
      exact hraised x u (by simp only [Option.elim, raisedValue, hgiven, huser, heval])
    · simp only [stepStmt, heval]
      exact hraised _ _ (by simp only [Option.elim, raisedValue, hgiven, huser, heval])

/-- What a `return` brings along is what its block holds. -/
theorem paramSlot_caughtIn (hregion : (excOf ms none).isSome = k.inRegion)
    (hcaught : CaughtAt rt ms s f) {b : Block E T} (hb : b.exceptionParam = excOf ms none) :
    paramSlot rt b f = heldSlot rt (s.caughtIn k) := by
  unfold paramSlot State.caughtIn
  rw [hb, ← hregion]
  cases hexc : excOf ms none with
  | none => rfl
  | some x => exact hcaught x hexc

/-- A slot with the name of a payload is not the slot of an exception. -/
theorem CaughtAt.store (hw : ∀ p ∈ ms, p.WellNamed) (hcaught : CaughtAt rt ms s f) (m : ℕ)
    (v : Slot V X) : CaughtAt rt ms s (f.set (.tryAbruptPayload m) v) := fun x hx => by
  obtain ⟨i, rfl⟩ := (ExcNamed.of hw excNamed_none) x hx
  rw [Frame.set_slots_ne _ _ (by simp)]
  exact hcaught _ hx

/-- A block that returns a value, once its operations have run. -/
theorem answers_returned (hG : G.Ok) (hS : Surrounds rt G F f.slots k t ms n)
    (hcaught : CaughtAt rt ms s f) {b : Block E T} (hparams : b.params = [])
    (hexc : b.excEdge = t.activeExc) {value : ReturnValue E} {linear : List (Op E T)}
    (hbody : b.body = linear) (hterm : b.term = .returnTerm value) {x : Except X V} {u : St}
    (hvalue : returnValue rt (applyAll ms b) f value = (x, u)) (c : Config E T V X St) :
    Answered rt G F c (.inside (applyAll ms b) ((applyAll ms b).body.drop linear.length) f)
      (.inl (match x with
        | .ok v => .unwind (.ret v) k ⟨u, s.caughtIn k, .jumps⟩
        | .error x => .unwind (.exc x) k ⟨u, s.caught, .branched⟩)) := by
  have hnamed : ExcNamed b.exceptionParam := by
    rw [exceptionParam_congr (c := (⟨0, [], b.term, [], none⟩ : Block E T)) hparams]
    exact excNamed_none
  have hedge : (applyAll ms b).excEdge = t.activeExc := by rw [applyAll_excEdge, hexc]
  have hreturn := applyAll_return hS.wellNamed hnamed hterm
  have hparam := (carries_applyAll ms hparams).1
  cases hret : retOf ms with
  | none =>
    rw [hret] at hreturn
    obtain ⟨hbody', hterm'⟩ := hreturn
    rw [hbody', hbody, List.drop_length]
    have hstep := step_term (G := G) rt (hterm'.trans hterm) f
    simp only [runTerm, hvalue] at hstep
    cases x with
    | error x =>
      exact Machine.Answers.arrive hstep
        (corresponds_throw (f := { f with user := u }) hG hS hedge x rfl)
    | ok v =>
      refine Machine.Answers.arrive hstep ⟨t, ms, n, { f with user := u }, hS, rfl, ?_⟩
      simp only [Carrying, hret]
  | some target =>
    obtain ⟨label, payload⟩ := target
    rw [hret] at hreturn
    obtain ⟨hbody', hterm'⟩ := hreturn
    obtain ⟨m, -, rfl⟩ := hS.ret_name hret
    rw [hbody', hbody, List.drop_left]
    cases x with
    | error x =>
      have hop : runOp rt (applyAll ms b) f (.storePayload (.tryAbruptPayload m) value) =
          .error (x, u) := by
        simp only [runOp, hvalue]
      exact Machine.Answers.arrive (step_op_error rt hop)
        (corresponds_throw (f := { f with user := u }) hG hS hedge x rfl)
    | ok v =>
      have hop : runOp rt (applyAll ms b) f (.storePayload (.tryAbruptPayload m) value) =
          .ok (({ f with user := u } : Frame V X St).set (.tryAbruptPayload m) (.obj v)) := by
        simp only [runOp, hvalue]
      refine Machine.Answers.arrive (step_op rt hop) ⟨t, ms, n,
        ({ f with user := u } : Frame V X St).set (.tryAbruptPayload m) (.obj v),
        hS.store hret (.obj v), rfl, ?_⟩
      have hcaught' : CaughtAt rt ms s
          (({ f with user := u } : Frame V X St).set (.tryAbruptPayload m) (.obj v)) :=
        CaughtAt.store (f := { f with user := u }) hS.wellNamed hcaught m (.obj v)
      simp only [Carrying, hret]
      exact ⟨_, rfl, hterm', applyAll_tidy hS.wellNamed (tidy_of_nil hparams),
        Frame.set_slots_self _ _ _, paramSlot_caughtIn hS.inRegion_eq hcaught' hparam⟩

theorem answers_return (hG : G.Ok) (hS : Surrounds rt G F f.slots k t ms n)
    (huser : f.user = s.user) (hcaught : CaughtAt rt ms s f) {value : Option E}
    (h : Ready G ms n (.returnStmt value) rest t g linear b) (c : Config E T V X St) :
    Answered rt G F c (.inside (applyAll ms b) ((applyAll ms b).body.drop linear.length) f)
      (.inl (stepStmt rt .lowered (.returnStmt value) rest k s)) := by
  obtain rfl : b = sequenceReturnBlock g.label linear value t.activeExc := h.entry.unique
    (lowerStmts_fresh (.cons false (.returnStmt value) rest)) (List.mem_singleton.mpr rfl) rfl
  have hbody : (sequenceReturnBlock g.label linear value t.activeExc : Block E T).body = linear :=
    rfl
  have hreturned := fun x u hvalue =>
    answers_returned (x := x) (u := u) hG hS hcaught rfl rfl hbody rfl hvalue c
  cases value with
  | none => exact hreturned (.ok rt.noneValue) s.user (by simp [returnValue, huser])
  | some e =>
    have hgiven := given_current rt hS.inRegion_eq hcaught h.exceptionParam e
    rcases heval : rt.eval e (givenTo rt .lowered e k s) s.user with ⟨x | v, u⟩
    · simp only [stepStmt, heval]
      exact hreturned (.error x) u (by simp only [Option.elim, returnValue, hgiven, huser, heval])
    · simp only [stepStmt, heval]
      exact hreturned (.ok v) u (by simp only [Option.elim, returnValue, hgiven, huser, heval])

end Statements

end DietPython.ControlFlow
