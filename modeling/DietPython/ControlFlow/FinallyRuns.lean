import DietPython.ControlFlow.Meanings

/-!
# `finally` bodies along whole runs

Every `finally` body between the point that control leaves and where it goes is run, unless a
`break` or `continue` passes it: these jump straight to a label of their loop. And what a `finally`
body was entered with is there at its end, unless the body opens with a `while` loop and is sent
back to the head of the loop by a jump: the head is the entry of the body, and the jump has no
kind and payload to pass on.
-/

namespace DietPython.ControlFlow

open Machines

variable {E T V X St : Type}

/-! ## Every `finally` body runs -/

/-- **Every `finally` body runs.** As long as no `break` or `continue` leaves a region with a
`finally` body and no `finally` body is sent back to its entry, the graph runs the bodies that
Python runs and carries on as Python does. What `current_exception()` finds is left open here: it
is what the code finds. -/
theorem finally_follows (rt : Runtime E T V X St) (body : Stmts E T false) (user : St)
    (h : (structured rt ⟨.caughtLast, .runsFinally⟩).GuardedFrom
      (fun c => KeepsPending c ∧ StaysInside c) (start body user)) :
    Follows rt ⟨.caughtLast, .runsFinally⟩ body user :=
  follows_of_alike (h.imp fun c hc => ⟨hc.1, (by
    unfold ReadsAlike
    split
    · exact Reading.Same.refl _ _ _ _
    · exact Reading.Same.refl _ _ _ _
    · trivial), .inr hc.2⟩)

/-- A `return` through two `finally` bodies, the outer one around a loop. -/
def returnsThrough : Stmts ℕ ℕ false :=
  .ofList [
    .tryFinally (.ofList [.whileStmt 9 (.ofList [.tryFinally
      (.ofList [.simple 1, .returnStmt (some 2)]) (.simple 3) .nil]) .nil])
      (.simple 4) (.ofList [.ifStmt 2 (.ofList [.simple 5]) .nil]),
    .simple 6]

theorem finally_follows_returnsThrough :
    Follows tracing ⟨.caughtLast, .runsFinally⟩ returnsThrough [] := by
  refine finally_follows tracing returnsThrough [] ?_
  have hchecks : (structured tracing ⟨.caughtLast, .runsFinally⟩).checks
      (fun c => c.keepsPending && c.staysInside) 40 (start returnsThrough []) = true := by decide
  exact (Machine.guardedFrom_of_checks hchecks).imp fun c hc => Bool.and_eq_true_iff.mp hc

/-- `while ..: try: break finally: ..` -/
def breaksOut : Stmts ℕ ℕ false :=
  .ofList [
    .whileStmt 3 (.ofList [.tryFinally (.ofList [.breakStmt]) (.simple 7) .nil]) .nil,
    .simple 8]

/-- The `break` runs the `finally` body in Python and does not in the graph. -/
theorem break_skips_finally :
    (structured tracing .python).Finishes (start breaksOut []) (.fellThrough [3, 7, 8]) ∧
      (blocks tracing (graphOf breaksOut)).Finishes (enter breaksOut []) (.fellThrough [3, 8]) :=
  ⟨⟨30, by decide⟩, 30, by decide⟩

/-! ## What is pending at the end of a `finally` body -/

/-- The kind and the payload that a signal is handed over with. -/
def pendingKind {l : Bool} : Signal V X l → Slot V X
  | .ret _ => .kind .ret
  | .exc _ => .kind .exception
  | .normal | .brk | .cont => .kind .fallthrough

def pendingPayload (rt : Runtime E T V X St) {l : Bool} : Signal V X l → Slot V X
  | .ret v => .obj v
  | .exc e => .exc e
  | .normal | .brk | .cont => .obj rt.noneValue

/-- The graph stands in front of the block that the `finally` body of the plan starts with, which
has been handed this kind and payload. -/
def EntersFinally (G : Graph E T) (plan : Gen) (kind payload : Slot V X) (user : St)
    (p : Place E T V X St) : Prop :=
  ∃ label b f m, p = .goto label f ∧ G.find label = some b ∧
    b.params = [⟨(finallyPlan plan).abruptKind, .abruptKind⟩,
      ⟨(finallyPlan plan).abruptPayload, .abruptPayload⟩, ⟨.tryExc m, .exception⟩] ∧
    f.slots (finallyPlan plan).abruptKind = kind ∧
    f.slots (finallyPlan plan).abruptPayload = payload ∧ f.user = user

/-- The graph stands in the dispatch behind the `finally` body of the plan, which finds this kind
and payload. -/
def DispatchesFinally (plan : Gen) (kind payload : Slot V X) (user : St)
    (p : Place E T V X St) : Prop :=
  ∃ b f cont, p = .inside b [] f ∧
    b.term = .branchTable (finallyPlan plan).abruptKind
      [cont, (finallyPlan plan).returnLabel, (finallyPlan plan).raiseLabel] cont ∧
    f.slots (finallyPlan plan).abruptKind = kind ∧
    f.slots (finallyPlan plan).abruptPayload = payload ∧ f.user = user

theorem PendingSlots.eq {rt : Runtime E T V X St} {slots : Name → Slot V X} {plan : FinallyPlan}
    {l : Bool} {pending : Signal V X l} (h : PendingSlots rt slots plan pending) :
    slots plan.abruptKind = pendingKind pending ∧
      slots plan.abruptPayload = pendingPayload rt pending := by
  cases pending with
  | normal | exc | ret => exact h
  | brk | cont => exact h.elim

/-! ### Inside one frame -/

section Inner

variable {rt : Runtime E T V X St} {G : Graph E T} {F : Floor G V X}

/-- A frame that is not left: what stands around the code in front of it stays as it is. -/
def Floor.inner (rt : Runtime E T V X St) (hG : G.Ok) (F : Floor G V X) {l₀ : Bool}
    (k₀ : Kont E T V X l₀) (t₀ : RegionTargets) (ms₀ : List Pass) (n₀ : ℕ)
    (hfloor : k₀.isFloor = true) : Floor G V X where
  depth := k₀.depth
  holds slots l k t ms n := (⟨l, k⟩ : Σ l, Kont E T V X l) = ⟨l₀, k₀⟩ ∧ t = t₀ ∧ ms = ms₀ ∧
    n = n₀ ∧ Surrounds rt G F slots k t ms n
  depth_eq := by
    rintro _ _ _ _ _ _ ⟨⟨⟩, -⟩
    rfl
  isFloor := by
    rintro _ _ _ _ _ _ ⟨⟨⟩, -⟩
    exact hfloor
  wellNamed h := h.2.2.2.2.wellNamed
  fits h := h.2.2.2.2.fits
  inRegion_eq h := h.2.2.2.2.inRegion_eq
  congr h ha := ⟨h.1, h.2.1, h.2.2.1, h.2.2.2.1, h.2.2.2.2.congr ha⟩
  ret_name h _ _ hret := h.2.2.2.2.ret_name hret
  store h _ _ hret v := ⟨h.1, h.2.1, h.2.2.1, h.2.2.2.1, h.2.2.2.2.store hret v⟩
  handlerAt h := h.2.2.2.2.handlerAt hG

theorem Surrounds.depth_le {slots : Name → Slot V X} {l : Bool} {k : Kont E T V X l}
    {t : RegionTargets} {ms : List Pass} {n : ℕ} (h : Surrounds rt G F slots k t ms n) :
    F.depth ≤ k.depth := by
  induction h with
  | floor h => exact Nat.le_of_eq (F.depth_eq h).symm
  | seq _ _ ih | whileLoop _ _ _ _ _ ih | forLoop _ _ _ _ _ _ _ ih | tryBody _ _ _ _ ih
  | guarded _ _ ih | handling _ _ ih | finalBody _ _ _ _ _ ih => exact Nat.le_succ_of_le ih

variable {hG : G.Ok} {l₀ : Bool} {k₀ : Kont E T V X l₀} {t₀ : RegionTargets} {ms₀ : List Pass}
  {n₀ : ℕ} {hfloor : k₀.isFloor = true}

/-- What surrounds a state within a frame surrounds it as a whole. -/
theorem Surrounds.outward {slots : Name → Slot V X} {l : Bool} {k : Kont E T V X l}
    {t : RegionTargets} {ms : List Pass} {n : ℕ}
    (h : Surrounds rt G (F.inner rt hG k₀ t₀ ms₀ n₀ hfloor) slots k t ms n) :
    Surrounds rt G F slots k t ms n := by
  induction h with
  | floor h => exact h.2.2.2.2
  | seq _ hrest ih => exact .seq ih hrest
  | whileLoop _ horelse hbody hhead hopens ih => exact .whileLoop ih horelse hbody hhead hopens
  | forLoop _ hi horelse hbody hblocks hhead hiter ih =>
    exact .forLoop ih hi horelse hbody hblocks hhead hiter
  | tryBody _ hcleanup horelse hhandler ih => exact .tryBody ih hcleanup horelse hhandler
  | guarded _ hcleanup ih => exact .guarded ih hcleanup
  | handling _ hcleanup ih => exact .handling ih hcleanup
  | finalBody _ hdispatch hbelow hn hpending ih => exact .finalBody ih hdispatch hbelow hn hpending

theorem Corresponds.outward {c : Config E T V X St} {p : Place E T V X St}
    (h : Corresponds rt G (F.inner rt hG k₀ t₀ ms₀ n₀ hfloor) c p) : Corresponds rt G F c p := by
  cases c with
  | run stmts k s =>
    obtain ⟨t, ms, n, f, hS, h⟩ := h
    exact ⟨t, ms, n, f, hS.outward, h⟩
  | unwind signal k s =>
    obtain ⟨t, ms, n, f, hS, h⟩ := h
    exact ⟨t, ms, n, f, hS.outward, h⟩

end Inner

section Pending

variable {rt : Runtime E T V X St} {G : Graph E T} {l : Bool} {k : Kont E T V X l}
  {pending : Signal V X l} {s : State X St} {p : Place E T V X St}

/-- The frame of a `finally` body that has been entered, by the targets and the passes that the
lowering gave the body. -/
def bodyFloor (rt : Runtime E T V X St) (hG : G.Ok) (pending : Signal V X l) (k : Kont E T V X l)
    (t : RegionTargets) (ms : List Pass) (label : ℕ) (plan : Gen) : Floor G V X :=
  (Floor.callable G V X).inner rt hG (.finalBody pending k)
    (t.nested (finallyPlan plan).dispatchLabel)
    (.finallyParams label (finallyPlan plan).abruptKind (finallyPlan plan).abruptPayload ::
      .regionExcParam (exceptExcName plan) :: ms) (plan.tmp + 3) rfl

theorem Corresponds.entersFinally (hG : G.Ok) {x : Bool} {stmt : Stmt E T l}
    {rest : Stmts E T l} (hs : s.arrival = .opens)
    (h : Corresponds rt G (.callable G V X) (.run (.cons x stmt rest) (.finalBody pending k) s) p) :
    ∃ t ms label plan,
      EntersFinally G plan (pendingKind pending) (pendingPayload rt pending) s.user p ∧
      Corresponds rt G (bodyFloor rt hG pending k t ms label plan)
        (.run (.cons x stmt rest) (.finalBody pending k) s) p := by
  obtain ⟨t, ms, n, f, hS, huser, hcaught, hstanding⟩ := h
  have hfloor := hS
  cases hS with
  | floor h =>
    obtain ⟨h, -⟩ := h
    cases h
  | @finalBody _ _ t ms n _ label plan hk hdispatch hbelow hn hpending =>
    refine ⟨t, ms, label, plan, ?_, _, _, _, f, .floor ⟨rfl, rfl, rfl, rfl, hfloor⟩, huser, hcaught,
      hstanding⟩
    rw [hs] at hstanding
    cases hstanding with
    | opens g hplaced hbelow' hn' hne kind payload hentry hmark =>
      cases hentry
      have hmark : (lowerStmts (.cons x stmt rest) [] (t.nested (finallyPlan plan).dispatchLabel)
          g).entry ∉ marks ms := hmark
      obtain ⟨target, m, hfind, -, hparams⟩ := Placed.finally_params hG hk.wellNamed
        (t := t.nested (finallyPlan plan).dispatchLabel) hk.fits hplaced hmark
      exact ⟨_, target, f, m, rfl, hfind, hparams, hpending.eq.1, hpending.eq.2, huser⟩

/-- The bound and the target of a `finally` body say which plan its frame has. -/
theorem Surrounds.at_plan {slots : Name → Slot V X} {t : RegionTargets} {ms : List Pass}
    {plan : Gen} (h : Surrounds rt G (.callable G V X) slots (.finalBody pending k)
      (t.nested (finallyPlan plan).dispatchLabel) ms (plan.tmp + 3)) :
    ∃ (t₁ : RegionTargets) (ms₁ : List Pass), (∀ p ∈ ms₁, p.WellNamed) ∧
      (∃ p q, ms = p :: q :: ms₁) ∧
      Placed G ms₁ (finallyDispatchBlocks (finallyPlan plan) t₁.normalCont t₁.activeExc) ∧
      BelowBut ms₁ plan.label (plan.label + 3) ∧
      PendingSlots rt slots (finallyPlan plan) pending := by
  generalize ht : t.nested (finallyPlan plan).dispatchLabel = t₀ at h
  generalize hn : plan.tmp + 3 = n₀ at h
  cases h with
  | floor h =>
    obtain ⟨h, -⟩ := h
    cases h
  | @finalBody _ _ t₁ ms₁ n _ label g hk hdispatch hbelow _ hpending =>
    have hlabel : plan.label = g.label := congrArg RegionTargets.normalCont ht
    obtain rfl : plan = g := by
      cases plan
      cases g
      simp_all
    exact ⟨t₁, ms₁, hk.wellNamed, ⟨_, _, rfl⟩, hdispatch, hbelow, hpending⟩

theorem Corresponds.dispatchesFinally (hG : G.Ok) {t : RegionTargets} {ms : List Pass} {label : ℕ}
    {plan : Gen} (h : Corresponds rt G (bodyFloor rt hG pending k t ms label plan)
      (.unwind .normal (.finalBody pending k) s) p) :
    ∃ q, (blocks rt G).Reaches p q ∧
      DispatchesFinally plan (pendingKind pending) (pendingPayload rt pending) s.user q := by
  obtain ⟨t', ms', n', f, hS, huser, -, hleaving⟩ := h
  cases hS with
  | finalBody hk => exact absurd hk.depth_le (Nat.not_succ_le_self _)
  | floor h =>
    obtain ⟨-, rfl, rfl, rfl, hS⟩ := h
    obtain ⟨t₁, ms₁, hw, ⟨_, _, hms⟩, hdispatch, hbelow, hpending⟩ := hS.at_plan
    rw [hms] at hleaving
    have hleaving : Leaving ms₁ (finallyPlan plan).dispatchLabel f s.arrival p :=
      Leaving.outer (q := [_, _]) hleaving
    obtain ⟨j, B, hj, hplain⟩ := hleaving.enter rt hG hw hdispatch
      (List.mem_cons_of_mem _ (List.mem_cons_of_mem _ (List.mem_singleton.mpr rfl))) rfl rfl
      (by simp [Settled]) (fun _ => hbelow.notMem (Nat.le_refl _) (by simp [finallyPlan]))
    exact ⟨_, ⟨j, hj⟩, B, f, t₁.normalCont, rfl, hplain.term, hpending.eq.1, hpending.eq.2, huser⟩

end Pending

/-- **A `finally` body keeps what is pending.** On every run on which no jump goes to the head of
a `while` loop that opens a `finally` body: when a `finally` body has been entered and comes to its
end without having been left, the graph has come from its entry block to its dispatch, and the
dispatch finds the kind and the payload of what was pending, which the entry was handed. -/
theorem dispatch_finds_pending (rt : Runtime E T V X St) (body : Stmts E T false) (user : St)
    (hkeeps : (structured rt .lowered).GuardedFrom KeepsPending (start body user)) {l : Bool}
    {x : Bool} {stmt : Stmt E T l} {rest : Stmts E T l} {pending : Signal V X l}
    {k : Kont E T V X l} {s₁ s₂ : State X St} (hs : s₁.arrival = .opens)
    (henter : (structured rt .lowered).Reaches (start body user)
      (.run (.cons x stmt rest) (.finalBody pending k) s₁))
    (hend : (structured rt .lowered).ReachesThrough (Config.Within (Kont.finalBody pending k).depth)
      (.run (.cons x stmt rest) (.finalBody pending k) s₁)
      (.unwind .normal (.finalBody pending k) s₂)) :
    ∃ plan p q r, (blocks rt (graphOf body)).Reaches (enter body user) p ∧
      Corresponds rt (graphOf body) (.callable _ V X)
        (.run (.cons x stmt rest) (.finalBody pending k) s₁) p ∧
      EntersFinally (graphOf body) plan (pendingKind pending) (pendingPayload rt pending) s₁.user
        p ∧
      (blocks rt (graphOf body)).Reaches p q ∧
      Corresponds rt (graphOf body) (.callable _ V X) (.unwind .normal (.finalBody pending k) s₂)
        q ∧
      (blocks rt (graphOf body)).Reaches q r ∧
      DispatchesFinally plan (pendingKind pending) (pendingPayload rt pending) s₂.user r := by
  have hG := graphOf_ok body
  obtain ⟨p, hp, hcorr⟩ := simulates_states hkeeps henter
  obtain ⟨t, ms, label, plan, henters, hinside⟩ := hcorr.entersFinally hG hs
  -- the stretch is answered above the frame of the body, which keeps its plan
  have hstretch : (structured rt .lowered).ReachesThrough
      (fun c => KeepsPending c ∧ c.Within (Kont.finalBody pending k).depth) _ _ :=
    hend.imp _ fun c hc hw => ⟨hkeeps c (Machine.Reaches.trans _ henter hc), hw⟩
  obtain ⟨q, hq, hcorr'⟩ := Machine.simulates_reachesThrough
    (fun _ _ h hk => answers_inner hG h hk.1 hk.2) hinside hstretch
  obtain ⟨r, hr, hdispatches⟩ := hcorr'.dispatchesFinally hG
  exact ⟨plan, p, q, r, hp, hcorr, henters, hq, hcorr'.outward, hr, hdispatches⟩

/-- The outer body, which the `return` enters behind the inner one. -/
theorem dispatch_finds_pending_returnsThrough :
    ∃ plan p q r, (blocks tracing (graphOf returnsThrough)).Reaches (enter returnsThrough []) p ∧
      Corresponds tracing (graphOf returnsThrough) (.callable _ ℕ ℕ)
        (.run (.ofList [.simple 4, .ifStmt 2 (.ofList [.simple 5]) .nil])
          (.finalBody (.ret 2) (.seq (.ofList [.simple 6]) .done)) ⟨[9, 1, 2, 3], none, .opens⟩) p ∧
      EntersFinally (graphOf returnsThrough) plan (.kind .ret) (.obj 2) [9, 1, 2, 3] p ∧
      (blocks tracing (graphOf returnsThrough)).Reaches p q ∧
      Corresponds tracing (graphOf returnsThrough) (.callable _ ℕ ℕ)
        (.unwind .normal (.finalBody (.ret 2) (.seq (.ofList [.simple 6]) .done))
          ⟨[9, 1, 2, 3, 4, 2], none, .branched⟩) q ∧
      (blocks tracing (graphOf returnsThrough)).Reaches q r ∧
      DispatchesFinally plan (.kind .ret) (.obj 2) [9, 1, 2, 3, 4, 2] r := by
  have hchecks : (structured tracing .lowered).checks Config.keepsPending 40
      (start returnsThrough []) = true := by decide
  have hend : (structured tracing .lowered).ReachesThrough (Config.Within 2)
      (.run (.ofList [.simple 4, .ifStmt 2 (.ofList [.simple 5]) .nil])
        (.finalBody (.ret 2) (.seq (.ofList [.simple 6]) .done)) ⟨[9, 1, 2, 3], none, .opens⟩)
      (.unwind .normal (.finalBody (.ret 2) (.seq (.ofList [.simple 6]) .done))
        ⟨[9, 1, 2, 3, 4, 2], none, .branched⟩) :=
    .step _ (by decide) rfl <| .step _ (by decide) rfl <| .step _ (by decide) rfl <|
      .step _ (by decide) rfl <| .refl _ _ _
  exact dispatch_finds_pending tracing returnsThrough [] (Machine.guardedFrom_of_checks hchecks)
    rfl ⟨14, rfl⟩ hend

/-- `try: return .. finally: while ..: ..` -/
def loopsInFinally : Stmts ℕ ℕ false :=
  .ofList [
    .tryFinally (.ofList [.returnStmt (some 4)]) (.whileStmt 3 (.ofList [.simple 1]) .nil) .nil,
    .simple 8]

/-- The `finally` body is entered by the `return` of 4, and behind its loop nothing is pending:
Python returns 4, the graph raises. -/
theorem loop_loses_pending :
    (∃ p q, (blocks tracing (graphOf loopsInFinally)).Reaches (enter loopsInFinally []) p ∧
      EntersFinally (graphOf loopsInFinally) ⟨1, 0⟩ (.kind .ret) (.obj 4) [4] p ∧
      (blocks tracing (graphOf loopsInFinally)).Reaches p q ∧
      DispatchesFinally ⟨1, 0⟩ (.obj tracing.noneValue) (.obj tracing.noneValue) [4, 3, 1, 3]
        q) ∧
    (structured tracing .python).Finishes (start loopsInFinally []) (.returned 4 [4, 3, 1, 3]) ∧
    (blocks tracing (graphOf loopsInFinally)).Finishes (enter loopsInFinally [])
      (.raised 1 [4, 3, 1, 3]) :=
  ⟨⟨_, _, ⟨5, rfl⟩, ⟨6, _, _, 0, rfl, rfl, rfl, rfl, rfl, rfl⟩, ⟨8, rfl⟩,
    ⟨_, _, _, rfl, rfl, rfl, rfl, rfl⟩⟩, ⟨30, by decide⟩, 30, by decide⟩

end DietPython.ControlFlow
