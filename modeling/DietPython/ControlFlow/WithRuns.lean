import DietPython.ControlFlow.WithExits
import DietPython.ControlFlow.WithItems
import DietPython.ControlFlow.Meanings

/-!
# Runs with `with`

A body with `with`, the statements that it is desugared to, and their graph run alike, as long as
the body gives the desugaring no reason to differ from Python.
-/

namespace DietPython.ControlFlow.Source

open Machines

variable {E T V X St : Type} {l : Bool} {rt : Runtime E T V X St} {cm : ContextManagers V X St}
  {matchesBase : X → St → Except X Bool × St} {k : Kont E T V X l}
  {k' : ControlFlow.Kont (WithExpr E T) T V X l} {n : ℕ} {names : ℕ → WithNames V X} {u : St}
  {c c' : Option X} {a : Arrival}

/-! ## The simulation -/

variable (rt cm matchesBase) in
/-- How the desugared program answers a step. Every step takes at least one. -/
abbrev Answered (s : Config E T V X St)
    (p : ControlFlow.Config (WithExpr E T) T V X (WithState V X St)) :
    Config E T V X St ⊕ Outcome V X St → Prop :=
  (desugared rt cm matchesBase).Answers Matches (fun q r => r.map WithState.user = q) (fun _ => 0)
    s p

theorem currentAt_eq (hk : Frames names k k' n) :
    currentAt k' c = (State.held (⟨u, c⟩ : State X St) k).exception? := by
  unfold currentAt State.held
  rw [hk.inRegion]

/-- The statements inside an item that has been entered. -/
theorem matches_insideItem (hk : Frames names k k' n) {g : ℕ} (hg : n ≤ g) {isAsync : Bool}
    {exitFn : V} {cleanup : Bool} {names' : ℕ → WithNames V X}
    (hentered : IsEntered names names' g exitFn) {body rest : Stmts E T l}
    {body' rest' : ControlFlow.Stmts (WithExpr E T) T l} (hbody : Desugars (g + 1) body body')
    (hrest : Desugars n rest rest') :
    Matches (enterBody body (.withBody isAsync exitFn (.seq rest k)) ⟨u, c⟩)
      (insideItem isAsync g cleanup body' rest' k' ⟨⟨u, names'⟩, c, a⟩) := by
  obtain ⟨hnames, hexit, hok⟩ := hentered
  have hk' : Frames names' k k' n := hk.congr fun m hm => hnames m (by omega)
  exact matches_enterBody (.withBody (.seq hk' hrest) hg hexit hok) hbody

/-- Behind the entering of an item, in front of the statements inside. -/
def goInside (isAsync : Bool) (inside rest : Stmts E T l) (k : Kont E T V X l) (c : Option X) :
    Entered V X × St → Config E T V X St
  | (.failed x, u) => .unwind (.exc x) k ⟨u, c⟩
  | (.entered exitFn (.error x), u) =>
    .unwind (.exc x) (.withBody isAsync exitFn (.seq rest k)) ⟨u, c⟩
  | (.entered exitFn (.ok ()), u) =>
    enterBody inside (.withBody isAsync exitFn (.seq rest k)) ⟨u, c⟩

section Entering

variable (hk : Frames names k k' n) {g : ℕ} (hg : n ≤ g) {isAsync x y : Bool}
  {item : WithItem E T} {rest : Stmts E T l} {rest' : ControlFlow.Stmts (WithExpr E T) T l}
  (hrest : Desugars n rest rest')
  (hsafe : EntersSafely rt cm isAsync item (State.held (⟨u, c⟩ : State X St) k).exception? u)

include hk hg hrest hsafe

theorem answers_item {c₀ : Config E T V X St} {inside : Stmts E T l}
    {inside' : ControlFlow.Stmts (WithExpr E T) T l} (hinside : Desugars (g + 1) inside inside') :
    Answered rt cm matchesBase c₀
      (.run (.cons y (desugarItem isAsync g item inside' rest').1
        (desugarItem isAsync g item inside' rest').2) k' ⟨⟨u, names⟩, c, a⟩)
      (.inl (goInside isAsync inside rest k c
        (enterItem rt cm isAsync item (State.held (⟨u, c⟩ : State X St) k).exception? u))) := by
  rw [← currentAt_eq hk] at hsafe ⊢
  have henters : EntersAs (desugared rt cm matchesBase) g
      (insideItem isAsync g (!item.isSimple) inside' rest' k') k' c names
      (.run (.cons y (desugarItem isAsync g item inside' rest').1
        (desugarItem isAsync g item inside' rest').2) k' ⟨⟨u, names⟩, c, a⟩)
      (enterItem rt cm isAsync item (currentAt k' c) u) := entersAs_item hsafe
  have hassigned := hsafe.assigned
  rcases henter : enterItem rt cm isAsync item (currentAt k' c) u with ⟨e | ⟨exitFn, e | _⟩, u'⟩
  · rw [henter] at henters
    obtain ⟨names', a', hmoves, hnames⟩ := henters
    have hk' : Frames names' k k' n := hk.congr fun m hm => hnames m (by omega)
    exact .moves hmoves (matches_exc hk' e c)
  · exact absurd henter (hassigned exitFn e u')
  · rw [henter] at henters
    obtain ⟨names', a', hmoves, hentered⟩ := henters
    exact .moves hmoves (matches_insideItem hk hg hentered hinside hrest)

/-- **Entering.** -/
theorem answers_with {more : List (WithItem E T)} {body : Stmts E T l} :
    Answered rt cm matchesBase (.run (.cons x (.withStmt isAsync item more body) rest) k ⟨u, c⟩)
      (.run (.cons y ((Stmt.withStmt isAsync item more body).desugar g rest').1
        ((Stmt.withStmt isAsync item more body).desugar g rest').2) k' ⟨⟨u, names⟩, c, a⟩)
      (.inl (stepStmt rt cm (.withStmt isAsync item more body) rest k ⟨u, c⟩)) := by
  cases more with
  | nil =>
    have hstep : stepStmt rt cm (.withStmt isAsync item [] body) rest k ⟨u, c⟩ =
        goInside isAsync body rest k c
          (enterItem rt cm isAsync item (State.held (⟨u, c⟩ : State X St) k).exception? u) := by
      simp only [stepStmt]
      rcases enterItem rt cm isAsync item _ u with ⟨e | ⟨exitFn, e | _⟩, u'⟩ <;> rfl
    rw [hstep]
    exact answers_item hk hg hrest hsafe (body.desugars (g + 1) (Nat.le_refl _))
  | cons next more =>
    have hstep : stepStmt rt cm (.withStmt isAsync item (next :: more) body) rest k ⟨u, c⟩ =
        goInside isAsync (.cons false (.withStmt isAsync next more body) .nil) rest k c
          (enterItem rt cm isAsync item (State.held (⟨u, c⟩ : State X St) k).exception? u) := by
      simp only [stepStmt]
      rcases enterItem rt cm isAsync item _ u with ⟨e | ⟨exitFn, e | _⟩, u'⟩ <;> rfl
    -- the items behind the first one are numbered from the next number on
    have hdesugar : (Stmt.withStmt isAsync item (next :: more) body).desugar g rest' =
        desugarItem isAsync g item
          (.cons false ((Stmt.withStmt isAsync next more body).desugar (g + 1) .nil).1
            ((Stmt.withStmt isAsync next more body).desugar (g + 1) .nil).2) rest' := by
      have hnumber : g + (next :: more).length + 1 = g + 1 + more.length + 1 := by
        rw [List.length_cons]
        omega
      simp only [Stmt.desugar, desugarItems, hnumber]
    rw [hstep, hdesugar]
    exact answers_item hk hg hrest hsafe (.cons (Nat.le_refl _) .nil)

end Entering

section Leaving

variable (hk : Frames names k k' n) {m : ℕ} (hm : n ≤ m)
  {p : ControlFlow.Config (WithExpr E T) T V X (WithState V X St)} {c₀ : Config E T V X St}

include hk hm

/-- What is left behind corresponds, as only names of the item have been written. -/
theorem LeavesAs.answered {signal : Signal V X l}
    (h : LeavesAs (desugared rt cm matchesBase) m p signal k' u names c')
    (hcaught : (∀ e, signal ≠ .exc e) → c' = c) :
    Answered rt cm matchesBase c₀ p (.inl (.unwind signal k ⟨u, c⟩)) := by
  obtain ⟨names', a', hmoves, hnames⟩ := h
  exact .moves hmoves (.unwind (hk.congr fun i hi => hnames i (by omega)) hcaught)

variable {isAsync cleanup : Bool} {exitFn : V} (hexit : (names m).exitFn = some exitFn)

include hexit

theorem answers_leaveWith_plain {signal : Signal V X l}
    (hsignal : signal = .normal ∨ ∃ v, signal = .ret v) (hok : (names m).ok = true) :
    Answered rt cm matchesBase c₀
      (.unwind signal (.tryBody (withHandler isAsync m) .nil .nil
        (withFinally isAsync m cleanup) k')
        ⟨⟨u, names⟩, c, a⟩)
      (.inl (leaveWith cm isAsync exitFn signal k ⟨u, c⟩)) := by
  rcases hcall : cm.callExit isAsync exitFn none u with ⟨x | v, u'⟩
  · have hleave : leaveWith cm isAsync exitFn signal k ⟨u, c⟩ = .unwind (.exc x) k ⟨u', c⟩ := by
      obtain rfl | ⟨v, rfl⟩ := hsignal <;> simp only [leaveWith, hcall]
    rw [hleave]
    obtain ⟨c', h⟩ := leavesAs_plain_error (s := ⟨u, names⟩) hsignal hexit hok hcall
    exact LeavesAs.answered hk hm h fun h => absurd rfl (h x)
  · have hleave : leaveWith cm isAsync exitFn signal k ⟨u, c⟩ =
        .unwind signal k ⟨u', (⟨u, c⟩ : State X St).caughtIn k⟩ := by
      obtain rfl | ⟨v, rfl⟩ := hsignal <;> simp only [leaveWith, hcall]
    rw [hleave]
    refine LeavesAs.answered hk hm (leavesAs_plain (s := ⟨u, names⟩) hsignal hexit hok hcall)
      fun _ => ?_
    unfold State.caughtIn
    rw [hk.inRegion]

theorem answers_leaveWith_exc (x : X) (hmatches : matchesBase x u = (.ok true, u)) :
    Answered rt cm matchesBase c₀
      (.unwind (.exc x) (.tryBody (withHandler isAsync m) .nil .nil (withFinally isAsync m cleanup)
        k') ⟨⟨u, names⟩, c', a⟩)
      (.inl (leaveWith cm isAsync exitFn (.exc x) k ⟨u, c⟩)) := by
  have hleaves : LeavesByExc (desugared rt cm matchesBase) m
      (.unwind (.exc x) (.tryBody (withHandler isAsync m) .nil .nil
        (withFinally isAsync m cleanup) k') ⟨⟨u, names⟩, c', a⟩) k' names x
      (cm.suppresses isAsync exitFn x u) := leavesAs_exc x hexit hmatches
  simp only [leaveWith]
  rcases hsup : cm.suppresses isAsync exitFn x u with ⟨y | _ | _, u'⟩
  · rw [hsup] at hleaves
    exact LeavesAs.answered hk hm hleaves fun h => absurd rfl (h y)
  · rw [hsup] at hleaves
    exact LeavesAs.answered hk hm hleaves fun h => absurd rfl (h x)
  · rw [hsup] at hleaves
    refine LeavesAs.answered hk hm hleaves fun _ => ?_
    rw [hk.inRegion]

end Leaving

/-- A step that is no entering and no leaving is answered by one step. -/
theorem StepsMatch.answered {c₀ : Config E T V X St} {o : Config E T V X St ⊕ Outcome V X St}
    {p : ControlFlow.Config (WithExpr E T) T V X (WithState V X St)}
    (h : StepsMatch o ((desugared rt cm matchesBase).step p)) :
    Answered rt cm matchesBase c₀ p o := by
  cases hp : (desugared rt cm matchesBase).step p with
  | inl p' =>
    rw [hp] at h
    cases o with
    | inl c' => exact .arrive hp h
    | inr r => exact absurd h id
  | inr r =>
    rw [hp] at h
    cases o with
    | inl c' => exact absurd h id
    | inr q => exact .finish hp h

/-- **One step.** The desugared program answers every step. -/
theorem answers_step {c₀ : Config E T V X St}
    {p : ControlFlow.Config (WithExpr E T) T V X (WithState V X St)} (h : Matches c₀ p)
    (hkeeps : KeepsWith rt cm matchesBase c₀) :
    Answered rt cm matchesBase c₀ p ((structured rt cm).step c₀) := by
  cases h with
  | @run l stmts stmts' k k' n names u c a hk hstmts =>
    cases hstmts with
    | nil => exact .arrive rfl (matches_unwind hk .normal)
    | @cons _ _ stmt rest rest' g hg hrest =>
      cases hwith : stmt.isWith with
      | false =>
        exact .arrive rfl (matches_stepStmt hk hwith hg hrest)
      | true =>
        cases stmt with
        | withStmt isAsync item more body => exact answers_with hk hg hrest hkeeps.2
        | _ => cases hwith
  | @unwind l signal k k' n names u c c' a hk hcaught =>
    cases hitem : k.isItem with
    | false => exact StepsMatch.answered (matches_stepUnwind hk hitem hcaught)
    | true =>
      cases hk with
      | withBody hk hm hexit hok =>
        cases signal with
        | normal =>
          obtain rfl := hcaught (by simp)
          exact answers_leaveWith_plain hk hm hexit (.inl rfl) hok
        | ret v =>
          obtain rfl := hcaught (by simp)
          exact answers_leaveWith_plain hk hm hexit (.inr ⟨v, rfl⟩) hok
        | exc x =>
          exact answers_leaveWith_exc hk hm hexit x (by simpa only [KeepsWith] using hkeeps)
        | brk | cont => exact absurd hkeeps id
      | _ => cases hitem

theorem matches_start (body : Stmts E T false) (user : St) :
    Matches (V := V) (X := X) (start body user)
      (ControlFlow.start (body.desugar 0) (WithState.ofUser user)) :=
  .run .done (body.desugars 0 (Nat.le_refl 0))

/-! ## Runs -/

/-- The graph of a body with `with` does what Python does: the results are the same for user code,
both run forever together, every state of user code is seen in the graph, and every item that is
entered is left once, by a call of its exit, the last one first. -/
structure FollowsWith (rt : Runtime E T V X St) (cm : ContextManagers V X St)
    (matchesBase : X → St → Except X Bool × St) (body : Stmts E T false) (user : St) : Prop where
  sameRuns : (structured rt cm).SameRuns
    ((blocks (withRuntime rt cm matchesBase) (graphOf (body.desugar 0))).mapResult
      (Outcome.map WithState.user))
    (start body user) (enter (body.desugar 0) (.ofUser user))
  states : ∀ c, (structured rt cm).Reaches (start body user) c →
    ∃ p, (blocks (withRuntime rt cm matchesBase) (graphOf (body.desugar 0))).Reaches
      (enter (body.desugar 0) (.ofUser user)) p ∧ p.user?.map WithState.user = some c.user
  exits : ∀ n r, (structured rt cm).run n (start body user) = some r →
    Nested (itemEvents rt cm n (start body user)) [] []

section Checks

variable [DecidableEq V] [DecidableEq St]

/-- Is an item entered as Python enters it? -/
def entersSafely (rt : Runtime E T V X St) (cm : ContextManagers V X St) (isAsync : Bool)
    (item : WithItem E T) (current : Option X) (s : St) : Bool :=
  (!item.isSimple ||
    match rt.eval item.contextExpr (rt.given item.contextExpr current) s with
    | (.error _, _) => true
    | (.ok ctx, u) =>
      match cm.getExit isAsync ctx u with
      | (.error _, _) => true
      | (.ok _, u') =>
        match rt.eval item.contextExpr (rt.given item.contextExpr current) u' with
        | (.error _, _) => false
        | (.ok ctx', u'') => decide (ctx' = ctx ∧ u'' = u')) &&
  match enterItem rt cm isAsync item current s with
  | (.entered _ (.error _), _) => false
  | _ => true

theorem EntersSafely.of_check {isAsync : Bool} {item : WithItem E T} {current : Option X} {s : St}
    (h : entersSafely rt cm isAsync item current s = true) :
    EntersSafely rt cm isAsync item current s := by
  obtain ⟨hagain, hassigned⟩ := Bool.and_eq_true_iff.mp h
  refine ⟨fun hsimple ctx u exitFn u' hctx hexit => ?_, fun exitFn x u henter => ?_⟩
  · rw [hsimple, Bool.not_true, Bool.false_or] at hagain
    simp only [hctx, hexit] at hagain
    split at hagain
    · cases hagain
    · next heval =>
      obtain ⟨rfl, rfl⟩ := of_decide_eq_true hagain
      exact heval
  · rw [henter] at hassigned
    cases hassigned

def Config.keepsWith (rt : Runtime E T V X St) (cm : ContextManagers V X St)
    (matchesBase : X → St → Except X Bool × St) : Config E T V X St → Bool
  | .run (.cons _ (.withStmt isAsync item _ _) _) k s =>
    !isAsync && entersSafely rt cm isAsync item (s.held k).exception? s.user
  | .unwind .brk (.withBody ..) _ | .unwind .cont (.withBody ..) _ => false
  | .unwind (.exc x) (.withBody ..) s =>
    match matchesBase x s.user with
    | (.ok true, u) => decide (u = s.user)
    | _ => false
  | _ => true

theorem KeepsWith.of_check {c : Config E T V X St} (h : c.keepsWith rt cm matchesBase = true) :
    KeepsWith rt cm matchesBase c := by
  cases c with
  | run stmts k s =>
    cases stmts with
    | nil => trivial
    | cons x stmt rest =>
      cases stmt with
      | withStmt isAsync =>
        obtain ⟨hsync, h⟩ := Bool.and_eq_true_iff.mp h
        exact ⟨by simpa using hsync, .of_check h⟩
      | _ => trivial
  | unwind signal k s =>
    cases k with
    | withBody isAsync exitFn k =>
      cases signal with
      | brk | cont => cases h
      | normal | ret => simp only [KeepsWith]
      | exc x =>
        simp only [Config.keepsWith, KeepsWith] at h ⊢
        split at h
        · next hmatches =>
          rw [hmatches, of_decide_eq_true h]
        · cases h
    | _ => simp only [KeepsWith]

end Checks

/-- Context managers that append what they are asked to a list: entering a number appends it and
gives it, its exit is the number a thousand further on, and a call of an exit appends the exit and
the exception or `0`. The exit of `5` suppresses. -/
def recording : ContextManagers ℕ ℕ (List ℕ) where
  getExit _ v s := (.ok (v + 1000), s)
  enter _ v s := (.ok v, s ++ [v])
  callExit _ exitFn exc s := (.ok (exitFn - 1000), s ++ [exitFn, exc.getD 0])
  truth v s := (.ok (decide (v = 5)), s)

/-- An item whose context is in a temporary, assigned to a target. -/
def itemOf (n : ℕ) : WithItem ℕ ℕ := ⟨n, false, some (n + 200)⟩

/-- `while ..: with 3, 5, 4: raise`, and a `return` through an item. -/
def suppresses : Stmts ℕ ℕ false :=
  .ofList [
    .whileStmt 8 (.ofList [.withStmt false (itemOf 3) [itemOf 5, itemOf 4] (.ofList [.simple 101])])
      .nil,
    .withStmt false (itemOf 6) [] (.ofList [.returnStmt (some 2)])]

/-- `while ..: with 3, 4: break` -/
def breaksOutOfWith : Stmts ℕ ℕ false :=
  .ofList [
    .whileStmt 8 (.ofList [.withStmt false (itemOf 3) [itemOf 4]
      (.ofList [.simple 1, .breakStmt])]) .nil,
    .simple 9]

end DietPython.ControlFlow.Source
