import DietPython.ControlFlow.WithSteps

/-!
# Entering and leaving an item

The desugared statements of an item, run from their first to the body of the `try`, and from the
end of the body to what follows.
-/

namespace DietPython.ControlFlow.Source

open Machines

variable {E T V X St : Type} {l : Bool}

/-! ## Where items are safe -/

/-- An item is entered as Python enters it: a simple context expression gives the same object when
it is evaluated again, behind the lookup of the exit, and if the item is entered the assignment of
what it gives does not fail. -/
structure EntersSafely (rt : Runtime E T V X St) (cm : ContextManagers V X St) (isAsync : Bool)
    (item : WithItem E T) (current : Option X) (s : St) : Prop where
  again : item.isSimple = true → ∀ ctx u exitFn u',
    rt.eval item.contextExpr (rt.given item.contextExpr current) s = (.ok ctx, u) →
    cm.getExit isAsync ctx u = (.ok exitFn, u') →
    rt.eval item.contextExpr (rt.given item.contextExpr current) u' = (.ok ctx, u')
  assigned : ∀ exitFn x u, enterItem rt cm isAsync item current s ≠ (.entered exitFn (.error x), u)

/-- At a state where a `with` is entered or left, the desugared statements do what Python does. An
`async with` stands in a coroutine, where the jumps to a `finally` body do not write what it
dispatches on. -/
def KeepsWith (rt : Runtime E T V X St) (cm : ContextManagers V X St)
    (matchesBase : X → St → Except X Bool × St) : Config E T V X St → Prop
  | .run (.cons _ (.withStmt isAsync item _ _) _) k s =>
    isAsync = false ∧ EntersSafely rt cm isAsync item (s.held k).exception? s.user
  | .unwind .brk (.withBody ..) _ | .unwind .cont (.withBody ..) _ => False
  | .unwind (.exc x) (.withBody ..) s => matchesBase x s.user = (.ok true, s.user)
  | _ => True

/-! ## Steps of desugared statements -/

section Steps

variable {rt' : Runtime (WithExpr E T) T V X (WithState V X St)}
  {k : ControlFlow.Kont (WithExpr E T) T V X l} {s : ControlFlow.State X (WithState V X St)}
  {y : Bool} {rest : ControlFlow.Stmts (WithExpr E T) T l}

theorem step_simple_ok {e : WithExpr E T} {v : V} {s' : WithState V X St}
    (h : rt'.eval e (ControlFlow.givenTo rt' .lowered e k s) s.user = (.ok v, s')) :
    (ControlFlow.structured rt' .lowered).step (.run (.cons y (.simple e) rest) k s) =
      .inl (.run rest k ⟨s', s.caught, .jumps⟩) := by
  show Sum.inl (ControlFlow.stepStmt rt' .lowered (.simple e) rest k (s.settle y)) = _
  have h : rt'.eval e (ControlFlow.givenTo rt' .lowered e k (s.settle y)) (s.settle y).user =
    (.ok v, s') := h
  simp only [ControlFlow.stepStmt, h]
  rfl

theorem step_simple_error {e : WithExpr E T} {x : X} {s' : WithState V X St}
    (h : rt'.eval e (ControlFlow.givenTo rt' .lowered e k s) s.user = (.error x, s')) :
    (ControlFlow.structured rt' .lowered).step (.run (.cons y (.simple e) rest) k s) =
      .inl (.unwind (.exc x) k ⟨s', s.caught, .branched⟩) := by
  show Sum.inl (ControlFlow.stepStmt rt' .lowered (.simple e) rest k (s.settle y)) = _
  have h : rt'.eval e (ControlFlow.givenTo rt' .lowered e k (s.settle y)) (s.settle y).user =
    (.error x, s') := h
  simp only [ControlFlow.stepStmt, h]
  rfl

theorem step_raise {e : WithExpr E T} {x : X} {s' : WithState V X St}
    (h : rt'.eval e (ControlFlow.givenTo rt' .lowered e k s) s.user = (.error x, s')) :
    (ControlFlow.structured rt' .lowered).step (.run (.cons y (.raiseStmt (some e)) rest) k s) =
      .inl (.unwind (.exc x) k ⟨s', s.caught, .branched⟩) := by
  show Sum.inl (ControlFlow.stepStmt rt' .lowered (.raiseStmt (some e)) rest k (s.settle y)) = _
  have h : rt'.eval e (ControlFlow.givenTo rt' .lowered e k (s.settle y)) (s.settle y).user =
    (.error x, s') := h
  simp only [ControlFlow.stepStmt, h]
  rfl

theorem step_if_true {e : WithExpr E T} {s' : WithState V X St}
    {body orelse : ControlFlow.Stmts (WithExpr E T) T l}
    (h : rt'.test e (ControlFlow.givenTo rt' .lowered e k s) s.user = (.ok true, s')) :
    (ControlFlow.structured rt' .lowered).step (.run (.cons y (.ifStmt e body orelse) rest) k s) =
      .inl (.run body (.seq rest k) ⟨s', s.caught, .branched⟩) := by
  show Sum.inl (ControlFlow.stepStmt rt' .lowered (.ifStmt e body orelse) rest k (s.settle y)) = _
  have h : rt'.test e (ControlFlow.givenTo rt' .lowered e k (s.settle y)) (s.settle y).user =
    (.ok true, s') := h
  simp only [ControlFlow.stepStmt, h]
  rfl

theorem step_if_false {e : WithExpr E T} {s' : WithState V X St}
    {body orelse : ControlFlow.Stmts (WithExpr E T) T l}
    (h : rt'.test e (ControlFlow.givenTo rt' .lowered e k s) s.user = (.ok false, s')) :
    (ControlFlow.structured rt' .lowered).step (.run (.cons y (.ifStmt e body orelse) rest) k s) =
      .inl (.run orelse (.seq rest k) ⟨s', s.caught, .branched⟩) := by
  show Sum.inl (ControlFlow.stepStmt rt' .lowered (.ifStmt e body orelse) rest k (s.settle y)) = _
  have h : rt'.test e (ControlFlow.givenTo rt' .lowered e k (s.settle y)) (s.settle y).user =
    (.ok false, s') := h
  simp only [ControlFlow.stepStmt, h]
  rfl

end Steps

/-! ## Entering -/

section Entering

variable {rt : Runtime E T V X St} {cm : ContextManagers V X St}
  {matchesBase : X → St → Except X Bool × St} {k' : ControlFlow.Kont (WithExpr E T) T V X l}
  {names : ℕ → WithNames V X} {u : St} {c : Option X} {a : Arrival}

/-- The exception that the desugared program finds. -/
def currentAt (k' : ControlFlow.Kont (WithExpr E T) T V X l) (c : Option X) : Option X :=
  (if k'.inRegion then c.elim Held.noneObject Held.exc else .absent).exception?

/-- The context of an item is there: the expression gives it and does nothing else, or the
temporary holds it. -/
def HasContext (rt : Runtime E T V X St) (current : Option X) (ctx : V) (s : WithState V X St) :
    ContextRef E → Prop
  | .direct e => rt.eval e (rt.given e current) s.user = (.ok ctx, s.user)
  | .tmp n => (s.names n).context = some ctx

theorem eval_enter {isAsync : Bool} {current : Option X} {ctx : V} {s : WithState V X St}
    {ref : ContextRef E} (h : HasContext rt current ctx s ref) (target : Option T) :
    (withRuntime rt cm matchesBase).eval (.enter isAsync ref target)
        ((withRuntime rt cm matchesBase).given (.enter isAsync ref target) current) s =
      andThen (lift (cm.enter isAsync ctx) s id) fun v s => assignEntered rt target v s := by
  show evalWith rt cm (.enter isAsync ref target) _ s = _
  cases ref with
  | direct e =>
    have h : rt.eval e (rt.given e (rt.given e current)) s.user = (.ok ctx, s.user) :=
      (given_given rt e current).symm ▸ h
    show evalWith rt cm (.enter isAsync (.direct e) target) (rt.given e current) s = _
    simp only [evalWith, evalContext, lift, h]
    rfl
  | tmp n =>
    have h : (s.names n).context = some ctx := h
    simp only [evalWith, evalContext, load, h]
    rfl

/-- The names of an item, once it is entered. -/
def IsEntered (names names' : ℕ → WithNames V X) (g : ℕ) (exitFn : V) : Prop :=
  (∀ m < g, names' m = names m) ∧ (names' g).exitFn = some exitFn ∧ (names' g).ok = true

/-- From `p` the desugared program enters an item with this result. Nothing is said when the item
is entered and the assignment fails. -/
def EntersAs (m : Machine (ControlFlow.Config (WithExpr E T) T V X (WithState V X St))
      (Outcome V X (WithState V X St))) (g : ℕ)
    (inside : ControlFlow.State X (WithState V X St) →
      ControlFlow.Config (WithExpr E T) T V X (WithState V X St))
    (k' : ControlFlow.Kont (WithExpr E T) T V X l) (c : Option X) (names : ℕ → WithNames V X)
    (p : ControlFlow.Config (WithExpr E T) T V X (WithState V X St)) :
    Entered V X × St → Prop
  | (.failed x, u) => ∃ names' a, m.Moves p (.unwind (.exc x) k' ⟨⟨u, names'⟩, c, a⟩) ∧
    ∀ i < g, names' i = names i
  | (.entered exitFn (.ok ()), u) => ∃ names' a, m.Moves p (inside ⟨⟨u, names'⟩, c, a⟩) ∧
    IsEntered names names' g exitFn
  | (.entered _ (.error _), _) => True

/-- A step in front of it that leaves the names of other items alone. -/
theorem EntersAs.step {m : Machine (ControlFlow.Config (WithExpr E T) T V X (WithState V X St))
      (Outcome V X (WithState V X St))} {g : ℕ}
    {inside : ControlFlow.State X (WithState V X St) →
      ControlFlow.Config (WithExpr E T) T V X (WithState V X St)}
    {names' : ℕ → WithNames V X}
    {p p' : ControlFlow.Config (WithExpr E T) T V X (WithState V X St)} {r : Entered V X × St}
    (h : EntersAs m g inside k' c names' p' r) (hstep : m.step p = .inl p')
    (hnames : ∀ i < g, names' i = names i) : EntersAs m g inside k' c names p r := by
  obtain ⟨x | ⟨exitFn, _ | _⟩, u⟩ := r
  · obtain ⟨names'', a, hmoves, hkeep⟩ := h
    exact ⟨names'', a, Machine.Moves.step m hstep (Machine.Moves.reaches m hmoves),
      fun i hi => (hkeep i hi).trans (hnames i hi)⟩
  · trivial
  · obtain ⟨names'', a, hmoves, hkeep, hentered⟩ := h
    exact ⟨names'', a, Machine.Moves.step m hstep (Machine.Moves.reaches m hmoves),
      fun i hi => (hkeep i hi).trans (hnames i hi), hentered⟩

section Item

variable (rt cm matchesBase) (isAsync : Bool) (g : ℕ) (cleanup : Bool)
  (body' rest' : ControlFlow.Stmts (WithExpr E T) T l)

/-- The machine of the desugared statements. -/
abbrev desugared : Machine (ControlFlow.Config (WithExpr E T) T V X (WithState V X St))
    (Outcome V X (WithState V X St)) :=
  ControlFlow.structured (withRuntime rt cm matchesBase) .lowered

/-- The start of the body of an item. -/
def insideItem (k' : ControlFlow.Kont (WithExpr E T) T V X l)
    (s : ControlFlow.State X (WithState V X St)) :
    ControlFlow.Config (WithExpr E T) T V X (WithState V X St) :=
  ControlFlow.enterBody body' (.tryBody (withHandler isAsync g) .nil .nil
    (withFinally isAsync g cleanup) (.seq rest' k')) s

/-- The statements of an item behind the lookup of its exit. -/
def enteringStmts (ref : ContextRef E) (target : Option T) :
    ControlFlow.Stmts (WithExpr E T) T l :=
  .cons false (.simple (.enter isAsync ref target))
    (.cons false (.simple (.storeOk g true))
      (.cons false (withTry isAsync g cleanup body') rest'))

variable {rt cm matchesBase isAsync g cleanup body' rest'}

/-- Behind the lookup of the exit. -/
theorem entersAs_enter {ctx exitFn : V} {ref : ContextRef E} {target : Option T}
    {s : WithState V X St} (hctx : HasContext rt (currentAt k' c) ctx s ref)
    (hexit : (s.names g).exitFn = some exitFn) :
    EntersAs (desugared rt cm matchesBase) g (insideItem isAsync g cleanup body' rest' k') k' c
      s.names (.run (enteringStmts isAsync g cleanup body' rest' ref target) k' ⟨s, c, a⟩)
      (match cm.enter isAsync ctx s.user with
        | (.error x, u) => (.failed x, u)
        | (.ok v, u) =>
          match target with
          | none => (.entered exitFn (.ok ()), u)
          | some target =>
            let (r, u) := rt.assign target v u
            (.entered exitFn r, u)) := by
  have heval : (withRuntime rt cm matchesBase).eval (.enter isAsync ref target)
      ((withRuntime rt cm matchesBase).given (.enter isAsync ref target) (currentAt k' c)) s =
      andThen (lift (cm.enter isAsync ctx) s id) fun v s => assignEntered rt target v s :=
    eval_enter hctx target
  -- behind an assignment that succeeds
  have hinside : ∀ v u, (withRuntime rt cm matchesBase).eval (.enter isAsync ref target)
      ((withRuntime rt cm matchesBase).given (.enter isAsync ref target) (currentAt k' c)) s =
      (.ok v, s.setUser u) →
      EntersAs (desugared rt cm matchesBase) g (insideItem isAsync g cleanup body' rest' k') k' c
        s.names (.run (enteringStmts isAsync g cleanup body' rest' ref target) k' ⟨s, c, a⟩)
        (.entered exitFn (.ok ()), u) := fun v u h =>
    ⟨((s.setUser u).update g fun names => { names with ok := true }).names, .jumps,
      Machine.Moves.step _ (step_simple_ok h) (Machine.Reaches.step _ (step_simple_ok rfl)
        (Machine.Reaches.step _ rfl (Machine.Reaches.refl _ _))),
      fun m hm => WithState.update_names_of_lt _ _ _ hm,
      by rw [WithState.update_names_self]; exact hexit,
      by rw [WithState.update_names_self]⟩
  rcases henter : cm.enter isAsync ctx s.user with ⟨x | v, u⟩
  · simp only [lift, henter, andThen] at heval
    exact ⟨s.names, .branched, Machine.Moves.step _ (step_simple_error heval)
      (Machine.Reaches.refl _ _), fun _ _ => rfl⟩
  · simp only [lift, henter, andThen, id] at heval
    cases target with
    | none => exact hinside v u heval
    | some target =>
      rcases hassign : rt.assign target v u with ⟨x | _, u'⟩
      · simp only [hassign]
        trivial
      · simp only [hassign]
        simp only [assignEntered, lift, WithState.setUser_user, hassign] at heval
        exact hinside _ u' heval

/-- From the lookup of the exit on. -/
theorem entersAs_storeExit {ctx : V} {ref : ContextRef E} {target : Option T} {y : Bool}
    {s s₁ : WithState V X St}
    (heval : (withRuntime rt cm matchesBase).eval (.storeExit isAsync g ref)
        ((withRuntime rt cm matchesBase).given (.storeExit isAsync g ref) (currentAt k' c)) s =
      andThen (lift (cm.getExit isAsync ctx) s₁ id) fun exitFn s =>
        (.ok rt.noneValue, s.update g fun names => { names with exitFn := some exitFn }))
    (hnames : s₁.names = s.names)
    (hagain : ∀ exitFn u, cm.getExit isAsync ctx s₁.user = (.ok exitFn, u) →
      HasContext rt (currentAt k' c) ctx
        ((s₁.setUser u).update g fun names => { names with exitFn := some exitFn }) ref) :
    EntersAs (desugared rt cm matchesBase) g (insideItem isAsync g cleanup body' rest' k') k' c
      s.names (.run (.cons y (.simple (.storeExit isAsync g ref))
        (enteringStmts isAsync g cleanup body' rest' ref target)) k' ⟨s, c, a⟩)
      (match cm.getExit isAsync ctx s₁.user with
        | (.error x, u) => (.failed x, u)
        | (.ok exitFn, u) =>
          match cm.enter isAsync ctx u with
          | (.error x, u) => (.failed x, u)
          | (.ok v, u) =>
            match target with
            | none => (.entered exitFn (.ok ()), u)
            | some target =>
              let (r, u) := rt.assign target v u
              (.entered exitFn r, u)) := by
  rcases hexit : cm.getExit isAsync ctx s₁.user with ⟨x | exitFn, u⟩
  · simp only [lift, hexit, andThen] at heval
    exact ⟨s₁.names, .branched, Machine.Moves.step _ (step_simple_error heval)
      (Machine.Reaches.refl _ _), fun i _ => by rw [hnames]⟩
  · simp only [lift, hexit, andThen, id] at heval
    have hctx := hagain exitFn u hexit
    refine EntersAs.step (entersAs_enter hctx (by rw [WithState.update_names_self]))
      (step_simple_ok heval) fun i hi => ?_
    rw [WithState.update_names_of_lt _ _ _ hi, WithState.setUser_names, hnames]

/-- **Entering.** The statements of an item enter it as Python does. -/
theorem entersAs_item {item : WithItem E T} {y : Bool}
    (hsafe : EntersSafely rt cm isAsync item (currentAt k' c) u) :
    EntersAs (desugared rt cm matchesBase) g
      (insideItem isAsync g (!item.isSimple) body' rest' k') k' c names
      (.run (.cons y (desugarItem isAsync g item body' rest').1
        (desugarItem isAsync g item body' rest').2) k' ⟨⟨u, names⟩, c, a⟩)
      (enterItem rt cm isAsync item (currentAt k' c) u) := by
  obtain ⟨e, isSimple, target⟩ := item
  have hgiven := given_given rt e (currentAt k' c)
  cases isSimple with
  | true =>
    rcases hctx : rt.eval e (rt.given e (currentAt k' c)) u with ⟨x | ctx, u₁⟩
    · have heval : evalWith rt cm (.storeExit isAsync g (.direct e)) (rt.given e (currentAt k' c))
          ⟨u, names⟩ = (.error x, ⟨u₁, names⟩) := by
        simp only [evalWith, evalContext, lift, hgiven, hctx]
        rfl
      simp only [enterItem, hctx]
      exact ⟨names, .branched, Machine.Moves.step _ (step_simple_error heval)
        (Machine.Reaches.refl _ _), fun _ _ => rfl⟩
    · have heval : evalWith rt cm (.storeExit isAsync g (.direct e)) (rt.given e (currentAt k' c))
          ⟨u, names⟩ = andThen (lift (cm.getExit isAsync ctx) ⟨u₁, names⟩ id) fun exitFn s =>
            (.ok rt.noneValue, s.update g fun names => { names with exitFn := some exitFn }) := by
        simp only [evalWith, evalContext, lift, hgiven, hctx]
        rfl
      simp only [enterItem, hctx]
      exact entersAs_storeExit heval rfl fun exitFn u' hexit =>
        hsafe.again rfl ctx u₁ exitFn u' hctx hexit
  | false =>
    rcases hctx : rt.eval e (rt.given e (currentAt k' c)) u with ⟨x | ctx, u₁⟩
    · have heval : evalWith rt cm (.storeContext g e) (rt.given e (currentAt k' c)) ⟨u, names⟩ =
          (.error x, ⟨u₁, names⟩) := by
        simp only [evalWith, lift, hgiven, hctx]
        rfl
      simp only [enterItem, hctx]
      exact ⟨names, .branched, Machine.Moves.step _ (step_simple_error heval)
        (Machine.Reaches.refl _ _), fun _ _ => rfl⟩
    · let s₁ : WithState V X St :=
        (⟨u₁, names⟩ : WithState V X St).update g fun names => { names with context := some ctx }
      have heval : evalWith rt cm (.storeContext g e) (rt.given e (currentAt k' c)) ⟨u, names⟩ =
          (.ok rt.noneValue, s₁) := by
        simp only [evalWith, lift, hgiven, hctx]
        rfl
      have hstored : (s₁.names g).context = some ctx := by
        rw [WithState.update_names_self]
      have hexit : evalWith rt cm (.storeExit isAsync g (.tmp g)) none s₁ =
          andThen (lift (cm.getExit isAsync ctx) s₁ id) fun exitFn s =>
            (.ok rt.noneValue, s.update g fun names => { names with exitFn := some exitFn }) := by
        simp only [evalWith, evalContext, load, hstored]
        rfl
      simp only [enterItem, hctx]
      refine EntersAs.step (entersAs_storeExit (s := s₁) hexit rfl
        fun exitFn u' _ => ?_) (step_simple_ok heval)
        fun i hi => WithState.update_names_of_lt _ _ _ hi
      show ((WithState.update _ g _).names g).context = some ctx
      rw [WithState.update_names_self]
      exact hstored

end Item

end Entering

/-! ## Leaving -/

section Leaving

variable {rt : Runtime E T V X St} {cm : ContextManagers V X St}
  {matchesBase : X → St → Except X Bool × St} {k' : ControlFlow.Kont (WithExpr E T) T V X l}
  {g : ℕ} {isAsync cleanup : Bool} {s : WithState V X St} {c : Option X} {a : Arrival}

/-- From `p` the desugared program is on its way with this signal, and only names of the item have
been written. -/
def LeavesAs (m : Machine (ControlFlow.Config (WithExpr E T) T V X (WithState V X St))
      (Outcome V X (WithState V X St))) (g : ℕ)
    (p : ControlFlow.Config (WithExpr E T) T V X (WithState V X St)) (signal : Signal V X l)
    (k' : ControlFlow.Kont (WithExpr E T) T V X l) (u : St) (names : ℕ → WithNames V X)
    (c : Option X) : Prop :=
  ∃ names' a, m.Moves p (.unwind signal k' ⟨⟨u, names'⟩, c, a⟩) ∧
    ∀ i < g, names' i = names i

theorem LeavesAs.step {m : Machine (ControlFlow.Config (WithExpr E T) T V X (WithState V X St))
      (Outcome V X (WithState V X St))}
    {p p' : ControlFlow.Config (WithExpr E T) T V X (WithState V X St)} {signal : Signal V X l}
    {u : St} {names : ℕ → WithNames V X} (h : LeavesAs m g p' signal k' u names c)
    (hstep : m.step p = .inl p') : LeavesAs m g p signal k' u names c := by
  obtain ⟨names', a, hmoves, hnames⟩ := h
  exact ⟨names', a, Machine.Moves.step m hstep (Machine.Moves.reaches m hmoves), hnames⟩

theorem LeavesAs.names {m : Machine (ControlFlow.Config (WithExpr E T) T V X (WithState V X St))
      (Outcome V X (WithState V X St))}
    {p : ControlFlow.Config (WithExpr E T) T V X (WithState V X St)} {signal : Signal V X l}
    {u : St} {names names' : ℕ → WithNames V X} (h : LeavesAs m g p signal k' u names' c)
    (hnames : ∀ i < g, names' i = names i) : LeavesAs m g p signal k' u names c := by
  obtain ⟨names'', a, hreaches, hkeep⟩ := h
  exact ⟨names'', a, hreaches, fun i hi => (hkeep i hi).trans (hnames i hi)⟩

/-- The last statements of the `finally` body of an item. -/
theorem leavesAs_cleanup (pending : Signal V X l) :
    LeavesAs (desugared rt cm matchesBase) g
      (.run (.ofList (.simple (.clearExit g) ::
          if cleanup then [.simple (.clearContext g)] else []))
        (.finalBody pending k') ⟨s, c, a⟩) .normal (.finalBody pending k') s.user s.names c := by
  cases cleanup with
  | false =>
    exact ⟨(s.update g fun names => { names with exitFn := none }).names, .jumps,
      Machine.Moves.step _ (step_simple_ok rfl) (Machine.Reaches.step _ rfl
        (Machine.Reaches.refl _ _)), fun i hi => WithState.update_names_of_lt _ _ _ hi⟩
  | true =>
    refine ⟨((s.update g fun names => { names with exitFn := none }).update g
        fun names => { names with context := none }).names, .jumps,
      Machine.Moves.step _ (step_simple_ok rfl) (Machine.Reaches.step _ (step_simple_ok rfl)
        (Machine.Reaches.step _ rfl (Machine.Reaches.refl _ _))), fun i hi => ?_⟩
    rw [WithState.update_names_of_lt _ _ _ hi, WithState.update_names_of_lt _ _ _ hi]

/-- The `finally` body of an item whose exit has been called. -/
theorem leavesAs_called (pending : Signal V X l) (hok : (s.names g).ok = false) :
    LeavesAs (desugared rt cm matchesBase) g
      (.run (withFinally isAsync g cleanup) (.finalBody pending k') ⟨s, c, a⟩) .normal
      (.finalBody pending k') s.user s.names c := by
  have htest : (withRuntime rt cm matchesBase).test (.loadOk g)
      (ControlFlow.givenTo (withRuntime rt cm matchesBase) .lowered (.loadOk g)
        (.finalBody pending k') ⟨s, c, a⟩) s = (.ok false, s) := by
    show (Except.ok (s.names g).ok, s) = _
    rw [hok]
  exact ((((leavesAs_cleanup pending).step rfl).step rfl).step (step_if_false htest))

/-- The exit of an item is called without an exception. -/
theorem eval_exitWithNone {exitFn : V} (hexit : (s.names g).exitFn = some exitFn)
    (current : Option X) :
    (withRuntime rt cm matchesBase).eval (.exitWithNone isAsync g) current s =
      (match cm.callExit isAsync exitFn none s.user with
        | (.ok _, u) => (.ok rt.noneValue, s.setUser u)
        | (.error x, u) => (.error x, s.setUser u)) := by
  cases isAsync with
  | false =>
    show andThen (load rt (s.names g).exitFn s) _ = _
    rw [hexit]
    show lift (contextmanagerExit cm exitFn none) s _ = _
    unfold lift contextmanagerExit
    rcases cm.callExit false exitFn none s.user with ⟨x | v, u⟩ <;> rfl
  | true =>
    show andThen (load rt (s.names g).exitFn s) _ = _
    rw [hexit]
    show lift (asynccontextmanagerExit cm exitFn none) s _ = _
    unfold lift asynccontextmanagerExit
    rcases cm.callExit true exitFn none s.user with ⟨x | v, u⟩ <;> rfl

theorem eval_reraise {x : X} (h : (s.names g).reraise = some x) (current : Option X) :
    (withRuntime rt cm matchesBase).eval (.reraise g) current s = (.error x, s) := by
  show evalWith rt cm (.reraise g) current s = _
  simp only [evalWith, h]

section Uncalled

variable {exitFn : V} {u : St} (hexit : (s.names g).exitFn = some exitFn)
  (hok : (s.names g).ok = true)

include hok in
theorem test_loadOk (current : Option X) :
    (withRuntime rt cm matchesBase).test (.loadOk g) current s = (.ok true, s) := by
  show (Except.ok (s.names g).ok, s) = _
  rw [hok]

include hexit hok

/-- The `finally` body of an item calls an exit that has not been called. -/
theorem leavesAs_uncalled {v : V} (hcall : cm.callExit isAsync exitFn none s.user = (.ok v, u))
    (pending : Signal V X l) :
    LeavesAs (desugared rt cm matchesBase) g
      (.run (withFinally isAsync g cleanup) (.finalBody pending k') ⟨s, c, a⟩) .normal
      (.finalBody pending k') u s.names c := by
  have heval : ∀ current, (withRuntime rt cm matchesBase).eval (.exitWithNone isAsync g) current s =
      (.ok rt.noneValue, s.setUser u) := fun current => by
    rw [eval_exitWithNone hexit, hcall]
  exact ((((leavesAs_cleanup (s := s.setUser u) pending).step rfl).step rfl).step
    (step_simple_ok (heval _))).step (step_if_true (test_loadOk hok _))

/-- The exit that the `finally` body calls raises. -/
theorem leavesAs_uncalled_error {x : X}
    (hcall : cm.callExit isAsync exitFn none s.user = (.error x, u)) (pending : Signal V X l) :
    LeavesAs (desugared rt cm matchesBase) g
      (.run (withFinally isAsync g cleanup) (.finalBody pending k') ⟨s, c, a⟩) (.exc x) k' u
      s.names c := by
  have heval : ∀ current, (withRuntime rt cm matchesBase).eval (.exitWithNone isAsync g) current s =
      (.error x, s.setUser u) := fun current => by
    rw [eval_exitWithNone hexit, hcall]
  exact ⟨s.names, .branched, Machine.Moves.step _ (step_if_true (test_loadOk hok _))
    (Machine.Reaches.step _ (step_simple_error (heval _)) (Machine.Reaches.step _ rfl
      (Machine.Reaches.step _ rfl (Machine.Reaches.refl _ _)))), fun _ _ => rfl⟩

end Uncalled

/-- Behind a `finally` body that has come to its end. -/
theorem LeavesAs.resume {p : ControlFlow.Config (WithExpr E T) T V X (WithState V X St)}
    {pending signal : Signal V X l} {u : St} {names : ℕ → WithNames V X} {c c' : Option X}
    (h : LeavesAs (desugared rt cm matchesBase) g p .normal (.finalBody pending k') u names c)
    (hstep : ∀ names' a, ∃ a', (desugared rt cm matchesBase).step
      (.unwind .normal (.finalBody pending k') ⟨⟨u, names'⟩, c, a⟩) =
        .inl (.unwind signal k' ⟨⟨u, names'⟩, c', a'⟩)) :
    LeavesAs (desugared rt cm matchesBase) g p signal k' u names c' := by
  obtain ⟨names', a, hmoves, hnames⟩ := h
  obtain ⟨a', hstep⟩ := hstep names' a
  exact ⟨names', a', Machine.Moves.trans _ hmoves
    (Machine.Reaches.step _ hstep (Machine.Reaches.refl _ _)), hnames⟩

/-- **Leaving without an exception.** The `finally` body calls the exit once, with three `None`s. -/
theorem leavesAs_plain {signal : Signal V X l} (hsignal : signal = .normal ∨ ∃ v, signal = .ret v)
    {exitFn v : V} {u : St} (hexit : (s.names g).exitFn = some exitFn)
    (hok : (s.names g).ok = true)
    (hcall : cm.callExit isAsync exitFn none s.user = (.ok v, u)) :
    LeavesAs (desugared rt cm matchesBase) g
      (.unwind signal (.tryBody (withHandler isAsync g) .nil .nil
        (withFinally isAsync g cleanup) k') ⟨s, c, a⟩) signal k' u s.names
      (if k'.inRegion then c else none) := by
  obtain rfl | ⟨v, rfl⟩ := hsignal
  · exact (((leavesAs_uncalled hexit hok hcall .normal).resume
      fun _ _ => ⟨.branched, rfl⟩).step rfl).step rfl
  · exact ((leavesAs_uncalled hexit hok hcall (.ret v)).resume
      fun _ _ => ⟨.jumps, rfl⟩).step rfl

/-- The exit raises. -/
theorem leavesAs_plain_error {signal : Signal V X l}
    (hsignal : signal = .normal ∨ ∃ v, signal = .ret v) {exitFn : V} {x : X} {u : St}
    (hexit : (s.names g).exitFn = some exitFn) (hok : (s.names g).ok = true)
    (hcall : cm.callExit isAsync exitFn none s.user = (.error x, u)) :
    ∃ c', LeavesAs (desugared rt cm matchesBase) g
      (.unwind signal (.tryBody (withHandler isAsync g) .nil .nil
        (withFinally isAsync g cleanup) k') ⟨s, c, a⟩) (.exc x) k' u s.names c' := by
  obtain rfl | ⟨v, rfl⟩ := hsignal
  · exact ⟨_, ((leavesAs_uncalled_error hexit hok hcall .normal).step rfl).step rfl⟩
  · exact ⟨_, (leavesAs_uncalled_error hexit hok hcall (.ret v)).step rfl⟩

/-- A handler that has suppressed its exception. -/
theorem leavesAs_suppressed (x : X) (hok : (s.names g).ok = false) :
    LeavesAs (desugared rt cm matchesBase) g
      (.unwind .normal (.handling x (withFinally isAsync g cleanup) k') ⟨s, some x, a⟩) .normal k'
      s.user s.names (if k'.inRegion then some x else none) :=
  ((leavesAs_called .normal hok).resume fun _ _ => ⟨.branched, rfl⟩).step rfl

/-- A handler that raises. -/
theorem leavesAs_raised (x y : X) (hok : (s.names g).ok = false) :
    LeavesAs (desugared rt cm matchesBase) g
      (.unwind (.exc y) (.handling x (withFinally isAsync g cleanup) k') ⟨s, c, a⟩) (.exc y) k'
      s.user s.names (some y) :=
  ((leavesAs_called (.exc y) hok).resume fun _ _ => ⟨.branched, rfl⟩).step rfl

/-- From `p` the desugared program leaves an item by an exception when the exit gave this. -/
def LeavesByExc (m : Machine (ControlFlow.Config (WithExpr E T) T V X (WithState V X St))
      (Outcome V X (WithState V X St))) (g : ℕ)
    (p : ControlFlow.Config (WithExpr E T) T V X (WithState V X St))
    (k' : ControlFlow.Kont (WithExpr E T) T V X l) (names : ℕ → WithNames V X) (x : X) :
    Except X Bool × St → Prop
  | (.ok true, u) => LeavesAs m g p .normal k' u names (if k'.inRegion then some x else none)
  | (.ok false, u) => LeavesAs m g p (.exc x) k' u names (some x)
  | (.error y, u) => LeavesAs m g p (.exc y) k' u names (some y)

section Handled

variable (x : X) {exitFn : V} (hexit : (s.names g).exitFn = some exitFn)
  (hmatches : matchesBase x s.user = (.ok true, s.user))

/-- The state in which the handler calls the exit. -/
abbrev calledState (g : ℕ) (s : WithState V X St) : WithState V X St :=
  s.update g fun names => { names with ok := false }

/-- What `asynccontextmanager_exit` gave is stored. -/
abbrev storedState (g : ℕ) (s : WithState V X St) (u : St) (exc : Option X) :
    WithState V X St :=
  ((calledState g s).setUser u).update g fun names => { names with reraise := exc }

theorem calledState_names_of_lt (i : ℕ) (hi : i < g) : (calledState g s).names i = s.names i :=
  WithState.update_names_of_lt _ _ _ hi

include hexit in
theorem calledState_exitFn : ((calledState g s).names g).exitFn = some exitFn := by
  rw [WithState.update_names_self]
  exact hexit

theorem storedState_ok (u : St) (exc : Option X) :
    ((storedState g s u exc).names g).ok = false := by
  rw [WithState.update_names_self, WithState.setUser_names, WithState.update_names_self]

theorem storedState_names_of_lt (u : St) (exc : Option X) (i : ℕ) (hi : i < g) :
    (storedState g s u exc).names i = s.names i :=
  (WithState.update_names_of_lt _ _ _ hi).trans (calledState_names_of_lt i hi)

include hmatches in
/-- The handler of an item catches every exception. -/
theorem test_matchesBase : (withRuntime rt cm matchesBase).test .matchesBaseException
    (ControlFlow.givenTo (withRuntime rt cm matchesBase) .lowered .matchesBaseException
      (.handling x (withFinally isAsync g cleanup) k') ⟨s, some x, .branched⟩) s =
    (.ok true, s) := by
  show lift (matchesBase x) s id = _
  unfold lift
  rw [hmatches]
  rfl

variable (rt cm matchesBase) in
include hexit in
theorem eval_exitWithCurrent :
    (withRuntime rt cm matchesBase).eval (.exitWithCurrent g) (some x) (calledState g s) =
      lift (contextmanagerExit cm exitFn (some x)) (calledState g s)
        fun r => r.map fun _ => rt.noneValue := by
  show andThen (load rt ((calledState g s).names g).exitFn (calledState g s)) _ = _
  rw [calledState_exitFn hexit]
  rfl

include hexit in
theorem eval_storeReraise_ok {exc : Option X} {u : St}
    (h : asynccontextmanagerExit cm exitFn (some x) s.user = (.ok exc, u)) :
    (withRuntime rt cm matchesBase).eval (.storeReraise g) (some x) (calledState g s) =
      (.ok rt.noneValue, storedState g s u exc) := by
  have huser : (calledState g s).user = s.user := rfl
  show andThen (load rt ((calledState g s).names g).exitFn (calledState g s)) _ = _
  rw [calledState_exitFn hexit]
  show andThen (lift (asynccontextmanagerExit cm exitFn (some x)) (calledState g s) id) _ = _
  unfold lift
  rw [huser, h]
  rfl

include hexit in
theorem eval_storeReraise_error {y : X} {u : St}
    (h : asynccontextmanagerExit cm exitFn (some x) s.user = (.error y, u)) :
    (withRuntime rt cm matchesBase).eval (.storeReraise g) (some x) (calledState g s) =
      (.error y, (calledState g s).setUser u) := by
  have huser : (calledState g s).user = s.user := rfl
  show andThen (load rt ((calledState g s).names g).exitFn (calledState g s)) _ = _
  rw [calledState_exitFn hexit]
  show andThen (lift (asynccontextmanagerExit cm exitFn (some x)) (calledState g s) id) _ = _
  unfold lift
  rw [huser, h]
  rfl

theorem test_reraiseIsNotNone (exc : Option X) (u : St) (current : Option X) :
    (withRuntime rt cm matchesBase).test (.reraiseIsNotNone g) current (storedState g s u exc) =
      (.ok exc.isSome, storedState g s u exc) := by
  show (Except.ok ((storedState g s u exc).names g).reraise.isSome, _) = _
  rw [WithState.update_names_self]

theorem eval_reraise_stored (u : St) (current : Option X) :
    (withRuntime rt cm matchesBase).eval (.reraise g) current (storedState g s u (some x)) =
      (.error x, storedState g s u (some x)) := by
  refine eval_reraise (?_ : (WithState.names _ g).reraise = some x) current
  rw [WithState.update_names_self]

include hexit hmatches

/-- The handler of a `with`: the helper raises what is not suppressed. -/
theorem leavesAs_exc_sync :
    LeavesByExc (desugared rt cm matchesBase) g
      (.unwind (.exc x) (.tryBody (withHandler false g) .nil .nil
        (withFinally false g cleanup) k') ⟨s, c, a⟩) k' s.names x
      (cm.suppresses false exitFn x s.user) := by
  have heval := eval_exitWithCurrent rt cm matchesBase x hexit
  unfold lift contextmanagerExit at heval
  have hok : ((calledState g s).names g).ok = false := by rw [WithState.update_names_self]
  have huser : (calledState g s).user = s.user := rfl
  rcases hsup : cm.suppresses false exitFn x s.user with ⟨y | _ | _, u⟩
  · simp only [huser, hsup] at heval
    exact (((((((leavesAs_raised (s := (calledState g s).setUser u) x y hok).names
      calledState_names_of_lt).step rfl).step (step_simple_error heval)).step
      (step_simple_ok rfl)).step (step_simple_ok rfl)).step
        (step_if_true (test_matchesBase x hmatches))).step rfl
  · simp only [huser, hsup] at heval
    exact (((((((leavesAs_raised (s := (calledState g s).setUser u) x x hok).names
      calledState_names_of_lt).step rfl).step (step_simple_error heval)).step
      (step_simple_ok rfl)).step (step_simple_ok rfl)).step
        (step_if_true (test_matchesBase x hmatches))).step rfl
  · simp only [huser, hsup] at heval
    exact ((((((((leavesAs_suppressed (s := (calledState g s).setUser u) x hok).names
      calledState_names_of_lt).step rfl).step rfl).step (step_simple_ok heval)).step
      (step_simple_ok rfl)).step (step_simple_ok rfl)).step
        (step_if_true (test_matchesBase x hmatches))).step rfl

/-- The handler of an `async with`: what is not suppressed is stored and raised again. -/
theorem leavesAs_exc_async :
    LeavesByExc (desugared rt cm matchesBase) g
      (.unwind (.exc x) (.tryBody (withHandler true g) .nil .nil
        (withFinally true g cleanup) k') ⟨s, c, a⟩) k' s.names x
      (cm.suppresses true exitFn x s.user) := by
  have hok : ((calledState g s).names g).ok = false := by rw [WithState.update_names_self]
  rcases hsup : cm.suppresses true exitFn x s.user with ⟨y | _ | _, u⟩
  · have hexited : asynccontextmanagerExit cm exitFn (some x) s.user = (.error y, u) := by
      simp only [asynccontextmanagerExit, hsup]
    exact (((((((leavesAs_raised (s := (calledState g s).setUser u) x y hok).names
      calledState_names_of_lt).step rfl).step (step_simple_error
      (eval_storeReraise_error x hexit hexited))).step
      (step_simple_ok rfl)).step (step_simple_ok rfl)).step
        (step_if_true (test_matchesBase x hmatches))).step rfl
  · have hexited : asynccontextmanagerExit cm exitFn (some x) s.user = (.ok (some x), u) := by
      simp only [asynccontextmanagerExit, hsup]
    exact ((((((((((leavesAs_raised x x (storedState_ok u (some x))).names
      (storedState_names_of_lt u (some x))).step rfl).step rfl).step
      (step_raise (eval_reraise_stored x u _))).step
        (step_if_true (test_reraiseIsNotNone (some x) u _))).step
      (step_simple_ok (eval_storeReraise_ok x hexit hexited))).step (step_simple_ok rfl)).step
        (step_simple_ok rfl)).step
      (step_if_true (test_matchesBase x hmatches))).step rfl
  · have hexited : asynccontextmanagerExit cm exitFn (some x) s.user = (.ok none, u) := by
      simp only [asynccontextmanagerExit, hsup]
    exact ((((((((((leavesAs_suppressed x (storedState_ok u none)).names
      (storedState_names_of_lt u none)).step rfl).step rfl).step rfl).step
      (step_if_false (test_reraiseIsNotNone none u _))).step
        (step_simple_ok (eval_storeReraise_ok x hexit hexited))).step
      (step_simple_ok rfl)).step (step_simple_ok rfl)).step
        (step_if_true (test_matchesBase x hmatches))).step rfl

/-- **Leaving with an exception.** The handler calls the exit once, with the exception. -/
theorem leavesAs_exc :
    LeavesByExc (desugared rt cm matchesBase) g
      (.unwind (.exc x) (.tryBody (withHandler isAsync g) .nil .nil
        (withFinally isAsync g cleanup) k') ⟨s, c, a⟩) k' s.names x
      (cm.suppresses isAsync exitFn x s.user) := by
  cases isAsync with
  | false => exact leavesAs_exc_sync x hexit hmatches
  | true => exact leavesAs_exc_async x hexit hmatches

end Handled

end Leaving

end DietPython.ControlFlow.Source
