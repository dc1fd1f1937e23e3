import DietPython.ControlFlow.WithFrames

/-!
# The desugared program takes the same steps

All statements but `with`, and all frames but those of items, step alike in both programs.
-/

namespace DietPython.ControlFlow.Source

open Machines

variable {E T V X St : Type} {l : Bool} {rt : Runtime E T V X St} {cm : ContextManagers V X St}
  {matchesBase : X → St → Except X Bool × St} {k : Kont E T V X l}
  {k' : ControlFlow.Kont (WithExpr E T) T V X l} {n : ℕ} {names : ℕ → WithNames V X} {u : St}
  {c : Option X} {a : Arrival}

/-! ## Regions -/

theorem caughtIn_eq (hk : Frames names k k' n) :
    (⟨⟨u, names⟩, c, a⟩ : ControlFlow.State X (WithState V X St)).caughtIn k' =
      (⟨u, c⟩ : State X St).caughtIn k := by
  unfold ControlFlow.State.caughtIn State.caughtIn
  rw [hk.inRegion]

/-- What an exception on its way has caught does not matter. -/
theorem matches_exc (hk : Frames names k k' n) (x : X) (c' : Option X) :
    Matches (E := E) (T := T) (.unwind (.exc x) k ⟨u, c⟩)
      (.unwind (.exc x) k' ⟨⟨u, names⟩, c', a⟩) :=
  .unwind hk fun h => absurd rfl (h x)

theorem matches_unwind (hk : Frames names k k' n) (signal : Signal V X l) :
    Matches (.unwind signal k ⟨u, c⟩) (.unwind signal k' ⟨⟨u, names⟩, c, a⟩) :=
  .unwind hk fun _ => rfl

theorem matches_enterBody (hk : Frames names k k' n) {body : Stmts E T l}
    {body' : ControlFlow.Stmts (WithExpr E T) T l} (h : Desugars n body body') :
    Matches (enterBody body k ⟨u, c⟩) (ControlFlow.enterBody body' k' ⟨⟨u, names⟩, c, a⟩) := by
  cases h with
  | nil => exact matches_unwind hk .normal
  | cons hg hrest => exact .run hk (.cons hg hrest)

theorem matches_leaveRegion (hk : Frames names k k' n) {finalbody : Stmts E T l}
    {finalbody' : ControlFlow.Stmts (WithExpr E T) T l} (h : Desugars n finalbody finalbody')
    {signal : Signal V X l} {c' : Option X} (hcaught : (∀ e, signal ≠ .exc e) → c' = c) :
    Matches (leaveRegion finalbody signal k ⟨u, c⟩)
      (ControlFlow.leaveRegion .lowered finalbody' signal k' ⟨⟨u, names⟩, c', a⟩) := by
  have hfinal := h
  cases h with
  | nil => exact .unwind hk hcaught
  | cons hg hrest =>
    cases signal with
    | brk | cont => exact .unwind hk hcaught
    | exc e => exact .run (.finalBody hk) hfinal
    | ret v =>
      obtain rfl := hcaught (by simp)
      exact .run (.finalBody hk) hfinal
    | normal =>
      obtain rfl := hcaught (by simp)
      have hframes : Frames names (.finalBody .normal k) (.finalBody .normal k') n := .finalBody hk
      show Matches (.run _ _ ⟨u, (⟨u, c'⟩ : State X St).caughtIn k⟩)
        (.run _ _ ⟨_, (⟨⟨u, names⟩, c', a⟩ : ControlFlow.State X (WithState V X St)).caughtIn k',
          .opens⟩)
      rw [caughtIn_eq hk]
      exact .run hframes hfinal

/-! ## Statements -/

/-- A statement other than `with`. -/
theorem matches_stepStmt (hk : Frames names k k' n) {stmt : Stmt E T l}
    (hstmt : stmt.isWith = false) {g : ℕ} (hg : n ≤ g) {rest : Stmts E T l}
    {rest' : ControlFlow.Stmts (WithExpr E T) T l} (hrest : Desugars n rest rest') :
    Matches (stepStmt rt cm stmt rest k ⟨u, c⟩)
      (ControlFlow.stepStmt (withRuntime rt cm matchesBase) .lowered (stmt.desugar g rest').1
        (stmt.desugar g rest').2 k' ⟨⟨u, names⟩, c, a⟩) := by
  have hseq : Frames names (.seq rest k) (.seq rest' k') n := .seq hk hrest
  cases stmt with
  | simple e =>
    simp only [stepStmt, ControlFlow.stepStmt, Stmt.desugar, eval_source rt cm matchesBase hk]
    rcases rt.eval e (givenTo rt e k ⟨u, c⟩) u with ⟨x | v, u'⟩
    · exact matches_exc hk x c
    · exact .run hk hrest
  | raiseStmt exc =>
    cases exc with
    | none =>
      simp only [stepStmt, ControlFlow.stepStmt, Stmt.desugar, Option.map_none, reraise,
        ControlFlow.reraise, Meaning.lowered, held_eq hk]
      cases State.held (⟨u, c⟩ : State X St) k <;> exact matches_exc hk _ c
    | some e =>
      simp only [stepStmt, ControlFlow.stepStmt, Stmt.desugar, Option.map_some,
        eval_source rt cm matchesBase hk]
      rcases rt.eval e (givenTo rt e k ⟨u, c⟩) u with ⟨x | v, u'⟩
      · exact matches_exc hk x c
      · exact matches_exc hk _ c
  | returnStmt value =>
    cases value with
    | none =>
      simp only [stepStmt, ControlFlow.stepStmt, Stmt.desugar, Option.map_none, caughtIn_eq hk]
      exact matches_unwind hk _
    | some e =>
      simp only [stepStmt, ControlFlow.stepStmt, Stmt.desugar, Option.map_some,
        eval_source rt cm matchesBase hk, caughtIn_eq hk]
      rcases rt.eval e (givenTo rt e k ⟨u, c⟩) u with ⟨x | v, u'⟩
      · exact matches_exc hk x c
      · exact matches_unwind hk _
  | ifStmt test body orelse =>
    simp only [stepStmt, ControlFlow.stepStmt, Stmt.desugar, test_source rt cm matchesBase hk]
    rcases rt.test test (givenTo rt test k ⟨u, c⟩) u with ⟨x | _ | _, u'⟩
    · exact matches_exc hk x c
    · exact .run hseq (orelse.desugars _ (by omega))
    · exact .run hseq (body.desugars _ hg)
  | whileStmt test body orelse =>
    simp only [stepStmt, ControlFlow.stepStmt, Stmt.desugar]
    exact matches_unwind
      (.whileLoop hseq (body.desugars _ hg) (orelse.desugars _ (by omega))) .cont
  | forStmt isAsync target iter body orelse =>
    simp only [stepStmt, ControlFlow.stepStmt, Stmt.desugar, eval_source rt cm matchesBase hk]
    rcases rt.eval iter (givenTo rt iter k ⟨u, c⟩) u with ⟨x | v, u'⟩
    · exact matches_exc hk x c
    · simp only [iter_withRuntime]
      rcases rt.iter isAsync v u' with ⟨x | it, u'⟩
      · exact matches_exc hk x c
      · exact matches_unwind
          (.forLoop hseq (body.desugars _ hg) (orelse.desugars _ (by omega))) .cont
  | breakStmt => exact matches_unwind hk .brk
  | continueStmt => exact matches_unwind hk .cont
  | tryExcept body first more orelse finalbody =>
    exact matches_enterBody (.tryBody hseq
      (.cons (by omega) (more.desugars _ (by omega))) (orelse.desugars _ (by omega))
      (finalbody.desugars _ (by omega))) (body.desugars _ hg)
  | tryFinally body first more =>
    exact matches_enterBody (.guarded hseq (.cons (by omega) (more.desugars _ (by omega))))
      (body.desugars _ hg)
  | withStmt => cases hstmt

/-! ## Frames -/

/-- The frame of an item that has been entered. -/
def Kont.isItem : Kont E T V X l → Bool
  | .withBody .. => true
  | _ => false

/-- The results of a step correspond. -/
def StepsMatch : Config E T V X St ⊕ Outcome V X St →
    ControlFlow.Config (WithExpr E T) T V X (WithState V X St) ⊕
      Outcome V X (WithState V X St) → Prop
  | .inl c, .inl c' => Matches c c'
  | .inr r, .inr r' => r'.map WithState.user = r
  | _, _ => False

/-- A frame other than that of an item. -/
theorem matches_stepUnwind (hk : Frames names k k' n) (hitem : k.isItem = false)
    {signal : Signal V X l} {c' : Option X} (hcaught : (∀ e, signal ≠ .exc e) → c' = c) :
    StepsMatch (stepUnwind rt cm signal k ⟨u, c⟩)
      (ControlFlow.stepUnwind (withRuntime rt cm matchesBase) .lowered signal k'
        ⟨⟨u, names⟩, c', a⟩) := by
  have hframes := hk
  cases hk with
  | done => cases signal <;> rfl
  | seq hk hrest =>
    cases signal with
    | normal =>
      obtain rfl := hcaught (by simp)
      cases hrest with
      | nil => exact matches_unwind hk .normal
      | cons hg hrest => exact .run hk (.cons hg hrest)
    | exc | ret | brk | cont => exact .unwind hk hcaught
  | whileLoop hk hbody horelse =>
    cases signal with
    | normal => exact .unwind hframes fun _ => hcaught (by simp)
    | exc e => exact matches_exc hk e c'
    | ret | brk => exact .unwind hk fun _ => hcaught (by simp)
    | cont =>
      obtain rfl := hcaught (by simp)
      simp only [stepUnwind, ControlFlow.stepUnwind, test_source rt cm matchesBase hk]
      rcases rt.test _ (givenTo rt _ _ ⟨u, c'⟩) u with ⟨x | _ | _, u'⟩
      · exact matches_exc hk x c'
      · exact .run hk horelse
      · exact .run hframes hbody
  | @forLoop _ _ _ _ isAsync it target _ _ _ _ hk hbody horelse =>
    cases signal with
    | normal => exact .unwind hframes fun _ => hcaught (by simp)
    | exc e => exact matches_exc hk e c'
    | ret | brk => exact .unwind hk fun _ => hcaught (by simp)
    | cont =>
      obtain rfl := hcaught (by simp)
      simp only [stepUnwind, ControlFlow.stepUnwind, next_withRuntime]
      rcases rt.next isAsync it u with ⟨x | _ | v, u'⟩
      · exact matches_exc hk x c'
      · exact .run hk horelse
      · simp only [assign_withRuntime]
        rcases rt.assign target v u' with ⟨x | _, u'⟩
        · exact matches_exc hk x c'
        · exact .run hframes hbody
  | tryBody hk hhandler horelse hfinal =>
    cases signal with
    | normal =>
      obtain rfl := hcaught (by simp)
      cases horelse with
      | nil => exact matches_unwind (.guarded hk hfinal) .normal
      | cons hg hrest => exact .run (.guarded hk hfinal) (.cons hg hrest)
    | exc e => exact .run (.handling hk hfinal) hhandler
    | ret | brk | cont => exact matches_leaveRegion hk hfinal hcaught
  | guarded hk hfinal => exact matches_leaveRegion hk hfinal hcaught
  | handling hk hfinal => exact matches_leaveRegion hk hfinal hcaught
  | @finalBody _ _ _ _ pending hk =>
    cases signal with
    | exc | ret | brk | cont => exact .unwind hk hcaught
    | normal =>
      obtain rfl := hcaught (by simp)
      cases pending with
      | ret v =>
        have hcaughtIn := caughtIn_eq (u := u) (c := c') (a := a) hk
        simp only [stepUnwind, ControlFlow.stepUnwind, hcaughtIn]
        exact matches_unwind hk _
      | normal | exc | brk | cont => exact matches_unwind hk _
  | withBody => cases hitem

end DietPython.ControlFlow.Source
