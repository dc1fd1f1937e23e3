import DietPython.ControlFlow.WithDesugaring

/-!
# Items and their frames

How the frames of a program with `with` correspond to those of the desugared program. An item that
has been entered is the body of its `try`, and the names of the item hold its exit and `True`. The
items of the statements that still run have greater numbers than those of the frames around, so
they write other names.
-/

namespace DietPython.ControlFlow.Source

open Machines

variable {E T V X St : Type} {l : Bool}

/-! ## Desugared statements -/

/-- Statements whose items are numbered from `n` on, and what they are desugared to. -/
inductive Desugars (n : ℕ) :
    {l : Bool} → Stmts E T l → ControlFlow.Stmts (WithExpr E T) T l → Prop
  | nil {l : Bool} : Desugars n (.nil : Stmts E T l) .nil
  | cons {l : Bool} {x y : Bool} {stmt : Stmt E T l} {rest : Stmts E T l}
      {rest' : ControlFlow.Stmts (WithExpr E T) T l} {g : ℕ} (hg : n ≤ g)
      (hrest : Desugars n rest rest') :
      Desugars n (.cons x stmt rest) (.cons y (stmt.desugar g rest').1 (stmt.desugar g rest').2)

theorem Stmts.desugars {n : ℕ} : {l : Bool} → (stmts : Stmts E T l) → (g : ℕ) → n ≤ g →
    Desugars n stmts (stmts.desugar g)
  | _, .nil, _, _ => .nil
  | _, .cons _ stmt rest, g, h => .cons h (rest.desugars (g + stmt.items) (by omega))

/-! ## Frames -/

/-- The frames of the source and of the desugared program. The items of the frames have numbers
below the bound. -/
inductive Frames (names : ℕ → WithNames V X) :
    {l : Bool} → Kont E T V X l → ControlFlow.Kont (WithExpr E T) T V X l → ℕ → Prop
  | done : Frames names .done .done 0
  | seq {l : Bool} {k : Kont E T V X l} {k' n} {rest : Stmts E T l} {rest'}
      (hk : Frames names k k' n) (hrest : Desugars n rest rest') :
      Frames names (.seq rest k) (.seq rest' k') n
  | whileLoop {l : Bool} {k : Kont E T V X l} {k' n} {opens : Bool} {test : E}
      {body : Stmts E T true} {body'} {orelse : Stmts E T l} {orelse'} (hk : Frames names k k' n)
      (hbody : Desugars n body body') (horelse : Desugars n orelse orelse') :
      Frames names (.whileLoop test body orelse k)
        (.whileLoop opens (.source test) body' orelse' k') n
  | forLoop {l : Bool} {k : Kont E T V X l} {k' n} {isAsync : Bool} {it : V} {target : T}
      {body : Stmts E T true} {body'} {orelse : Stmts E T l} {orelse'} (hk : Frames names k k' n)
      (hbody : Desugars n body body') (horelse : Desugars n orelse orelse') :
      Frames names (.forLoop isAsync it target body orelse k)
        (.forLoop isAsync it target body' orelse' k') n
  | tryBody {l : Bool} {k : Kont E T V X l} {k' n} {first : Stmt E T l} {first'}
      {more orelse finalbody : Stmts E T l} {more' orelse' finalbody'} (hk : Frames names k k' n)
      (hhandler : Desugars n (.cons false first more) (.cons false first' more'))
      (horelse : Desugars n orelse orelse') (hfinal : Desugars n finalbody finalbody') :
      Frames names (.tryBody first more orelse finalbody k)
        (.tryBody first' more' orelse' finalbody' k') n
  | guarded {l : Bool} {k : Kont E T V X l} {k' n} {finalbody : Stmts E T l} {finalbody'}
      (hk : Frames names k k' n) (hfinal : Desugars n finalbody finalbody') :
      Frames names (.guarded finalbody k) (.guarded finalbody' k') n
  | handling {l : Bool} {k : Kont E T V X l} {k' n} {e : X} {finalbody : Stmts E T l} {finalbody'}
      (hk : Frames names k k' n) (hfinal : Desugars n finalbody finalbody') :
      Frames names (.handling e finalbody k) (.handling e finalbody' k') n
  | finalBody {l : Bool} {k : Kont E T V X l} {k' n} {pending : Signal V X l}
      (hk : Frames names k k' n) :
      Frames names (.finalBody pending k) (.finalBody pending k') n
  | withBody {l : Bool} {k : Kont E T V X l} {k' n} {isAsync : Bool} {exitFn : V} {m : ℕ}
      {cleanup : Bool} (hk : Frames names k k' n) (hm : n ≤ m)
      (hexit : (names m).exitFn = some exitFn) (hok : (names m).ok = true) :
      Frames names (.withBody isAsync exitFn k)
        (.tryBody (withHandler isAsync m) .nil .nil (withFinally isAsync m cleanup) k') (m + 1)

namespace Frames

variable {names names' : ℕ → WithNames V X} {k : Kont E T V X l}
  {k' : ControlFlow.Kont (WithExpr E T) T V X l} {n : ℕ}

/-- Other items do not matter. -/
theorem congr (h : Frames names k k' n) (hnames : ∀ m < n, names' m = names m) :
    Frames names' k k' n := by
  induction h with
  | done => exact .done
  | seq _ hrest ih => exact .seq (ih hnames) hrest
  | whileLoop _ hbody horelse ih => exact .whileLoop (ih hnames) hbody horelse
  | forLoop _ hbody horelse ih => exact .forLoop (ih hnames) hbody horelse
  | tryBody _ hhandler horelse hfinal ih => exact .tryBody (ih hnames) hhandler horelse hfinal
  | guarded _ hfinal ih => exact .guarded (ih hnames) hfinal
  | handling _ hfinal ih => exact .handling (ih hnames) hfinal
  | finalBody _ ih => exact .finalBody (ih hnames)
  | @withBody _ _ _ n _ _ m _ _ hm hexit hok ih =>
    have hself := hnames m (Nat.lt_succ_self m)
    exact .withBody (ih fun i hi => hnames i (by omega)) hm (hself ▸ hexit) (hself ▸ hok)

theorem inRegion (h : Frames names k k' n) : k'.inRegion = k.inRegion := by
  induction h with
  | done | handling | finalBody => rfl
  | seq _ _ ih | whileLoop _ _ _ ih | forLoop _ _ _ ih | tryBody _ _ _ _ ih | guarded _ _ ih
  | withBody _ _ _ _ ih => exact ih

end Frames

/-! ## States -/

/-- States of the source and of the desugared program. What was caught does not matter while an
exception is on its way. -/
inductive Matches : Config E T V X St →
    ControlFlow.Config (WithExpr E T) T V X (WithState V X St) → Prop
  | run {l : Bool} {stmts : Stmts E T l} {stmts'} {k : Kont E T V X l} {k' n} {names}
      {u : St} {c : Option X} {a : Arrival} (hk : Frames names k k' n)
      (hstmts : Desugars n stmts stmts') :
      Matches (.run stmts k ⟨u, c⟩) (.run stmts' k' ⟨⟨u, names⟩, c, a⟩)
  | unwind {l : Bool} {signal : Signal V X l} {k : Kont E T V X l} {k' n} {names}
      {u : St} {c c' : Option X} {a : Arrival} (hk : Frames names k k' n)
      (hcaught : (∀ e, signal ≠ .exc e) → c' = c) :
      Matches (.unwind signal k ⟨u, c⟩) (.unwind signal k' ⟨⟨u, names⟩, c', a⟩)

section Reading

variable (rt : Runtime E T V X St) (cm : ContextManagers V X St)
  (matchesBase : X → St → Except X Bool × St) {k : Kont E T V X l}
  {k' : ControlFlow.Kont (WithExpr E T) T V X l} {n : ℕ} {names : ℕ → WithNames V X} {u : St}
  {c : Option X} {a : Arrival}

/-- Both programs find the same exception. -/
theorem held_eq (hk : Frames names k k' n) :
    Reading.caughtLast.held k' (⟨⟨u, names⟩, c, a⟩ : ControlFlow.State X (WithState V X St)) =
      State.held (⟨u, c⟩ : State X St) k := by
  unfold Reading.held State.held
  rw [hk.inRegion]

theorem given_given (e : E) (current : Option X) :
    rt.given e (rt.given e current) = rt.given e current := by
  unfold Runtime.given
  split <;> rfl

/-- A source expression in the desugared program. -/
theorem eval_source (hk : Frames names k k' n) (e : E) :
    (withRuntime rt cm matchesBase).eval (.source e)
        (ControlFlow.givenTo (withRuntime rt cm matchesBase) .lowered (.source e) k'
          ⟨⟨u, names⟩, c, a⟩) ⟨u, names⟩ =
      ((rt.eval e (givenTo rt e k ⟨u, c⟩) u).1,
        ⟨(rt.eval e (givenTo rt e k ⟨u, c⟩) u).2, names⟩) := by
  have hgiven : ControlFlow.givenTo (withRuntime rt cm matchesBase) .lowered (.source e) k'
      ⟨⟨u, names⟩, c, a⟩ = givenTo rt e k ⟨u, c⟩ := by
    unfold ControlFlow.givenTo givenTo
    rw [← held_eq hk]
    rfl
  rw [hgiven]
  show lift (rt.eval e (rt.given e (givenTo rt e k ⟨u, c⟩))) _ id = _
  unfold givenTo
  rw [given_given]
  rfl

theorem test_source (hk : Frames names k k' n) (e : E) :
    (withRuntime rt cm matchesBase).test (.source e)
        (ControlFlow.givenTo (withRuntime rt cm matchesBase) .lowered (.source e) k'
          ⟨⟨u, names⟩, c, a⟩) ⟨u, names⟩ =
      ((rt.test e (givenTo rt e k ⟨u, c⟩) u).1,
        ⟨(rt.test e (givenTo rt e k ⟨u, c⟩) u).2, names⟩) := by
  have hgiven : ControlFlow.givenTo (withRuntime rt cm matchesBase) .lowered (.source e) k'
      ⟨⟨u, names⟩, c, a⟩ = givenTo rt e k ⟨u, c⟩ := by
    unfold ControlFlow.givenTo givenTo
    rw [← held_eq hk]
    rfl
  rw [hgiven]
  show lift (rt.test e (rt.given e (givenTo rt e k ⟨u, c⟩))) _ id = _
  unfold givenTo
  rw [given_given]
  rfl

end Reading

end DietPython.ControlFlow.Source
