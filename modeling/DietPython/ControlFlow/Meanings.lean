import DietPython.ControlFlow.Simulation

/-!
# Where the two meanings differ

A state gives the meanings of statements a reason to differ in two ways only: the statement that
runs reads the exception that is being handled, or a `break` or `continue` passes a `finally`
body. Everywhere else they step alike, so two meanings that have no reason to differ along a run
have the same run.
-/

namespace DietPython.ControlFlow

open Machines

variable {E T V X St : Type} (rt : Runtime E T V X St)

/-! ## Reading the current exception -/

/-- How code reads the exception that is being handled. -/
inductive Reads
  | nothing
  /-- By `current_exception()`. -/
  | value
  /-- By a bare `raise`. -/
  | bare
  deriving DecidableEq

def exprReads (e : E) : Reads := if rt.readsException e then .value else .nothing

/-- A loop and a `try` read nothing when they are entered. -/
def Stmt.reads {l : Bool} : Stmt E T l → Reads
  | .raiseStmt none => .bare
  | .simple e | .raiseStmt (some e) | .returnStmt (some e) | .ifStmt e _ _
  | .forStmt _ _ e _ _ => exprReads rt e
  | _ => .nothing

/-- Two readings find the same. -/
def Reading.Same (a b : Reading) {l : Bool} (k : Kont E T V X l) (s : State X St) : Reads → Prop
  | .nothing => True
  | .value => (a.held k s).exception? = (b.held k s).exception?
  | .bare => a.held k s = b.held k s

/-- What runs next finds the same exception in both readings. -/
def ReadsAlike (a b : Reading) : Config E T V X St → Prop
  | .run (.cons _ stmt _) k s => a.Same b k s (stmt.reads rt)
  | .unwind .cont (.whileLoop _ test _ _ k) s => a.Same b k s (exprReads rt test)
  | _ => True

/-- What `current_exception()` finds does not depend on how the code came here. -/
theorem Reading.held_settle (a : Reading) {l : Bool} (k : Kont E T V X l) (s : State X St)
    (expanded : Bool) : a.held k (s.settle expanded) = a.held k s := by
  cases a <;> rfl

theorem Reading.Same.refl (a : Reading) {l : Bool} (k : Kont E T V X l) (s : State X St)
    (reads : Reads) : a.Same a k s reads := by
  cases reads <;> simp [Reading.Same]

/-! ## Passing a `finally` body -/

/-- The frame has a `finally` body that has not been entered. -/
def Kont.isGuarded {l : Bool} : Kont E T V X l → Bool
  | .tryBody _ _ _ finalbody _ | .guarded finalbody _ | .handling _ finalbody _ =>
    finalbody.length != 0
  | _ => false

def Config.staysInside : Config E T V X St → Bool
  | .unwind .brk k _ | .unwind .cont k _ => !k.isGuarded
  | _ => true

/-- No `break` or `continue` leaves a region with a `finally` body. -/
def StaysInside (c : Config E T V X St) : Prop := c.staysInside = true

/-! ## Stepping alike -/

section Steps

variable {rt} {mn mn' : Meaning} {l : Bool} {k : Kont E T V X l} {s : State X St}

theorem givenTo_congr (mn mn' : Meaning) {e : E}
    (h : mn.reading.Same mn'.reading k s (exprReads rt e)) :
    givenTo rt mn e k s = givenTo rt mn' e k s := by
  refine rt.given_congr e fun hreads => ?_
  unfold exprReads at h
  rw [if_pos hreads] at h
  exact h

theorem stepStmt_congr {stmt : Stmt E T l} {rest : Stmts E T l}
    (h : mn.reading.Same mn'.reading k s (stmt.reads rt)) :
    stepStmt rt mn stmt rest k s = stepStmt rt mn' stmt rest k s := by
  cases stmt with
  | simple e | ifStmt e | forStmt _ _ e =>
    simp only [stepStmt, givenTo_congr mn mn' h]
  | raiseStmt exc =>
    cases exc with
    | none =>
      have h : mn.reading.held k s = mn'.reading.held k s := h
      simp only [stepStmt, reraise, h]
    | some e => simp only [stepStmt, givenTo_congr mn mn' h]
  | returnStmt value =>
    cases value with
    | none => rfl
    | some e => simp only [stepStmt, givenTo_congr mn mn' h]
  | whileStmt | breakStmt | continueStmt | tryExcept | tryFinally => rfl

theorem leaveRegion_congr {finalbody : Stmts E T l} {signal : Signal V X l}
    (h : finalbody ≠ .nil → mn.entersFinal signal = mn'.entersFinal signal) :
    leaveRegion mn finalbody signal k s = leaveRegion mn' finalbody signal k s := by
  cases finalbody with
  | nil => rfl
  | cons x first more =>
    unfold leaveRegion
    simp only [h (by simp)]

theorem entersFinal_congr {signal : Signal V X l} {finalbody : Stmts E T l}
    {frame : Kont E T V X l} (hframe : frame.isGuarded = (finalbody.length != 0))
    (h : mn.loopExit = mn'.loopExit ∨ StaysInside (.unwind signal frame s : Config E T V X St))
    (hne : finalbody ≠ .nil) : mn.entersFinal signal = mn'.entersFinal signal := by
  have hguarded : frame.isGuarded = true := by
    rw [hframe]
    cases finalbody with
    | nil => exact absurd rfl hne
    | cons => rfl
  unfold Meaning.entersFinal
  rcases h with h | h
  · rw [h]
  · cases signal with
    | brk | cont =>
      have h : (!frame.isGuarded) = true := h
      rw [hguarded] at h
      cases h
    | normal | exc | ret => rfl

theorem stepUnwind_congr {signal : Signal V X l}
    (hreads : ReadsAlike rt mn.reading mn'.reading (.unwind signal k s))
    (hexit : mn.loopExit = mn'.loopExit ∨ StaysInside (.unwind signal k s : Config E T V X St)) :
    stepUnwind rt mn signal k s = stepUnwind rt mn' signal k s := by
  cases k with
  | whileLoop opens test body orelse k =>
    cases signal with
    | cont => simp only [stepUnwind, givenTo_congr mn mn' hreads]
    | normal | exc | ret | brk => rfl
  | tryBody first more orelse finalbody k =>
    have hleave : leaveRegion mn finalbody signal k s = leaveRegion mn' finalbody signal k s :=
      leaveRegion_congr (entersFinal_congr rfl hexit)
    cases signal with
    | normal | exc => rfl
    | ret | brk | cont => exact congrArg Sum.inl hleave
  | guarded finalbody k => exact congrArg Sum.inl (leaveRegion_congr (entersFinal_congr rfl hexit))
  | handling e finalbody k =>
    exact congrArg Sum.inl (leaveRegion_congr (entersFinal_congr rfl hexit))
  | done | seq | forLoop | finalBody => rfl

/-- **Stepping alike.** Two meanings take the same step from a state in which they read alike and
leave loops alike. -/
theorem step_congr {c : Config E T V X St} (hreads : ReadsAlike rt mn.reading mn'.reading c)
    (hexit : mn.loopExit = mn'.loopExit ∨ StaysInside c) : step rt mn c = step rt mn' c := by
  cases c with
  | run stmts k s =>
    cases stmts with
    | nil => rfl
    | cons expanded stmt rest =>
      refine congrArg Sum.inl (stepStmt_congr (s := s.settle expanded) ?_)
      have hreads : mn.reading.Same mn'.reading k s (stmt.reads rt) := hreads
      cases hr : stmt.reads rt with
      | nothing => trivial
      | value | bare =>
        rw [hr] at hreads
        simpa only [Reading.Same, Reading.held_settle] using hreads
  | unwind signal k s => exact stepUnwind_congr hreads hexit

end Steps

/-! ## Runs -/

def Config.user : Config E T V X St → St
  | .run _ _ s | .unwind _ _ s => s.user

def Outcome.user? : Outcome V X St → Option St
  | .fellThrough user | .returned _ user | .raised _ user => some user
  | .stuck => none

def Place.user? : Place E T V X St → Option St
  | .goto _ f | .inside _ _ f => some f.user
  | .leave outcome => outcome.user?

variable {rt}

/-- Corresponding states are the same for user code. -/
theorem Corresponds.user_eq {G : Graph E T} {F : Floor G V X} {c : Config E T V X St}
    {p : Place E T V X St} (h : Corresponds rt G F c p) : p.user? = some c.user := by
  have hleaving : ∀ {ms : List Pass} {label : ℕ} {f : Frame V X St} {a : Arrival},
      Leaving ms label f a p → p.user? = some f.user := fun h => by cases h <;> rfl
  cases c with
  | run stmts k s =>
    obtain ⟨t, ms, n, f, -, huser, -, hstanding⟩ := h
    show p.user? = some s.user
    rw [← huser]
    generalize s.arrival = a at hstanding
    cases hstanding <;> rfl
  | unwind signal k s =>
    obtain ⟨t, ms, n, f, -, huser, h⟩ := h
    show p.user? = some s.user
    rw [← huser]
    cases signal with
    | normal => exact hleaving h.2
    | brk | cont =>
      obtain ⟨-, loopLabels, -, h⟩ := h
      exact hleaving h
    | ret v =>
      simp only [Carrying] at h
      split at h
      · rw [h]
        rfl
      · obtain ⟨b, rfl, -⟩ := h
        rfl
    | exc e =>
      simp only [Carrying] at h
      split at h
      · rw [h]
        rfl
      · obtain ⟨b, m, -, -, -, rfl⟩ := h
        rfl

/-- The graph of a body follows the body in a meaning: they have the same results, run forever
together, and every state of the body is seen in the graph. -/
structure Follows (rt : Runtime E T V X St) (mn : Meaning) (body : Stmts E T false) (user : St) :
    Prop where
  sameRuns : (structured rt mn).SameRuns (blocks rt (graphOf body)) (start body user)
    (enter body user)
  states : ∀ c, (structured rt mn).Reaches (start body user) c →
    ∃ p, (blocks rt (graphOf body)).Reaches (enter body user) p ∧ p.user? = some c.user

/-- **A meaning that has no reason to differ.** Along a run on which it reads and leaves loops as
the lowered code does, the graph follows the body in that meaning. -/
theorem follows_of_alike {mn : Meaning} {body : Stmts E T false} {user : St}
    (h : (structured rt mn).GuardedFrom (fun c => KeepsPending c ∧
      ReadsAlike rt mn.reading .caughtLast c ∧ (mn.loopExit = .skipsFinally ∨ StaysInside c))
      (start body user)) : Follows rt mn body user := by
  have hstep : ∀ c, (KeepsPending c ∧ ReadsAlike rt mn.reading .caughtLast c ∧
      (mn.loopExit = .skipsFinally ∨ StaysInside c)) →
      (structured rt mn).step c = (structured rt .lowered).step c := fun c hc =>
    step_congr hc.2.1 hc.2.2
  have hkeeps : (structured rt .lowered).GuardedFrom KeepsPending (start body user) :=
    Machine.guardedFrom_congr hstep h (h.imp fun c hc => hc.1)
  refine ⟨(Machine.sameRuns_congr hstep h).trans (simulates_runs hkeeps), fun c hc => ?_⟩
  obtain ⟨p, hp, hcorr⟩ := simulates_states hkeeps ((Machine.reaches_congr hstep h).mp hc)
  exact ⟨p, hp, hcorr.user_eq⟩

/-! ## A runtime for runs on fixed programs -/

/-- Objects, exceptions and expressions are numbers, and user code sees the expressions that have
run. The expression `50` reads the current exception, an expression from `100` on raises itself,
and a test or an iterator goes on until so many expressions have run. -/
def tracing : Runtime ℕ ℕ ℕ ℕ (List ℕ) where
  readsException e := e == 50
  eval e current s :=
    if 100 ≤ e then (.error e, s ++ [e])
    else if e = 50 then (.ok (current.getD 0), s ++ [current.getD 0])
    else (.ok e, s ++ [e])
  test e _ s := (.ok (decide (s.length < e)), s ++ [e])
  raiseValue v s := (v, s)
  noActiveException s := (0, s)
  noneValue := 0
  iter _ v s := (.ok v, s)
  next _ v s := if s.length < v then (.ok (some v), s) else (.ok none, s)
  assign target _ s := (.ok (), s ++ [target])
  slotError s := (1, s)

end DietPython.ControlFlow
