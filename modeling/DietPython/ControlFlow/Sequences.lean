import DietPython.ControlFlow.Meanings

/-!
# Sequences, branches and loops

Bodies without `try`: the lowered code means what Python means, and there is no `finally` body
that a jump could get into, so the graph of every such body does what the body does.
-/

namespace DietPython.ControlFlow

open Machines

variable {E T V X St : Type}

/-! ## Bodies without `try` -/

mutual

def Stmt.tryFree : {l : Bool} → Stmt E T l → Bool
  | _, .ifStmt _ body orelse => body.tryFree && orelse.tryFree
  | _, .whileStmt _ body orelse | _, .forStmt _ _ _ body orelse => body.tryFree && orelse.tryFree
  | _, .tryExcept .. | _, .tryFinally .. => false
  | _, _ => true

def Stmts.tryFree : {l : Bool} → Stmts E T l → Bool
  | _, .nil => true
  | _, .cons _ stmt rest => stmt.tryFree && rest.tryFree

end

/-- Sequences and loops around statements without `try`. -/
def Kont.TryFree : {l : Bool} → Kont E T V X l → Prop
  | _, .done => True
  | _, .seq rest k => rest.tryFree = true ∧ k.TryFree
  | _, .whileLoop opens _ body orelse k =>
    opens = false ∧ body.tryFree = true ∧ orelse.tryFree = true ∧ k.TryFree
  | _, .forLoop _ _ _ body orelse k => body.tryFree = true ∧ orelse.tryFree = true ∧ k.TryFree
  | _, _ => False

/-- No `try` stands in a state, neither around nor ahead. -/
def TryFree : Config E T V X St → Prop
  | .run stmts k s => stmts.tryFree = true ∧ k.TryFree ∧ s.arrival ≠ .opens
  | .unwind _ k s => k.TryFree ∧ s.arrival ≠ .opens

theorem Kont.TryFree.inRegion {l : Bool} {k : Kont E T V X l} (h : k.TryFree) :
    k.inRegion = false := by
  induction k with
  | done => rfl
  | seq rest k ih => exact ih h.2
  | whileLoop opens test body orelse k ih => exact ih h.2.2.2
  | forLoop isAsync it target body orelse k ih => exact ih h.2.2
  | tryBody | guarded | handling | finalBody => exact h.elim

/-- Where no region is around, every reading finds that nothing is handled. -/
theorem Kont.TryFree.held {l : Bool} {k : Kont E T V X l} (h : k.TryFree) (s : State X St)
    (reading : Reading) : reading.held k s = .absent := by
  cases reading with
  | innermost =>
    unfold Reading.held
    rw [Kont.current_eq_none h.inRegion]
    rfl
  | caughtLast =>
    unfold Reading.held
    rw [h.inRegion]
    rfl

theorem Kont.TryFree.same {l : Bool} {k : Kont E T V X l} (h : k.TryFree) (s : State X St)
    (a b : Reading) (reads : Reads) : a.Same b k s reads := by
  cases reads with
  | nothing => trivial
  | value | bare =>
    unfold Reading.Same
    rw [h.held s a, h.held s b]

theorem TryFree.keepsPending {c : Config E T V X St} (h : TryFree c) : KeepsPending c := by
  unfold KeepsPending Config.keepsPending
  split
  · rw [h.1.1]
    rfl
  · rfl

theorem TryFree.readsAlike {rt : Runtime E T V X St} {c : Config E T V X St} (h : TryFree c)
    (a b : Reading) : ReadsAlike rt a b c := by
  unfold ReadsAlike
  split
  · exact Kont.TryFree.same h.2.1 _ a b _
  · exact Kont.TryFree.same h.1.2.2.2 _ a b _
  · trivial

theorem TryFree.staysInside {c : Config E T V X St} (h : TryFree c) : StaysInside c := by
  have hframe : ∀ {l : Bool} {k : Kont E T V X l}, k.TryFree → k.isGuarded = false := by
    intro l k hk
    cases k with
    | done | seq | whileLoop | forLoop => rfl
    | tryBody | guarded | handling | finalBody => exact hk.elim
  unfold StaysInside Config.staysInside
  split
  · rw [hframe h.1]
    rfl
  · rw [hframe h.1]
    rfl
  · rfl

/-! ## Steps -/

section Steps

variable (rt : Runtime E T V X St) (mn : Meaning) {l : Bool} {k : Kont E T V X l} {s : State X St}

theorem stepStmt_tryFree {stmt : Stmt E T l} {rest : Stmts E T l} (hstmt : stmt.tryFree = true)
    (hrest : rest.tryFree = true) (hk : k.TryFree) (hs : s.arrival ≠ .opens) :
    TryFree (stepStmt rt mn stmt rest k s) := by
  have hseq : (Kont.seq rest k).TryFree := ⟨hrest, hk⟩
  cases stmt with
  | simple e =>
    rcases heval : rt.eval e (givenTo rt mn e k s) s.user with ⟨x | v, u⟩
    · simp only [stepStmt, heval]
      exact ⟨hk, by simp⟩
    · simp only [stepStmt, heval]
      exact ⟨hrest, hk, by simp⟩
  | raiseStmt exc =>
    cases exc with
    | none => exact ⟨hk, by simp⟩
    | some e =>
      rcases heval : rt.eval e (givenTo rt mn e k s) s.user with ⟨x | v, u⟩ <;>
        simp only [stepStmt, heval] <;> exact ⟨hk, by simp⟩
  | returnStmt value =>
    cases value with
    | none => exact ⟨hk, by simp⟩
    | some e =>
      rcases heval : rt.eval e (givenTo rt mn e k s) s.user with ⟨x | v, u⟩ <;>
        simp only [stepStmt, heval] <;> exact ⟨hk, by simp⟩
  | ifStmt test body orelse =>
    obtain ⟨hbody, horelse⟩ := Bool.and_eq_true_iff.mp hstmt
    rcases htest : rt.test test (givenTo rt mn test k s) s.user with ⟨x | _ | _, u⟩
    · simp only [stepStmt, htest]
      exact ⟨hk, by simp⟩
    · simp only [stepStmt, htest]
      exact ⟨horelse, hseq, by simp⟩
    · simp only [stepStmt, htest]
      exact ⟨hbody, hseq, by simp⟩
  | whileStmt test body orelse =>
    obtain ⟨hbody, horelse⟩ := Bool.and_eq_true_iff.mp hstmt
    refine ⟨⟨by simpa using hs, hbody, horelse, hseq⟩, ?_⟩
    show (if s.arrival = .jumps then Arrival.jumps else .branched) ≠ .opens
    split <;> simp
  | forStmt isAsync target iter body orelse =>
    obtain ⟨hbody, horelse⟩ := Bool.and_eq_true_iff.mp hstmt
    rcases heval : rt.eval iter (givenTo rt mn iter k s) s.user with ⟨x | v, u⟩
    · simp only [stepStmt, heval]
      exact ⟨hk, by simp⟩
    · rcases hiter : rt.iter isAsync v u with ⟨x | it, w⟩
      · simp only [stepStmt, heval, hiter]
        exact ⟨hk, by simp⟩
      · simp only [stepStmt, heval, hiter]
        exact ⟨⟨hbody, horelse, hseq⟩, by simp⟩
  | breakStmt => exact ⟨hk, by simp⟩
  | continueStmt => exact ⟨hk, by simp⟩
  | tryExcept | tryFinally => cases hstmt

/-- Where control goes after a frame has been left. -/
theorem stepUnwind_tryFree {signal : Signal V X l} (hk : k.TryFree) (hs : s.arrival ≠ .opens)
    {c : Config E T V X St} (h : stepUnwind rt mn signal k s = .inl c) : TryFree c := by
  cases k with
  | done => cases signal <;> cases h
  | seq rest k =>
    cases signal with
    | normal =>
      cases rest with
      | nil =>
        obtain rfl := Sum.inl.inj h
        exact ⟨hk.2, hs⟩
      | cons =>
        obtain rfl := Sum.inl.inj h
        exact ⟨hk.1, hk.2, by simp⟩
    | exc | ret | brk | cont =>
      obtain rfl := Sum.inl.inj h
      exact ⟨hk.2, hs⟩
  | whileLoop opens test body orelse k =>
    cases signal with
    | normal =>
      obtain rfl := Sum.inl.inj h
      exact ⟨hk, hs⟩
    | exc | ret | brk =>
      obtain rfl := Sum.inl.inj h
      exact ⟨hk.2.2.2, hs⟩
    | cont =>
      rcases htest : rt.test test (givenTo rt mn test k s) s.user with ⟨x | _ | _, u⟩ <;>
        simp only [stepUnwind, htest] at h <;> obtain rfl := Sum.inl.inj h
      · exact ⟨hk.2.2.2, by simp⟩
      · exact ⟨hk.2.2.1, hk.2.2.2, by simp⟩
      · exact ⟨hk.2.1, hk, by simp⟩
  | forLoop isAsync it target body orelse k =>
    cases signal with
    | normal =>
      obtain rfl := Sum.inl.inj h
      exact ⟨hk, hs⟩
    | exc | ret | brk =>
      obtain rfl := Sum.inl.inj h
      exact ⟨hk.2.2, hs⟩
    | cont =>
      rcases hnext : rt.next isAsync it s.user with ⟨x | _ | v, u⟩
      · simp only [stepUnwind, hnext] at h
        obtain rfl := Sum.inl.inj h
        exact ⟨hk.2.2, by simp⟩
      · simp only [stepUnwind, hnext] at h
        obtain rfl := Sum.inl.inj h
        exact ⟨hk.2.1, hk.2.2, by simp⟩
      · rcases hassign : rt.assign target v u with ⟨x | _, w⟩ <;>
          simp only [stepUnwind, hnext, hassign] at h <;> obtain rfl := Sum.inl.inj h
        · exact ⟨hk.2.2, by simp⟩
        · exact ⟨hk.1, hk, by simp⟩
  | tryBody | guarded | handling | finalBody => exact hk.elim

/-- **One step.** A step does not bring a `try` in. -/
theorem step_tryFree {c c' : Config E T V X St} (h : TryFree c)
    (hstep : (structured rt mn).step c = .inl c') : TryFree c' := by
  cases c with
  | run stmts k s =>
    obtain ⟨hstmts, hk, hs⟩ := h
    cases stmts with
    | nil =>
      obtain rfl := Sum.inl.inj hstep
      refine ⟨hk, ?_⟩
      show (if s.arrival = .jumps then Arrival.jumps else .branched) ≠ .opens
      split <;> simp
    | cons expanded stmt rest =>
      obtain ⟨hstmt, hrest⟩ := Bool.and_eq_true_iff.mp hstmts
      obtain rfl := Sum.inl.inj hstep
      refine stepStmt_tryFree rt mn hstmt hrest hk ?_
      show (if expanded = true ∧ s.arrival = .jumps then Arrival.branched else s.arrival) ≠ .opens
      split
      · simp
      · exact hs
  | unwind signal k s => exact stepUnwind_tryFree rt mn h.1 h.2 hstep

end Steps

/-- **Sequences, branches and loops.** The graph of a body without `try` does what Python says. -/
theorem sequences_follow (rt : Runtime E T V X St) (body : Stmts E T false)
    (h : body.tryFree = true) (user : St) : Follows rt .python body user := by
  have hinv : (structured rt .python).GuardedFrom TryFree (start body user) :=
    Machine.guardedFrom_of_invariant ⟨h, trivial, by simp⟩
      fun c c' hc hstep => step_tryFree rt .python hc hstep
  exact follows_of_alike (hinv.imp fun c hc =>
    ⟨hc.keepsPending, hc.readsAlike _ _, .inr hc.staysInside⟩)

/-- A loop with `continue`, `break` and an `else` body, and statements behind a `return`. -/
def loops : Stmts ℕ ℕ false :=
  .ofList [
    .forStmt false 9 20 (.ofList [.simple 1, .ifStmt 4 (.ofList [.continueStmt, .simple 2])
      (.ofList [.whileStmt 7 (.ofList [.breakStmt]) .nil, .breakStmt])]) (.ofList [.simple 3]),
    .returnStmt (some 5), .simple 6]

theorem sequences_follow_loops : Follows tracing .python loops [] :=
  sequences_follow tracing loops rfl []

example : (blocks tracing (graphOf loops)).run 60 (enter loops []) =
    some (.returned 5 [20, 9, 1, 4, 9, 1, 4, 7, 5]) := by decide

end DietPython.ControlFlow
