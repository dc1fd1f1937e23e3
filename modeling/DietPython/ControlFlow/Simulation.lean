import DietPython.ControlFlow.FinallySteps

/-!
# The graph of a body does what the body does

The simulation theorem, for every body: in the meaning that the lowered code gives them, the
statements of a body and its graph step together, have the same results and run forever together,
as long as no `finally` body that opens with a `while` loop is sent back to its head by a jump.

What the code does is compared with what Python says on the structured side from here on: the two
meanings step alike wherever a state gives them no reason to differ.
-/

namespace DietPython.ControlFlow

open Machines

variable {E T V X St : Type} {rt : Runtime E T V X St} {G : Graph E T}
  {F : Floor G V X}

/-! ## The simulation -/

theorem answers_nil {l : Bool} {k : Kont E T V X l} {t : RegionTargets} {ms : List Pass} {n : ℕ}
    {f : Frame V X St} {s : State X St} {p : Place E T V X St}
    (hS : Surrounds rt G F f.slots k t ms n) (huser : f.user = s.user)
    (hcaught : CaughtAt rt ms s f) (h : Standing G ms n (.nil : Stmts E T l) t f s.arrival p) :
    Answered rt G F (.run .nil k s) p
      (.inl (.unwind .normal k
        { s with arrival := if s.arrival = .jumps then .jumps else .branched })) := by
  refine .stay ⟨t, ms, n, f, hS, huser, hcaught, ?_⟩ (by
    simp only [Config.weight, Stmts.weight]
    omega)
  generalize ha : s.arrival = a at h ⊢
  cases h with
  | branched g h => exact .branched
  | opens g hplaced hbelow hn hne kind payload hentry hmark => exact absurd rfl hne
  | jumps g linear b hlinear hplaced hb hbelow hn =>
    have hne : ¬ linear.isEmpty = true := by simpa using hlinear
    have hlower : lowerEnd linear t g = ⟨g.label,
        [sequenceJumpBlock g.label linear t.normalCont t.activeExc], ⟨g.label + 1, g.tmp⟩⟩ := by
      unfold lowerEnd
      rw [if_neg hne]
    have hb : IsEntry lowerEnd linear t g b := hb
    exact leaving_jump hS.wellNamed (hb.unique lowerEnd_fresh
      (by rw [hlower]; exact List.mem_singleton.mpr rfl) (by rw [hlower]; rfl))

/-- The state lies within a frame at this depth: it runs above it, or unwinds to it. -/
def Config.Within (d : ℕ) : Config E T V X St → Prop
  | .run _ k _ => d ≤ k.depth
  | .unwind _ k _ => d < k.depth

instance (d : ℕ) : (c : Config E T V X St) → Decidable (c.Within d)
  | .run _ k _ => inferInstanceAs (Decidable (d ≤ k.depth))
  | .unwind _ k _ => inferInstanceAs (Decidable (d < k.depth))

/-- A step of the structured program that does not leave what the frames stand on. -/
theorem answers_inner (hG : G.Ok) {c : Config E T V X St} {p : Place E T V X St}
    (h : Corresponds rt G F c p) (hkeeps : KeepsPending c) (hwithin : c.Within F.depth) :
    Answered rt G F c p ((structured rt .lowered).step c) := by
  cases c with
  | run stmts k s =>
    obtain ⟨t, ms, n, f, hS, huser, hcaught, hstanding⟩ := h
    cases stmts with
    | nil => exact answers_nil hS huser hcaught hstanding
    | cons expanded stmt rest => exact answers_stmt hG hS huser hcaught hstanding
  | unwind signal k s =>
    obtain ⟨t, ms, n, f, hS, huser, h⟩ := h
    cases k with
    | done => exact absurd hwithin (Nat.not_lt_zero _)
    | seq rest k => exact answers_seq hG hS huser h
    | whileLoop opens test body orelse k => exact answers_while_signal hG hS huser h hkeeps
    | forLoop isAsync it target body orelse k => exact answers_for_signal hG hS huser h
    | tryBody first more orelse finalbody k => exact answers_tryBody hG hS huser h
    | guarded finalbody k => exact answers_guarded hG hS huser h
    | handling e finalbody k => exact answers_handling hG hS huser h
    | finalBody pending k => exact answers_finalBody hG hS huser h hwithin

theorem Kont.depth_pos_or_done : {l : Bool} → (k : Kont E T V X l) →
    0 < k.depth ∨ (⟨l, k⟩ : Σ l, Kont E T V X l) = ⟨false, .done⟩
  | _, .done => .inr rfl
  | _, .seq _ _ | _, .whileLoop _ _ _ _ _ | _, .forLoop _ _ _ _ _ _ | _, .tryBody _ _ _ _ _
  | _, .guarded _ _ | _, .handling _ _ _ | _, .finalBody _ _ => .inl (Nat.succ_pos _)

/-- **One step.** The graph answers every step of the structured program. -/
theorem answers_step (hG : G.Ok) {c : Config E T V X St} {p : Place E T V X St}
    (h : Corresponds rt G (.callable G V X) c p) (hkeeps : KeepsPending c) :
    Answered rt G (.callable G V X) c p ((structured rt .lowered).step c) := by
  cases c with
  | run stmts k s => exact answers_inner hG h hkeeps (Nat.zero_le _)
  | unwind signal k s =>
    rcases k.depth_pos_or_done with hpos | hdone
    · exact answers_inner hG h hkeeps hpos
    · cases hdone
      obtain ⟨t, ms, n, f, hS, huser, h⟩ := h
      exact answers_done hG hS huser h

/-- The labels of a callable's graph are pairwise different, and none is the label behind it. -/
theorem graphOf_ok (body : Stmts E T false) : (graphOf body).Ok := by
  have hfresh := (lowerStmts_fresh body [] ⟨0, none, none⟩ ⟨1, 0⟩).span
  refine ⟨hfresh.nodup, fun b hb hlabel => ?_⟩
  have hlo : 1 ≤ b.label := (hfresh.bounds b hb).1
  rw [hlabel] at hlo
  exact absurd hlo (show ¬ 1 ≤ 0 by decide)

theorem corresponds_start (rt : Runtime E T V X St) (body : Stmts E T false) (user : St) :
    Corresponds rt (graphOf body) (.callable _ V X) (start body user) (enter body user) := by
  have hlies : Lies (graphOf body) [] 0 body ⟨0, none, none⟩ ⟨1, 0⟩ :=
    ⟨fun _ hb => hb, fun x hx => (by cases hx), Nat.le_refl 0⟩
  exact ⟨⟨0, none, none⟩, [], 0, ⟨user, fun _ => .unbound⟩, .floor ⟨rfl, rfl, rfl, rfl⟩, rfl,
    fun x hx => (by cases hx), .branched ⟨1, 0⟩ hlies⟩

section Runs

variable {body : Stmts E T false} {user : St}
  (hkeeps : (structured rt .lowered).GuardedFrom KeepsPending (start body user))

include hkeeps

/-- **Simulation, results.** -/
theorem simulates_runs :
    (structured rt .lowered).SameRuns (blocks rt (graphOf body)) (start body user)
      (enter body user) :=
  Machine.simulates (fun _ _ h hk => answers_step (graphOf_ok body) h hk)
    (corresponds_start rt body user) hkeeps

/-- **Simulation, states.** -/
theorem simulates_states {c : Config E T V X St}
    (hc : (structured rt .lowered).Reaches (start body user) c) :
    ∃ p, (blocks rt (graphOf body)).Reaches (enter body user) p ∧
      Corresponds rt (graphOf body) (.callable _ V X) c p :=
  Machine.simulates_reaches (fun _ _ h hk => answers_step (graphOf_ok body) h hk)
    (corresponds_start rt body user) hkeeps hc

end Runs

end DietPython.ControlFlow
