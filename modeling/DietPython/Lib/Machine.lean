import Mathlib.Tactic.Common
import Mathlib.Order.Basic

/-!
# Deterministic small-step machines

A machine steps to another state or finishes with a result. `run` bounds the number of steps, so
a machine that never finishes is one on which `run` gives `none` for every bound.

The simulation rule lets a step of the first machine be answered by any number of steps of the
second. A step may be answered by none only if it lowers a measure, so a first machine that runs
forever makes the second run forever as well. The `guard` is a condition on the states that the
first machine visits: what the simulation needs of the run, and not of the programs.
-/

namespace Machines

/-- A deterministic machine: a step moves on or finishes. -/
structure Machine (S R : Type*) where
  step : S → S ⊕ R

namespace Machine

variable {S T R Q : Type*}

/-- The result within `n` steps. -/
def run (m : Machine S R) : ℕ → S → Option R
  | 0, _ => none
  | n + 1, s =>
    match m.step s with
    | .inl s' => m.run n s'
    | .inr r => some r

/-- The state after exactly `n` steps that do not finish. -/
def after (m : Machine S R) : ℕ → S → Option S
  | 0, s => some s
  | n + 1, s =>
    match m.step s with
    | .inl s' => m.after n s'
    | .inr _ => none

/-- The machine finishes from `s` with `r`. -/
def Finishes (m : Machine S R) (s : S) (r : R) : Prop := ∃ n, m.run n s = some r

/-- The machine never finishes from `s`. -/
def Diverges (m : Machine S R) (s : S) : Prop := ∀ n, m.run n s = none

/-- The machine gets from `s` to `t`. -/
def Reaches (m : Machine S R) (s t : S) : Prop := ∃ n, m.after n s = some t

/-- Every state the machine visits from `s` satisfies `guard`. -/
def GuardedFrom (m : Machine S R) (guard : S → Prop) (s : S) : Prop :=
  ∀ t, m.Reaches s t → guard t

/-- The machine gets from `s` to `t`, and `inv` holds of every state that it leaves. -/
def ReachesThrough (m : Machine S R) (inv : S → Prop) (s t : S) : Prop :=
  ∃ n, m.after n s = some t ∧ ∀ k < n, ∀ u, m.after k s = some u → inv u

section Steps

attribute [local simp] after run

variable (m : Machine S R)

@[simp] theorem after_zero (s : S) : m.after 0 s = some s := rfl

theorem after_succ_of_step {s s' : S} (h : m.step s = .inl s') (n : ℕ) :
    m.after (n + 1) s = m.after n s' := by
  simp [h]

theorem run_succ_of_step {s s' : S} (h : m.step s = .inl s') (n : ℕ) :
    m.run (n + 1) s = m.run n s' := by
  simp [h]

theorem run_succ_of_finish {s : S} {r : R} (h : m.step s = .inr r) (n : ℕ) :
    m.run (n + 1) s = some r := by
  simp [h]

/-- Running on from a state that is `k` steps away. -/
theorem run_add_of_after {k : ℕ} {s t : S} (h : m.after k s = some t) (n : ℕ) :
    m.run (k + n) s = m.run n t := by
  induction k generalizing s with
  | zero =>
    obtain rfl := Option.some.inj h
    rw [Nat.zero_add]
  | succ k ih =>
    cases hs : m.step s with
    | inl s' =>
      rw [m.after_succ_of_step hs] at h
      rw [Nat.succ_add, m.run_succ_of_step hs]
      exact ih h
    | inr r => simp [hs] at h

/-- No result comes before a state that is still visited. -/
theorem run_eq_none_of_after {k : ℕ} {s t : S} (h : m.after k s = some t) : m.run k s = none := by
  have := m.run_add_of_after h 0
  simpa using this

theorem after_add {k : ℕ} {s t : S} (h : m.after k s = some t) (n : ℕ) :
    m.after (k + n) s = m.after n t := by
  induction k generalizing s with
  | zero =>
    obtain rfl := Option.some.inj h
    rw [Nat.zero_add]
  | succ k ih =>
    cases hs : m.step s with
    | inl s' =>
      rw [m.after_succ_of_step hs] at h
      rw [Nat.succ_add, m.after_succ_of_step hs]
      exact ih h
    | inr r => simp [hs] at h

/-- More fuel does not change a result. -/
theorem run_mono {n k : ℕ} {s : S} {r : R} (h : m.run n s = some r) (hnk : n ≤ k) :
    m.run k s = some r := by
  induction n generalizing s k with
  | zero => cases h
  | succ n ih =>
    obtain ⟨k, rfl⟩ : ∃ j, k = j + 1 := ⟨k - 1, by omega⟩
    cases hs : m.step s with
    | inl s' =>
      rw [m.run_succ_of_step hs] at h ⊢
      exact ih h (by omega)
    | inr q =>
      rw [m.run_succ_of_finish hs] at h ⊢
      exact h

/-- A machine has at most one result. -/
theorem Finishes.unique {m : Machine S R} {s : S} {r q : R} (hr : m.Finishes s r)
    (hq : m.Finishes s q) : r = q := by
  obtain ⟨n, hn⟩ := hr
  obtain ⟨k, hk⟩ := hq
  have h₁ := m.run_mono hn (Nat.le_max_left n k)
  have h₂ := m.run_mono hk (Nat.le_max_right n k)
  rw [h₁] at h₂
  exact Option.some.inj h₂

theorem Reaches.refl (s : S) : m.Reaches s s := ⟨0, rfl⟩

theorem Reaches.step {s s' t : S} (h : m.step s = .inl s') (ht : m.Reaches s' t) :
    m.Reaches s t := by
  obtain ⟨n, hn⟩ := ht
  exact ⟨n + 1, by rw [m.after_succ_of_step h, hn]⟩

theorem Reaches.trans {s t u : S} (hst : m.Reaches s t) (htu : m.Reaches t u) :
    m.Reaches s u := by
  obtain ⟨k, hk⟩ := hst
  obtain ⟨n, hn⟩ := htu
  exact ⟨k + n, by rw [m.after_add hk, hn]⟩

/-- The machine gets from `s` to `t` by at least one step. -/
def Moves (m : Machine S R) (s t : S) : Prop := ∃ n, m.after (n + 1) s = some t

theorem Moves.step {s s' t : S} (h : m.step s = .inl s') (ht : m.Reaches s' t) :
    m.Moves s t := by
  obtain ⟨n, hn⟩ := ht
  exact ⟨n, (m.after_succ_of_step h n).trans hn⟩

theorem Moves.reaches {s t : S} (h : m.Moves s t) : m.Reaches s t := by
  obtain ⟨n, hn⟩ := h
  exact ⟨n + 1, hn⟩

theorem Moves.trans {s t u : S} (hst : m.Moves s t) (htu : m.Reaches t u) : m.Moves s u := by
  obtain ⟨k, hk⟩ := hst
  obtain ⟨n, hn⟩ := htu
  exact ⟨k + n, by rw [show k + n + 1 = k + 1 + n by omega, m.after_add hk, hn]⟩

theorem ReachesThrough.refl (inv : S → Prop) (s : S) : m.ReachesThrough inv s s :=
  ⟨0, rfl, fun _ hk => absurd hk (Nat.not_lt_zero _)⟩

theorem ReachesThrough.step {inv : S → Prop} {s s' t : S} (hs : inv s) (hstep : m.step s = .inl s')
    (ht : m.ReachesThrough inv s' t) : m.ReachesThrough inv s t := by
  obtain ⟨n, hn, hinv⟩ := ht
  refine ⟨n + 1, (m.after_succ_of_step hstep n).trans hn, fun k hk u hu => ?_⟩
  cases k with
  | zero =>
    obtain rfl := Option.some.inj hu
    exact hs
  | succ k =>
    exact hinv k (Nat.lt_of_succ_lt_succ hk) u ((m.after_succ_of_step hstep k).symm.trans hu)

theorem ReachesThrough.imp {inv inv' : S → Prop} {s t : S} (h : m.ReachesThrough inv s t)
    (himp : ∀ u, m.Reaches s u → inv u → inv' u) : m.ReachesThrough inv' s t := by
  obtain ⟨n, hn, hinv⟩ := h
  exact ⟨n, hn, fun k hk u hu => himp u ⟨k, hu⟩ (hinv k hk u hu)⟩

theorem Finishes.of_reaches {s t : S} {r : R} (hst : m.Reaches s t) (ht : m.Finishes t r) :
    m.Finishes s r := by
  obtain ⟨k, hk⟩ := hst
  obtain ⟨n, hn⟩ := ht
  exact ⟨k + n, by rw [m.run_add_of_after hk, hn]⟩

theorem GuardedFrom.self {guard : S → Prop} {s : S} (h : m.GuardedFrom guard s) : guard s :=
  h s (Reaches.refl m s)

theorem GuardedFrom.step {guard : S → Prop} {s s' : S} (h : m.GuardedFrom guard s)
    (hs : m.step s = .inl s') : m.GuardedFrom guard s' :=
  fun t ht => h t (Reaches.step m hs ht)

end Steps

/-! ## Simulation -/

/-- How the second machine answers one step of the first from related states. -/
def Answers (n : Machine T Q) (rel : S → T → Prop) (res : R → Q → Prop) (measure : S → ℕ)
    (s : S) (t : T) : S ⊕ R → Prop
  | .inl s' => ∃ k t', n.after k t = some t' ∧ rel s' t' ∧ (k = 0 → measure s' < measure s)
  | .inr r => ∃ k q, n.run k t = some q ∧ res r q

namespace Answers

variable {n : Machine T Q} {rel : S → T → Prop} {res : R → Q → Prop} {measure : S → ℕ} {s : S}
  {t : T}

/-- Without a step, when the measure falls. -/
theorem stay {s' : S} (hrel : rel s' t) (hlt : measure s' < measure s) :
    n.Answers rel res measure s t (.inl s') := ⟨0, t, rfl, hrel, fun _ => hlt⟩

/-- With one step to a related state. -/
theorem arrive {s' : S} {t' : T} (hstep : n.step t = .inl t') (hrel : rel s' t') :
    n.Answers rel res measure s t (.inl s') :=
  ⟨1, t', n.after_succ_of_step hstep 0, hrel, fun h => by cases h⟩

/-- With several steps to a related state. -/
theorem moves {s' : S} {t' : T} (h : n.Moves t t') (hrel : rel s' t') :
    n.Answers rel res measure s t (.inl s') := by
  obtain ⟨k, hk⟩ := h
  exact ⟨k + 1, t', hk, hrel, fun h => by cases h⟩

/-- After a step of the second machine. -/
theorem step {t' : T} {o : S ⊕ R} (hstep : n.step t = .inl t')
    (ho : n.Answers rel res measure s t' o) : n.Answers rel res measure s t o := by
  cases o with
  | inl s' =>
    obtain ⟨k, u, hk, hrel, -⟩ := ho
    exact ⟨k + 1, u, (n.after_succ_of_step hstep k).trans hk, hrel, fun h => by cases h⟩
  | inr r =>
    obtain ⟨k, q, hk, hres⟩ := ho
    exact ⟨k + 1, q, (n.run_succ_of_step hstep k).trans hk, hres⟩

/-- After any number of steps. -/
theorem after {k : ℕ} {t' : T} {o : S ⊕ R} (hk : n.after k t = some t')
    (ho : n.Answers rel res measure s t' o) : n.Answers rel res measure s t o := by
  induction k generalizing t with
  | zero =>
    obtain rfl := Option.some.inj hk
    exact ho
  | succ k ih =>
    cases hs : n.step t with
    | inl u =>
      rw [n.after_succ_of_step hs] at hk
      exact step hs (ih hk)
    | inr q => simp [Machine.after, hs] at hk

theorem finish {r : R} {q : Q} (hstep : n.step t = .inr q) (hres : res r q) :
    n.Answers rel res measure s t (.inr r) := ⟨1, q, n.run_succ_of_finish hstep 0, hres⟩

end Answers

/-- The second machine catches up with an outcome of the first one, from an outcome of its own. -/
def CatchesUp (n : Machine T Q) (rel : S → T → Prop) (res : R → Q → Prop) : S ⊕ R → T ⊕ Q → Prop
  | .inl s, .inl t => ∃ t', n.Reaches t t' ∧ rel s t'
  | .inl _, .inr _ => False
  | .inr r, .inl t => ∃ q, n.Finishes t q ∧ res r q
  | .inr r, .inr q => res r q

namespace CatchesUp

variable {n : Machine T Q} {rel : S → T → Prop} {res : R → Q → Prop}

theorem of_rel {s : S} {t : T} (h : rel s t) : n.CatchesUp rel res (.inl s) (.inl t) :=
  ⟨t, Reaches.refl n t, h⟩

/-- After one more step. -/
theorem step {t : T} {o : S ⊕ R} {o' : T ⊕ Q} (hstep : n.step t = o')
    (h : n.CatchesUp rel res o o') : n.CatchesUp rel res o (.inl t) := by
  cases o' with
  | inl t' =>
    cases o with
    | inl s =>
      obtain ⟨t'', hreach, hrel⟩ := h
      exact ⟨t'', Reaches.step n hstep hreach, hrel⟩
    | inr r =>
      obtain ⟨q, hq, hres⟩ := h
      exact ⟨q, Finishes.of_reaches n (Reaches.step n hstep (Reaches.refl n t')) hq, hres⟩
  | inr q =>
    cases o with
    | inl s => exact h.elim
    | inr r => exact ⟨q, ⟨1, n.run_succ_of_finish hstep 0⟩, h⟩

/-- A step that catches up answers. -/
theorem answers {measure : S → ℕ} {s : S} {t : T} {o : S ⊕ R} {o' : T ⊕ Q}
    (hstep : n.step t = o') (h : n.CatchesUp rel res o o') :
    n.Answers rel res measure s t o := by
  cases o' with
  | inl t' =>
    cases o with
    | inl s' =>
      obtain ⟨t'', ⟨k, hk⟩, hrel⟩ := h
      exact ⟨k + 1, t'', (n.after_succ_of_step hstep k).trans hk, hrel, fun h => by cases h⟩
    | inr r =>
      obtain ⟨q, ⟨k, hk⟩, hres⟩ := h
      exact ⟨k + 1, q, (n.run_succ_of_step hstep k).trans hk, hres⟩
  | inr q =>
    cases o with
    | inl s => exact h.elim
    | inr r => exact ⟨1, q, n.run_succ_of_finish hstep 0, h⟩

end CatchesUp

section Simulation

variable {m : Machine S R} {n : Machine T Q} {rel : S → T → Prop} {res : R → Q → Prop}
  {measure : S → ℕ} {guard : S → Prop}
  (hstep : ∀ s t, rel s t → guard s → n.Answers rel res measure s t (m.step s))

include hstep

/-- **Simulation, results.** A guarded run of the first machine that finishes is matched. -/
theorem simulates_finishes {s : S} {t : T} (hrel : rel s t) (hguard : m.GuardedFrom guard s)
    {r : R} (hr : m.Finishes s r) : ∃ q, n.Finishes t q ∧ res r q := by
  obtain ⟨k, hk⟩ := hr
  induction k generalizing s t with
  | zero => cases hk
  | succ k ih =>
    have hanswer := hstep s t hrel (GuardedFrom.self m hguard)
    cases hs : m.step s with
    | inl s' =>
      rw [hs] at hanswer
      obtain ⟨j, t', hj, hrel', -⟩ := hanswer
      rw [m.run_succ_of_step hs] at hk
      obtain ⟨q, hq, hres⟩ := ih hrel' (GuardedFrom.step m hguard hs) hk
      exact ⟨q, Finishes.of_reaches n ⟨j, hj⟩ hq, hres⟩
    | inr r' =>
      rw [hs] at hanswer
      rw [m.run_succ_of_finish hs] at hk
      obtain rfl := Option.some.inj hk
      obtain ⟨j, q, hq, hres⟩ := hanswer
      exact ⟨q, ⟨j, hq⟩, hres⟩

/-- **Simulation, divergence.** A guarded run of the first machine that never ends is matched by
one that never ends: each answer takes a step or lowers the measure. -/
theorem simulates_diverges {s : S} {t : T} (hrel : rel s t) (hguard : m.GuardedFrom guard s)
    (hdiv : m.Diverges s) : n.Diverges t := by
  intro k
  -- the fuel of the second machine, then the measure of the first
  induction k using Nat.strongRecOn generalizing s t with
  | ind k ihk =>
    induction hμ : measure s using Nat.strongRecOn generalizing s t with
    | ind μ ihμ =>
      have hanswer := hstep s t hrel (GuardedFrom.self m hguard)
      cases hs : m.step s with
      | inr r =>
        have := hdiv 1
        rw [m.run_succ_of_finish hs] at this
        cases this
      | inl s' =>
        rw [hs] at hanswer
        obtain ⟨j, t', hj, hrel', hlt⟩ := hanswer
        have hdiv' : m.Diverges s' := fun i => by
          have := hdiv (i + 1)
          rwa [m.run_succ_of_step hs] at this
        have hguard' := GuardedFrom.step m hguard hs
        rcases Nat.eq_zero_or_pos j with rfl | hpos
        · obtain rfl := Option.some.inj hj
          exact ihμ (measure s') (hμ ▸ hlt rfl) hrel' hguard' hdiv' rfl
        · by_cases hjk : j ≤ k
          · obtain ⟨i, rfl⟩ := Nat.exists_eq_add_of_le hjk
            rw [n.run_add_of_after hj]
            exact ihk i (by omega) hrel' hguard' hdiv'
          · by_contra hne
            obtain ⟨q, hq⟩ := Option.ne_none_iff_exists'.mp hne
            have := n.run_mono hq (by omega : k ≤ j)
            rw [n.run_eq_none_of_after hj] at this
            cases this

/-- **Simulation, states.** Every state of a guarded run of the first machine is matched. -/
theorem simulates_reaches {s : S} {t : T} (hrel : rel s t) (hguard : m.GuardedFrom guard s)
    {s' : S} (hs : m.Reaches s s') : ∃ t', n.Reaches t t' ∧ rel s' t' := by
  obtain ⟨k, hk⟩ := hs
  induction k generalizing s t with
  | zero =>
    obtain rfl := Option.some.inj hk
    exact ⟨t, Reaches.refl n t, hrel⟩
  | succ k ih =>
    have hanswer := hstep s t hrel (GuardedFrom.self m hguard)
    cases hs : m.step s with
    | inl s₁ =>
      rw [hs] at hanswer
      obtain ⟨j, t₁, hj, hrel₁, -⟩ := hanswer
      rw [m.after_succ_of_step hs] at hk
      obtain ⟨t', ht', hrel'⟩ := ih hrel₁ (GuardedFrom.step m hguard hs) hk
      exact ⟨t', Reaches.trans n ⟨j, hj⟩ ht', hrel'⟩
    | inr r => simp [after, hs] at hk

/-- Simulation along one stretch of a run: the condition is on the states that it leaves. -/
theorem simulates_reachesThrough {s : S} {t : T} (hrel : rel s t) {s' : S}
    (hs : m.ReachesThrough guard s s') : ∃ t', n.Reaches t t' ∧ rel s' t' := by
  obtain ⟨k, hk, hguard⟩ := hs
  induction k generalizing s t with
  | zero =>
    obtain rfl := Option.some.inj hk
    exact ⟨t, Reaches.refl n t, hrel⟩
  | succ k ih =>
    have hanswer := hstep s t hrel (hguard 0 (Nat.succ_pos k) s rfl)
    cases hs : m.step s with
    | inl s₁ =>
      rw [hs] at hanswer
      obtain ⟨j, t₁, hj, hrel₁, -⟩ := hanswer
      rw [m.after_succ_of_step hs] at hk
      obtain ⟨t', ht', hrel'⟩ := ih hrel₁ hk fun i hi u hu =>
        hguard (i + 1) (Nat.succ_lt_succ hi) u ((m.after_succ_of_step hs i).trans hu)
      exact ⟨t', Reaches.trans n ⟨j, hj⟩ ht', hrel'⟩
    | inr r => simp [after, hs] at hk

end Simulation

/-! ## Machines that do the same -/

/-- Two machines have the same results from two states, and run forever together. -/
structure SameRuns (m : Machine S R) (n : Machine T R) (s : S) (t : T) : Prop where
  finishes : ∀ r, m.Finishes s r ↔ n.Finishes t r
  diverges : m.Diverges s ↔ n.Diverges t

/-- A machine finishes or runs forever. -/
theorem finishes_or_diverges (m : Machine S R) (s : S) : (∃ r, m.Finishes s r) ∨ m.Diverges s := by
  by_cases h : ∃ r, m.Finishes s r
  · exact .inl h
  · refine .inr fun n => ?_
    cases hr : m.run n s with
    | none => rfl
    | some r => exact absurd ⟨r, n, hr⟩ h

theorem Finishes.not_diverges {m : Machine S R} {s : S} {r : R} (h : m.Finishes s r) :
    ¬ m.Diverges s := fun hdiv => by
  obtain ⟨n, hn⟩ := h
  rw [hdiv n] at hn
  cases hn

/-- What the second machine has to do, the first one does too: both are deterministic. -/
theorem SameRuns.of_forward {m : Machine S R} {n : Machine T R} {s : S} {t : T}
    (hfin : ∀ r, m.Finishes s r → n.Finishes t r) (hdiv : m.Diverges s → n.Diverges t) :
    m.SameRuns n s t := by
  refine ⟨fun r => ⟨hfin r, fun h => ?_⟩, hdiv, fun h => ?_⟩
  · rcases m.finishes_or_diverges s with ⟨q, hq⟩ | hm
    · rwa [(hfin q hq).unique h] at hq
    · exact absurd (hdiv hm) h.not_diverges
  · rcases m.finishes_or_diverges s with ⟨q, hq⟩ | hm
    · exact absurd h (hfin q hq).not_diverges
    · exact hm

theorem SameRuns.trans {U : Type*} {m : Machine S R} {n : Machine T R} {p : Machine U R} {s : S}
    {t : T} {u : U} (h : m.SameRuns n s t) (h' : n.SameRuns p t u) : m.SameRuns p s u :=
  ⟨fun r => (h.finishes r).trans (h'.finishes r), h.diverges.trans h'.diverges⟩

/-- **Simulation.** With the same results, a guarded run has the same results on both sides. -/
theorem simulates {m : Machine S R} {n : Machine T R} {rel : S → T → Prop} {measure : S → ℕ}
    {guard : S → Prop}
    (hstep : ∀ s t, rel s t → guard s → n.Answers rel Eq measure s t (m.step s)) {s : S} {t : T}
    (hrel : rel s t) (hguard : m.GuardedFrom guard s) : m.SameRuns n s t := by
  refine .of_forward (fun r hr => ?_) (simulates_diverges hstep hrel hguard)
  obtain ⟨q, hq, rfl⟩ := simulates_finishes hstep hrel hguard hr
  exact hq

/-! ## Results under a map -/

/-- The machine, with a map on its results. -/
def mapResult (m : Machine S R) (f : R → Q) : Machine S Q := ⟨fun s => (m.step s).map id f⟩

section MapResult

variable (m : Machine S R) (f : R → Q) {s t : S}

theorem step_mapResult_of_step (h : m.step s = .inl t) : (m.mapResult f).step s = .inl t := by
  show (m.step s).map id f = _
  rw [h]
  rfl

theorem step_mapResult_of_finish {r : R} (h : m.step s = .inr r) :
    (m.mapResult f).step s = .inr (f r) := by
  show (m.step s).map id f = _
  rw [h]
  rfl

theorem run_mapResult (n : ℕ) : (m.mapResult f).run n s = (m.run n s).map f := by
  induction n generalizing s with
  | zero => rfl
  | succ n ih =>
    cases h : m.step s with
    | inl t =>
      rw [m.run_succ_of_step h, (m.mapResult f).run_succ_of_step (m.step_mapResult_of_step f h), ih]
    | inr r =>
      rw [m.run_succ_of_finish h,
        (m.mapResult f).run_succ_of_finish (m.step_mapResult_of_finish f h)]
      rfl

theorem finishes_mapResult {q : Q} :
    (m.mapResult f).Finishes s q ↔ ∃ r, m.Finishes s r ∧ f r = q := by
  constructor
  · rintro ⟨n, hn⟩
    rw [run_mapResult, Option.map_eq_some_iff] at hn
    obtain ⟨r, hr, hq⟩ := hn
    exact ⟨r, ⟨n, hr⟩, hq⟩
  · rintro ⟨r, ⟨n, hn⟩, rfl⟩
    exact ⟨n, by rw [run_mapResult, hn]; rfl⟩

theorem diverges_mapResult : (m.mapResult f).Diverges s ↔ m.Diverges s := by
  refine forall_congr' fun n => ?_
  rw [run_mapResult, Option.map_eq_none_iff]

theorem SameRuns.mapResult {m : Machine S R} {n : Machine T R} {s : S} {t : T}
    (h : m.SameRuns n s t) (f : R → Q) : (m.mapResult f).SameRuns (n.mapResult f) s t := by
  refine ⟨fun q => ?_, ?_⟩
  · rw [finishes_mapResult, finishes_mapResult]
    exact exists_congr fun r => and_congr_left fun _ => h.finishes r
  · rw [diverges_mapResult, diverges_mapResult, h.diverges]

end MapResult

/-- **Simulation.** A guarded run has the results of the second machine under a map. -/
theorem simulates_mapResult {m : Machine S Q} {n : Machine T R} {rel : S → T → Prop}
    {measure : S → ℕ} {guard : S → Prop} (f : R → Q)
    (hstep : ∀ s t, rel s t → guard s →
      n.Answers rel (fun q r => f r = q) measure s t (m.step s)) {s : S} {t : T}
    (hrel : rel s t) (hguard : m.GuardedFrom guard s) : m.SameRuns (n.mapResult f) s t := by
  refine .of_forward (fun q hq => ?_) fun h =>
    (diverges_mapResult n f).mpr (simulates_diverges hstep hrel hguard h)
  exact (finishes_mapResult n f).mpr (simulates_finishes hstep hrel hguard hq)

section Congruence

variable {m n : Machine S R} {guard : S → Prop} (hstep : ∀ s, guard s → m.step s = n.step s)
  {s : S} (hguard : m.GuardedFrom guard s)

include hstep hguard

/-- Two machines that step alike where one of them goes run alike. -/
theorem after_congr (k : ℕ) : m.after k s = n.after k s := by
  induction k generalizing s with
  | zero => rfl
  | succ k ih =>
    have hs := hstep s (GuardedFrom.self m hguard)
    cases hm : m.step s with
    | inl s' =>
      rw [m.after_succ_of_step hm, n.after_succ_of_step (hs ▸ hm)]
      exact ih (GuardedFrom.step m hguard hm)
    | inr r => simp [after, hm, hs ▸ hm]

theorem run_congr (k : ℕ) : m.run k s = n.run k s := by
  induction k generalizing s with
  | zero => rfl
  | succ k ih =>
    have hs := hstep s (GuardedFrom.self m hguard)
    cases hm : m.step s with
    | inl s' =>
      rw [m.run_succ_of_step hm, n.run_succ_of_step (hs ▸ hm)]
      exact ih (GuardedFrom.step m hguard hm)
    | inr r => rw [m.run_succ_of_finish hm, n.run_succ_of_finish (hs ▸ hm)]

theorem sameRuns_congr : m.SameRuns n s s := by
  refine ⟨fun r => ?_, ?_⟩
  · exact ⟨fun ⟨k, hk⟩ => ⟨k, run_congr hstep hguard k ▸ hk⟩,
      fun ⟨k, hk⟩ => ⟨k, (run_congr hstep hguard k).trans hk⟩⟩
  · exact ⟨fun h k => run_congr hstep hguard k ▸ h k,
      fun h k => (run_congr hstep hguard k).trans (h k)⟩

theorem reaches_congr {t : S} : m.Reaches s t ↔ n.Reaches s t :=
  ⟨fun ⟨k, hk⟩ => ⟨k, after_congr hstep hguard k ▸ hk⟩,
    fun ⟨k, hk⟩ => ⟨k, (after_congr hstep hguard k).trans hk⟩⟩

theorem guardedFrom_congr {guard' : S → Prop} (h : m.GuardedFrom guard' s) :
    n.GuardedFrom guard' s := fun t ht => h t ((reaches_congr hstep hguard).mpr ht)

end Congruence

/-- An invariant of the steps holds along the run. -/
theorem guardedFrom_of_invariant {m : Machine S R} {inv : S → Prop} {s : S} (hs : inv s)
    (hstep : ∀ s s', inv s → m.step s = .inl s' → inv s') : m.GuardedFrom inv s := by
  rintro t ⟨k, hk⟩
  induction k generalizing s with
  | zero =>
    obtain rfl := Option.some.inj hk
    exact hs
  | succ k ih =>
    cases hm : m.step s with
    | inl s' =>
      rw [m.after_succ_of_step hm] at hk
      exact ih (hstep s s' hs hm) hk
    | inr r => simp [after, hm] at hk

/-- Follow a run to its end and test every state on the way. -/
def checks (m : Machine S R) (test : S → Bool) : ℕ → S → Bool
  | 0, _ => false
  | n + 1, s =>
    test s &&
      match m.step s with
      | .inl s' => m.checks test n s'
      | .inr _ => true

theorem guardedFrom_of_checks {m : Machine S R} {test : S → Bool} {n : ℕ} {s : S}
    (h : m.checks test n s = true) : m.GuardedFrom (fun t => test t = true) s := by
  rintro t ⟨k, hk⟩
  induction n generalizing s k with
  | zero => cases h
  | succ n ih =>
    obtain ⟨hs, hrest⟩ := Bool.and_eq_true_iff.mp h
    cases k with
    | zero =>
      obtain rfl := Option.some.inj hk
      exact hs
    | succ k =>
      cases hm : m.step s with
      | inl s' =>
        rw [hm] at hrest
        rw [m.after_succ_of_step hm] at hk
        exact ih hrest k hk
      | inr r => simp [after, hm] at hk

/-! ## The outcome of a run -/

/-- The result, if there is one. -/
noncomputable def outcome (m : Machine S R) (s : S) : Option R := by
  classical exact if h : ∃ r, m.Finishes s r then some h.choose else none

theorem Finishes.outcome_eq {m : Machine S R} {s : S} {r : R} (h : m.Finishes s r) :
    m.outcome s = some r := by
  have hex : ∃ r, m.Finishes s r := ⟨r, h⟩
  unfold outcome
  rw [dif_pos hex, hex.choose_spec.unique h]

theorem Diverges.outcome_eq {m : Machine S R} {s : S} (h : m.Diverges s) : m.outcome s = none := by
  unfold outcome
  rw [dif_neg]
  rintro ⟨r, hr⟩
  exact hr.not_diverges h

/-- A step does not change the outcome. -/
theorem outcome_eq_of_step {m : Machine S R} {s t : S} (h : m.step s = .inl t) :
    m.outcome s = m.outcome t := by
  rcases m.finishes_or_diverges t with ⟨r, hr⟩ | hdiv
  · have hs := Finishes.of_reaches m (Reaches.step m h (Reaches.refl m t)) hr
    rw [hr.outcome_eq, hs.outcome_eq]
  · have hs : m.Diverges s := fun n => by
      cases n with
      | zero => rfl
      | succ n => rw [m.run_succ_of_step h, hdiv n]
    rw [hdiv.outcome_eq, hs.outcome_eq]

theorem SameRuns.outcome_eq {m : Machine S R} {n : Machine T R} {s : S} {t : T}
    (h : m.SameRuns n s t) : m.outcome s = n.outcome t := by
  rcases m.finishes_or_diverges s with ⟨r, hr⟩ | hdiv
  · rw [hr.outcome_eq, ((h.finishes r).mp hr).outcome_eq]
  · rw [hdiv.outcome_eq, (h.diverges.mp hdiv).outcome_eq]

/-- Outcomes on two sides: related results, or none on both. -/
theorem simulates_outcome {m : Machine S R} {n : Machine T Q} {rel : S → T → Prop}
    {res : R → Q → Prop} {measure : S → ℕ} {guard : S → Prop}
    (hstep : ∀ s t, rel s t → guard s → n.Answers rel res measure s t (m.step s)) {s : S} {t : T}
    (hrel : rel s t) (hguard : m.GuardedFrom guard s) :
    Option.Rel res (m.outcome s) (n.outcome t) := by
  rcases m.finishes_or_diverges s with ⟨r, hr⟩ | hdiv
  · obtain ⟨q, hq, hres⟩ := simulates_finishes hstep hrel hguard hr
    rw [hr.outcome_eq, hq.outcome_eq]
    exact .some hres
  · rw [hdiv.outcome_eq, (simulates_diverges hstep hrel hguard hdiv).outcome_eq]
    exact .none

theorem rel_outcome_imp {res res' : R → Q → Prop} (himp : ∀ r q, res r q → res' r q) {o : Option R}
    {o' : Option Q} (h : Option.Rel res o o') : Option.Rel res' o o' := by
  cases h with
  | none => exact .none
  | some hres => exact .some (himp _ _ hres)

/-- Outcomes along a map of states and results that the steps commute with. -/
theorem outcome_map {m : Machine S R} {n : Machine T Q} {guard : S → Prop} (f : S → T)
    (g : R → Q) (hstep : ∀ s, guard s → n.step (f s) = (m.step s).map f g) {s : S}
    (hguard : m.GuardedFrom guard s) : n.outcome (f s) = (m.outcome s).map g := by
  have hanswers : ∀ s t, t = f s → guard s →
      n.Answers (fun s t => t = f s) (fun r q => q = g r) (fun _ => 0) s t (m.step s) := by
    rintro s t rfl hs
    have hcommutes := hstep s hs
    cases hm : m.step s with
    | inl s' =>
      rw [hm] at hcommutes
      exact .arrive hcommutes rfl
    | inr r =>
      rw [hm] at hcommutes
      exact .finish hcommutes rfl
  have hrel := simulates_outcome hanswers rfl hguard
  generalize m.outcome s = r at hrel ⊢
  generalize n.outcome (f s) = q at hrel ⊢
  cases hrel with
  | none => rfl
  | some h => exact congrArg some h

section Map

variable {m : Machine S R} {n : Machine T Q} {f : S → T} {g : R → Q}
  (hstep : ∀ s, n.step (f s) = (m.step s).map f g)

include hstep

/-- Runs along a map of states and results that the steps commute with. -/
theorem after_map (k : ℕ) (s : S) : n.after k (f s) = (m.after k s).map f := by
  induction k generalizing s with
  | zero => rfl
  | succ k ih =>
    have hs := hstep s
    cases hm : m.step s with
    | inl s' =>
      rw [hm] at hs
      rw [m.after_succ_of_step hm, n.after_succ_of_step hs, ih]
    | inr r =>
      rw [hm] at hs
      simp [after, hm, hs]

theorem run_map (k : ℕ) (s : S) : n.run k (f s) = (m.run k s).map g := by
  induction k generalizing s with
  | zero => rfl
  | succ k ih =>
    have hs := hstep s
    cases hm : m.step s with
    | inl s' =>
      rw [hm] at hs
      rw [m.run_succ_of_step hm, n.run_succ_of_step hs, ih]
    | inr r =>
      rw [hm] at hs
      rw [m.run_succ_of_finish hm, n.run_succ_of_finish hs]
      rfl

theorem guardedFrom_map {guard : T → Prop} (s : S) :
    n.GuardedFrom guard (f s) ↔ m.GuardedFrom (fun t => guard (f t)) s := by
  constructor
  · rintro h t ⟨k, hk⟩
    exact h (f t) ⟨k, by rw [after_map hstep, hk]; rfl⟩
  · rintro h u ⟨k, hk⟩
    rw [after_map hstep] at hk
    obtain ⟨t, ht, rfl⟩ := Option.map_eq_some_iff.mp hk
    exact h t ⟨k, ht⟩

theorem forall_finishes_map {post : Q → Prop} (s : S) :
    (∀ q, n.Finishes (f s) q → post q) ↔ ∀ r, m.Finishes s r → post (g r) := by
  constructor
  · rintro h r ⟨k, hk⟩
    exact h (g r) ⟨k, by rw [run_map hstep, hk]; rfl⟩
  · rintro h q ⟨k, hk⟩
    rw [run_map hstep] at hk
    obtain ⟨r, hr, rfl⟩ := Option.map_eq_some_iff.mp hk
    exact h r ⟨k, hr⟩

end Map

/-- Follow a run step by step. -/
theorem GuardedFrom.of_step {m : Machine S R} {guard : S → Prop} {s s' : S} (hs : guard s)
    (hstep : m.step s = .inl s') (h : m.GuardedFrom guard s') : m.GuardedFrom guard s := by
  rintro t ⟨k, hk⟩
  cases k with
  | zero =>
    obtain rfl := Option.some.inj hk
    exact hs
  | succ k =>
    rw [m.after_succ_of_step hstep] at hk
    exact h t ⟨k, hk⟩

theorem GuardedFrom.of_finish {m : Machine S R} {guard : S → Prop} {s : S} {r : R} (hs : guard s)
    (hstep : m.step s = .inr r) : m.GuardedFrom guard s := by
  rintro t ⟨k, hk⟩
  cases k with
  | zero =>
    obtain rfl := Option.some.inj hk
    exact hs
  | succ k => simp [after, hstep] at hk

theorem GuardedFrom.imp {m : Machine S R} {guard guard' : S → Prop} {s : S}
    (h : m.GuardedFrom guard s) (himp : ∀ t, guard t → guard' t) : m.GuardedFrom guard' s :=
  fun t ht => himp t (h t ht)

/-! ## Logs -/

section Logs

variable {E : Type*}

/-- What is written is part of the log of a state on the way or of the result. -/
def Writes (m : Machine S R) (log : S → List E) (final : R → List E) (s : S) (l : List E) : Prop :=
  (∃ t, m.Reaches s t ∧ l <+: log t) ∨ ∃ r, m.Finishes s r ∧ l <+: final r

/-- Steps only append to the log. -/
structure Appends (m : Machine S R) (log : S → List E) (final : R → List E) : Prop where
  on : ∀ s t, m.step s = .inl t → log s <+: log t
  off : ∀ s r, m.step s = .inr r → log s <+: final r

namespace Appends

variable {m : Machine S R} {log : S → List E} {final : R → List E} {s t : S}

theorem reaches (h : m.Appends log final) (hst : m.Reaches s t) : log s <+: log t := by
  obtain ⟨k, hk⟩ := hst
  induction k generalizing s with
  | zero =>
    obtain rfl := Option.some.inj hk
    exact List.prefix_refl _
  | succ k ih =>
    cases hs : m.step s with
    | inl u =>
      rw [m.after_succ_of_step hs] at hk
      exact (h.on s u hs).trans (ih hk)
    | inr r => simp [after, hs] at hk

theorem finishes (h : m.Appends log final) {r : R} (hr : m.Finishes s r) : log s <+: final r := by
  obtain ⟨k, hk⟩ := hr
  induction k generalizing s with
  | zero => cases hk
  | succ k ih =>
    cases hs : m.step s with
    | inl u =>
      rw [m.run_succ_of_step hs] at hk
      exact (h.on s u hs).trans (ih hk)
    | inr q =>
      rw [m.run_succ_of_finish hs] at hk
      exact Option.some.inj hk ▸ h.off s q hs

/-- A state on the way has written no more than the result. -/
theorem reaches_finishes (h : m.Appends log final) {r : R} (hst : m.Reaches s t)
    (hr : m.Finishes s r) : log t <+: final r := by
  obtain ⟨k, hk⟩ := hst
  obtain ⟨j, hj⟩ := hr
  have hlate := m.run_mono hj (by omega : j ≤ k + j)
  rw [m.run_add_of_after hk] at hlate
  exact h.finishes ⟨j, hlate⟩

end Appends

/-- Everything that is written in a run is good when every step on the way writes what is good. -/
theorem written_iff {m : Machine S R} {log : S → List E} {final : R → List E} {emits : S → List E}
    (hon : ∀ s t, m.step s = .inl t → log t = log s ++ emits s)
    (hoff : ∀ s r, m.step s = .inr r → final r = log s ++ emits s) {good : E → Prop} {s : S}
    (hs : ∀ e ∈ log s, good e) :
    (m.GuardedFrom (fun t => ∀ e ∈ log t, good e) s ∧
      ∀ r, m.Finishes s r → ∀ e ∈ final r, good e) ↔
        m.GuardedFrom (fun t => ∀ e ∈ emits t, good e) s := by
  constructor
  · rintro ⟨hguard, hfinal⟩ t ⟨k, hk⟩ e he
    cases hm : m.step t with
    | inl u =>
      have hu : m.Reaches s u := Reaches.trans m ⟨k, hk⟩ (Reaches.step m hm (.refl m u))
      exact hguard u hu e (hon t u hm ▸ List.mem_append_right _ he)
    | inr r =>
      have hr : m.Finishes s r := Finishes.of_reaches m ⟨k, hk⟩ ⟨1, m.run_succ_of_finish hm 0⟩
      exact hfinal r hr e (hoff t r hm ▸ List.mem_append_right _ he)
  · intro h
    have hguard : m.GuardedFrom (fun t => ∀ e ∈ log t, good e) s := by
      rintro t ⟨k, hk⟩
      induction k generalizing s with
      | zero =>
        obtain rfl := Option.some.inj hk
        exact hs
      | succ k ih =>
        cases hm : m.step s with
        | inl u =>
          rw [m.after_succ_of_step hm] at hk
          refine ih (fun e he => ?_) (GuardedFrom.step m h hm) hk
          rw [hon s u hm] at he
          exact (List.mem_append.mp he).elim (hs e) (GuardedFrom.self m h e)
        | inr r => simp [after, hm] at hk
    refine ⟨hguard, ?_⟩
    rintro r ⟨k, hk⟩
    induction k generalizing s with
    | zero => cases hk
    | succ k ih =>
      cases hm : m.step s with
      | inl u =>
        rw [m.run_succ_of_step hm] at hk
        exact ih (hguard u (Reaches.step m hm (.refl m u))) (GuardedFrom.step m h hm)
          (GuardedFrom.step m hguard hm) hk
      | inr q =>
        rw [m.run_succ_of_finish hm] at hk
        obtain rfl := Option.some.inj hk
        intro e he
        rw [hoff s q hm] at he
        exact (List.mem_append.mp he).elim (hs e) (GuardedFrom.self m h e)

/-- A run that never ends is followed as far as one likes. -/
theorem simulates_far {m : Machine S R} {n : Machine T Q} {rel : S → T → Prop}
    {res : R → Q → Prop} {measure : S → ℕ} {guard : S → Prop}
    (hstep : ∀ s t, rel s t → guard s → n.Answers rel res measure s t (m.step s)) {s : S} {t : T}
    (hrel : rel s t) (hguard : m.GuardedFrom guard s) (hdiv : m.Diverges s) (k : ℕ) :
    ∃ s' j t', m.Reaches s s' ∧ n.after (k + j) t = some t' ∧ rel s' t' := by
  induction k using Nat.strongRecOn generalizing s t with
  | ind k ihk =>
    induction hμ : measure s using Nat.strongRecOn generalizing s t with
    | ind μ ihμ =>
      have hanswer := hstep s t hrel (GuardedFrom.self m hguard)
      cases hs : m.step s with
      | inr r =>
        have := hdiv 1
        rw [m.run_succ_of_finish hs] at this
        cases this
      | inl s₁ =>
        rw [hs] at hanswer
        obtain ⟨j, t₁, hj, hrel₁, hlt⟩ := hanswer
        have hdiv₁ : m.Diverges s₁ := fun i => by
          have := hdiv (i + 1)
          rwa [m.run_succ_of_step hs] at this
        have hguard₁ := GuardedFrom.step m hguard hs
        have hfirst : ∀ s', m.Reaches s₁ s' → m.Reaches s s' := fun s' h => Reaches.step m hs h
        rcases Nat.eq_zero_or_pos j with rfl | hpos
        · obtain rfl := Option.some.inj hj
          obtain ⟨s', i, t', hs', ht', hrel'⟩ :=
            ihμ (measure s₁) (hμ ▸ hlt rfl) hrel₁ hguard₁ hdiv₁ rfl
          exact ⟨s', i, t', hfirst s' hs', ht', hrel'⟩
        · by_cases hjk : j ≤ k
          · obtain ⟨k, rfl⟩ := Nat.exists_eq_add_of_le hjk
            obtain ⟨s', i, t', hs', ht', hrel'⟩ := ihk k (by omega) hrel₁ hguard₁ hdiv₁
            refine ⟨s', i, t', hfirst s' hs', ?_, hrel'⟩
            rw [show j + k + i = j + (k + i) by omega, n.after_add hj, ht']
          · obtain ⟨i, rfl⟩ := Nat.exists_eq_add_of_le (by omega : k ≤ j)
            exact ⟨s₁, i, t₁, hfirst s₁ (Reaches.refl m s₁), hj, hrel₁⟩

/-- **Simulation, logs.** Both machines write the same, also in runs that never end. -/
theorem simulates_writes {m : Machine S R} {n : Machine T R} {rel : S → T → Prop}
    {measure : S → ℕ} {guard : S → Prop} {log : S → List E} {log' : T → List E}
    {final : R → List E}
    (hstep : ∀ s t, rel s t → guard s → n.Answers rel Eq measure s t (m.step s))
    (hlog : ∀ s t, rel s t → log s = log' t) (hgrow : n.Appends log' final) {s : S} {t : T}
    (hrel : rel s t) (hguard : m.GuardedFrom guard s) (l : List E) :
    m.Writes log final s l ↔ n.Writes log' final t l := by
  have hsame := simulates hstep hrel hguard
  constructor
  · rintro (⟨s', hs', hl⟩ | ⟨r, hr, hl⟩)
    · obtain ⟨t', ht', hrel'⟩ := simulates_reaches hstep hrel hguard hs'
      exact .inl ⟨t', ht', hlog s' t' hrel' ▸ hl⟩
    · exact .inr ⟨r, (hsame.finishes r).mp hr, hl⟩
  · rintro (⟨t', ht', hl⟩ | ⟨r, hr, hl⟩)
    · rcases m.finishes_or_diverges s with ⟨r, hr⟩ | hdiv
      · have hfinal := hgrow.reaches_finishes ht' ((hsame.finishes r).mp hr)
        exact .inr ⟨r, hr, hl.trans hfinal⟩
      · obtain ⟨k, hk⟩ := ht'
        obtain ⟨s', j, t'', hs', ht'', hrel''⟩ := simulates_far hstep hrel hguard hdiv k
        rw [n.after_add hk] at ht''
        have hlater := hgrow.reaches ⟨j, ht''⟩
        exact .inl ⟨s', hs', hlog s' t'' hrel'' ▸ hl.trans hlater⟩
    · exact .inr ⟨r, (hsame.finishes r).mpr hr, hl⟩

end Logs

end Machine

end Machines
