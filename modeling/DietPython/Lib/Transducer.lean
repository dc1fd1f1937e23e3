import Mathlib.Data.List.Basic
import Mathlib.Logic.Basic

/-!
# Deterministic transducers

A transducer answers every input with an output and moves to a new state. Runs are lists of
inputs, so a fact about all runs is an induction on that list. The two rules of this file are
packaged once and used for every component that is driven by a history of calls:

1. `trace_invariant_iff`: if one step keeps the invariant exactly when a guard holds, the
   invariant holds along a run exactly when the guard holds at each of its steps.
2. `outputs_eq_iff`: two transducers in lockstep answer alike exactly as long as the guard holds.
-/

namespace Transducers

/-- A deterministic machine with inputs and outputs. -/
structure Transducer (S I O : Type*) where
  step : S → I → S × O

namespace Transducer

variable {S T I O : Type*}

/-- The state after a run. -/
def final (m : Transducer S I O) : S → List I → S
  | s, [] => s
  | s, i :: is => m.final (m.step s i).1 is

/-- The answers given along a run. -/
def outputs (m : Transducer S I O) : S → List I → List O
  | _, [] => []
  | s, i :: is => (m.step s i).2 :: m.outputs (m.step s i).1 is

/-- The states visited along a run, the first one included. -/
def trace (m : Transducer S I O) : S → List I → List S
  | s, [] => [s]
  | s, i :: is => s :: m.trace (m.step s i).1 is

/-- `guard` holds at every step of the run. -/
def Guarded (m : Transducer S I O) (guard : S → I → Prop) : S → List I → Prop
  | _, [] => True
  | s, i :: is => guard s i ∧ m.Guarded guard (m.step s i).1 is

instance (m : Transducer S I O) (guard : S → I → Prop) [∀ s i, Decidable (guard s i)] :
    ∀ s is, Decidable (m.Guarded guard s is)
  | _, [] => .isTrue trivial
  | s, i :: is =>
    have := instDecidableGuarded m guard (m.step s i).1 is
    inferInstanceAs (Decidable (guard s i ∧ m.Guarded guard (m.step s i).1 is))

section Rules

variable (m : Transducer S I O) (guard : S → I → Prop)

theorem mem_trace_self (s : S) (is : List I) : s ∈ m.trace s is := by
  cases is <;> simp [trace]

theorem final_mem_trace (s : S) (is : List I) : m.final s is ∈ m.trace s is := by
  induction is generalizing s with
  | nil => simp [trace, final]
  | cons i is ih => exact List.mem_cons_of_mem _ (ih _)

/-- **Exact invariant rule.** `aux` is kept by every step. If, under `aux`, a step keeps `inv`
exactly when its guard holds, then `inv` holds throughout a run exactly when the run is guarded. -/
theorem trace_invariant_iff {aux inv : S → Prop} (haux : ∀ s i, aux s → aux (m.step s i).1)
    (hstep : ∀ s i, aux s → inv s → (inv (m.step s i).1 ↔ guard s i))
    {s : S} (ha : aux s) (hs : inv s) (is : List I) :
    (∀ t ∈ m.trace s is, inv t) ↔ m.Guarded guard s is := by
  induction is generalizing s with
  | nil => simpa [trace, Guarded] using hs
  | cons i is ih =>
    have hi := hstep s i ha hs
    constructor
    · intro h
      have hnext : inv (m.step s i).1 :=
        h _ (List.mem_cons_of_mem _ (m.mem_trace_self _ is))
      exact ⟨hi.mp hnext, (ih (haux s i ha) hnext).mp fun t ht => h t (List.mem_cons_of_mem _ ht)⟩
    · rintro ⟨hg, hrest⟩ t ht
      have hnext := hi.mpr hg
      rcases List.mem_cons.mp ht with rfl | ht
      · exact hs
      · exact (ih (haux s i ha) hnext).mpr hrest t ht

/-- **Record rule.** What one more answer keeps of the state and of the answers so far, as long as
the guard holds, is kept by every guarded run. -/
theorem record_invariant (inv : List O → S → Prop)
    (hstep : ∀ os s i, inv os s → guard s i → inv (os ++ [(m.step s i).2]) (m.step s i).1)
    {os : List O} {s : S} (h : inv os s) {is : List I} (hguard : m.Guarded guard s is) :
    inv (os ++ m.outputs s is) (m.final s is) := by
  induction is generalizing os s with
  | nil => rwa [outputs, final, List.append_nil]
  | cons i is ih =>
    have hnext := ih (hstep os s i h hguard.1) hguard.2
    rwa [List.append_assoc] at hnext

end Rules

/-- Two transducers with the same inputs, side by side. -/
def prod {P : Type*} (m : Transducer S I O) (n : Transducer T I P) :
    Transducer (S × T) I (O × P) where
  step st i := (((m.step st.1 i).1, (n.step st.2 i).1), ((m.step st.1 i).2, (n.step st.2 i).2))

section Lockstep

variable (m : Transducer S I O) (n : Transducer T I O) (guard : S → I → Prop)

/-- **Lockstep rule.** Related states answer alike and stay related when the guard holds, and
answer differently when it fails: so two runs agree exactly when the run is guarded. -/
theorem outputs_eq_iff {rel : S → T → Prop}
    (hgood : ∀ s t i, rel s t → guard s i →
      (m.step s i).2 = (n.step t i).2 ∧ rel (m.step s i).1 (n.step t i).1)
    (hbad : ∀ s t i, rel s t → ¬ guard s i → (m.step s i).2 ≠ (n.step t i).2)
    {s : S} {t : T} (hst : rel s t) (is : List I) :
    m.outputs s is = n.outputs t is ↔ m.Guarded guard s is := by
  induction is generalizing s t with
  | nil => simp [outputs, Guarded]
  | cons i is ih =>
    simp only [outputs, Guarded, List.cons.injEq]
    by_cases hg : guard s i
    · obtain ⟨hout, hrel⟩ := hgood s t i hst hg
      simp [hout, hg, ih hrel]
    · simp [hbad s t i hst hg, hg]

/-- **Simulation rule.** Related states that answer alike and stay related when the guard holds: a
guarded run is answered alike. -/
theorem outputs_eq_of_guarded {rel : S → T → Prop}
    (hstep : ∀ s t i, rel s t → guard s i →
      (m.step s i).2 = (n.step t i).2 ∧ rel (m.step s i).1 (n.step t i).1)
    {s : S} {t : T} (hst : rel s t) {is : List I} (hguard : m.Guarded guard s is) :
    m.outputs s is = n.outputs t is := by
  induction is generalizing s t with
  | nil => rfl
  | cons i is ih =>
    obtain ⟨hg, hrest⟩ := hguard
    obtain ⟨hout, hrel⟩ := hstep s t i hst hg
    rw [outputs, outputs, hout, ih hrel hrest]

/-- Two runs side by side: guards that are equivalent in related states hold along both or along
neither. -/
theorem guarded_iff_of_rel {P : Type*} {n : Transducer T I P} {guard' : T → I → Prop}
    {rel : S → T → Prop} (hrel : ∀ s t i, rel s t → rel (m.step s i).1 (n.step t i).1)
    (hguard : ∀ s t i, rel s t → (guard s i ↔ guard' t i)) {s : S} {t : T} (hst : rel s t)
    (is : List I) : m.Guarded guard s is ↔ n.Guarded guard' t is := by
  induction is generalizing s t with
  | nil => exact Iff.rfl
  | cons i is ih => exact and_congr (hguard s t i hst) (ih (hrel s t i hst))

/-- Two transducers in lockstep: a guard on both states that comes down to one on the first. -/
theorem guarded_prod_iff {P : Type*} {n : Transducer T I P} {guard : S × T → I → Prop}
    {guard' : S → I → Prop} {rel : S → T → Prop}
    (hrel : ∀ s t i, rel s t → rel (m.step s i).1 (n.step t i).1)
    (hguard : ∀ s t i, rel s t → (guard (s, t) i ↔ guard' s i)) {s : S} {t : T} (hst : rel s t)
    (is : List I) : (m.prod n).Guarded guard (s, t) is ↔ m.Guarded guard' s is := by
  induction is generalizing s t with
  | nil => exact Iff.rfl
  | cons i is ih => exact and_congr (hguard s t i hst) (ih (hrel s t i hst))

theorem guarded_of_forall (h : ∀ s i, guard s i) (s : S) (is : List I) : m.Guarded guard s is := by
  induction is generalizing s with
  | nil => trivial
  | cons i is ih => exact ⟨h s i, ih _⟩

end Lockstep

end Transducer

end Transducers
