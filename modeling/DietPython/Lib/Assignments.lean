import Mathlib.Data.List.Nodup
import Mathlib.Data.List.Perm.Basic
import Mathlib.Logic.Function.Basic

/-!
# Simultaneous assignment

Values that are known beforehand are stored one after another. When no variable is stored twice,
this is one simultaneous assignment, and the order is of no importance.
-/

namespace Assignments

variable {X V : Type*}

/-- The assignments `l`, one after another. -/
def storeAll [DecidableEq X] (l : List (X × V)) (σ : X → V) : X → V :=
  l.foldl (fun σ a => Function.update σ a.1 a.2) σ

/-- `σ'` is `σ` with the assignments `l` made all at once. -/
structure Simultaneous (l : List (X × V)) (σ σ' : X → V) : Prop where
  assigned : ∀ a ∈ l, σ' a.1 = a.2
  others : ∀ x, x ∉ l.map Prod.fst → σ' x = σ x

theorem Simultaneous.of_perm {l l' : List (X × V)} {σ σ' : X → V} (h : Simultaneous l σ σ')
    (hperm : l.Perm l') : Simultaneous l' σ σ' where
  assigned := fun a ha => h.assigned a (hperm.mem_iff.mpr ha)
  others := fun x hx => h.others x fun hmem => hx ((hperm.map Prod.fst).mem_iff.mp hmem)

section Store

variable [DecidableEq X]

theorem storeAll_cons (a : X × V) (l : List (X × V)) (σ : X → V) :
    storeAll (a :: l) σ = storeAll l (Function.update σ a.1 a.2) := rfl

theorem storeAll_simultaneous (l : List (X × V)) (σ : X → V) (hnodup : (l.map Prod.fst).Nodup) :
    Simultaneous l σ (storeAll l σ) := by
  induction l generalizing σ with
  | nil => exact ⟨fun a ha => absurd ha List.not_mem_nil, fun x _ => rfl⟩
  | cons a l ih =>
    obtain ⟨hnot, hnodup⟩ := List.nodup_cons.mp hnodup
    have hrest := ih (Function.update σ a.1 a.2) hnodup
    rw [storeAll_cons]
    constructor
    · intro a' ha'
      rcases List.mem_cons.mp ha' with rfl | hmem
      · -- no later assignment changes the variable
        rw [hrest.others a'.1 hnot, Function.update_self]
      · exact hrest.assigned a' hmem
    · intro x hx
      rw [List.map_cons, List.mem_cons, not_or] at hx
      rw [hrest.others x hx.2, Function.update_of_ne hx.1]

end Store

end Assignments
