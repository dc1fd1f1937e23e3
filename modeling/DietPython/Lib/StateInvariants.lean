import Mathlib.Tactic.Common

/-!
# Invariants of stateful computations

`Keeps I P x` says that `x` keeps the invariant `I` of the state and answers with a value that has
the property `P`. A computation keeps an invariant when its parts do.
-/

namespace StateInvariants

universe u

variable {σ α β : Type u}

def Keeps (I : σ → Prop) (P : α → Prop) (x : StateM σ α) : Prop :=
  ∀ s, I s → P (x.run s).1 ∧ I (x.run s).2

namespace Keeps

variable {I : σ → Prop} {P : α → Prop} {Q : β → Prop} {x : StateM σ α}

theorem pure {a : α} (h : P a) : Keeps I P (pure a : StateM σ α) := fun _ hs => ⟨h, hs⟩

theorem bind {k : α → StateM σ β} (hx : Keeps I P x) (hk : ∀ a, P a → Keeps I Q (k a)) :
    Keeps I Q (x >>= k) := by
  intro s hs
  obtain ⟨ha, hs⟩ := hx s hs
  exact hk (x.run s).1 ha (x.run s).2 hs

end Keeps

end StateInvariants
