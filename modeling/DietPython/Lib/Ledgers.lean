import Mathlib.Data.Multiset.AddSub
import Mathlib.Data.Multiset.ZeroCons

/-!
# Ledgers of references

Code takes references to objects, uses objects that it has references to, and gives references back.
The ledger is the multiset of references that the code has. Some objects need none: they are
immortal. Code that gives back a reference that it does not have, or uses an object without one,
goes wrong; otherwise it goes on, or leaves by its failing exit.

`Meets` is the rule of such code: what holds when it goes on and when it leaves, and that it does
not go wrong.
-/

namespace Ledgers

inductive Stop
  | exit
  | dangling
  deriving DecidableEq

structure State (O σ : Type) where
  held : Multiset O
  own : σ

abbrev Act (O σ α : Type) := ExceptT Stop (StateM (State O σ)) α

section Actions

variable {O σ α : Type} (immortal : O → Bool)

/-- The reference to an object, which an immortal object does not need. -/
def ref (o : O) : Multiset O := if immortal o then 0 else {o}

def acquire (o : O) : Act O σ Unit := fun s => (.ok (), { s with held := ref immortal o + s.held })

def exit : Act O σ α := fun s => (.error .exit, s)

variable [DecidableEq O]

def release (o : O) : Act O σ Unit := fun s =>
  if ref immortal o ≤ s.held then (.ok (), { s with held := s.held - ref immortal o })
  else (.error .dangling, s)

def use (o : O) : Act O σ Unit := fun s =>
  if ref immortal o ≤ s.held then (.ok (), s) else (.error .dangling, s)

/-- What is done at the end, on both ways out. -/
def ensure (m : Act O σ α) (last : Act O σ Unit) : Act O σ α := fun s =>
  match m s with
  | (.ok a, s') => (last >>= fun _ => pure a) s'
  | (.error .exit, s') => (last >>= fun _ => exit) s'
  | (.error .dangling, s') => (.error .dangling, s')

end Actions

/-! ## The rule -/

section Meets

variable {O σ α β : Type}

/-- Started in this state, the code does not go wrong. -/
def Meets (m : Act O σ α) (s : State O σ) (goesOn : α → State O σ → Prop)
    (leaves : State O σ → Prop) : Prop :=
  match m s with
  | (.ok a, s') => goesOn a s'
  | (.error .exit, s') => leaves s'
  | (.error .dangling, _) => False

variable {s : State O σ} {goesOn : α → State O σ → Prop} {leaves : State O σ → Prop}

theorem meets_pure {a : α} (h : goesOn a s) : Meets (pure a) s goesOn leaves := h

theorem meets_exit (h : leaves s) : Meets (exit : Act O σ α) s goesOn leaves := h

theorem bind_apply (m : Act O σ α) (f : α → Act O σ β) (s : State O σ) :
    (m >>= f) s =
      match m s with
      | (.ok a, s') => f a s'
      | (.error e, s') => (.error e, s') := by
  show StateT.bind m (ExceptT.bindCont f) s = _
  unfold StateT.bind
  show (match m s with | (r, s') => ExceptT.bindCont f r s') = _
  generalize m s = r
  obtain ⟨e | a, s'⟩ := r <;> rfl

theorem Meets.bind {m : Act O σ α} {f : α → Act O σ β} (between : α → State O σ → Prop)
    {goesOn : β → State O σ → Prop} (hm : Meets m s between leaves)
    (hf : ∀ a s', between a s' → Meets (f a) s' goesOn leaves) :
    Meets (m >>= f) s goesOn leaves := by
  unfold Meets at hm ⊢
  rw [bind_apply]
  rcases hs : m s with ⟨e | a, s'⟩
  · rw [hs] at hm
    cases e with
    | exit => exact hm
    | dangling => exact hm
  · rw [hs] at hm
    exact hf a s' hm

theorem ensure_apply (m : Act O σ α) (last : Act O σ Unit) (s : State O σ) :
    ensure m last s =
      match m s with
      | (.ok a, s') => (last >>= fun _ => pure a) s'
      | (.error .exit, s') => (last >>= fun _ => exit) s'
      | (.error .dangling, s') => (.error .dangling, s') := rfl

theorem Meets.ensure {m : Act O σ α} {last : Act O σ Unit} (between : α → State O σ → Prop)
    (left : State O σ → Prop) (hm : Meets m s between left)
    (hbetween : ∀ a s', between a s' → Meets last s' (fun _ => goesOn a) leaves)
    (hleft : ∀ s', left s' → Meets last s' (fun _ => leaves) leaves) :
    Meets (ensure m last) s goesOn leaves := by
  unfold Meets at hm ⊢
  rw [ensure_apply]
  rcases hs : m s with ⟨e | a, s'⟩
  · rw [hs] at hm
    cases e with
    | exit => exact (hleft s' hm).bind _ fun _ _ h => meets_exit h
    | dangling => exact hm
  · rw [hs] at hm
    exact (hbetween a s' hm).bind _ fun _ _ h => meets_pure h

theorem Meets.mono {m : Act O σ α} {goesOn' : α → State O σ → Prop} {leaves' : State O σ → Prop}
    (h : Meets m s goesOn leaves) (hgoesOn : ∀ a s', goesOn a s' → goesOn' a s')
    (hleaves : ∀ s', leaves s' → leaves' s') : Meets m s goesOn' leaves' := by
  unfold Meets at h ⊢
  rcases hs : m s with ⟨e | a, s'⟩
  · rw [hs] at h
    cases e with
    | exit => exact hleaves s' h
    | dangling => exact h
  · rw [hs] at h
    exact hgoesOn a s' h

/-- Code cannot meet two specifications that exclude each other. -/
theorem Meets.clash {m : Act O σ α} {goesOn' : α → State O σ → Prop} {leaves' : State O σ → Prop}
    (h : Meets m s goesOn leaves) (h' : Meets m s goesOn' leaves')
    (hgoesOn : ∀ a s', goesOn a s' → ¬goesOn' a s') (hleaves : ∀ s', leaves s' → ¬leaves' s') :
    False := by
  unfold Meets at h h'
  rcases hs : m s with ⟨e | a, s'⟩
  · rw [hs] at h h'
    cases e with
    | exit => exact hleaves s' h h'
    | dangling => exact h
  · rw [hs] at h h'
    exact hgoesOn a s' h h'

/-! ## The actions -/

variable {immortal : O → Bool} {o : O} {after : Unit → State O σ → Prop}

theorem meets_acquire (h : after () { s with held := ref immortal o + s.held }) :
    Meets (acquire immortal o) s after leaves := h

variable [DecidableEq O]

theorem meets_release {rest : Multiset O} (hheld : s.held = ref immortal o + rest)
    (h : after () { s with held := rest }) : Meets (release immortal o) s after leaves := by
  have hle : ref immortal o ≤ s.held := hheld ▸ Multiset.le_add_right _ _
  have hsub : s.held - ref immortal o = rest := by
    rw [hheld, Multiset.add_comm, Multiset.add_sub_cancel_right]
  unfold Meets release
  rw [if_pos hle, hsub]
  exact h

theorem meets_use (hheld : ref immortal o ≤ s.held) (h : after () s) :
    Meets (use immortal o) s after leaves := by
  unfold Meets use
  rw [if_pos hheld]
  exact h

omit [DecidableEq O] in
theorem add_ne_zero_left {a b : Multiset O} (h : a ≠ 0) : a + b ≠ 0 := fun hsum =>
  h (Multiset.le_zero.1 (hsum ▸ Multiset.le_add_right a b))

omit [DecidableEq O] in
theorem add_ne_zero_right {a b : Multiset O} (h : b ≠ 0) : a + b ≠ 0 := fun hsum =>
  h (Multiset.le_zero.1 (hsum ▸ Multiset.le_add_left b a))

end Meets

end Ledgers
