import Mathlib.Data.List.Basic

/-!
# Unpacking

`unpack` takes as many items from an iterator as its flags say, and the interpreter as many as the
counts of its instruction say. The flags that the lowering of a target makes stand for these counts:
a target list is one `True` for each target and one `False` for the starred one.
-/

namespace DietPython.Targets

/-- Something that may raise and has effects. -/
abbrev Act (X σ α : Type) := ExceptT X (StateM σ) α

/-- What unpacking asks of the program. -/
structure Iterators (V X σ : Type) where
  /-- `iter(iterable)`, with the `TypeError` that unpacking puts in the place of another. -/
  iter : V → Act X σ V
  /-- `next(iterator)`; `none` is a `StopIteration`. -/
  next : V → Act X σ (Option V)
  /-- `list(iterator)` -/
  drain : V → Act X σ (List V)
  valueError : σ → X × σ

/-- What unpacking gives for one target. -/
inductive Slot (V : Type)
  | item (v : V)
  /-- The list for a starred target. -/
  | rest (vs : List V)

section Unpack

variable {V X σ α : Type} (its : Iterators V X σ)

/-- `raise ValueError` -/
def raiseValueError : Act X σ α := fun s => (.error (its.valueError s).1, (its.valueError s).2)

/-! ## The runtime function -/

/-- Items up to the first `False`, and the flags behind it. -/
def takeFlags (iterator : V) : List Bool → Act X σ (List V × Option (List Bool))
  | [] => pure ([], none)
  | false :: flags => pure ([], some flags)
  | true :: flags => do
    match ← its.next iterator with
    | none => raiseValueError its
    | some v =>
      let (vs, star) ← takeFlags iterator flags
      pure (v :: vs, star)

/-- `unpack` -/
def unpack (iterable : V) (spec : List Bool) : Act X σ (List (Slot V)) := do
  let iterator ← its.iter iterable
  let (result, star) ← takeFlags its iterator spec
  match star with
  | none =>
    match ← its.next iterator with
    | none => pure (result.map .item)
    | some _ => raiseValueError its
  | some suffixFlags =>
    if !suffixFlags.all id then raiseValueError its
    else
      let remainder ← its.drain iterator
      let suffixCount := suffixFlags.length
      if remainder.length < suffixCount then raiseValueError its
      else if suffixCount ≠ 0 then
        pure (result.map .item ++ .rest (remainder.take (remainder.length - suffixCount)) ::
          (remainder.drop (remainder.length - suffixCount)).map .item)
      else pure (result.map .item ++ [.rest remainder])

/-! ## The interpreter -/

def takeItems (iterator : V) : ℕ → Act X σ (List V)
  | 0 => pure []
  | n + 1 => do
    match ← its.next iterator with
    | none => raiseValueError its
    | some v => pure (v :: (← takeItems iterator n))

/-- Unpack into this many targets, a starred one and `after` others when there is an `after`. -/
def unpackIterable (iterable : V) (before : ℕ) (after : Option ℕ) : Act X σ (List (Slot V)) := do
  let iterator ← its.iter iterable
  let items ← takeItems its iterator before
  match after with
  | none =>
    match ← its.next iterator with
    | none => pure (items.map .item)
    | some _ => raiseValueError its
  | some n =>
    let l ← its.drain iterator
    if l.length < n then raiseValueError its
    else
      pure (items.map .item ++ .rest (l.take (l.length - n)) :: (l.drop (l.length - n)).map .item)

/-- The flags for these counts. -/
def flagsFor (before : ℕ) : Option ℕ → List Bool
  | none => List.replicate before true
  | some after => List.replicate before true ++ false :: List.replicate after true

/-! ## Agreement -/

theorem takeFlags_flagsFor (iterator : V) (before : ℕ) (after : Option ℕ) :
    takeFlags its iterator (flagsFor before after) = (do
      pure (← takeItems its iterator before, after.map fun n => List.replicate n true)) := by
  induction before with
  | zero => cases after <;> rfl
  | succ before ih =>
    have h : flagsFor (before + 1) after = true :: flagsFor before after := by
      cases after <;> rfl
    rw [h]
    unfold takeFlags takeItems
    rw [ih]
    simp only [bind_assoc, pure_bind]
    refine congrArg _ (funext fun v => ?_)
    cases v with
    | none => rfl
    | some v => simp only [bind_assoc, pure_bind]

/-- `unpack` takes from an iterator what the interpreter takes, in the same order. -/
theorem unpack_flagsFor (iterable : V) (before : ℕ) (after : Option ℕ) :
    unpack its iterable (flagsFor before after) = unpackIterable its iterable before after := by
  unfold unpack unpackIterable
  simp only [takeFlags_flagsFor, bind_assoc, pure_bind]
  refine congrArg _ (funext fun iterator => congrArg _ (funext fun items => ?_))
  cases after with
  | none => rfl
  | some n =>
    simp only [Option.map_some, List.all_replicate, List.length_replicate]
    have hall : (!if n = 0 then true else id true) = false := by split <;> rfl
    rw [hall]
    simp only [Bool.false_eq_true, if_false]
    refine congrArg _ (funext fun l => ?_)
    cases n with
    | zero => simp
    | succ n => simp

/-! ## The shape of what is unpacked -/

/-- Every value that the action gives has the property. -/
def Yields (m : Act X σ α) (P : α → Prop) : Prop :=
  ∀ s a s', m s = (.ok a, s') → P a

theorem bind_apply {β : Type} (m : Act X σ α) (f : α → Act X σ β) (s : σ) :
    (m >>= f) s =
      match m s with
      | (.ok a, s') => f a s'
      | (.error e, s') => (.error e, s') := by
  show StateT.bind m (ExceptT.bindCont f) s = _
  unfold StateT.bind
  show (match m s with | (r, s') => ExceptT.bindCont f r s') = _
  generalize m s = r
  obtain ⟨e | a, s'⟩ := r <;> rfl

theorem Yields.bind {β : Type} {m : Act X σ α} {f : α → Act X σ β} {P : α → Prop} {Q : β → Prop}
    (hm : Yields m P) (hf : ∀ a, P a → Yields (f a) Q) : Yields (m >>= f) Q := by
  intro s b s' h
  rw [bind_apply] at h
  rcases hs : m s with ⟨e | a, s1⟩
  · rw [hs] at h
    cases h
  · rw [hs] at h
    exact hf a (hm s a s1 hs) s1 b s' h

theorem Yields.pure {a : α} {P : α → Prop} (h : P a) : Yields (pure a : Act X σ α) P := by
  intro s b s' hb
  cases hb
  exact h

theorem Yields.raise {P : α → Prop} : Yields (raiseValueError its : Act X σ α) P := by
  intro s b s' hb
  cases hb

theorem Yields.any {m : Act X σ α} : Yields m fun _ => True := fun _ _ _ _ => trivial

/-- What follows may rely on the property. -/
theorem Yields.bind_congr {β : Type} {m : Act X σ α} {P : α → Prop} (hm : Yields m P)
    {f g : α → Act X σ β} (h : ∀ a, P a → f a = g a) : m >>= f = m >>= g := by
  funext s
  rw [bind_apply, bind_apply]
  rcases hs : m s with ⟨e | a, s1⟩
  · rfl
  · simp only
    rw [h a (hm s a s1 hs)]

def Slot.isItem : Slot V → Bool
  | .item _ => true
  | .rest _ => false

theorem yields_takeItems (iterator : V) (n : ℕ) :
    Yields (takeItems its iterator n) fun vs => vs.length = n := by
  induction n with
  | zero => exact Yields.pure rfl
  | succ n ih =>
    refine Yields.any.bind fun v _ => ?_
    cases v with
    | none => exact Yields.raise its
    | some v =>
      refine ih.bind fun vs hvs => Yields.pure ?_
      rw [List.length_cons, hvs]

theorem map_isItem (vs : List V) :
    (vs.map Slot.item).map Slot.isItem = List.replicate vs.length true := by
  rw [List.map_map, List.eq_replicate_iff]
  refine ⟨by simp, fun b hb => ?_⟩
  obtain ⟨v, -, rfl⟩ := List.mem_map.mp hb
  rfl

/-- One slot for each target, a list for the starred one. -/
theorem yields_unpackIterable (iterable : V) (before : ℕ) (after : Option ℕ) :
    Yields (unpackIterable its iterable before after) fun slots =>
      slots.map Slot.isItem = flagsFor before after := by
  refine Yields.any.bind fun iterator _ => (yields_takeItems its iterator before).bind
    fun items hitems => ?_
  cases after with
  | none =>
    refine Yields.any.bind fun v _ => ?_
    cases v with
    | none =>
      refine Yields.pure ?_
      rw [map_isItem, hitems]
      rfl
    | some v => exact Yields.raise its
  | some n =>
    refine Yields.any.bind fun l _ => ?_
    split
    · exact Yields.raise its
    · refine Yields.pure ?_
      rw [List.map_append, map_isItem, hitems, List.map_cons, map_isItem, List.length_drop]
      show List.replicate before true ++ false :: _ = _
      rw [show l.length - (l.length - n) = n by omega]
      rfl

end Unpack

end DietPython.Targets
