import Mathlib.Tactic.Common
import Mathlib.Data.List.Basic

/-!
# Logged computations

A logged computation runs after a history of observable events, appends its own events to it and
ends with a value or an error. The environment answers every event from the whole history, so it
may change between two events in any way. Two programs behave alike in an environment when they
leave the same history and the same result.

`Within` bounds the events that a computation can append and the errors it can end with; it is
what tells two computations apart. `IfOk` states a condition on the rest of a computation.
-/

namespace LoggedComputations

universe u

/-- A computation over a history of events, to which it only appends. -/
structure Logged (Ev Err : Type*) (α : Type u) where
  run : List Ev → Except Err α × List Ev
  grows : ∀ l, l <+: (run l).2

namespace Logged

variable {Ev Err : Type*} {α β : Type u}

instance : CoeFun (Logged Ev Err α) fun _ => List Ev → Except Err α × List Ev := ⟨run⟩

theorem ext_apply {m m' : Logged Ev Err α} (h : ∀ l, m l = m' l) : m = m' := by
  obtain ⟨run, hrun⟩ := m
  obtain ⟨run', hrun'⟩ := m'
  obtain rfl : run = run' := funext h
  rfl

instance : Monad (Logged Ev Err) where
  pure a := ⟨fun l => (.ok a, l), fun l => List.prefix_refl l⟩
  bind m k :=
    { run := fun l =>
        match m l with
        | (.ok a, l') => k a l'
        | (.error e, l') => (.error e, l')
      grows := by
        intro l
        have hm := m.grows l
        rcases hr : m l with ⟨e | a, l'⟩
        · rw [hr] at hm
          exact hm
        · rw [hr] at hm
          exact hm.trans ((k a).grows l') }

/-- Ends with an error. -/
def raise (e : Err) : Logged Ev Err α := ⟨fun l => (.error e, l), fun l => List.prefix_refl l⟩

/-- Appends an event and takes the answer of the environment. -/
def observe (ev : Ev) (answer : List Ev → Except Err α) : Logged Ev Err α :=
  ⟨fun l => (answer l, l ++ [ev]), fun l => List.prefix_append l [ev]⟩

/-- Asks the environment without a trace in the history. -/
def peek (answer : List Ev → Except Err α) : Logged Ev Err α :=
  ⟨fun l => (answer l, l), fun l => List.prefix_refl l⟩

/-- If `m` ends normally, `Q` holds of its value and of the history it leaves. -/
def IfOk (m : Logged Ev Err α) (Q : α → List Ev → Prop) (l : List Ev) : Prop :=
  match m l with
  | (.ok a, l') => Q a l'
  | (.error _, _) => True

section Equations

variable (l : List Ev)

@[simp] theorem pure_apply (a : α) : (pure a : Logged Ev Err α) l = (.ok a, l) := rfl

@[simp] theorem raise_apply (e : Err) : (raise e : Logged Ev Err α) l = (.error e, l) := rfl

@[simp] theorem observe_apply (ev : Ev) (answer : List Ev → Except Err α) :
    observe ev answer l = (answer l, l ++ [ev]) := rfl

@[simp] theorem peek_apply (answer : List Ev → Except Err α) : peek answer l = (answer l, l) := rfl

theorem bind_apply (m : Logged Ev Err α) (k : α → Logged Ev Err β) :
    (m >>= k) l = match m l with
      | (.ok a, l') => k a l'
      | (.error e, l') => (.error e, l') := rfl

theorem bind_apply_ok {m : Logged Ev Err α} {a : α} {l' : List Ev} (h : m l = (.ok a, l'))
    (k : α → Logged Ev Err β) : (m >>= k) l = k a l' := by
  rw [bind_apply, h]

theorem bind_apply_error {m : Logged Ev Err α} {e : Err} {l' : List Ev}
    (h : m l = (.error e, l')) (k : α → Logged Ev Err β) : (m >>= k) l = (.error e, l') := by
  rw [bind_apply, h]

theorem bind_eq_ok {m : Logged Ev Err α} {k : α → Logged Ev Err β} {b : β} {l' : List Ev}
    (h : (m >>= k) l = (.ok b, l')) : ∃ a l₁, m l = (.ok a, l₁) ∧ k a l₁ = (.ok b, l') := by
  rcases hr : m l with ⟨e | a, l₁⟩
  · rw [bind_apply_error l hr] at h
    cases h
  · rw [bind_apply_ok l hr] at h
    exact ⟨a, l₁, rfl, h⟩

theorem ifOk_of_ok {m : Logged Ev Err α} {a : α} {l' : List Ev} (h : m l = (.ok a, l'))
    (Q : α → List Ev → Prop) : IfOk m Q l ↔ Q a l' := by
  rw [IfOk, h]

theorem ifOk_of_error {m : Logged Ev Err α} {e : Err} {l' : List Ev} (h : m l = (.error e, l'))
    (Q : α → List Ev → Prop) : IfOk m Q l ↔ True := by
  rw [IfOk, h]

theorem ifOk_congr {m : Logged Ev Err α} {Q Q' : α → List Ev → Prop}
    (h : ∀ a l', m l = (.ok a, l') → (Q a l' ↔ Q' a l')) : IfOk m Q l ↔ IfOk m Q' l := by
  rcases hr : m l with ⟨_ | a, l'⟩
  · rw [ifOk_of_error l hr, ifOk_of_error l hr]
  · rw [ifOk_of_ok l hr, ifOk_of_ok l hr]
    exact h a l' hr

theorem ifOk_of_forall {m : Logged Ev Err α} {Q : α → List Ev → Prop} (h : ∀ a l', Q a l') :
    IfOk m Q l := by
  rcases hr : m l with ⟨e | a, l'⟩
  · exact (ifOk_of_error l hr Q).mpr trivial
  · exact (ifOk_of_ok l hr Q).mpr (h a l')

/-- Two sequences with the same first part behave alike exactly when their second parts do, if
they are reached. -/
theorem bind_eq_bind_iff (m : Logged Ev Err α) (k k' : α → Logged Ev Err β) :
    (m >>= k) l = (m >>= k') l ↔ IfOk m (fun a l' => k a l' = k' a l') l := by
  rcases hr : m l with ⟨e | a, l'⟩
  · rw [ifOk_of_error l hr, bind_apply_error l hr, bind_apply_error l hr]
    simp
  · rw [ifOk_of_ok l hr, bind_apply_ok l hr, bind_apply_ok l hr]

end Equations

theorem map_id_apply (m : Logged Ev Err α) : id <$> m = m := by
  refine ext_apply fun l => ?_
  rcases hr : m l with ⟨e | a, l'⟩
  · simp only [Functor.map, hr]
  · simp only [Functor.map, hr]
    rfl

theorem bind_assoc_apply {γ : Type u} (m : Logged Ev Err α) (k : α → Logged Ev Err β)
    (h : β → Logged Ev Err γ) : m >>= k >>= h = m >>= fun a => k a >>= h := by
  refine ext_apply fun l => ?_
  rcases hr : m l with ⟨e | a, l'⟩ <;> simp only [bind_apply, hr]

instance : LawfulMonad (Logged Ev Err) :=
  LawfulMonad.mk' (Logged Ev Err) map_id_apply (fun _ _ => rfl) bind_assoc_apply

/-! ## Bounds on events and errors -/

/-- `m` only appends events of `S` and only ends with errors of `T`. -/
def Within (S : Ev → Prop) (T : Err → Prop) (m : Logged Ev Err α) : Prop :=
  ∀ l, ∃ es, (m l).2 = l ++ es ∧ (∀ ev ∈ es, S ev) ∧ ∀ e, (m l).1 = .error e → T e

section Within

variable {S : Ev → Prop} {T : Err → Prop}

theorem Within.pure (a : α) : Within S T (Pure.pure a : Logged Ev Err α) :=
  fun l => ⟨[], by simp⟩

theorem Within.raise {e : Err} (h : T e) : Within S T (raise e : Logged Ev Err α) := by
  intro l
  exact ⟨[], by simp, by simp, fun e' he => by obtain rfl := Except.error.inj he; exact h⟩

theorem Within.observe {ev : Ev} (h : S ev) {answer : List Ev → Except Err α}
    (hT : ∀ l e, answer l = .error e → T e) : Within S T (observe ev answer) :=
  fun l => ⟨[ev], by simp, by simpa using h, hT l⟩

theorem Within.peek {answer : List Ev → Except Err α} (hT : ∀ l e, answer l = .error e → T e) :
    Within S T (peek answer) :=
  fun l => ⟨[], by simp, by simp, hT l⟩

theorem Within.bind {m : Logged Ev Err α} {k : α → Logged Ev Err β} (hm : Within S T m)
    (hk : ∀ a, Within S T (k a)) : Within S T (m >>= k) := by
  intro l
  obtain ⟨es, hes, hS, hT⟩ := hm l
  rcases hr : m l with ⟨e | a, l'⟩
  · rw [hr] at hes hT
    refine ⟨es, by rw [bind_apply_error l hr, ← hes], hS, fun e' he => ?_⟩
    rw [bind_apply_error l hr] at he
    obtain rfl := Except.error.inj he
    exact hT e rfl
  · obtain ⟨fs, hfs, hS', hT'⟩ := hk a l'
    rw [hr] at hes
    obtain rfl : l' = l ++ es := hes
    refine ⟨es ++ fs, ?_, ?_, fun e he => ?_⟩
    · rw [bind_apply_ok l hr, hfs, List.append_assoc]
    · intro ev hev
      rcases List.mem_append.mp hev with hev | hev
      · exact hS ev hev
      · exact hS' ev hev
    · rw [bind_apply_ok l hr] at he
      exact hT' e he

/-- The history of a computation that starts with an event. -/
theorem observe_bind_history (ev : Ev) (answer : List Ev → Except Err α) (k : α → Logged Ev Err β)
    (l : List Ev) : ∃ es, ((observe ev answer >>= k) l).2 = l ++ ev :: es := by
  rcases hr : answer l with e | a
  · exact ⟨[], by rw [bind_apply]; simp [hr]⟩
  · obtain ⟨es, hes⟩ := (k a).grows (l ++ [ev])
    exact ⟨es, by rw [bind_apply]; simp [hr, ← hes]⟩

/-- A computation that starts with an event outside the bound of another one differs from it. -/
theorem ne_of_observe_bind {m : Logged Ev Err β} (hm : Within S T m) {ev : Ev} (hev : ¬ S ev)
    {answer : List Ev → Except Err α} {k : α → Logged Ev Err β} (l : List Ev) :
    (observe ev answer >>= k) l ≠ m l := by
  intro heq
  obtain ⟨es, hes, hS, -⟩ := hm l
  obtain ⟨fs, hfs⟩ := observe_bind_history ev answer k l
  rw [heq, hes] at hfs
  have hmem : ev ∈ es := by
    rw [List.append_cancel_left hfs]
    exact List.mem_cons_self
  exact hev (hS ev hmem)

/-- A computation does not end with an error outside its bound. -/
theorem Within.ne_raise {m : Logged Ev Err α} (hm : Within S T m) (e : Err) (he : ¬ T e)
    (l l' : List Ev) : m l ≠ Logged.raise e l' := by
  intro heq
  obtain ⟨-, -, -, hT⟩ := hm l
  exact he (hT e (by rw [heq]; rfl))

end Within

/-! ## Computations that part for good -/

section Settles

variable (S : Ev → Prop) (T : Err → Prop)

/-- `m` and `m'` are told apart, whatever follows `m` and whatever within the bounds follows
`m'`. -/
def Apart (m m' : Logged Ev Err α) (l : List Ev) : Prop :=
  ∀ (β : Type u) (k k' : α → Logged Ev Err β), (∀ a, Within S T (k' a)) →
    (m >>= k) l ≠ (m' >>= k') l

/-- `m` and `m'` behave alike if `Q` holds, and part for good if it does not. -/
structure Settles (Q : Prop) (m m' : Logged Ev Err α) (l : List Ev) : Prop where
  agree : Q → m l = m' l
  apart : ¬ Q → Apart S T m m' l

variable {S T} {m m' : Logged Ev Err α} {l : List Ev}

theorem Apart.ne (h : Apart S T m m' l) : m l ≠ m' l := by
  have hpure := h α pure pure Within.pure
  rwa [bind_pure, bind_pure] at hpure

theorem Apart.bind (h : Apart S T m m' l) (k : α → Logged Ev Err β) {k' : α → Logged Ev Err β}
    (hk' : ∀ a, Within S T (k' a)) : Apart S T (m >>= k) (m' >>= k') l := by
  intro γ next next' hnext'
  rw [bind_assoc, bind_assoc]
  exact h γ _ _ fun a => .bind (hk' a) hnext'

/-- The next event stays the next event when something follows. -/
theorem bind_history {ev : Ev} (k : α → Logged Ev Err β) (h : ∃ es, (m l).2 = l ++ ev :: es) :
    ∃ es, ((m >>= k) l).2 = l ++ ev :: es := by
  obtain ⟨es, hes⟩ := h
  rcases hr : m l with ⟨e | a, l'⟩
  · exact ⟨es, by rw [bind_apply_error l hr, ← hes, hr]⟩
  · obtain ⟨fs, hfs⟩ := (k a).grows l'
    obtain rfl : l' = l ++ ev :: es := by rw [← hes, hr]
    exact ⟨es ++ fs, by rw [bind_apply_ok l hr, ← hfs]; simp⟩

theorem apart_of_events (ev ev' : Ev) (hne : ev ≠ ev') (hm : ∃ es, (m l).2 = l ++ ev :: es)
    (hm' : ∃ es, (m' l).2 = l ++ ev' :: es) : Apart S T m m' l := by
  intro β k k' _ heq
  obtain ⟨es, hes⟩ := bind_history k hm
  obtain ⟨fs, hfs⟩ := bind_history k' hm'
  rw [heq, hfs] at hes
  exact hne (List.cons.inj (List.append_cancel_left hes)).1.symm

theorem apart_of_event_of_error (ev : Ev) {e : Err} (hm : ∃ es, (m l).2 = l ++ ev :: es)
    (hm' : m' l = (.error e, l)) : Apart S T m m' l := by
  intro β k k' _ heq
  obtain ⟨es, hes⟩ := bind_history k hm
  rw [heq, bind_apply_error l hm'] at hes
  simp at hes

theorem apart_of_errors {e e' : Err} {l₁ l₂ : List Ev} (hne : e ≠ e') (hm : m l = (.error e, l₁))
    (hm' : m' l = (.error e', l₂)) : Apart S T m m' l := by
  intro β k k' _ heq
  rw [bind_apply_error l hm, bind_apply_error l hm'] at heq
  exact hne (Except.error.inj (Prod.mk.inj heq).1)

theorem apart_of_foreign_event (ev : Ev) (hev : ¬ S ev) (hm : ∃ es, (m l).2 = l ++ ev :: es)
    (hm' : Within S T m') : Apart S T m m' l := by
  intro β k k' hk' heq
  obtain ⟨es, hes⟩ := bind_history k hm
  obtain ⟨fs, hfs, hS, -⟩ := Within.bind hm' hk' l
  rw [heq, hfs] at hes
  refine hev (hS ev ?_)
  rw [List.append_cancel_left hes]
  exact List.mem_cons_self

theorem apart_of_foreign_error {e : Err} {l₁ : List Ev} (he : ¬ T e) (hm : m l = (.error e, l₁))
    (hm' : Within S T m') : Apart S T m m' l := by
  intro β k k' hk' heq
  rw [bind_apply_error l hm] at heq
  exact (Within.bind hm' hk').ne_raise e he l l₁ heq.symm

theorem Settles.eq_iff {Q : Prop} (h : Settles S T Q m m' l) : m l = m' l ↔ Q :=
  ⟨fun heq => by_contra fun hQ => (h.apart hQ).ne heq, h.agree⟩

theorem Settles.refl (m : Logged Ev Err α) (l : List Ev) : Settles S T True m m l :=
  ⟨fun _ => rfl, fun h => absurd trivial h⟩

theorem Settles.congr {Q Q' : Prop} (h : Settles S T Q m m' l) (hQ : Q ↔ Q') :
    Settles S T Q' m m' l :=
  ⟨fun hQ' => h.agree (hQ.mpr hQ'), fun hQ' => h.apart fun hq => hQ' (hQ.mp hq)⟩

theorem Settles.congr_left {Q : Prop} {n : Logged Ev Err α} (h : Settles S T Q m m' l)
    (hn : n l = m l) : Settles S T Q n m' l := by
  refine ⟨fun hQ => hn.trans (h.agree hQ), fun hQ β k k' hk' heq => ?_⟩
  refine h.apart hQ β k k' hk' ?_
  rw [← heq, bind_apply, bind_apply, hn]

theorem Settles.congr_right {Q : Prop} {n : Logged Ev Err α} (h : Settles S T Q m m' l)
    (hn : n l = m' l) : Settles S T Q m n l := by
  refine ⟨fun hQ => (h.agree hQ).trans hn.symm, fun hQ β k k' hk' heq => ?_⟩
  refine h.apart hQ β k k' hk' ?_
  rw [heq, bind_apply, bind_apply, hn]

/-- A sequence settles if its first part does and, where both go on from there, its second part. -/
theorem Settles.bind {Q : Prop} {R : α → List Ev → Prop} {k k' : α → Logged Ev Err β}
    (hm : Settles S T Q m m' l) (hk' : ∀ a, Within S T (k' a))
    (hk : ∀ a l', m' l = (.ok a, l') → Settles S T (R a l') (k a) (k' a) l') :
    Settles S T (Q ∧ IfOk m' R l) (m >>= k) (m' >>= k') l := by
  by_cases hQ : Q
  · have heq := hm.agree hQ
    rcases hr : m' l with ⟨e | a, l'⟩
    · rw [hr] at heq
      refine ⟨fun _ => ?_, fun hnot => absurd ⟨hQ, (ifOk_of_error l hr R).mpr trivial⟩ hnot⟩
      rw [bind_apply_error l heq, bind_apply_error l hr]
    · rw [hr] at heq
      have hnext := hk a l' hr
      rw [ifOk_of_ok l hr, and_iff_right hQ]
      refine ⟨fun hR => ?_, fun hR => ?_⟩
      · rw [bind_apply_ok l heq, bind_apply_ok l hr, hnext.agree hR]
      · intro γ next next' hnext'
        rw [bind_assoc, bind_assoc, bind_apply_ok l heq, bind_apply_ok l hr]
        exact hnext.apart hR γ next next' hnext'
  · exact ⟨fun h => absurd h.1 hQ, fun _ => (hm.apart hQ).bind k hk'⟩

/-- The same second part on both sides. -/
theorem Settles.bind_right {Q : Prop} {k : α → Logged Ev Err β} (hm : Settles S T Q m m' l)
    (hk : ∀ a, Within S T (k a)) : Settles S T Q (m >>= k) (m' >>= k) l :=
  (hm.bind hk fun a l' _ => Settles.refl (k a) l').congr
    (and_iff_left (ifOk_of_forall l fun _ _ => trivial))

/-- A sequence with the same first part settles with its second part. -/
theorem Settles.bind_same {R : α → List Ev → Prop} {k k' : α → Logged Ev Err β}
    (hk' : ∀ a, Within S T (k' a))
    (hk : ∀ a l', m l = (.ok a, l') → Settles S T (R a l') (k a) (k' a) l') :
    Settles S T (IfOk m R l) (m >>= k) (m >>= k') l :=
  ((Settles.refl m l).bind hk' hk).congr (and_iff_right trivial)

end Settles

end Logged

end LoggedComputations
