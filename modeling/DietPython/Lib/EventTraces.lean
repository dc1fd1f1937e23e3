import DietPython.Lib.Logged

/-!
# Postconditions and event traces of logged computations

`Ensures` is a postcondition of a computation after every history. `Traces` is for environments
in which a computation leaves the same labels whatever history it starts from: it says that the
computation ends normally and which labels its events carry. Two computations that behave alike
leave the same labels, and labels that belong to disjoint parts of a program can be told apart.
-/

namespace LoggedComputations

universe u

namespace Logged

variable {Ev Err L : Type*} {α β : Type u}

/-! ## Postconditions -/

/-- `Q` holds of the value of `m`, after any history. -/
def Ensures (m : Logged Ev Err α) (Q : α → Prop) : Prop := ∀ l, IfOk m (fun a _ => Q a) l

section Ensures

variable {m : Logged Ev Err α} {Q : α → Prop}

theorem ensures_pure {a : α} (h : Q a) : Ensures (pure a : Logged Ev Err α) Q := fun _ => h

theorem ensures_of_forall (h : ∀ a, Q a) : Ensures m Q :=
  fun l => ifOk_of_forall l fun a _ => h a

theorem Ensures.bind {k : α → Logged Ev Err β} {R : β → Prop} (hm : Ensures m Q)
    (hk : ∀ a, Q a → Ensures (k a) R) : Ensures (m >>= k) R := by
  intro l
  have hQ := hm l
  rcases hr : m l with ⟨e | a, l'⟩
  · exact (ifOk_of_error l (bind_apply_error l hr k) _).mpr trivial
  · rw [ifOk_of_ok l hr] at hQ
    have hR := hk a hQ l'
    rw [IfOk] at hR ⊢
    rwa [bind_apply_ok l hr]

theorem Ensures.bind_of_forall {k : α → Logged Ev Err β} {R : β → Prop}
    (hk : ∀ a, Ensures (k a) R) : Ensures (m >>= k) R :=
  Ensures.bind (ensures_of_forall (Q := fun _ => True) fun _ => trivial) fun a _ => hk a

theorem Ensures.mono {R : α → Prop} (hm : Ensures m Q) (h : ∀ a, Q a → R a) : Ensures m R := by
  intro l
  have hQ := hm l
  rcases hr : m l with ⟨e | a, l'⟩
  · exact (ifOk_of_error l hr _).mpr trivial
  · rw [ifOk_of_ok l hr] at hQ ⊢
    exact h a hQ

/-- Two continuations are alike if they are on every value that the first part can end with. -/
theorem Ensures.bind_congr {k k' : α → Logged Ev Err β} (hm : Ensures m Q)
    (hk : ∀ a, Q a → k a = k' a) : m >>= k = m >>= k' := by
  refine ext_apply fun l => ?_
  have hQ := hm l
  rcases hr : m l with ⟨e | a, l'⟩
  · rw [bind_apply_error l hr, bind_apply_error l hr]
  · rw [ifOk_of_ok l hr] at hQ
    rw [bind_apply_ok l hr, bind_apply_ok l hr, hk a hQ]

end Ensures

/-! ## Labels -/

/-- After any history `m` ends normally, and its events carry the labels `tr`. -/
def Traces (label : Ev → L) (m : Logged Ev Err α) (tr : List L) : Prop :=
  ∀ l, ∃ a es, m l = (.ok a, l ++ es) ∧ es.map label = tr

section Traces

variable {label : Ev → L} {m m' : Logged Ev Err α} {tr tr' : List L}

/-- The same, and `Q` holds of the value. -/
def TracesTo (label : Ev → L) (m : Logged Ev Err α) (tr : List L) (Q : α → Prop) : Prop :=
  ∀ l, ∃ a es, m l = (.ok a, l ++ es) ∧ es.map label = tr ∧ Q a

theorem TracesTo.traces {Q : α → Prop} (h : TracesTo label m tr Q) : Traces label m tr := fun l =>
  let ⟨a, es, hr, htr, _⟩ := h l
  ⟨a, es, hr, htr⟩

theorem Traces.tracesTo (h : Traces label m tr) : TracesTo label m tr fun _ => True := fun l =>
  let ⟨a, es, hr, htr⟩ := h l
  ⟨a, es, hr, htr, trivial⟩

theorem tracesTo_pure (label : Ev → L) {a : α} {Q : α → Prop} (h : Q a) :
    TracesTo label (pure a : Logged Ev Err α) [] Q := fun l => ⟨a, [], by simp, rfl, h⟩

theorem tracesTo_observe (label : Ev → L) (ev : Ev) {a : α} {Q : α → Prop} (h : Q a) :
    TracesTo label (observe ev fun _ => .ok a : Logged Ev Err α) [label ev] Q :=
  fun _ => ⟨a, [ev], rfl, rfl, h⟩

theorem TracesTo.bind {k : α → Logged Ev Err β} {Q : α → Prop} {R : β → Prop}
    (hm : TracesTo label m tr Q) (hk : ∀ a, Q a → TracesTo label (k a) tr' R) :
    TracesTo label (m >>= k) (tr ++ tr') R := by
  intro l
  obtain ⟨a, es, hr, rfl, ha⟩ := hm l
  obtain ⟨b, fs, hr', rfl, hb⟩ := hk a ha (l ++ es)
  exact ⟨b, es ++ fs, by rw [bind_apply_ok l hr, hr', List.append_assoc], List.map_append, hb⟩

/-- A value is made of the result. -/
theorem TracesTo.map_to {f : α → β} {Q : α → Prop} {R : β → Prop} (hm : TracesTo label m tr Q)
    (hf : ∀ a, Q a → R (f a)) : TracesTo label (m >>= fun a => pure (f a)) tr R := by
  rw [← List.append_nil tr]
  exact hm.bind fun a ha => tracesTo_pure label (hf a ha)

theorem traces_pure (label : Ev → L) (a : α) : Traces label (pure a : Logged Ev Err α) [] :=
  fun l => ⟨a, [], by simp⟩

theorem traces_observe (label : Ev → L) (ev : Ev) (a : α) :
    Traces label (observe ev fun _ => .ok a : Logged Ev Err α) [label ev] :=
  fun _ => ⟨a, [ev], rfl, rfl⟩

theorem Traces.bind {k : α → Logged Ev Err β} (hm : Traces label m tr)
    (hk : ∀ a, Traces label (k a) tr') : Traces label (m >>= k) (tr ++ tr') := by
  intro l
  obtain ⟨a, es, hr, rfl⟩ := hm l
  obtain ⟨b, fs, hr', rfl⟩ := hk a (l ++ es)
  exact ⟨b, es ++ fs, by rw [bind_apply_ok l hr, hr', List.append_assoc], List.map_append⟩

/-- An event whose answer is known is followed by what that answer leads to. -/
theorem traces_observe_bind (ev : Ev) (a : α) {k : α → Logged Ev Err β}
    (hk : Traces label (k a) tr) :
    Traces label (observe ev (fun _ => .ok a) >>= k) (label ev :: tr) := by
  intro l
  obtain ⟨b, es, hr, rfl⟩ := hk (l ++ [ev])
  refine ⟨b, ev :: es, ?_, rfl⟩
  rw [bind_apply_ok l (observe_apply l ev (fun _ => .ok a)), hr, List.append_assoc,
    List.singleton_append]

theorem Traces.eq_of_eq (hm : Traces label m tr) (hm' : Traces label m' tr') (h : m = m') :
    tr = tr' := by
  subst h
  obtain ⟨a, es, hr, rfl⟩ := hm []
  obtain ⟨b, fs, hr', rfl⟩ := hm' []
  rw [hr] at hr'
  rw [List.append_cancel_left (Prod.mk.inj hr').2]

end Traces

end Logged

/-! ## Labels of two disjoint parts -/

section Disjoint

variable {L : Type*} {p : L → Prop} {A B C D T U : List L}

theorem filter_eq_self_of_forall [DecidablePred p] (hA : ∀ x ∈ A, p x) :
    A.filter (fun x => p x) = A :=
  List.filter_eq_self.mpr fun x hx => decide_eq_true (hA x hx)

theorem filter_eq_nil_of_forall [DecidablePred p] (hB : ∀ x ∈ B, ¬ p x) :
    B.filter (fun x => p x) = [] :=
  List.filter_eq_nil_iff.mpr fun x hx => by simpa using hB x hx

/-- Labels of disjoint parts do not commute. -/
theorem eq_nil_of_append_comm (hB : ∀ x ∈ B, ¬ p x) (hC : ∀ x ∈ C, p x)
    (h : B ++ C = C ++ B) : B = [] ∨ C = [] := by
  cases B with
  | nil => exact .inl rfl
  | cons b B =>
    cases C with
    | nil => exact .inr rfl
    | cons c C =>
      have hhead : b = c := (List.cons.inj h).1
      exact absurd (hC c List.mem_cons_self) (hhead ▸ hB b List.mem_cons_self)

/-- Two parts `A`, `C` and `B`, `D` that are interleaved as `A B C D` make the same list as one
after the other only if `B` or `C` is empty. -/
theorem interleaved_inj (hA : ∀ x ∈ A, p x) (hC : ∀ x ∈ C, p x) (hT : ∀ x ∈ T, p x)
    (hB : ∀ x ∈ B, ¬ p x) (hD : ∀ x ∈ D, ¬ p x) (hU : ∀ x ∈ U, ¬ p x)
    (h : A ++ B ++ (C ++ D) = T ++ U) : A ++ C = T ∧ B ++ D = U ∧ (B = [] ∨ C = []) := by
  classical
  have hleft := congrArg (List.filter fun x => p x) h
  have hright := congrArg (List.filter fun x => ¬ p x) h
  have hnot : ∀ {X : List L}, (∀ x ∈ X, p x) → ∀ x ∈ X, ¬ ¬ p x :=
    fun hX x hx => not_not.mpr (hX x hx)
  simp only [List.filter_append, filter_eq_self_of_forall hA, filter_eq_self_of_forall hC,
    filter_eq_self_of_forall hT, filter_eq_nil_of_forall hB, filter_eq_nil_of_forall hD,
    filter_eq_nil_of_forall hU, List.append_nil] at hleft
  simp only [List.filter_append, filter_eq_nil_of_forall (hnot hA),
    filter_eq_nil_of_forall (hnot hC), filter_eq_nil_of_forall (hnot hT),
    filter_eq_self_of_forall hB, filter_eq_self_of_forall hD, filter_eq_self_of_forall hU,
    List.nil_append] at hright
  subst hleft hright
  refine ⟨rfl, rfl, eq_nil_of_append_comm hB hC ?_⟩
  simp only [List.append_assoc] at h
  have hmid := List.append_cancel_left h
  rw [← List.append_assoc, ← List.append_assoc] at hmid
  exact List.append_cancel_right hmid

/-- Labels of the one part, followed by labels of the other, split in one way. -/
theorem append_inj_of_disjoint (hA : ∀ x ∈ A, p x) (hT : ∀ x ∈ T, p x) (hD : ∀ x ∈ D, ¬ p x)
    (hU : ∀ x ∈ U, ¬ p x) (h : A ++ D = T ++ U) : A = T ∧ D = U := by
  have hsplit := interleaved_inj (B := []) (C := []) hA (by simp) hT (by simp) hD hU
    (by simpa using h)
  rw [List.append_nil, List.nil_append] at hsplit
  exact ⟨hsplit.1, hsplit.2.1⟩

end Disjoint

end LoggedComputations
