import DietPython.Calls.PythonBinding

/-!
# One step of the binder

The cells that a prefix of the keywords leaves, and what one more keyword makes of them.
-/

namespace DietPython.Calls

/-! ## Cells of a call -/

section Filled

variable {V : Type}

/-- The cells when these keywords have been bound. -/
def cellsOf (p : Parameters V) (args : List V) (kws : List (PyStr × V)) : Cells V where
  bound i := p.all[i]?.bind (taken p args kws i)
  assigned i := (p.all[i]?.bind (taken p args kws i)).isSome

/-- A cell is marked when it holds a value. -/
def Cells.Marked (c : Cells V) : Prop := ∀ i, c.assigned i = (c.bound i).isSome

theorem Cells.Marked.ext {c c' : Cells V} (h : c.Marked) (h' : c'.Marked)
    (hbound : ∀ i, c.bound i = c'.bound i) : c = c' := by
  obtain ⟨bound, assigned⟩ := c
  obtain ⟨bound', assigned'⟩ := c'
  obtain rfl : bound = bound' := funext hbound
  obtain rfl : assigned = assigned' := funext fun i => (h i).trans (h' i).symm
  rfl

theorem Cells.Marked.set {c : Cells V} (h : c.Marked) (i : ℕ) (v : BoundValue V) :
    (c.set i v).Marked := by
  intro j
  by_cases hj : j = i
  · subst hj
    simp [Cells.set]
  · simpa [Cells.set, Function.update_of_ne hj] using h j

theorem Cells.Marked.setItem {c : Cells V} (h : c.Marked) (i : ℕ) (key : PyStr) (v : V) :
    (c.setItem i key v).Marked := by
  unfold Cells.setItem
  split
  · next entries hentries =>
    intro j
    by_cases hj : j = i
    · subst hj
      simpa [hentries] using h j
    · simpa [Function.update_of_ne hj] using h j
  · exact h

theorem marked_empty : (Cells.empty : Cells V).Marked := fun _ => rfl

theorem marked_bindPositional {c : Cells V} (h : c.Marked) (values : List (ℕ × V)) :
    (bindPositional c values).Marked := by
  induction values generalizing c with
  | nil => exact h
  | cons e values ih => exact ih (h.set e.1 _)

theorem marked_bindVariadic {c : Cells V} (h : c.Marked) (index : Option ℕ) (v : BoundValue V) :
    (bindVariadic c index v).Marked := by
  cases index with
  | none => exact h
  | some i => exact h.set i v

theorem marked_cellsOf (p : Parameters V) (args : List V) (kws : List (PyStr × V)) :
    (cellsOf p args kws).Marked := fun _ => rfl

/-- The positional arguments go to the cells in front. -/
theorem bound_bindPositional (c : Cells V) (start n : ℕ) (args : List V) (i : ℕ) :
    (bindPositional c ((List.range' start n).zip args)).bound i =
      if start ≤ i ∧ i < start + n ∧ i - start < args.length then
        args[i - start]?.map .value
      else c.bound i := by
  induction n generalizing c start args with
  | zero =>
    rw [if_neg (by omega)]
    rfl
  | succ n ih =>
    cases args with
    | nil =>
      rw [if_neg (by simp)]
      rfl
    | cons v args =>
      show (bindPositional (c.set start (.value v))
        ((List.range' (start + 1) n).zip args)).bound i = _
      rw [ih]
      by_cases hi : i = start
      · subst hi
        rw [if_neg (by omega), if_pos (by simp)]
        simp [Cells.set]
      · simp only [Cells.set, Function.update_of_ne hi, List.length_cons]
        by_cases hlt : start + 1 ≤ i ∧ i < start + 1 + n ∧ i - (start + 1) < args.length
        · rw [if_pos hlt, if_pos (by omega)]
          obtain ⟨k, rfl⟩ := Nat.exists_eq_add_of_le hlt.1
          rw [show start + 1 + k - (start + 1) = k by omega,
            show start + 1 + k - start = k + 1 by omega, List.getElem?_cons_succ]
        · rw [if_neg hlt, if_neg (by omega)]

theorem bound_bindVariadic (c : Cells V) (index : Option ℕ) (v : BoundValue V) (i : ℕ) :
    (bindVariadic c index v).bound i = if index = some i then some v else c.bound i := by
  cases index with
  | none => rfl
  | some j =>
    by_cases hj : i = j
    · subst hj
      simp [bindVariadic, Cells.set]
    · have hne : some j ≠ some i := fun h => hj (Option.some.inj h).symm
      rw [if_neg hne]
      exact Function.update_of_ne hj ..

theorem head?_given_nil (args : List V) (i : ℕ) {q : ParamKind × Parameter V}
    (hq : q.1.isPositional = true) : (given args [] i q).head? = args[i]? := by
  simp only [given, hq, if_true, List.filter_nil, List.map_nil, List.append_nil]
  cases args[i]? <;> rfl

/-- The cells before the keyword loop. -/
theorem initial_cells (p : Parameters V) (args : List V) :
    bindVariadic (bindVariadic
        (bindPositional .empty ((positionalParamIndices (p.all.map toParam)).zip args))
        (varargIndex (p.all.map toParam)) (.tuple (args.drop p.capacity)))
      (kwargIndex (p.all.map toParam)) (.dict []) = cellsOf p args [] := by
  refine (marked_bindVariadic (marked_bindVariadic
    (marked_bindPositional marked_empty _) _ _) _ _).ext (marked_cellsOf p args []) fun i => ?_
  have hvararg := varargIndex_eq_some p i
  have hkwarg := kwargIndex_eq_some p i
  rw [bound_bindVariadic, bound_bindVariadic, positionalParamIndices_all,
    List.range_eq_range', bound_bindPositional]
  show _ = p.all[i]?.bind (taken p args [] i)
  cases hq : p.all[i]? with
  | none =>
    rw [hq] at hvararg hkwarg
    have hlen := List.getElem?_eq_none_iff.mp hq
    have hcapacity := capacity_le_length p
    rw [if_neg (mt hkwarg.mp (by simp)), if_neg (mt hvararg.mp (by simp)), if_neg (by omega)]
    rfl
  | some q =>
    have hpositional := all_isPositional p hq
    rw [hq] at hvararg hkwarg
    simp only [Option.some.injEq, exists_eq_left'] at hvararg hkwarg
    obtain ⟨kind, parameter⟩ := q
    show _ = taken p args [] i (kind, parameter)
    cases kind with
    | varArg =>
      rw [if_neg (mt hkwarg.mp (by simp)), if_pos (hvararg.mpr rfl)]
      rfl
    | kwArg =>
      rw [if_pos (hkwarg.mpr rfl)]
      rfl
    | kwOnly =>
      have hi : ¬ i < p.capacity := fun h => Bool.false_ne_true (hpositional.mpr h)
      rw [if_neg (mt hkwarg.mp (by simp)), if_neg (mt hvararg.mp (by simp)), if_neg (by omega)]
      rfl
    | posOnly | any =>
      have hi : i < p.capacity := hpositional.mp rfl
      rw [if_neg (mt hkwarg.mp (by simp)), if_neg (mt hvararg.mp (by simp))]
      show _ = (given args [] i _).head?.map BoundValue.value
      rw [head?_given_nil args i (hpositional.mpr hi)]
      by_cases hlt : i < args.length
      · rw [if_pos (by omega), Nat.sub_zero]
      · rw [if_neg (by omega), List.getElem?_eq_none (by omega)]
        rfl

end Filled

/-! ## One keyword -/

section Keyword

variable {V : Type}

theorem given_append (args : List V) (kws : List (PyStr × V)) (kw : PyStr × V) (i : ℕ)
    (q : ParamKind × Parameter V) :
    given args (kws ++ [kw]) i q =
      given args kws i q ++ if Takes q kw.1 then [kw.2] else [] := by
  unfold given
  rw [List.filter_append, List.map_append, List.append_assoc]
  by_cases h : Takes q kw.1 <;> simp [h]

theorem surplus_append_takes {p : Parameters V} {q : ParamKind × Parameter V} (hq : q ∈ p.all)
    (kws : List (PyStr × V)) {kw : PyStr × V} (h : Takes q kw.1) :
    surplus p (kws ++ [kw]) = surplus p kws := by
  unfold surplus
  rw [List.filter_append, (List.filter_eq_nil_iff (l := [kw])).mpr, List.append_nil]
  intro kw' hkw' hall
  obtain rfl := List.mem_singleton.mp hkw'
  exact of_decide_eq_true (List.all_eq_true.mp hall q hq) h

theorem surplus_append {p : Parameters V} (kws : List (PyStr × V)) {kw : PyStr × V}
    (h : ∀ q ∈ p.all, ¬ Takes q kw.1) : surplus p (kws ++ [kw]) = surplus p kws ++ [kw] := by
  unfold surplus
  rw [List.filter_append, (List.filter_eq_self (l := [kw])).mpr]
  intro kw' hkw'
  obtain rfl := List.mem_singleton.mp hkw'
  exact List.all_eq_true.mpr fun q hq => decide_eq_true (h q hq)

/-- A keyword changes nothing for a parameter that it is not for. -/
theorem taken_append {p : Parameters V} (args : List V) {kws : List (PyStr × V)} {kw : PyStr × V}
    (i : ℕ) {q : ParamKind × Parameter V} (h : ¬ Takes q kw.1)
    (hsurplus : q.1 = .kwArg → surplus p (kws ++ [kw]) = surplus p kws) :
    taken p args (kws ++ [kw]) i q = taken p args kws i q := by
  obtain ⟨kind, parameter⟩ := q
  cases kind with
  | varArg => rfl
  | kwArg =>
    unfold taken
    rw [hsurplus rfl]
  | posOnly | any | kwOnly =>
    unfold taken
    rw [given_append, if_neg h, List.append_nil]

/-- A parameter that the keyword names gets the value, unless it has one. -/
theorem bindKeyword_takes (callableName : String) {p : Parameters V} (args : List V)
    (kws : List (PyStr × V)) {kw : PyStr × V} {i : ℕ} {q : ParamKind × Parameter V}
    (hq : p.all[i]? = some q) (h : Takes q kw.1) :
    bindKeyword callableName (p.all.map toParam) (cellsOf p args kws) kw =
      if given args kws i q = [] then .ok (cellsOf p args (kws ++ [kw]))
      else .error (.typeError
        s!"{callableName}() got multiple values for argument '{q.2.name}'") := by
  have hkey := (pyString_eq_some kw.1 q.2.name).mpr h.2
  have htaken : ∀ kws', taken p args kws' i q = (given args kws' i q).head?.map .value := by
    intro kws'
    obtain ⟨kind, parameter⟩ := q
    cases kind with
    | posOnly | varArg | kwArg => cases h.1
    | any | kwOnly => rfl
  have hassigned : (cellsOf p args kws).assigned i = decide (given args kws i q ≠ []) := by
    show (p.all[i]?.bind (taken p args kws i)).isSome = _
    rw [hq]
    show (taken p args kws i q).isSome = _
    rw [htaken]
    cases given args kws i q <;> simp
  have hset (hnil : given args kws i q = []) :
      (cellsOf p args kws).set i (.value kw.2) = cellsOf p args (kws ++ [kw]) := by
    refine ((marked_cellsOf p args kws).set i _).ext (marked_cellsOf p args (kws ++ [kw])) ?_
    intro j
    show _ = p.all[j]?.bind (taken p args (kws ++ [kw]) j)
    by_cases hj : j = i
    · subst hj
      rw [hq]
      show _ = taken p args (kws ++ [kw]) j q
      rw [htaken, given_append, hnil, if_pos h]
      simp [Cells.set]
    · rw [show ((cellsOf p args kws).set i (.value kw.2)).bound j =
        (cellsOf p args kws).bound j from Function.update_of_ne hj ..]
      show p.all[j]?.bind (taken p args kws j) = _
      cases hq' : p.all[j]? with
      | none => rfl
      | some q' =>
        have hother : ¬ Takes q' kw.1 := by
          intro h'
          have hname := (pyString_eq_some kw.1 q'.2.name).mpr h'.2
          rw [hkey] at hname
          exact hj (all_index_inj p hq' hq (Option.some.inj hname).symm)
        exact (taken_append args j hother
          fun _ => surplus_append_takes (List.mem_of_getElem? hq) kws h).symm
  have hkind := h.1
  cases hk : q.1 with
  | posOnly | varArg | kwArg => simp [hk, ParamKind.takesKeyword] at hkind
  | any | kwOnly =>
    simp only [bindKeyword, hkey, findParam_all p hq, toParam_kind, hk, hassigned]
    by_cases hnil : given args kws i q = []
    · simp [hnil, hset hnil]
    · simp [hnil]

/-- Any other keyword is put into the dict of `**kwargs`. -/
theorem bindKeyword_surplus (callableName : String) {p : Parameters V} (args : List V)
    (kws : List (PyStr × V)) {kw : PyStr × V} {keyName : String}
    (hkey : pyString kw.1 = some keyName) (h : ∀ q ∈ p.all, ¬ Takes q kw.1) :
    bindKeyword callableName (p.all.map toParam) (cellsOf p args kws) kw =
      if p.kwarg.isSome then .ok (cellsOf p args (kws ++ [kw]))
      else .error (.typeError
        s!"{callableName}() got an unexpected keyword argument '{keyName}'") := by
  have hbind : bindKeyword callableName (p.all.map toParam) (cellsOf p args kws) kw =
      bindSurplus callableName (p.all.map toParam) (cellsOf p args kws) keyName kw := by
    by_cases hname : ∃ q ∈ p.all, q.2.name = keyName
    · obtain ⟨q, hq, rfl⟩ := hname
      obtain ⟨i, hi⟩ := List.getElem?_of_mem hq
      have hkind : q.1.takesKeyword ≠ true := fun hkind =>
        h q hq ⟨hkind, (pyString_eq_some ..).mp hkey⟩
      simp only [bindKeyword, hkey, findParam_all p hi, toParam_kind]
      cases hk : q.1 with
      | posOnly | varArg | kwArg => rfl
      | any | kwOnly => simp [hk, ParamKind.takesKeyword] at hkind
    · have hnone := findParam_eq_none p fun q hq hq' => hname ⟨q, hq, hq'⟩
      simp only [bindKeyword, hkey, hnone]
  rw [hbind]
  unfold bindSurplus
  cases hk : kwargIndex (p.all.map toParam) with
  | none =>
    have hnone : p.kwarg.isSome = false := by
      cases hkwarg : p.kwarg with
      | none => rfl
      | some name =>
        obtain ⟨k, hq⟩ := List.getElem?_of_mem (exists_kwarg p hkwarg)
        rw [(kwargIndex_eq_some p k).mpr ⟨_, hq, rfl⟩] at hk
        cases hk
    rw [hnone]
    rfl
  | some k =>
    obtain ⟨q, hq, hkind⟩ := (kwargIndex_eq_some p k).mp hk
    rw [kwarg_of_all p hq hkind, Option.isSome_some, if_pos rfl]
    refine congrArg Except.ok (((marked_cellsOf p args kws).setItem k _ _).ext
      (marked_cellsOf p args (kws ++ [kw])) fun j => ?_)
    have htaken : ∀ kws', taken p args kws' k q =
        some (.dict ((surplus p kws').foldl (fun entries kw => dictSet entries kw.1 kw.2) [])) := by
      intro kws'
      simp only [taken, hkind]
    have hdict : (cellsOf p args kws).bound k =
        some (.dict ((surplus p kws).foldl (fun entries kw => dictSet entries kw.1 kw.2) [])) := by
      show p.all[k]?.bind (taken p args kws k) = _
      rw [hq]
      exact htaken kws
    show _ = p.all[j]?.bind (taken p args (kws ++ [kw]) j)
    unfold Cells.setItem
    rw [hdict]
    by_cases hj : j = k
    · subst hj
      rw [hq]
      show _ = taken p args (kws ++ [kw]) j q
      rw [htaken, surplus_append kws h, List.foldl_append]
      exact Function.update_self ..
    · rw [show p.all[j]?.bind (taken p args (kws ++ [kw]) j) = (cellsOf p args kws).bound j from ?_]
      · exact Function.update_of_ne hj ..
      · show _ = p.all[j]?.bind (taken p args kws j)
        cases hq' : p.all[j]? with
        | none => rfl
        | some q' =>
          refine taken_append args j (h q' (List.mem_of_getElem? hq')) fun hkind' => ?_
          have hvariadic : q'.1.isVariadic = true := by rw [hkind']; rfl
          exact absurd (all_variadic_inj p hq' hq hvariadic (hkind'.trans hkind.symm)) hj

end Keyword

end DietPython.Calls
