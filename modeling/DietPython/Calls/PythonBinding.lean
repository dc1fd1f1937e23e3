import DietPython.Calls.Binder

/-!
# Python's call binding

Which parameter takes which argument, by the rules of the language, and when a call binds at all.
`build_function_bound_args` follows them, up to the first keyword that it cannot read.
-/

namespace DietPython.Calls

section Rules

variable {V : Type}

/-- How many arguments the parameters take by position. -/
def Parameters.capacity (p : Parameters V) : ℕ := p.posonlyargs.length + p.args.length

/-- The keyword is the name of a parameter that may be given by keyword. -/
def Takes (q : ParamKind × Parameter V) (key : PyStr) : Prop :=
  q.1.takesKeyword = true ∧ key = .ofString q.2.name

instance (q : ParamKind × Parameter V) (key : PyStr) : Decidable (Takes q key) :=
  inferInstanceAs (Decidable (_ ∧ _))

/-- The keywords that no parameter takes. -/
def surplus (p : Parameters V) (kws : List (PyStr × V)) : List (PyStr × V) :=
  kws.filter fun kw => p.all.all fun q => ¬ Takes q kw.1

/-- The arguments for the parameter `q` at index `i`. -/
def given (args : List V) (kws : List (PyStr × V)) (i : ℕ) (q : ParamKind × Parameter V) : List V :=
  (if q.1.isPositional then args[i]?.toList else []) ++
    (kws.filter fun kw => Takes q kw.1).map Prod.snd

/-- What the call gives to a parameter. -/
def taken (p : Parameters V) (args : List V) (kws : List (PyStr × V)) (i : ℕ)
    (q : ParamKind × Parameter V) : Option (BoundValue V) :=
  match q.1 with
  | .varArg => some (.tuple (args.drop p.capacity))
  | .kwArg => some (.dict ((surplus p kws).foldl (fun entries kw => dictSet entries kw.1 kw.2) []))
  | .posOnly | .any | .kwOnly => (given args kws i q).head?.map .value

/-- No keyword is unknown, and no parameter is given twice. -/
structure KeywordsFit (p : Parameters V) (args : List V) (kws : List (PyStr × V)) : Prop where
  known : p.kwarg = none → surplus p kws = []
  once : ∀ i q, p.all[i]? = some q → (given args kws i q).length ≤ 1

/-- The call binds, and these are the values of the parameters. -/
structure Binds (p : Parameters V) (args : List V) (kws : List (PyStr × V))
    (values : List (BoundValue V)) : Prop extends KeywordsFit p args kws where
  fits : p.vararg = none → args.length ≤ p.capacity
  values_eq : values.map some =
    p.all.mapIdx fun i q => taken p args kws i q <|> q.2.default.map .value

end Rules

/-! ## The parameter list -/

section Lists

variable {V : Type}

theorem all_index_inj (p : Parameters V) {i j : ℕ} {q q' : ParamKind × Parameter V}
    (hi : p.all[i]? = some q) (hj : p.all[j]? = some q') (h : q.2.name = q'.2.name) : i = j := by
  obtain ⟨hlt, _⟩ := List.getElem?_eq_some_iff.mp hi
  refine (List.getElem?_inj (by rwa [List.length_map]) (names_all p)).mp ?_
  rw [List.getElem?_map, List.getElem?_map, hi, hj]
  exact congrArg some h

/-- Positional parameters come first. -/
theorem all_isPositional (p : Parameters V) {i : ℕ} {q : ParamKind × Parameter V}
    (h : p.all[i]? = some q) : q.1.isPositional = true ↔ i < p.capacity := by
  have hfront : ∀ q ∈ p.posonlyargs.map (ParamKind.posOnly, ·) ++ p.args.map (ParamKind.any, ·),
      q.1.isPositional = true := by
    intro q hq
    rcases List.mem_append.mp hq with hq | hq <;> obtain ⟨_, _, rfl⟩ := List.mem_map.mp hq <;> rfl
  have hback : ∀ q ∈ p.vararg.toList.map (fun name => (ParamKind.varArg, ⟨name, none⟩)) ++
      p.kwonlyargs.map (ParamKind.kwOnly, ·) ++
      p.kwarg.toList.map (fun name => (ParamKind.kwArg, (⟨name, none⟩ : Parameter V))),
      q.1.isPositional = false := by
    intro q hq
    rcases List.mem_append.mp hq with hq | hq
    · rcases List.mem_append.mp hq with hq | hq <;> obtain ⟨_, _, rfl⟩ := List.mem_map.mp hq <;> rfl
    · obtain ⟨_, _, rfl⟩ := List.mem_map.mp hq
      rfl
  have hall : p.all = (p.posonlyargs.map (ParamKind.posOnly, ·) ++
      p.args.map (ParamKind.any, ·)) ++
      (p.vararg.toList.map (fun name => (ParamKind.varArg, ⟨name, none⟩)) ++
      p.kwonlyargs.map (ParamKind.kwOnly, ·) ++
      p.kwarg.toList.map (fun name => (ParamKind.kwArg, (⟨name, none⟩ : Parameter V)))) := by
    simp only [Parameters.all, List.append_assoc]
  have hlen : (p.posonlyargs.map (ParamKind.posOnly, ·) ++
      p.args.map (ParamKind.any, ·)).length = p.capacity := by
    simp [Parameters.capacity]
  rw [hall] at h
  by_cases hi : i < p.capacity
  · rw [List.getElem?_append_left (hlen ▸ hi)] at h
    exact ⟨fun _ => hi, fun _ => hfront q (List.mem_of_getElem? h)⟩
  · rw [List.getElem?_append_right (by omega)] at h
    rw [hback q (List.mem_of_getElem? h)]
    exact ⟨fun h => (by cases h), fun h => absurd h hi⟩

theorem capacity_le_length (p : Parameters V) : p.capacity ≤ p.all.length := by
  simp [Parameters.capacity, Parameters.all]

theorem vararg_of_all (p : Parameters V) {i : ℕ} {q : ParamKind × Parameter V}
    (h : p.all[i]? = some q) (hq : q.1 = .varArg) : p.vararg = some q.2.name := by
  have hmem := List.mem_of_getElem? h
  unfold Parameters.all at hmem
  simp only [List.mem_append, List.mem_map, Option.mem_toList] at hmem
  rcases hmem with (((⟨_, _, rfl⟩ | ⟨_, _, rfl⟩) | ⟨_, hname, rfl⟩) | ⟨_, _, rfl⟩) | ⟨_, _, rfl⟩
  · cases hq
  · cases hq
  · exact hname
  · cases hq
  · cases hq

theorem kwarg_of_all (p : Parameters V) {i : ℕ} {q : ParamKind × Parameter V}
    (h : p.all[i]? = some q) (hq : q.1 = .kwArg) : p.kwarg = some q.2.name := by
  have hmem := List.mem_of_getElem? h
  unfold Parameters.all at hmem
  simp only [List.mem_append, List.mem_map, Option.mem_toList] at hmem
  rcases hmem with (((⟨_, _, rfl⟩ | ⟨_, _, rfl⟩) | ⟨_, _, rfl⟩) | ⟨_, _, rfl⟩) | ⟨_, hname, rfl⟩
  · cases hq
  · cases hq
  · cases hq
  · cases hq
  · exact hname

/-- The variadic parameters are the only ones of their kinds. -/
theorem all_variadic_inj (p : Parameters V) {i j : ℕ} {q q' : ParamKind × Parameter V}
    (hi : p.all[i]? = some q) (hj : p.all[j]? = some q') (hq : q.1.isVariadic = true)
    (h : q.1 = q'.1) : i = j := by
  apply all_index_inj p hi hj
  cases hkind : q.1 with
  | varArg =>
    have hname := (vararg_of_all p hi hkind).symm.trans (vararg_of_all p hj (h ▸ hkind))
    exact Option.some.inj hname
  | kwArg =>
    have hname := (kwarg_of_all p hi hkind).symm.trans (kwarg_of_all p hj (h ▸ hkind))
    exact Option.some.inj hname
  | posOnly | any | kwOnly =>
    rw [hkind] at hq
    cases hq

theorem exists_vararg (p : Parameters V) {name : String} (h : p.vararg = some name) :
    (ParamKind.varArg, ⟨name, none⟩) ∈ p.all := by
  simp [Parameters.all, h]

theorem exists_kwarg (p : Parameters V) {name : String} (h : p.kwarg = some name) :
    (ParamKind.kwArg, ⟨name, none⟩) ∈ p.all := by
  simp [Parameters.all, h]

end Lists

/-! ## Looking parameters up -/

section Lookups

variable {V : Type}

theorem positionalParamIndices_all (p : Parameters V) :
    positionalParamIndices (p.all.map toParam) = List.range p.capacity := by
  have hfilter : (p.all.map toParam).zipIdx.filter (fun e => e.1.kind.isPositional) =
      (p.all.map toParam).zipIdx.filter (fun e => decide (e.2 < p.capacity)) := by
    apply List.filter_congr
    intro e he
    obtain ⟨param, i⟩ := e
    rw [List.mem_zipIdx_iff_getElem?, List.getElem?_map, Option.map_eq_some_iff] at he
    obtain ⟨q, hq, rfl⟩ := he
    have h := all_isPositional p hq
    show q.1.isPositional = decide (i < p.capacity)
    rw [Bool.eq_iff_iff]
    simpa using h
  unfold positionalParamIndices
  rw [hfilter]
  have hmap : ((p.all.map toParam).zipIdx.filter fun e => decide (e.2 < p.capacity)).map Prod.snd =
      ((p.all.map toParam).zipIdx.map Prod.snd).filter fun i => decide (i < p.capacity) := by
    rw [List.filter_map]
    rfl
  obtain ⟨k, hk⟩ := Nat.exists_eq_add_of_le (capacity_le_length p)
  rw [hmap, List.zipIdx_map_snd, List.length_map, ← List.range_eq_range', hk, List.range_add,
    List.filter_append, List.filter_eq_self.mpr, List.filter_eq_nil_iff.mpr, List.append_nil]
  · intro i hi
    obtain ⟨j, _, rfl⟩ := List.mem_map.mp hi
    simp
  · intro i hi
    simpa using hi

/-- The index that a search for a variadic parameter finds. -/
theorem findIdx?_kind (p : Parameters V) {kind : ParamKind} (hkind : kind.isVariadic = true)
    (i : ℕ) : (p.all.map toParam).findIdx? (·.kind = kind) = some i ↔
      ∃ q, p.all[i]? = some q ∧ q.1 = kind := by
  have hfound : ∀ {j}, (p.all.map toParam).findIdx? (·.kind = kind) = some j →
      ∃ q, p.all[j]? = some q ∧ q.1 = kind := by
    intro j hj
    obtain ⟨hlt, hkind, _⟩ := List.findIdx?_eq_some_iff_getElem.mp hj
    rw [List.getElem_map] at hkind
    rw [List.length_map] at hlt
    exact ⟨p.all[j], List.getElem?_eq_getElem hlt, of_decide_eq_true hkind⟩
  constructor
  · exact hfound
  · rintro ⟨q, hi, rfl⟩
    cases hj : (p.all.map toParam).findIdx? (·.kind = q.1) with
    | none =>
      have hmem := List.mem_map_of_mem (f := toParam) (List.mem_of_getElem? hi)
      exact absurd rfl (of_decide_eq_false (List.findIdx?_eq_none_iff.mp hj _ hmem))
    | some j =>
      obtain ⟨q', hq', hsame⟩ := hfound hj
      rw [all_variadic_inj p hi hq' hkind hsame.symm]

theorem varargIndex_eq_some (p : Parameters V) (i : ℕ) :
    varargIndex (p.all.map toParam) = some i ↔ ∃ q, p.all[i]? = some q ∧ q.1 = .varArg :=
  findIdx?_kind p rfl i

theorem kwargIndex_eq_some (p : Parameters V) (i : ℕ) :
    kwargIndex (p.all.map toParam) = some i ↔ ∃ q, p.all[i]? = some q ∧ q.1 = .kwArg :=
  findIdx?_kind p rfl i

/-- A name is looked up to the parameter that has it. -/
theorem findParam_all (p : Parameters V) {i : ℕ} {q : ParamKind × Parameter V}
    (hi : p.all[i]? = some q) : findParam (p.all.map toParam) q.2.name = some (toParam q, i) := by
  have hmem : (toParam q, i) ∈ (p.all.map toParam).zipIdx := by
    rw [List.mem_zipIdx_iff_getElem?, List.getElem?_map, hi]
    rfl
  unfold findParam
  cases hfound : (p.all.map toParam).zipIdx.find? fun e => e.1.name = q.2.name with
  | none =>
    exact absurd (by simp) (List.find?_eq_none.mp hfound _ hmem)
  | some e =>
    obtain ⟨param, j⟩ := e
    have hname := List.find?_some hfound
    have hj := List.mem_of_find?_eq_some hfound
    rw [List.mem_zipIdx_iff_getElem?, List.getElem?_map, Option.map_eq_some_iff] at hj
    obtain ⟨q', hq', rfl⟩ := hj
    have hij := all_index_inj p hi hq' (of_decide_eq_true hname).symm
    subst hij
    rw [hi] at hq'
    rw [Option.some.inj hq']

theorem findParam_eq_none (p : Parameters V) {name : String}
    (h : ∀ q ∈ p.all, q.2.name ≠ name) : findParam (p.all.map toParam) name = none := by
  unfold findParam
  rw [List.find?_eq_none]
  rintro ⟨param, i⟩ he
  rw [List.mem_zipIdx_iff_getElem?, List.getElem?_map, Option.map_eq_some_iff] at he
  obtain ⟨q, hq, rfl⟩ := he
  exact mt of_decide_eq_true (h q (List.mem_of_getElem? hq))

end Lookups

end DietPython.Calls
