import Mathlib.Data.List.Basic
import Mathlib.Data.List.Nodup

/-!
# Parameter specifications

A parameter list of the source, the flat specification that it is collected into, and the two
places that its defaults are split over when the function object is made: `__defaults__` for
positional parameters and `__kwdefaults__` for keyword-only ones.
-/

namespace DietPython.Calls

/-! ## Parameters of the source -/

structure Parameter (V : Type) where
  name : String
  default : Option V

/-- `ast::Parameters`. A parameter name occurs once. -/
structure Parameters (V : Type) where
  posonlyargs : List (Parameter V)
  args : List (Parameter V)
  vararg : Option String
  kwonlyargs : List (Parameter V)
  kwarg : Option String
  nodup : (posonlyargs.map Parameter.name ++ args.map Parameter.name ++ vararg.toList ++
    kwonlyargs.map Parameter.name ++ kwarg.toList).Nodup

inductive ParamKind
  | any
  | posOnly
  | varArg
  | kwOnly
  | kwArg
  deriving DecidableEq

namespace ParamKind

/-- Filled by position. -/
def isPositional : ParamKind → Bool
  | posOnly | any => true
  | _ => false

/-- Filled by a keyword of its name. -/
def takesKeyword : ParamKind → Bool
  | any | kwOnly => true
  | _ => false

/-- Takes what the others leave. -/
def isVariadic : ParamKind → Bool
  | varArg | kwArg => true
  | _ => false

end ParamKind

structure Param where
  name : String
  kind : ParamKind
  hasDefault : Bool

/-! ## Collecting -/

section Collect

variable {V : Type}

/-- `push_param`. -/
def pushParam (kind : ParamKind) (p : Parameter V) (out : List Param × List V) :
    List Param × List V :=
  (out.1 ++ [⟨p.name, kind, p.default.isSome⟩], out.2 ++ p.default.toList)

/-- Push the parameters of one group. -/
def pushParams (kind : ParamKind) (ps : List (Parameter V)) (out : List Param × List V) :
    List Param × List V :=
  ps.foldl (fun out p => pushParam kind p out) out

/-- `collect_param_spec_and_defaults`. -/
def collectParamSpecAndDefaults (p : Parameters V) : List Param × List V :=
  let out := pushParams .posOnly p.posonlyargs ([], [])
  let out := pushParams .any p.args out
  let out := (out.1 ++ p.vararg.toList.map (⟨·, .varArg, false⟩), out.2)
  let out := pushParams .kwOnly p.kwonlyargs out
  (out.1 ++ p.kwarg.toList.map (⟨·, .kwArg, false⟩), out.2)

/-- The parameters in order, with their kinds. -/
def Parameters.all (p : Parameters V) : List (ParamKind × Parameter V) :=
  p.posonlyargs.map (.posOnly, ·) ++ p.args.map (.any, ·) ++
    p.vararg.toList.map (fun name => (.varArg, ⟨name, none⟩)) ++ p.kwonlyargs.map (.kwOnly, ·) ++
    p.kwarg.toList.map (fun name => (.kwArg, ⟨name, none⟩))

/-- The specification of a parameter. -/
def toParam (q : ParamKind × Parameter V) : Param := ⟨q.2.name, q.1, q.2.default.isSome⟩

@[simp] theorem toParam_name (q : ParamKind × Parameter V) : (toParam q).name = q.2.name := rfl

@[simp] theorem toParam_kind (q : ParamKind × Parameter V) : (toParam q).kind = q.1 := rfl

@[simp] theorem toParam_hasDefault (q : ParamKind × Parameter V) :
    (toParam q).hasDefault = q.2.default.isSome := rfl

theorem pushParams_eq (kind : ParamKind) (ps : List (Parameter V)) (out : List Param × List V) :
    pushParams kind ps out =
      (out.1 ++ (ps.map (kind, ·)).map toParam, out.2 ++ ps.filterMap Parameter.default) := by
  induction ps generalizing out with
  | nil => simp [pushParams]
  | cons p ps ih =>
    show pushParams kind ps (pushParam kind p out) = _
    rw [ih]
    cases hdefault : p.default <;> simp [pushParam, toParam, hdefault]

/-- The specification lists the parameters, and the payload their defaults. -/
theorem collect_eq (p : Parameters V) :
    collectParamSpecAndDefaults p = (p.all.map toParam, p.all.filterMap fun q => q.2.default) := by
  have hvariadic : ∀ (kind : ParamKind) (name : Option String),
      (name.toList.map fun name => (kind, (⟨name, none⟩ : Parameter V))).filterMap
        (fun q => q.2.default) = [] := by
    intro kind name
    cases name <;> rfl
  have hgroup : ∀ (kind : ParamKind) (ps : List (Parameter V)),
      (ps.map (kind, ·)).filterMap (fun q => q.2.default) = ps.filterMap Parameter.default := by
    intro kind ps
    rw [List.filterMap_map]
    rfl
  unfold collectParamSpecAndDefaults Parameters.all
  simp only [pushParams_eq, List.nil_append, List.map_append, List.filterMap_append, hvariadic,
    hgroup, List.append_nil, List.map_map, List.append_assoc, toParam, Function.comp_def,
    Option.isSome_none]

theorem names_all (p : Parameters V) : (p.all.map fun q => q.2.name).Nodup := by
  have h := p.nodup
  simpa only [Parameters.all, List.map_append, List.map_map, Function.comp_def, List.map_id']
    using h

end Collect

/-! ## Defaults -/

section Defaults

variable {V : Type}

/-- Where the default of a parameter is found. -/
inductive ParamDefaultSource
  | positional (index : ℕ)
  | keywordOnly (name : String)

/-- `iter_with_default_sources`, behind `next` positional defaults. -/
def iterWithDefaultSources (next : ℕ) : List Param → List (Param × Option ParamDefaultSource)
  | [] => []
  | param :: rest =>
    if param.hasDefault then
      match param.kind with
      | .posOnly | .any =>
        (param, some (.positional next)) :: iterWithDefaultSources (next + 1) rest
      | .kwOnly => (param, some (.keywordOnly param.name)) :: iterWithDefaultSources next rest
      | .varArg | .kwArg => (param, none) :: iterWithDefaultSources next rest
    else (param, none) :: iterWithDefaultSources next rest

theorem iterWithDefaultSources_fst (next : ℕ) (params : List Param) :
    (iterWithDefaultSources next params).map Prod.fst = params := by
  induction params generalizing next with
  | nil => rfl
  | cons param rest ih =>
    unfold iterWithDefaultSources
    split_ifs
    · cases param.kind <;> simp [ih]
    · simp [ih]

/-- Only a parameter with a default has a source. -/
theorem iterWithDefaultSources_none {next : ℕ} {params : List Param}
    {e : Param × Option ParamDefaultSource} (he : e ∈ iterWithDefaultSources next params)
    (h : e.1.hasDefault = false) : e.2 = none := by
  induction params generalizing next with
  | nil => cases he
  | cons param rest ih =>
    unfold iterWithDefaultSources at he
    split_ifs at he with hdefault
    · cases hkind : param.kind <;>
        simp only [hkind, List.mem_cons] at he <;>
        rcases he with rfl | he <;> first | exact ih he | simp [hdefault] at h
    · rcases List.mem_cons.mp he with rfl | he
      · rfl
      · exact ih he

/-- `__defaults__` and `__kwdefaults__` of a function object. -/
structure FunctionDefaults (V : Type) where
  positional : List V
  keywordOnly : List (String × V)

/-- `split_param_defaults`. -/
def splitParamDefaults : List Param → List V → Except String (FunctionDefaults V)
  | [], [] => .ok ⟨[], []⟩
  | [], _ :: _ => .error "bb param defaults payload is longer than the param spec"
  | param :: rest, defaults =>
    if param.hasDefault then
      match defaults with
      | [] => .error "bb param defaults payload is shorter than the param spec"
      | value :: defaults =>
        match param.kind, splitParamDefaults rest defaults with
        | .posOnly, .ok d | .any, .ok d => .ok { d with positional := value :: d.positional }
        | .kwOnly, .ok d => .ok { d with keywordOnly := (param.name, value) :: d.keywordOnly }
        | .varArg, _ | .kwArg, _ => .error "invalid default-bearing bb param kind"
        | _, .error message => .error message
    else splitParamDefaults rest defaults

/-- The default that a source names: `function_positional_default_obj_hook` and
`function_kwonly_default_obj_hook`. -/
def FunctionDefaults.lookup (d : FunctionDefaults V) : ParamDefaultSource → Option V
  | .positional index => d.positional[index]?
  | .keywordOnly name => d.keywordOnly.lookup name

/-- The defaults of a parameter list, split over the two places. -/
def defaultsOf (qs : List (ParamKind × Parameter V)) : FunctionDefaults V where
  positional := qs.filterMap fun q => if q.1.isPositional then q.2.default else none
  keywordOnly := qs.filterMap fun q =>
    if q.1 = .kwOnly then q.2.default.map (q.2.name, ·) else none

/-- Only parameters that are filled by the call have defaults. -/
def VariadicsPlain (qs : List (ParamKind × Parameter V)) : Prop :=
  ∀ q ∈ qs, q.1.isVariadic = true → q.2.default = none

theorem variadicsPlain_all (p : Parameters V) : VariadicsPlain p.all := by
  intro q hq hvariadic
  unfold Parameters.all at hq
  simp only [List.mem_append, List.mem_map] at hq
  rcases hq with (((⟨_, _, rfl⟩ | ⟨_, _, rfl⟩) | ⟨_, _, rfl⟩) | ⟨_, _, rfl⟩) | ⟨_, _, rfl⟩
  · cases hvariadic
  · cases hvariadic
  · rfl
  · cases hvariadic
  · rfl

/-- The payload that was collected is split without an error. -/
theorem splitParamDefaults_eq (qs : List (ParamKind × Parameter V)) (h : VariadicsPlain qs) :
    splitParamDefaults (qs.map toParam) (qs.filterMap fun q => q.2.default) =
      .ok (defaultsOf qs) := by
  induction qs with
  | nil => rfl
  | cons q qs ih =>
    have ih := ih fun q' hq' => h q' (List.mem_cons_of_mem _ hq')
    obtain ⟨kind, name, default⟩ := q
    cases default with
    | none =>
      have hsame : defaultsOf ((kind, ⟨name, none⟩) :: qs) = defaultsOf qs := by
        cases kind <;> rfl
      rw [hsame, ← ih]
      rfl
    | some v =>
      show splitParamDefaults (⟨name, kind, true⟩ :: qs.map toParam)
        (v :: qs.filterMap fun q => q.2.default) = _
      unfold splitParamDefaults
      cases kind with
      | any | posOnly | kwOnly =>
        simp only [ih, if_true]
        rfl
      | varArg | kwArg => cases h _ (List.mem_cons_self ..) rfl

/-- A parameter finds its own default. Positional sources count the positional defaults in front of
the parameter, and the names of keyword-only ones are different. -/
theorem lookup_default {d : FunctionDefaults V} {pos : List V} {kw : List (String × V)}
    (qs : List (ParamKind × Parameter V)) (h : VariadicsPlain qs)
    (hnames : (qs.map fun q => q.2.name).Nodup) (hkw : ∀ e ∈ kw, ∀ q ∈ qs, e.1 ≠ q.2.name)
    (hpos : d.positional = pos ++ (defaultsOf qs).positional)
    (hkeyword : d.keywordOnly = kw ++ (defaultsOf qs).keywordOnly) :
    (iterWithDefaultSources pos.length (qs.map toParam)).map (fun e => e.2.bind d.lookup) =
      qs.map fun q => q.2.default := by
  induction qs generalizing pos kw with
  | nil => rfl
  | cons q qs ih =>
    obtain ⟨kind, name, default⟩ := q
    have hplain : VariadicsPlain qs := fun q' hq' => h q' (List.mem_cons_of_mem _ hq')
    obtain ⟨hname, hrest⟩ := List.nodup_cons.mp hnames
    have hkw' : ∀ e ∈ kw, ∀ q ∈ qs, e.1 ≠ q.2.name :=
      fun e he q hq => hkw e he q (List.mem_cons_of_mem _ hq)
    cases default with
    | none =>
      have hsame : defaultsOf ((kind, ⟨name, none⟩) :: qs) = defaultsOf qs := by
        cases kind <;> rfl
      rw [hsame] at hpos hkeyword
      have ih := ih hplain hrest hkw' hpos hkeyword
      show none :: _ = none :: _
      rw [ih]
    | some v =>
      cases kind with
      | varArg | kwArg => cases h _ (List.mem_cons_self ..) rfl
      | any | posOnly =>
        have hpos : d.positional = (pos ++ [v]) ++ (defaultsOf qs).positional := by
          rw [hpos, List.append_assoc]
          rfl
        have ih := ih hplain hrest hkw' hpos hkeyword
        have hself : d.lookup (.positional pos.length) = some v := by
          show d.positional[pos.length]? = some v
          simp [hpos]
        rw [List.length_append] at ih
        show d.lookup (.positional pos.length) :: _ = some v :: _
        rw [hself]
        exact congrArg _ ih
      | kwOnly =>
        have hkeyword : d.keywordOnly = (kw ++ [(name, v)]) ++ (defaultsOf qs).keywordOnly := by
          rw [hkeyword, List.append_assoc]
          rfl
        have ih := ih hplain hrest (fun e he q hq => ?_) hpos hkeyword
        · have hself : d.lookup (.keywordOnly name) = some v := by
            show d.keywordOnly.lookup name = some v
            have hnone : kw.lookup name = none := by
              rw [List.lookup_eq_none_iff]
              intro e he
              simpa using (hkw e he _ (List.mem_cons_self ..)).symm
            rw [hkeyword, List.lookup_append, List.lookup_append, hnone]
            simp
          show d.lookup (.keywordOnly name) :: _ = some v :: _
          rw [hself]
          exact congrArg _ ih
        · rcases List.mem_append.mp he with he | he
          · exact hkw' e he q hq
          · obtain rfl := List.mem_singleton.mp he
            exact fun heq => hname (List.mem_map.mpr ⟨q, hq, heq.symm⟩)

/-- The function object holds, where its code looks, what the parameter list says. -/
theorem lookup_default_all (p : Parameters V) :
    (iterWithDefaultSources 0 (p.all.map toParam)).map
        (fun e => e.2.bind (defaultsOf p.all).lookup) =
      p.all.map fun q => q.2.default := by
  have hnone : ∀ e ∈ ([] : List (String × V)), ∀ q ∈ p.all, e.1 ≠ q.2.name :=
    fun e he => absurd he List.not_mem_nil
  have hpos : (defaultsOf p.all).positional = [] ++ (defaultsOf p.all).positional := rfl
  exact lookup_default p.all (variadicsPlain_all p) (names_all p) hnone hpos rfl

end Defaults

end DietPython.Calls
