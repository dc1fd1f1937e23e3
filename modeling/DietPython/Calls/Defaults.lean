import DietPython.Calls.Binding

/-!
# Defaults at the time of a call

A program may give a function other defaults than it was made with. Whether a parameter may be left
unbound is decided by the source, and the value comes from the function object when the compiled
entry runs: by the position among the defaults of the source, or by item access with the name.
Python looks into the tuple and the dict of the function object only, and its positional defaults
belong to the last positional parameters.

1. `iterWithDefaultSources_map` says where the entry looks, parameter by parameter.
2. `callFunction_run` says what a call does once its arguments fit.
3. `defaultsHonoured_iff` says for which tuples, dicts and arguments this is Python's rule.
-/

namespace DietPython.Calls

variable {V : Type}

/-! ## Calls -/

/-- What comes of looking for a default. -/
inductive DefaultAnswer (V : Type)
  | value (v : V)
  /-- There is no attribute, no tuple or dict, no such index, or a `KeyError`. -/
  | missing
  /-- The look-up raises something else. -/
  | raised (isTypeError : Bool)

def DefaultAnswer.ofOption : Option V → DefaultAnswer V
  | some v => .value v
  | none => .missing

def DefaultAnswer.value? : DefaultAnswer V → Option V
  | .value v => some v
  | _ => none

/-- A function object with what it holds now. `None` in place of a tuple or a dict is an empty
one. -/
structure FunctionObject (V : Type) where
  /-- `__defaults__` -/
  defaults : List V
  /-- The entries of `__kwdefaults__`. -/
  kwdefaults : List (String × V)
  /-- Item access on `__kwdefaults__`, which a subclass of `dict` may define. No call looks up a
  name twice. -/
  getItem : String → DefaultAnswer V
  /-- What the object in the attribute `__func__` answers, if the program has set that. -/
  func : Option (ParamDefaultSource → DefaultAnswer V)

/-- With a `__kwdefaults__` that is no instance of a subclass, and no `__func__`. -/
def FunctionObject.plain (defaults : List V) (kwdefaults : List (String × V)) :
    FunctionObject V where
  defaults := defaults
  kwdefaults := kwdefaults
  getItem name := .ofOption (kwdefaults.lookup name)
  func := none

/-- `function_positional_default_obj_hook` and `function_kwonly_default_obj_hook`, where
`resolve_function_defaults_owner` is asked. -/
def FunctionObject.hook (f : FunctionObject V) : ParamDefaultSource → DefaultAnswer V :=
  f.func.getD fun
    | .positional index => .ofOption f.defaults[index]?
    | .keywordOnly name => f.getItem name

/-- Why there is no call. -/
inductive CallError
  | bind (e : BindError)
  /-- Raised by the look-up of a default. -/
  | lookup (isTypeError : Bool)

def CallError.isTypeError : CallError → Bool
  | .bind e => e.isTypeError
  | .lookup isTypeError => isTypeError

/-- What the compiled entry makes of one argument, for defaults that are looked up. -/
def enterDefault (hook : ParamDefaultSource → DefaultAnswer V)
    (param : Param × Option ParamDefaultSource) (arg : Option (BoundValue V)) :
    Except CallError (Option (BoundValue V)) :=
  match param.2, arg with
  | some source, none =>
    match hook source with
    | .value v => .ok (some (.value v))
    | .missing => .error (.bind (.typeError s!"missing required argument '{param.1.name}'"))
    | .raised isTypeError => .error (.lookup isTypeError)
  | _, arg => .ok arg

/-- For the defaults that a function has been made with, this is `enterArg`. -/
theorem enterDefault_plain (d : FunctionDefaults V) (param : Param × Option ParamDefaultSource)
    (arg : Option (BoundValue V)) :
    enterDefault (FunctionObject.plain d.positional d.keywordOnly).hook param arg =
      (enterArg d param arg).mapError .bind := by
  have hhook : ∀ source, (FunctionObject.plain d.positional d.keywordOnly).hook source =
      .ofOption (d.lookup source) := by
    intro source
    cases source <;> rfl
  obtain ⟨param, source⟩ := param
  unfold enterDefault enterArg
  cases source with
  | none => rfl
  | some source =>
    cases arg with
    | some v => rfl
    | none =>
      simp only [hhook]
      cases d.lookup source <;> rfl

/-- A call of a function, through a bound method if there is a receiver. -/
def callFunction (callableName : String) (p : Parameters V) (f : FunctionObject V)
    (receiver : Option V) (args : List V) (kws : List (PyStr × V)) :
    Except CallError (List (Option (BoundValue V))) := do
  let params := (collectParamSpecAndDefaults p).1
  let cells ← (buildFunctionBoundArgs callableName params (receiver.toList ++ args) kws).mapError
    .bind
  ((iterWithDefaultSources 0 params).zip cells).mapM fun e => enterDefault f.hook e.1 e.2

/-! ## Defaults -/

/-- Python's default of the parameter `q` at index `i`: the positional defaults belong to the last
positional parameters. -/
def pythonDefault (p : Parameters V) (f : FunctionObject V) (i : ℕ)
    (q : ParamKind × Parameter V) : Option V :=
  match q.1 with
  | .posOnly | .any =>
    if p.capacity ≤ i + f.defaults.length then
      f.defaults[i + f.defaults.length - p.capacity]?
    else none
  | .kwOnly => f.kwdefaults.lookup q.2.name
  | .varArg | .kwArg => none

/-- How many positional parameters have a default in the source. -/
def positionalDefaults (qs : List (ParamKind × Parameter V)) : ℕ :=
  (qs.filter fun q => q.1.isPositional && q.2.default.isSome).length

/-- The arguments fit: no keyword is unknown, no parameter is given twice, and there are not too
many positional ones. -/
structure ArgumentsFit (p : Parameters V) (args : List V) (kws : List (PyStr × V)) : Prop
    extends KeywordsFit p args kws where
  fits : p.vararg = none → args.length ≤ p.capacity

/-- What Python binds the parameters to. A parameter with neither argument nor default has none. -/
def pythonSlots (p : Parameters V) (f : FunctionObject V) (args : List V)
    (kws : List (PyStr × V)) : List (Option (BoundValue V)) :=
  p.all.mapIdx fun i q => taken p args kws i q <|> (pythonDefault p f i q).map .value

/-- A call with arguments that fit binds its parameters as Python does, or is a `TypeError` if a
parameter has neither argument nor default. -/
def DefaultsHonoured (callableName : String) (p : Parameters V) (f : FunctionObject V)
    (receiver : Option V) (args : List V) (kws : List (PyStr × V)) : Prop :=
  ArgumentsFit p (receiver.toList ++ args) kws →
    match callFunction callableName p f receiver args kws with
    | .ok slots => slots = pythonSlots p f (receiver.toList ++ args) kws ∧ none ∉ slots
    | .error e => e.isTypeError = true ∧ none ∈ pythonSlots p f (receiver.toList ++ args) kws

/-! ### Tuples and dicts for which this is so -/

section Condition

variable (p : Parameters V) (f : FunctionObject V) (args : List V) (kws : List (PyStr × V))

/-- The parameter `q` at index `i` is left unbound by the arguments. -/
def Unbound (i : ℕ) (q : ParamKind × Parameter V) : Prop :=
  p.all[i]? = some q ∧ taken p args kws i q = none

/-- The tuple has the same entry as many places from its end as the parameter is from the last
positional one, and at the number of parameters in front of it that have a default in the source;
or the dict has an entry that item access gives as well. -/
def SameEntry (i : ℕ) (q : ParamKind × Parameter V) : Prop :=
  match q.1 with
  | .posOnly | .any => p.capacity ≤ i + f.defaults.length ∧
      ∃ v, f.defaults[i + f.defaults.length - p.capacity]? = some v ∧
        f.hook (.positional (positionalDefaults (p.all.take i))) = .value v
  | .kwOnly =>
    ∃ v, f.kwdefaults.lookup q.2.name = some v ∧ f.hook (.keywordOnly q.2.name) = .value v
  | .varArg | .kwArg => False

/-- The tuple is too short for the parameter, or the dict has no entry. -/
def NoEntry (i : ℕ) (q : ParamKind × Parameter V) : Prop :=
  match q.1 with
  | .posOnly | .any => i + f.defaults.length < p.capacity
  | .kwOnly => f.kwdefaults.lookup q.2.name = none
  | .varArg | .kwArg => True

/-- Where a parameter with a default in the source is looked up. -/
def placeOf (i : ℕ) (q : ParamKind × Parameter V) : ParamDefaultSource :=
  match q.1 with
  | .kwOnly => .keywordOnly q.2.name
  | _ => .positional (positionalDefaults (p.all.take i))

/-- The first unbound parameter without a value at its place has none there at all, or the look-up
raises a `TypeError`. -/
def FirstMissing : Prop :=
  ∃ i q, Unbound p args kws i q ∧
    (f.hook (placeOf p i q) = .missing ∨ f.hook (placeOf p i q) = .raised true) ∧
    ∀ i' q', i' < i → Unbound p args kws i' q' → ∃ v, f.hook (placeOf p i' q') = .value v

/-- The defaults of the function object fit those of the source: all unbound parameters have one in
the source and the same entry by both rules; or one has no entry, and one has none in the source or
the first look-up that fails does not raise another exception. -/
def DefaultsFit : Prop :=
  (∀ i q, Unbound p args kws i q → q.2.default.isSome ∧ SameEntry p f i q) ∨
    (∃ i q, Unbound p args kws i q ∧ NoEntry p f i q) ∧
      ((∃ i q, Unbound p args kws i q ∧ q.2.default = none) ∨ FirstMissing p f args kws)

end Condition

/-! ## Where the entry looks -/

/-- The source of the default of `q`, behind `next` positional defaults. -/
def defaultSource (next : ℕ) (q : ParamKind × Parameter V) : Option ParamDefaultSource :=
  if q.2.default.isSome then
    match q.1 with
    | .posOnly | .any => some (.positional next)
    | .kwOnly => some (.keywordOnly q.2.name)
    | .varArg | .kwArg => none
  else none

theorem positionalDefaults_cons (q : ParamKind × Parameter V)
    (qs : List (ParamKind × Parameter V)) : positionalDefaults (q :: qs) =
      (if q.1.isPositional && q.2.default.isSome then 1 else 0) + positionalDefaults qs := by
  unfold positionalDefaults
  rw [List.filter_cons]
  split_ifs
  · rw [List.length_cons, Nat.add_comm]
  · rw [Nat.zero_add]

theorem iterWithDefaultSources_cons (next : ℕ) (q : ParamKind × Parameter V)
    (rest : List Param) : iterWithDefaultSources next (toParam q :: rest) =
      (toParam q, defaultSource next q) :: iterWithDefaultSources
        (next + if q.1.isPositional && q.2.default.isSome then 1 else 0) rest := by
  obtain ⟨kind, name, default⟩ := q
  cases default with
  | none =>
    cases kind <;> rfl
  | some v => cases kind <;> rfl

/-- Each parameter with the source of its default. -/
theorem iterWithDefaultSources_map (next : ℕ) (qs : List (ParamKind × Parameter V)) :
    iterWithDefaultSources next (qs.map toParam) = qs.mapIdx fun i q =>
      (toParam q, defaultSource (next + positionalDefaults (qs.take i)) q) := by
  induction qs generalizing next with
  | nil => rfl
  | cons q qs ih =>
    rw [List.map_cons, iterWithDefaultSources_cons, ih, List.mapIdx_cons]
    refine congrArg₂ List.cons rfl (congrArg (fun f => qs.mapIdx f) ?_)
    funext i other
    rw [List.take_succ_cons, positionalDefaults_cons, Nat.add_assoc]

/-! ## Entering -/

section Enter

variable (hook : ParamDefaultSource → DefaultAnswer V)

/-- An argument that is there, or a parameter without a place to look, is passed on. -/
theorem enterDefault_some (param : Param × Option ParamDefaultSource) (v : BoundValue V) :
    enterDefault hook param (some v) = .ok (some v) := by
  obtain ⟨param, source⟩ := param
  cases source <;> rfl

theorem enterDefault_value (param : Param) {source : ParamDefaultSource} {v : V}
    (h : hook source = .value v) :
    enterDefault hook (param, some source) none = .ok (some (.value v)) := by
  unfold enterDefault
  simp only [h]

/-- A look-up without a value ends the call. -/
theorem enterDefault_failed (param : Param) {source : ParamDefaultSource}
    (h : ∀ v, hook source ≠ .value v) :
    ∃ e, enterDefault hook (param, some source) none = .error e ∧
      (e.isTypeError = true ↔ hook source = .missing ∨ hook source = .raised true) := by
  unfold enterDefault
  cases hanswer : hook source with
  | value v => exact absurd hanswer (h v)
  | missing =>
    exact ⟨.bind (.typeError s!"missing required argument '{param.name}'"), by simp only [hanswer],
      iff_of_true rfl (.inl rfl)⟩
  | raised isTypeError =>
    refine ⟨.lookup isTypeError, by simp only [hanswer], ?_⟩
    show isTypeError = true ↔ _
    simp

/-- Parameters with the places of their defaults and with their arguments. -/
abbrev Entries (V : Type) := List ((Param × Option ParamDefaultSource) × Option (BoundValue V))

/-- The place at which the entry looks for the argument that is not there has a value. -/
def HasValue (e : (Param × Option ParamDefaultSource) × Option (BoundValue V)) : Prop :=
  e.2 = none → ∃ source v, e.1.2 = some source ∧ hook source = .value v

/-- All look-ups have a value, or the first that has none ends the call. -/
def EntersOrStops (entries : Entries V) : Prop :=
  ((∀ e ∈ entries, HasValue hook e) ∧
    entries.mapM (fun e => enterDefault hook e.1 e.2) =
      .ok (entries.map fun e => e.2 <|>
        (e.1.2.bind fun source => (hook source).value?).map .value)) ∨
  ∃ (i : ℕ) (param : Param) (source : ParamDefaultSource) (e : CallError),
    entries[i]? = some ((param, some source), none) ∧ (∀ v, hook source ≠ .value v) ∧
      (∀ e ∈ entries.take i, HasValue hook e) ∧
      entries.mapM (fun e => enterDefault hook e.1 e.2) = .error e ∧
      (e.isTypeError = true ↔ hook source = .missing ∨ hook source = .raised true)

theorem EntersOrStops.cons {entries : Entries V} (h : EntersOrStops hook entries)
    {entry : (Param × Option ParamDefaultSource) × Option (BoundValue V)}
    (hvalue : HasValue hook entry)
    (hcell : enterDefault hook entry.1 entry.2 = .ok (entry.2 <|>
      (entry.1.2.bind fun source => (hook source).value?).map .value)) :
    EntersOrStops hook (entry :: entries) := by
  unfold EntersOrStops
  rw [List.mapM_cons, hcell]
  rcases h with ⟨hall, hok⟩ | ⟨i, param, source, e, hi, hnone, hbefore, herror, htype⟩
  · refine .inl ⟨List.forall_mem_cons.mpr ⟨hvalue, hall⟩, ?_⟩
    rw [hok]
    rfl
  · refine .inr ⟨i + 1, param, source, e, hi, hnone, ?_, ?_, htype⟩
    · rw [List.take_succ_cons]
      exact List.forall_mem_cons.mpr ⟨hvalue, hbefore⟩
    · rw [herror]
      rfl

theorem enterDefaults_run (entries : Entries V)
    (hsource : ∀ e ∈ entries, e.2 = none → e.1.2 ≠ none) : EntersOrStops hook entries := by
  induction entries with
  | nil => exact .inl ⟨fun e he => absurd he List.not_mem_nil, rfl⟩
  | cons entry entries ih =>
    obtain ⟨hhere, hrest⟩ := List.forall_mem_cons.mp hsource
    obtain ⟨⟨param, source⟩, cell⟩ := entry
    cases cell with
    | some v => exact (ih hrest).cons hook (fun h => (by cases h)) (enterDefault_some hook _ v)
    | none =>
      obtain ⟨source, rfl⟩ := Option.ne_none_iff_exists'.mp (hhere rfl)
      by_cases hvalue : ∃ v, hook source = .value v
      · obtain ⟨v, hv⟩ := hvalue
        refine (ih hrest).cons hook (fun _ => ⟨source, v, rfl, hv⟩) ?_
        rw [enterDefault_value hook param hv, Option.bind_some, hv]
        rfl
      · obtain ⟨e, herror, htype⟩ := enterDefault_failed hook param (not_exists.mp hvalue)
        refine .inr ⟨0, param, source, e, rfl, not_exists.mp hvalue, by simp, ?_, htype⟩
        rw [List.mapM_cons, herror]
        rfl

end Enter

theorem zip_mapIdx {α β γ : Type} (l : List α) (f : ℕ → α → β) (g : ℕ → α → γ) :
    (l.mapIdx f).zip (l.mapIdx g) = l.mapIdx fun i a => (f i a, g i a) := by
  apply List.ext_getElem?
  intro i
  rw [List.zip_eq_zipWith, List.getElem?_zipWith, List.getElem?_mapIdx, List.getElem?_mapIdx,
    List.getElem?_mapIdx]
  cases l[i]? <;> rfl

/-! ## Calls whose arguments fit -/

section Run

variable (callableName : String) (p : Parameters V) (f : FunctionObject V) (receiver : Option V)
  (args : List V) (kws : List (PyStr × V))

/-- A parameter that is left unbound is not variadic. -/
theorem Unbound.kind {p : Parameters V} {args : List V} {kws : List (PyStr × V)} {i : ℕ}
    {q : ParamKind × Parameter V} (h : Unbound p args kws i q) :
    q.1 ≠ .varArg ∧ q.1 ≠ .kwArg := by
  have hunbound := h.2
  unfold taken at hunbound
  cases hkind : q.1 <;> simp [hkind] at hunbound ⊢

theorem Unbound.defaultSource_eq {p : Parameters V} {args : List V} {kws : List (PyStr × V)}
    {i : ℕ} {q : ParamKind × Parameter V} (h : Unbound p args kws i q)
    (hdefault : q.2.default.isSome = true) :
    defaultSource (positionalDefaults (p.all.take i)) q = some (placeOf p i q) := by
  obtain ⟨hvar, hkw⟩ := h.kind
  unfold defaultSource placeOf
  rw [if_pos hdefault]
  cases hkind : q.1 <;> simp_all

/-- The entries of a call whose parameters all have an argument or a default in the source. -/
theorem mem_entries {P : (Param × Option ParamDefaultSource) × Option (BoundValue V) → Prop}
    (h : ∀ i q, p.all[i]? = some q → P ((toParam q, defaultSource
      (0 + positionalDefaults (p.all.take i)) q), taken p args kws i q)) :
    ∀ e ∈ p.all.mapIdx fun i q => ((toParam q, defaultSource
      (0 + positionalDefaults (p.all.take i)) q), taken p args kws i q), P e := by
  intro e he
  obtain ⟨i, hi, rfl⟩ := List.mem_mapIdx.mp he
  exact h i _ (List.getElem?_eq_getElem hi)

/-- A call whose arguments fit enters with the values at the places of the unbound parameters. It
ends with a `TypeError` if one has no default in the source, and else at the first place without a
value. -/
theorem callFunction_run (hfit : ArgumentsFit p (receiver.toList ++ args) kws)
    (hread : ¬ ReachesUnreadable p (receiver.toList ++ args) kws) :
    ((∃ i q, Unbound p (receiver.toList ++ args) kws i q ∧ q.2.default = none) ∧ ∃ message,
      callFunction callableName p f receiver args kws = .error (.bind (.typeError message))) ∨
    (∀ i q, Unbound p (receiver.toList ++ args) kws i q → q.2.default.isSome = true) ∧
      ((∀ i q, Unbound p (receiver.toList ++ args) kws i q →
          ∃ v, f.hook (placeOf p i q) = .value v) ∧
        callFunction callableName p f receiver args kws =
          .ok (p.all.mapIdx fun i q => taken p (receiver.toList ++ args) kws i q <|>
            (f.hook (placeOf p i q)).value?.map .value) ∨
      ∃ i q e, Unbound p (receiver.toList ++ args) kws i q ∧
        (∀ v, f.hook (placeOf p i q) ≠ .value v) ∧
        (∀ i' q', i' < i → Unbound p (receiver.toList ++ args) kws i' q' →
          ∃ v, f.hook (placeOf p i' q') = .value v) ∧
        callFunction callableName p f receiver args kws = .error e ∧
        (e.isTypeError = true ↔
          f.hook (placeOf p i q) = .missing ∨ f.hook (placeOf p i q) = .raised true)) := by
  unfold callFunction
  rw [collect_eq]
  rcases buildFunctionBoundArgs_run callableName p (receiver.toList ++ args) kws with
    ⟨-, -, hfilled, -, hok⟩ | ⟨hnot, -, message, herror⟩ | ⟨hunreadable, -⟩
  · have hdefault : ∀ i q, Unbound p (receiver.toList ++ args) kws i q →
        q.2.default.isSome = true := fun i q h =>
      (hfilled i q h.1).resolve_left (by rw [h.2]; exact Bool.false_ne_true)
    refine .inr ⟨hdefault, ?_⟩
    dsimp only
    rw [hok]
    simp only [Except.mapError, bind, Except.bind]
    rw [iterWithDefaultSources_map, zip_mapIdx]
    have hplace : ∀ i q, Unbound p (receiver.toList ++ args) kws i q →
        defaultSource (0 + positionalDefaults (p.all.take i)) q = some (placeOf p i q) :=
      fun i q h => by rw [Nat.zero_add, h.defaultSource_eq (hdefault i q h)]
    rcases enterDefaults_run f.hook _ (mem_entries p (receiver.toList ++ args) kws
        (P := fun e => e.2 = none → e.1.2 ≠ none) fun i q hq hnone => by
          rw [hplace i q ⟨hq, hnone⟩]
          exact Option.some_ne_none _) with
      ⟨hall, hentered⟩ | ⟨i, param, source, e, hi, hnone, hbefore, hfailed, htype⟩
    · refine .inl ⟨fun i q h => ?_, ?_⟩
      · obtain ⟨hi, hq⟩ := List.getElem?_eq_some_iff.mp h.1
        have hmem := hall _ (List.mem_mapIdx.mpr ⟨i, hi, rfl⟩)
        rw [hq] at hmem
        obtain ⟨source, v, hsource, hv⟩ := hmem h.2
        rw [show source = placeOf p i q from
          Option.some.inj (hsource.symm.trans (hplace i q h))] at hv
        exact ⟨v, hv⟩
      · rw [hentered]
        refine congrArg Except.ok (List.ext_getElem? fun i => ?_)
        rw [List.getElem?_map, List.getElem?_mapIdx, List.getElem?_mapIdx]
        cases hq : p.all[i]? with
        | none => rfl
        | some q =>
          simp only [Option.map_some, Option.some.injEq]
          cases hunbound : taken p (receiver.toList ++ args) kws i q with
          | some v => rfl
          | none => rw [hplace i q ⟨hq, hunbound⟩]; rfl
    · rw [List.getElem?_mapIdx, Option.map_eq_some_iff] at hi
      obtain ⟨q, hq, heq⟩ := hi
      obtain ⟨hparam, hunbound⟩ := Prod.mk.inj heq
      obtain rfl : placeOf p i q = source := Option.some.inj
        ((hplace i q ⟨hq, hunbound⟩).symm.trans (Prod.mk.inj hparam).2)
      refine .inr ⟨i, q, e, ⟨hq, hunbound⟩, hnone, fun i' q' hlt h => ?_, hfailed, htype⟩
      have hmem := hbefore ((toParam q', defaultSource
        (0 + positionalDefaults (p.all.take i')) q'), taken p (receiver.toList ++ args) kws i' q')
        (List.mem_of_getElem? (i := i') (by
          rw [List.getElem?_take_of_lt hlt, List.getElem?_mapIdx, h.1]
          rfl))
      obtain ⟨source, v, hsource, hv⟩ := hmem h.2
      rw [show source = placeOf p i' q' from
        Option.some.inj (hsource.symm.trans (hplace i' q' h))] at hv
      exact ⟨v, hv⟩
  · have hmissing : ¬ Filled p (receiver.toList ++ args) kws := fun h =>
      hnot ⟨hfit.toKeywordsFit, hfit.fits, h⟩
    unfold Filled at hmissing
    push Not at hmissing
    obtain ⟨i, q, hq, htaken, hdefault⟩ := hmissing
    refine .inl ⟨⟨i, q, ⟨hq, by simpa using htaken⟩, by simpa using hdefault⟩, message, ?_⟩
    simp only [herror, Except.mapError, bind, Except.bind]
  · exact absurd hunreadable hread

/-! ## Entries of the tuple and the dict -/

section Entry

variable {p : Parameters V} {args : List V} {kws : List (PyStr × V)} {i : ℕ}
  {q : ParamKind × Parameter V} (h : Unbound p args kws i q)

include h

theorem sameEntry_iff : SameEntry p f i q ↔
    ∃ v, f.hook (placeOf p i q) = .value v ∧ pythonDefault p f i q = some v := by
  obtain ⟨hvar, hkw⟩ := h.kind
  unfold SameEntry placeOf pythonDefault
  cases hkind : q.1 with
  | varArg => exact absurd hkind hvar
  | kwArg => exact absurd hkind hkw
  | kwOnly => exact exists_congr fun v => and_comm
  | posOnly | any =>
    dsimp only
    by_cases hle : p.capacity ≤ i + f.defaults.length
    · rw [and_iff_right hle, if_pos hle]
      exact exists_congr fun v => and_comm
    · rw [if_neg hle]
      exact ⟨fun hsame => absurd hsame.1 hle, fun ⟨v, _, hnone⟩ => by cases hnone⟩

theorem noEntry_iff : NoEntry p f i q ↔ pythonDefault p f i q = none := by
  obtain ⟨hvar, hkw⟩ := h.kind
  have hpositional := all_isPositional p h.1
  unfold NoEntry pythonDefault
  cases hkind : q.1 with
  | varArg => exact absurd hkind hvar
  | kwArg => exact absurd hkind hkw
  | kwOnly => rfl
  | posOnly | any =>
    rw [hkind] at hpositional
    have hi : i < p.capacity := hpositional.mp rfl
    dsimp only
    by_cases hle : p.capacity ≤ i + f.defaults.length
    · rw [if_pos hle, List.getElem?_eq_none_iff]
      omega
    · rw [if_neg hle]
      exact iff_of_true (by omega) rfl

end Entry

/-- A parameter has no value if it has neither argument nor default. -/
theorem none_mem_pythonSlots : none ∈ pythonSlots p f args kws ↔
    ∃ i q, Unbound p args kws i q ∧ NoEntry p f i q := by
  unfold pythonSlots
  rw [List.mem_mapIdx]
  constructor
  · rintro ⟨i, hi, hnone⟩
    have hunbound : Unbound p args kws i p.all[i] := by
      refine ⟨List.getElem?_eq_getElem hi, ?_⟩
      cases htaken : taken p args kws i p.all[i] with
      | some v =>
        rw [htaken] at hnone
        cases hnone
      | none => rfl
    rw [hunbound.2] at hnone
    exact ⟨i, _, hunbound, (noEntry_iff f hunbound).mpr (Option.map_eq_none_iff.mp hnone)⟩
  · rintro ⟨i, q, hunbound, hentry⟩
    obtain ⟨hi, rfl⟩ := List.getElem?_eq_some_iff.mp hunbound.1
    refine ⟨i, hi, ?_⟩
    rw [hunbound.2, (noEntry_iff f hunbound).mp hentry]
    rfl

/-- When every place has a value, the slots are Python's and full exactly if the entries are the
same. -/
theorem slots_eq_iff
    (hvalues : ∀ i q, Unbound p args kws i q → ∃ v, f.hook (placeOf p i q) = .value v) :
    (p.all.mapIdx fun i q => taken p args kws i q <|>
        (f.hook (placeOf p i q)).value?.map BoundValue.value) = pythonSlots p f args kws ↔
      ∀ i q, Unbound p args kws i q → SameEntry p f i q := by
  have hinj : Function.Injective (BoundValue.value : V → BoundValue V) :=
    fun _ _ h => BoundValue.value.inj h
  unfold pythonSlots
  constructor
  · intro heq i q hunbound
    have hi := congrArg (fun l => l[i]?) heq
    obtain ⟨v, hv⟩ := hvalues i q hunbound
    simp only [List.getElem?_mapIdx, hunbound.1, Option.map_some, hunbound.2, Option.some.injEq,
      hv] at hi
    have hdefault : (some v).map BoundValue.value = (pythonDefault p f i q).map .value := hi
    exact (sameEntry_iff f hunbound).mpr ⟨v, hv, (Option.map_injective hinj hdefault).symm⟩
  · intro hsame
    apply List.ext_getElem?
    intro i
    rw [List.getElem?_mapIdx, List.getElem?_mapIdx]
    cases hq : p.all[i]? with
    | none => rfl
    | some q =>
      cases htaken : taken p args kws i q with
      | some v => simp [htaken]
      | none =>
        obtain ⟨v, hv, hdefault⟩ := (sameEntry_iff f ⟨hq, htaken⟩).mp (hsame i q ⟨hq, htaken⟩)
        simp [htaken, hv, hdefault, DefaultAnswer.value?]

theorem none_notMem_slots
    (hvalues : ∀ i q, Unbound p args kws i q → ∃ v, f.hook (placeOf p i q) = .value v) :
    none ∉ p.all.mapIdx fun i q => taken p args kws i q <|>
      (f.hook (placeOf p i q)).value?.map BoundValue.value := by
  intro hmem
  obtain ⟨i, hi, hnone⟩ := List.mem_mapIdx.mp hmem
  cases htaken : taken p args kws i p.all[i] with
  | some v =>
    rw [htaken] at hnone
    cases hnone
  | none =>
    obtain ⟨v, hv⟩ := hvalues i _ ⟨List.getElem?_eq_getElem hi, htaken⟩
    rw [htaken, hv] at hnone
    cases hnone

/-- A look-up that fails is the first to fail when all before it have a value. -/
theorem firstMissing_iff {i : ℕ} {q : ParamKind × Parameter V} (hunbound : Unbound p args kws i q)
    (hnone : ∀ v, f.hook (placeOf p i q) ≠ .value v)
    (hbefore : ∀ i' q', i' < i → Unbound p args kws i' q' →
      ∃ v, f.hook (placeOf p i' q') = .value v) :
    FirstMissing p f args kws ↔
      f.hook (placeOf p i q) = .missing ∨ f.hook (placeOf p i q) = .raised true := by
  refine ⟨?_, fun hanswer => ⟨i, q, hunbound, hanswer, hbefore⟩⟩
  rintro ⟨j, r, hj, hanswer, hfirst⟩
  rcases Nat.lt_trichotomy j i with hlt | rfl | hlt
  · obtain ⟨v, hv⟩ := hbefore j r hlt hj
    rw [hv] at hanswer
    rcases hanswer with hanswer | hanswer <;> cases hanswer
  · obtain rfl : r = q := Option.some.inj (hj.1.symm.trans hunbound.1)
    exact hanswer
  · obtain ⟨v, hv⟩ := hfirst i q hlt hunbound
    exact absurd hv (hnone v)

/-- A call binds its parameters as Python does exactly if, once its arguments fit, no keyword is
unreadable and the defaults of the function object fit those of the source. -/
theorem defaultsHonoured_iff : DefaultsHonoured callableName p f receiver args kws ↔
    (ArgumentsFit p (receiver.toList ++ args) kws →
      ¬ ReachesUnreadable p (receiver.toList ++ args) kws ∧
        DefaultsFit p f (receiver.toList ++ args) kws) := by
  unfold DefaultsHonoured
  refine forall_congr' fun hfit => ?_
  by_cases hread : ReachesUnreadable p (receiver.toList ++ args) kws
  · have herror : callFunction callableName p f receiver args kws =
        .error (.bind .unicodeEncodeError) := by
      unfold callFunction
      rw [collect_eq]
      rcases buildFunctionBoundArgs_run callableName p (receiver.toList ++ args) kws with
        ⟨-, -, -, hnot, -⟩ | ⟨-, hnot, -⟩ | ⟨-, herror⟩
      · exact absurd hread hnot
      · exact absurd hread hnot
      · simp only [herror, Except.mapError, bind, Except.bind]
    rw [herror]
    exact iff_of_false (fun h => Bool.false_ne_true h.1) fun h => h.1 hread
  · rw [and_iff_right hread]
    generalize hargs : receiver.toList ++ args = given at *
    have hpython := none_mem_pythonSlots p f given kws
    have hrun := callFunction_run callableName p f receiver args kws (hargs ▸ hfit) (hargs ▸ hread)
    rw [hargs] at hrun
    unfold DefaultsFit
    rcases hrun with ⟨⟨i, q, hunbound, hdefault⟩, message, herror⟩ | ⟨hdefaults, hrun⟩
    · rw [herror]
      constructor
      · exact fun ⟨_, hnone⟩ => .inr ⟨hpython.mp hnone, .inl ⟨i, q, hunbound, hdefault⟩⟩
      · rintro (hall | ⟨hnone, -⟩)
        · have hsome := (hall i q hunbound).1
          rw [hdefault] at hsome
          cases hsome
        · exact ⟨rfl, hpython.mpr hnone⟩
    · have hsource : ¬ ∃ i q, Unbound p given kws i q ∧ q.2.default = none := by
        rintro ⟨i, q, hunbound, hdefault⟩
        have hsome := hdefaults i q hunbound
        rw [hdefault] at hsome
        cases hsome
      rw [or_iff_right hsource]
      rcases hrun with ⟨hvalues, hok⟩ | ⟨i, q, e, hunbound, hnone, hbefore, herror, htype⟩
      · have hfirst : ¬ FirstMissing p f given kws := by
          rintro ⟨i, q, hunbound, hanswer, -⟩
          obtain ⟨v, hv⟩ := hvalues i q hunbound
          rw [hv] at hanswer
          rcases hanswer with hanswer | hanswer <;> cases hanswer
        rw [hok, or_iff_left fun h => hfirst h.2]
        dsimp only
        rw [and_iff_left (none_notMem_slots p f given kws hvalues),
          slots_eq_iff p f given kws hvalues]
        exact forall_congr' fun i => forall_congr' fun q => forall_congr' fun h =>
          (and_iff_right (hdefaults i q h)).symm
      · rw [herror]
        dsimp only
        rw [htype, ← firstMissing_iff p f given kws hunbound hnone hbefore, hpython, and_comm]
        refine (or_iff_right fun hall => ?_).symm
        obtain ⟨v, hv, -⟩ := (sameEntry_iff f hunbound).mp (hall i q hunbound).2
        exact hnone v hv

end Run

/-- `def f(a, b=1)` -/
def oneDefault : Parameters ℕ where
  posonlyargs := []
  args := [⟨"a", none⟩, ⟨"b", some 1⟩]
  vararg := none
  kwonlyargs := []
  kwarg := none
  nodup := by decide

/-- With `f.__defaults__ = (10, 20)`, Python calls `f(5)` with the second one. -/
theorem oneDefault_reassigned :
    callFunction "f" oneDefault (.plain [10, 20] []) none [5] [] =
        .ok [some (.value 5), some (.value 10)] ∧
      pythonSlots oneDefault (.plain [10, 20] []) [5] [] = [some (.value 5), some (.value 20)] ∧
      ¬ DefaultsHonoured "f" oneDefault (.plain [10, 20] []) none [5] [] := by
  have hcall : callFunction "f" oneDefault (.plain [10, 20] []) none [5] [] =
      .ok [some (.value 5), some (.value 10)] := rfl
  have hpython : pythonSlots oneDefault (.plain [10, 20] []) [5] [] =
      [some (.value 5), some (.value 20)] := rfl
  refine ⟨hcall, hpython, fun h => ?_⟩
  have hfit : ArgumentsFit oneDefault [5] [] := ⟨keywordsFit_nil oneDefault [5], fun _ => by decide⟩
  have hslots := h hfit
  rw [hcall] at hslots
  have hsame := hslots.1.trans hpython
  simp at hsame

end DietPython.Calls
