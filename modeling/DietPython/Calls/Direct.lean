import DietPython.Jit.CallSite
import DietPython.Jit.DirectRunners
import DietPython.Calls.Binding

/-!
# Direct calls

`CallDirect` calls a function of the module by its code pointer. The generic call of the same
callable and arguments goes through the binder. Both end in the compiled entry, which fills nulls
with defaults, and the body sees nothing but the slots that the entry leaves.

The callable is any object that `resolve_function_object` takes to the target: the function, or an
object with a `__func__`.
-/

namespace DietPython.Calls

open LoggedComputations Logged Jit
open DirectRunners (DirectRunnerCacheEntry)

/-! ## The target of a direct call -/

/-- What stands for the target as a callable. -/
inductive CalleeShape (V : Type)
  /-- The function object, or a `staticmethod` of it. -/
  | function
  /-- A bound method. -/
  | method (receiver : V)
  /-- An object of another class that has a `__func__`. -/
  | object

/-- The arguments that calling the object puts in front, if it calls the function. -/
def CalleeShape.front {V : Type} : CalleeShape V → Option (List V)
  | function => some []
  | method receiver => some [receiver]
  | object => none

inductive DirectError (E : Type)
  | typeError (message : String)
  | runtimeError (message : String)
  | unicodeEncodeError
  /-- Null without an exception. -/
  | nullResult
  | raised (exc : E)

def DirectError.ofBind {E : Type} : BindError → DirectError E
  | .typeError message => typeError message
  | .unicodeEncodeError => unicodeEncodeError

inductive DirectEvent (O V : Type)
  /-- The body starts. -/
  | entered (slots : List (Option (BoundValue V)))
  /-- The `__call__` of an object that is not a function. -/
  | called (callable : V) (args : List V)
  | other (event : O)

/-- A function of the module, what its function object holds, and how its code is found. -/
structure Target (O E V H : Type) extends Runtime (DirectEvent O V) (DirectError E) V where
  displayName : String
  parameters : Parameters V
  body : List (Option (BoundValue V)) → Logged (DirectEvent O V) (DirectError E) V
  shape : V → CalleeShape V
  callObject : V → List V → List (DirectEvent O V) → Except (DirectError E) V
  /-- The module has a function with this id. -/
  known : Bool
  /-- `compile_cranelift_run_bb_specialized_cached`. -/
  compile : Except String H
  /-- `compiled_direct_code_ptr`. -/
  compiledDirectCodePtr : H → Except String Unit
  /-- What `compiled_direct_runner_handles` has for the function. -/
  cached : List (DirectEvent O V) → Option (DirectRunnerCacheEntry H)

namespace Target

variable {O E V H : Type} (t : Target O E V H)

/-- The parameter specification. -/
def params : List Param := (collectParamSpecAndDefaults t.parameters).1

/-! ## Looking the code up -/

/-- `lookup_or_compile_direct_code_ptr`: the pointer, and what is cached after it. -/
def lookupOrCompileDirectCodePtr :
    Option (DirectRunnerCacheEntry H) →
      Except String (Option Unit) × Option (DirectRunnerCacheEntry H)
  | some (.ready handle) =>
    ((t.compiledDirectCodePtr handle).map some, some (.ready handle))
  | some .inProgress => (.ok none, some .inProgress)
  | none =>
    if t.known then
      match t.compile with
      | .error message => (.error message, some .inProgress)
      | .ok handle =>
        match t.compiledDirectCodePtr handle with
        | .error message => (.error message, none)
        | .ok ptr => (.ok (some ptr), some (.ready handle))
    else (.error "missing direct-call target", some .inProgress)

/-- What the lookup ends with in place of a pointer. -/
def lookupFailure (l : List (DirectEvent O V)) : Option (DirectError E) :=
  match (t.lookupOrCompileDirectCodePtr (t.cached l)).1 with
  | .ok (some _) => none
  | .ok none => some .nullResult
  | .error message => some (.runtimeError message)

/-- `ensure_clif_vectorcall_compiled`. -/
def ensureCompiled : Except String Unit := do
  let handle ← t.compile
  t.compiledDirectCodePtr handle

/-! ## The two calls -/

/-- The body starts. -/
def start (slots : List (Option (BoundValue V))) : Logged (DirectEvent O V) (DirectError E) V := do
  let _ ← observe (.entered slots) fun _ => .ok ()
  t.body slots

/-- The compiled entry and the body. -/
def enter (cells : List (Option (BoundValue V))) : Logged (DirectEvent O V) (DirectError E) V :=
  match enterArgs (defaultsOf t.parameters.all) t.params cells with
  | .error e => raise (.ofBind e)
  | .ok slots => t.start slots

/-- The vectorcall of the callable with positional arguments. -/
def vectorcall (callable : V) (args : List V) : Logged (DirectEvent O V) (DirectError E) V :=
  match (t.shape callable).front with
  | none => observe (.called callable args) (t.callObject callable args)
  | some front =>
    match t.ensureCompiled with
    | .error message => raise (.runtimeError message)
    | .ok _ =>
      match buildFunctionBoundArgs t.displayName t.params (front ++ args) [] with
      | .error e => raise (.ofBind e)
      | .ok cells => t.enter cells

/-- The runtime of generic calls. -/
def runtime : Runtime (DirectEvent O V) (DirectError E) V :=
  { t.toRuntime with
    call := fun callable args kwargs =>
      match args, kwargs with
      | .native vs, none => t.vectorcall callable vs
      | args, kwargs => t.call callable args kwargs }

/-- `supports_direct_call`. -/
def supportsDirectCall (c : CallSite (Logged (DirectEvent O V) (DirectError E) V)) : Bool :=
  c.keywords.isEmpty && decide (c.args.length ≤ t.params.length) &&
    c.args.all fun arg => !arg.isStarred

/-- The arguments of the direct entry: raw values, then nulls. -/
def directArgs (args : List V) : List (Option (BoundValue V)) :=
  args.map (fun v => some (.value v)) ++ List.replicate (t.params.length - args.length) none

/-- `emit_call_direct_expr`. -/
def emitCallDirect [DecidableEq V] (c : CallSite (Logged (DirectEvent O V) (DirectError E) V)) :
    Logged (DirectEvent O V) (DirectError E) V :=
  if t.known && t.supportsDirectCall c then do
    let _ ← c.callable
    -- the code is looked up, and compiled, before the arguments are evaluated
    let failure ← peek fun l => .ok (t.lookupFailure l)
    match failure with
    | some e => raise e
    | none => do
      let args ← evalOperands c.args
      t.enter (t.directArgs args)
  else emitCall t.runtime c

/-! ## When they agree -/

/-- Passing the arguments by index is what the binder does. -/
structure PassesThrough (callable : V) (args : List V) : Prop where
  compiles : t.ensureCompiled = .ok ()
  noVararg : t.parameters.vararg = none
  noKwarg : t.parameters.kwarg = none
  shape : ∃ front, (t.shape callable).front = some front ∧
    (front ++ args).length ≤ t.parameters.capacity ∧
    ∀ i q, t.parameters.all[i]? = some q →
      (i < args.length ∨ q.2.default.isSome) ∧
        ((front ++ args)[i]? <|> q.2.default) = (args[i]? <|> q.2.default)

/-- The generic call ends with the same error, and nothing happens before. -/
def FailsAlike (callable : V) (args : List (PosArg (Logged (DirectEvent O V) (DirectError E) V)))
    (e : DirectError E) (l : List (DirectEvent O V)) : Prop :=
  evalOperands args l = (.error e, l) ∨
    (∃ vs, evalOperands args l = (.ok vs, l)) ∧ (t.shape callable).front.isSome ∧
      ∃ message, t.ensureCompiled = .error message ∧ e = .runtimeError message

def DirectOk (c : CallSite (Logged (DirectEvent O V) (DirectError E) V))
    (l : List (DirectEvent O V)) : Prop :=
  (t.known && t.supportsDirectCall c) = true →
    IfOk c.callable (fun callable l' =>
      match t.lookupFailure l' with
      | some e => t.FailsAlike callable c.args e l'
      | none => IfOk (evalOperands c.args) (fun args _ => t.PassesThrough callable args) l') l

end Target

/-! ## Slots -/

section Slots

variable {V : Type}

/-- With plain arguments the binder gives what each parameter takes, or a `TypeError`. -/
theorem buildFunctionBoundArgs_positional (callableName : String) (p : Parameters V)
    (args : List V) :
    ((p.vararg = none → args.length ≤ p.capacity) ∧ Filled p args [] ∧
      buildFunctionBoundArgs callableName (p.all.map toParam) args [] =
        .ok (p.all.mapIdx fun i q => taken p args [] i q)) ∨
    (¬ ((p.vararg = none → args.length ≤ p.capacity) ∧ Filled p args []) ∧ ∃ message,
      buildFunctionBoundArgs callableName (p.all.map toParam) args [] =
        .error (.typeError message)) := by
  rcases buildFunctionBoundArgs_run callableName p args [] with
    ⟨_, hfits, hfilled, _, hok⟩ | ⟨hnot, _, message, herror⟩ | ⟨⟨_, _, _, _, hnil, _⟩, _⟩
  · exact .inl ⟨hfits, hfilled, hok⟩
  · exact .inr ⟨fun h => hnot ⟨keywordsFit_nil p args, h⟩, message, herror⟩
  · simp at hnil

/-- What a parameter takes from plain arguments. -/
theorem taken_positional {p : Parameters V} (args : List V) {i : ℕ}
    {q : ParamKind × Parameter V} (hq : p.all[i]? = some q) (hvararg : p.vararg = none)
    (hkwarg : p.kwarg = none) (hfits : args.length ≤ p.capacity) :
    taken p args [] i q = args[i]?.map .value := by
  have hpositional := all_isPositional p hq
  obtain ⟨kind, parameter⟩ := q
  cases kind with
  | varArg =>
    rw [vararg_of_all p hq rfl] at hvararg
    cases hvararg
  | kwArg =>
    rw [kwarg_of_all p hq rfl] at hkwarg
    cases hkwarg
  | kwOnly =>
    have hi : ¬ i < p.capacity := fun h => Bool.false_ne_true (hpositional.mpr h)
    rw [List.getElem?_eq_none (by omega)]
    rfl
  | posOnly | any =>
    show (given args [] i _).head?.map BoundValue.value = _
    rw [head?_given_nil args i (hpositional.mpr (hpositional.mp rfl))]

end Slots

namespace Target

variable {O E V H : Type} (t : Target O E V H)

/-! ## Starting the body -/

theorem params_eq : t.params = t.parameters.all.map toParam := by
  unfold params
  rw [collect_eq]

/-- The history of a body shows the slots. -/
theorem start_history (slots : List (Option (BoundValue V))) (l : List (DirectEvent O V)) :
    ∃ es, (t.start slots l).2 = l ++ .entered slots :: es :=
  observe_bind_history ..

theorem start_eq_start_iff (slots slots' : List (Option (BoundValue V)))
    (l : List (DirectEvent O V)) : t.start slots l = t.start slots' l ↔ slots = slots' := by
  constructor
  · intro h
    obtain ⟨es, hes⟩ := t.start_history slots l
    obtain ⟨es', hes'⟩ := t.start_history slots' l
    rw [h, hes'] at hes
    have hcons := List.append_cancel_left hes
    exact (DirectEvent.entered.inj (List.cons.inj hcons).1).symm
  · rintro rfl
    rfl

/-- A body that has started is not an error without a trace. -/
theorem start_ne (slots : List (Option (BoundValue V))) {l l' : List (DirectEvent O V)}
    (h : l' <+: l) (r : Except (DirectError E) V) : t.start slots l ≠ (r, l') := by
  intro heq
  obtain ⟨es, hes⟩ := t.start_history slots l
  rw [heq] at hes
  have hle := h.length_le
  rw [show l' = l ++ .entered slots :: es from hes, List.length_append, List.length_cons] at hle
  omega

theorem enter_mapIdx (cells : ℕ → ParamKind × Parameter V → Option (BoundValue V)) :
    t.enter (t.parameters.all.mapIdx cells) =
      t.start (t.parameters.all.mapIdx fun i q => cells i q <|> q.2.default.map .value) := by
  unfold enter
  rw [params_eq, enterArgs_all]

/-- What the body of a direct call starts with. -/
theorem enter_directArgs {args : List V} (h : args.length ≤ t.params.length) :
    t.enter (t.directArgs args) = t.start (t.parameters.all.mapIdx fun i q =>
      args[i]?.map BoundValue.value <|> q.2.default.map .value) := by
  have hlen : t.params.length = t.parameters.all.length := by rw [params_eq, List.length_map]
  have hargs : t.directArgs args = t.parameters.all.mapIdx fun i _ => args[i]?.map .value := by
    apply List.ext_getElem?
    intro i
    unfold directArgs
    rw [List.getElem?_mapIdx]
    by_cases hi : i < args.length
    · rw [List.getElem?_append_left (by simpa using hi), List.getElem?_map,
        List.getElem?_eq_getElem hi, List.getElem?_eq_getElem (l := t.parameters.all) (by omega)]
      rfl
    · rw [List.getElem?_append_right (by simpa using hi), List.length_map,
        List.getElem?_replicate, List.getElem?_eq_none (l := args) (by omega)]
      by_cases hi' : i < t.parameters.all.length
      · rw [if_pos (by omega), List.getElem?_eq_getElem hi']
        rfl
      · rw [if_neg (by omega), List.getElem?_eq_none (by omega)]
        rfl
  rw [hargs, enter_mapIdx]

/-- The generic call of an object that calls the function. -/
theorem vectorcall_function {callable : V} {args front : List V}
    (hshape : (t.shape callable).front = some front) (hcompiled : t.ensureCompiled = .ok ()) :
    (((t.parameters.vararg = none → (front ++ args).length ≤ t.parameters.capacity) ∧
        Filled t.parameters (front ++ args) []) ∧
      t.vectorcall callable args = t.start (t.parameters.all.mapIdx fun i q =>
        taken t.parameters (front ++ args) [] i q <|> q.2.default.map .value)) ∨
    (¬ ((t.parameters.vararg = none → (front ++ args).length ≤ t.parameters.capacity) ∧
        Filled t.parameters (front ++ args) []) ∧
      ∃ message, t.vectorcall callable args = raise (.typeError message)) := by
  unfold vectorcall
  simp only [hshape, hcompiled, params_eq]
  rcases buildFunctionBoundArgs_positional t.displayName t.parameters (front ++ args) with
    ⟨hfits, hfilled, hok⟩ | ⟨hnot, message, herror⟩
  · rw [hok]
    exact .inl ⟨⟨hfits, hfilled⟩, t.enter_mapIdx _⟩
  · rw [herror]
    exact .inr ⟨hnot, message, rfl⟩

/-! ## The two calls compared -/

/-- Where the slots of the two calls are the same. -/
theorem slots_eq_iff {args front : List V}
    (hfits : t.parameters.vararg = none → (front ++ args).length ≤ t.parameters.capacity)
    (hfilled : Filled t.parameters (front ++ args) []) :
    (t.parameters.all.mapIdx fun i q =>
        args[i]?.map BoundValue.value <|> q.2.default.map .value) =
      (t.parameters.all.mapIdx fun i q =>
        taken t.parameters (front ++ args) [] i q <|> q.2.default.map .value) ↔
    t.parameters.vararg = none ∧ t.parameters.kwarg = none ∧
      (front ++ args).length ≤ t.parameters.capacity ∧
      ∀ i q, t.parameters.all[i]? = some q →
        (i < args.length ∨ q.2.default.isSome) ∧
          ((front ++ args)[i]? <|> q.2.default) = (args[i]? <|> q.2.default) := by
  have hmap : ∀ o o' : Option V, (o.map BoundValue.value <|> o'.map .value) =
      (o <|> o').map BoundValue.value := by
    intro o o'
    cases o <;> rfl
  have hinj : Function.Injective (Option.map (BoundValue.value (V := V))) :=
    Option.map_injective fun _ _ h => BoundValue.value.inj h
  rw [List.mapIdx_eq_mapIdx_iff]
  constructor
  · intro h
    have hpoint : ∀ i q, t.parameters.all[i]? = some q →
        (args[i]? <|> q.2.default).map BoundValue.value =
          (taken t.parameters (front ++ args) [] i q <|> q.2.default.map .value) := by
      intro i q hq
      obtain ⟨hi, rfl⟩ := List.getElem?_eq_some_iff.mp hq
      rw [← hmap]
      exact h i hi
    have hvararg : t.parameters.vararg = none := by
      cases hname : t.parameters.vararg with
      | none => rfl
      | some name =>
        obtain ⟨i, hq⟩ := List.getElem?_of_mem (exists_vararg t.parameters hname)
        obtain ⟨v, _, hv⟩ := Option.map_eq_some_iff.mp (hpoint i _ hq)
        cases hv
    have hkwarg : t.parameters.kwarg = none := by
      cases hname : t.parameters.kwarg with
      | none => rfl
      | some name =>
        obtain ⟨i, hq⟩ := List.getElem?_of_mem (exists_kwarg t.parameters hname)
        obtain ⟨v, _, hv⟩ := Option.map_eq_some_iff.mp (hpoint i _ hq)
        cases hv
    refine ⟨hvararg, hkwarg, hfits hvararg, fun i q hq => ?_⟩
    have htaken := taken_positional (front ++ args) hq hvararg hkwarg (hfits hvararg)
    have hsame := hpoint i q hq
    rw [htaken, hmap] at hsame
    have hsame := hinj hsame
    refine ⟨?_, hsame.symm⟩
    have hsome : ((front ++ args)[i]? <|> q.2.default).isSome := by
      have h := hfilled i q hq
      rw [htaken] at h
      cases hvalue : (front ++ args)[i]? with
      | none => simpa [hvalue] using h
      | some v => rfl
    rw [← hsame] at hsome
    by_cases hi : i < args.length
    · exact .inl hi
    · rw [List.getElem?_eq_none (by omega)] at hsome
      exact .inr hsome
  · rintro ⟨hvararg, hkwarg, hcapacity, h⟩ i hi
    have hq := List.getElem?_eq_getElem hi
    rw [taken_positional (front ++ args) hq hvararg hkwarg hcapacity, hmap, hmap, (h i _ hq).2]

/-- With the code at hand, the direct call does what the generic call does exactly when passing
the arguments by index is what the binder does. -/
theorem enter_eq_vectorcall_iff (callable : V) {args : List V}
    (hlen : args.length ≤ t.params.length) (l : List (DirectEvent O V)) :
    t.enter (t.directArgs args) l = t.vectorcall callable args l ↔
      t.PassesThrough callable args := by
  rw [t.enter_directArgs hlen]
  cases hshape : (t.shape callable).front with
  | none =>
    refine iff_of_false (fun h => ?_) fun h => ?_
    · obtain ⟨es, hes⟩ := t.start_history _ l
      rw [h] at hes
      unfold vectorcall at hes
      rw [hshape] at hes
      have hcons := List.append_cancel_left (hes : l ++ [.called callable args] = _)
      cases (List.cons.inj hcons).1
    · obtain ⟨front, hfront, _⟩ := h.shape
      rw [hshape] at hfront
      cases hfront
  | some front =>
    cases hcompiled : t.ensureCompiled with
    | error message =>
      refine iff_of_false (fun h => ?_) fun h => ?_
      · have hraise : t.vectorcall callable args l = (.error (.runtimeError message), l) := by
          unfold vectorcall
          simp only [hshape, hcompiled, raise_apply]
        rw [hraise] at h
        exact t.start_ne _ (List.prefix_refl l) _ h
      · have hok := h.compiles
        rw [hcompiled] at hok
        cases hok
    | ok _ =>
      rcases t.vectorcall_function hshape hcompiled with
        ⟨⟨hfits, hfilled⟩, hcall⟩ | ⟨hnot, message, hcall⟩
      · rw [hcall, start_eq_start_iff, t.slots_eq_iff hfits hfilled]
        constructor
        · rintro ⟨hvararg, hkwarg, hcapacity, h⟩
          exact ⟨hcompiled, hvararg, hkwarg, front, hshape, hcapacity, h⟩
        · rintro ⟨_, hvararg, hkwarg, front', hshape', h⟩
          rw [hshape] at hshape'
          obtain rfl := Option.some.inj hshape'
          exact ⟨hvararg, hkwarg, h⟩
      · rw [hcall]
        refine iff_of_false (t.start_ne _ (List.prefix_refl l) _) ?_
        rintro ⟨_, hvararg, hkwarg, front', hshape', hcapacity, h⟩
        rw [hshape] at hshape'
        obtain rfl := Option.some.inj hshape'
        refine hnot ⟨fun _ => hcapacity, fun i q hq => ?_⟩
        rw [taken_positional (front ++ args) hq hvararg hkwarg hcapacity]
        obtain ⟨hsome, hsame⟩ := h i q hq
        cases hvalue : (front ++ args)[i]? with
        | some v => exact .inl rfl
        | none =>
          rw [hvalue] at hsame
          refine .inr ?_
          rcases hsome with hi | hdefault
          · rw [List.getElem?_eq_getElem hi] at hsame
            rw [show q.2.default = some args[i] from hsame]
            rfl
          · exact hdefault

/-- Without the code, the generic call ends like the direct one only if nothing happens in it. -/
theorem failure_eq_iff [DecidableEq V] (callable : V)
    (args : List (PosArg (Logged (DirectEvent O V) (DirectError E) V))) {e : DirectError E}
    {l : List (DirectEvent O V)} (he : t.lookupFailure l = some e) :
    (.error e, l) = (evalOperands args >>= fun args => t.vectorcall callable args) l ↔
      t.FailsAlike callable args e l := by
  have htype : ∀ message, e ≠ .typeError message := by
    rintro message rfl
    unfold lookupFailure at he
    split at he <;> cases he
  have hgrows := (evalOperands args).grows l
  unfold FailsAlike
  rcases hr : evalOperands args l with ⟨e' | vs, l'⟩
  · rw [bind_apply_error l hr]
    constructor
    · intro h
      obtain ⟨herror, hl⟩ := Prod.mk.inj h
      exact .inl (by rw [Except.error.inj herror, hl])
    · rintro (h | ⟨⟨vs, hvs⟩, _⟩)
      · obtain ⟨herror, hl⟩ := Prod.mk.inj h
        rw [Except.error.inj herror, hl]
      · cases hvs
  · rw [bind_apply_ok l hr]
    rw [hr] at hgrows
    have hgrows : l <+: l' := hgrows
    cases hshape : (t.shape callable).front with
    | none =>
      have hhistory : (t.vectorcall callable vs l').2 = l' ++ [.called callable vs] := by
        unfold vectorcall
        rw [hshape]
        rfl
      refine iff_of_false (fun h => ?_) ?_
      · rw [← h] at hhistory
        have hle := hgrows.length_le
        rw [show l = l' ++ [.called callable vs] from hhistory, List.length_append] at hle
        simp only [List.length_singleton] at hle
        omega
      · rintro (h | ⟨_, hsome, _⟩)
        · cases h
        · cases hsome
    | some front =>
      cases hcompiled : t.ensureCompiled with
      | error message =>
        have hraise : t.vectorcall callable vs l' = (.error (.runtimeError message), l') := by
          unfold vectorcall
          simp only [hshape, hcompiled, raise_apply]
        rw [hraise]
        constructor
        · intro h
          obtain ⟨herror, hl⟩ := Prod.mk.inj h
          exact .inr ⟨⟨vs, by rw [hl]⟩, rfl, message, rfl, Except.error.inj herror⟩
        · rintro (h | ⟨⟨vs', hvs⟩, _, message', hmessage, rfl⟩)
          · cases h
          · rw [Except.error.inj hmessage, (Prod.mk.inj hvs).2]
      | ok _ =>
        refine iff_of_false (fun h => ?_) ?_
        · rcases t.vectorcall_function hshape hcompiled with ⟨_, hcall⟩ | ⟨_, message, hcall⟩
          · rw [hcall] at h
            exact t.start_ne _ hgrows _ h.symm
          · rw [hcall, raise_apply] at h
            exact htype message (Except.error.inj (Prod.mk.inj h).1)
        · rintro (h | ⟨_, _, message, hmessage, _⟩)
          · cases h
          · cases hmessage

end Target

/-! ## A call that binds wrongly -/

/-- `def f(*args): ...`, compiled, with a body that answers whether it has got a tuple. -/
def starArgsTarget : Target Empty Empty (String ⊕ ℕ) Unit where
  listType := .inr 0
  dictType := .inr 1
  tupleType := .inr 2
  tupleFromIter := .inr 3
  str := .inl
  str_injective := fun _ _ h => Sum.inl.inj h
  isMapping _ := false
  loadGlobal _ := raise (.runtimeError "no globals")
  iterate _ := pure []
  readMapping _ := pure []
  readPairs _ := pure []
  helper _ := pure (.inr 4)
  call _ _ _ := pure (.inr 4)
  multipleValues _ := .typeError "multiple values"
  notMapping _ := .typeError "not a mapping"
  displayName := "f"
  parameters := ⟨[], [], some "args", [], none, by decide⟩
  body slots := pure <| .inl <| if slots matches [some (.tuple _)] then "tuple" else "other"
  shape _ := .function
  callObject _ _ _ := .ok (.inr 4)
  known := true
  compile := .ok ()
  compiledDirectCodePtr _ := .ok ()
  cached _ := some (.ready ())

/-- `f(7)` -/
def oneArgument :
    CallSite (Logged (DirectEvent Empty (String ⊕ ℕ)) (DirectError Empty) (String ⊕ ℕ)) where
  callable := pure (.inr 5)
  args := [.positional (pure (.inr 7))]
  keywords := []

end DietPython.Calls
