import DietPython.TypeAliases.Lowering
import Mathlib.Algebra.Order.BigOperators.Group.List
import Mathlib.Algebra.Order.Group.Nat
import Mathlib.Tactic.Common

/-!
# What a type alias leaves behind

The variables of the type parameters are those of the enclosing scope: what they held is lost when
they are assigned, and they are unbound when they are deleted. The body of a class does not find
them at all, unless they are global or in a cell.

1. `boundBeforeFailure` says which names are bound when an evaluation raises.
2. `ReadsBack` says when a type parameter is found where it was stored.
3. `exec_assigns_ok` and `exec_assigns_error` say what the assignments leave, `exec_dels` what the
   deletions do.
4. `keepsFrame_iff` says when the statement binds the alias and nothing else.
-/

namespace DietPython.TypeAliases

open Generators (BindingKind CellBindingKind)
open Scopes (BindingTarget SemanticScopeKind deriveEffectiveBindingForName isInternalSymbol)

/-! ## The claim of a frame -/

/-- The variable that a name of the scope is in Python. -/
def ScopeNames.variableOf (names : ScopeNames) (name : String) : Variable :=
  match names.kind, names.bindingKind name with
  | _, .global => (.moduleGlobal, name)
  | .classScope, .localName | .classScope, .cell .owner => (.classNamespace, name)
  | _, _ => (.localName, name)

section Statements

variable {σ V E : Type} (rt : TypingRuntime σ V E)
  (typeAlias : ScopedTypeAlias (Expression σ V E)) (s : AliasState σ V)

/-- The assignments of the type parameters: the objects that they make, and the state after them. -/
def bindAll (names : ScopeNames) : List (String × TypingCall (Expression σ V E)) →
    AliasState σ V → Option (List V × AliasState σ V)
  | [], s => some ([], s)
  | (target, call) :: rest, s =>
    match evalCall rt names call s.vars s.world with
    | (.ok v, w) =>
      (bindAll names rest ⟨s.vars.insert (names.stored target) v, w⟩).map
        fun bound => (v :: bound.1, bound.2)
    | (.error _, _) => none

/-- The alias is bound to a new type alias. The value was evaluated where each type parameter is the
object in `__type_params__`, and functions in it find the same objects afterwards. -/
def BindsAlias (after : Variables V) : Prop :=
  ∃ (objects : List V) (s₁ : AliasState σ V) (value object : V) (w₁ w₂ : σ),
    bindAll rt typeAlias.names (makeTypeParamInfo typeAlias.typeParams) s = some (objects, s₁) ∧
    (∀ (i : ℕ) (name : String), typeAlias.paramNames[i]? = some name →
      (typeAlias.names.view rt.builtins s₁.vars).direct name = objects[i]? ∧
        (typeAlias.names.view rt.builtins s₁.vars).inner name = objects[i]?) ∧
    typeAlias.value (typeAlias.names.view rt.builtins s₁.vars) s₁.world = (.ok value, w₁) ∧
    rt.construct (.typeAliasType typeAlias.name value
      (if typeAlias.typeParams = [] then none else some objects)) s₁.vars w₁ = (.ok object, w₂) ∧
    after.lookup (typeAlias.names.variableOf typeAlias.name) = some object ∧
    ∀ (i : ℕ) (name : String), typeAlias.paramNames[i]? = some name → name ∈ typeAlias.deferred →
      typeAlias.names.innerLoad rt.builtins after name = objects[i]?

/-- The statement binds the alias, unless it raises an exception, and leaves every other variable as
it was. -/
def KeepsFrame : Prop :=
  (∀ x, x ≠ typeAlias.names.variableOf typeAlias.name →
    (exec rt typeAlias.names (rewriteTypeAliasStmt typeAlias.toTypeAlias) s).2.vars.lookup x =
      s.vars.lookup x) ∧
  ((exec rt typeAlias.names (rewriteTypeAliasStmt typeAlias.toTypeAlias) s).1 = .ok () →
    BindsAlias rt typeAlias s
      (exec rt typeAlias.names (rewriteTypeAliasStmt typeAlias.toTypeAlias) s).2.vars)

/-- The names that are bound when one of the evaluations raises an exception, if one does. -/
def boundBeforeFailure (names : ScopeNames) :
    List (String × TypingCall (Expression σ V E)) → AliasState σ V → Option (List String)
  | [], _ => none
  | (target, call) :: rest, s =>
    match evalCall rt names call s.vars s.world with
    | (.ok v, w) =>
      (boundBeforeFailure names rest ⟨s.vars.insert (names.stored target) v, w⟩).map (target :: ·)
    | (.error _, _) => some []

/-- The evaluations of the statement: the type parameters, and the alias. -/
def evaluations {X : Type} (typeAlias : TypeAlias X) : List (String × TypingCall X) :=
  makeTypeParamInfo typeAlias.typeParams ++ [(typeAlias.name, aliasCall typeAlias)]

/-- A name is found where it is stored. The body of a class looks it up elsewhere if it is in the
namespace, or neither global nor in a cell. -/
def ReadsBack (names : ScopeNames) (vars : Variables V) (name : String) : Prop :=
  names.kind = .classScope →
    names.bindingKind name ≠ .localName ∧ vars.lookup (.classNamespace, name) = none

/-- The name of the alias is stored to its variable. No type parameter has this name, is bound
before, is found elsewhere or is read later by a function in the value. If an evaluation raises, no
other variable than that of the alias is bound yet. -/
def FrameSafe : Prop :=
  match boundBeforeFailure rt typeAlias.names (evaluations typeAlias.toTypeAlias) s with
  | some bound =>
    ∀ name ∈ bound, typeAlias.names.stored name = typeAlias.names.variableOf typeAlias.name
  | none =>
    typeAlias.names.stored typeAlias.name = typeAlias.names.variableOf typeAlias.name ∧
      typeAlias.name ∉ typeAlias.paramNames ∧
      ∀ name ∈ typeAlias.paramNames, s.vars.lookup (typeAlias.names.stored name) = none ∧
        ReadsBack typeAlias.names s.vars name ∧ name ∉ typeAlias.deferred

end Statements

/-! ## Evaluation -/

section Evaluation

variable {σ V E : Type}

theorem eval_bind {α β : Type} (x : ExceptT E (StateM σ) α) (f : α → ExceptT E (StateM σ) β)
    (w : σ) : (x >>= f) w =
      match x w with
      | (.ok a, w) => f a w
      | (.error exc, w) => (.error exc, w) := by
  show (ExceptT.bindCont f (x w).1 (x w).2 : Except E β × σ) = _
  obtain ⟨outcome, w₁⟩ := x w
  cases outcome with
  | ok a => rfl
  | error exc => rfl

variable {rt : TypingRuntime σ V E} {names : ScopeNames}

/-- What an assignment binds is a new object. -/
theorem evalCall_fresh {call : TypingCall (Expression σ V E)} {vars : Variables V}
    {w w' : σ} {v : V}
    (h : evalCall rt names call vars w = (.ok v, w')) :
    (∀ x, vars.lookup x ≠ some v) ∧ ∀ name, rt.builtins name ≠ some v := by
  unfold evalCall at h
  rw [eval_bind] at h
  cases harguments : evalArguments rt call (names.view rt.builtins vars) w with
  | mk outcome w₁ =>
    rw [harguments] at h
    cases outcome with
    | error exc => cases h
    | ok construction => exact rt.fresh construction vars w₁ v w' h

/-- An assignment changes its variable. -/
theorem insert_lookup_ne {call : TypingCall (Expression σ V E)} {vars : Variables V} {w w' : σ}
    {v : V} {x : Variable} (h : evalCall rt names call vars w = (.ok v, w')) :
    (vars.insert x v).lookup x ≠ vars.lookup x := by
  rw [AList.lookup_insert]
  exact ((evalCall_fresh h).1 x).symm

theorem mapM_loadName {params : List String} {objects : List V} {view : View V}
    (hlength : objects.length = params.length)
    (hobjects : ∀ (i : ℕ) (name : String), params[i]? = some name →
      view.direct name = objects[i]?) (w : σ) :
    params.mapM (fun name => loadName rt name view) w = (.ok objects, w) := by
  induction params generalizing objects with
  | nil =>
    rw [List.eq_nil_of_length_eq_zero hlength]
    rfl
  | cons name params ih =>
    cases objects with
    | nil => simp at hlength
    | cons object objects =>
      have hload : loadName rt name view w = (.ok object, w) := by
        unfold loadName
        rw [hobjects 0 name rfl]
        rfl
      have htail := ih (Nat.succ.inj hlength) fun i other hother => hobjects (i + 1) other hother
      rw [List.mapM_cons, eval_bind, hload]
      dsimp only
      rw [eval_bind, htail]
      rfl

/-- The call that makes the alias, where each type parameter is found. -/
theorem evalCall_alias {typeAlias : TypeAlias (Expression σ V E)} {objects : List V}
    {vars : Variables V} {w w' : σ} {object : V}
    (hlength : objects.length = typeAlias.paramNames.length)
    (hobjects : ∀ (i : ℕ) (name : String), typeAlias.paramNames[i]? = some name →
      names.load rt.builtins vars name = objects[i]?)
    (h : evalCall rt names (aliasCall typeAlias) vars w = (.ok object, w')) :
    ∃ value w₁, typeAlias.value (names.view rt.builtins vars) w = (.ok value, w₁) ∧
      rt.construct (.typeAliasType typeAlias.name value
        (if typeAlias.typeParams = [] then none else some objects)) vars w₁ =
          (.ok object, w') := by
  unfold evalCall evalArguments aliasCall at h
  dsimp only at h
  rw [eval_bind, eval_bind] at h
  cases hvalue : typeAlias.value (names.view rt.builtins vars) w with
  | mk outcome w₁ =>
    rw [hvalue] at h
    cases outcome with
    | error exc => cases h
    | ok value =>
      refine ⟨value, w₁, rfl, ?_⟩
      by_cases hnil : typeAlias.typeParams = []
      · rw [if_pos hnil] at h ⊢
        exact h
      · rw [if_neg hnil] at h ⊢
        dsimp only at h
        rw [eval_bind, show typeAlias.typeParams.map TypeParam.name = typeAlias.paramNames from rfl,
          mapM_loadName hlength hobjects] at h
        exact h

end Evaluation

/-! ## Names and their variables -/

section Names

variable {V : Type} {names : ScopeNames} {name : String}

theorem stored_inj {other : String} (h : names.stored name = names.stored other) :
    name = other := congrArg Prod.snd h

theorem mem_map_stored {params : List String} :
    names.stored name ∈ params.map names.stored ↔ name ∈ params :=
  List.mem_map_of_injective fun _ _ => stored_inj

/-- A type parameter of a class body is stored in the frame or globally. -/
theorem stored_typeParam (hplain : isInternalSymbol name = false)
    (hcollected : names.kind = .classScope → name ∈ names.typeParamNames) :
    names.stored name =
      match names.bindingKind name with
      | .global => (.moduleGlobal, name)
      | .localName | .cell _ => (.localName, name) := by
  unfold ScopeNames.stored ScopeNames.effectiveBinding deriveEffectiveBindingForName
  rw [hplain]
  by_cases hkind : names.kind = .classScope
  · simp only [hkind, hcollected hkind, and_self, if_true, Bool.false_eq_true, if_false]
    cases names.bindingKind name <;> rfl
  · simp only [hkind, false_and, Bool.false_eq_true, if_false]
    cases hk : names.kind <;> cases names.bindingKind name <;> first | rfl | exact absurd hk hkind

section Loads

variable (builtins : String → Option V) {vars : Variables V}
  (hplain : isInternalSymbol name = false)
  (hcollected : names.kind = .classScope → name ∈ names.typeParamNames)
include hplain hcollected

/-- What a function inside finds under a name that reads back. -/
theorem innerLoad_eq (hreads : ReadsBack names vars name) (after : Variables V) :
    names.innerLoad builtins after name = after.lookup (names.stored name) ∨
      names.innerLoad builtins after name =
        (after.lookup (names.stored name) <|> builtins name) := by
  rw [stored_typeParam hplain hcollected]
  unfold ScopeNames.innerLoad
  cases hbinding : names.bindingKind name with
  | localName => exact .inl (if_neg fun hkind => (hreads hkind).1 hbinding)
  | global => exact .inr rfl
  | cell kind => exact .inl rfl

/-- A name that reads back is found, also by functions inside. -/
theorem view_of_readsBack (hreads : ReadsBack names vars name) {v : V}
    (hstored : vars.lookup (names.stored name) = some v) :
    (names.view builtins vars).direct name = some v ∧
      (names.view builtins vars).inner name = some v := by
  refine ⟨?_, ?_⟩
  · show names.load builtins vars name = some v
    rw [stored_typeParam hplain hcollected] at hstored
    unfold ScopeNames.load ScopeNames.effectiveBinding deriveEffectiveBindingForName
    rw [hplain]
    by_cases hkind : names.kind = .classScope
    · obtain ⟨hbinding, hnone⟩ := hreads hkind
      cases hk : names.bindingKind name with
      | localName => exact absurd hk hbinding
      | global =>
        rw [hk] at hstored
        simp [hkind, hnone, hstored]
      | cell kind =>
        rw [hk] at hstored
        simp [hkind, hnone, hstored]
    · cases hb : names.bindingKind name <;> rw [hb] at hstored <;>
        cases hk : names.kind <;> simp_all
  · rcases innerLoad_eq builtins hplain hcollected hreads vars with h | h
    · exact h.trans hstored
    · exact h.trans (by rw [hstored]; rfl)

/-- A name under which a new object is found reads back. -/
theorem readsBack_of_load {v : V} (hnew : ∀ target, (target, name) ≠ names.stored name →
      vars.lookup (target, name) ≠ some v) (hbuiltins : builtins name ≠ some v)
    (h : names.load builtins vars name = some v) : ReadsBack names vars name := by
  intro hkind
  rw [stored_typeParam hplain hcollected] at hnew
  unfold ScopeNames.load ScopeNames.effectiveBinding deriveEffectiveBindingForName at h
  rw [hplain, hkind] at h
  have hnamespace : vars.lookup (.classNamespace, name) ≠ some v :=
    hnew .classNamespace (by cases names.bindingKind name <;> simp)
  cases hlookup : vars.lookup (.classNamespace, name) with
  | some u =>
    rw [hlookup] at hnamespace
    cases hb : names.bindingKind name <;> simp_all
  | none =>
    refine ⟨fun hb => ?_, rfl⟩
    have hglobal : vars.lookup (.moduleGlobal, name) ≠ some v := hnew .moduleGlobal (by simp [hb])
    cases hg : vars.lookup (.moduleGlobal, name) <;> simp_all

end Loads

end Names

/-! ## Assignments and deletions -/

section Execution

variable {σ V E : Type} (rt : TypingRuntime σ V E) (names : ScopeNames)

theorem exec_append (first second : List (AliasStmt (Expression σ V E))) (s : AliasState σ V) :
    exec rt names (first ++ second) s =
      match exec rt names first s with
      | (.ok _, s) => exec rt names second s
      | (.error exc, s) => (.error exc, s) := by
  induction first generalizing s with
  | nil => rfl
  | cons stmt first ih =>
    rw [List.cons_append, exec, exec]
    obtain ⟨outcome, s₁⟩ := execStmt rt names stmt s
    cases outcome with
    | ok _ => exact ih s₁
    | error exc => rfl

abbrev assignAll (bindings : List (String × TypingCall (Expression σ V E))) :
    List (AliasStmt (Expression σ V E)) :=
  bindings.map fun binding => .assign binding.1 binding.2

/-- The variables of the targets hold objects that were nowhere before, and no other variable has
changed. -/
structure Bound (targets : List String) (vars : Variables V) (objects : List V)
    (after : Variables V) : Prop where
  length : objects.length = targets.length
  lookup : ∀ (i : ℕ) (name : String), targets[i]? = some name →
    after.lookup (names.stored name) = objects[i]?
  changed : ∀ name ∈ targets,
    after.lookup (names.stored name) ≠ vars.lookup (names.stored name)
  new : ∀ v ∈ objects, (∀ x, x ∉ targets.map names.stored → vars.lookup x ≠ some v) ∧
    ∀ name, rt.builtins name ≠ some v
  kept : ∀ x, x ∉ targets.map names.stored → after.lookup x = vars.lookup x

/-- One more assignment in front. -/
theorem Bound.cons {target : String} {rest : List String} {call : TypingCall (Expression σ V E)}
    {vars after : Variables V} {w w' : σ} {v : V} {objects : List V}
    (hcall : evalCall rt names call vars w = (.ok v, w')) (htarget : target ∉ rest)
    (h : Bound rt names rest (vars.insert (names.stored target) v) objects after) :
    Bound rt names (target :: rest) vars (v :: objects) after where
  length := by rw [List.length_cons, h.length, List.length_cons]
  lookup := by
    intro i name hname
    cases i with
    | zero =>
      obtain rfl := Option.some.inj hname
      rw [h.kept _ fun hmem => htarget (mem_map_stored.mp hmem)]
      exact AList.lookup_insert _
    | succ i => exact h.lookup i name hname
  changed := by
    intro name hname
    rcases List.mem_cons.mp hname with rfl | hmem
    · rw [h.kept _ fun hmem => htarget (mem_map_stored.mp hmem)]
      exact insert_lookup_ne hcall
    · have hsame : (vars.insert (names.stored target) v).lookup (names.stored name) =
          vars.lookup (names.stored name) :=
        AList.lookup_insert_ne fun heq => htarget (stored_inj heq ▸ hmem)
      rw [← hsame]
      exact h.changed name hmem
  new := by
    intro u hu
    rcases List.mem_cons.mp hu with rfl | hmem
    · exact ⟨fun x _ => (evalCall_fresh hcall).1 x, (evalCall_fresh hcall).2⟩
    · refine ⟨fun x hx => ?_, (h.new u hmem).2⟩
      rw [List.map_cons, List.mem_cons, not_or] at hx
      have hsame : (vars.insert (names.stored target) v).lookup x = vars.lookup x :=
        AList.lookup_insert_ne hx.1
      rw [← hsame]
      exact (h.new u hmem).1 x hx.2
  kept := by
    intro x hx
    rw [List.map_cons, List.mem_cons, not_or] at hx
    rw [h.kept x hx.2, AList.lookup_insert_ne hx.1]

/-- All assignments succeed: the targets hold the new objects. -/
theorem exec_assigns_ok {bindings : List (String × TypingCall (Expression σ V E))}
    {s : AliasState σ V} (hnodup : (bindings.map Prod.fst).Nodup)
    (h : boundBeforeFailure rt names bindings s = none) :
    ∃ (objects : List V) (s' : AliasState σ V),
      exec rt names (assignAll bindings) s = (.ok (), s') ∧
      bindAll rt names bindings s = some (objects, s') ∧
      Bound rt names (bindings.map Prod.fst) s.vars objects s'.vars := by
  induction bindings generalizing s with
  | nil =>
    exact ⟨[], s, rfl, rfl, rfl, fun i name hname => (by simp at hname),
      fun name hname => absurd hname List.not_mem_nil, fun v hv => absurd hv List.not_mem_nil,
      fun x _ => rfl⟩
  | cons binding rest ih =>
    obtain ⟨target, call⟩ := binding
    rw [boundBeforeFailure] at h
    cases hcall : evalCall rt names call s.vars s.world with
    | mk outcome w =>
      rw [hcall] at h
      cases outcome with
      | error exc => cases h
      | ok v =>
        obtain ⟨htarget, hrest⟩ := List.nodup_cons.mp hnodup
        obtain ⟨objects, s', hexec, hbind, hbound⟩ := ih hrest (Option.map_eq_none_iff.mp h)
        refine ⟨v :: objects, s', ?_, ?_, hbound.cons rt names hcall htarget⟩
        · rw [assignAll, List.map_cons, exec, execStmt, hcall]
          exact hexec
        · rw [bindAll, hcall]
          dsimp only
          rw [hbind]
          rfl

/-- An assignment fails: the variables that were bound before have changed. -/
theorem exec_assigns_error {bindings : List (String × TypingCall (Expression σ V E))}
    {s : AliasState σ V} (hnodup : (bindings.map Prod.fst).Nodup) {bound : List String}
    (h : boundBeforeFailure rt names bindings s = some bound) :
    ∃ (exc : E) (s' : AliasState σ V), exec rt names (assignAll bindings) s = (.error exc, s') ∧
      (∀ name ∈ bound, name ∈ bindings.map Prod.fst ∧
        s'.vars.lookup (names.stored name) ≠ s.vars.lookup (names.stored name)) ∧
      ∀ x, x ∉ bound.map names.stored → s'.vars.lookup x = s.vars.lookup x := by
  induction bindings generalizing s bound with
  | nil => cases h
  | cons binding rest ih =>
    obtain ⟨target, call⟩ := binding
    rw [boundBeforeFailure] at h
    cases hcall : evalCall rt names call s.vars s.world with
    | mk outcome w =>
      rw [hcall] at h
      cases outcome with
      | error exc =>
        obtain rfl := Option.some.inj h
        refine ⟨exc, ⟨s.vars, w⟩, ?_, fun name hname => absurd hname List.not_mem_nil,
          fun x _ => rfl⟩
        rw [assignAll, List.map_cons, exec, execStmt, hcall]
      | ok v =>
        obtain ⟨htarget, hrest⟩ := List.nodup_cons.mp hnodup
        obtain ⟨later, hlater, rfl⟩ := Option.map_eq_some_iff.mp h
        obtain ⟨exc, s', hexec, hchanged, hothers⟩ := ih hrest hlater
        have hnotLater : names.stored target ∉ later.map names.stored :=
          fun hmem => htarget (hchanged target (mem_map_stored.mp hmem)).1
        refine ⟨exc, s', ?_, ?_, ?_⟩
        · rw [assignAll, List.map_cons, exec, execStmt, hcall]
          exact hexec
        · intro name hname
          rcases List.mem_cons.mp hname with rfl | hmem
          · refine ⟨List.mem_cons_self, ?_⟩
            rw [hothers _ hnotLater]
            exact insert_lookup_ne hcall
          · obtain ⟨htargets, hne⟩ := hchanged name hmem
            refine ⟨List.mem_cons_of_mem _ htargets, ?_⟩
            have hsame : (s.vars.insert (names.stored target) v).lookup (names.stored name) =
                s.vars.lookup (names.stored name) :=
              AList.lookup_insert_ne fun heq => htarget (stored_inj heq ▸ htargets)
            rw [← hsame]
            exact hne
        · intro x hx
          rw [List.map_cons, List.mem_cons, not_or] at hx
          rw [hothers x hx.2, AList.lookup_insert_ne hx.1]

theorem execStmt_del {name : String} {s : AliasState σ V}
    (h : (s.vars.lookup (names.stored name)).isSome) :
    execStmt rt names (.del name) s =
      (.ok (), ⟨s.vars.erase (names.stored name), s.world⟩) := by
  rw [execStmt]
  split
  · rfl
  · exact if_pos h

/-- The deletions unbind their variables. -/
theorem exec_dels {params : List String} {s : AliasState σ V} (hnodup : params.Nodup)
    (hbound : ∀ name ∈ params, (s.vars.lookup (names.stored name)).isSome) :
    ∃ s' : AliasState σ V, exec rt names (params.map .del) s = (.ok (), s') ∧
      (∀ name ∈ params, s'.vars.lookup (names.stored name) = none) ∧
      ∀ x, x ∉ params.map names.stored → s'.vars.lookup x = s.vars.lookup x := by
  induction params generalizing s with
  | nil => exact ⟨s, rfl, fun name hname => absurd hname List.not_mem_nil, fun x _ => rfl⟩
  | cons first rest ih =>
    obtain ⟨hfirst, hrest⟩ := List.nodup_cons.mp hnodup
    have hkept : ∀ x, x ≠ names.stored first →
        (s.vars.erase (names.stored first)).lookup x = s.vars.lookup x :=
      fun x hne => AList.lookup_erase_ne hne
    obtain ⟨s', hexec, hnone, hothers⟩ := ih (s := ⟨s.vars.erase (names.stored first), s.world⟩)
      hrest fun name hname => by
        have hne : names.stored name ≠ names.stored first :=
          fun heq => hfirst (stored_inj heq ▸ hname)
        show ((s.vars.erase (names.stored first)).lookup (names.stored name)).isSome
        rw [hkept _ hne]
        exact hbound name (List.mem_cons_of_mem _ hname)
    refine ⟨s', ?_, ?_, ?_⟩
    · rw [List.map_cons, exec, execStmt_del rt names (hbound first List.mem_cons_self)]
      exact hexec
    · intro name hname
      rcases List.mem_cons.mp hname with rfl | hmem
      · rw [hothers _ fun hmem => hfirst (mem_map_stored.mp hmem)]
        exact AList.lookup_erase _ _
      · exact hnone name hmem
    · intro x hx
      rw [List.map_cons, List.mem_cons, not_or] at hx
      rw [hothers x hx.2]
      exact hkept x hx.1

/-- The evaluations behind assignments that succeed. -/
theorem boundBeforeFailure_append {first second : List (String × TypingCall (Expression σ V E))}
    {s s' : AliasState σ V} (h : boundBeforeFailure rt names first s = none)
    (hexec : exec rt names (assignAll first) s = (.ok (), s')) :
    boundBeforeFailure rt names (first ++ second) s =
      (boundBeforeFailure rt names second s').map (first.map Prod.fst ++ ·) := by
  induction first generalizing s with
  | nil =>
    obtain rfl : s = s' := (Prod.mk.inj hexec).2
    simp
  | cons binding first ih =>
    obtain ⟨target, call⟩ := binding
    rw [boundBeforeFailure] at h
    rw [assignAll, List.map_cons, exec, execStmt] at hexec
    rw [List.cons_append, boundBeforeFailure]
    cases hcall : evalCall rt names call s.vars s.world with
    | mk outcome w =>
      rw [hcall] at h hexec
      cases outcome with
      | error exc => cases h
      | ok v =>
        dsimp only
        rw [ih (Option.map_eq_none_iff.mp h) hexec, Option.map_map]
        rfl

theorem boundBeforeFailure_append_of_some
    {first second : List (String × TypingCall (Expression σ V E))} {s : AliasState σ V}
    {bound : List String} (h : boundBeforeFailure rt names first s = some bound) :
    boundBeforeFailure rt names (first ++ second) s = some bound := by
  induction first generalizing s bound with
  | nil => cases h
  | cons binding first ih =>
    obtain ⟨target, call⟩ := binding
    rw [boundBeforeFailure] at h
    rw [List.cons_append, boundBeforeFailure]
    generalize evalCall rt names call s.vars s.world = called at h ⊢
    obtain ⟨outcome, w⟩ := called
    cases outcome with
    | error exc => exact h
    | ok v =>
      obtain ⟨later, hlater, rfl⟩ := Option.map_eq_some_iff.mp h
      dsimp only
      rw [ih hlater]
      rfl

end Execution

/-! ## The statement -/

theorem makeTypeParamInfo_fst {X : Type} (typeParams : List (TypeParam X)) :
    (makeTypeParamInfo typeParams).map Prod.fst = typeParams.map TypeParam.name := by
  unfold makeTypeParamInfo
  rw [List.map_map]
  rfl

theorem variableOf_snd (names : ScopeNames) (name : String) : (names.variableOf name).2 = name := by
  unfold ScopeNames.variableOf
  split <;> rfl

section Statement

variable {σ V E : Type} (rt : TypingRuntime σ V E)
  (typeAlias : ScopedTypeAlias (Expression σ V E)) (s : AliasState σ V)

/-- An evaluation has raised an exception. -/
theorem keepsFrame_error_iff {exc : E} {s' : AliasState σ V} {bound : List String}
    (hexec : exec rt typeAlias.names (rewriteTypeAliasStmt typeAlias.toTypeAlias) s =
      (.error exc, s'))
    (hchanged : ∀ name ∈ bound, s'.vars.lookup (typeAlias.names.stored name) ≠
      s.vars.lookup (typeAlias.names.stored name))
    (hkept : ∀ x, x ∉ bound.map typeAlias.names.stored → s'.vars.lookup x = s.vars.lookup x) :
    KeepsFrame rt typeAlias s ↔
      ∀ name ∈ bound, typeAlias.names.stored name = typeAlias.names.variableOf typeAlias.name := by
  unfold KeepsFrame
  rw [hexec]
  constructor
  · rintro ⟨hframe, -⟩ name hmem
    by_contra hne
    exact hchanged name hmem (hframe _ hne)
  · intro hsafe
    refine ⟨fun x hne => hkept x fun hmem => ?_, fun h => (by cases h)⟩
    obtain ⟨name, hname, rfl⟩ := List.mem_map.mp hmem
    exact hne (hsafe name hname)

/-- A run of the statement in which no evaluation raises: the state after the assignments of the
type parameters, the alias and the state at the end. -/
structure Finished (objects : List V) (s₁ : AliasState σ V) (object : V) (w : σ)
    (s' : AliasState σ V) : Prop where
  binds : bindAll rt typeAlias.names (makeTypeParamInfo typeAlias.typeParams) s =
    some (objects, s₁)
  params : Bound rt typeAlias.names typeAlias.paramNames s.vars objects s₁.vars
  call : evalCall rt typeAlias.names (aliasCall typeAlias.toTypeAlias) s₁.vars s₁.world =
    (.ok object, w)
  exec : exec rt typeAlias.names (rewriteTypeAliasStmt typeAlias.toTypeAlias) s = (.ok (), s')
  deleted : ∀ name ∈ typeAlias.paramNames, s'.vars.lookup (typeAlias.names.stored name) = none
  kept : ∀ x, x ∉ typeAlias.paramNames.map typeAlias.names.stored →
    s'.vars.lookup x = (s₁.vars.insert (typeAlias.names.stored typeAlias.name) object).lookup x

variable {rt typeAlias s}

theorem ScopedTypeAlias.plain_param {name : String} (h : name ∈ typeAlias.paramNames) :
    isInternalSymbol name = false := typeAlias.plain name (List.mem_cons_of_mem _ h)

theorem ScopedTypeAlias.collected_param {name : String} (h : name ∈ typeAlias.paramNames) :
    typeAlias.names.kind = .classScope → name ∈ typeAlias.names.typeParamNames :=
  fun hkind => typeAlias.collected hkind name h

/-- The variables of a type parameter other than the one it is stored to. -/
theorem notMem_stored_params (typeAlias : ScopedTypeAlias (Expression σ V E))
    {target : BindingTarget} {name : String} (h : (target, name) ≠ typeAlias.names.stored name) :
    (target, name) ∉ typeAlias.paramNames.map typeAlias.names.stored := by
  intro hmem
  obtain ⟨other, -, heq⟩ := List.mem_map.mp hmem
  obtain rfl : other = name := congrArg Prod.snd heq
  exact h heq.symm

section Finished

variable {objects : List V} {s₁ s' : AliasState σ V} {object : V} {w : σ}
  (h : Finished rt typeAlias s objects s₁ object w s')
include h

theorem Finished.object_of_mem {name : String} (hmem : name ∈ typeAlias.paramNames) :
    ∃ (i : ℕ) (v : V), typeAlias.paramNames[i]? = some name ∧ objects[i]? = some v ∧
      v ∈ objects := by
  obtain ⟨i, hi⟩ := List.getElem?_of_mem hmem
  have hlt : i < objects.length := h.params.length ▸ (List.getElem?_eq_some_iff.mp hi).1
  exact ⟨i, objects[i], hi, List.getElem?_eq_getElem hlt, List.getElem_mem hlt⟩

/-- The assignments store nothing in a namespace. -/
theorem Finished.readsBack_iff {name : String} (hmem : name ∈ typeAlias.paramNames) :
    ReadsBack typeAlias.names s₁.vars name ↔ ReadsBack typeAlias.names s.vars name := by
  have hne : (.classNamespace, name) ≠ typeAlias.names.stored name := by
    rw [stored_typeParam (ScopedTypeAlias.plain_param hmem) (ScopedTypeAlias.collected_param hmem)]
    cases typeAlias.names.bindingKind name <;> simp
  unfold ReadsBack
  rw [h.params.kept _ (notMem_stored_params typeAlias hne)]

theorem Finished.alias_stored (hbinds : BindsAlias rt typeAlias s s'.vars) :
    typeAlias.names.stored typeAlias.name = typeAlias.names.variableOf typeAlias.name := by
  obtain ⟨objects', s₂, _, object', _, _, hall, -, -, hconstruct, hlookup, -⟩ := hbinds
  obtain ⟨rfl, rfl⟩ := Prod.mk.inj (Option.some.inj (h.binds.symm.trans hall))
  by_contra hne
  have hvariable : typeAlias.names.variableOf typeAlias.name =
      ((typeAlias.names.variableOf typeAlias.name).1, typeAlias.name) :=
    Prod.ext rfl (variableOf_snd _ _)
  have hnot : typeAlias.names.variableOf typeAlias.name ∉
      typeAlias.paramNames.map typeAlias.names.stored := by
    rw [hvariable]
    exact notMem_stored_params typeAlias fun heq => hne (hvariable.trans heq).symm
  rw [h.kept _ hnot, AList.lookup_insert_ne (Ne.symm hne)] at hlookup
  exact (rt.fresh _ _ _ _ _ hconstruct).1 _ hlookup

/-- Everything that the frame and the alias ask for. -/
theorem Finished.safe_of_keepsFrame (hkeeps : KeepsFrame rt typeAlias s) :
    typeAlias.names.stored typeAlias.name = typeAlias.names.variableOf typeAlias.name ∧
      typeAlias.name ∉ typeAlias.paramNames ∧
      ∀ name ∈ typeAlias.paramNames, s.vars.lookup (typeAlias.names.stored name) = none ∧
        ReadsBack typeAlias.names s.vars name ∧ name ∉ typeAlias.deferred := by
  obtain ⟨hframe, hbinds⟩ := hkeeps
  rw [h.exec] at hframe hbinds
  have hbinds := hbinds rfl
  have hstored := h.alias_stored hbinds
  obtain ⟨objects', s₂, _, object', _, _, hall, hviews, -, -, hlookup, hdeferred⟩ := hbinds
  obtain ⟨rfl, rfl⟩ := Prod.mk.inj (Option.some.inj (h.binds.symm.trans hall))
  have hname : typeAlias.name ∉ typeAlias.paramNames := by
    intro hmem
    rw [← hstored, h.deleted _ hmem] at hlookup
    cases hlookup
  refine ⟨hstored, hname, fun name hmem => ?_⟩
  have hplain := ScopedTypeAlias.plain_param hmem
  have hcollected := ScopedTypeAlias.collected_param hmem
  obtain ⟨i, v, hi, hv, hobject⟩ := h.object_of_mem hmem
  have hne : typeAlias.names.stored name ≠ typeAlias.names.variableOf typeAlias.name :=
    fun heq => hname ((congrArg Prod.snd heq).trans (variableOf_snd _ _) ▸ hmem)
  have hreads : ReadsBack typeAlias.names s.vars name := by
    refine (h.readsBack_iff hmem).mp (readsBack_of_load rt.builtins hplain
      hcollected (fun target hother => ?_) ((h.params.new v hobject).2 name)
      ((hviews i name hi).1.trans hv))
    have hnot := notMem_stored_params typeAlias hother
    rw [h.params.kept _ hnot]
    exact (h.params.new v hobject).1 _ hnot
  refine ⟨(hframe _ hne).symm.trans (h.deleted name hmem), hreads, fun hlater => ?_⟩
  have hfound := (hdeferred i name hi hlater).trans hv
  rcases innerLoad_eq rt.builtins hplain hcollected hreads s'.vars with heq | heq
  · rw [heq, h.deleted name hmem] at hfound
    cases hfound
  · rw [heq, h.deleted name hmem] at hfound
    exact (h.params.new v hobject).2 name hfound

theorem Finished.keepsFrame
    (hstored : typeAlias.names.stored typeAlias.name = typeAlias.names.variableOf typeAlias.name)
    (hname : typeAlias.name ∉ typeAlias.paramNames)
    (hsafe : ∀ name ∈ typeAlias.paramNames, s.vars.lookup (typeAlias.names.stored name) = none ∧
      ReadsBack typeAlias.names s.vars name ∧ name ∉ typeAlias.deferred) :
    KeepsFrame rt typeAlias s := by
  have hviews : ∀ (i : ℕ) (name : String), typeAlias.paramNames[i]? = some name →
      (typeAlias.names.view rt.builtins s₁.vars).direct name = objects[i]? ∧
        (typeAlias.names.view rt.builtins s₁.vars).inner name = objects[i]? := by
    intro i name hi
    have hmem := List.mem_of_getElem? hi
    have hlt : i < objects.length := h.params.length ▸ (List.getElem?_eq_some_iff.mp hi).1
    have hobject := List.getElem?_eq_getElem hlt
    rw [hobject]
    exact view_of_readsBack rt.builtins (ScopedTypeAlias.plain_param hmem)
      (ScopedTypeAlias.collected_param hmem) ((h.readsBack_iff hmem).mpr (hsafe name hmem).2.1)
      ((h.params.lookup i name hi).trans hobject)
  unfold KeepsFrame
  rw [h.exec]
  refine ⟨fun x hne => ?_, fun _ => ?_⟩
  · by_cases hmem : x ∈ typeAlias.paramNames.map typeAlias.names.stored
    · obtain ⟨name, hparam, rfl⟩ := List.mem_map.mp hmem
      rw [h.deleted name hparam, (hsafe name hparam).1]
    · rw [h.kept x hmem, AList.lookup_insert_ne (hstored ▸ hne), h.params.kept x hmem]
  · obtain ⟨value, w₁, hvalue, hconstruct⟩ := evalCall_alias h.params.length
      (fun i name hi => (hviews i name hi).1) h.call
    refine ⟨objects, s₁, value, object, w₁, w, h.binds, hviews, hvalue, hconstruct, ?_,
      fun i name hi hlater => absurd hlater (hsafe name (List.mem_of_getElem? hi)).2.2⟩
    rw [← hstored, h.kept _ fun hmem => hname (mem_map_stored.mp hmem)]
    exact AList.lookup_insert _

end Finished

variable (rt typeAlias s)

/-- The deletions end a run in which no evaluation raises. -/
theorem finished_of_ok {objects : List V} {s₁ : AliasState σ V} {object : V} {w : σ}
    (hexec : exec rt typeAlias.names (assignAll (makeTypeParamInfo typeAlias.typeParams)) s =
      (.ok (), s₁))
    (hbinds : bindAll rt typeAlias.names (makeTypeParamInfo typeAlias.typeParams) s =
      some (objects, s₁))
    (hparams : Bound rt typeAlias.names typeAlias.paramNames s.vars objects s₁.vars)
    (hcall : evalCall rt typeAlias.names (aliasCall typeAlias.toTypeAlias) s₁.vars s₁.world =
      (.ok object, w)) :
    ∃ s', Finished rt typeAlias s objects s₁ object w s' := by
  have hbound : ∀ name ∈ typeAlias.paramNames,
      ((s₁.vars.insert (typeAlias.names.stored typeAlias.name) object).lookup
        (typeAlias.names.stored name)).isSome := by
    intro name hmem
    by_cases heq : typeAlias.names.stored name = typeAlias.names.stored typeAlias.name
    · rw [heq, AList.lookup_insert]
      rfl
    · obtain ⟨i, hi⟩ := List.getElem?_of_mem hmem
      have hlt : i < objects.length := hparams.length ▸ (List.getElem?_eq_some_iff.mp hi).1
      rw [AList.lookup_insert_ne heq, hparams.lookup i name hi, List.getElem?_eq_getElem hlt]
      rfl
  obtain ⟨s', hdels, hnone, hkept⟩ := exec_dels rt typeAlias.names typeAlias.nodup
    (s := ⟨s₁.vars.insert (typeAlias.names.stored typeAlias.name) object, w⟩) hbound
  refine ⟨s', hbinds, hparams, hcall, ?_, hnone, hkept⟩
  have hrewrite : rewriteTypeAliasStmt typeAlias.toTypeAlias =
      assignAll (makeTypeParamInfo typeAlias.typeParams) ++
        .assign typeAlias.name (aliasCall typeAlias.toTypeAlias) ::
          (typeAlias.typeParams.map TypeParam.name).map .del := rfl
  rw [hrewrite, exec_append, hexec]
  dsimp only
  rw [exec, execStmt, hcall]
  exact hdels

/-- The statement binds the alias and keeps its frame exactly if it is safe. -/
theorem keepsFrame_iff : KeepsFrame rt typeAlias s ↔ FrameSafe rt typeAlias s := by
  have hfst : (makeTypeParamInfo typeAlias.typeParams).map Prod.fst = typeAlias.paramNames :=
    makeTypeParamInfo_fst typeAlias.typeParams
  have hnodup : ((makeTypeParamInfo typeAlias.typeParams).map Prod.fst).Nodup :=
    hfst ▸ typeAlias.nodup
  have hrewrite : rewriteTypeAliasStmt typeAlias.toTypeAlias =
      assignAll (makeTypeParamInfo typeAlias.typeParams) ++
        .assign typeAlias.name (aliasCall typeAlias.toTypeAlias) ::
          typeAlias.paramNames.map .del := rfl
  unfold FrameSafe
  cases hfails : boundBeforeFailure rt typeAlias.names
      (makeTypeParamInfo typeAlias.typeParams) s with
  | some bound =>
    obtain ⟨exc, s', hexec, hchanged, hothers⟩ :=
      exec_assigns_error rt typeAlias.names hnodup hfails
    rw [evaluations, boundBeforeFailure_append_of_some rt typeAlias.names hfails]
    have hrun : exec rt typeAlias.names (rewriteTypeAliasStmt typeAlias.toTypeAlias) s =
        (.error exc, s') := by
      rw [hrewrite, exec_append, hexec]
    exact keepsFrame_error_iff rt typeAlias s hrun (fun name hmem => (hchanged name hmem).2)
      hothers
  | none =>
    obtain ⟨objects, s₁, hexec, hbinds, hparams⟩ :=
      exec_assigns_ok rt typeAlias.names hnodup hfails
    rw [hfst] at hparams
    rw [evaluations, boundBeforeFailure_append rt typeAlias.names hfails hexec, hfst,
      boundBeforeFailure]
    cases hcall : evalCall rt typeAlias.names (aliasCall typeAlias.toTypeAlias) s₁.vars
        s₁.world with
    | mk outcome w =>
      cases outcome with
      | error exc =>
        simp only [Option.map_some, List.append_nil]
        have hrun : exec rt typeAlias.names (rewriteTypeAliasStmt typeAlias.toTypeAlias) s =
            (.error exc, ⟨s₁.vars, w⟩) := by
          rw [hrewrite, exec_append, hexec]
          dsimp only
          rw [exec, execStmt, hcall]
        exact keepsFrame_error_iff rt typeAlias s hrun hparams.changed hparams.kept
      | ok object =>
        simp only [boundBeforeFailure, Option.map_none]
        obtain ⟨s', hfinished⟩ := finished_of_ok rt typeAlias s hexec hbinds hparams hcall
        exact ⟨hfinished.safe_of_keepsFrame,
          fun hsafe => hfinished.keepsFrame hsafe.1 hsafe.2.1 hsafe.2.2⟩

end Statement

/-! ## A variable with the name of a type parameter -/

/-- A number that no variable holds. -/
def freshNumber (vars : Variables ℕ) : ℕ := vars.entries.foldr (fun entry n => entry.2 + n) 1

theorem lt_freshNumber {vars : Variables ℕ} {entry : Sigma fun _ : Variable => ℕ}
    (h : entry ∈ vars.entries) : entry.2 < freshNumber vars := by
  unfold freshNumber
  generalize vars.entries = entries at h
  induction entries with
  | nil => cases h
  | cons first entries ih =>
    rw [List.foldr_cons]
    rcases List.mem_cons.mp h with rfl | hmem
    · have hpos : ∀ l : List (Sigma fun _ : Variable => ℕ),
          0 < l.foldr (fun entry n => entry.2 + n) 1 := by
        intro l
        induction l with
        | nil => exact Nat.one_pos
        | cons last l ih => exact Nat.add_pos_right _ ih
      have h := hpos entries
      omega
    · have h := ih hmem
      omega

theorem lookup_ne_freshNumber (vars : Variables ℕ) (x : Variable) :
    vars.lookup x ≠ some (freshNumber vars) := by
  intro h
  have hmem : (⟨x, freshNumber vars⟩ : Sigma fun _ : Variable => ℕ) ∈ vars.entries :=
    AList.mem_lookup_iff.mp h
  exact Nat.lt_irrefl _ (lt_freshNumber hmem)

/-- Objects are numbers. -/
def numbers : TypingRuntime Unit ℕ String where
  none := 0
  tuple _ := 0
  builtins _ := Option.none
  nameError name := name
  construct _ vars := pure (freshNumber vars)
  fresh _ vars w v w' h := by
    have hv := (Except.ok.inj (Prod.mk.inj h).1).symm
    rw [hv]
    exact ⟨lookup_ne_freshNumber vars, fun _ => nofun⟩

/-- `type X[T] = T` in a function. -/
def identityAlias : ScopedTypeAlias (Expression Unit ℕ String) where
  name := "X"
  typeParams := [.typeVar "T" none none]
  value := loadName numbers "T"
  deferred := []
  nodup := by decide
  names := ⟨.functionScope, fun _ => .localName, ["T"]⟩
  collected h := by cases h
  plain := by decide

/-- A variable `T` of the enclosing scope is unbound after it. -/
theorem identityAlias_unbinds :
    let s : AliasState Unit ℕ := ⟨(∅ : Variables ℕ).insert (.localName, "T") 7, ()⟩
    let after := (exec numbers identityAlias.names
      (rewriteTypeAliasStmt identityAlias.toTypeAlias) s).2
    s.vars.lookup (.localName, "T") = some 7 ∧ after.vars.lookup (.localName, "T") = none ∧
      ¬ KeepsFrame numbers identityAlias s := by
  intro s after
  have hbefore : s.vars.lookup (.localName, "T") = some 7 := by decide
  have hafter : after.vars.lookup (.localName, "T") = none := by decide +kernel
  refine ⟨hbefore, hafter, fun h => ?_⟩
  have hsame := h.1 (.localName, "T") (by decide)
  exact absurd (hafter.symm.trans (hsame.trans hbefore)) nofun

end DietPython.TypeAliases
