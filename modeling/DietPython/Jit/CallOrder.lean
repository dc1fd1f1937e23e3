import DietPython.Jit.CallSite

/-!
# Events and errors of a call

`World` answers the events of one call: the evaluation of an operand, the iteration of a `*`
operand, the reading of a `**` operand, what argument building asks of foreign objects, and the
call itself. A call in the language never asks anything of a helper object and never misses a
helper name; generated code never refuses a keyword. These bounds tell the two apart.
-/

namespace DietPython.Jit

open LoggedComputations
open Logged

universe u

variable {V : Type u} {E : Type*}

/-! ## The environment of one call -/

/-- What one call does visibly. Operands are numbered. -/
inductive CallEvent (V : Type u)
  | evaluate (operand : ℕ)
  | iterate (value : V)
  | readMapping (value : V)
  | readPairs (value : V)
  | helper (op : HelperOp V)
  | call (f : V) (args : Seq V) (kwargs : Option (Kw V))

inductive CallError (V : Type u) (E : Type*)
  | raised (exc : E)
  | nameError (name : String)
  | multipleValues (key : V)
  | notMapping (value : V)

/-- An environment: the builtin objects, and an answer to every event after every history. -/
structure World (V : Type u) (E : Type*) where
  listType : V
  dictType : V
  tupleType : V
  tupleFromIter : V
  str : String → V
  str_injective : Function.Injective str
  isMapping : V → Bool
  lookup : List (CallEvent V) → String → Option V
  evaluate : List (CallEvent V) → ℕ → Except E V
  iterate : List (CallEvent V) → V → Except E (List V)
  readMapping : List (CallEvent V) → V → Except E (List (V × V))
  readPairs : List (CallEvent V) → V → Except E (List (V × V))
  helper : List (CallEvent V) → HelperOp V → Except E V
  call : List (CallEvent V) → V → Seq V → Option (Kw V) → Except E V

namespace World

variable (w : World V E)

/-- An event whose answer may be an exception of the program. -/
def ask {α : Type u} (ev : CallEvent V) (answer : List (CallEvent V) → Except E α) :
    Logged (CallEvent V) (CallError V E) α :=
  observe ev fun l => (answer l).mapError .raised

/-- Evaluating an operand. -/
def operand (i : ℕ) : Logged (CallEvent V) (CallError V E) V :=
  ask (.evaluate i) fun l => w.evaluate l i

def loadGlobal (name : String) : Logged (CallEvent V) (CallError V E) V :=
  peek fun l =>
    match w.lookup l name with
    | some v => .ok v
    | none => .error (.nameError name)

/-- The runtime of a call in this environment. -/
def runtime : Runtime (CallEvent V) (CallError V E) V where
  listType := w.listType
  dictType := w.dictType
  tupleType := w.tupleType
  tupleFromIter := w.tupleFromIter
  str := w.str
  str_injective := w.str_injective
  isMapping := w.isMapping
  loadGlobal := w.loadGlobal
  iterate v := ask (.iterate v) fun l => w.iterate l v
  readMapping v := ask (.readMapping v) fun l => w.readMapping l v
  readPairs v := ask (.readPairs v) fun l => w.readPairs l v
  helper op := ask (.helper op) fun l => w.helper l op
  call f args kwargs := ask (.call f args kwargs) fun l => w.call l f args kwargs
  multipleValues := .multipleValues
  notMapping := .notMapping

theorem loadGlobal_of_some {l : List (CallEvent V)} {name : String} {v : V}
    (h : w.lookup l name = some v) : w.runtime.loadGlobal name l = (.ok v, l) := by
  simp [runtime, loadGlobal, h]

theorem loadGlobal_of_none {l : List (CallEvent V)} {name : String}
    (h : w.lookup l name = none) :
    w.runtime.loadGlobal name l = (.error (.nameError name), l) := by
  simp [runtime, loadGlobal, h]

end World

/-! ## What each side never does -/

/-- The events of a call in the language: argument building leaves no trace. -/
def PyEvent : CallEvent V → Prop
  | .helper _ => False
  | _ => True

/-- The errors of a call in the language: no helper name is looked up. -/
def PyError : CallError V E → Prop
  | .nameError _ => False
  | _ => True

def AnyEvent : CallEvent V → Prop := fun _ => True

/-- The errors of generated code: keywords are never refused. -/
def EmitError : CallError V E → Prop
  | .multipleValues _ | .notMapping _ => False
  | _ => True

section Bounds

variable {α : Type u}

theorem eq_raised_of_mapError {r : Except E α} {e : CallError V E}
    (h : r.mapError CallError.raised = .error e) : ∃ exc, e = .raised exc := by
  cases r with
  | ok v => simp [Except.mapError] at h
  | error exc =>
    simp only [Except.mapError, Except.error.injEq] at h
    exact ⟨exc, h.symm⟩

theorem within_ask {S : CallEvent V → Prop} {T : CallError V E → Prop} {ev : CallEvent V}
    (hS : S ev) (hT : ∀ exc, T (.raised exc)) (answer : List (CallEvent V) → Except E α) :
    Within S T (World.ask ev answer) := by
  refine Within.observe hS fun l e he => ?_
  obtain ⟨exc, rfl⟩ := eq_raised_of_mapError he
  exact hT exc

end Bounds

section Within

variable (w : World V E)

theorem within_operand {S : CallEvent V → Prop} {T : CallError V E → Prop}
    (hS : ∀ i, S (.evaluate i)) (hT : ∀ exc, T (.raised exc)) (i : ℕ) :
    Within S T (w.operand i) := within_ask (hS i) hT _

theorem within_call {S : CallEvent V → Prop} {T : CallError V E → Prop}
    (hS : ∀ f args kwargs, S (.call f args kwargs)) (hT : ∀ exc, T (.raised exc)) (f : V)
    (args : Seq V) (kwargs : Option (Kw V)) : Within S T (w.runtime.call f args kwargs) :=
  within_ask (hS f args kwargs) hT _

theorem within_helper (op : HelperOp V) :
    Within (AnyEvent) (EmitError (E := E)) (w.runtime.helper op) :=
  within_ask trivial (fun _ => trivial) _

theorem within_loadGlobal (name : String) :
    Within (AnyEvent) EmitError (w.runtime.loadGlobal name) := by
  refine .peek fun l e he => ?_
  cases hr : w.lookup l name with
  | some v => simp [hr] at he
  | none =>
    simp only [hr, Except.error.injEq] at he
    rw [← he]
    trivial

theorem within_pyPositionals (args : List (PosArg ℕ)) :
    Within PyEvent PyError (pyPositionals w.runtime (args.map (PosArg.map w.operand))) := by
  induction args with
  | nil => exact .pure []
  | cons arg rest ih =>
    cases arg with
    | positional i =>
      exact .bind (within_operand w (fun _ => trivial) (fun _ => trivial) i) fun v =>
        .bind (.pure [v]) fun _ => .bind ih fun _ => .pure _
    | starred i =>
      exact .bind (within_operand w (fun _ => trivial) (fun _ => trivial) i) fun v =>
        .bind (within_ask trivial (fun _ => trivial) _) fun _ => .bind ih fun _ => .pure _

variable [DecidableEq V]

theorem within_pyMerge (acc new : List (V × V)) :
    Within PyEvent PyError (pyMerge w.runtime acc new) := by
  induction new generalizing acc with
  | nil => exact .pure acc
  | cons kv rest ih =>
    unfold pyMerge
    split_ifs
    · exact .raise trivial
    · exact ih _

theorem within_pyMergeMapping (acc : List (V × V)) (v : V) :
    Within PyEvent PyError (pyMergeMapping w.runtime acc v) := by
  unfold pyMergeMapping
  split_ifs
  · exact .bind (within_ask trivial (fun _ => trivial) _) fun items => within_pyMerge w acc items
  · exact .raise trivial

theorem within_pyKeywords (acc pending : List (V × V)) (keywords : List (KwArg ℕ)) :
    Within PyEvent PyError
      (pyKeywords w.runtime acc pending (keywords.map (KwArg.map w.operand))) := by
  induction keywords generalizing acc pending with
  | nil => exact within_pyMerge w acc pending
  | cons keyword rest ih =>
    cases keyword with
    | named arg i =>
      exact .bind (within_operand w (fun _ => trivial) (fun _ => trivial) i) fun v => ih _ _
    | starred i =>
      exact .bind (within_pyMerge w acc pending) fun acc => .bind
        (within_operand w (fun _ => trivial) (fun _ => trivial) i) fun v =>
          .bind (within_pyMergeMapping w acc v) fun acc => ih _ _

theorem within_pyKwargs (keywords : List (KwArg ℕ)) :
    Within PyEvent PyError (pyKwargs w.runtime (keywords.map (KwArg.map w.operand))) := by
  unfold pyKwargs
  split_ifs
  · exact .pure none
  · exact .bind (within_pyKeywords w [] [] keywords) fun _ => .pure _

end Within

/-! ## Bounds on generated code -/

section WithinEmit

variable (w : World V E)

variable [DecidableEq V]

theorem within_emitKeyword (d : Kw V) (keyword : KwArg ℕ) :
    Within AnyEvent EmitError (emitKeyword w.runtime d (keyword.map w.operand)) := by
  have hoperand : ∀ i, Within AnyEvent EmitError (w.operand i) :=
    within_operand w (fun _ => trivial) fun _ => trivial
  cases d with
  | native kvs =>
    cases keyword with
    | named arg i => exact .bind (hoperand i) fun _ => .pure _
    | starred i =>
      refine .bind (hoperand i) fun v => ?_
      dsimp only
      split_ifs
      · exact .bind (within_ask trivial (fun _ => trivial) _) fun _ => .pure _
      · exact .bind (within_ask trivial (fun _ => trivial) _) fun _ => .pure _
  | foreign o =>
    cases keyword with
    | named arg i => exact .bind (hoperand i) fun _ => .bind (within_helper w _) fun _ => .pure _
    | starred i =>
      exact .bind (within_helper w _) fun _ => .bind (hoperand i) fun _ =>
        .bind (within_helper w _) fun _ => .pure _

theorem within_emitKeywords (d : Kw V) (keywords : List (KwArg ℕ)) :
    Within AnyEvent EmitError
      (emitKeywords w.runtime d (keywords.map (KwArg.map w.operand))) := by
  induction keywords generalizing d with
  | nil => exact .pure d
  | cons keyword rest ih => exact .bind (within_emitKeyword w d keyword) ih

theorem within_makeTuple (f : V) (list : Seq V) :
    Within AnyEvent EmitError (makeTuple w.runtime f list) := by
  cases list with
  | native items =>
    unfold makeTuple
    split_ifs
    · exact .pure _
    · exact .bind (within_helper w _) fun _ => .pure _
  | foreign o => exact .bind (within_helper w _) fun _ => .pure _

end WithinEmit

/-! ## Keyword arguments -/

section Keywords

variable [DecidableEq V]

/-- Adding `new` to the keyword arguments `acc` repeats no key. -/
def Mergeable (acc new : List (V × V)) : Prop :=
  (new.map Prod.fst).Nodup ∧ ∀ key ∈ new.map Prod.fst, key ∉ acc.map Prod.fst

omit [DecidableEq V] in
theorem mergeable_nil (acc : List (V × V)) : Mergeable acc [] := by simp [Mergeable]

omit [DecidableEq V] in
theorem mergeable_cons {acc rest : List (V × V)} {kv : V × V} :
    Mergeable acc (kv :: rest) ↔
      kv.1 ∉ acc.map Prod.fst ∧ Mergeable (acc ++ [kv]) rest := by
  simp only [Mergeable, List.map_cons, List.nodup_cons, List.mem_cons, List.map_append,
    List.mem_append, List.map_nil, List.not_mem_nil, or_false, not_or]
  constructor
  · rintro ⟨⟨hnot, hnodup⟩, hall⟩
    refine ⟨hall _ (.inl rfl), hnodup, fun key hkey => ⟨hall key (.inr hkey), ?_⟩⟩
    rintro rfl
    exact hnot hkey
  · rintro ⟨hkv, hnodup, hall⟩
    refine ⟨⟨fun hmem => (hall _ hmem).2 rfl, hnodup⟩, fun key hkey => ?_⟩
    rcases hkey with rfl | hkey
    · exact hkv
    · exact (hall key hkey).1

omit [DecidableEq V] in
theorem mergeable_append_singleton {acc pending : List (V × V)} {kv : V × V} :
    Mergeable acc (pending ++ [kv]) ↔
      Mergeable acc pending ∧ kv.1 ∉ (acc ++ pending).map Prod.fst := by
  induction pending generalizing acc with
  | nil => simp [mergeable_cons, mergeable_nil]
  | cons head rest ih =>
    rw [List.cons_append, mergeable_cons, mergeable_cons, ih, and_assoc]
    simp

theorem dictInsert_of_not_mem {kvs : List (V × V)} {key : V} (h : key ∉ kvs.map Prod.fst)
    (value : V) : dictInsert kvs key value = kvs ++ [(key, value)] := if_neg h

theorem dictUpdate_of_mergeable {kvs items : List (V × V)} (h : Mergeable kvs items) :
    dictUpdate kvs items = kvs ++ items := by
  induction items generalizing kvs with
  | nil => simp [dictUpdate]
  | cons kv rest ih =>
    obtain ⟨hkv, hrest⟩ := mergeable_cons.mp h
    have hstep : dictUpdate kvs (kv :: rest) = dictUpdate (kvs ++ [kv]) rest := by
      rw [dictUpdate, List.foldl_cons, dictInsert_of_not_mem hkv]
      rfl
    rw [hstep, ih hrest, List.append_assoc]
    rfl

variable (w : World V E)

theorem pyMerge_of_mergeable {acc new : List (V × V)} (h : Mergeable acc new) :
    pyMerge w.runtime acc new = pure (acc ++ new) := by
  induction new generalizing acc with
  | nil => simp [pyMerge]
  | cons kv rest ih =>
    obtain ⟨hkv, hrest⟩ := mergeable_cons.mp h
    rw [pyMerge, if_neg hkv, ih hrest, List.append_assoc]
    rfl

theorem pyMerge_of_not_mergeable {acc new : List (V × V)} (h : ¬ Mergeable acc new) :
    ∃ key, pyMerge w.runtime acc new = raise (.multipleValues key) := by
  induction new generalizing acc with
  | nil => exact absurd (mergeable_nil acc) h
  | cons kv rest ih =>
    by_cases hkv : kv.1 ∈ acc.map Prod.fst
    · exact ⟨kv.1, by rw [pyMerge, if_pos hkv]; rfl⟩
    · obtain ⟨key, hkey⟩ := ih fun hrest => h (mergeable_cons.mpr ⟨hkv, hrest⟩)
      exact ⟨key, by rw [pyMerge, if_neg hkv, hkey]⟩

end Keywords

end DietPython.Jit
