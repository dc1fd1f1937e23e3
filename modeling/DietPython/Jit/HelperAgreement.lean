import DietPython.Jit.HelperNames

/-!
# When special calls are plain calls

`codegenExpr_eq_plain_iff` gives the exact condition under which the code of an expression leaves
the same history and result as its plain evaluation: no `cell_ref` call is reached or breaks code
generation, the name of every special call that is reached denotes the object whose code is
inlined, the operand of `str` is a text and not bytes, and the names `list`, `dict` and
`tuple_from_iter` give the standard objects whenever arguments are built with them.
-/

namespace DietPython.Jit

open LoggedComputations
open Logged

universe u

namespace Program

variable {V : Type u} {E : Type*} [DecidableEq V] (p : Program V E)

/-! ## Plain calls -/

/-- Reading the operand of a `**e` with `dict.update`. -/
def readItems (v : V) : Run V E (List (V × V)) :=
  if p.isMapping v then ask (.readMapping v) fun l => p.readMapping l v
  else ask (.readPairs v) fun l => p.readPairs l v

/-- The keyword arguments in the builtin dict. -/
def dictKeywords (kvs : List (V × V)) : List (KwArg (Run V E V)) → Run V E (List (V × V))
  | [] => pure kvs
  | .named arg value :: rest => do
    let v ← value
    dictKeywords (dictInsert kvs (p.constant (.unicode arg)) v) rest
  | .starred value :: rest => do
    let v ← value
    let items ← readItems p v
    dictKeywords (dictUpdate kvs items) rest

/-- A call whose arguments are built by the builtin list, dict and tuple. -/
def plainCall (c : CallSite (Run V E V)) : Run V E V := do
  let f ← c.callable
  let args ← pyPositionals p.plainRuntime c.args
  if c.keywords = [] then p.plainRuntime.call f (.native args) none
  else do
    let kvs ← dictKeywords p [] c.keywords
    p.plainRuntime.call f (.native args) (some (.native kvs))

theorem emitKeywords_native (g : String → Run V E V) (kvs : List (V × V))
    (keywords : List (KwArg (Run V E V))) :
    Jit.emitKeywords (p.runtimeWith g) (.native kvs) keywords =
      (p.dictKeywords kvs keywords >>= fun kvs => pure (.native kvs)) := by
  induction keywords generalizing kvs with
  | nil => simp [Jit.emitKeywords, dictKeywords]
  | cons keyword rest ih =>
    cases keyword with
    | named arg value => simp [Jit.emitKeywords, emitKeyword, dictKeywords, ih]
    | starred value =>
      simp only [Jit.emitKeywords, emitKeyword, dictKeywords, readItems, bind_assoc,
        runtimeWith_isMapping, runtimeWith_readMapping, runtimeWith_readPairs]
      congr 1
      funext v
      by_cases hv : p.isMapping v = true <;> simp [hv, ih]

omit [DecidableEq V] in
theorem pyPositionals_runtimeWith (g : String → Run V E V) (args : List (PosArg (Run V E V))) :
    pyPositionals (p.runtimeWith g) args = pyPositionals p.plainRuntime args := by
  induction args with
  | nil => rfl
  | cons arg rest ih => simp [pyPositionals, ih]

/-- Plain evaluation of a call does not depend on its shape. -/
theorem emitCall_plainRuntime (c : CallSite (Run V E V)) :
    emitCall p.plainRuntime c = p.plainCall c := by
  have hlist : makeList p.plainRuntime p.listType = pure (.native []) := if_pos rfl
  have hdict : makeDict p.plainRuntime p.dictType = pure (.native []) := if_pos rfl
  have htuple : ∀ items,
      makeTuple p.plainRuntime p.tupleFromIter (.native items) = pure (.native items) :=
    fun items => if_pos (.inr rfl)
  have hglobal : ∀ name, p.plainRuntime.loadGlobal name = pure (p.standardHelper name) :=
    fun _ => rfl
  have hkeywords : ∀ kvs, Jit.emitKeywords p.plainRuntime (.native kvs) c.keywords =
      (p.dictKeywords kvs c.keywords >>= fun kvs => pure (.native kvs)) :=
    fun kvs => p.emitKeywords_native _ kvs c.keywords
  unfold emitCall plainCall
  split_ifs with hunpack hnone hnone
  · rw [emitUnpackCall_no_keywords _ _ hnone]
    simp [hglobal, standardHelper, hlist, htuple, emitPositionals_native]
  · rw [emitUnpackCall_keywords _ _ hnone]
    simp [hglobal, standardHelper, hlist, hdict, htuple, emitPositionals_native, hkeywords]
  all_goals
    have hargs : c.args.any PosArg.isStarred = false := by
      simp only [CallSite.hasUnpack, Bool.or_eq_true, not_or, Bool.not_eq_true] at hunpack
      exact hunpack.1
  · rw [emitPlainCall_no_keywords _ _ hnone, evalOperands_eq_pyPositionals p.plainRuntime hargs]
  · rw [emitPlainCall_keywords _ _ hnone, evalOperands_eq_pyPositionals p.plainRuntime hargs]
    simp [hglobal, standardHelper, hdict, hkeywords]

/-! ## Bounds on plain evaluation -/

/-- Plain evaluation asks nothing of helper objects. -/
def PlainEvent : ProgramEvent V → Prop
  | .helper _ => False
  | _ => True

section Within

omit [DecidableEq V]

theorem within_ask {α : Type u} {ev : ProgramEvent V} (hev : PlainEvent ev)
    (answer : List (ProgramEvent V) → Except E α) : Within PlainEvent PyError (ask ev answer) := by
  refine Within.observe hev fun l e he => ?_
  obtain ⟨exc, rfl⟩ := eq_raised_of_mapError he
  trivial

theorem within_apply (f : V) (args : Seq V) (kwargs : Option (Kw V)) :
    Within PlainEvent PyError (p.plainRuntime.call f args kwargs) := within_ask (by trivial) _

theorem within_operand {e : Run V E V} (he : Within PlainEvent PyError e) :
    Within PlainEvent PyError (operand e) :=
  .bind (.observe trivial fun _ _ h => by simp at h) fun _ => he

theorem within_readItems (v : V) : Within PlainEvent PyError (p.readItems v) := by
  unfold readItems
  split_ifs <;> exact within_ask (by trivial) _

theorem within_load (id : String) (location : NameLocation) :
    Within PlainEvent PyError (p.load id location) := by
  have hpeek : ∀ answer : List (ProgramEvent V) → Except E V,
      Within PlainEvent PyError (Logged.peek fun l => (answer l).mapError .raised : Run V E V) := by
    refine fun answer => Within.peek fun l e he => ?_
    obtain ⟨exc, rfl⟩ := eq_raised_of_mapError he
    trivial
  cases location with
  | constant value => exact .pure _
  | fastLocal slot => exact hpeek _
  | cell slot => exact hpeek _
  | global slot => exact hpeek _
  | runtimeName => exact hpeek _

end Within

theorem within_plainCall {c : CallSite (Run V E V)} (hf : Within PlainEvent PyError c.callable)
    (hargs : Within PlainEvent PyError (pyPositionals p.plainRuntime c.args))
    (hkeywords : ∀ kvs, Within PlainEvent PyError (p.dictKeywords kvs c.keywords)) :
    Within PlainEvent PyError (p.plainCall c) := by
  refine .bind hf fun f => .bind hargs fun vs => ?_
  split_ifs
  · exact p.within_apply f _ _
  · exact .bind (hkeywords []) fun kvs => p.within_apply f _ _

mutual

theorem within_plainExpr : ∀ e, Within PlainEvent PyError (p.plainExpr e)
  | .load id location => by
    rw [plainExpr]
    exact p.within_load id location
  | .op kind operands => by
    rw [plainExpr]
    exact .bind (within_plainArgs operands) fun vs => within_ask (by trivial) _
  | .call func args keywords => by
    rw [plainExpr, emitCall_plainRuntime]
    exact p.within_plainCall (within_plainExpr func) (within_plainArgs args)
      fun kvs => within_plainKeywords keywords kvs

theorem within_plainArgs :
    ∀ args, Within PlainEvent PyError (pyPositionals p.plainRuntime (p.plainArgs args))
  | .nil => .pure []
  | .positional value rest =>
    .bind (within_operand (within_plainExpr value)) fun v => .bind (.pure [v]) fun _ =>
      .bind (within_plainArgs rest) fun _ => .pure _
  | .starred value rest =>
    .bind (within_operand (within_plainExpr value)) fun v =>
      .bind (within_ask (by trivial) _) fun _ => .bind (within_plainArgs rest) fun _ => .pure _

theorem within_plainKeywords :
    ∀ keywords kvs, Within PlainEvent PyError (p.dictKeywords kvs (p.plainKeywords keywords))
  | .nil, kvs => .pure kvs
  | .named arg value rest, kvs =>
    .bind (within_operand (within_plainExpr value)) fun v => within_plainKeywords rest _
  | .starred value rest, kvs => by
    exact .bind (within_operand (within_plainExpr value)) fun v =>
      .bind (p.within_readItems v) fun items => within_plainKeywords rest _

end

/-! ## The condition -/

/-- The object whose code replaces a special call. -/
def specialObject : SpecialCall → V
  | .globals => p.globalsFn
  | .str _ => p.strType
  | .tupleValues => p.tupleValues
  | .loadDeletedName _ => p.loadDeletedName
  | .cellRef _ => p.deleted

/-- The folded constant is the text that it is taken for, where this matters. -/
def ConstantOk : SpecialCall → List V → Prop
  | .str value, vs => vs = [p.constant (.unicode value)]
  | .loadDeletedName name, vs => ∀ n, vs = [n, p.deleted] → n = p.constant (.unicode name)
  | _, _ => True

/-- A helper name gives the standard object. -/
def HelperIs (name : String) (v : V) (l : List (ProgramEvent V)) : Prop :=
  p.lookup l name (.global 0) = .ok v

/-- The name `tuple_from_iter` gives `tuple` or the helper of the runtime. -/
def TupleHelperOk (l : List (ProgramEvent V)) : Prop :=
  p.HelperIs "tuple_from_iter" p.tupleType l ∨ p.HelperIs "tuple_from_iter" p.tupleFromIter l

section Shapes

variable (c : CallSite (Run V E V)) (funcOk argsOk keywordsOk : List (ProgramEvent V) → Prop)

/-- The name of a special call denotes an object; if the operands evaluate, it is the one whose
code is inlined. -/
def SpecialOk (special : SpecialCall) (l : List (ProgramEvent V)) : Prop :=
  ∃ f, c.callable l = (.ok f, l) ∧ argsOk l ∧
    IfOk (pyPositionals p.plainRuntime c.args)
      (fun vs _ => f = p.specialObject special ∧ p.ConstantOk special vs) l

/-- A call without unpacking needs `dict` if it has keywords. -/
def PlainShapeOk (l : List (ProgramEvent V)) : Prop :=
  funcOk l ∧ IfOk c.callable (fun _ l => argsOk l ∧
    IfOk (pyPositionals p.plainRuntime c.args) (fun _ l => c.keywords ≠ [] →
      p.HelperIs "dict" p.dictType l ∧ keywordsOk l) l) l

/-- A call with unpacking needs `list`, `tuple_from_iter` and, if it has keywords, `dict`. -/
def UnpackShapeOk (l : List (ProgramEvent V)) : Prop :=
  funcOk l ∧ IfOk c.callable (fun _ l => p.HelperIs "list" p.listType l ∧
    (c.keywords ≠ [] → p.HelperIs "dict" p.dictType l) ∧ argsOk l ∧
    IfOk (pyPositionals p.plainRuntime c.args) (fun _ l => keywordsOk l ∧
      IfOk (p.dictKeywords [] c.keywords) (fun _ l => p.TupleHelperOk l) l) l) l

end Shapes

mutual

/-- Every special treatment that the evaluation reaches is faithful. -/
def ExprOk : CodegenExpr → List (ProgramEvent V) → Prop
  | .load _ _ => fun _ => True
  | .op _ operands => ArgsOk operands
  | .call func args keywords =>
    match specialCall func args keywords with
    | some (.cellRef _) => fun _ => False
    | some special => p.SpecialOk ⟨p.plainExpr func, p.plainArgs args, p.plainKeywords keywords⟩
      (ArgsOk args) special
    | none =>
      if args.isSimple && keywords.isSimple then
        p.PlainShapeOk ⟨p.plainExpr func, p.plainArgs args, p.plainKeywords keywords⟩
          (ExprOk func) (ArgsOk args) (KeywordsOk keywords)
      else
        p.UnpackShapeOk ⟨p.plainExpr func, p.plainArgs args, p.plainKeywords keywords⟩
          (ExprOk func) (ArgsOk args) (KeywordsOk keywords)

def ArgsOk : CallArgs → List (ProgramEvent V) → Prop
  | .nil => fun _ => True
  | .positional value rest => fun l => ExprOk value (l ++ [.operand]) ∧
    IfOk (operand (p.plainExpr value)) (fun _ => ArgsOk rest) l
  | .starred value rest => fun l => ExprOk value (l ++ [.operand]) ∧
    IfOk (operand (p.plainExpr value)) (fun v =>
      IfOk (p.plainRuntime.iterate v) fun _ => ArgsOk rest) l

def KeywordsOk : CallKeywords → List (ProgramEvent V) → Prop
  | .nil => fun _ => True
  | .named _ value rest => fun l => ExprOk value (l ++ [.operand]) ∧
    IfOk (operand (p.plainExpr value)) (fun _ => KeywordsOk rest) l
  | .starred value rest => fun l => ExprOk value (l ++ [.operand]) ∧
    IfOk (operand (p.plainExpr value)) (fun v =>
      IfOk (p.readItems v) fun _ => KeywordsOk rest) l

end

/-! ## Helpers settle -/

section Helpers

variable {p} {α : Type u} {m : Run V E α} {l : List (ProgramEvent V)}

omit [DecidableEq V] in
theorem loadGlobal_of_ok {name : String} {v : V} (h : p.HelperIs name v l) :
    p.loadGlobal name l = (.ok v, l) := by
  unfold HelperIs at h
  simp [loadGlobal, h, Except.mapError]

omit [DecidableEq V] in
/-- Generated code that misses a helper name, or makes something of another object than the
standard ones, parts from plain evaluation. -/
theorem settles_loadGlobal {name : String} (Std : V → Prop) (Q : Prop) {k : V → Run V E α}
    (hm : Within PlainEvent PyError m) (hstd : ∀ v, Std v → Settles PlainEvent PyError Q (k v) m l)
    (hother : ∀ v, ¬ Std v → ∃ op es, (k v l).2 = l ++ .helper op :: es) :
    Settles PlainEvent PyError ((∃ v, Std v ∧ p.HelperIs name v l) ∧ Q)
      (p.loadGlobal name >>= k) m l := by
  cases hr : p.lookup l name (.global 0) with
  | error exc =>
    have hload : p.loadGlobal name l = (.error (.nameError name), l) := by
      simp [loadGlobal, hr, Except.mapError]
    refine ⟨?_, fun _ => apart_of_foreign_error id (bind_apply_error l hload k) hm⟩
    rintro ⟨⟨v, -, hv⟩, -⟩
    rw [HelperIs, hr] at hv
    cases hv
  | ok v =>
    have hv : p.HelperIs name v l := hr
    have hbind : (p.loadGlobal name >>= k) l = k v l := bind_apply_ok l (loadGlobal_of_ok hv) k
    have hunique : (∃ v, Std v ∧ p.HelperIs name v l) ↔ Std v := by
      refine ⟨?_, fun h => ⟨v, h, hv⟩⟩
      rintro ⟨v', hstd', hv'⟩
      rw [HelperIs, hr] at hv'
      obtain rfl := Except.ok.inj hv'
      exact hstd'
    rw [hunique]
    by_cases hs : Std v
    · rw [and_iff_right hs]
      exact (hstd v hs).congr_left hbind
    · obtain ⟨op, es, hes⟩ := hother v hs
      refine ⟨fun h => absurd h.1 hs, fun _ => ?_⟩
      exact apart_of_foreign_event (.helper op) id ⟨es, by rw [hbind, hes]⟩ hm

theorem settles_list {k : Seq V → Run V E α} {Q : Prop} (hm : Within PlainEvent PyError m)
    (hk : Settles PlainEvent PyError Q (k (.native [])) m l) :
    Settles PlainEvent PyError (p.HelperIs "list" p.listType l ∧ Q)
      (p.runtime.loadGlobal "list" >>= fun o => makeList p.runtime o >>= k) m l := by
  refine (settles_loadGlobal (· = p.listType) Q hm ?_ ?_).congr (by simp)
  · rintro v rfl
    have hmake : makeList p.runtime p.listType = pure (.native []) := if_pos rfl
    rw [hmake, pure_bind]
    exact hk
  · intro v hv
    have hmake : makeList p.runtime v =
        (p.runtime.helper (.make v) >>= fun o => pure (.foreign o)) := if_neg hv
    rw [hmake, bind_assoc]
    exact ⟨.make v, observe_bind_history _ _ _ l⟩

theorem settles_dict {k : Kw V → Run V E α} {Q : Prop} (hm : Within PlainEvent PyError m)
    (hk : Settles PlainEvent PyError Q (k (.native [])) m l) :
    Settles PlainEvent PyError (p.HelperIs "dict" p.dictType l ∧ Q)
      (p.runtime.loadGlobal "dict" >>= fun o => makeDict p.runtime o >>= k) m l := by
  refine (settles_loadGlobal (· = p.dictType) Q hm ?_ ?_).congr (by simp)
  · rintro v rfl
    have hmake : makeDict p.runtime p.dictType = pure (.native []) := if_pos rfl
    rw [hmake, pure_bind]
    exact hk
  · intro v hv
    have hmake : makeDict p.runtime v =
        (p.runtime.helper (.make v) >>= fun o => pure (.foreign o)) := if_neg hv
    rw [hmake, bind_assoc]
    exact ⟨.make v, observe_bind_history _ _ _ l⟩

theorem settles_tuple (f : V) (vs : List V) (kwargs : Option (Kw V)) :
    Settles PlainEvent PyError (p.TupleHelperOk l)
      (p.runtime.loadGlobal "tuple_from_iter" >>= fun t =>
        makeTuple p.runtime t (.native vs) >>= fun args => p.runtime.call f args kwargs)
      (p.plainRuntime.call f (.native vs) kwargs) l := by
  have hm := p.within_apply f (.native vs) kwargs
  refine (settles_loadGlobal (fun t => t = p.tupleType ∨ t = p.tupleFromIter) True hm ?_ ?_).congr
    ?_
  · intro v hv
    have hmake : makeTuple p.runtime v (.native vs) = pure (.native vs) := if_pos hv
    rw [hmake, pure_bind]
    exact Settles.refl _ l
  · intro v hv
    have hmake : makeTuple p.runtime v (.native vs) =
        (p.runtime.helper (.toTuple v (.native vs)) >>= fun o => pure (.foreign o)) := if_neg hv
    rw [hmake, bind_assoc]
    exact ⟨.toTuple v (.native vs), observe_bind_history _ _ _ l⟩
  · simp [TupleHelperOk, or_and_right, exists_or]

end Helpers

/-! ## Calls settle -/

section Calls

variable {p} {c c' : CallSite (Run V E V)}
  {funcOk argsOk keywordsOk : List (ProgramEvent V) → Prop}
  (hfunc : ∀ l, Settles PlainEvent PyError (funcOk l) c.callable c'.callable l)
  (hargs : ∀ l, Settles PlainEvent PyError (argsOk l) (pyPositionals p.plainRuntime c.args)
    (pyPositionals p.plainRuntime c'.args) l)
  (hkeywords : ∀ kvs l, Settles PlainEvent PyError (keywordsOk l)
    (p.dictKeywords kvs c.keywords) (p.dictKeywords kvs c'.keywords) l)
  (hargs' : Within PlainEvent PyError (pyPositionals p.plainRuntime c'.args))
  (hkeywords' : ∀ kvs, Within PlainEvent PyError (p.dictKeywords kvs c'.keywords))
  (hnone : c.keywords = [] ↔ c'.keywords = [])

include hkeywords in
/-- Keywords in the builtin dict, and then anything. -/
theorem settles_keywords {α : Type u} {R : List (V × V) → List (ProgramEvent V) → Prop}
    {k : Kw V → Run V E α} {k' : List (V × V) → Run V E α}
    (hk' : ∀ kvs, Within PlainEvent PyError (k' kvs))
    (hk : ∀ kvs l, Settles PlainEvent PyError (R kvs l) (k (.native kvs)) (k' kvs) l)
    (l : List (ProgramEvent V)) :
    Settles PlainEvent PyError (keywordsOk l ∧ IfOk (p.dictKeywords [] c'.keywords) R l)
      (Jit.emitKeywords p.runtime (.native []) c.keywords >>= k)
      (p.dictKeywords [] c'.keywords >>= k') l := by
  rw [emitKeywords_native, bind_assoc]
  refine (hkeywords [] l).bind hk' fun kvs l' _ => ?_
  rw [pure_bind]
  exact hk kvs l'

include hkeywords' in
theorem within_plainCall_tail (f : V) (vs : List V) :
    Within PlainEvent PyError
      (if c'.keywords = [] then p.plainRuntime.call f (.native vs) none
        else p.dictKeywords [] c'.keywords >>= fun kvs =>
          p.plainRuntime.call f (.native vs) (some (.native kvs))) := by
  split_ifs
  · exact p.within_apply f _ _
  · exact .bind (hkeywords' []) fun kvs => p.within_apply f _ _

include hfunc hargs hkeywords hargs' hkeywords' hnone

theorem settles_plainShape (hsimple : c.args.any PosArg.isStarred = false)
    (l : List (ProgramEvent V)) :
    Settles PlainEvent PyError (p.PlainShapeOk c' funcOk argsOk keywordsOk l)
      (emitPlainCall p.runtime c) (p.plainCall c') l := by
  have htail := within_plainCall_tail hkeywords'
  unfold emitPlainCall plainCall
  rw [evalOperands_eq_pyPositionals p.runtime hsimple, pyPositionals_runtimeWith]
  refine (hfunc l).bind (fun f => .bind hargs' (htail f)) fun f l' _ =>
    (hargs l').bind (htail f) fun vs l'' _ => ?_
  by_cases h : c'.keywords = []
  · rw [if_pos h, if_pos (hnone.mpr h)]
    exact (Settles.refl _ l'').congr (by simp [h])
  · rw [if_neg h, if_neg (fun hc => h (hnone.mp hc))]
    have hcall := settles_keywords hkeywords (k := fun d => p.runtime.call f (.native vs) (some d))
      (fun kvs => p.within_apply f (.native vs) (some (.native kvs)))
      (fun kvs l => Settles.refl (p.plainRuntime.call f (.native vs) (some (.native kvs))) l) l''
    refine (settles_dict ?_ hcall).congr ?_
    · exact .bind (hkeywords' []) fun kvs => p.within_apply f _ _
    · have hok : IfOk (p.dictKeywords [] c'.keywords) (fun _ _ => True) l'' :=
        ifOk_of_forall l'' fun _ _ => trivial
      simp [h, hok]

theorem settles_unpackShape (l : List (ProgramEvent V)) :
    Settles PlainEvent PyError (p.UnpackShapeOk c' funcOk argsOk keywordsOk l)
      (emitUnpackCall p.runtime c) (p.plainCall c') l := by
  have htail := within_plainCall_tail hkeywords'
  by_cases h : c'.keywords = []
  · rw [emitUnpackCall_no_keywords _ _ (hnone.mpr h)]
    unfold plainCall
    refine (hfunc l).bind (fun f => .bind hargs' (htail f)) fun f l' _ => ?_
    refine (settles_list (.bind hargs' (htail f)) (Q := argsOk l' ∧
      IfOk (pyPositionals p.plainRuntime c'.args) (fun _ => p.TupleHelperOk) l') ?_).congr ?_
    · rw [emitPositionals_native, bind_assoc, p.pyPositionals_runtimeWith p.loadGlobal]
      refine (hargs l').bind (htail f) fun vs l'' _ => ?_
      rw [if_pos h, pure_bind]
      exact settles_tuple f vs none
    · have hok : ∀ l, keywordsOk l := fun l =>
        (hkeywords [] l).eq_iff.mp (by rw [h, hnone.mpr h])
      have hdict : ∀ l, IfOk (p.dictKeywords [] []) (fun _ => p.TupleHelperOk) l ↔
          p.TupleHelperOk l := fun l => ifOk_of_ok l rfl _
      simp [h, hok, hdict]
  · rw [emitUnpackCall_keywords _ _ (fun hc => h (hnone.mp hc))]
    unfold plainCall
    refine (hfunc l).bind (fun f => .bind hargs' (htail f)) fun f l' _ => ?_
    refine (settles_list (.bind hargs' (htail f)) (settles_dict (.bind hargs' (htail f))
      (Q := argsOk l' ∧ IfOk (pyPositionals p.plainRuntime c'.args) (fun _ l => keywordsOk l ∧
        IfOk (p.dictKeywords [] c'.keywords) (fun _ => p.TupleHelperOk) l) l') ?_)).congr ?_
    · rw [emitPositionals_native, bind_assoc, p.pyPositionals_runtimeWith p.loadGlobal]
      refine (hargs l').bind (htail f) fun vs l'' _ => ?_
      rw [if_neg h, pure_bind]
      exact settles_keywords hkeywords
        (fun kvs => p.within_apply f (.native vs) (some (.native kvs)))
        (fun kvs l => settles_tuple f vs (some (.native kvs))) l''
    · simp [h]

end Calls

/-! ## Special calls settle -/

section Special

variable {p} {l : List (ProgramEvent V)}

omit [DecidableEq V] in
theorem settles_inlined {f g : V} {vs ws : List V} {result : Except E V}
    (h : f = g → vs = ws → ∀ l, p.apply l f (.native vs) none = result) :
    Settles PlainEvent PyError (f = g ∧ vs = ws) (inlined g ws result)
      (p.plainRuntime.call f (.native vs) none) l := by
  constructor
  · rintro ⟨rfl, rfl⟩
    simp [inlined, ask, h rfl rfl]
  · intro hne
    refine apart_of_events (.apply g (.native ws) none) (.apply f (.native vs) none) ?_
      ⟨[], rfl⟩ ⟨[], rfl⟩
    simp only [ne_eq, ProgramEvent.apply.injEq, Seq.native.injEq, and_true]
    exact fun heq => hne ⟨heq.1.symm, heq.2.symm⟩

/-- Applying the object that the name denotes against the inlined code. The operands of a special
call have its shape. -/
theorem settles_emitSpecial {special : SpecialCall} (f : V) {vs : List V}
    (hglobals : special = .globals → vs = [])
    (hdeleted : ∀ name, special = .loadDeletedName name → ∃ n v, vs = [n, v])
    (hcell : ∀ target, special ≠ .cellRef target) :
    Settles PlainEvent PyError (f = p.specialObject special ∧ p.ConstantOk special vs)
      (p.emitSpecial special vs) (p.plainRuntime.call f (.native vs) none) l := by
  cases special with
  | globals =>
    obtain rfl := hglobals rfl
    refine (settles_inlined (g := p.globalsFn) ?_).congr (by simp [specialObject, ConstantOk])
    rintro rfl - l
    exact p.apply_globals l
  | str value =>
    refine settles_inlined ?_
    rintro rfl rfl l
    exact p.apply_str l value
  | tupleValues =>
    refine (settles_inlined (g := p.tupleValues) ?_).congr (by simp [specialObject, ConstantOk])
    rintro rfl - l
    exact p.apply_tupleValues l vs
  | loadDeletedName name =>
    obtain ⟨n, v, rfl⟩ := hdeleted name rfl
    by_cases hv : v = p.deleted ∧ n ≠ p.constant (.unicode name) ∧ f = p.loadDeletedName
    · -- the same application, but the error names another variable
      obtain ⟨rfl, hn, rfl⟩ := hv
      refine ⟨fun h => absurd (h.2 n rfl) hn, fun _ => ?_⟩
      have hemit : p.emitSpecial (.loadDeletedName name) [n, p.deleted] l =
          (.error (.raised (p.unboundLocal (p.constant (.unicode name)))),
            l ++ [.apply p.loadDeletedName (.native [n, p.deleted]) none]) := by
        simp [emitSpecial, inlined, ask, Except.mapError]
      have hplain : p.plainRuntime.call p.loadDeletedName (.native [n, p.deleted]) none l =
          (.error (.raised (p.unboundLocal n)),
            l ++ [.apply p.loadDeletedName (.native [n, p.deleted]) none]) := by
        simp [ask, p.apply_loadDeletedName_deleted, Except.mapError]
      refine apart_of_errors ?_ hemit hplain
      exact fun h => hn (p.unboundLocal_injective (CallError.raised.inj h)).symm
    · refine (settles_inlined (g := p.loadDeletedName) ?_).congr ?_
      · rintro rfl - l
        by_cases hdel : v = p.deleted
        · obtain rfl : n = p.constant (.unicode name) := by
            by_contra hn
            exact hv ⟨hdel, hn, rfl⟩
          rw [hdel, if_pos rfl, p.apply_loadDeletedName_deleted]
        · rw [if_neg hdel, p.apply_loadDeletedName _ _ _ hdel]
      · refine and_congr_right fun hf => iff_of_true rfl fun n' hn' => ?_
        simp only [List.cons.injEq, and_true] at hn'
        obtain ⟨rfl, hdel⟩ := hn'
        by_contra hn
        exact hv ⟨hdel, hn, hf⟩
  | cellRef target => exact absurd rfl (hcell target)

theorem emitSpecial_history (special : SpecialCall) (vs : List V) (l : List (ProgramEvent V)) :
    ∃ ev es, (p.emitSpecial special vs l).2 = l ++ ev :: es := by
  unfold emitSpecial
  split <;> exact ⟨_, [], rfl⟩

/-- The code of a special call does something first, and plain evaluation looks up the name. -/
theorem settles_special {c c' : CallSite (Run V E V)} {argsOk : List (ProgramEvent V) → Prop}
    {special : SpecialCall}
    (hcallable : (∃ f, c'.callable l = (.ok f, l)) ∨ ∃ e, c'.callable l = (.error e, l))
    (hargs : ∀ l, Settles PlainEvent PyError (argsOk l) (pyPositionals p.plainRuntime c.args)
      (pyPositionals p.plainRuntime c'.args) l)
    (hnone : c'.keywords = []) (hsimple : c.args.any PosArg.isStarred = false)
    (hmark : ∀ arg ∈ c.args.head?, ∃ e, arg.expr = operand e)
    (hlast : ∀ f vs l₁ l₂, pyPositionals p.plainRuntime c'.args l₁ = (.ok vs, l₂) →
      Settles PlainEvent PyError (f = p.specialObject special ∧ p.ConstantOk special vs)
        (p.emitSpecial special vs) (p.plainRuntime.call f (.native vs) none) l₂) :
    Settles PlainEvent PyError (p.SpecialOk c' argsOk special l)
      (evalOperands c.args >>= p.emitSpecial special) (p.plainCall c') l := by
  rw [evalOperands_eq_pyPositionals p.plainRuntime hsimple]
  rcases hcallable with ⟨f, hf⟩ | ⟨e, he⟩
  · have hplain : p.plainCall c' l = (pyPositionals p.plainRuntime c'.args >>= fun vs =>
        p.plainRuntime.call f (.native vs) none) l := by
      unfold plainCall
      rw [bind_apply_ok l hf]
      simp [hnone]
    have hok : p.SpecialOk c' argsOk special l ↔ argsOk l ∧
        IfOk (pyPositionals p.plainRuntime c'.args)
          (fun vs _ => f = p.specialObject special ∧ p.ConstantOk special vs) l := by
      constructor
      · rintro ⟨f', hf', hrest⟩
        rw [hf] at hf'
        obtain rfl : f = f' := Except.ok.inj (Prod.mk.inj hf').1
        exact hrest
      · exact fun h => ⟨f, hf, h⟩
    refine Settles.congr_right (Settles.congr ?_ hok.symm) hplain
    exact (hargs l).bind (fun vs => p.within_apply f (.native vs) none) fun vs l' hvs =>
      hlast f vs l l' hvs
  · have hplain : p.plainCall c' l = (.error e, l) := bind_apply_error l he _
    refine ⟨?_, fun _ => ?_⟩
    · rintro ⟨f, hf, -⟩
      rw [he] at hf
      cases hf
    · obtain ⟨ev, hev⟩ : ∃ ev, ∃ es, ((pyPositionals p.plainRuntime c.args >>=
          p.emitSpecial special) l).2 = l ++ ev :: es := by
        rcases hc : c.args with _ | ⟨arg, rest⟩
        · exact emitSpecial_history special [] l
        · obtain ⟨e', he'⟩ := hmark arg (by simp [hc])
          simp only [pyPositionals, he', operand, bind_assoc]
          exact ⟨.operand, observe_bind_history _ _ _ l⟩
      exact apart_of_event_of_error ev hev hplain

end Special

/-! ## Expressions settle -/

section Syntax

variable {p}

theorem specialCall_shape {func : CodegenExpr} {args : CallArgs} {keywords : CallKeywords}
    {special : SpecialCall} (h : specialCall func args keywords = some special) :
    keywords = .nil ∧ (codegenExprHelperName func).isSome ∧ args.isSimple ∧
      (special = .globals → args = .nil) ∧
      (∀ name, special = .loadDeletedName name →
        ∃ n e, args = .positional n (.positional e .nil)) ∧
      ∀ target, special = .cellRef target → ∃ e, args = .positional e .nil := by
  unfold specialCall at h
  cases keywords with
  | nil =>
    refine ⟨rfl, ?_⟩
    simp only at h
    split_ifs at h with hglobals hstr htuple hsimple hdeleted hcell
    · split at h <;> cases h
      simp [hglobals, CallArgs.isSimple]
    · split at h <;> [skip; cases h]
      obtain ⟨value, -, rfl⟩ := Option.map_eq_some_iff.mp h
      simp [hstr, CallArgs.isSimple]
    · cases h
      simp [htuple, hsimple]
    · split at h <;> [skip; cases h]
      obtain ⟨value, -, rfl⟩ := Option.map_eq_some_iff.mp h
      simp [hdeleted, CallArgs.isSimple]
    · split at h <;> cases h <;> simp [hcell, CallArgs.isSimple]
  | _ => cases h

theorem plainExpr_of_helperName {func : CodegenExpr} (h : (codegenExprHelperName func).isSome)
    (l : List (ProgramEvent V)) :
    (∃ f, p.plainExpr func l = (.ok f, l)) ∨ ∃ e, p.plainExpr func l = (.error e, l) := by
  cases func with
  | load id location =>
    rw [plainExpr]
    have hpeek : ∀ answer : List (ProgramEvent V) → Except E V,
        (∃ f, (Logged.peek fun l => (answer l).mapError .raised : Run V E V) l = (.ok f, l)) ∨
          ∃ e, (Logged.peek fun l => (answer l).mapError .raised : Run V E V) l =
            (.error e, l) := by
      intro answer
      rcases hr : answer l with e | f
      · exact .inr ⟨.raised e, by simp [hr, Except.mapError]⟩
      · exact .inl ⟨f, by simp [hr, Except.mapError]⟩
    cases location with
    | constant value => exact .inl ⟨p.constant value, rfl⟩
    | _ => exact hpeek _
  | _ => simp [codegenExprHelperName] at h

theorem plainArgs_isStarred : ∀ args : CallArgs,
    (p.plainArgs args).any PosArg.isStarred = !args.isSimple
  | .nil => rfl
  | .positional _ rest => by
    simpa [plainArgs, PosArg.isStarred, CallArgs.isSimple] using plainArgs_isStarred rest
  | .starred _ _ => rfl

theorem emitCodegenArgs_isStarred : ∀ args : CallArgs,
    (p.emitCodegenArgs args).any PosArg.isStarred = !args.isSimple
  | .nil => rfl
  | .positional _ rest => by
    simpa [emitCodegenArgs, PosArg.isStarred, CallArgs.isSimple] using
      emitCodegenArgs_isStarred rest
  | .starred _ _ => rfl

theorem emitCodegenKeywords_isStarred : ∀ keywords : CallKeywords,
    (p.emitCodegenKeywords keywords).any KwArg.isStarred = !keywords.isSimple
  | .nil => rfl
  | .named _ _ rest => by
    simpa [emitCodegenKeywords, KwArg.isStarred, CallKeywords.isSimple] using
      emitCodegenKeywords_isStarred rest
  | .starred _ _ => rfl

theorem plainKeywords_eq_nil {keywords : CallKeywords} :
    p.plainKeywords keywords = [] ↔ keywords = .nil := by
  cases keywords <;> simp [plainKeywords]

theorem emitCodegenKeywords_eq_nil {keywords : CallKeywords} :
    p.emitCodegenKeywords keywords = [] ↔ keywords = .nil := by
  cases keywords <;> simp [emitCodegenKeywords]

end Syntax

section Settle

variable {p}

omit [DecidableEq V] in
theorem settles_operand {Q : List (ProgramEvent V) → Prop} {e e' : Run V E V}
    (h : ∀ l, Settles PlainEvent PyError (Q l) e e' l) (l : List (ProgramEvent V)) :
    Settles PlainEvent PyError (Q (l ++ [.operand])) (operand e) (operand e') l :=
  ⟨(h (l ++ [.operand])).agree, (h (l ++ [.operand])).apart⟩

/-- The raw cell is never what a call of an object named `cell_ref` gives. -/
theorem settles_cellRef {func e : CodegenExpr} {target : Option String} {l : List (ProgramEvent V)}
    (hcallable : (∃ f, p.plainExpr func l = (.ok f, l)) ∨ ∃ e, p.plainExpr func l = (.error e, l)) :
    Settles PlainEvent PyError False (p.emitSpecial (.cellRef target) [])
      (p.plainCall ⟨p.plainExpr func, p.plainArgs (.positional e .nil), []⟩) l := by
  refine ⟨False.elim, fun _ => ?_⟩
  rcases hcallable with ⟨f, hf⟩ | ⟨e, he⟩
  · refine apart_of_events (.rawCell target) .operand (by simp) ⟨[], rfl⟩ ?_
    unfold plainCall
    rw [bind_apply_ok l hf]
    simp only [plainArgs, pyPositionals, PosArg.expr, operand, bind_assoc]
    exact observe_bind_history _ _ _ l
  · exact apart_of_event_of_error (.rawCell target) ⟨[], rfl⟩ (bind_apply_error l he _)

mutual

theorem settles_expr :
    ∀ e l, Settles PlainEvent PyError (p.ExprOk e l) (p.emitCodegenExpr e) (p.plainExpr e) l
  | .load id location, l => by
    rw [emitCodegenExpr, plainExpr]
    exact (Settles.refl _ l).congr (by simp [ExprOk])
  | .op kind operands, l => by
    rw [emitCodegenExpr, plainExpr, p.pyPositionals_runtimeWith p.loadGlobal]
    exact (settles_args operands l).bind_right fun vs => within_ask (by trivial) _
  | .call func args keywords, l => by
    have hargs := p.within_plainArgs args
    have hnone : p.emitCodegenKeywords keywords = [] ↔ p.plainKeywords keywords = [] := by
      rw [emitCodegenKeywords_eq_nil, plainKeywords_eq_nil]
    rw [emitCodegenExpr, plainExpr, emitCall_plainRuntime, ExprOk]
    rcases hspecial : specialCall func args keywords with _ | special
    · unfold emitCall
      have hunpack : CallSite.hasUnpack ⟨p.emitCodegenExpr func, p.emitCodegenArgs args,
          p.emitCodegenKeywords keywords⟩ = !(args.isSimple && keywords.isSimple) := by
        simp [CallSite.hasUnpack, emitCodegenArgs_isStarred, emitCodegenKeywords_isStarred]
      rw [hunpack]
      by_cases hsimple : (args.isSimple && keywords.isSimple) = true
      · simp only [hsimple, if_true, Bool.not_true, Bool.false_eq_true, if_false]
        refine settles_plainShape (settles_expr func) (settles_args args)
          (settles_keywordArgs keywords) hargs (p.within_plainKeywords keywords) hnone ?_ l
        rw [Bool.and_eq_true] at hsimple
        simp [emitCodegenArgs_isStarred, hsimple.1]
      · simp only [Bool.not_eq_true] at hsimple
        simp only [hsimple, Bool.not_false, Bool.false_eq_true, if_true, if_false]
        exact settles_unpackShape (settles_expr func) (settles_args args)
          (settles_keywordArgs keywords) hargs (p.within_plainKeywords keywords) hnone l
    · obtain ⟨rfl, hname, hsimple, hglobals, hdeleted, hcell⟩ := specialCall_shape hspecial
      have hcallable := plainExpr_of_helperName (p := p) hname l
      have hplain : (p.plainArgs args).any PosArg.isStarred = false := by
        simp [plainArgs_isStarred, hsimple]
      have hspec : (∀ target, special ≠ .cellRef target) →
          Settles PlainEvent PyError (p.SpecialOk ⟨p.plainExpr func, p.plainArgs args, []⟩
            (p.ArgsOk args) special l) (evalOperands (p.emitCodegenArgs args) >>=
            p.emitSpecial special) (p.plainCall ⟨p.plainExpr func, p.plainArgs args, []⟩) l := by
        intro hnot
        refine settles_special (c := ⟨p.emitCodegenExpr func, p.emitCodegenArgs args, []⟩) hcallable
          (settles_args args) rfl (by simp [emitCodegenArgs_isStarred, hsimple]) ?_ ?_
        · cases args <;> simp [emitCodegenArgs, PosArg.expr]
        · intro f vs l₁ l₂ hvs
          rw [← evalOperands_eq_pyPositionals p.plainRuntime hplain] at hvs
          have hlength := evalOperands_length hvs
          refine settles_emitSpecial f (fun h => ?_) (fun name h => ?_) hnot
          · rw [hglobals h] at hlength
            exact List.eq_nil_of_length_eq_zero hlength
          · obtain ⟨n, e, hne⟩ := hdeleted name h
            rw [hne] at hlength
            exact List.length_eq_two.mp hlength
      cases special with
      | cellRef target =>
        obtain ⟨e, rfl⟩ := hcell target rfl
        exact settles_cellRef hcallable
      | _ => exact hspec (by simp)

theorem settles_args :
    ∀ args l, Settles PlainEvent PyError (p.ArgsOk args l)
      (pyPositionals p.plainRuntime (p.emitCodegenArgs args))
      (pyPositionals p.plainRuntime (p.plainArgs args)) l
  | .nil, l => (Settles.refl _ l).congr (by simp [ArgsOk])
  | .positional value rest, l => by
    refine (settles_operand (settles_expr value) l).bind
      (fun v => .bind (.pure [v]) fun _ => .bind (p.within_plainArgs rest) fun _ => .pure _)
      fun v l' _ => ?_
    exact (settles_args rest l').bind_right fun vs => .pure ([v] ++ vs)
  | .starred value rest, l => by
    refine (settles_operand (settles_expr value) l).bind
      (fun v => .bind (within_ask (by trivial) _) fun _ =>
        .bind (p.within_plainArgs rest) fun _ => .pure _) fun v l' _ => ?_
    refine Settles.bind_same
      (fun items => .bind (p.within_plainArgs rest) fun _ => .pure _) fun items l'' _ => ?_
    exact (settles_args rest l'').bind_right fun vs => .pure (items ++ vs)

theorem settles_keywordArgs :
    ∀ keywords kvs l, Settles PlainEvent PyError (p.KeywordsOk keywords l)
      (p.dictKeywords kvs (p.emitCodegenKeywords keywords))
      (p.dictKeywords kvs (p.plainKeywords keywords)) l
  | .nil, kvs, l => (Settles.refl _ l).congr (by simp [KeywordsOk])
  | .named arg value rest, kvs, l =>
    (settles_operand (settles_expr value) l).bind (fun _ => p.within_plainKeywords rest _)
      fun _ l' _ => settles_keywordArgs rest _ l'
  | .starred value rest, kvs, l => by
    refine (settles_operand (settles_expr value) l).bind
      (fun v => .bind (p.within_readItems v) fun _ => p.within_plainKeywords rest _)
      fun v l' _ => ?_
    exact Settles.bind_same (fun _ => p.within_plainKeywords rest _)
      fun items l'' _ => settles_keywordArgs rest _ l''

end

end Settle

end Program

inductive Atom
  | text (value : String)
  | object (n : ℕ)
  deriving DecidableEq

/-- A module in which `str` is the builtin type. -/
def plainModule : Program Atom Atom where
  listType := .object 0
  dictType := .object 1
  tupleType := .object 2
  tupleFromIter := .object 3
  globalsFn := .object 4
  strType := .object 5
  tupleValues := .object 6
  loadDeletedName := .object 7
  moduleDict := .object 8
  deleted := .object 9
  constant
    | .unicode value => .text value
    | .bytes _ => .object 16
    | _ => .object 10
  tuple _ := .object 11
  unboundLocal name := name
  isMapping _ := false
  lookup _ id _ := if id = "str" then .ok (.object 5) else .error (.text id)
  operate _ _ _ := .ok (.object 12)
  apply _ f args _ :=
    match f, args with
    | .object 4, _ => .ok (.object 8)
    | .object 5, .native [.text value] => .ok (.text value)
    | .object 5, .native [.object 16] => .ok (.text "b'x'")
    | .object 6, _ => .ok (.object 11)
    | .object 7, .native [n, v] => if v = .object 9 then .error n else .ok v
    | _, _ => .ok (.object 13)
  iterate _ _ := .ok []
  readMapping _ _ := .ok []
  readPairs _ _ := .ok []
  helper _ _ := .ok (.object 14)
  rawCell _ _ := .ok (.object 15)
  unicode_injective _ _ h := Atom.text.inj h
  bytes_ne_unicode _ _ h := Atom.noConfusion h
  unboundLocal_injective _ _ h := h
  apply_globals _ := rfl
  apply_str _ _ := rfl
  apply_tupleValues _ _ := rfl
  apply_loadDeletedName _ _ _ h := if_neg h
  apply_loadDeletedName_deleted _ _ := rfl

/-- `str(b"x")` -/
def strOfBytes : CodegenExpr :=
  .call (.load "str" (.global 0))
    (.positional (.load "" (.constant (.bytes "x".toByteArray))) .nil) .nil

end DietPython.Jit
