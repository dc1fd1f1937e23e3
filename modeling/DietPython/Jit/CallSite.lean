import DietPython.Lib.Logged

/-!
# Call code generation

A call expression has a callable, positional parts (`e` or `*e`) and keyword parts (`name=e` or
`**e`). Code generation has three shapes for it:

1. no unpacking and no keywords: a vectorcall on the evaluated operands;
2. no unpacking: an argument tuple, and a dict filled by item assignment;
3. with unpacking: a list filled by `append` and `extend`, a dict filled by item assignment and
   `update`, and a tuple made of the list.

The list, the dict and the tuple of 2 and 3 are made by the objects that the module globals (then
the builtins) bind to `list`, `dict` and `tuple_from_iter` at that moment. `Seq.foreign` and
`Kw.foreign` are what such an object gives when it is not the builtin one.

`pyCall` is the evaluation of a call in the language, in CPython's order.
-/

namespace DietPython.Jit

open LoggedComputations

universe u

/-! ## Call sites -/

inductive PosArg (α : Type*)
  | positional (value : α)
  | starred (value : α)

inductive KwArg (α : Type*)
  | named (arg : String) (value : α)
  | starred (value : α)

namespace PosArg

variable {α β : Type*}

def isStarred : PosArg α → Bool
  | positional _ => false
  | starred _ => true

def expr : PosArg α → α
  | positional value | starred value => value

def map (f : α → β) : PosArg α → PosArg β
  | positional value => positional (f value)
  | starred value => starred (f value)

end PosArg

namespace KwArg

variable {α β : Type*}

def isStarred : KwArg α → Bool
  | named _ _ => false
  | starred _ => true

def name? : KwArg α → Option String
  | named arg _ => some arg
  | starred _ => none

def map (f : α → β) : KwArg α → KwArg β
  | named arg value => named arg (f value)
  | starred value => starred (f value)

end KwArg

structure CallSite (α : Type*) where
  callable : α
  args : List (PosArg α)
  keywords : List (KwArg α)

/-- The call with other operands in the same places. -/
def CallSite.map {α β : Type*} (c : CallSite α) (f : α → β) : CallSite β where
  callable := f c.callable
  args := c.args.map (PosArg.map f)
  keywords := c.keywords.map (KwArg.map f)

/-- A call as the parser accepts it: no keyword name is written twice. -/
structure ParsedCall (α : Type*) extends CallSite α where
  named_nodup : (keywords.filterMap KwArg.name?).Nodup

/-- Some argument is `*e` or `**e`. -/
def CallSite.hasUnpack {α : Type*} (c : CallSite α) : Bool :=
  c.args.any PosArg.isStarred || c.keywords.any KwArg.isStarred

@[simp] theorem CallSite.hasUnpack_map {α β : Type*} (c : CallSite α) (f : α → β) :
    (c.map f).hasUnpack = c.hasUnpack := by
  have hargs : PosArg.isStarred ∘ PosArg.map f = PosArg.isStarred := by
    funext arg
    cases arg <;> rfl
  have hkeywords : KwArg.isStarred ∘ KwArg.map f = KwArg.isStarred := by
    funext keyword
    cases keyword <;> rfl
  simp [hasUnpack, map, List.any_map, hargs, hkeywords]

/-! ## The runtime around a call -/

/-- The list under construction, or the argument tuple made of it. -/
inductive Seq (V : Type u)
  | native (items : List V)
  | foreign (object : V)

/-- The keyword dict under construction. -/
inductive Kw (V : Type u)
  | native (items : List (V × V))
  | foreign (object : V)

/-- What argument building does to objects that are not the builtin ones. -/
inductive HelperOp (V : Type u)
  | make (f : V)
  | getAttr (object : V) (name : String)
  | apply (f arg : V)
  | setItem (object key value : V)
  | toTuple (f : V) (list : Seq V)

/-- What evaluating a call needs of the runtime. -/
structure Runtime (Ev Err : Type*) (V : Type u) where
  listType : V
  dictType : V
  tupleType : V
  tupleFromIter : V
  str : String → V
  str_injective : Function.Injective str
  /-- The object has a `keys` method. -/
  isMapping : V → Bool
  /-- `load_global_obj` without a slot: the module dict, then the builtins. -/
  loadGlobal : String → Logged Ev Err V
  iterate : V → Logged Ev Err (List V)
  readMapping : V → Logged Ev Err (List (V × V))
  /-- An iterable of pairs, which `dict.update` accepts in place of a mapping. -/
  readPairs : V → Logged Ev Err (List (V × V))
  helper : HelperOp V → Logged Ev Err V
  call : V → Seq V → Option (Kw V) → Logged Ev Err V
  /-- `TypeError`: a keyword argument is given twice. -/
  multipleValues : V → Err
  /-- `TypeError`: the operand of `**` is not a mapping. -/
  notMapping : V → Err

variable {Ev Err : Type*} {V : Type u} [DecidableEq V]

/-- Item assignment of a dict: an old key keeps its place. -/
def dictInsert (kvs : List (V × V)) (key value : V) : List (V × V) :=
  if key ∈ kvs.map Prod.fst then kvs.map fun kv => if kv.1 = key then (key, value) else kv
  else kvs ++ [(key, value)]

def dictUpdate (kvs items : List (V × V)) : List (V × V) :=
  items.foldl (fun acc kv => dictInsert acc kv.1 kv.2) kvs

/-! ## Generated code -/

section Emit

variable (rt : Runtime Ev Err V)

/-- `list()` on the object bound to `list`. -/
def makeList (f : V) : Logged Ev Err (Seq V) :=
  if f = rt.listType then pure (.native [])
  else do
    let o ← rt.helper (.make f)
    pure (.foreign o)

/-- `dict()` on the object bound to `dict`. -/
def makeDict (f : V) : Logged Ev Err (Kw V) :=
  if f = rt.dictType then pure (.native [])
  else do
    let o ← rt.helper (.make f)
    pure (.foreign o)

/-- One positional part: the method is looked up, then the operand is evaluated, then the method
is called. -/
def emitPositional (s : Seq V) (arg : PosArg (Logged Ev Err V)) : Logged Ev Err (Seq V) :=
  match s with
  | .native items => do
    let v ← arg.expr
    let new ← if arg.isStarred then rt.iterate v else pure [v]
    pure (.native (items ++ new))
  | .foreign o => do
    let method ← rt.helper (.getAttr o (if arg.isStarred then "extend" else "append"))
    let v ← arg.expr
    let _ ← rt.helper (.apply method v)
    pure (.foreign o)

def emitPositionals : Seq V → List (PosArg (Logged Ev Err V)) → Logged Ev Err (Seq V)
  | s, [] => pure s
  | s, arg :: rest => do
    let s' ← emitPositional rt s arg
    emitPositionals s' rest

/-- One keyword part: an item assignment, or a call of `update`. -/
def emitKeyword (d : Kw V) (keyword : KwArg (Logged Ev Err V)) : Logged Ev Err (Kw V) :=
  match d, keyword with
  | .native kvs, .named arg value => do
    let v ← value
    pure (.native (dictInsert kvs (rt.str arg) v))
  | .native kvs, .starred value => do
    let v ← value
    let items ← if rt.isMapping v then rt.readMapping v else rt.readPairs v
    pure (.native (dictUpdate kvs items))
  | .foreign o, .named arg value => do
    let v ← value
    let _ ← rt.helper (.setItem o (rt.str arg) v)
    pure (.foreign o)
  | .foreign o, .starred value => do
    let method ← rt.helper (.getAttr o "update")
    let v ← value
    let _ ← rt.helper (.apply method v)
    pure (.foreign o)

def emitKeywords : Kw V → List (KwArg (Logged Ev Err V)) → Logged Ev Err (Kw V)
  | d, [] => pure d
  | d, keyword :: rest => do
    let d' ← emitKeyword rt d keyword
    emitKeywords d' rest

/-- `tuple_from_iter(args)` on the object bound to that name. -/
def makeTuple (f : V) (list : Seq V) : Logged Ev Err (Seq V) :=
  match list with
  | .native items =>
    if f = rt.tupleType ∨ f = rt.tupleFromIter then pure (.native items)
    else do
      let o ← rt.helper (.toTuple f list)
      pure (.foreign o)
  | .foreign _ => do
    let o ← rt.helper (.toTuple f list)
    pure (.foreign o)

/-- The operands in order. -/
def evalOperands : List (PosArg (Logged Ev Err V)) → Logged Ev Err (List V)
  | [] => pure []
  | arg :: rest => do
    let v ← arg.expr
    let vs ← evalOperands rest
    pure (v :: vs)

/-- Shape 3. -/
def emitUnpackCall (c : CallSite (Logged Ev Err V)) : Logged Ev Err V := do
  let f ← c.callable
  let listObj ← rt.loadGlobal "list"
  let argsList ← makeList rt listObj
  let kwargs ← if c.keywords = [] then pure none
    else do
      let dictObj ← rt.loadGlobal "dict"
      let kwargs ← makeDict rt dictObj
      pure (some kwargs)
  let argsList ← emitPositionals rt argsList c.args
  let kwargs ← match kwargs with
    | none => pure none
    | some kwargs => do
      let kwargs ← emitKeywords rt kwargs c.keywords
      pure (some kwargs)
  let tupleObj ← rt.loadGlobal "tuple_from_iter"
  let args ← makeTuple rt tupleObj argsList
  rt.call f args kwargs

/-- Shapes 1 and 2. -/
def emitPlainCall (c : CallSite (Logged Ev Err V)) : Logged Ev Err V := do
  let f ← c.callable
  let args ← evalOperands c.args
  if c.keywords = [] then rt.call f (.native args) none
  else do
    let dictObj ← rt.loadGlobal "dict"
    let kwargs ← makeDict rt dictObj
    let kwargs ← emitKeywords rt kwargs c.keywords
    rt.call f (.native args) (some kwargs)

def emitCall (c : CallSite (Logged Ev Err V)) : Logged Ev Err V :=
  if c.hasUnpack then emitUnpackCall rt c else emitPlainCall rt c

end Emit

/-! ## The call in the language -/

section Py

variable (rt : Runtime Ev Err V)

/-- The positional arguments, each `*e` unpacked where it stands. -/
def pyPositionals : List (PosArg (Logged Ev Err V)) → Logged Ev Err (List V)
  | [] => pure []
  | arg :: rest => do
    let v ← arg.expr
    let new ← if arg.isStarred then rt.iterate v else pure [v]
    let vs ← pyPositionals rest
    pure (new ++ vs)

/-- Merging keyword arguments refuses a key that is already there. -/
def pyMerge : List (V × V) → List (V × V) → Logged Ev Err (List (V × V))
  | acc, [] => pure acc
  | acc, kv :: rest =>
    if kv.1 ∈ acc.map Prod.fst then Logged.raise (rt.multipleValues kv.1)
    else pyMerge (acc ++ [kv]) rest

/-- Merging the operand of a `**e`. -/
def pyMergeMapping (acc : List (V × V)) (v : V) : Logged Ev Err (List (V × V)) :=
  if rt.isMapping v then do
    let items ← rt.readMapping v
    pyMerge rt acc items
  else Logged.raise (rt.notMapping v)

/-- The keyword arguments. A run of `name=e` is evaluated as a whole and then merged, a `**e` is
evaluated and merged where it stands. -/
def pyKeywords : List (V × V) → List (V × V) → List (KwArg (Logged Ev Err V)) →
    Logged Ev Err (List (V × V))
  | acc, pending, [] => pyMerge rt acc pending
  | acc, pending, .named arg value :: rest => do
    let v ← value
    pyKeywords acc (pending ++ [(rt.str arg, v)]) rest
  | acc, pending, .starred value :: rest => do
    let acc ← pyMerge rt acc pending
    let v ← value
    let acc ← pyMergeMapping rt acc v
    pyKeywords acc [] rest

/-- The keyword arguments of a call, if it has any. -/
def pyKwargs (keywords : List (KwArg (Logged Ev Err V))) : Logged Ev Err (Option (Kw V)) :=
  if keywords = [] then pure none
  else do
    let kvs ← pyKeywords rt [] [] keywords
    pure (some (.native kvs))

/-- Evaluating a call. A lone `*e` is unpacked by the call itself, after the keywords. -/
def pyCall (c : CallSite (Logged Ev Err V)) : Logged Ev Err V := do
  let f ← c.callable
  match c.args with
  | [.starred value] => do
    let v ← value
    let kwargs ← pyKwargs rt c.keywords
    let args ← rt.iterate v
    rt.call f (.native args) kwargs
  | args => do
    let args ← pyPositionals rt args
    let kwargs ← pyKwargs rt c.keywords
    rt.call f (.native args) kwargs

end Py

/-! ## Equations -/

section Positionals

variable (rt : Runtime Ev Err V)

omit [DecidableEq V] in
/-- On the builtin list, the generated code evaluates and unpacks where Python does. -/
theorem emitPositionals_native (items : List V) (args : List (PosArg (Logged Ev Err V))) :
    emitPositionals rt (.native items) args =
      (pyPositionals rt args >>= fun vs => pure (.native (items ++ vs))) := by
  induction args generalizing items with
  | nil => simp [emitPositionals, pyPositionals]
  | cons arg rest ih =>
    cases arg <;>
      simp [emitPositionals, emitPositional, pyPositionals, PosArg.isStarred, PosArg.expr, ih]

omit [DecidableEq V] in
/-- Without `*`, there is nothing to unpack. -/
theorem evalOperands_eq_pyPositionals {args : List (PosArg (Logged Ev Err V))}
    (h : args.any PosArg.isStarred = false) : evalOperands args = pyPositionals rt args := by
  induction args with
  | nil => rfl
  | cons arg rest ih =>
    simp only [List.any_cons, Bool.or_eq_false_iff] at h
    simp only [evalOperands, pyPositionals, h.1, ih h.2, Bool.false_eq_true, if_false, pure_bind,
      List.singleton_append]

omit [DecidableEq V] in
theorem evalOperands_length {args : List (PosArg (Logged Ev Err V))} {vs : List V}
    {l l' : List Ev} (h : evalOperands args l = (.ok vs, l')) : vs.length = args.length := by
  induction args generalizing vs l l' with
  | nil =>
    obtain rfl : [] = vs := Except.ok.inj (Prod.mk.inj h).1
    rfl
  | cons arg rest ih =>
    obtain ⟨v, l₁, -, h⟩ := Logged.bind_eq_ok l h
    obtain ⟨ws, l₂, hws, h⟩ := Logged.bind_eq_ok l₁ h
    obtain rfl : v :: ws = vs := Except.ok.inj (Prod.mk.inj h).1
    rw [List.length_cons, List.length_cons, ih hws]

end Positionals

section Equations

variable (rt : Runtime Ev Err V) (c : CallSite (Logged Ev Err V))

/-- Unless a lone `*e` stands before keywords, a call evaluates its arguments as they are
written. -/
theorem pyCall_eq_inOrder (h : (∃ e, c.args = [.starred e]) → c.keywords = []) :
    pyCall rt c = (c.callable >>= fun f => pyPositionals rt c.args >>= fun args =>
      pyKwargs rt c.keywords >>= fun kwargs => rt.call f (.native args) kwargs) := by
  unfold pyCall
  congr 1
  funext f
  split
  · next e he =>
    simp [he, h ⟨e, he⟩, pyKwargs, pyPositionals, PosArg.expr, PosArg.isStarred]
  · rfl

theorem emitUnpackCall_no_keywords (h : c.keywords = []) :
    emitUnpackCall rt c = (c.callable >>= fun f => rt.loadGlobal "list" >>= fun o =>
      makeList rt o >>= fun s => emitPositionals rt s c.args >>= fun s =>
      rt.loadGlobal "tuple_from_iter" >>= fun t => makeTuple rt t s >>= fun args =>
      rt.call f args none) := by
  simp [emitUnpackCall, h]

theorem emitUnpackCall_keywords (h : c.keywords ≠ []) :
    emitUnpackCall rt c = (c.callable >>= fun f => rt.loadGlobal "list" >>= fun o =>
      makeList rt o >>= fun s => rt.loadGlobal "dict" >>= fun o => makeDict rt o >>= fun d =>
      emitPositionals rt s c.args >>= fun s => emitKeywords rt d c.keywords >>= fun d =>
      rt.loadGlobal "tuple_from_iter" >>= fun t => makeTuple rt t s >>= fun args =>
      rt.call f args (some d)) := by
  simp [emitUnpackCall, h]

theorem emitPlainCall_no_keywords (h : c.keywords = []) :
    emitPlainCall rt c = (c.callable >>= fun f => evalOperands c.args >>= fun args =>
      rt.call f (.native args) none) := by
  simp [emitPlainCall, h]

theorem emitPlainCall_keywords (h : c.keywords ≠ []) :
    emitPlainCall rt c = (c.callable >>= fun f => evalOperands c.args >>= fun args =>
      rt.loadGlobal "dict" >>= fun o => makeDict rt o >>= fun d =>
      emitKeywords rt d c.keywords >>= fun d => rt.call f (.native args) (some d)) := by
  simp [emitPlainCall, h]

theorem pyCall_lone {e : Logged Ev Err V} (h : c.args = [.starred e]) :
    pyCall rt c = (c.callable >>= fun f => e >>= fun v => pyKwargs rt c.keywords >>= fun kwargs =>
      rt.iterate v >>= fun args => rt.call f (.native args) kwargs) := by
  simp [pyCall, h]

end Equations

end DietPython.Jit
