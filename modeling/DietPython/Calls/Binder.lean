import DietPython.Calls.ParamSpec

/-!
# Binding the arguments of a call

`build_function_bound_args` fills one cell for each parameter from the positional values and the
keyword pairs of a vectorcall. A cell that the call leaves null is filled by the compiled entry with
the default.

Keywords are strings of Python, which may hold surrogates. Parameter names are strings of Rust,
which may not.
-/

namespace DietPython.Calls

/-! ## Strings -/

inductive CodePoint
  | scalar (c : Char)
  | surrogate (n : Fin 2048)
  deriving DecidableEq

/-- A `str` of Python. -/
abbrev PyStr := List CodePoint

def PyStr.ofString (s : String) : PyStr := s.toList.map .scalar

/-- The character of a code point. -/
def CodePoint.char? : CodePoint → Option Char
  | .scalar c => some c
  | .surrogate _ => none

/-- `py_string`: the UTF-8 text of a string, which a string with a surrogate does not have. -/
def pyString (key : PyStr) : Option String := (key.mapM CodePoint.char?).map String.ofList

/-- The string holds a surrogate. -/
def PyStr.HasSurrogate (key : PyStr) : Prop := ∃ n, CodePoint.surrogate n ∈ key

theorem mapM_char?_cons (c : CodePoint) (key : PyStr) :
    (c :: key : PyStr).mapM CodePoint.char? =
      c.char?.bind fun x => (key.mapM CodePoint.char?).map (x :: ·) := by
  rw [List.mapM_cons]
  cases c.char? with
  | none => rfl
  | some x =>
    cases key.mapM CodePoint.char? with
    | none => rfl
    | some xs => rfl

theorem mapM_char?_eq_some (key : PyStr) (xs : List Char) :
    key.mapM CodePoint.char? = some xs ↔ key = xs.map .scalar := by
  induction key generalizing xs with
  | nil => cases xs <;> simp
  | cons c key ih =>
    rw [mapM_char?_cons]
    cases c with
    | surrogate n => cases xs <;> simp [CodePoint.char?]
    | scalar x =>
      cases xs with
      | nil => simp [CodePoint.char?]
      | cons y ys => simp [CodePoint.char?, ih, and_comm]

/-- The text of a string is a string of Rust with the same characters. -/
theorem pyString_eq_some (key : PyStr) (s : String) :
    pyString key = some s ↔ key = .ofString s := by
  unfold pyString PyStr.ofString
  rw [Option.map_eq_some_iff]
  constructor
  · rintro ⟨xs, hxs, rfl⟩
    rw [mapM_char?_eq_some] at hxs
    rw [hxs, String.toList_ofList]
  · intro h
    exact ⟨s.toList, (mapM_char?_eq_some ..).mpr h, String.ofList_toList⟩

theorem pyString_eq_none (key : PyStr) : pyString key = none ↔ key.HasSurrogate := by
  unfold pyString PyStr.HasSurrogate
  rw [Option.map_eq_none_iff]
  induction key with
  | nil => simp
  | cons c key ih =>
    rw [mapM_char?_cons]
    cases c with
    | surrogate n => simp [CodePoint.char?]
    | scalar x => simpa [CodePoint.char?] using ih

/-! ## Cells -/

inductive BindError
  | typeError (message : String)
  /-- Raised by `PyUnicode_AsUTF8AndSize`. -/
  | unicodeEncodeError
  deriving DecidableEq

def BindError.isTypeError : BindError → Bool
  | typeError _ => true
  | unicodeEncodeError => false

/-- What a parameter is bound to. -/
inductive BoundValue (V : Type)
  | value (v : V)
  | tuple (vs : List V)
  | dict (entries : List (PyStr × V))

/-- `PyDict_SetItem`. -/
def dictSet {V : Type} (entries : List (PyStr × V)) (key : PyStr) (v : V) : List (PyStr × V) :=
  if entries.any (·.1 = key) then entries.map fun e => if e.1 = key then (key, v) else e
  else entries ++ [(key, v)]

/-- `bound_args` and `assigned`. -/
structure Cells (V : Type) where
  bound : ℕ → Option (BoundValue V)
  assigned : ℕ → Bool

namespace Cells

variable {V : Type}

def empty : Cells V := ⟨fun _ => none, fun _ => false⟩

/-- `bound_arg_value_from_borrowed` or `bound_arg_value_from_owned`, and the mark. -/
def set (c : Cells V) (i : ℕ) (v : BoundValue V) : Cells V :=
  ⟨Function.update c.bound i (some v), Function.update c.assigned i true⟩

/-- Put an item into the dict of a cell. -/
def setItem (c : Cells V) (i : ℕ) (key : PyStr) (v : V) : Cells V :=
  match c.bound i with
  | some (.dict entries) =>
    { c with bound := Function.update c.bound i (some (.dict (dictSet entries key v))) }
  | _ => c

end Cells

/-! ## Binding -/

section Bind

variable {V : Type}

def positionalParamIndices (params : List Param) : List ℕ :=
  (params.zipIdx.filter fun e => e.1.kind.isPositional).map Prod.snd

def varargIndex (params : List Param) : Option ℕ := params.findIdx? (·.kind = .varArg)

def kwargIndex (params : List Param) : Option ℕ := params.findIdx? (·.kind = .kwArg)

/-- `param_index`, with the parameter. -/
def findParam (params : List Param) (name : String) : Option (Param × ℕ) :=
  params.zipIdx.find? fun e => e.1.name = name

def bindPositional (cells : Cells V) (values : List (ℕ × V)) : Cells V :=
  values.foldl (fun cells e => cells.set e.1 (.value e.2)) cells

/-- The cell of a variadic parameter, if there is one. -/
def bindVariadic (cells : Cells V) (index : Option ℕ) (v : BoundValue V) : Cells V :=
  match index with
  | some i => cells.set i v
  | none => cells

/-- A keyword that is not for a parameter: into the dict of `**kwargs`, if there is one. -/
def bindSurplus (callableName : String) (params : List Param) (cells : Cells V) (keyName : String)
    (kw : PyStr × V) : Except BindError (Cells V) :=
  match kwargIndex params with
  | some k => .ok (cells.setItem k kw.1 kw.2)
  | none =>
    .error (.typeError s!"{callableName}() got an unexpected keyword argument '{keyName}'")

/-- The body of the keyword loop. -/
def bindKeyword (callableName : String) (params : List Param) (cells : Cells V) (kw : PyStr × V) :
    Except BindError (Cells V) :=
  match pyString kw.1 with
  | none => .error .unicodeEncodeError
  | some keyName =>
    match findParam params keyName with
    | some (param, i) =>
      match param.kind with
      | .posOnly | .varArg | .kwArg => bindSurplus callableName params cells keyName kw
      | .any | .kwOnly =>
        if cells.assigned i then
          .error (.typeError s!"{callableName}() got multiple values for argument '{keyName}'")
        else .ok (cells.set i (.value kw.2))
    | none => bindSurplus callableName params cells keyName kw

def bindKeywords (callableName : String) (params : List Param) (cells : Cells V)
    (kws : List (PyStr × V)) : Except BindError (Cells V) :=
  kws.foldlM (bindKeyword callableName params) cells

/-- The last loop: a parameter that is left without a value needs a default. -/
def checkMissing (callableName : String) (cells : Cells V) :
    List (Param × ℕ) → Except BindError Unit
  | [] => .ok ()
  | (param, i) :: rest =>
    if cells.assigned i || param.kind.isVariadic || param.hasDefault then
      checkMissing callableName cells rest
    else .error (.typeError s!"{callableName}() missing required argument '{param.name}'")

/-- `build_function_bound_args`. The null pointer is `none`. -/
def buildFunctionBoundArgs (callableName : String) (params : List Param) (args : List V)
    (kws : List (PyStr × V)) : Except BindError (List (Option (BoundValue V))) :=
  let capacity := (positionalParamIndices params).length
  if varargIndex params = none ∧ capacity < args.length then
    let plural := if capacity = 1 then "" else "s"
    let verb := if args.length = 1 then "was" else "were"
    .error (.typeError
      (s!"{callableName}() takes {capacity} positional argument{plural} " ++
        s!"but {args.length} {verb} given"))
  else do
    let cells := bindPositional .empty ((positionalParamIndices params).zip args)
    let cells := bindVariadic cells (varargIndex params) (.tuple (args.drop capacity))
    let cells := bindVariadic cells (kwargIndex params) (.dict [])
    let cells ← bindKeywords callableName params cells kws
    checkMissing callableName cells params.zipIdx
    return (List.range params.length).map cells.bound

/-! ## Entering -/

/-- What the compiled entry makes of one argument: a null is replaced by the default, where the
parameter has one. -/
def enterArg (d : FunctionDefaults V) (param : Param × Option ParamDefaultSource)
    (arg : Option (BoundValue V)) : Except BindError (Option (BoundValue V)) :=
  match param.2, arg with
  | some source, none =>
    match d.lookup source with
    | some v => .ok (some (.value v))
    | none => .error (.typeError s!"missing required argument '{param.1.name}'")
  | _, arg => .ok arg

/-- The slots that the body starts with. -/
def enterArgs (d : FunctionDefaults V) (params : List Param) (args : List (Option (BoundValue V))) :
    Except BindError (List (Option (BoundValue V))) :=
  ((iterWithDefaultSources 0 params).zip args).mapM fun e => enterArg d e.1 e.2

end Bind

end DietPython.Calls
