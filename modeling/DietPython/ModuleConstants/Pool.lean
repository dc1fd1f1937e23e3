import DietPython.Blocks.Constants
import Mathlib

/-!
# The constant pool of a module

Code generation finds the Python objects that it needs by index in a pool. The explicit constants
of a module come first, one entry for each; what code generation needs besides is interned behind
them, once for each value. `ids` has the first index of each value.
-/

namespace DietPython.ModuleConstants

open Blocks

inductive ModuleConstantValue
  | unicode (bytes : ByteArray)
  | bytes (bytes : ByteArray)
  | int (value : ℤ)
  | bigInt (text : String)
  | floatBits (bits : UInt64)
  | runtimeName (bytes : ByteArray)
  deriving DecidableEq

namespace ModuleConstantValue

/-- A value that the collector interns. -/
def IsInterned : ModuleConstantValue → Prop
  | unicode _ | int _ => True
  | _ => False

end ModuleConstantValue

/-! ## Values by index -/

section Values

variable (values : List ModuleConstantValue) (index : ℕ)

def constantStringBytesValue : Option ByteArray :=
  match values[index]? with
  | some (.unicode bytes) | some (.bytes bytes) => some bytes
  | _ => none

def constantStringValue : Option String :=
  match values[index]? with
  | some (.unicode bytes) | some (.bytes bytes) => String.fromUTF8? bytes
  | _ => none

def constantRuntimeNameValue : Option String :=
  match values[index]? with
  | some (.runtimeName bytes) => String.fromUTF8? bytes
  | _ => none

end Values

theorem toUTF8_of_fromUTF8? {bytes : ByteArray} {text : String}
    (h : String.fromUTF8? bytes = some text) : text.toUTF8 = bytes := by
  unfold String.fromUTF8? at h
  split_ifs at h
  cases h
  rfl

theorem constantStringValue_eq_bind (values : List ModuleConstantValue) (index : ℕ) :
    constantStringValue values index =
      (constantStringBytesValue values index).bind String.fromUTF8? := by
  unfold constantStringValue constantStringBytesValue
  split <;> rfl

/-- A constant with a text has the bytes of the text. -/
theorem constantStringBytesValue_of_constantStringValue {values : List ModuleConstantValue}
    {index : ℕ} {text : String} (h : constantStringValue values index = some text) :
    constantStringBytesValue values index = some text.toUTF8 := by
  rw [constantStringValue_eq_bind] at h
  obtain ⟨bytes, hbytes, htext⟩ := Option.bind_eq_some_iff.mp h
  rw [hbytes, toUTF8_of_fromUTF8? htext]

/-! ## The pool -/

structure ModuleCodegenConstants where
  values : List ModuleConstantValue
  ids : List (ModuleConstantValue × ℕ)
  values_of_id : ∀ value id, ids.lookup value = some id → values[id]? = some value
  id_of_mem : ∀ value ∈ values, (ids.lookup value).isSome

namespace ModuleCodegenConstants

/-- `lookup_id`; the `require` functions panic if it gives nothing. -/
def lookupId (pool : ModuleCodegenConstants) (value : ModuleConstantValue) : Option ℕ :=
  pool.ids.lookup value

theorem lookupId_isSome {pool : ModuleCodegenConstants} {value : ModuleConstantValue} :
    (pool.lookupId value).isSome ↔ value ∈ pool.values := by
  constructor
  · intro h
    obtain ⟨id, hid⟩ := Option.isSome_iff_exists.mp h
    exact List.mem_of_getElem? (pool.values_of_id value id hid)
  · exact pool.id_of_mem value

def empty : ModuleCodegenConstants where
  values := []
  ids := []
  values_of_id := nofun
  id_of_mem := nofun

theorem values_of_id_push (pool : ModuleCodegenConstants) (pushed : ModuleConstantValue)
    {ids : List (ModuleConstantValue × ℕ)}
    (hids : ids = pool.ids ∨ ids = (pushed, pool.values.length) :: pool.ids) :
    ∀ value id, ids.lookup value = some id → (pool.values ++ [pushed])[id]? = some value := by
  intro value id h
  have hold : pool.ids.lookup value = some id → (pool.values ++ [pushed])[id]? = some value := by
    intro h
    have hvalue := pool.values_of_id value id h
    rw [List.getElem?_append_left (List.getElem?_eq_some_iff.mp hvalue).1]
    exact hvalue
  rcases hids with rfl | rfl
  · exact hold h
  · rw [List.lookup_cons] at h
    split at h
    · next heq =>
      cases h
      rw [beq_iff_eq.mp heq]
      exact List.getElem?_concat_length
    · exact hold h

theorem id_of_mem_cons (pool : ModuleCodegenConstants) (pushed : ModuleConstantValue) :
    ∀ value ∈ pool.values ++ [pushed],
      (((pushed, pool.values.length) :: pool.ids).lookup value).isSome := by
  intro value hvalue
  rw [List.lookup_cons]
  split
  · rfl
  · next hne =>
    rcases List.mem_append.mp hvalue with h | h
    · exact pool.id_of_mem value h
    · rw [List.mem_singleton.mp h, beq_self_eq_true] at hne
      cases hne

theorem id_of_mem_concat (pool : ModuleCodegenConstants) {pushed : ModuleConstantValue}
    (h : (pool.ids.lookup pushed).isSome) :
    ∀ value ∈ pool.values ++ [pushed], (pool.ids.lookup value).isSome := by
  intro value hvalue
  rcases List.mem_append.mp hvalue with hold | hnew
  · exact pool.id_of_mem value hold
  · rwa [List.mem_singleton.mp hnew]

/-- The end of `push_explicit_constant_expr`: a new entry, even for a value that has one. -/
def pushExplicit (pool : ModuleCodegenConstants) (value : ModuleConstantValue) :
    ModuleCodegenConstants :=
  if h : (pool.ids.lookup value).isSome then
    ⟨pool.values ++ [value], pool.ids, pool.values_of_id_push value (Or.inl rfl),
      pool.id_of_mem_concat h⟩
  else
    ⟨pool.values ++ [value], (value, pool.values.length) :: pool.ids,
      pool.values_of_id_push value (Or.inr rfl), pool.id_of_mem_cons value⟩

def intern (pool : ModuleCodegenConstants) (value : ModuleConstantValue) :
    ModuleCodegenConstants :=
  if (pool.ids.lookup value).isSome then pool
  else
    ⟨pool.values ++ [value], (value, pool.values.length) :: pool.ids,
      pool.values_of_id_push value (Or.inr rfl), pool.id_of_mem_cons value⟩

def internUnicodeBytes (pool : ModuleCodegenConstants) (bytes : ByteArray) :
    ModuleCodegenConstants :=
  pool.intern (.unicode bytes)

def internInt (pool : ModuleCodegenConstants) (value : ℤ) : ModuleCodegenConstants :=
  pool.intern (.int value)

@[simp] theorem values_pushExplicit (pool : ModuleCodegenConstants)
    (value : ModuleConstantValue) : (pool.pushExplicit value).values = pool.values ++ [value] := by
  unfold pushExplicit
  split_ifs <;> rfl

/-- A value that is in the pool is not interned again. -/
theorem intern_of_mem {pool : ModuleCodegenConstants} {value : ModuleConstantValue}
    (h : value ∈ pool.values) : pool.intern value = pool :=
  if_pos (pool.id_of_mem value h)

theorem values_intern (pool : ModuleCodegenConstants) (value : ModuleConstantValue) :
    (pool.intern value).values =
      if value ∈ pool.values then pool.values else pool.values ++ [value] := by
  by_cases h : value ∈ pool.values
  · rw [intern_of_mem h, if_pos h]
  · have hid : ¬ (pool.ids.lookup value).isSome := fun hid => h (lookupId_isSome.mp hid)
    rw [intern, if_neg hid, if_neg h]

/-! ## Many values -/

def internAll (pool : ModuleCodegenConstants) (values : List ModuleConstantValue) :
    ModuleCodegenConstants :=
  values.foldl intern pool

@[simp] theorem internAll_nil (pool : ModuleCodegenConstants) : pool.internAll [] = pool := rfl

@[simp] theorem internAll_cons (pool : ModuleCodegenConstants) (value : ModuleConstantValue)
    (values : List ModuleConstantValue) :
    pool.internAll (value :: values) = (pool.intern value).internAll values := rfl

theorem internAll_append (pool : ModuleCodegenConstants) (first second : List ModuleConstantValue) :
    pool.internAll (first ++ second) = (pool.internAll first).internAll second :=
  List.foldl_append

theorem mem_values_intern {pool : ModuleCodegenConstants} {value interned : ModuleConstantValue} :
    value ∈ (pool.intern interned).values ↔ value ∈ pool.values ∨ value = interned := by
  rw [values_intern]
  split_ifs with h
  · constructor
    · exact Or.inl
    · rintro (hold | rfl)
      · exact hold
      · exact h
  · rw [List.mem_append, List.mem_singleton]

theorem mem_values_internAll {pool : ModuleCodegenConstants} {value : ModuleConstantValue}
    {values : List ModuleConstantValue} :
    value ∈ (pool.internAll values).values ↔ value ∈ pool.values ∨ value ∈ values := by
  induction values generalizing pool with
  | nil => simp
  | cons interned values ih =>
    rw [internAll_cons, ih, mem_values_intern, List.mem_cons, or_assoc]

/-- Intern strings. -/
def internTexts (pool : ModuleCodegenConstants) (texts : List ByteArray) :
    ModuleCodegenConstants :=
  pool.internAll (texts.map .unicode)

@[simp] theorem internTexts_nil (pool : ModuleCodegenConstants) : pool.internTexts [] = pool := rfl

@[simp] theorem internTexts_cons (pool : ModuleCodegenConstants) (text : ByteArray)
    (texts : List ByteArray) :
    pool.internTexts (text :: texts) = (pool.internUnicodeBytes text).internTexts texts := rfl

theorem internTexts_append (pool : ModuleCodegenConstants) (first second : List ByteArray) :
    pool.internTexts (first ++ second) = (pool.internTexts first).internTexts second := by
  unfold internTexts
  rw [List.map_append, internAll_append]

/-! ## Pools behind the explicit constants -/

/-- The pool has these explicit constants first, and behind them only interned values. -/
def Extends (pool : ModuleCodegenConstants) (explicit : List ModuleConstantValue) : Prop :=
  ∃ interned, pool.values = explicit ++ interned ∧ ∀ value ∈ interned, value.IsInterned

variable {pool : ModuleCodegenConstants} {explicit : List ModuleConstantValue}

theorem Extends.intern (h : pool.Extends explicit) {value : ModuleConstantValue}
    (hvalue : value.IsInterned) : (pool.intern value).Extends explicit := by
  obtain ⟨interned, hvalues, hinterned⟩ := h
  unfold Extends
  rw [values_intern]
  split_ifs
  · exact ⟨interned, hvalues, hinterned⟩
  · refine ⟨interned ++ [value], ?_, ?_⟩
    · rw [hvalues, List.append_assoc]
    · intro v hv
      rcases List.mem_append.mp hv with hold | hnew
      · exact hinterned v hold
      · rwa [List.mem_singleton.mp hnew]

theorem Extends.internAll (h : pool.Extends explicit) {values : List ModuleConstantValue}
    (hvalues : ∀ value ∈ values, value.IsInterned) : (pool.internAll values).Extends explicit := by
  induction values generalizing pool with
  | nil => exact h
  | cons value values ih =>
    exact ih (h.intern (hvalues value List.mem_cons_self))
      fun v hv => hvalues v (List.mem_cons_of_mem _ hv)

theorem Extends.internTexts (h : pool.Extends explicit) (texts : List ByteArray) :
    (pool.internTexts texts).Extends explicit := by
  refine h.internAll ?_
  intro value hvalue
  obtain ⟨text, -, rfl⟩ := List.mem_map.mp hvalue
  trivial

theorem Extends.getElem? (h : pool.Extends explicit) {index : ℕ} {value : ModuleConstantValue}
    (hvalue : explicit[index]? = some value) : pool.values[index]? = some value := by
  obtain ⟨interned, hvalues, -⟩ := h
  rw [hvalues, List.getElem?_append_left (List.getElem?_eq_some_iff.mp hvalue).1]
  exact hvalue

theorem Extends.getElem?_cases (h : pool.Extends explicit) {index : ℕ}
    {value : ModuleConstantValue} (hvalue : pool.values[index]? = some value) :
    explicit[index]? = some value ∨ value.IsInterned := by
  obtain ⟨interned, hvalues, hinterned⟩ := h
  rw [hvalues] at hvalue
  by_cases hlt : index < explicit.length
  · rw [List.getElem?_append_left hlt] at hvalue
    exact Or.inl hvalue
  · rw [List.getElem?_append_right (Nat.le_of_not_lt hlt)] at hvalue
    exact Or.inr (hinterned value (List.mem_of_getElem? hvalue))

/-- Runtime names are explicit constants. -/
theorem Extends.constantRuntimeNameValue (h : pool.Extends explicit) (index : ℕ) :
    constantRuntimeNameValue pool.values index = constantRuntimeNameValue explicit index := by
  unfold ModuleConstants.constantRuntimeNameValue
  cases hvalue : pool.values[index]? with
  | none =>
    cases hexplicit : explicit[index]? with
    | none => rfl
    | some value => rw [h.getElem? hexplicit] at hvalue; cases hvalue
  | some value =>
    rcases h.getElem?_cases hvalue with hexplicit | hinterned
    · rw [hexplicit]
    · cases hexplicit : explicit[index]? with
      | none => cases value <;> first | rfl | exact hinterned.elim
      | some other =>
        rw [h.getElem? hexplicit] at hvalue
        cases hvalue
        rfl

/-- The text of a constant of the pool is that of the explicit constant, or interned. -/
theorem Extends.constantStringBytesValue (h : pool.Extends explicit) {index : ℕ}
    {bytes : ByteArray} (hbytes : constantStringBytesValue pool.values index = some bytes) :
    constantStringBytesValue explicit index = some bytes ∨ .unicode bytes ∈ pool.values := by
  unfold ModuleConstants.constantStringBytesValue at hbytes ⊢
  cases hvalue : pool.values[index]? with
  | none => rw [hvalue] at hbytes; cases hbytes
  | some value =>
    rcases h.getElem?_cases hvalue with hexplicit | hinterned
    · rw [hvalue] at hbytes
      rw [hexplicit]
      exact Or.inl hbytes
    · rw [hvalue] at hbytes
      cases value with
      | unicode text => cases hbytes; exact Or.inr (List.mem_of_getElem? hvalue)
      | bytes _ | bigInt _ | floatBits _ | runtimeName _ => exact hinterned.elim
      | int _ => cases hbytes

theorem Extends.constantStringBytesValue_of_explicit (h : pool.Extends explicit) {index : ℕ}
    {bytes : ByteArray} (hbytes : ModuleConstants.constantStringBytesValue explicit index =
      some bytes) :
    ModuleConstants.constantStringBytesValue pool.values index = some bytes := by
  unfold ModuleConstants.constantStringBytesValue at hbytes ⊢
  cases hvalue : explicit[index]? with
  | none => rw [hvalue] at hbytes; cases hbytes
  | some value => rwa [h.getElem? hvalue, ← hvalue]

theorem Extends.constantStringValue_of_explicit (h : pool.Extends explicit) {index : ℕ}
    {text : String} (htext : constantStringValue explicit index = some text) :
    constantStringValue pool.values index = some text := by
  rw [constantStringValue_eq_bind] at htext ⊢
  obtain ⟨bytes, hbytes, htext⟩ := Option.bind_eq_some_iff.mp htext
  rw [h.constantStringBytesValue_of_explicit hbytes]
  exact htext

theorem Extends.constantStringValue (h : pool.Extends explicit) {index : ℕ} {text : String}
    (htext : constantStringValue pool.values index = some text) :
    constantStringValue explicit index = some text ∨ .unicode text.toUTF8 ∈ pool.values := by
  rw [constantStringValue_eq_bind] at htext ⊢
  obtain ⟨bytes, hbytes, htext⟩ := Option.bind_eq_some_iff.mp htext
  rcases h.constantStringBytesValue hbytes with hexplicit | hmem
  · rw [hexplicit]
    exact Or.inl htext
  · rw [toUTF8_of_fromUTF8? htext]
    exact Or.inr hmem

end ModuleCodegenConstants

/-! ## Explicit constants -/

/-- The value of an explicit constant: a literal or a runtime name. There is a panic at any other
expression. Integers that are no `i64` are passed on as text. -/
def explicitConstantValue : LocatedCoreBlockPyExpr → Option ModuleConstantValue
  | .literal _ (.stringLiteral value) => some (.unicode value.toUTF8)
  | .literal _ (.bytesLiteral value) => some (.bytes ⟨value.toArray⟩)
  | .literal _ (.numberLiteral (.int value)) =>
    some (if value < 9223372036854775808 then .int value else .bigInt (toString value))
  | .literal _ (.numberLiteral (.float bits)) => some (.floatBits bits)
  | .load name =>
    if name.location = .runtimeName then some (.runtimeName name.id.toUTF8) else none
  | _ => none

def pushExplicitConstantExpr (pool : ModuleCodegenConstants) (expr : LocatedCoreBlockPyExpr) :
    Option ModuleCodegenConstants :=
  (explicitConstantValue expr).map pool.pushExplicit

theorem values_foldlM_pushExplicit {exprs : List LocatedCoreBlockPyExpr}
    {pool pool' : ModuleCodegenConstants}
    (h : exprs.foldlM pushExplicitConstantExpr pool = some pool') :
    ∃ explicit, exprs.mapM explicitConstantValue = some explicit ∧
      pool'.values = pool.values ++ explicit := by
  induction exprs generalizing pool with
  | nil =>
    cases h
    exact ⟨[], rfl, (List.append_nil _).symm⟩
  | cons expr exprs ih =>
    rw [List.foldlM_cons] at h
    obtain ⟨pushed, hpushed, h⟩ := Option.bind_eq_some_iff.mp h
    obtain ⟨value, hvalue, rfl⟩ := Option.map_eq_some_iff.mp hpushed
    obtain ⟨explicit, hexplicit, hvalues⟩ := ih h
    refine ⟨value :: explicit, ?_, ?_⟩
    · rw [List.mapM_cons, hvalue, hexplicit]
      rfl
    · rw [hvalues, ModuleCodegenConstants.values_pushExplicit, List.append_assoc]
      rfl

end DietPython.ModuleConstants
