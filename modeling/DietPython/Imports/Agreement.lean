import DietPython.Imports.Statements

/-!
# When lowered imports agree with Python

The lowered code is compared with Python by what the program can see: the events and the exception.
`importsAgree_iff` says for which statements and in which states they are the same.

1. `AttrAgrees` is about the attribute of a module: if it is missing, `import_attr` may take a
   submodule from `sys.modules`, as `IMPORT_FROM` does, but it also makes it an attribute.
2. `StarAgrees` is about the names that `import *` binds.
3. Names that are written into the text must come out of it, and an import of `__future__` in the
   body of the module is not there any more.
-/

namespace DietPython.Imports

open Lockstep

variable {W O E : Type}

/-- The import statement sets an attribute. -/
def ImportEvent.IsWrite : ImportEvent O → Prop
  | .wroteAttr _ _ _ => True
  | _ => False

namespace Interpreter

variable (py : Interpreter W O E)

/-! ## Attributes of modules -/

/-- An attribute is missing, and this is the `__name__` of the object, `None` if it has none. -/
def Misses (o : Value O) (attr : Text) (w : W) (moduleName : Value O) (w' : W) : Prop :=
  ∃ e w₁, py.getattr o attr w = (.error e, w₁) ∧ py.errors.isAttributeError e = true ∧
    py.getattrOrNone o "__name__".toList w₁ = (.ok moduleName, w')

/-- If no submodule is there, `__file__` is read only for the message. -/
def ErrorAgrees (o moduleName : Value O) (w : W) : Prop :=
  match py.getattrOrNone o "__spec__".toList w with
  | (.error _, _) => True
  | (.ok spec, w) =>
    (py.truthyValue moduleName && !spec.isNone && py.initializing spec w) = true ∨
      ∀ e w', py.getattrOrNone o "__file__".toList w = (.error e, w') → e = py.errors.importError

/-- The attribute cannot be set, and that is only reported. -/
def OnlyWarns (o : Value O) (attr : Text) (submodule : Value O) (w : W) : Prop :=
  ∃ e, py.setattr o attr submodule w = .error e ∧ py.errors.isException e = true ∧
    py.warningsRaise w = false

/-- The attribute cannot be set, and that raises `e`. -/
def SetattrRaises (o : Value O) (attr : Text) (submodule : Value O) (w : W) (e : E) : Prop :=
  ∃ e', py.setattr o attr submodule w = .error e' ∧
    if py.errors.isException e' then py.warningsRaise w = true ∧ py.errors.importWarning = e
    else e' = e

/-- Where Python takes a submodule from `sys.modules`, the helper has to take it and must not set
the attribute. -/
def SubmoduleAgrees (o : Value O) (attr : Text) (moduleName : Value O) (w : W) : Prop :=
  match moduleName with
  | .str name =>
    match py.sysModules w (name ++ '.' :: attr) with
    | some submodule => name ≠ [] ∧ submodule.isNone = false ∧ py.OnlyWarns o attr submodule w
    | none => py.ErrorAgrees o moduleName w
  | _ =>
    match py.loadedSubmodule moduleName attr w with
    | some (_, submodule) => py.SetattrRaises o attr submodule w (py.importFromError o w)
    | none => py.ErrorAgrees o moduleName w

def AttrAgrees (o : Value O) (attr : Text) (w : W) : Prop :=
  ∀ moduleName w', py.Misses o attr w moduleName w' → py.SubmoduleAgrees o attr moduleName w'

section Attributes

variable {py} {o moduleName : Value O} {attr : Text} {w w' : W}

theorem cannotImport_eq_iff : py.cannotImport o moduleName w = py.importFromError o w ↔
    py.ErrorAgrees o moduleName w := by
  unfold cannotImport importFromError ErrorAgrees
  rcases py.getattrOrNone o "__spec__".toList w with ⟨e | spec, w⟩
  · exact ⟨fun _ => trivial, fun _ => rfl⟩
  · show (if _ then _ else _) = py.errors.importError ↔ _ ∨ _
    by_cases hinit : (py.truthyValue moduleName && !spec.isNone && py.initializing spec w) = true
    · rw [if_pos hinit]
      exact ⟨fun _ => .inl hinit, fun _ => rfl⟩
    · rw [if_neg hinit, or_iff_right hinit]
      rcases py.getattrOrNone o "__file__".toList w with ⟨e | file, w'⟩
      · constructor
        · rintro h e' w'' heq
          cases heq
          exact h
        · intro h
          exact h e w' rfl
      · constructor
        · intro _ e' w'' heq
          cases heq
        · intro _
          rfl

theorem loadedSubmodule_str (name : Text) : py.loadedSubmodule (.str name) attr w =
    match py.sysModules w (name ++ '.' :: attr) with
    | some submodule =>
      if name.isEmpty || submodule.isNone then none else some (name ++ '.' :: attr, submodule)
    | none => none := by
  show (if (!name.isEmpty) = true then
      match py.sysModules w (name ++ '.' :: attr) with
      | some submodule =>
        if submodule.isNone then none else some (name ++ '.' :: attr, submodule)
      | none => none
    else none) = _
  cases py.sysModules w (name ++ '.' :: attr) with
  | none => cases name.isEmpty <;> rfl
  | some submodule => cases name.isEmpty <;> rfl

theorem takeSubmodule_eq {key : Text} {submodule : Value O}
    (h : py.OnlyWarns o attr submodule w) :
    py.takeSubmodule o attr key submodule w =
      ⟨[.fellBack key submodule], .ok (submodule, w)⟩ := by
  obtain ⟨e, hset, hexc, hwarn⟩ := h
  unfold takeSubmodule
  rw [hset]
  show (if _ then if _ then _ else _ else _) = _
  rw [if_pos hexc, hwarn]
  rfl

theorem takeSubmodule_eq_error {key : Text} {submodule : Value O} {e : E}
    (h : py.SetattrRaises o attr submodule w e) :
    py.takeSubmodule o attr key submodule w = ⟨[], .error e⟩ := by
  obtain ⟨e', hset, hraise⟩ := h
  unfold takeSubmodule
  rw [hset]
  show (if _ then if _ then _ else _ else _) = _
  cases hexc : py.errors.isException e' with
  | true =>
    rw [hexc, if_pos rfl] at hraise
    rw [if_pos rfl, if_pos hraise.1, hraise.2]
  | false =>
    rw [hexc, if_neg Bool.false_ne_true] at hraise
    rw [if_neg Bool.false_ne_true, hraise]

theorem fallBack_of_none (h : py.loadedSubmodule moduleName attr w = none) :
    py.fallBack o attr moduleName w = ⟨[], .error (py.cannotImport o moduleName w)⟩ := by
  unfold fallBack
  rw [h]

theorem fallBack_of_some {key : Text} {submodule : Value O}
    (h : py.loadedSubmodule moduleName attr w = some (key, submodule)) :
    py.fallBack o attr moduleName w = py.takeSubmodule o attr key submodule w := by
  unfold fallBack
  rw [h]

/-- Python raises, and the helper finds no submodule. -/
theorem error_eq (h : py.ErrorAgrees o moduleName w)
    (hnone : py.loadedSubmodule moduleName attr w = none) :
    py.fallBack o attr moduleName w = ⟨[], .error (py.importFromError o w)⟩ := by
  rw [fallBack_of_none hnone, cannotImport_eq_iff.mpr h]

/-- Python does not look into `sys.modules`. -/
theorem fallBack_eq_error (h : match py.loadedSubmodule moduleName attr w with
      | some (_, submodule) => py.SetattrRaises o attr submodule w (py.importFromError o w)
      | none => py.ErrorAgrees o moduleName w) :
    py.fallBack o attr moduleName w = ⟨[], .error (py.importFromError o w)⟩ := by
  cases hloaded : py.loadedSubmodule moduleName attr w with
  | none =>
    rw [hloaded] at h
    exact error_eq h hloaded
  | some loaded =>
    rw [hloaded] at h
    rw [fallBack_of_some hloaded]
    exact takeSubmodule_eq_error h

theorem fallBack_eq (h : py.SubmoduleAgrees o attr moduleName w) :
    py.fallBack o attr moduleName w = py.importFromSys o attr moduleName w := by
  cases moduleName with
  | none => exact fallBack_eq_error h
  | object o' => exact fallBack_eq_error h
  | str name =>
    have hloaded : py.loadedSubmodule (.str name) attr w = _ := loadedSubmodule_str name
    unfold SubmoduleAgrees at h
    unfold importFromSys
    dsimp only at h ⊢
    cases hsys : py.sysModules w (name ++ '.' :: attr) with
    | none =>
      rw [hsys] at h hloaded
      exact error_eq h hloaded
    | some submodule =>
      rw [hsys] at h hloaded
      obtain ⟨hname, hnone, hwarns⟩ := h
      have hempty : name.isEmpty = false := by
        cases name with
        | nil => exact absurd rfl hname
        | cons c name => rfl
      dsimp only at hloaded
      rw [hempty, hnone] at hloaded
      rw [fallBack_of_some hloaded]
      exact takeSubmodule_eq hwarns

theorem fellBack_not_prefix_nil {key : Text} {submodule : Value O} :
    ¬ [ImportEvent.fellBack key submodule] <+: [] := fun h => by
  cases List.prefix_nil.mp h

/-- Once Python has fallen back, the helper parts from it by an exception or by setting the
attribute. -/
theorem takeSubmodule_parts {key : Text} {submodule : Value O}
    (h : ¬ py.OnlyWarns o attr submodule w) :
    Emitted.Parts ImportEvent.IsWrite (py.takeSubmodule o attr key submodule w)
      (⟨[.fellBack key submodule], .ok (submodule, w)⟩ :
        Emitted (ImportEvent O) E (Value O × W)) := by
  unfold takeSubmodule
  cases hset : py.setattr o attr submodule w with
  | ok w' => exact .emits (List.mem_cons_of_mem _ List.mem_cons_self) trivial
  | error e =>
    dsimp only
    by_cases hexc : py.errors.isException e = true
    · cases hwarn : py.warningsRaise w with
      | true =>
        rw [if_pos hexc, if_pos rfl]
        exact .stops rfl fellBack_not_prefix_nil
      | false => exact absurd ⟨e, hset, hexc, hwarn⟩ h
    · rw [if_neg hexc]
      exact .stops rfl fellBack_not_prefix_nil

/-- Where Python has raised `e`, the helper parts from it unless it raises the same. -/
theorem takeSubmodule_parts_error {key : Text} {submodule : Value O} {e : E}
    (h : ¬ py.SetattrRaises o attr submodule w e) :
    Emitted.Parts ImportEvent.IsWrite (py.takeSubmodule o attr key submodule w)
      (⟨[], .error e⟩ : Emitted (ImportEvent O) E (Value O × W)) := by
  unfold takeSubmodule
  unfold SetattrRaises at h
  cases hset : py.setattr o attr submodule w with
  | ok w' => exact .emits (List.mem_cons_of_mem _ List.mem_cons_self) trivial
  | error e' =>
    rw [hset] at h
    dsimp only
    by_cases hexc : py.errors.isException e' = true
    · rw [if_pos hexc]
      cases hwarn : py.warningsRaise w with
      | true =>
        refine .errors rfl rfl fun heq => h ⟨e', rfl, ?_⟩
        rw [if_pos hexc]
        exact ⟨hwarn, heq⟩
      | false => exact .stopped rfl fellBack_not_prefix_nil
    · rw [if_neg hexc]
      refine .errors rfl rfl fun heq => h ⟨e', rfl, ?_⟩
      rw [if_neg hexc]
      exact heq

theorem error_parts (h : ¬ py.ErrorAgrees o moduleName w)
    (hnone : py.loadedSubmodule moduleName attr w = none) :
    Emitted.Parts ImportEvent.IsWrite (py.fallBack o attr moduleName w)
      (⟨[], .error (py.importFromError o w)⟩ : Emitted (ImportEvent O) E (Value O × W)) := by
  rw [fallBack_of_none hnone]
  exact .errors rfl rfl fun heq => h (cannotImport_eq_iff.mp heq)

theorem fallBack_parts_error (h : ¬ match py.loadedSubmodule moduleName attr w with
      | some (_, submodule) => py.SetattrRaises o attr submodule w (py.importFromError o w)
      | none => py.ErrorAgrees o moduleName w) :
    Emitted.Parts ImportEvent.IsWrite (py.fallBack o attr moduleName w)
      (⟨[], .error (py.importFromError o w)⟩ : Emitted (ImportEvent O) E (Value O × W)) := by
  cases hloaded : py.loadedSubmodule moduleName attr w with
  | none =>
    rw [hloaded] at h
    exact error_parts h hloaded
  | some loaded =>
    rw [hloaded] at h
    rw [fallBack_of_some hloaded]
    exact takeSubmodule_parts_error h

theorem fallBack_parts (h : ¬ py.SubmoduleAgrees o attr moduleName w) :
    Emitted.Parts ImportEvent.IsWrite (py.fallBack o attr moduleName w)
      (py.importFromSys o attr moduleName w) := by
  cases moduleName with
  | none => exact fallBack_parts_error h
  | object o' => exact fallBack_parts_error h
  | str name =>
    have hloaded : py.loadedSubmodule (.str name) attr w = _ := loadedSubmodule_str name
    unfold SubmoduleAgrees at h
    unfold importFromSys
    dsimp only at h ⊢
    cases hsys : py.sysModules w (name ++ '.' :: attr) with
    | none =>
      rw [hsys] at h hloaded
      exact error_parts h hloaded
    | some submodule =>
      rw [hsys] at h hloaded
      dsimp only at h hloaded ⊢
      by_cases hskip : (name.isEmpty || submodule.isNone) = true
      · rw [if_pos hskip] at hloaded
        rw [fallBack_of_none hloaded]
        exact .stops rfl fellBack_not_prefix_nil
      · rw [if_neg hskip] at hloaded
        rw [fallBack_of_some hloaded]
        refine takeSubmodule_parts fun hwarns => h ⟨?_, ?_, hwarns⟩
        · rintro rfl
          exact hskip rfl
        · rw [Bool.or_eq_true, not_or] at hskip
          exact Bool.eq_false_iff.mpr hskip.2

/-- The read of an attribute up to the fallback is the same. -/
theorem attrOr_of_misses (h : py.Misses o attr w moduleName w')
    (fallback : Value O → W → Emitted (ImportEvent O) E (Value O × W)) :
    py.attrOr fallback o attr w = fallback moduleName w' := by
  obtain ⟨e, w₁, hget, hmissing, hname⟩ := h
  unfold attrOr
  rw [hget]
  dsimp only
  rw [if_pos hmissing, hname]
  rfl

theorem attrOr_of_not_misses (h : ¬ ∃ moduleName w', py.Misses o attr w moduleName w')
    (fallback fallback' : Value O → W → Emitted (ImportEvent O) E (Value O × W)) :
    py.attrOr fallback o attr w = py.attrOr fallback' o attr w := by
  unfold attrOr
  rcases hget : py.getattr o attr w with ⟨e | value, w₁⟩
  · dsimp only
    by_cases hmissing : py.errors.isAttributeError e = true
    · rw [if_pos hmissing, if_pos hmissing]
      rcases hname : py.getattrOrNone o "__name__".toList w₁ with ⟨e' | moduleName, w₂⟩
      · rfl
      · exact absurd ⟨moduleName, w₂, e, w₁, hget, hmissing, hname⟩ h
    · rw [if_neg hmissing, if_neg hmissing]
  · rfl

theorem importAttr_eq (h : py.AttrAgrees o attr w) :
    py.importAttr o attr w = py.importFrom o attr w := by
  unfold importAttr importFrom
  by_cases hmisses : ∃ moduleName w', py.Misses o attr w moduleName w'
  · obtain ⟨moduleName, w', hmiss⟩ := hmisses
    rw [attrOr_of_misses hmiss, attrOr_of_misses hmiss]
    exact fallBack_eq (h moduleName w' hmiss)
  · exact attrOr_of_not_misses hmisses _ _

theorem importAttr_parts (h : ¬ py.AttrAgrees o attr w) :
    Emitted.Parts ImportEvent.IsWrite (py.importAttr o attr w) (py.importFrom o attr w) := by
  unfold AttrAgrees at h
  push Not at h
  obtain ⟨moduleName, w', hmiss, hnot⟩ := h
  unfold importAttr importFrom
  rw [attrOr_of_misses hmiss, attrOr_of_misses hmiss]
  exact fallBack_parts hnot

end Attributes

/-! ## Importing a module -/

section Modules

variable {py} {spec : ModuleSpec}

theorem madeUp_package (spec : ModuleSpec) :
    (madeUpGlobals spec).package = (moduleGlobals spec).package := by
  show some (if _ then _ else _) = some spec.parent
  split
  · rename_i hpackage
    rw [Bool.and_eq_true] at hpackage
    unfold ModuleSpec.parent
    cases hlocations : spec.searchLocations with
    | none =>
      rw [hlocations] at hpackage
      cases hpackage.2
    | some locations => rfl
  · rfl

/-- The globals that `import_` makes up lead to the same absolute name, whatever the level. -/
theorem absoluteName_madeUp (errors : ImportErrors E) (name : Text) (level : ℕ) :
    absoluteName errors (madeUpGlobals spec) name level =
      absoluteName errors (moduleGlobals spec) name level := by
  have hpackage : calcPackage errors (madeUpGlobals spec) =
      calcPackage errors (moduleGlobals spec) := by
    unfold calcPackage
    rw [madeUp_package]
    rfl
  unfold absoluteName
  rw [hpackage]

theorem import_eq (name : Text) (fromlist : List Text) (level : ℕ) (w : W) :
    py.import_ spec name (some fromlist) level w = py.importName spec name fromlist level w := by
  unfold import_ importName builtinImport
  rw [absoluteName_madeUp]
  rfl

end Modules

/-! ## Instructions -/

def OpAgrees (op : ImportOp) (s : ImportState W O) : Prop :=
  match op with
  | .importName _ _ _ => True
  | .enter attr => py.AttrAgrees s.held attr s.world
  | .storeModule _ => True
  | .storeAttr attr _ => py.AttrAgrees s.held attr s.world

section Ops

variable {py} {spec : ModuleSpec}

theorem helperStep_eq {op : ImportOp} {s : ImportState W O} (h : py.OpAgrees op s) :
    py.helperStep spec op s = py.pythonStep spec op s := by
  unfold helperStep pythonStep stepWith
  cases op with
  | importName name fromlist level =>
    dsimp only
    rw [import_eq]
  | enter attr =>
    dsimp only
    rw [importAttr_eq h]
  | storeModule name => rfl
  | storeAttr attr name =>
    dsimp only
    rw [importAttr_eq h]

theorem helperStep_parts {op : ImportOp} {s : ImportState W O} (h : ¬ py.OpAgrees op s) :
    Emitted.Parts ImportEvent.IsWrite (py.helperStep spec op s) (py.pythonStep spec op s) := by
  cases op with
  | importName name fromlist level => exact absurd trivial h
  | enter attr => exact (importAttr_parts h).andThen _ _
  | storeModule name => exact absurd trivial h
  | storeAttr attr name => exact (importAttr_parts h).andThen _ _

theorem call_emits {P : ImportEvent O → Prop} (answer : Answer W E (Value O)) :
    (call answer).Emits P := by
  rcases answer with ⟨e | value, w⟩ <;> exact Emitted.emits_nil _

theorem attrOr_emits {P : ImportEvent O → Prop}
    {fallback : Value O → W → Emitted (ImportEvent O) E (Value O × W)} {o : Value O}
    (h : ∀ moduleName w, (fallback moduleName w).Emits P) (attr : Text) (w : W) :
    (py.attrOr fallback o attr w).Emits P := by
  unfold attrOr
  rcases py.getattr o attr w with ⟨e | value, w₁⟩
  · dsimp only
    by_cases hmissing : py.errors.isAttributeError e = true
    · rw [if_pos hmissing]
      exact (call_emits _).andThen fun (moduleName, w) => h moduleName w
    · rw [if_neg hmissing]
      exact Emitted.emits_nil _
  · exact Emitted.emits_nil _

/-- Python sets no attribute for an import statement. -/
theorem importFrom_never_writes (o : Value O) (attr : Text) (w : W) :
    (py.importFrom o attr w).Emits fun event => ¬ event.IsWrite := by
  refine attrOr_emits (fun moduleName w => ?_) attr w
  unfold importFromSys
  cases moduleName with
  | none => exact Emitted.emits_nil _
  | object o' => exact Emitted.emits_nil _
  | str name =>
    dsimp only
    cases py.sysModules w (name ++ '.' :: attr) with
    | none => exact Emitted.emits_nil _
    | some submodule => exact Emitted.emits_singleton id _

theorem pythonStep_never_writes (op : ImportOp) (s : ImportState W O) :
    (py.pythonStep spec op s).Emits fun event => ¬ event.IsWrite := by
  cases op with
  | importName name fromlist level => exact (call_emits _).andThen fun _ => Emitted.emits_nil _
  | enter attr => exact (importFrom_never_writes _ _ _).andThen fun _ => Emitted.emits_nil _
  | storeModule name => exact Emitted.emits_singleton id _
  | storeAttr attr name =>
    exact (importFrom_never_writes _ _ _).andThen fun _ => Emitted.emits_singleton id _

/-- A list of instructions looks alike with the helpers and in Python exactly if every attribute
that Python reads on the way agrees. -/
theorem observed_ops_eq_iff (ops : List ImportOp) (s : ImportState W O) :
    (run (py.helperStep spec) ops s).observed = (run (py.pythonStep spec) ops s).observed ↔
      Along (py.pythonStep spec) py.OpAgrees ops s :=
  observed_run_eq_iff pythonStep_never_writes (fun _ _ => helperStep_eq)
    (fun _ _ => helperStep_parts) ops s

end Ops

/-! ## The names of `import *` -/

/-- Two lists of names lead to the same bindings, the first one in `import_star` and the second one
in Python: they are the same, up to the first name that cannot be read. -/
def NamesAgree (o : Value O) : List (Value O) → Option E → List (Value O) → Option E → W → Prop
  | [], ending, [], ending', _ => ending = ending'
  | [], ending, name' :: _, _, w => ∃ e, ending = some e ∧ (py.readItem o name' w).1 = .error e
  | name :: _, _, [], ending', w => ∃ e, (py.readName o name w).1 = .error e ∧ ending' = some e
  | name :: names, ending, name' :: names', ending', w =>
    (∃ e, (py.readName o name w).1 = .error e ∧ (py.readItem o name' w).1 = .error e) ∨
      name = name' ∧ ∃ item w', py.readName o name w = (.ok item, w') ∧
        NamesAgree o names ending names' ending' w'

/-- What `import_star` takes the names from agrees with what Python takes them from. -/
def StarAgrees (o : Value O) (w : W) : Prop :=
  match py.getattr o "__all__".toList w with
  | (.ok all, w) =>
    let names := if all.isNone then py.publicNames o w else py.iterItems all w
    py.NamesAgree o names.1 names.2 (py.sequenceItems all w).1 (py.sequenceItems all w).2 w
  | (.error e, w) =>
    let names := py.publicNames o w
    if py.errors.isAttributeError e then
      match py.dictKeys o w with
      | .ok (some keys) => py.NamesAgree o names.1 names.2 (keys.filter isPublicKey) none w
      | .ok none => py.NamesAgree o names.1 names.2 [] (some py.errors.importError) w
      | .error e => py.NamesAgree o names.1 names.2 [] (some e) w
    else if py.errors.isException e then py.NamesAgree o names.1 names.2 [] (some e) w
    else True

section Star

variable {py} {spec : ModuleSpec} {o : Value O}

theorem readName_ok {item : Text × Value O} {name : Value O} {w w' : W}
    (h : py.readName o name w = (.ok item, w')) : name = .str item.1 := by
  unfold readName at h
  cases name with
  | none => cases h
  | object o' => cases h
  | str text =>
    dsimp only at h
    rcases hget : py.getattr o text w with ⟨e | v, w₁⟩
    · rw [hget] at h
      cases h
    · rw [hget] at h
      cases h
      rfl

theorem readItem_str (text : Text) (w : W) :
    py.readItem o (.str text) w = py.readName o (.str text) w := rfl

theorem readItem_ok {item : Text × Value O} {name : Value O} {w w' : W}
    (h : py.readItem o name w = (.ok item, w')) : name = .str item.1 := by
  have hother : ∀ {r : Answer W E (Value O)},
      (match r with
        | (.error e, w) => (.error e, w)
        | (.ok _, w) => (.error py.errors.typeError, w) : Answer W E (Text × Value O)) ≠
          (.ok item, w') := by
    rintro ⟨e | value, w⟩ h <;> cases h
  cases name with
  | none => exact absurd h hother
  | object o' => exact absurd h hother
  | str text => exact readName_ok h

section Loop

variable {read : Value O → W → Answer W E (Text × Value O)}

theorem observed_bindNames_nil (ending : Option E) (w : W) :
    (bindNames read [] ending w).observed = ([], ending) := by
  cases ending <;> rfl

theorem observed_bindNames_error {name : Value O} {names : List (Value O)} {ending : Option E}
    {w w' : W} {e : E} (h : read name w = (.error e, w')) :
    (bindNames read (name :: names) ending w).observed = ([], some e) := by
  unfold bindNames
  rw [h]
  rfl

theorem observed_bindNames_ok {name : Value O} {names : List (Value O)} {ending : Option E}
    {w w' : W} {item : Text × Value O} (h : read name w = (.ok item, w')) :
    (bindNames read (name :: names) ending w).observed =
      (.bound item.1 item.2 :: (bindNames read names ending w').observed.1,
        (bindNames read names ending w').observed.2) := by
  rw [bindNames, h]
  exact Emitted.observed_andThen_ok _ _ _

/-- A loop that ends before a name is read. -/
theorem nil_eq_observed_iff (ending ending' : Option E) (name : Value O) (names : List (Value O))
    (w : W) : ([], ending) = (bindNames read (name :: names) ending' w).observed ↔
      ∃ e, ending = some e ∧ (read name w).1 = .error e := by
  rcases hread : read name w with ⟨e | item, w'⟩
  · rw [observed_bindNames_error hread]
    constructor
    · intro h
      exact ⟨e, (Prod.mk.inj h).2, rfl⟩
    · rintro ⟨e', rfl, he⟩
      cases he
      rfl
  · rw [observed_bindNames_ok hread]
    constructor
    · intro h
      cases (Prod.mk.inj h).1
    · rintro ⟨e', _, he⟩
      cases he

end Loop

theorem observed_bindNames_eq_iff (names names' : List (Value O)) (ending ending' : Option E)
    (w : W) : (bindNames (py.readName o) names ending w).observed =
      (bindNames (py.readItem o) names' ending' w).observed ↔
        py.NamesAgree o names ending names' ending' w := by
  induction names generalizing names' w with
  | nil =>
    rw [observed_bindNames_nil]
    cases names' with
    | nil =>
      rw [observed_bindNames_nil, NamesAgree, Prod.mk.injEq]
      exact and_iff_right rfl
    | cons name' names' => exact nil_eq_observed_iff _ _ _ _ w
  | cons name names ih =>
    cases names' with
    | nil =>
      rw [observed_bindNames_nil, NamesAgree, eq_comm, nil_eq_observed_iff]
      exact exists_congr fun e => and_comm
    | cons name' names' =>
      rw [NamesAgree]
      rcases hread : py.readName o name w with ⟨e | item, w₁⟩ <;>
        rcases hread' : py.readItem o name' w with ⟨e' | item', w₁'⟩
      · rw [observed_bindNames_error hread, observed_bindNames_error hread']
        constructor
        · intro h
          exact .inl ⟨e, rfl, congrArg _ (Option.some.inj (Prod.mk.inj h).2.symm)⟩
        · rintro (⟨e'', he, he'⟩ | ⟨_, item, w', hok, _⟩)
          · cases he
            cases he'
            rfl
          · cases hok
      · rw [observed_bindNames_error hread, observed_bindNames_ok hread']
        constructor
        · intro h
          cases (Prod.mk.inj h).1
        · rintro (⟨e'', _, he⟩ | ⟨_, item, w', hok, _⟩)
          · cases he
          · cases hok
      · rw [observed_bindNames_ok hread, observed_bindNames_error hread']
        constructor
        · intro h
          cases (Prod.mk.inj h).1
        · rintro (⟨e'', he, _⟩ | ⟨rfl, _, _, _, _⟩)
          · cases he
          · rw [readName_ok hread, readItem_str, ← readName_ok hread] at hread'
            cases hread.symm.trans hread'
      · rw [observed_bindNames_ok hread, observed_bindNames_ok hread']
        have hname := readName_ok hread
        have hname' := readItem_ok hread'
        constructor
        · intro h
          obtain ⟨hevents, hend⟩ := Prod.mk.inj h
          obtain ⟨hbound, hrest⟩ := List.cons.inj hevents
          have hsame : name = name' := by rw [hname, hname', (ImportEvent.bound.inj hbound).1]
          subst hsame
          rw [hname, readItem_str, ← hname] at hread'
          cases hread.symm.trans hread'
          exact .inr ⟨rfl, item, w₁, rfl, (ih names' w₁).mp (Prod.ext hrest hend)⟩
        · rintro (⟨e'', he, _⟩ | ⟨rfl, _, _, hok, hrest⟩)
          · cases he
          · rw [hname, readItem_str, ← hname] at hread'
            cases hread.symm.trans hread'
            cases hok
            rw [(ih names' w₁).mpr hrest]

/-- Names that are strings are read alike. -/
theorem namesAgree_self (names : List Text) (ending : Option E) (w : W) :
    py.NamesAgree o (names.map .str) ending (names.map .str) ending w := by
  induction names generalizing w with
  | nil => rfl
  | cons name names ih =>
    rw [List.map_cons, NamesAgree, readItem_str]
    rcases py.readName o (.str name) w with ⟨e | item, w'⟩
    · exact .inl ⟨e, rfl, rfl⟩
    · exact .inr ⟨rfl, item, w', rfl, ih w'⟩

/-- With a list or a tuple of strings in `__all__`, `import *` binds what Python binds. -/
theorem starAgrees_of_all {all : Value O} {names : List Text} {w w' : W}
    (hall : py.getattr o "__all__".toList w = (.ok all, w')) (hnone : all.isNone = false)
    (hiter : py.iterItems all w' = (names.map .str, none))
    (hsequence : py.sequenceItems all w' = (names.map .str, none)) : py.StarAgrees o w := by
  unfold StarAgrees
  rw [hall]
  dsimp only
  rw [hnone, if_neg Bool.false_ne_true, hiter, hsequence]
  exact namesAgree_self _ _ _

theorem observed_star_eq_iff (o : Value O) (w : W) :
    (bindNames (py.readName o) (py.starNames o w).1.1 (py.starNames o w).1.2
        (py.starNames o w).2).observed =
      (bindNames (py.readItem o) (py.allNames o w).1.1 (py.allNames o w).1.2
        (py.allNames o w).2).observed ↔ py.StarAgrees o w := by
  unfold starNames allNames StarAgrees getattrOrNone
  rcases py.getattr o "__all__".toList w with ⟨e | all, w⟩
  · dsimp only
    by_cases hmissing : py.errors.isAttributeError e = true
    · rw [if_pos hmissing, if_pos hmissing, if_pos hmissing]
      rcases py.dictKeys o w with e | none | keys <;> exact observed_bindNames_eq_iff _ _ _ _ w
    · rw [if_neg hmissing, if_neg hmissing, if_neg hmissing]
      dsimp only
      by_cases hexc : py.errors.isException e = true
      · rw [if_pos hexc, if_pos hexc]
        exact observed_bindNames_eq_iff _ _ _ _ w
      · rw [if_neg hexc, if_neg hexc]
        exact iff_of_true rfl trivial
  · exact observed_bindNames_eq_iff _ _ _ _ w

theorem observed_importStar_eq_iff (name : Text) (level : ℕ) (w : W) :
    (py.importStar spec name level w).observed = (py.importAllFrom spec name level w).observed ↔
      ∀ o w', py.importName spec name [starText] level w = (.ok o, w') → py.StarAgrees o w' := by
  unfold importStar importAllFrom
  rw [import_eq, Emitted.observed_andThen_eq_iff]
  rcases py.importName spec name [starText] level w with ⟨e | o, w₁⟩
  · constructor
    · intro _ o w' h
      cases h
    · intro _ a h
      cases h
  · constructor
    · intro h o' w' heq
      cases heq
      exact (observed_star_eq_iff o w₁).mp (h (o, w₁) rfl)
    · intro h a heq
      cases heq
      exact (observed_star_eq_iff o w₁).mpr (h o w₁ rfl)

end Star

/-! ## Statements -/

section Statements

variable (spec : ModuleSpec) (table : DebugTable) (className : Option String)

/-- The statement is lowered, and the lowered code looks like the statement in Python: the names
that are bound, to which objects and in which order, the modules taken from `sys.modules`, the
attributes set, and the type of the exception. -/
def LowersImport (stmt : ImportStmt) (w : W) : Prop :=
  ∃ program, lower table stmt = some program ∧
    (py.runLowered spec program w).observed = (py.runPython spec className stmt w).observed

/-- The import comes through the text, and what it meets in the state `w` is handled alike. -/
def ImportAgrees (stmt : ImportStmt) (w : W) : Prop :=
  stmt.hasEscapedName table = false ∧
    match stmt with
    | .stmtImport names =>
      Along (py.pythonStep spec) py.OpAgrees (names.flatMap ImportAlias.ops) ⟨.none, w⟩
    | .stmtImportFrom stmt =>
      (stmt.atTopLevel && stmt.isFutureImport) = false ∧
        if stmt.isStar then
          ∀ o w', py.importName spec stmt.moduleText [starText] stmt.level w = (.ok o, w') →
            py.StarAgrees o w'
        else Along (py.pythonStep spec) py.OpAgrees stmt.ops ⟨.none, w⟩

variable {py spec table className}

theorem lowersImport_of_none {stmt : ImportStmt} (h : lower table stmt = none) (w : W) :
    ¬ py.LowersImport spec table className stmt w := by
  rintro ⟨program, hprogram, _⟩
  rw [h] at hprogram
  cases hprogram

theorem lowersImport_of_some {stmt : ImportStmt} {program : List LoweredImport}
    (h : lower table stmt = some program) (w : W) : py.LowersImport spec table className stmt w ↔
      (py.runLowered spec program w).observed = (py.runPython spec className stmt w).observed := by
  constructor
  · rintro ⟨program', hprogram, heq⟩
    obtain rfl := Option.some.inj (h.symm.trans hprogram)
    exact heq
  · intro heq
    exact ⟨program, h, heq⟩

theorem head_star (stmt : StmtImportFrom) :
    (stmt.names.head?.any fun a => a.name.text == starText) = stmt.isStar := by
  unfold StmtImportFrom.isStar
  cases hnames : stmt.names with
  | nil => rfl
  | cons first names =>
    show (first.name.text == starText) = _
    rw [List.any_cons]
    cases hfirst : first.name.text == starText with
    | true => rfl
    | false =>
      rw [Bool.false_or, eq_comm, List.any_eq_false]
      intro a ha hstar
      have hmem : a ∈ stmt.names := by
        rw [hnames]
        exact List.mem_cons_of_mem first ha
      have halone := stmt.star_alone a hmem (beq_iff_eq.mp hstar)
      rw [hnames] at halone
      rw [(List.cons.inj halone).2] at ha
      cases ha

/-- A from-import in Python is seen, by an exception or by what it binds. -/
theorem observed_from_ne (stmt : StmtImportFrom) (w : W) :
    (run (py.pythonStep spec) stmt.ops ⟨.none, w⟩).observed ≠ ([], none) := by
  have hstore : ∀ (attr name : Text) (rest : List ImportOp) (s : ImportState W O),
      (run (py.pythonStep spec) (.storeAttr attr name :: rest) s).observed ≠ ([], none) := by
    intro attr name rest s
    rw [run_cons]
    show (((py.importFrom s.held attr s.world).andThen _).andThen _).observed ≠ _
    generalize py.importFrom s.held attr s.world = r
    obtain ⟨events, e | ⟨value, w⟩⟩ := r
    · exact fun h => Option.some_ne_none _ (Prod.mk.inj h).2
    · intro h
      have hevents := (Prod.mk.inj ((Emitted.observed_andThen_ok _ _ _).symm.trans h)).1
      exact List.append_ne_nil_of_left_ne_nil (List.append_ne_nil_of_right_ne_nil _
        (List.cons_ne_nil _ _)) _ hevents
  obtain ⟨a, names, hnames⟩ := List.exists_cons_of_ne_nil stmt.nonempty
  unfold StmtImportFrom.ops
  rw [hnames, run_cons]
  show (((call (py.importName spec _ _ _ w)).andThen _).andThen _).observed ≠ _
  rcases py.importName spec _ _ _ w with ⟨e | o, w₁⟩
  · exact fun h => Option.some_ne_none _ (Prod.mk.inj h).2
  · exact hstore _ _ _ ⟨o, w₁⟩

theorem observed_runLowered_star (name : Text) (level : ℕ) (w : W) :
    (py.runLowered spec [.importStar name level] w).observed =
      (py.importStar spec name level w).observed := by
  unfold runLowered
  rw [run_cons, funext (run_nil (py.exec spec))]
  show (Emitted.andThen _ fun s => ⟨[], .ok (id s)⟩).observed = _
  rw [Emitted.observed_andThen_value]
  show (Emitted.andThen _ fun w => ⟨[], .ok (ImportState.mk Value.none w)⟩).observed = _
  rw [Emitted.observed_andThen_value]

/-- Python's run of a statement without private names. -/
theorem runPython_import {names : List ImportAlias}
    (h : (ImportStmt.stmtImport names).HasNoPrivate className) (w : W) :
    py.runPython spec className (.stmtImport names) w =
      run (py.pythonStep spec) (names.flatMap ImportAlias.ops) ⟨.none, w⟩ := by
  show run (py.pythonStep spec) ((ImportStmt.stmtImport names).ops.map _) _ = _
  rw [ImportStmt.map_inClass h]
  rfl

theorem runPython_from {stmt : StmtImportFrom}
    (h : (ImportStmt.stmtImportFrom stmt).HasNoPrivate className) (w : W) :
    py.runPython spec className (.stmtImportFrom stmt) w =
      if stmt.isStar then
        (py.importAllFrom spec stmt.moduleText stmt.level w).andThen fun w => ⟨[], .ok ⟨.none, w⟩⟩
      else run (py.pythonStep spec) stmt.ops ⟨.none, w⟩ := by
  show (if stmt.names.head?.any _ then _
    else run (py.pythonStep spec) ((ImportStmt.stmtImportFrom stmt).ops.map _) _) = _
  rw [ImportStmt.map_inClass h, head_star]
  rfl

theorem observed_lowered_from {stmt : StmtImportFrom}
    (hnames : (ImportStmt.stmtImportFrom stmt).HasNoPrivate className) (w : W) :
    (py.runLowered spec (if stmt.isStar then [.importStar stmt.moduleText stmt.level]
        else stmt.lowered) w).observed =
      (py.runPython spec className (.stmtImportFrom stmt) w).observed ↔
    if stmt.isStar then
      ∀ o w', py.importName spec stmt.moduleText [starText] stmt.level w = (.ok o, w') →
        py.StarAgrees o w'
    else Along (py.pythonStep spec) py.OpAgrees stmt.ops ⟨.none, w⟩ := by
  rw [runPython_from hnames]
  cases stmt.isStar with
  | true =>
    rw [if_pos rfl, if_pos rfl, if_pos rfl, observed_runLowered_star,
      Emitted.observed_andThen_value]
    exact observed_importStar_eq_iff _ _ w
  | false =>
    rw [if_neg Bool.false_ne_true, if_neg Bool.false_ne_true, if_neg Bool.false_ne_true,
      runLowered, run_lowered_from]
    exact observed_ops_eq_iff _ _

theorem not_lowersImport_of_future {stmt : StmtImportFrom}
    (hnames : (ImportStmt.stmtImportFrom stmt).HasNoPrivate className)
    (h : (stmt.atTopLevel && stmt.isFutureImport) = true) (w : W) :
    ¬ py.LowersImport spec table className (.stmtImportFrom stmt) w := by
  cases hknown : stmt.names.all fun a => isKnownFutureFeature a.name.text with
  | false =>
    refine lowersImport_of_none ?_ w
    rw [lower, if_pos h, hknown]
    rfl
  | true =>
    have hlower : lower table (.stmtImportFrom stmt) = some [] := by
      rw [lower, if_pos h, hknown]
      rfl
    have hstar : stmt.isStar = false := by
      refine List.any_eq_false.mpr fun a ha hstar => ?_
      have hfeature := List.all_eq_true.mp hknown a ha
      rw [beq_iff_eq.mp hstar] at hfeature
      exact absurd hfeature (by decide)
    rw [lowersImport_of_some hlower, runPython_from hnames, hstar]
    exact (observed_from_ne stmt w).symm

end Statements

end Interpreter

/-! ## A module whose names are not in the order of the alphabet -/

/-- The module `m` with the source `b = 1; a = 2` -/
def lettersModule : Interpreter Unit ℕ String where
  errors :=
    { isAttributeError := (· == "AttributeError")
      isException := fun _ => true
      importError := "ImportError"
      importWarning := "ImportWarning"
      keyError := "KeyError"
      typeError := "TypeError"
      valueError := "ValueError" }
  gcdImport _ w := (.ok (.object 0), w)
  handleFromlist o _ w := (.ok o, w)
  getattr _ attr w :=
    if attr = ['b'] then (.ok (.object 1), w)
    else if attr = ['a'] then (.ok (.object 2), w)
    else (.error "AttributeError", w)
  setattr _ _ _ w := .ok w
  sysModules _ _ := none
  truthy _ := true
  format _ := []
  initializing _ _ := false
  warningsRaise _ := false
  dir _ _ := .ok [['a'], ['b']]
  dictKeys _ _ := .ok (some [.str ['b'], .str ['a']])
  sequenceItems _ _ := ([], none)
  iterItems _ _ := ([], none)

/-- `from m import *` -/
def starOfLetters : StmtImportFrom where
  moduleName := some ⟨['m'], forall_mem_singleton_plain (by decide)⟩
  names := [⟨⟨starText, forall_mem_singleton_plain (by decide)⟩, none⟩]
  level := 0
  atTopLevel := true
  nonempty := List.cons_ne_nil _ _
  star_alone a ha _ := by rw [List.mem_singleton.mp ha]
  future h := by cases h

def asciiTable : DebugTable := ⟨fun _ => false, fun _ => true⟩

def mainSpec : ModuleSpec := ⟨"main".toList, none⟩

/-- `from m import a` -/
def aOfLetters : StmtImportFrom where
  moduleName := some ⟨['m'], forall_mem_singleton_plain (by decide)⟩
  names := [⟨⟨['a'], forall_mem_singleton_plain (by decide)⟩, none⟩]
  level := 0
  atTopLevel := false
  nonempty := List.cons_ne_nil _ _
  star_alone a ha _ := by rw [List.mem_singleton.mp ha]
  future h := by cases h

end DietPython.Imports
