import DietPython.Imports.Lowering
import DietPython.Lib.Lockstep

/-!
# The runtime of import statements

The helpers `import_`, `import_attr` and `import_star`, and what Python does for the same
statements. Both run on one interpreter: loading a module, reading an attribute and setting one may
run code of the program, so they may do anything to the world and may raise an exception. An
exception is given by its type. The names for `import *` are listed at once.

An import statement emits what the program can see of it: the names it binds, the modules it takes
from `sys.modules`, and the attributes it sets itself.
-/

namespace DietPython.Imports

open Lockstep

/-! ## Objects and the interpreter -/

inductive Value (O : Type)
  | none
  | str (text : Text)
  /-- neither `None` nor a string -/
  | object (object : O)

namespace Value

variable {O : Type}

def isNone : Value O → Bool
  | .none => true
  | _ => false

end Value

inductive ImportEvent (O : Type)
  | bound (name : Text) (value : Value O)
  | fellBack (key : Text) (value : Value O)
  | wroteAttr (object : Value O) (attr : Text) (value : Value O)

/-- The types of exceptions. -/
structure ImportErrors (E : Type) where
  isAttributeError : E → Bool
  isException : E → Bool
  importError : E
  importWarning : E
  keyError : E
  typeError : E
  valueError : E

/-- What Python code leaves: a value or the type of an exception, and the world. -/
abbrev Answer (W E α : Type) := Except E α × W

/-- A list of names that ends with an exception, or by itself. -/
abbrev NameList (E O : Type) := List (Value O) × Option E

/-- What the statements use of the interpreter. -/
structure Interpreter (W O E : Type) where
  errors : ImportErrors E
  /-- `_gcd_import`: the module with an absolute name, loaded if it is not in `sys.modules` -/
  gcdImport : Text → W → Answer W E (Value O)
  /-- `_handle_fromlist`: the submodules of a package among some names -/
  handleFromlist : Value O → List Text → W → Answer W E (Value O)
  getattr : Value O → Text → W → Answer W E (Value O)
  setattr : Value O → Text → Value O → W → Except E W
  sysModules : W → Text → Option (Value O)
  truthy : O → Bool
  format : O → Text
  /-- `spec._initializing` -/
  initializing : Value O → W → Bool
  /-- The filters make an `ImportWarning` an exception. -/
  warningsRaise : W → Bool
  dir : Value O → W → Except E (List Text)
  /-- The keys of `__dict__`, if there is one. -/
  dictKeys : Value O → W → Except E (Option (List (Value O)))
  /-- The items 0, 1, .. of a sequence, and what the objects give that are none. -/
  sequenceItems : Value O → W → NameList E O
  /-- The items that a `for` loop gets. -/
  iterItems : Value O → W → NameList E O

/-- `submodule_search_locations` is there for packages. -/
structure ModuleSpec where
  name : Text
  searchLocations : Option (List Text)

/-- The name starts with an underscore. -/
def isPrivate (name : Text) : Bool := name.head? == some '_'

def firstPart (name : Text) : Text := name.takeWhile (· ≠ '.')

/-- What is in front of the last dot. -/
def beforeLastDot : Text → Option Text
  | [] => none
  | c :: name =>
    match beforeLastDot name with
    | some front => some (c :: front)
    | none => if c = '.' then some [] else none

def ModuleSpec.parent (spec : ModuleSpec) : Text :=
  match spec.searchLocations with
  | none => (beforeLastDot spec.name).getD []
  | some _ => spec.name

/-- What `__import__` reads of the globals that it is called with. -/
structure ImportGlobals where
  package : Option Text
  spec : Option ModuleSpec
  name : Option Text
  hasPath : Bool

/-- The globals of a module, as the import system has set them. -/
def moduleGlobals (spec : ModuleSpec) : ImportGlobals where
  package := some spec.parent
  spec := some spec
  name := some spec.name
  hasPath := spec.searchLocations.isSome

/-- The globals that `import_` makes up. -/
def madeUpGlobals (spec : ModuleSpec) : ImportGlobals where
  package := some <|
    if spec.parent.isEmpty && (spec.searchLocations.getD []).isEmpty.not then spec.name
    else spec.parent
  spec := some spec
  name := some spec.name
  hasPath := false

section Names

variable {E : Type} (errors : ImportErrors E)

/-- `_calc___package__` -/
def calcPackage (globals : ImportGlobals) : Except E Text :=
  match globals.package, globals.spec, globals.name with
  | some package, _, _ => .ok package
  | none, some spec, _ => .ok spec.parent
  | none, none, some name =>
    .ok (if globals.hasPath then name else (beforeLastDot name).getD [])
  | none, none, none => .error errors.keyError

def enclosingPackage : ℕ → Text → Option Text
  | 0, package => some package
  | n + 1, package => (beforeLastDot package).bind (enclosingPackage n)

/-- `resolve_name` -/
def absoluteName (globals : ImportGlobals) (name : Text) (level : ℕ) : Except E Text :=
  if level = 0 then
    if name.isEmpty then .error errors.valueError else .ok name
  else
    match calcPackage errors globals with
    | .error e => .error e
    | .ok package =>
      if package.isEmpty then .error errors.importError
      else
        match enclosingPackage (level - 1) package with
        | none => .error errors.importError
        | some base => .ok (if name.isEmpty then base else base ++ '.' :: name)

end Names

variable {W O E : Type}

/-- Calling Python code emits nothing by itself. -/
def call (answer : Answer W E (Value O)) : Emitted (ImportEvent O) E (Value O × W) :=
  match answer with
  | (.ok value, w) => ⟨[], .ok (value, w)⟩
  | (.error e, _) => ⟨[], .error e⟩

namespace Interpreter

variable (py : Interpreter W O E)

/-- `builtins.__import__` -/
def builtinImport (globals : ImportGlobals) (name : Text) (fromlist : List Text) (level : ℕ)
    (w : W) : Answer W E (Value O) :=
  match absoluteName py.errors globals name level with
  | .error e => (.error e, w)
  | .ok absName =>
    match py.gcdImport absName w with
    | (.error e, w) => (.error e, w)
    | (.ok loaded, w) =>
      if !fromlist.isEmpty then py.handleFromlist loaded fromlist w
      else if !name.contains '.' then (.ok loaded, w)
      else if level = 0 then py.gcdImport (firstPart name) w
      else
        let cutOff := name.length - (firstPart name).length
        match py.sysModules w (absName.take (absName.length - cutOff)) with
        | some top => (.ok top, w)
        | none => (.error py.errors.keyError, w)

def truthyValue : Value O → Bool
  | .none => false
  | .str text => !text.isEmpty
  | .object o => py.truthy o

def formatValue : Value O → Text
  | .none => "None".toList
  | .str text => text
  | .object o => py.format o

/-- `getattr(o, attr, None)` -/
def getattrOrNone (o : Value O) (attr : Text) (w : W) : Answer W E (Value O) :=
  match py.getattr o attr w with
  | (.ok value, w) => (.ok value, w)
  | (.error e, w) => if py.errors.isAttributeError e then (.ok .none, w) else (.error e, w)

/-! ## The helpers -/

/-- An exception is raised again as it is, without its context. -/
def import_ (spec : ModuleSpec) (name : Text) (fromlist : Option (List Text)) (level : ℕ) (w : W) :
    Answer W E (Value O) :=
  py.builtinImport (madeUpGlobals spec) name (fromlist.getD []) level w

/-- `_sys.modules.get(f"{module_name}.{attr}")`, if that is not `None` -/
def loadedSubmodule (moduleName : Value O) (attr : Text) (w : W) : Option (Text × Value O) :=
  if py.truthyValue moduleName then
    let key := py.formatValue moduleName ++ '.' :: attr
    match py.sysModules w key with
    | some submodule => if submodule.isNone then none else some (key, submodule)
    | none => none
  else none

/-- What `import_attr` raises if there is no submodule. -/
def cannotImport (o moduleName : Value O) (w : W) : E :=
  match py.getattrOrNone o "__spec__".toList w with
  | (.error e, _) => e
  | (.ok spec, w) =>
    if py.truthyValue moduleName && !spec.isNone && py.initializing spec w then
      py.errors.importError
    else
      match py.getattrOrNone o "__file__".toList w with
      | (.error e, _) => e
      | (.ok _, _) => py.errors.importError

/-- The end of `import_attr` with a submodule from `sys.modules`. -/
def takeSubmodule (o : Value O) (attr key : Text) (submodule : Value O) (w : W) :
    Emitted (ImportEvent O) E (Value O × W) :=
  match py.setattr o attr submodule w with
  | .ok w => ⟨[.fellBack key submodule, .wroteAttr o attr submodule], .ok (submodule, w)⟩
  | .error e =>
    if py.errors.isException e then
      if py.warningsRaise w then ⟨[], .error py.errors.importWarning⟩
      else ⟨[.fellBack key submodule], .ok (submodule, w)⟩
    else ⟨[], .error e⟩

/-- `import_attr` once the name of the module is known. -/
def fallBack (o : Value O) (attr : Text) (moduleName : Value O) (w : W) :
    Emitted (ImportEvent O) E (Value O × W) :=
  match py.loadedSubmodule moduleName attr w with
  | some (key, submodule) => py.takeSubmodule o attr key submodule w
  | none => ⟨[], .error (py.cannotImport o moduleName w)⟩

/-- Reads an attribute. If it is missing, `__name__` is read and the rest is left to `fallback`. -/
def attrOr (fallback : Value O → W → Emitted (ImportEvent O) E (Value O × W)) (o : Value O)
    (attr : Text) (w : W) : Emitted (ImportEvent O) E (Value O × W) :=
  match py.getattr o attr w with
  | (.ok value, w) => ⟨[], .ok (value, w)⟩
  | (.error e, w) =>
    if py.errors.isAttributeError e then
      (call (py.getattrOrNone o "__name__".toList w)).andThen fun (moduleName, w) =>
        fallback moduleName w
    else ⟨[], .error e⟩

def importAttr (o : Value O) (attr : Text) (w : W) : Emitted (ImportEvent O) E (Value O × W) :=
  py.attrOr (py.fallBack o attr) o attr w

/-- The public names of `dir(module)`. -/
def publicNames (o : Value O) (w : W) : NameList E O :=
  match py.dir o w with
  | .ok names => ((names.filter fun name => !isPrivate name).map .str, none)
  | .error e => ([], some e)

/-- The names that `import_star` takes from a module. -/
def starNames (o : Value O) (w : W) : NameList E O × W :=
  match py.getattrOrNone o "__all__".toList w with
  | (.ok names, w) => (if names.isNone then py.publicNames o w else py.iterItems names w, w)
  | (.error e, w) =>
    (if py.errors.isException e then py.publicNames o w else ([], some e), w)

/-- `getattr(module, name)` for a name of `import *`, which has to be a string. -/
def readName (o name : Value O) (w : W) : Answer W E (Text × Value O) :=
  match name with
  | .str name =>
    match py.getattr o name w with
    | (.ok value, w) => (.ok (name, value), w)
    | (.error e, w) => (.error e, w)
  | _ => (.error py.errors.typeError, w)

/-- The loop over the names of `import *`. -/
def bindNames (read : Value O → W → Answer W E (Text × Value O)) :
    List (Value O) → Option E → W → Emitted (ImportEvent O) E W
  | [], none, w => ⟨[], .ok w⟩
  | [], some e, _ => ⟨[], .error e⟩
  | item :: items, ending, w =>
    match read item w with
    | (.error e, _) => ⟨[], .error e⟩
    | (.ok (name, value), w) =>
      Emitted.andThen ⟨[.bound name value], .ok w⟩ fun w => bindNames read items ending w

def importStar (spec : ModuleSpec) (name : Text) (level : ℕ) (w : W) :
    Emitted (ImportEvent O) E W :=
  (call (py.import_ spec name (some [starText]) level w)).andThen fun (o, w) =>
    let (names, w) := py.starNames o w
    bindNames (py.readName o) names.1 names.2 w

/-! ## What Python does -/

/-- The instruction `IMPORT_NAME` in a module with this specification. -/
def importName (spec : ModuleSpec) (name : Text) (fromlist : List Text) (level : ℕ) (w : W) :
    Answer W E (Value O) :=
  py.builtinImport (moduleGlobals spec) name fromlist level w

/-- What `IMPORT_FROM` raises if there is no submodule. -/
def importFromError (o : Value O) (w : W) : E :=
  match py.getattrOrNone o "__spec__".toList w with
  | (.error e, _) => e
  | (.ok _, _) => py.errors.importError

/-- `IMPORT_FROM` once the name of the module is known. -/
def importFromSys (o : Value O) (attr : Text) (moduleName : Value O) (w : W) :
    Emitted (ImportEvent O) E (Value O × W) :=
  match moduleName with
  | .str name =>
    let key := name ++ '.' :: attr
    match py.sysModules w key with
    | some submodule => ⟨[.fellBack key submodule], .ok (submodule, w)⟩
    | none => ⟨[], .error (py.importFromError o w)⟩
  | _ => ⟨[], .error (py.importFromError o w)⟩

/-- The instruction `IMPORT_FROM` -/
def importFrom (o : Value O) (attr : Text) (w : W) : Emitted (ImportEvent O) E (Value O × W) :=
  py.attrOr (py.importFromSys o attr) o attr w

/-- Not a string with an underscore in front. -/
def isPublicKey : Value O → Bool
  | .str name => !isPrivate name
  | _ => true

/-- The names that `import *` takes from a module. -/
def allNames (o : Value O) (w : W) : NameList E O × W :=
  match py.getattr o "__all__".toList w with
  | (.ok names, w) => (py.sequenceItems names w, w)
  | (.error e, w) =>
    if py.errors.isAttributeError e then
      match py.dictKeys o w with
      | .ok (some keys) => ((keys.filter isPublicKey, none), w)
      | .ok none => (([], some py.errors.importError), w)
      | .error e => (([], some e), w)
    else (([], some e), w)

/-- A name of `import *` that is no string is reported with the `__name__` of the module, which is
read first. -/
def readItem (o name : Value O) (w : W) : Answer W E (Text × Value O) :=
  match name with
  | .str name => py.readName o (.str name) w
  | _ =>
    match py.getattr o "__name__".toList w with
    | (.error e, w) => (.error e, w)
    | (.ok _, w) => (.error py.errors.typeError, w)

def importAllFrom (spec : ModuleSpec) (name : Text) (level : ℕ) (w : W) :
    Emitted (ImportEvent O) E W :=
  (call (py.importName spec name [starText] level w)).andThen fun (o, w) =>
    let (names, w) := py.allNames o w
    bindNames (py.readItem o) names.1 names.2 w

end Interpreter

end DietPython.Imports
