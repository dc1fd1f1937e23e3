import Mathlib.Data.List.Basic
import Mathlib.Logic.Function.Basic
import DietPython.Lib.Transducer

/-!
# The module global cache

Compiled code reads module globals through `ModuleGlobalCache`: one slot per global name, null
or the object the name denotes. Three writers touch a slot:

1. a load that misses stores what it found (`loadGlobal`);
2. a compiled store or delete writes the module dict and then the slot
   (`storeGlobalWriteThrough`, `delGlobalWriteThrough`);
3. the dict watchers of the module dict and of the builtins dict, called before every change.

A write-through announces itself on a per-slot stack of pending self updates, and a watcher
event whose new value is on top of that stack is taken for its echo and ignored. The null
pointer is `none`. Objects are compared by identity, which is the equality of `Val`. Names are the
keys of the dicts, whatever objects these are.
-/

namespace DietPython.ModuleGlobals

open Transducers

variable {Name Val : Type*} [DecidableEq Name] [DecidableEq Val]

/-! ## Slots -/

/-- The names that own a slot, in slot order. -/
structure GlobalNames (Name : Type*) where
  names : List Name
  nodup : names.Nodup
  /-- What `slot_for_key_obj` reads of a key: its UTF-8 text up to the first NUL, which a key that
  is no string or has a surrogate does not have. -/
  text : Name → Option Name
  text_of_mem : ∀ name ∈ names, text name = some name

variable {g : GlobalNames Name}

/-- `slot_by_name`, looked up with the text of a dict key; a null key is `none`. -/
def GlobalNames.slotForKeyObj (g : GlobalNames Name) (key : Option Name) : Option ℕ :=
  (key.bind g.text).bind fun text => g.names.idxOf? text

/-- A global as compiled code refers to it: its name and the slot of that name. -/
structure GlobalRef (g : GlobalNames Name) where
  name : Name
  slot : ℕ
  slot_eq : g.names.idxOf? name = some slot

structure ModuleGlobalCache (Val : Type*) where
  slots : ℕ → Option Val
  /-- The stack of expected new values of each slot, last pushed first. -/
  pendingSelfUpdates : ℕ → List (Option Val)

namespace ModuleGlobalCache

/-- The cache as `ModuleGlobalCache::new` builds it. -/
def new : ModuleGlobalCache Val := ⟨fun _ => none, fun _ => []⟩

def swapSlot (c : ModuleGlobalCache Val) (slot : ℕ) (value : Option Val) :
    ModuleGlobalCache Val :=
  { c with slots := Function.update c.slots slot value }

def clearSlot (c : ModuleGlobalCache Val) (slot : ℕ) : ModuleGlobalCache Val :=
  c.swapSlot slot none

def storeBorrowedValue (c : ModuleGlobalCache Val) (slot : ℕ) (value : Option Val) :
    ModuleGlobalCache Val :=
  match value with
  | none => c.clearSlot slot
  | some v => c.swapSlot slot (some v)

def clearAll (c : ModuleGlobalCache Val) : ModuleGlobalCache Val :=
  { c with slots := fun _ => none }

/-- Clears the slot of every name that the module dict does not bind. -/
def clearUnshadowedSlots (g : GlobalNames Name) (moduleDict : Name → Option Val)
    (c : ModuleGlobalCache Val) : ModuleGlobalCache Val :=
  { c with slots := fun slot =>
      match g.names[slot]? with
      | some name => if (moduleDict name).isSome then c.slots slot else none
      | none => c.slots slot }

def pushPendingSelfUpdate (c : ModuleGlobalCache Val) (slot : ℕ) (expected : Option Val) :
    ModuleGlobalCache Val :=
  { c with pendingSelfUpdates :=
      Function.update c.pendingSelfUpdates slot (expected :: c.pendingSelfUpdates slot) }

def popPendingSelfUpdate (c : ModuleGlobalCache Val) (slot : ℕ) : ModuleGlobalCache Val :=
  { c with pendingSelfUpdates :=
      Function.update c.pendingSelfUpdates slot (c.pendingSelfUpdates slot).tail }

def removePendingSelfUpdate (c : ModuleGlobalCache Val) (slot : ℕ) (expected : Option Val) :
    ModuleGlobalCache Val :=
  if (c.pendingSelfUpdates slot).head? = some expected then c.popPendingSelfUpdate slot else c

/-- The cache without the matching entry when the event is ignored, `none` when it is not. -/
def tryIgnorePendingSelfUpdate (c : ModuleGlobalCache Val) (slot : ℕ) (newValue : Option Val) :
    Option (ModuleGlobalCache Val) :=
  if (c.pendingSelfUpdates slot).head? = some newValue then
    some (c.popPendingSelfUpdate slot)
  else none

end ModuleGlobalCache

/-! ## Dict watchers -/

inductive DictEvent
  | added
  | modified
  | deleted
  | cloned
  | cleared
  | deallocated

namespace ModuleGlobalCache

def handleGlobalsDictWatcherEvent (g : GlobalNames Name) (c : ModuleGlobalCache Val)
    (event : DictEvent) (key : Option Name) (newValue : Option Val) : ModuleGlobalCache Val :=
  match event with
  | .added | .modified =>
    match g.slotForKeyObj key with
    | none => c
    | some slot =>
      match c.tryIgnorePendingSelfUpdate slot newValue with
      | some c' => c'
      | none => c.storeBorrowedValue slot newValue
  | .deleted =>
    match g.slotForKeyObj key with
    | none => c
    | some slot =>
      match c.tryIgnorePendingSelfUpdate slot none with
      | some c' => c'
      | none => c.clearSlot slot
  | .cloned | .cleared | .deallocated => c.clearAll

def handleBuiltinsDictWatcherEvent (g : GlobalNames Name) (moduleDict : Name → Option Val)
    (c : ModuleGlobalCache Val) (event : DictEvent) (key : Option Name) :
    ModuleGlobalCache Val :=
  match event with
  | .added | .modified | .deleted =>
    match g.slotForKeyObj key with
    | none => c
    | some slot => if (key.bind moduleDict).isSome then c else c.clearSlot slot
  | .cloned | .cleared | .deallocated => c.clearUnshadowedSlots g moduleDict

end ModuleGlobalCache

/-- What a dict reports when `value` is set over `old`: nothing when the object stays the same. -/
def setItemEvent (old : Option Val) (value : Val) : Option DictEvent :=
  match old with
  | none => some .added
  | some u => if u = value then none else some .modified

/-! ## The runtime around the cache -/

/-- Both dicts that the cache watches, the cache, and the write-throughs that are still inside
`PyObject_SetItem` or `PyObject_DelItem`: there the object they replaced is being released, and its
finalizer may run any operation. Each is kept with what it will write into its slot. -/
structure Runtime (g : GlobalNames Name) (Val : Type*) where
  moduleDict : Name → Option Val
  builtinsDict : Name → Option Val
  cache : ModuleGlobalCache Val
  openWrites : List (GlobalRef g × Option Val)

namespace Runtime

/-- Python's lookup of a global name: the module dict, then the builtins dict. -/
def lookup (s : Runtime g Val) (name : Name) : Option Val :=
  (s.moduleDict name).or (s.builtinsDict name)

/-- A fresh cache over the two dicts. -/
def init (moduleDict builtinsDict : Name → Option Val) : Runtime g Val :=
  ⟨moduleDict, builtinsDict, .new, []⟩

/-- Setting a key of the module dict: the watcher first, then the change. -/
def setModuleItem (s : Runtime g Val) (name : Name) (value : Val) : Runtime g Val :=
  { s with
    cache := match setItemEvent (s.moduleDict name) value with
      | none => s.cache
      | some event => s.cache.handleGlobalsDictWatcherEvent g event (some name) (some value)
    moduleDict := Function.update s.moduleDict name (some value) }

/-- Deleting a key that the module dict has. -/
def delModuleItem (s : Runtime g Val) (name : Name) : Runtime g Val :=
  { s with
    cache := s.cache.handleGlobalsDictWatcherEvent g .deleted (some name) none
    moduleDict := Function.update s.moduleDict name none }

def clearModuleDict (s : Runtime g Val) : Runtime g Val :=
  { s with
    cache := s.cache.handleGlobalsDictWatcherEvent g .cleared none none
    moduleDict := fun _ => none }

def cloneModuleDict (s : Runtime g Val) (source : Name → Option Val) : Runtime g Val :=
  { s with
    cache := s.cache.handleGlobalsDictWatcherEvent g .cloned none none
    moduleDict := source }

def setBuiltinsItem (s : Runtime g Val) (name : Name) (value : Val) : Runtime g Val :=
  { s with
    cache := match setItemEvent (s.builtinsDict name) value with
      | none => s.cache
      | some event => s.cache.handleBuiltinsDictWatcherEvent g s.moduleDict event (some name)
    builtinsDict := Function.update s.builtinsDict name (some value) }

def delBuiltinsItem (s : Runtime g Val) (name : Name) : Runtime g Val :=
  { s with
    cache := s.cache.handleBuiltinsDictWatcherEvent g s.moduleDict .deleted (some name)
    builtinsDict := Function.update s.builtinsDict name none }

def clearBuiltinsDict (s : Runtime g Val) : Runtime g Val :=
  { s with
    cache := s.cache.handleBuiltinsDictWatcherEvent g s.moduleDict .cleared none
    builtinsDict := fun _ => none }

def cloneBuiltinsDict (s : Runtime g Val) (source : Name → Option Val) : Runtime g Val :=
  { s with
    cache := s.cache.handleBuiltinsDictWatcherEvent g s.moduleDict .cloned none
    builtinsDict := source }

end Runtime

/-- What an operation gives back. -/
inductive Answer (Val : Type*)
  | value (v : Val)
  | nameError
  | keyError
  | memoryError
  | done
  deriving DecidableEq

/-- The answer of a load that finds `found`. -/
def Answer.ofLookup : Option Val → Answer Val
  | some v => .value v
  | none => .nameError

namespace Runtime

/-- A compiled load: the slot if it is set, else `load_global_obj_impl`. That asks
`PyEval_GetBuiltins`, which gives the builtins dict of the frame that runs; `builtins` is what is in
there. -/
def loadGlobal (s : Runtime g Val) (r : GlobalRef g) (builtins : Name → Option Val) :
    Runtime g Val × Answer Val :=
  match s.cache.slots r.slot with
  | some v => (s, .value v)
  | none =>
    match s.moduleDict r.name with
    | some v => ({ s with cache := s.cache.swapSlot r.slot (some v) }, .value v)
    | none =>
      match builtins r.name with
      | some v => ({ s with cache := s.cache.swapSlot r.slot (some v) }, .value v)
      | none => (s, .nameError)

/-- The replaced object loses its last owner inside the dict write only if the slot does not hold
it as well. -/
def releasesOld (s : Runtime g Val) (r : GlobalRef g) (value : Option Val) : Bool :=
  match s.moduleDict r.name with
  | none => false
  | some old => some old ≠ value ∧ s.cache.slots r.slot ≠ some old

/-- The slot write that ends a write-through. -/
def finishWrite (s : Runtime g Val) (r : GlobalRef g) (value : Option Val) : Runtime g Val :=
  { s with cache := s.cache.storeBorrowedValue r.slot value }

/-- The announcement of a write-through. -/
def announce (s : Runtime g Val) (r : GlobalRef g) (expected : Option Val) : Runtime g Val :=
  { s with cache := s.cache.pushPendingSelfUpdate r.slot expected }

def storeGlobalWriteThrough (s : Runtime g Val) (r : GlobalRef g) (value : Val) :
    Runtime g Val :=
  let stored := (s.announce r (some value)).setModuleItem r.name value
  if s.releasesOld r (some value) then
    { stored with openWrites := (r, some value) :: stored.openWrites }
  else stored.finishWrite r (some value)

/-- `store_global_write_through` when `PyObject_SetItem` fails and leaves the dict alone. -/
def storeGlobalFails (s : Runtime g Val) (r : GlobalRef g) (value : Val) : Runtime g Val :=
  let announced := s.announce r (some value)
  { announced with cache := announced.cache.removePendingSelfUpdate r.slot (some value) }

/-- The finalizer of the replaced object has returned, and the innermost open write goes on. -/
def resumeWrite (s : Runtime g Val) : Runtime g Val :=
  match s.openWrites with
  | [] => s
  | (r, value) :: rest => { s with openWrites := rest }.finishWrite r value

def delGlobalWriteThrough (s : Runtime g Val) (r : GlobalRef g) (quietly : Bool) :
    Runtime g Val × Answer Val :=
  let announced := s.announce r none
  if (s.moduleDict r.name).isSome then
    let deleted := announced.delModuleItem r.name
    if s.releasesOld r none then
      ({ deleted with openWrites := (r, none) :: deleted.openWrites }, .done)
    else (deleted.finishWrite r none, .done)
  else
    let removed :=
      { announced with cache := announced.cache.removePendingSelfUpdate r.slot none }
    if quietly then (removed.finishWrite r none, .done)
    else (removed, .keyError)

end Runtime

/-! ## Operations -/

/-- One operation of a run: the first five are compiled code, the others anyone else. -/
inductive Op (g : GlobalNames Name) (Val : Type*)
  | loadGlobal (r : GlobalRef g) (builtins : Name → Option Val)
  | storeGlobal (r : GlobalRef g) (value : Val)
  | storeGlobalFails (r : GlobalRef g) (value : Val)
  | resumeWrite
  | delGlobal (r : GlobalRef g) (quietly : Bool)
  | setModuleItem (name : Name) (value : Val)
  | delModuleItem (name : Name)
  | clearModuleDict
  | cloneModuleDict (source : Name → Option Val)
  | setBuiltinsItem (name : Name) (value : Val)
  | delBuiltinsItem (name : Name)
  | clearBuiltinsDict
  | cloneBuiltinsDict (source : Name → Option Val)

/-- One operation on the runtime and its answer. -/
def Runtime.step (s : Runtime g Val) : Op g Val → Runtime g Val × Answer Val
  | .loadGlobal r builtins => s.loadGlobal r builtins
  | .storeGlobal r value => (s.storeGlobalWriteThrough r value, .done)
  | .storeGlobalFails r value => (s.storeGlobalFails r value, .memoryError)
  | .resumeWrite => (s.resumeWrite, .done)
  | .delGlobal r quietly => s.delGlobalWriteThrough r quietly
  | .setModuleItem name value => (s.setModuleItem name value, .done)
  | .delModuleItem name =>
    if (s.moduleDict name).isSome then (s.delModuleItem name, .done) else (s, .keyError)
  | .clearModuleDict => (s.clearModuleDict, .done)
  | .cloneModuleDict source => (s.cloneModuleDict source, .done)
  | .setBuiltinsItem name value => (s.setBuiltinsItem name value, .done)
  | .delBuiltinsItem name =>
    if (s.builtinsDict name).isSome then (s.delBuiltinsItem name, .done) else (s, .keyError)
  | .clearBuiltinsDict => (s.clearBuiltinsDict, .done)
  | .cloneBuiltinsDict source => (s.cloneBuiltinsDict source, .done)

/-- The runtime driven by a history of operations. -/
def machine (g : GlobalNames Name) (Val : Type*) [DecidableEq Val] :
    Transducer (Runtime g Val) (Op g Val) (Answer Val) := ⟨Runtime.step⟩

end DietPython.ModuleGlobals
