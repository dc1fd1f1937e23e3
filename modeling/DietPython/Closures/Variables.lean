import DietPython.Blocks.Constants
import DietPython.Closures.Locations
import DietPython.Scopes.Semantic
import DietPython.Slots.Tables

/-!
# Where variables are

`NameLocator` gives every name in the instructions of a callable a location: a slot of the stack
frame, a cell that is captured or its own, or a global slot of the module. Loads are located in one
way, stores and deletions in another.

`LocationOf` says where a plain name of a function is. Loads always find it there, and stores and
deletions do unless the name is captured and has a stack slot as well. The location determines the
name. A cell of the function's own is found exactly when its name has no stack slot: when it is the
name of no parameter, neither of the function nor of one of its blocks.
-/

namespace DietPython.Closures

open Blocks (CellLocation NameLocation)
open Generators (BindingKind CallableScopeInfo CellBindingKind ClosureSlot Plain StorageLayout
  callableScopeInfo)
open Interning
open Scopes (BindingTarget EffectiveBinding isInternalSymbol)
open Slots (SlotMap SlotCallable computeLocalSlotLocations slotTable ofTable)

/-! ## Locating a name -/

/-- The slot of a name of a global, and the names of the globals with it. -/
def slotFor (globals : List String) (name : String) : ℕ × List String :=
  ((ensure globals name).idxOf name, ensure globals name)

/-- `resolve_cell_storage_name` -/
def Callable.resolveCellStorageName (c : Callable) (name : String) : Option String :=
  (c.scope.logicalNameForCellCaptureSource name).map c.scope.cellStorageName

structure NameLocator where
  callable : Callable
  layout : Option StorageLayout
  exceptionParamNames : List String
  localSlots : SlotMap

namespace NameLocator

variable (f : NameLocator)

def cellBinding (name : String) : Option (String × CellBindingKind) :=
  insertAll (f.callable.cellBindingEntries f.layout) name

def capturedCellSlot (storageName : String) : Option ℕ :=
  insertAll (Callable.capturedCellEntries f.layout) storageName

def ownedCellSlot (storageName : String) : Option ℕ :=
  insertAll (f.callable.ownedCellEntries f.layout) storageName

/-- `locate_name`, which stops when there is no slot. The names of the globals are those of the
module so far. -/
def locateName (name : String) (globals : List String) : Option (NameLocation × List String) :=
  let here (location : Option NameLocation) := location.map fun location => (location, globals)
  if name ∈ f.exceptionParamNames then here ((f.localSlots.get? name).map .local)
  else
    match f.callable.resolveCapturedCellSourceStorageName name with
    | some storageName =>
      here ((f.capturedCellSlot storageName).map fun slot => .cell (.capturedSource slot))
    | none =>
      match f.cellBinding name with
      | some (storageName, .owner) =>
        let owned := (f.ownedCellSlot storageName).map fun slot => .cell (.owned slot)
        if name ≠ storageName then
          match f.localSlots.get? name with
          | some slot => here (some (.local slot))
          | none => here owned
        else here owned
      | some (storageName, .capture) =>
        here ((f.capturedCellSlot storageName).map fun slot => .cell (.closure slot))
      | none =>
        match f.localSlots.get? name with
        | some slot => here (some (.local slot))
        | none => some (.global (slotFor globals name).1, (slotFor globals name).2)

/-- `mark_raw_cell_name` -/
def markRawCellName (name : String) : NameLocation → Option NameLocation
  | .global slot =>
    if (f.callable.resolveCapturedCellSourceStorageName name).isSome ∨ (f.cellBinding name).isSome
    then (f.callable.resolveRawCellLocation f.layout name).map .cell
    else some (.global slot)
  | .cell (.closure slot) => some (.cell (.capturedSource slot))
  | location => some location

/-- `mark_raw_cell_store_name` -/
def markRawCellStoreName (name : String) (location : NameLocation) : Option NameLocation :=
  if (f.callable.resolveCellStorageName name).isSome then
    match f.localSlots.get? name with
    | some slot => some (.local slot)
    | none => f.markRawCellName name location
  else f.markRawCellName name location

/-- The name of a load. -/
def locateLoad (name : String) (globals : List String) : Option (NameLocation × List String) := do
  let (location, globals) ← f.locateName name globals
  return (← f.markRawCellName name location, globals)

/-- The name of a store or of a deletion. -/
def locateStore (name : String) (globals : List String) : Option (NameLocation × List String) := do
  let (location, globals) ← f.locateName name globals
  return (← f.markRawCellStoreName name location, globals)

end NameLocator

/-! ## The stack slots of a callable -/

/-- What the scope of a callable says about its stores. -/
structure StoreScope where
  localDefs : List String
  scopeInternalNames : List String
  effectiveStoreBindings : AList fun _ : String => EffectiveBinding

namespace StoreScope

variable (scope : StoreScope)

def honorsInternalBinding (name : String) : Bool :=
  !isInternalSymbol name || decide (name ∈ scope.scopeInternalNames)

/-- `binding_target_for_name`, for a store. -/
def bindingTargetForStore (name : String) : BindingTarget :=
  let binding := scope.effectiveStoreBindings.lookup name
  if isInternalSymbol name ∧ (scope.honorsInternalBinding name = false ∨ binding.isNone) then
    .localName
  else (binding.map EffectiveBinding.target).getD .localName

end StoreScope

/-- `is_remaining_local_name` -/
def Callable.isRemainingLocalName (c : Callable) (stores : StoreScope) (hasExplicitStore : Bool)
    (name : String) : Bool :=
  if (c.resolveCellStorageName name).isSome then false
  else if hasExplicitStore then
    !c.scope.isCellBinding name && decide (c.scope.bindingKind name ≠ some .global) &&
      decide (stores.bindingTargetForStore name = .localName)
  else
    match c.scope.bindingKind name with
    | some .localName => stores.honorsInternalBinding name
    | some (.cell _) => false
    | some .global => false
    | none => decide (name ∈ stores.localDefs)

/-- The slots of a callable, from the names in its instructions and those that are stored. -/
def Callable.slotCallable (c : Callable) (stores : StoreScope)
    (remaining explicitlyStored : List String) : SlotCallable where
  params := c.params
  ownedCellStorageNames := c.scope.ownedCellStorageNames
  blockParams := c.blocks.map fun block => block.params.map (·.name)
  remaining := remaining
  isRemainingLocalName name :=
    c.isRemainingLocalName stores (decide (name ∈ explicitlyStored)) name

section SlotTable

variable {c : Callable} (stores : StoreScope) {remaining : List String} (stored : List String)
  (hparams : c.params.Nodup) (hremaining : remaining.Nodup)

include hparams hremaining

theorem computeLocalSlotLocations_slotCallable :
    computeLocalSlotLocations (c.slotCallable stores remaining stored) =
        ofTable (slotTable (c.slotCallable stores remaining stored)) ∧
      (slotTable (c.slotCallable stores remaining stored)).Nodup :=
  Slots.computeLocalSlotLocations_eq hparams hremaining

theorem get?_isSome_iff_mem_slotTable (name : String) :
    ((computeLocalSlotLocations (c.slotCallable stores remaining stored)).get? name).isSome ↔
      name ∈ slotTable (c.slotCallable stores remaining stored) := by
  exact Slots.get?_isSome_iff hparams hremaining

end SlotTable

/-! ## Where a name is -/

namespace NameLocator

variable {f : NameLocator}

/-- The location of a name: a parameter of a handler's block is in its stack slot, a cell that is
captured in its place in the closure, an own cell in its slot unless its name has a stack slot. -/
inductive LocationOf (f : NameLocator) (name : String) (globals : List String) :
    NameLocation → Prop
  | exceptionParam {slot : ℕ} (h : name ∈ f.exceptionParamNames)
      (hslot : f.localSlots.get? name = some slot) : LocationOf f name globals (.local slot)
  | captured {slot : ClosureSlot} {i : ℕ} (h : name ∉ f.exceptionParamNames)
      (hslot : (freevarsOf f.layout)[i]? = some slot) (hname : slot.logicalName = name) :
      LocationOf f name globals (.cell (.capturedSource i))
  | own {slot : ClosureSlot} {j : ℕ} (h : name ∉ f.exceptionParamNames)
      (hslot : (cellvarsOf f.layout)[j]? = some slot) (hname : slot.logicalName = name)
      (hlocal : f.localSlots.get? name = none) : LocationOf f name globals (.cell (.owned j))
  | local {slot : ℕ} (h : name ∉ f.exceptionParamNames)
      (hcaptured : name ∉ (freevarsOf f.layout).map ClosureSlot.logicalName)
      (hslot : f.localSlots.get? name = some slot) : LocationOf f name globals (.local slot)
  | global (h : name ∉ f.exceptionParamNames)
      (hcaptured : name ∉ (freevarsOf f.layout).map ClosureSlot.logicalName)
      (hown : name ∉ (cellvarsOf f.layout).map ClosureSlot.logicalName)
      (hlocal : f.localSlots.get? name = none) :
      LocationOf f name globals (.global (slotFor globals name).1)

variable (h : f.callable.LaidOut f.layout)

include h

theorem resolveCapturedCellSourceStorageName_plain {name : String} (hplain : Plain name) :
    f.callable.resolveCapturedCellSourceStorageName name = none := by
  by_cases hcapture : f.callable.scope.bindingKind name = some (.cell .capture)
  · -- the source of a captured cell is the name of a cell, or `__class__`, which is stored so
    have hlogical : f.callable.scope.logicalNameForCellCaptureSource name = some name := by
      rw [h.ofFunction.logicalNameForCellCaptureSource_eq, if_neg fun hboth => hboth.2 hcapture,
        hplain.logicalName_eq]
    have hstorage : f.callable.scope.cellStorageName name = name := by
      rw [h.ofFunction.cellStorageName_eq, if_pos hcapture]
    unfold Callable.resolveCapturedCellSourceStorageName
    simp only [hlogical, Option.bind_eq_bind, Option.bind_some, hcapture, hstorage, ne_eq,
      not_true_eq_false, if_false]
    rw [if_neg]
    rintro ⟨heq, hne⟩
    exact hne heq
  · exact h.resolveCapturedCellSourceStorageName_eq hplain (.inl rfl) hcapture

theorem cellBinding_captured {slot : ClosureSlot} (hslot : slot ∈ freevarsOf f.layout) :
    f.cellBinding slot.logicalName = some (slot.storageName, .capture) := by
  have hmem : (slot.logicalName, slot.storageName, CellBindingKind.capture) ∈
      f.callable.cellBindingEntries f.layout := by
    cases hlayout : f.layout with
    | none =>
      rw [hlayout] at hslot
      cases hslot
    | some given =>
      rw [hlayout] at hslot
      exact List.mem_append_left _ (List.mem_flatMap.mpr ⟨slot, hslot, List.mem_cons_self ..⟩)
  refine insertAll_eq_some hmem fun ⟨storageName, kind⟩ hother => ?_
  have hplain := (h.captured _ hslot).2.1
  rcases h.cellBindingEntries_cases hother with ⟨other, hmem, hkey, rfl, rfl⟩ |
    ⟨own, hmem, hkey, rfl, rfl⟩
  · have hsame := IsNameOf.unique hplain (h.captured _ hmem).2.1 (.inl rfl) hkey
    rw [(h.captured _ hslot).1, (h.captured _ hmem).1, hsame]
  · exact absurd (IsNameOf.unique hplain (h.own _ hmem).2.1 (.inl rfl) hkey)
      (h.captured_ne_own hslot hmem)

theorem cellBinding_own {slot : ClosureSlot} (hslot : slot ∈ cellvarsOf f.layout) :
    f.cellBinding slot.logicalName = some (slot.storageName, .owner) :=
  h.ownBinding_eq hslot (.inl rfl)

theorem cellBinding_eq_none {name : String} (hplain : Plain name)
    (hcaptured : name ∉ (freevarsOf f.layout).map ClosureSlot.logicalName)
    (hown : name ∉ (cellvarsOf f.layout).map ClosureSlot.logicalName) :
    f.cellBinding name = none := by
  refine insertAll_eq_none fun ⟨storageName, kind⟩ hmem => ?_
  rcases h.cellBindingEntries_cases hmem with ⟨slot, hslot, hkey, -⟩ | ⟨slot, hslot, hkey, -⟩
  · have hsame := IsNameOf.unique (h.captured _ hslot).2.1 hplain hkey (.inl rfl)
    exact hcaptured (hsame ▸ List.mem_map_of_mem hslot)
  · have hsame := IsNameOf.unique (h.own _ hslot).2.1 hplain hkey (.inl rfl)
    exact hown (hsame ▸ List.mem_map_of_mem hslot)

/-- The names of the globals once a name has been located. -/
def globalsAfter (name : String) (globals : List String) : NameLocation → List String
  | .global _ => (slotFor globals name).2
  | _ => globals

/-- A load of a plain name is located where the name is. -/
theorem locateLoad_eq {name : String} (hplain : Plain name) {globals : List String}
    {location : NameLocation} (hlocation : LocationOf f name globals location) :
    f.locateLoad name globals = some (location, globalsAfter name globals location) := by
  have hsource := resolveCapturedCellSourceStorageName_plain h hplain
  have hnames : ∀ slot ∈ cellvarsOf f.layout, slot.logicalName ≠ slot.storageName := by
    intro slot hslot
    rw [(h.own slot hslot).1]
    exact (h.own slot hslot).2.1.ne_cellName _
  unfold locateLoad locateName
  cases hlocation with
  | exceptionParam hexc hslot =>
    simp only [if_pos hexc, hslot]
    rfl
  | @captured slot i hexc hslot hname =>
    subst hname
    have hmem := List.mem_of_getElem? hslot
    have hfound : f.capturedCellSlot slot.storageName = some i := h.capturedSlot_eq hslot
    simp only [if_neg hexc, hsource, cellBinding_captured h hmem, hfound]
    rfl
  | @own slot j hexc hslot hname hlocal =>
    subst hname
    have hmem := List.mem_of_getElem? hslot
    have hfound : f.ownedCellSlot slot.storageName = some j := h.ownSlot_eq hslot
    simp only [if_neg hexc, hsource, cellBinding_own h hmem, hfound, hlocal, if_pos (hnames _ hmem)]
    rfl
  | «local» hexc hcaptured hslot =>
    by_cases hown : name ∈ (cellvarsOf f.layout).map ClosureSlot.logicalName
    · obtain ⟨slot, hmem, rfl⟩ := List.mem_map.mp hown
      simp only [if_neg hexc, hsource, cellBinding_own h hmem, hslot, if_pos (hnames _ hmem)]
      rfl
    · simp only [if_neg hexc, hsource, cellBinding_eq_none h hplain hcaptured hown, hslot]
      rfl
  | global hexc hcaptured hown hlocal =>
    have hnone := cellBinding_eq_none h hplain hcaptured hown
    simp only [if_neg hexc, hsource, hnone, hlocal, Option.bind_eq_bind, Option.bind_some,
      markRawCellName, Option.isSome_none, Bool.false_eq_true, or_self, if_false]
    rfl

omit h in
/-- Every name is somewhere. -/
theorem exists_locationOf (hexc : ∀ name ∈ f.exceptionParamNames, (f.localSlots.get? name).isSome)
    (name : String) (globals : List String) : ∃ location, LocationOf f name globals location := by
  by_cases hname : name ∈ f.exceptionParamNames
  · obtain ⟨slot, hslot⟩ := Option.isSome_iff_exists.mp (hexc name hname)
    exact ⟨_, .exceptionParam hname hslot⟩
  by_cases hcaptured : name ∈ (freevarsOf f.layout).map ClosureSlot.logicalName
  · obtain ⟨slot, hmem, hslot⟩ := List.mem_map.mp hcaptured
    obtain ⟨i, hi⟩ := List.mem_iff_getElem?.mp hmem
    exact ⟨_, .captured hname hi hslot⟩
  cases hlocal : f.localSlots.get? name with
  | some slot => exact ⟨_, .local hname hcaptured hlocal⟩
  | none =>
    by_cases hown : name ∈ (cellvarsOf f.layout).map ClosureSlot.logicalName
    · obtain ⟨slot, hmem, hslot⟩ := List.mem_map.mp hown
      obtain ⟨j, hj⟩ := List.mem_iff_getElem?.mp hmem
      exact ⟨_, .own hname hj hslot hlocal⟩
    · exact ⟨_, .global hname hcaptured hown hlocal⟩

/-- What a load is located at is where the name is. -/
theorem locationOf_of_locateLoad
    (hexc : ∀ name ∈ f.exceptionParamNames, (f.localSlots.get? name).isSome) {name : String}
    (hplain : Plain name) {globals known : List String} {location : NameLocation}
    (hload : f.locateLoad name globals = some (location, known)) :
    LocationOf f name globals location ∧ known = globalsAfter name globals location := by
  obtain ⟨location', hlocation⟩ := exists_locationOf hexc name globals
  rw [locateLoad_eq h hplain hlocation] at hload
  obtain ⟨rfl, rfl⟩ := Prod.mk.inj (Option.some.inj hload)
  exact ⟨hlocation, rfl⟩

/-! ### Stores -/

/-- A captured name with a stack slot: loads find its cell, stores its slot. -/
def Split (f : NameLocator) (name : String) : Prop :=
  name ∉ f.exceptionParamNames ∧ name ∈ (freevarsOf f.layout).map ClosureSlot.logicalName ∧
    f.callable.scope.bindingKind name = some (.cell .capture) ∧ (f.localSlots.get? name).isSome

theorem resolveCellStorageName_isSome {name : String} (hplain : Plain name) :
    (f.callable.resolveCellStorageName name).isSome ↔
      f.callable.scope.bindingKind name = some (.cell .capture) := by
  unfold Callable.resolveCellStorageName
  rw [h.ofFunction.logicalNameForCellCaptureSource_eq, Option.isSome_map]
  by_cases hcapture : f.callable.scope.bindingKind name = some (.cell .capture)
  · rw [if_neg fun hboth => hboth.2 hcapture]
    exact ⟨fun _ => hcapture, fun _ => rfl⟩
  · rw [if_pos ⟨hplain, hcapture⟩]
    exact ⟨fun hsome => absurd hsome Bool.false_ne_true, fun heq => absurd heq hcapture⟩

/-- A store of a plain name is located where a load is, unless the name is split. -/
theorem locateStore_eq_iff
    (hexc : ∀ name ∈ f.exceptionParamNames, (f.localSlots.get? name).isSome) {name : String}
    (hplain : Plain name) (globals : List String) :
    f.locateStore name globals = f.locateLoad name globals ↔ ¬f.Split name := by
  obtain ⟨location, hlocation⟩ := exists_locationOf hexc name globals
  have hload := locateLoad_eq h hplain hlocation
  obtain ⟨⟨found, known⟩, hfound, hmark⟩ := Option.bind_eq_some_iff.mp hload
  have hmark : (f.markRawCellName name found).bind (fun location => some (location, known)) =
      some (location, globalsAfter name globals location) := hmark
  have hstore : f.locateStore name globals =
      (f.markRawCellStoreName name found).bind fun location => some (location, known) := by
    unfold locateStore
    rw [hfound]
    rfl
  rw [hstore, hload]
  unfold markRawCellStoreName
  by_cases hcapture : f.callable.scope.bindingKind name = some (.cell .capture)
  · rw [if_pos ((resolveCellStorageName_isSome h hplain).mpr hcapture)]
    cases hlocal : f.localSlots.get? name with
    | none =>
      have hnot : ¬f.Split name := fun hsplit => by
        have := hsplit.2.2.2
        rw [hlocal] at this
        cases this
      exact ⟨fun _ => hnot, fun _ => hmark⟩
    | some slot =>
      have hknown : known = globalsAfter name globals location := by
        obtain ⟨_, -, heq⟩ := Option.bind_eq_some_iff.mp hmark
        exact (Prod.mk.inj (Option.some.inj heq)).2
      rw [hknown]
      cases hlocation with
      | exceptionParam hname hslot =>
        rw [hlocal] at hslot
        rw [Option.some.inj hslot]
        exact ⟨fun _ hsplit => hsplit.1 hname, fun _ => rfl⟩
      | @captured closureSlot i hname hslot hlogical =>
        have hsplit : f.Split name := ⟨hname, hlogical ▸ List.mem_map_of_mem
          (List.mem_of_getElem? hslot), hcapture, by rw [hlocal]; rfl⟩
        refine ⟨fun heq => ?_, fun hnot => absurd hsplit hnot⟩
        cases (Prod.mk.inj (Option.some.inj heq)).1
      | own _ _ _ hnone =>
        rw [hlocal] at hnone
        cases hnone
      | «local» _ hcaptured hslot =>
        rw [hlocal] at hslot
        rw [Option.some.inj hslot]
        exact ⟨fun _ hsplit => hcaptured hsplit.2.1, fun _ => rfl⟩
      | global _ _ _ hnone =>
        rw [hlocal] at hnone
        cases hnone
  · rw [if_neg (mt (resolveCellStorageName_isSome h hplain).mp hcapture)]
    exact ⟨fun _ hsplit => hcapture hsplit.2.2.1, fun _ => hmark⟩

/-- A store of a split name goes to its stack slot. -/
theorem locateStore_split {name : String}
    (hplain : Plain name) {globals known : List String} {location : NameLocation}
    (hload : f.locateLoad name globals = some (location, known)) (hsplit : f.Split name) :
    ∃ slot, f.localSlots.get? name = some slot ∧
      f.locateStore name globals = some (.local slot, known) := by
  obtain ⟨-, -, hcapture, hsome⟩ := hsplit
  obtain ⟨slot, hslot⟩ := Option.isSome_iff_exists.mp hsome
  obtain ⟨⟨found, known'⟩, hfound, hmark⟩ := Option.bind_eq_some_iff.mp hload
  obtain ⟨marked, -, heq⟩ := Option.bind_eq_some_iff.mp hmark
  obtain rfl : known' = known := (Prod.mk.inj (Option.some.inj heq)).2
  refine ⟨slot, hslot, ?_⟩
  unfold locateStore
  rw [hfound]
  show ((f.markRawCellStoreName name found).bind fun location => some (location, known')) = _
  unfold markRawCellStoreName
  rw [if_pos ((resolveCellStorageName_isSome h hplain).mpr hcapture), hslot]
  rfl

/-! ### Names and their locations -/

/-- The name at a location, of a callable with these stack slots and a module with these globals. -/
def nameAt (f : NameLocator) (table all : List String) : NameLocation → Option String
  | .local slot => table[slot]?
  | .cell (.capturedSource i) => ((freevarsOf f.layout)[i]?).map ClosureSlot.logicalName
  | .cell (.owned j) => ((cellvarsOf f.layout)[j]?).map ClosureSlot.logicalName
  | .global slot => all[slot]?
  | _ => none

omit h in
/-- The location of a name determines it, as long as the globals keep their slots. -/
theorem LocationOf.nameAt_eq {table all : List String} (htable : table.Nodup)
    (hslots : f.localSlots = ofTable table) {name : String} {globals : List String}
    {location : NameLocation} (hname : LocationOf f name globals location)
    (hall : globalsAfter name globals location <+: all) :
    f.nameAt table all location = some name := by
  have hlocal : ∀ {slot : ℕ}, f.localSlots.get? name = some slot → table[slot]? = some name :=
    fun hslot => (Slots.get?_ofTable htable).mp (hslots ▸ hslot)
  cases hname with
  | exceptionParam _ hslot => exact hlocal hslot
  | captured _ hslot hlogical =>
    show ((freevarsOf f.layout)[_]?).map ClosureSlot.logicalName = some name
    rw [hslot, Option.map_some, hlogical]
  | own _ hslot hlogical =>
    show ((cellvarsOf f.layout)[_]?).map ClosureSlot.logicalName = some name
    rw [hslot, Option.map_some, hlogical]
  | «local» _ _ hslot => exact hlocal hslot
  | global =>
    have hall' : ensure globals name <+: all := hall
    have hhere : slot? (ensure globals name) name = some ((ensure globals name).idxOf name) :=
      if_pos (mem_ensure.mpr (.inr rfl))
    exact getElem?_of_slot? <| slot?_of_prefix hall' hhere

omit h in
theorem prefix_globalsAfter (name : String) (globals : List String) (location : NameLocation) :
    globals <+: globalsAfter name globals location := by
  cases location with
  | global _ => exact prefix_ensure globals name
  | «local» _ => exact List.prefix_refl globals
  | runtimeName => exact List.prefix_refl globals
  | cell _ => exact List.prefix_refl globals
  | constant _ => exact List.prefix_refl globals

/-- Whatever the names of the globals are when a name is located, it is in one place, as long as
they keep their slots. -/
theorem LocationOf.common
    (hexc : ∀ name ∈ f.exceptionParamNames, (f.localSlots.get? name).isSome) {name : String}
    (hplain : Plain name) (all : List String) : ∃ location, ∀ globals found,
      LocationOf f name globals found → globalsAfter name globals found <+: all →
        found = location := by
  obtain ⟨location, hlocation⟩ := exists_locationOf hexc name all
  have hunique : ∀ found, LocationOf f name all found → found = location := fun found hfound =>
    (Prod.mk.inj (Option.some.inj ((locateLoad_eq h hplain hfound).symm.trans
      (locateLoad_eq h hplain hlocation)))).1
  refine ⟨location, fun globals found hfound hall => hunique found ?_⟩
  cases hfound with
  | exceptionParam hname hslot => exact .exceptionParam hname hslot
  | captured hname hslot hlogical => exact .captured hname hslot hlogical
  | own hname hslot hlogical hlocal => exact .own hname hslot hlogical hlocal
  | «local» hname hcaptured hslot => exact .local hname hcaptured hslot
  | global hname hcaptured hown hlocal =>
    have hall' : ensure globals name <+: all := hall
    have hhere : slot? (ensure globals name) name = some ((ensure globals name).idxOf name) :=
      if_pos (mem_ensure.mpr (.inr rfl))
    have hmem : name ∈ all := hall'.mem (mem_ensure.mpr (.inr rfl))
    have hslot : (slotFor globals name).1 = (slotFor all name).1 := by
      have hsame := slot?_of_prefix hall' hhere
      rw [slot?, if_pos hmem] at hsame
      rw [slotFor, slotFor, ensure_of_mem hmem]
      exact (Option.some.inj hsame).symm
    rw [hslot]
    exact .global hname hcaptured hown hlocal

/-! ### Names with stack slots -/

omit h in
/-- The name of a parameter of the function or of one of its blocks. -/
def IsParam (f : NameLocator) (name : String) : Prop :=
  name ∈ f.callable.params ∨ ∃ block ∈ f.callable.blocks, name ∈ block.paramNames

/-- Only parameters of those names that are cells have stack slots. -/
theorem localSlot_isSome_iff {stores : StoreScope} {remaining stored : List String}
    (hslots : f.localSlots =
      computeLocalSlotLocations (f.callable.slotCallable stores remaining stored))
    (hparams : f.callable.params.Nodup) (hremaining : remaining.Nodup) {name : String}
    (hplain : Plain name) :
    (f.localSlots.get? name).isSome ↔ f.IsParam name ∨
      name ∈ remaining ∧ f.callable.isRemainingLocalName stores (decide (name ∈ stored)) name := by
  have hmem := hslots ▸ get?_isSome_iff_mem_slotTable stores stored hparams hremaining name
  have hcell : name ∉ f.callable.scope.ownedCellStorageNames := fun hstorage => by
    obtain ⟨logical, -, rfl⟩ := h.ofFunction.mem_ownedCellStorageNames.mp hstorage
    exact hplain.ne_cellName logical rfl
  have hblocks : name ∈ (f.callable.slotCallable stores remaining stored).blockParams.flatten ↔
      ∃ block ∈ f.callable.blocks, name ∈ block.paramNames := by
    simp only [Callable.slotCallable, List.mem_flatten, List.mem_map, Blocks.Block.paramNames,
      exists_exists_and_eq_and]
  rw [hmem, Slots.mem_slotTable, hblocks]
  simp only [Callable.slotCallable, hcell, false_or, IsParam, or_assoc]

theorem isRemainingLocalName_cell {stores : StoreScope} {stored : Bool} {name : String}
    {kind : CellBindingKind} (hplain : Plain name)
    (hkind : f.callable.scope.bindingKind name = some (.cell kind)) :
    f.callable.isRemainingLocalName stores stored name = false := by
  unfold Callable.isRemainingLocalName
  cases kind with
  | capture => rw [if_pos ((resolveCellStorageName_isSome h hplain).mpr hkind)]
  | owner =>
    rw [if_neg fun hsome => by
      rw [(resolveCellStorageName_isSome h hplain).mp hsome] at hkind
      cases hkind]
    have hcell : f.callable.scope.isCellBinding name = true := by
      unfold CallableScopeInfo.isCellBinding
      rw [hkind]
    simp only [hcell, hkind, Bool.not_true, Bool.false_and, ite_self]

/-- A plain name of a cell has a stack slot if and only if it is the name of a parameter. -/
theorem localSlot_isSome_cell {stores : StoreScope} {remaining stored : List String}
    (hslots : f.localSlots =
      computeLocalSlotLocations (f.callable.slotCallable stores remaining stored))
    (hparams : f.callable.params.Nodup) (hremaining : remaining.Nodup) {name : String}
    {kind : CellBindingKind} (hplain : Plain name)
    (hkind : f.callable.scope.bindingKind name = some (.cell kind)) :
    (f.localSlots.get? name).isSome ↔ f.IsParam name := by
  rw [localSlot_isSome_iff h hslots hparams hremaining hplain,
    isRemainingLocalName_cell h hplain hkind]
  simp

end NameLocator

/-! ## The names of a function -/

namespace Callable

variable {c : Callable} {layout : Option StorageLayout}

/-- The locator of `locate_names_in_callable`. The slots are those that the names of the callable
have been given before; the layout keeps them. -/
def nameLocator (c : Callable) (layout : Option StorageLayout) (stores : StoreScope)
    (remaining stored : List String) : NameLocator where
  callable := c
  layout := layout
  exceptionParamNames := c.blocks.filterMap Blocks.Block.exceptionParam
  localSlots := computeLocalSlotLocations (c.slotCallable stores remaining stored)

variable {stores : StoreScope} {remaining stored : List String}

theorem isParam_exceptionParam {name : String}
    (hname : name ∈ (c.nameLocator layout stores remaining stored).exceptionParamNames) :
    (c.nameLocator layout stores remaining stored).IsParam name := by
  obtain ⟨block, hblock, hexc⟩ := List.mem_filterMap.mp hname
  obtain ⟨param, hparam, rfl⟩ := Option.map_eq_some_iff.mp hexc
  exact .inr ⟨block, hblock, List.mem_map_of_mem (List.mem_of_find?_eq_some hparam)⟩

theorem localSlot_isSome_param (hparams : c.params.Nodup) (hremaining : remaining.Nodup)
    {name : String} (hname : (c.nameLocator layout stores remaining stored).IsParam name) :
    ((c.nameLocator layout stores remaining stored).localSlots.get? name).isSome := by
  refine (get?_isSome_iff_mem_slotTable stores stored hparams hremaining name).mpr ?_
  refine List.mem_append_left _ (mem_ensureAll.mpr ?_)
  rcases hname with hparam | ⟨block, hblock, hparam⟩
  · exact .inl hparam
  · exact .inr (List.mem_append_right _ (List.mem_flatten.mpr
      ⟨_, List.mem_map_of_mem hblock, hparam⟩))

/-- A captured name that is also the name of a parameter of a block, which is not its exception. -/
def CapturedParam (f : NameLocator) (name : String) : Prop :=
  name ∉ f.exceptionParamNames ∧ name ∈ (freevarsOf f.layout).map ClosureSlot.logicalName ∧
    f.callable.scope.bindingKind name = some (.cell .capture) ∧ f.IsParam name

/-- In a function whose names are plain, every name is located, by all loads in one place as long as
the globals keep their slots. Its stores and deletions are located where its loads are, but for
captured names of parameters, which are located in their stack slots; two names are located in two
places; and a cell of the function's own is found if and only if its name is not that of a
parameter. -/
theorem locateNames_variables (h : c.LaidOut layout) (hparams : c.params.Nodup)
    (hremaining : remaining.Nodup) (stores : StoreScope) (stored : List String) :
    let f := c.nameLocator layout stores remaining stored
    (∀ name, Plain name → ∀ globals, ∃ location known,
      f.locateLoad name globals = some (location, known) ∧ globals <+: known ∧
        (f.locateStore name globals = some (location, known) ↔ ¬CapturedParam f name) ∧
        (CapturedParam f name → ∃ slot, f.localSlots.get? name = some slot ∧
          f.locateStore name globals = some (.local slot, known))) ∧
    (∀ name, Plain name → ∀ all, ∃ location, ∀ globals found known,
      f.locateLoad name globals = some (found, known) → known <+: all → found = location) ∧
    (∀ name other, Plain name → Plain other → ∀ globals globals' known known' all location,
      f.locateLoad name globals = some (location, known) →
        f.locateLoad other globals' = some (location, known') →
          known <+: all → known' <+: all → name = other) ∧
    ∀ name, Plain name → c.scope.bindingKind name = some (.cell .owner) → ∀ globals,
      (∃ j, f.locateLoad name globals = some (.cell (.owned j), globals)) ↔ ¬f.IsParam name := by
  intro f
  obtain ⟨htable, hnodup⟩ := computeLocalSlotLocations_slotCallable stores stored hparams hremaining
  have hexc : ∀ name ∈ f.exceptionParamNames, (f.localSlots.get? name).isSome := fun name hname =>
    localSlot_isSome_param hparams hremaining (isParam_exceptionParam hname)
  have hslot : ∀ {name : String} {kind : CellBindingKind}, Plain name →
      c.scope.bindingKind name = some (.cell kind) →
        ((f.localSlots.get? name).isSome ↔ f.IsParam name) := fun hplain hkind =>
    NameLocator.localSlot_isSome_cell h rfl hparams hremaining hplain hkind
  have hsplit : ∀ {name}, Plain name → (f.Split name ↔ CapturedParam f name) := fun hplain =>
    and_congr_right fun _ => and_congr_right fun _ => and_congr_right fun hkind =>
      hslot hplain hkind
  refine ⟨fun name hplain globals => ?_, fun name hplain all => ?_, ?_,
    fun name hplain howner globals => ?_⟩
  · obtain ⟨location, hlocation⟩ := NameLocator.exists_locationOf hexc name globals
    have hload := NameLocator.locateLoad_eq h hplain hlocation
    refine ⟨location, _, hload, NameLocator.prefix_globalsAfter .., ?_, fun hcaptured => ?_⟩
    · have hstore := NameLocator.locateStore_eq_iff h hexc hplain globals
      rw [hload] at hstore
      rw [hstore]
      exact not_congr (hsplit hplain)
    · exact NameLocator.locateStore_split h hplain hload ((hsplit hplain).mpr hcaptured)
  · obtain ⟨location, hcommon⟩ := NameLocator.LocationOf.common h hexc hplain all
    refine ⟨location, fun globals found known hload hknown => ?_⟩
    obtain ⟨hfound, rfl⟩ := NameLocator.locationOf_of_locateLoad h hexc hplain hload
    exact hcommon globals found hfound hknown
  · intro name other hp hp' globals globals' known known' all location hload hload' hall hall'
    obtain ⟨hname, rfl⟩ := NameLocator.locationOf_of_locateLoad h hexc hp hload
    obtain ⟨hother, rfl⟩ := NameLocator.locationOf_of_locateLoad h hexc hp' hload'
    exact Option.some.inj ((hname.nameAt_eq hnodup htable hall).symm.trans
      (hother.nameAt_eq hnodup htable hall'))
  · constructor
    · rintro ⟨j, hload⟩ hparam
      obtain ⟨hlocation, -⟩ := NameLocator.locationOf_of_locateLoad h hexc hplain hload
      have hsome := (hslot hplain howner).mpr hparam
      cases hlocation with
      | own _ _ _ hnone =>
        rw [hnone] at hsome
        cases hsome
    · intro hparam
      have hnone : f.localSlots.get? name = none :=
        Option.not_isSome_iff_eq_none.mp (mt (hslot hplain howner).mp hparam)
      obtain ⟨slot, hmem, hlogical⟩ := List.mem_map.mp (h.ownAll name howner)
      obtain ⟨j, hj⟩ := List.mem_iff_getElem?.mp hmem
      exact ⟨j, NameLocator.locateLoad_eq h hplain
        (.own (fun hname => hparam (isParam_exceptionParam hname)) hj hlogical hnone)⟩

end Callable

/-- A function whose parameter is a cell. -/
def paramFunction : Callable :=
  ⟨0, ["x"], creating [], callableScopeInfo (oneName "x" (.cell .owner)), none⟩

theorem bindingKind_paramFunction (name : String) :
    paramFunction.scope.bindingKind name = if name = "x" then some (.cell .owner) else none := by
  show (AList.singleton (β := fun _ => BindingKind) "x" (.cell .owner)).lookup name = _
  by_cases h : name = "x"
  · rw [h]
    rfl
  · rw [if_neg h]
    refine AList.lookup_eq_none.mpr fun hmem => h ?_
    simpa [AList.mem_keys] using hmem

theorem laidOut_paramFunction : paramFunction.LaidOut paramFunction.storageLayoutFromScope where
  scope := ⟨_, rfl⟩
  captured slot hslot := by cases hslot
  own slot hslot := by
    have heq : slot = ⟨"x", "_dp_cell_x", .parameter⟩ := List.mem_singleton.mp hslot
    rw [heq]
    exact ⟨rfl, by decide, rfl⟩
  ownAll name hname := by
    rw [bindingKind_paramFunction] at hname
    by_cases h : name = "x"
    · rw [h]
      exact List.mem_singleton.mpr rfl
    · rw [if_neg h] at hname
      cases hname
  capturedNodup := List.nodup_nil
  ownNodup := List.nodup_singleton "x"
  noRuntimeCells given hgiven := by
    cases hgiven
    rfl
  noCaptures hnone := by cases hnone
  onlyClass hclass := by cases hclass

/-- A parameter is not found in its cell. -/
theorem locateNames_variables_param :
    ¬∃ j, (paramFunction.nameLocator paramFunction.storageLayoutFromScope ⟨[], [], ∅⟩ ["x"]
      []).locateLoad "x" [] = some (.cell (.owned j), []) := fun hfound =>
  ((Callable.locateNames_variables laidOut_paramFunction (by decide) (by decide) ⟨[], [], ∅⟩
    []).2.2.2 "x" (by decide) rfl []).mp hfound (.inl (List.mem_singleton.mpr rfl))

end DietPython.Closures
