import DietPython.Closures.Layouts

/-!
# Where cells are

The names of cells are looked up in maps from names to slots, which are made from the layout of a
callable: a captured cell and an own cell each go into them under their logical name and under their
storage name, and for a captured cell there is the name that it is asked for when a function is
created. What a function captures is asked for under a name that its own scope gives.

In a module of plain names whose callables are functions, none of these names gets in the way of
another: a cell that a callable has is found in its slot.
-/

namespace DietPython.Closures

open Blocks (CellLocation)
open Generators

/-! ## Maps -/

/-- A map filled from entries, the last one of a key counts. -/
def insertAll {α : Type*} (entries : List (String × α)) : String → Option α :=
  entries.foldl (fun slots entry => Function.update slots entry.1 (some entry.2)) fun _ => none

section InsertAll

variable {α : Type*} {entries : List (String × α)} {key : String} {value : α}

theorem insertAll_concat (entries : List (String × α)) (entry : String × α) :
    insertAll (entries ++ [entry]) =
      Function.update (insertAll entries) entry.1 (some entry.2) := by
  unfold insertAll
  rw [List.foldl_append]
  rfl

theorem insertAll_eq_none (h : ∀ value, (key, value) ∉ entries) : insertAll entries key = none := by
  induction entries using List.reverseRecOn with
  | nil => rfl
  | append_singleton entries entry ih =>
    have hne : key ≠ entry.1 := by
      rintro rfl
      exact h entry.2 (List.mem_append_right _ (List.mem_singleton.mpr rfl))
    rw [insertAll_concat, Function.update_of_ne hne]
    exact ih fun value hmem => h value (List.mem_append_left _ hmem)

/-- Entries of one key that agree. -/
theorem insertAll_eq_some (hmem : (key, value) ∈ entries)
    (hagree : ∀ other, (key, other) ∈ entries → other = value) :
    insertAll entries key = some value := by
  induction entries using List.reverseRecOn with
  | nil => cases hmem
  | append_singleton entries entry ih =>
    rw [insertAll_concat]
    by_cases hkey : key = entry.1
    · subst hkey
      rw [Function.update_self,
        hagree entry.2 (List.mem_append_right _ (List.mem_singleton.mpr rfl))]
    · rw [Function.update_of_ne hkey]
      rcases List.mem_append.mp hmem with hmem | hmem
      · exact ih hmem fun other hother => hagree other (List.mem_append_left _ hother)
      · rw [← List.mem_singleton.mp hmem] at hkey
        exact absurd rfl hkey

end InsertAll

/-! ## The maps of a callable -/

namespace Callable

variable (c : Callable)

/-- The entries of `collect_captured_cell_slot_locations`. -/
def capturedCellEntries (layout : Option StorageLayout) : List (String × ℕ) :=
  (freevarsOf layout).zipIdx.flatMap fun entry =>
    [(entry.1.storageName, entry.2), (entry.1.logicalName, entry.2)]

/-- `collect_owned_cell_storage_bindings` -/
def ownedCellStorageBindings (layout : Option StorageLayout) : List (String × String) :=
  let localCells := (layout.map StorageLayout.localCells).getD []
  if localCells ≠ [] then localCells.map fun slot => (slot.logicalName, slot.storageName)
  else
    (sortDedup c.scope.ownedCellStorageNames).map fun storageName =>
      (c.cellLogicalName storageName, storageName)

/-- The entries of `collect_owned_cell_slot_locations`. -/
def ownedCellEntries (layout : Option StorageLayout) : List (String × ℕ) :=
  (c.ownedCellStorageBindings layout).zipIdx.flatMap fun entry =>
    [(entry.1.2, entry.2), (entry.1.1, entry.2)]

/-- The entries of `collect_cell_bindings`. Without a layout there are none. -/
def cellBindingEntries : Option StorageLayout → List (String × String × CellBindingKind)
  | none => []
  | some layout =>
    (layout.freevars.flatMap fun slot =>
      [(slot.logicalName, slot.storageName, .capture),
        (slot.storageName, slot.storageName, .capture),
        (c.scope.cellCaptureSourceName slot.logicalName, slot.storageName, .capture)]) ++
    (c.ownedCellStorageBindings (some layout)).flatMap fun binding =>
      [(binding.1, binding.2, .owner), (binding.2, binding.2, .owner)]

/-- `resolve_captured_cell_source_storage_name` -/
def resolveCapturedCellSourceStorageName (name : String) : Option String := do
  let logicalName ← c.scope.logicalNameForCellCaptureSource name
  if c.scope.bindingKind logicalName ≠ some (.cell .capture) then none
  else
    let captureSourceName := c.scope.cellCaptureSourceName logicalName
    let storageName := c.scope.cellStorageName logicalName
    if captureSourceName = name ∧ captureSourceName ≠ storageName then some storageName else none

/-- `resolve_raw_cell_location`, which stops when there is no slot. -/
def resolveRawCellLocation (layout : Option StorageLayout) (name : String) : Option CellLocation :=
  let captured storageName := insertAll (capturedCellEntries layout) storageName
  match c.resolveCapturedCellSourceStorageName name with
  | some storageName => (captured storageName).map .capturedSource
  | none =>
    match insertAll (c.cellBindingEntries layout) name with
    | some (storageName, .owner) =>
      (insertAll (c.ownedCellEntries layout) storageName).map .owned
    | some (storageName, .capture) => (captured storageName).map .capturedSource
    | none => none

/-- `resolve_cell_ref_location` -/
def resolveCellRefLocation (layout : Option StorageLayout) (logicalName : String) :
    Option CellLocation :=
  if (insertAll (c.cellBindingEntries layout) logicalName).isSome ∨
      (c.resolveCapturedCellSourceStorageName logicalName).isSome then
    c.resolveRawCellLocation layout logicalName
  else c.resolveRawCellLocation layout (c.scope.cellRefSourceName logicalName)

/-! ## Functions with plain names -/

/-- A function with plain names, and a layout of what it captures and of its own cells. -/
structure LaidOut (layout : Option StorageLayout) : Prop where
  scope : ∃ names, c.scope = callableScopeInfo names
  captured : ∀ slot ∈ freevarsOf layout, slot = c.captureSlot slot.logicalName ∧
    Plain slot.logicalName ∧ c.scope.bindingKind slot.logicalName ≠ some (.cell .owner)
  own : ∀ slot ∈ cellvarsOf layout, slot.storageName = cellName slot.logicalName ∧
    Plain slot.logicalName ∧ c.scope.bindingKind slot.logicalName = some (.cell .owner)
  ownAll : ∀ name, c.scope.bindingKind name = some (.cell .owner) →
    name ∈ (cellvarsOf layout).map ClosureSlot.logicalName
  capturedNodup : ((freevarsOf layout).map ClosureSlot.logicalName).Nodup
  ownNodup : ((cellvarsOf layout).map ClosureSlot.logicalName).Nodup
  noRuntimeCells : ∀ given, layout = some given → given.runtimeCells = []
  noCaptures : layout = none → c.captureNames = []
  /-- The cell of the class that a method is defined in. -/
  onlyClass : "__class__" ∈ (freevarsOf layout).map ClosureSlot.logicalName →
    c.scope.bindingKind "__class__" = some (.cell .capture)

end Callable

/-- A name that a cell is looked up by. -/
def IsNameOf (logicalName name : String) : Prop := name = logicalName ∨ name = cellName logicalName

theorem IsNameOf.unique {logical logical' name : String} (hplain : Plain logical)
    (hplain' : Plain logical') (h : IsNameOf logical name) (h' : IsNameOf logical' name) :
    logical = logical' := by
  rcases h with rfl | rfl <;> rcases h' with h' | h'
  · exact h'
  · exact absurd h' (hplain.ne_cellName logical')
  · exact absurd h'.symm (hplain'.ne_cellName logical)
  · exact cellName_inj h'

/-- The name that a captured cell is asked for when a function is created. -/
def captureSourceName (name : String) : String :=
  if name = "__class__" then name else cellName name

theorem isNameOf_captureSourceName (name : String) : IsNameOf name (captureSourceName name) := by
  unfold captureSourceName
  by_cases h : name = "__class__"
  · rw [if_pos h]
    exact .inl rfl
  · rw [if_neg h]
    exact .inr rfl

namespace Callable.LaidOut

variable {c : Callable} {layout : Option StorageLayout} (h : c.LaidOut layout)

include h

theorem ofFunction : c.scope.OfFunction := by
  obtain ⟨names, hnames⟩ := h.scope
  rw [hnames]
  exact callableScopeInfo_ofFunction names

theorem storageName_eq {slot : ClosureSlot} (hslot : slot ∈ freevarsOf layout) :
    slot.storageName = if c.scope.bindingKind slot.logicalName = some (.cell .capture) then
      slot.logicalName else cellName slot.logicalName := by
  rw [← h.ofFunction.cellStorageName_eq]
  exact congrArg ClosureSlot.storageName (h.captured slot hslot).1

theorem isNameOf_storageName {slot : ClosureSlot} (hslot : slot ∈ freevarsOf layout) :
    IsNameOf slot.logicalName slot.storageName := by
  rw [h.storageName_eq hslot]
  by_cases hcapture : c.scope.bindingKind slot.logicalName = some (.cell .capture)
  · rw [if_pos hcapture]
    exact .inl rfl
  · rw [if_neg hcapture]
    exact .inr rfl

/-- What a function captures is asked for under this name. -/
theorem cellCaptureSourceName_eq {name : String}
    (hname : name ∈ (freevarsOf layout).map ClosureSlot.logicalName) :
    c.scope.cellCaptureSourceName name = captureSourceName name := by
  unfold captureSourceName
  by_cases hclass : name = "__class__"
  · subst hclass
    rw [if_pos rfl]
    have hcapture := h.onlyClass hname
    obtain ⟨names, hnames⟩ := h.scope
    unfold CallableScopeInfo.cellCaptureSourceName
    rw [hnames] at hcapture ⊢
    have hlookup : names.bindings.lookup "__class__" = some (.cell .capture) := hcapture
    simp only [callableScopeInfo, hlookup, if_true, AList.lookup_insert, Option.getD_some]
  · rw [if_neg hclass]
    rcases h.ofFunction.cellCaptureSourceName_eq name with heq | ⟨heq, -⟩
    · exact heq
    · exact absurd heq hclass

theorem localCells_eq :
    (layout.map StorageLayout.localCells).getD [] = cellvarsOf layout := by
  cases layout with
  | none => rfl
  | some given =>
    show given.cellvars ++ given.runtimeCells = given.cellvars
    rw [h.noRuntimeCells given rfl, List.append_nil]

theorem ownedCellStorageBindings_eq : c.ownedCellStorageBindings layout =
    (cellvarsOf layout).map fun slot => (slot.logicalName, slot.storageName) := by
  unfold ownedCellStorageBindings
  dsimp only
  rw [h.localCells_eq]
  by_cases hnil : cellvarsOf layout = []
  · have hnone : sortDedup c.scope.ownedCellStorageNames = [] := by
      refine List.eq_nil_iff_forall_not_mem.mpr fun storageName hmem => ?_
      obtain ⟨name, howner, -⟩ := h.ofFunction.mem_ownedCellStorageNames.mp (mem_sortDedup.mp hmem)
      have := h.ownAll name howner
      rw [hnil] at this
      cases this
    rw [if_neg (not_not_intro hnil), hnil, hnone]
    rfl
  · rw [if_pos hnil]

/-- The slot of a captured cell under its storage name. -/
theorem capturedSlot_eq {slot : ClosureSlot} {i : ℕ} (hi : (freevarsOf layout)[i]? = some slot) :
    insertAll (capturedCellEntries layout) slot.storageName = some i := by
  have hslot := List.mem_of_getElem? hi
  unfold capturedCellEntries
  refine insertAll_eq_some (List.mem_flatMap.mpr ⟨(slot, i), List.mem_zipIdx_iff_getElem?.mpr hi,
    List.mem_cons_self ..⟩) fun j hj => ?_
  obtain ⟨⟨other, j'⟩, hmem, hentry⟩ := List.mem_flatMap.mp hj
  have hother := List.mem_zipIdx_iff_getElem?.mp hmem
  have hotherMem : other ∈ freevarsOf layout := List.mem_of_getElem? hother
  simp only [List.mem_cons, Prod.mk.injEq, List.not_mem_nil, or_false] at hentry
  have hname : IsNameOf other.logicalName slot.storageName ∧ j = j' := by
    rcases hentry with ⟨heq, hj⟩ | ⟨heq, hj⟩
    · rw [heq]
      exact ⟨h.isNameOf_storageName hotherMem, hj⟩
    · exact ⟨.inl heq, hj⟩
  have hsame := IsNameOf.unique (h.captured _ hslot).2.1 (h.captured _ hotherMem).2.1
    (h.isNameOf_storageName hslot) hname.1
  have hi' : ((freevarsOf layout).map ClosureSlot.logicalName)[i]? = some slot.logicalName := by
    rw [List.getElem?_map, hi]
    rfl
  have hj'' : ((freevarsOf layout).map ClosureSlot.logicalName)[j']? = some slot.logicalName := by
    rw [List.getElem?_map, hother, hsame]
    rfl
  rw [hname.2]
  exact (List.getElem?_inj (List.getElem?_eq_some_iff.mp hj'').1 h.capturedNodup).mp
    (hj''.trans hi'.symm)

/-- The slot of an own cell under its storage name. -/
theorem ownSlot_eq {slot : ClosureSlot} {j : ℕ} (hj : (cellvarsOf layout)[j]? = some slot) :
    insertAll (c.ownedCellEntries layout) slot.storageName = some j := by
  have hslot := List.mem_of_getElem? hj
  unfold ownedCellEntries
  rw [h.ownedCellStorageBindings_eq]
  have hbinding : ((cellvarsOf layout).map fun slot => (slot.logicalName, slot.storageName))[j]? =
      some (slot.logicalName, slot.storageName) := by
    rw [List.getElem?_map, hj]
    rfl
  refine insertAll_eq_some (List.mem_flatMap.mpr ⟨((slot.logicalName, slot.storageName), j),
    List.mem_zipIdx_iff_getElem?.mpr hbinding, List.mem_cons_self ..⟩) fun i hi => ?_
  obtain ⟨⟨binding, i'⟩, hmem, hentry⟩ := List.mem_flatMap.mp hi
  have hother := List.mem_zipIdx_iff_getElem?.mp hmem
  rw [List.getElem?_map] at hother
  obtain ⟨other, hotherAt, rfl⟩ := Option.map_eq_some_iff.mp hother
  have hotherMem : other ∈ cellvarsOf layout := List.mem_of_getElem? hotherAt
  simp only [List.mem_cons, Prod.mk.injEq, List.not_mem_nil, or_false] at hentry
  rw [(h.own _ hslot).1, (h.own _ hotherMem).1] at hentry
  have hname : IsNameOf other.logicalName (cellName slot.logicalName) ∧ i = i' := by
    rcases hentry with ⟨heq, hi⟩ | ⟨heq, hi⟩
    · exact ⟨.inr heq, hi⟩
    · exact ⟨.inl heq, hi⟩
  have hsame := IsNameOf.unique (h.own _ hslot).2.1 (h.own _ hotherMem).2.1 (.inr rfl) hname.1
  have hj' : ((cellvarsOf layout).map ClosureSlot.logicalName)[j]? = some slot.logicalName := by
    rw [List.getElem?_map, hj]
    rfl
  have hi' : ((cellvarsOf layout).map ClosureSlot.logicalName)[i']? = some slot.logicalName := by
    rw [List.getElem?_map, hotherAt, hsame]
    rfl
  rw [hname.2]
  exact (List.getElem?_inj (List.getElem?_eq_some_iff.mp hi').1 h.ownNodup).mp (hi'.trans hj'.symm)

/-! ### The bindings of cells -/

/-- The entries for a captured cell and for an own one. -/
theorem cellBindingEntries_cases {key storageName : String} {kind : CellBindingKind}
    (hmem : (key, storageName, kind) ∈ c.cellBindingEntries layout) :
    (∃ slot ∈ freevarsOf layout, IsNameOf slot.logicalName key ∧ storageName = slot.storageName ∧
      kind = .capture) ∨
    ∃ slot ∈ cellvarsOf layout, IsNameOf slot.logicalName key ∧ storageName = slot.storageName ∧
      kind = .owner := by
  cases hlayout : layout with
  | none => rw [hlayout] at hmem; cases hmem
  | some given =>
    have howned := h.ownedCellStorageBindings_eq
    rw [hlayout] at hmem howned
    simp only [cellBindingEntries, howned, List.mem_append, List.mem_flatMap, List.mem_map,
      List.mem_cons, Prod.mk.injEq, List.not_mem_nil, or_false] at hmem
    rcases hmem with ⟨slot, hslot, hentry⟩ | ⟨_, ⟨slot, hslot, rfl⟩, hentry⟩
    · have hslot' : slot ∈ freevarsOf layout := by rw [hlayout]; exact hslot
      refine .inl ⟨slot, hslot, ?_⟩
      rcases hentry with ⟨hkey, hentry⟩ | ⟨hkey, hentry⟩ | ⟨hkey, hentry⟩
      · exact ⟨.inl hkey, hentry⟩
      · exact ⟨hkey ▸ h.isNameOf_storageName hslot', hentry⟩
      · rw [h.cellCaptureSourceName_eq (List.mem_map_of_mem hslot')] at hkey
        exact ⟨hkey ▸ isNameOf_captureSourceName _, hentry⟩
    · have hslot' : slot ∈ cellvarsOf layout := by rw [hlayout]; exact hslot
      refine .inr ⟨slot, hslot, ?_⟩
      rcases hentry with ⟨hkey, hentry⟩ | ⟨hkey, hentry⟩
      · exact ⟨.inl hkey, hentry⟩
      · exact ⟨.inr (hkey.trans (h.own _ hslot').1), hentry⟩

theorem capturedBinding_mem {slot : ClosureSlot} (hslot : slot ∈ freevarsOf layout) :
    (captureSourceName slot.logicalName, slot.storageName, CellBindingKind.capture) ∈
      c.cellBindingEntries layout := by
  have hsource := h.cellCaptureSourceName_eq (List.mem_map_of_mem hslot)
  cases layout with
  | none => cases hslot
  | some given =>
    refine List.mem_append_left _ (List.mem_flatMap.mpr ⟨slot, hslot, ?_⟩)
    rw [hsource]
    exact List.mem_cons_of_mem _ (List.mem_cons_of_mem _ (List.mem_cons_self ..))

theorem ownBinding_mem {slot : ClosureSlot} (hslot : slot ∈ cellvarsOf layout) {name : String}
    (hname : IsNameOf slot.logicalName name) :
    (name, slot.storageName, CellBindingKind.owner) ∈ c.cellBindingEntries layout := by
  have howned := h.ownedCellStorageBindings_eq
  cases layout with
  | none => cases hslot
  | some given =>
    simp only [cellBindingEntries, howned]
    refine List.mem_append_right _ (List.mem_flatMap.mpr ⟨_, List.mem_map_of_mem hslot, ?_⟩)
    rcases hname with rfl | rfl
    · exact List.mem_cons_self ..
    · rw [← (h.own slot hslot).1]
      exact List.mem_cons_of_mem _ (List.mem_cons_self ..)

theorem captured_ne_own {slot own : ClosureSlot} (hslot : slot ∈ freevarsOf layout)
    (hown : own ∈ cellvarsOf layout) : slot.logicalName ≠ own.logicalName := by
  intro heq
  have howner := (h.own own hown).2.2
  rw [← heq] at howner
  exact (h.captured slot hslot).2.2 howner

theorem capturedBinding_eq {slot : ClosureSlot} (hslot : slot ∈ freevarsOf layout) :
    insertAll (c.cellBindingEntries layout) (captureSourceName slot.logicalName) =
      some (slot.storageName, .capture) := by
  refine insertAll_eq_some (h.capturedBinding_mem hslot) fun ⟨storageName, kind⟩ hother => ?_
  have hname := isNameOf_captureSourceName slot.logicalName
  rcases h.cellBindingEntries_cases hother with ⟨other, hmem, hkey, rfl, rfl⟩ |
    ⟨own, hmem, hkey, rfl, rfl⟩
  · have hsame := IsNameOf.unique (h.captured _ hslot).2.1 (h.captured _ hmem).2.1 hname hkey
    rw [(h.captured _ hslot).1, (h.captured _ hmem).1, hsame]
  · exact absurd (IsNameOf.unique (h.captured _ hslot).2.1 (h.own _ hmem).2.1 hname hkey)
      (h.captured_ne_own hslot hmem)

theorem ownBinding_eq {slot : ClosureSlot} (hslot : slot ∈ cellvarsOf layout) {name : String}
    (hname : IsNameOf slot.logicalName name) :
    insertAll (c.cellBindingEntries layout) name = some (slot.storageName, .owner) := by
  refine insertAll_eq_some (h.ownBinding_mem hslot hname) fun ⟨storageName, kind⟩ hother => ?_
  rcases h.cellBindingEntries_cases hother with ⟨other, hmem, hkey, rfl, rfl⟩ |
    ⟨own, hmem, hkey, rfl, rfl⟩
  · exact absurd (IsNameOf.unique (h.captured _ hmem).2.1 (h.own _ hslot).2.1 hkey hname)
      (h.captured_ne_own hmem hslot)
  · have hsame := IsNameOf.unique (h.own _ hslot).2.1 (h.own _ hmem).2.1 hname hkey
    rw [(h.own _ hslot).1, (h.own _ hmem).1, hsame]

/-! ### Where they are -/

theorem resolveCapturedCellSourceStorageName_eq {logicalName name : String}
    (hplain : Plain logicalName) (hname : IsNameOf logicalName name)
    (hcapture : c.scope.bindingKind logicalName ≠ some (.cell .capture)) :
    c.resolveCapturedCellSourceStorageName name = none := by
  unfold resolveCapturedCellSourceStorageName
  rw [h.ofFunction.logicalNameForCellCaptureSource_eq]
  rcases hname with rfl | rfl
  · rw [if_pos ⟨hplain, hcapture⟩]
    rfl
  · rw [if_neg fun hboth => hboth.1.ne_cellName logicalName rfl, logicalName_cellName]
    exact if_pos hcapture

/-- An own cell that is asked for, under the name that a captured cell is asked for, is there. -/
theorem resolveCellRefLocation_own {slot : ClosureSlot} {j : ℕ}
    (hj : (cellvarsOf layout)[j]? = some slot) :
    c.resolveCellRefLocation layout (captureSourceName slot.logicalName) = some (.owned j) := by
  have hslot := List.mem_of_getElem? hj
  have hname := isNameOf_captureSourceName slot.logicalName
  have hbinding := h.ownBinding_eq hslot hname
  have hnot : c.scope.bindingKind slot.logicalName ≠ some (.cell .capture) := by
    rw [(h.own slot hslot).2.2]
    exact fun heq => by cases heq
  unfold resolveCellRefLocation
  rw [if_pos (.inl (by rw [hbinding]; rfl))]
  unfold resolveRawCellLocation
  simp only [h.resolveCapturedCellSourceStorageName_eq (h.own slot hslot).2.1 hname hnot, hbinding,
    h.ownSlot_eq hj, Option.map_some]

/-- A captured cell that is asked for is there. -/
theorem resolveCellRefLocation_captured {slot : ClosureSlot} {i : ℕ}
    (hi : (freevarsOf layout)[i]? = some slot) :
    c.resolveCellRefLocation layout (captureSourceName slot.logicalName) =
      some (.capturedSource i) := by
  have hslot := List.mem_of_getElem? hi
  have hname := isNameOf_captureSourceName slot.logicalName
  have hbinding := h.capturedBinding_eq hslot
  have hplain := (h.captured slot hslot).2.1
  have hstorage := h.storageName_eq hslot
  have hsource := h.cellCaptureSourceName_eq (List.mem_map_of_mem hslot)
  have hfound := h.capturedSlot_eq hi
  unfold resolveCellRefLocation
  rw [if_pos (.inl (by rw [hbinding]; rfl))]
  unfold resolveRawCellLocation
  by_cases hcapture : c.scope.bindingKind slot.logicalName = some (.cell .capture)
  · -- a name that the scope captures: the class is its own source, others have one of their own
    rw [if_pos hcapture] at hstorage
    have hlogical : c.scope.logicalNameForCellCaptureSource (captureSourceName slot.logicalName) =
        some slot.logicalName := by
      rw [h.ofFunction.logicalNameForCellCaptureSource_eq]
      rcases hname with heq | heq
      · rw [heq, if_neg fun hboth => hboth.2 hcapture, hplain.logicalName_eq]
      · rw [heq, if_neg fun hboth => hboth.1.ne_cellName _ rfl, logicalName_cellName]
    have hstorageName : c.scope.cellStorageName slot.logicalName = slot.logicalName := by
      rw [h.ofFunction.cellStorageName_eq, if_pos hcapture]
    have hresolve : c.resolveCapturedCellSourceStorageName (captureSourceName slot.logicalName) =
        if captureSourceName slot.logicalName ≠ slot.logicalName then some slot.logicalName
        else none := by
      unfold resolveCapturedCellSourceStorageName
      simp only [hlogical, Option.bind_eq_bind, Option.bind_some, hcapture, hsource, hstorageName,
        ne_eq, not_true_eq_false, if_false, true_and]
    rw [hstorage] at hfound hbinding
    by_cases hself : captureSourceName slot.logicalName ≠ slot.logicalName
    · simp only [hresolve, if_pos hself, hfound, Option.map_some]
    · simp only [hresolve, if_neg hself, hbinding, hfound, Option.map_some]
  · simp only [h.resolveCapturedCellSourceStorageName_eq hplain hname hcapture, hbinding, hfound,
      Option.map_some]

end Callable.LaidOut

end DietPython.Closures
