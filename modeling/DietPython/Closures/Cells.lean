import DietPython.Closures.Locations

/-!
# Closures hold the cells of the enclosing callables

Where a function is created, the cells that it captures are looked up under the names its scope
gives, in the callable that creates it, and are passed on with their logical names. The function
object gets a closure in the order of the names of its code, and the function takes the cells out of
it by their slots in its layout.

1. `buildClosure_follows_iff`: the slots are the right ones exactly when the layout has its captured
   cells in the order of their names.
2. `Frame.Follows`: the cells of a call are those that its names stand for. Creating a function and
   calling it keeps this.
3. `run_follows`: however deep functions are created, a captured cell is the one of the innermost
   callable around that has it for its own.
-/

namespace DietPython.Closures

open Blocks (CellLocation)
open Generators

/-! ## The closure of a function object -/

section BuildClosure

variable {C : Type}

/-- `code_with_freevars`: the names of the code's free variables, which the compiler sorts.
`isName` says that a name is an identifier and no keyword. -/
def codeWithFreevars (isName : String → Bool) (names : List String) : Option (List String) :=
  if names.all isName ∧ names.Nodup then some (names.insertionSort (· ≤ ·)) else none

/-- `build_capture_map` and `build_closure_shaped_entry`, for values that are cells. A function that
captures nothing has no closure. -/
def buildClosure (isName : String → Bool) (captures : List (String × C)) : Option (List C) :=
  if captures = [] then some []
  else do
    let freevars ← codeWithFreevars isName (captures.map Prod.fst)
    freevars.mapM (insertAll captures)

variable {isName : String → Bool} {captures : List (String × C)}

theorem insertAll_of_nodup (hnodup : (captures.map Prod.fst).Nodup) {capture : String × C}
    (hmem : capture ∈ captures) : insertAll captures capture.1 = some capture.2 := by
  refine insertAll_eq_some hmem fun other hother => ?_
  exact congrArg Prod.snd (List.inj_on_of_nodup_map hnodup hother hmem rfl)

theorem mapM_eq_some {α β : Type} {f : α → Option β} {xs : List α} {ys : List β}
    (h : xs.map f = ys.map some) : xs.mapM f = some ys := by
  induction xs generalizing ys with
  | nil =>
    cases ys with
    | nil => rfl
    | cons y ys => cases h
  | cons x xs ih =>
    cases ys with
    | nil => cases h
    | cons y ys =>
      obtain ⟨hx, hxs⟩ := List.cons.inj h
      rw [List.mapM_cons, hx, ih hxs]
      rfl

/-- The closure is the cells in the order of their names. -/
theorem buildClosure_eq (hnames : ∀ capture ∈ captures, isName capture.1 = true)
    (hnodup : (captures.map Prod.fst).Nodup) :
    buildClosure isName captures =
      some ((captures.insertionSort fun a b => a.1 ≤ b.1).map Prod.snd) := by
  unfold buildClosure
  by_cases hnil : captures = []
  · rw [if_pos hnil, hnil]
    rfl
  · have hall : (captures.map Prod.fst).all isName = true := by
      simpa [List.all_eq_true] using fun name cell hmem => hnames (name, cell) hmem
    have hsort : (captures.map Prod.fst).insertionSort (· ≤ ·) =
        (captures.insertionSort fun a b => a.1 ≤ b.1).map Prod.fst :=
      (List.map_insertionSort (fun a b : String × C => a.1 ≤ b.1) (· ≤ ·) Prod.fst captures
        fun _ _ _ _ => Iff.rfl).symm
    unfold codeWithFreevars
    simp only [if_neg hnil, if_pos (And.intro hall hnodup), hsort, Option.bind_eq_bind,
      Option.bind_some]
    refine mapM_eq_some ?_
    rw [List.map_map, List.map_map]
    refine List.map_congr_left fun capture hmem => insertAll_of_nodup hnodup ?_
    exact (List.perm_insertionSort _ _).mem_iff.mp hmem

/-- When the cells are different, each is in the slot that its capture has in the list exactly when
the list is in the order of its names. -/
theorem buildClosure_eq_iff (hnames : ∀ capture ∈ captures, isName capture.1 = true)
    (hnodup : (captures.map Prod.fst).Nodup) (hcells : (captures.map Prod.snd).Nodup) :
    buildClosure isName captures = some (captures.map Prod.snd) ↔
      (captures.map Prod.fst).Pairwise (· ≤ ·) := by
  rw [buildClosure_eq hnames hnodup, Option.some.injEq, List.pairwise_map]
  constructor
  · intro heq
    have hself : captures.insertionSort (fun a b => a.1 ≤ b.1) = captures := by
      have hperm := List.perm_insertionSort (fun a b : String × C => a.1 ≤ b.1) captures
      refine List.ext_getElem hperm.length_eq fun i hi hi' => ?_
      refine List.inj_on_of_nodup_map hcells (hperm.mem_iff.mp (List.getElem_mem hi))
        (List.getElem_mem hi') ?_
      simpa [hi, hi'] using congrArg (fun cells : List C => cells[i]?) heq
    have hsorted := List.pairwise_insertionSort (fun a b : String × C => a.1 ≤ b.1) captures
    rwa [hself] at hsorted
  · intro hsorted
    rw [hsorted.insertionSort_eq]

/-- Captures in the order of their names are the closure. -/
theorem buildClosure_sorted (hnames : ∀ capture ∈ captures, isName capture.1 = true)
    (hsorted : (captures.map Prod.fst).Pairwise (· < ·)) :
    buildClosure isName captures = some (captures.map Prod.snd) := by
  have hnodup : (captures.map Prod.fst).Nodup := hsorted.imp fun h => ne_of_lt h
  have hle := (List.pairwise_map.mp hsorted).imp fun h => le_of_lt h
  rw [buildClosure_eq hnames hnodup, hle.insertionSort_eq]

end BuildClosure

/-! ## Calls and the functions that they create -/

/-- What `compute_module_make_function_capture_names` gives for a function: the logical names of
what it captures, and the names that its cells are asked for. -/
def Callable.makeFunctionCaptures (c : Callable) :
    Option StorageLayout → List (String × String)
  | some layout => layout.freevars.map fun slot =>
      (slot.logicalName, c.scope.cellCaptureSourceName slot.logicalName)
  | none => c.captureNames.map fun name => (name, c.scope.cellCaptureSourceName name)

/-- The cells of a call. -/
structure Frame (C : Type) where
  callable : Callable
  layout : Option StorageLayout
  /-- The closure of the function object. -/
  closure : List C
  /-- The cells that are made at the start, by their slots. -/
  owned : List C

section Frames

variable {C : Type}

namespace Frame

def cell (f : Frame C) : CellLocation → Option C
  | .owned slot => f.owned[slot]?
  | .closure slot | .capturedSource slot => f.closure[slot]?

/-- `materialize_make_function_expr`, for one capture. -/
def capture (f : Frame C) (captured : String × String) : Option (String × C) := do
  let location ← f.callable.resolveCellRefLocation f.layout captured.2
  let cell ← f.cell location
  return (captured.1, cell)

/-- The closure of a function that a call creates. -/
def makeFunction (isName : String → Bool) (f : Frame C) (callee : Callable)
    (layout : Option StorageLayout) : Option (List C) := do
  let captures ← (callee.makeFunctionCaptures layout).mapM f.capture
  buildClosure isName captures

/-- The cells of a call are those that names stand for. -/
structure Follows (f : Frame C) (cellOf : String → Option C) : Prop where
  captured : ∀ (i : ℕ) slot, (freevarsOf f.layout)[i]? = some slot →
    (cellOf slot.logicalName).isSome ∧ f.closure[i]? = cellOf slot.logicalName
  own : ∀ (j : ℕ) slot, (cellvarsOf f.layout)[j]? = some slot →
    (cellOf slot.logicalName).isSome ∧ f.owned[j]? = cellOf slot.logicalName

end Frame

/-- The names of the cells that a callable has for its own stand for these cells, other names for
what they stand for around it. -/
def bindCells (c : Callable) (own : List C) (cellOf : String → Option C) : String → Option C :=
  fun name => (((c.ownCellNames.map c.cellLogicalName).zip own).lookup name).or (cellOf name)

/-- Functions that are created one in the other, each of them called with cells of its own. -/
def run (isName : String → Bool) (layout : ℕ → Option StorageLayout) :
    Frame C → List (Callable × List C) → Option (Frame C)
  | f, [] => some f
  | f, (callee, own) :: rest => do
    let closure ← f.makeFunction isName callee (layout callee.functionId)
    run isName layout ⟨callee, layout callee.functionId, closure, own⟩ rest

/-- What names stand for in the innermost of these calls. -/
def cellOfName (cellOf : String → Option C) (calls : List (Callable × List C)) :
    String → Option C :=
  calls.foldl (fun cellOf call => bindCells call.1 call.2 cellOf) cellOf

/-- Each of these calls has its cells, and each of the functions is created by the one before. -/
inductive Creates (callables : List Callable) : Callable → List (Callable × List C) → Prop
  | nil {c : Callable} : Creates callables c []
  | cons {c callee : Callable} {own : List C} {rest : List (Callable × List C)}
      (hmem : callee ∈ callables) (hcallee : callee.functionId ∈ c.calleeIds)
      (hown : own.length = callee.ownCellNames.length) (hrest : Creates callables callee rest) :
      Creates callables c ((callee, own) :: rest)

variable {isName : String → Bool} {f : Frame C} {cellOf : String → Option C} {callee : Callable}
  {layout : Option StorageLayout}

/-- One capture of a function that is created. -/
theorem Frame.Follows.capture_eq (h : f.Follows cellOf) (hf : f.callable.LaidOut f.layout)
    {name : String} (hname : name ∈ (freevarsOf f.layout).map ClosureSlot.logicalName ∨
      name ∈ (cellvarsOf f.layout).map ClosureSlot.logicalName) :
    ∃ cell, cellOf name = some cell ∧
      f.capture (name, captureSourceName name) = some (name, cell) := by
  unfold Frame.capture
  rcases hname with hname | hname
  · obtain ⟨slot, hslot, rfl⟩ := List.mem_map.mp hname
    obtain ⟨i, hi⟩ := List.mem_iff_getElem?.mp hslot
    obtain ⟨hsome, hcell⟩ := h.captured i slot hi
    obtain ⟨cell, heq⟩ := Option.isSome_iff_exists.mp hsome
    refine ⟨cell, heq, ?_⟩
    simp only [hf.resolveCellRefLocation_captured hi, Frame.cell, hcell, heq,
      Option.bind_eq_bind, Option.bind_some, Option.pure_def]
  · obtain ⟨slot, hslot, rfl⟩ := List.mem_map.mp hname
    obtain ⟨j, hj⟩ := List.mem_iff_getElem?.mp hslot
    obtain ⟨hsome, hcell⟩ := h.own j slot hj
    obtain ⟨cell, heq⟩ := Option.isSome_iff_exists.mp hsome
    refine ⟨cell, heq, ?_⟩
    simp only [hf.resolveCellRefLocation_own hj, Frame.cell, hcell, heq,
      Option.bind_eq_bind, Option.bind_some, Option.pure_def]

theorem makeFunctionCaptures_eq (h : callee.LaidOut layout) :
    callee.makeFunctionCaptures layout = ((freevarsOf layout).map ClosureSlot.logicalName).map
      fun name => (name, captureSourceName name) := by
  cases layout with
  | none =>
    show callee.captureNames.map _ = []
    rw [h.noCaptures rfl]
    rfl
  | some given =>
    show given.freevars.map _ = (given.freevars.map ClosureSlot.logicalName).map _
    rw [List.map_map]
    refine List.map_congr_left fun slot hslot => ?_
    exact congrArg (Prod.mk slot.logicalName)
      (h.cellCaptureSourceName_eq (List.mem_map_of_mem hslot))

theorem exists_captures {names : List String} {p : String → C → Prop}
    (h : ∀ name ∈ names, ∃ cell, p name cell) :
    ∃ captures : List (String × C), captures.map Prod.fst = names ∧
      ∀ capture ∈ captures, p capture.1 capture.2 := by
  induction names with
  | nil => exact ⟨[], rfl, fun _ hmem => by cases hmem⟩
  | cons name names ih =>
    obtain ⟨cell, hcell⟩ := h name (List.mem_cons_self ..)
    obtain ⟨captures, hfst, hall⟩ := ih fun other hmem => h other (List.mem_cons_of_mem _ hmem)
    refine ⟨(name, cell) :: captures, by rw [List.map_cons, hfst], fun capture hmem => ?_⟩
    rcases List.mem_cons.mp hmem with rfl | hmem
    · exact hcell
    · exact hall capture hmem

/-- **One function that is created.** Its closure has the cells that the names of its layout stand
for, slot by slot. -/
theorem Frame.Follows.makeFunction_eq (h : f.Follows cellOf) (hf : f.callable.LaidOut f.layout)
    (hcallee : callee.LaidOut layout)
    (hsorted : ((freevarsOf layout).map ClosureSlot.logicalName).Pairwise (· < ·))
    (hnames : ∀ name ∈ (freevarsOf layout).map ClosureSlot.logicalName, isName name = true)
    (hhand : ∀ name ∈ (freevarsOf layout).map ClosureSlot.logicalName,
      name ∈ (freevarsOf f.layout).map ClosureSlot.logicalName ∨
        name ∈ (cellvarsOf f.layout).map ClosureSlot.logicalName) :
    ∃ closure, f.makeFunction isName callee layout = some closure ∧
      ∀ (i : ℕ) slot, (freevarsOf layout)[i]? = some slot →
        (cellOf slot.logicalName).isSome ∧ closure[i]? = cellOf slot.logicalName := by
  obtain ⟨captures, hfst, hall⟩ := exists_captures fun name hname =>
    h.capture_eq hf (hhand name hname)
  refine ⟨captures.map Prod.snd, ?_, fun i slot hi => ?_⟩
  · unfold Frame.makeFunction
    have hcaptures : (callee.makeFunctionCaptures layout).mapM f.capture = some captures := by
      rw [makeFunctionCaptures_eq hcallee, ← hfst]
      refine mapM_eq_some ?_
      rw [List.map_map, List.map_map]
      exact List.map_congr_left fun capture hmem => (hall capture hmem).2
    rw [← hfst] at hsorted hnames
    simp only [hcaptures, Option.bind_eq_bind, Option.bind_some]
    exact buildClosure_sorted (fun capture hmem => hnames _ (List.mem_map_of_mem hmem)) hsorted
  · have hname : (captures.map Prod.fst)[i]? = some slot.logicalName := by
      rw [hfst, List.getElem?_map, hi]
      rfl
    rw [List.getElem?_map] at hname ⊢
    obtain ⟨capture, hcapture, heq⟩ := Option.map_eq_some_iff.mp hname
    have hcell := (hall capture (List.mem_of_getElem? hcapture)).1
    rw [heq] at hcell
    rw [hcell, hcapture]
    exact ⟨rfl, rfl⟩

theorem map_fst_of_mapM_capture {bindings : List (String × String)}
    {captures : List (String × C)} (h : bindings.mapM f.capture = some captures) :
    captures.map Prod.fst = bindings.map Prod.fst := by
  induction bindings generalizing captures with
  | nil =>
    obtain rfl : [] = captures := Option.some.inj h
    rfl
  | cons binding bindings ih =>
    rw [List.mapM_cons] at h
    obtain ⟨capture, hcapture, h⟩ := Option.bind_eq_some_iff.mp h
    obtain ⟨rest, hrest, h⟩ := Option.bind_eq_some_iff.mp h
    obtain rfl : capture :: rest = captures := Option.some.inj h
    unfold Frame.capture at hcapture
    obtain ⟨location, -, hcapture⟩ := Option.bind_eq_some_iff.mp hcapture
    obtain ⟨cell, -, hcapture⟩ := Option.bind_eq_some_iff.mp hcapture
    obtain rfl : (binding.1, cell) = capture := Option.some.inj hcapture
    rw [List.map_cons, List.map_cons, ih hrest]

/-- A function with the variables `a` and `b`. -/
def twoNames (kind : CellBindingKind) : FunctionNames where
  bindings := (AList.singleton "a" (.cell kind)).insert "b" (.cell kind)
  cellStorageNames := ∅
  onlyClass := fun _ _ h => by simp at h

/-- A generator that assigns `b` and loads `a`, both of them variables of the callable around it. -/
def assigningGenerator : Callable :=
  let scope := callableScopeInfo (twoNames .capture)
  ⟨1, [], [], scope, some (buildBlockpyStorageLayout scope [] ["b", "a", "_dp_pc"] ["a", "b"] [])⟩

/-- A call of the callable around it, where `0` is the cell of `a` and `1` the cell of `b`. -/
def aroundGenerator : Frame ℕ :=
  let c : Callable := ⟨2, [], creating [1], callableScopeInfo (twoNames .owner), none⟩
  ⟨c, c.storageLayoutFromScope, [], [0, 1]⟩

/-- The generator has the cell of `a` where its layout has `b`. -/
example : (assigningGenerator.storageLayout.bind fun given => aroundGenerator.makeFunction
    (fun name => name.toList.all Char.isAlpha) assigningGenerator (some given)) = some [0, 1] := by
  decide

/-! ### The cells of a call -/

theorem lookup_zip_eq_none {names : List String} {own : List C} {name : String}
    (h : name ∉ names) : (names.zip own).lookup name = none := by
  rw [List.lookup_eq_none_iff]
  rintro ⟨other, cell⟩ hmem
  have hother : other ∈ names := (List.of_mem_zip hmem).1
  rw [bne_iff_ne]
  rintro rfl
  exact h hother

theorem lookup_zip_eq {names : List String} {own : List C} (hnodup : names.Nodup)
    (hlength : own.length = names.length) {j : ℕ} {name : String} (hj : names[j]? = some name) :
    ∃ cell, own[j]? = some cell ∧ (names.zip own).lookup name = some cell := by
  induction names generalizing own j with
  | nil => cases hj
  | cons first names ih =>
    cases own with
    | nil => cases hlength
    | cons cell own =>
      obtain ⟨hfirst, hrest⟩ := List.nodup_cons.mp hnodup
      rw [List.zip_cons_cons, List.lookup_cons]
      cases j with
      | zero =>
        obtain rfl : first = name := by simpa using hj
        exact ⟨cell, rfl, by simp⟩
      | succ j =>
        have hj' : names[j]? = some name := by simpa using hj
        have hne : name ≠ first := by
          rintro rfl
          exact hfirst (List.mem_of_getElem? hj')
        rw [beq_false_of_ne hne]
        obtain ⟨cell', hcell, hlookup⟩ := ih hrest (by simpa using hlength) hj'
        exact ⟨cell', by simpa using hcell, hlookup⟩

/-- The cells of a call, when the closure of its function has the cells that names stand for. -/
theorem follows_bindCells {closure own : List C} (h : callee.LaidOut layout)
    (hown : cellvarsOf layout = callee.ownCellNames.map callee.ownSlot)
    (hlength : own.length = callee.ownCellNames.length)
    (hclosure : ∀ (i : ℕ) slot, (freevarsOf layout)[i]? = some slot →
      (cellOf slot.logicalName).isSome ∧ closure[i]? = cellOf slot.logicalName) :
    Frame.Follows ⟨callee, layout, closure, own⟩ (bindCells callee own cellOf) := by
  have hnames : callee.ownCellNames.map callee.cellLogicalName =
      (cellvarsOf layout).map ClosureSlot.logicalName := by
    rw [hown, List.map_map]
    rfl
  refine ⟨fun i slot hi => ?_, fun j slot hj => ?_⟩
  · have hnot : slot.logicalName ∉ callee.ownCellNames.map callee.cellLogicalName := by
      rw [hnames]
      intro hmem
      obtain ⟨own, hmem, heq⟩ := List.mem_map.mp hmem
      exact h.captured_ne_own (List.mem_of_getElem? hi) hmem heq.symm
    unfold bindCells
    rw [lookup_zip_eq_none hnot, Option.none_or]
    exact hclosure i slot hi
  · have hj' : (callee.ownCellNames.map callee.cellLogicalName)[j]? = some slot.logicalName := by
      have hj : (cellvarsOf layout)[j]? = some slot := hj
      rw [hnames, List.getElem?_map, hj]
      rfl
    have hlength' : own.length = (callee.ownCellNames.map callee.cellLogicalName).length := by
      rw [List.length_map]
      exact hlength
    obtain ⟨cell, hcell, hlookup⟩ := lookup_zip_eq (hnames ▸ h.ownNodup) hlength' hj'
    unfold bindCells
    rw [hlookup, Option.some_or]
    exact ⟨rfl, hcell⟩

end Frames

/-! ## Modules of functions with plain names -/

/-- Every callable is a function without a layout yet, whose cells have plain names that are none of
those that generators keep their state under. Whoever captures the cell of a class has a binding of
its name. -/
structure PlainFunctions (callables : List Callable) : Prop where
  noLayout : ∀ c ∈ callables, c.storageLayout = none
  scope : ∀ c ∈ callables, ∃ names, c.scope = callableScopeInfo names
  plain : ∀ c ∈ callables, ∀ name kind, c.scope.bindingKind name = some (.cell kind) → Plain name
  own : ∀ c ∈ callables, ∀ name, c.scope.bindingKind name = some (.cell .owner) →
    isRuntimeClosureName name = false
  cellRefs : ∀ c ∈ callables, ∀ name ∈ c.instrs.flatMap cellRefs, Plain (logicalName name)
  onlyClass : ∀ c ∈ callables, HasToCapture callables c.functionId "__class__" →
    c.scope.bindingKind "__class__" = some (.cell .capture)

namespace PlainFunctions

variable {callables : List Callable} {c : Callable} (h : PlainFunctions callables)
  (hmem : c ∈ callables)

include h hmem

theorem ofFunction : c.scope.OfFunction := by
  obtain ⟨names, hnames⟩ := h.scope c hmem
  rw [hnames]
  exact callableScopeInfo_ofFunction names

theorem normalizeCaptureName_eq (name : String) :
    c.scope.normalizeCaptureName name = logicalName name := by
  unfold CallableScopeInfo.normalizeCaptureName
  rw [(h.ofFunction hmem).logicalNameForCellCaptureSource_eq,
    (h.ofFunction hmem).logicalNameForCellStorage_eq]
  by_cases hnone : Plain name ∧ c.scope.bindingKind name ≠ some (.cell .capture)
  · rw [if_pos hnone, hnone.1.logicalName_eq]
    rfl
  · rw [if_neg hnone]

theorem mem_captureNames {name : String} (hname : name ∈ c.captureNames) :
    Plain name ∧ c.scope.bindingKind name ≠ some (.cell .owner) := by
  unfold Callable.captureNames CallableScopeInfo.makeFunctionCaptureNames at hname
  dsimp only at hname
  rw [mem_sortDedup, List.mem_append, List.mem_map, List.mem_filter, List.mem_map] at hname
  rcases hname with ⟨captured, hcaptured, rfl⟩ | ⟨⟨ref, href, rfl⟩, hfilter⟩
  · unfold CallableScopeInfo.capturedCellLogicalNames at hcaptured
    rw [List.mem_insertionSort, CallableScopeInfo.mem_namesBoundTo] at hcaptured
    have hplain := h.plain c hmem _ _ hcaptured
    rw [h.normalizeCaptureName_eq hmem, hplain.logicalName_eq, hcaptured]
    exact ⟨hplain, fun heq => by cases heq⟩
  · rw [h.normalizeCaptureName_eq hmem] at hfilter ⊢
    refine ⟨h.cellRefs c hmem ref href, fun howner => ?_⟩
    simp only [Bool.and_eq_true, Bool.not_eq_true', decide_eq_false_iff_not] at hfilter
    refine hfilter.2 ((h.ofFunction hmem).mem_ownedCellStorageNames.mpr ⟨_, howner, ?_⟩)
    rcases (h.ofFunction hmem).cellCaptureSourceName_eq (logicalName ref) with heq | ⟨-, heq, -⟩
    · exact heq
    · rw [howner] at heq
      cases heq

/-- The callable's own cells are the cells of its scope. -/
theorem mem_ownCellNames {storageName : String} : storageName ∈ c.ownCellNames ↔
    ∃ name, c.scope.bindingKind name = some (.cell .owner) ∧ storageName = cellName name := by
  unfold Callable.ownCellNames
  rw [List.mem_filter, mem_sortDedup, (h.ofFunction hmem).mem_ownedCellStorageNames]
  refine ⟨And.left, fun hname => ⟨hname, ?_⟩⟩
  obtain ⟨name, howner, rfl⟩ := hname
  unfold Callable.cellLogicalName
  rw [(h.ofFunction hmem).logicalNameForCellStorage_eq,
    if_neg fun hboth => hboth.1.ne_cellName name rfl, logicalName_cellName, Option.getD_some,
    h.own c hmem name howner]
  rfl

theorem cellLogicalName_eq (name : String) : c.cellLogicalName (cellName name) = name := by
  unfold Callable.cellLogicalName
  rw [(h.ofFunction hmem).logicalNameForCellStorage_eq,
    if_neg fun hboth => hboth.1.ne_cellName name rfl, logicalName_cellName, Option.getD_some]

theorem ownsCell_of_owner {name : String}
    (howner : c.scope.bindingKind name = some (.cell .owner)) :
    c.ownsCell c.storageLayoutFromScope name = true := by
  unfold Callable.ownsCell Callable.storageLayoutFromScope
  rw [cellvarsOf_build, Bool.or_eq_true, decide_eq_true_eq]
  refine .inl (List.mem_map.mpr ⟨c.ownSlot (cellName name), List.mem_map_of_mem ?_, ?_⟩)
  · exact (h.mem_ownCellNames hmem).mpr ⟨name, howner, rfl⟩
  · exact h.cellLogicalName_eq hmem name

end PlainFunctions

section Module

variable {callables : List Callable} {layout : ℕ → Option StorageLayout} {C : Type}
  {isName : String → Bool}

theorem PlainFunctions.hasToCapture (h : PlainFunctions callables) {id : ℕ} {name : String}
    (hname : HasToCapture callables id name) : Plain name ∧
      ∀ c, callableById callables id = some c → c.scope.bindingKind name ≠ some (.cell .owner) := by
  induction hname with
  | given hc hlayout _ =>
    rw [h.noLayout _ (callableById_eq_some hc).1] at hlayout
    cases hlayout
  | scope hc _ hname =>
    obtain ⟨hplain, hnot⟩ := h.mem_captureNames (callableById_eq_some hc).1 hname
    refine ⟨hplain, fun c hc' => ?_⟩
    rw [hc] at hc'
    exact Option.some.inj hc' ▸ hnot
  | @created id callee c name hc _ _ _ howns ih =>
    refine ⟨ih.1, fun c' hc' howner => ?_⟩
    rw [hc] at hc'
    obtain rfl := Option.some.inj hc'
    rw [h.ownsCell_of_owner (callableById_eq_some hc).1 howner] at howns
    cases howns

/-- The layouts that name binding computes for a module of plain functions. -/
theorem PlainFunctions.laidOut (h : PlainFunctions callables) (hlays : LaysOut callables layout)
    (hids : (callables.map Callable.functionId).Nodup) {c : Callable} (hmem : c ∈ callables) :
    c.LaidOut (layout c.functionId) := by
  obtain ⟨layouts, hlayout⟩ := hlays.computed c hmem (h.noLayout c hmem)
  have hcellvars := hlays.cellvars_eq hmem (h.noLayout c hmem)
  have hsorted := hlays.sorted hmem (h.noLayout c hmem)
  have hown : ∀ slot ∈ cellvarsOf (layout c.functionId),
      slot.storageName = cellName slot.logicalName ∧
        c.scope.bindingKind slot.logicalName = some (.cell .owner) := by
    intro slot hslot
    rw [hcellvars] at hslot
    obtain ⟨storageName, hstorage, rfl⟩ := List.mem_map.mp hslot
    obtain ⟨name, howner, rfl⟩ := (h.mem_ownCellNames hmem).mp hstorage
    have hlogical : (c.ownSlot (cellName name)).logicalName = name := h.cellLogicalName_eq hmem name
    rw [hlogical]
    exact ⟨rfl, howner⟩
  refine ⟨h.scope c hmem, fun slot hslot => ?_, fun slot hslot => ?_, fun name howner => ?_,
    hsorted.imp fun h => ne_of_lt h, ?_, fun given hgiven => ?_, fun hnone => ?_, fun hclass => ?_⟩
  · have hname := (hlays.captures c hmem _).mp (List.mem_map_of_mem hslot)
    obtain ⟨hplain, hnot⟩ := h.hasToCapture hname
    refine ⟨?_, hplain, hnot c (callableById_of_mem hids hmem)⟩
    rw [hlayout] at hslot
    unfold Callable.layoutWithCallees Callable.buildStorageLayoutFromCaptureNames at hslot
    dsimp only at hslot
    split at hslot
    · cases hslot
    · obtain ⟨name, -, rfl⟩ := List.mem_map.mp hslot
      rfl
  · obtain ⟨hstorage, howner⟩ := hown slot hslot
    exact ⟨hstorage, h.plain c hmem _ _ howner, howner⟩
  · rw [hcellvars, List.map_map]
    exact List.mem_map.mpr ⟨cellName name, (h.mem_ownCellNames hmem).mpr ⟨name, howner, rfl⟩,
      h.cellLogicalName_eq hmem name⟩
  · rw [hcellvars, List.map_map]
    refine List.Nodup.map_on ?_ ((nodup_sortDedup _).filter _)
    intro a ha b hb heq
    obtain ⟨name, -, rfl⟩ := (h.mem_ownCellNames hmem).mp ha
    obtain ⟨name', -, rfl⟩ := (h.mem_ownCellNames hmem).mp hb
    have heq : c.cellLogicalName (cellName name) = c.cellLogicalName (cellName name') := heq
    rw [h.cellLogicalName_eq hmem, h.cellLogicalName_eq hmem] at heq
    rw [heq]
  · rw [hlayout] at hgiven
    unfold Callable.layoutWithCallees Callable.buildStorageLayoutFromCaptureNames at hgiven
    dsimp only at hgiven
    split at hgiven
    · cases hgiven
    · rw [← Option.some.inj hgiven]
  · refine List.eq_nil_iff_forall_not_mem.mpr fun name hname => ?_
    have := (hlays.captures c hmem name).mpr
      (.scope (callableById_of_mem hids hmem) (h.noLayout c hmem) hname)
    rw [hnone] at this
    cases this
  · exact h.onlyClass c hmem ((hlays.captures c hmem _).mp hclass)

/-- **However deep functions are created**, the cells of the innermost call are those that its names
stand for. -/
theorem run_follows (h : PlainFunctions callables) (hlays : LaysOut callables layout)
    (hids : (callables.map Callable.functionId).Nodup)
    (hnames : ∀ c ∈ callables, ∀ name, HasToCapture callables c.functionId name →
      isName name = true) {calls : List (Callable × List C)} {f : Frame C}
    {cellOf : String → Option C} (hf : f.Follows cellOf) (hmem : f.callable ∈ callables)
    (hlayout : f.layout = layout f.callable.functionId)
    (hcreates : Creates callables f.callable calls) :
    ∃ f', run isName layout f calls = some f' ∧ f'.Follows (cellOfName cellOf calls) := by
  induction calls generalizing f cellOf with
  | nil => exact ⟨f, rfl, hf⟩
  | cons call calls ih =>
    obtain ⟨callee, own⟩ := call
    obtain _ | ⟨hcalleeMem, hcallee, hown, hrest⟩ := hcreates
    have hfLaid : f.callable.LaidOut f.layout := hlayout ▸ h.laidOut hlays hids hmem
    have hcalleeLaid := h.laidOut hlays hids hcalleeMem
    have hhand : ∀ name ∈ (freevarsOf (layout callee.functionId)).map ClosureSlot.logicalName,
        name ∈ (freevarsOf f.layout).map ClosureSlot.logicalName ∨
          name ∈ (cellvarsOf f.layout).map ClosureSlot.logicalName := by
      intro name hname
      rw [hlayout]
      rcases captured_at_hand (callableById_of_mem hids hmem) (h.noLayout _ hmem) hcallee
        ((hlays.captures callee hcalleeMem name).mp hname) with hcaptured | ⟨own, hown, heq⟩
      · exact .inl ((hlays.captures _ hmem name).mpr hcaptured)
      · refine .inr ?_
        rw [hlays.cellvars_eq hmem (h.noLayout _ hmem)]
        obtain ⟨storageName, hstorage, rfl⟩ := List.mem_map.mp hown
        obtain ⟨logical, howner, rfl⟩ := (h.mem_ownCellNames hmem).mp hstorage
        refine List.mem_map.mpr ⟨_, hown, ?_⟩
        have hlogical : (f.callable.ownSlot (cellName logical)).logicalName = logical :=
          h.cellLogicalName_eq hmem logical
        rcases heq with heq | heq
        · exact heq
        · rw [hlogical]
          have heq : cellName logical = f.callable.scope.cellCaptureSourceName name := heq
          rcases (h.ofFunction hmem).cellCaptureSourceName_eq name with hsource | ⟨-, -, hsource⟩
          · exact cellName_inj (heq.trans hsource)
          · rw [hsource] at heq
            exact absurd heq.symm ((h.hasToCapture
              ((hlays.captures callee hcalleeMem name).mp hname)).1.ne_cellName logical)
    obtain ⟨closure, hclosure, hslots⟩ := hf.makeFunction_eq hfLaid hcalleeLaid
      (hlays.sorted hcalleeMem (h.noLayout _ hcalleeMem))
      (fun name hname => hnames callee hcalleeMem name
        ((hlays.captures callee hcalleeMem name).mp hname)) hhand
    have hfollows := follows_bindCells hcalleeLaid
      (hlays.cellvars_eq hcalleeMem (h.noLayout _ hcalleeMem)) hown hslots
    obtain ⟨f', hrun, hf'⟩ := ih hfollows hcalleeMem rfl hrest
    refine ⟨f', ?_, hf'⟩
    unfold run
    simp only [hclosure, Option.bind_eq_bind, Option.bind_some, hrun]

/-- In a module of plain functions, with one that captures nothing at the start: however deep
functions are created one in the other, each slot of a closure has the cell of the innermost
callable around that has the name for its own, whatever the order in which layouts have been
computed. -/
theorem closures_lexical {rank : ℕ → ℕ} {ids : List ℕ} (h : PlainFunctions callables)
    (hids : (callables.map Callable.functionId).Nodup)
    (hcreated : ∀ c ∈ callables, ∀ id ∈ c.calleeIds, id ∈ callables.map Callable.functionId)
    (hrank : ∀ c ∈ callables, ∀ id ∈ c.calleeIds, rank id < rank c.functionId)
    (hnames : ∀ c ∈ callables, ∀ name, HasToCapture callables c.functionId name →
      isName name = true)
    (hperm : ids.Perm (callables.map Callable.functionId)) :
    ∃ layout : ℕ → Option StorageLayout,
      ensureModuleStorageLayouts callables ids =
        some (callables.map fun c => { c with storageLayout := layout c.functionId }) ∧
      ∀ root ∈ callables, (∀ name, ¬HasToCapture callables root.functionId name) →
        ∀ own : List C, own.length = root.ownCellNames.length →
          ∀ calls, Creates callables root calls →
            ∃ f, run isName layout ⟨root, layout root.functionId, [], own⟩ calls = some f ∧
              f.Follows (cellOfName (fun _ => none) ((root, own) :: calls)) := by
  obtain ⟨layout, hlays, hrun⟩ := ensureModuleStorageLayouts_eq hids
    (fun c hmem _ => hcreated c hmem) (fun c hmem _ => hrank c hmem)
  refine ⟨layout, hrun ids hperm, fun root hmem hroot own hown calls hcreates => ?_⟩
  have hlaid := h.laidOut hlays hids hmem
  have hfollows : Frame.Follows ⟨root, layout root.functionId, [], own⟩
      (bindCells root own fun _ => none) := by
    refine follows_bindCells hlaid (hlays.cellvars_eq hmem (h.noLayout root hmem)) hown ?_
    intro i slot hi
    exact absurd ((hlays.captures root hmem _).mp (List.mem_map_of_mem (List.mem_of_getElem? hi)))
      (hroot slot.logicalName)
  exact run_follows h hlays hids hnames hfollows hmem rfl hcreates

end Module

/-! ### A function that captures for the one that it creates -/

theorem oneName_bindingKind (name other : String) (kind : BindingKind) :
    (callableScopeInfo (oneName name kind)).bindingKind other =
      if other = name then some kind else none := by
  show AList.lookup other (AList.singleton name kind : AList fun _ : String => BindingKind) = _
  rw [← AList.insert_empty]
  by_cases h : other = name
  · rw [if_pos h, h, AList.lookup_insert]
  · rw [if_neg h, AList.lookup_insert_ne h]
    rfl

theorem nestedFunctions_cell {c : Callable} (hmem : c ∈ nestedFunctions) {name : String}
    {kind : CellBindingKind} (hkind : c.scope.bindingKind name = some (.cell kind)) :
    name = "x" := by
  simp only [nestedFunctions, List.mem_cons, List.not_mem_nil, or_false] at hmem
  rcases hmem with rfl | rfl | rfl <;> rw [oneName_bindingKind] at hkind <;> split at hkind <;>
    simp_all

theorem nestedFunctions_captures {id : ℕ} {name : String}
    (h : HasToCapture nestedFunctions id name) : name = "x" := by
  induction h with
  | given hc hlayout _ =>
    have hmem := (callableById_eq_some hc).1
    simp only [nestedFunctions, List.mem_cons, List.not_mem_nil, or_false] at hmem
    rcases hmem with rfl | rfl | rfl <;> cases hlayout
  | scope hc _ hname =>
    exact (by decide : ∀ c ∈ nestedFunctions, ∀ name ∈ c.captureNames, name = "x") _
      (callableById_eq_some hc).1 _ hname
  | created _ _ _ _ _ ih => exact ih

theorem nestedFunctions_plain : PlainFunctions nestedFunctions where
  noLayout := by simp [nestedFunctions]
  scope := by simp [nestedFunctions]
  plain := fun c hmem name kind hkind => by
    rw [nestedFunctions_cell hmem hkind]
    decide
  own := fun c hmem name hkind => by
    rw [nestedFunctions_cell hmem hkind]
    decide
  cellRefs := by decide
  onlyClass := fun _ _ h => absurd (nestedFunctions_captures h) (by decide)

/-- The innermost function gets the cell of the outermost. -/
theorem closures_lexical_nested : ∃ layout : ℕ → Option StorageLayout,
    ensureModuleStorageLayouts nestedFunctions [1, 0, 2] = some (nestedFunctions.map fun c =>
      { c with storageLayout := layout c.functionId }) ∧
    ∃ f, run (fun name => name.toList.all Char.isAlpha) layout
        ⟨nestedFunctions[0], layout 2, [], [7]⟩
        [(nestedFunctions[1], []), (nestedFunctions[2], [])] = some f ∧
      f.Follows (cellOfName (fun _ => none) [(nestedFunctions[0], [7]), (nestedFunctions[1], []),
        (nestedFunctions[2], [])]) := by
  have hroot : ∀ name, ¬HasToCapture nestedFunctions 2 name := by
    intro name h
    have hname := nestedFunctions_captures h
    have hc : callableById nestedFunctions 2 = some nestedFunctions[0] := rfl
    cases h with
    | given hc' hlayout _ =>
      obtain rfl := Option.some.inj (hc.symm.trans hc')
      cases hlayout
    | scope hc' _ hcaptured =>
      obtain rfl := Option.some.inj (hc.symm.trans hc')
      exact absurd hcaptured (hname ▸ by decide)
    | created hc' _ _ _ howns =>
      obtain rfl := Option.some.inj (hc.symm.trans hc')
      exact absurd howns (hname ▸ by decide)
  obtain ⟨layout, hrun, hlexical⟩ := @closures_lexical nestedFunctions ℕ
    (fun name => name.toList.all Char.isAlpha) id [1, 0, 2] nestedFunctions_plain (by decide)
    (by decide) (by decide)
    (fun c hmem name h => by rw [nestedFunctions_captures h]; decide) (by decide)
  exact ⟨layout, hrun, hlexical nestedFunctions[0] (List.getElem_mem _) hroot [7] (by decide) _
    (.cons (List.getElem_mem _) (by decide) rfl
      (.cons (List.getElem_mem _) (by decide) rfl .nil))⟩

end DietPython.Closures
