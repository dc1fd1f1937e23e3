import DietPython.Blocks.BasicRuns
import DietPython.Closures.Cells

/-!
# Validation

The last step of the lowering looks at every function of a module: whether its layout has the cells
that its scope expects, whether its labels are dense, and whether every edge has a target whose
parameters its arguments fit. `WellFormed` says this of a function, and validation accepts exactly
the modules of such functions. Runs of their blocks keep to the edges and never miss a block.
-/

namespace DietPython.Closures

open Blocks (AbruptKind Block BlockArg BlockEdge BlockLabel BlockParam BlockParamRole BlockTerm
  CoreBlockPyExpr Meaning Wired blockAt)
open Generators (ClosureSlot StorageLayout sortDedup)
open Machines

/-- What `validate_module` reads of a `BlockPyFunction`. -/
structure CheckedFunction (I : Type) where
  qualname : String
  blocks : List (Block I I)
  storageLayout : Option StorageLayout
  /-- `compute_storage_layout_from_scope` -/
  scopeLayout : Option StorageLayout

def Callable.checked (c : Callable) (qualname : String) : CheckedFunction CoreBlockPyExpr :=
  ⟨qualname, c.blocks, c.storageLayout, c.storageLayoutFromScope⟩

/-! ## What is reported -/

/-- What is wrong with a function. -/
inductive Fault
  | layoutMissing
  | ownerCellMissing (logicalName : String) (actual : List ClosureSlot)
  | ownerCellStored (logicalName actualName expectedName : String) (actual : List ClosureSlot)
  | freevarMissing (logicalName : String) (actual : List ClosureSlot)
  | nonDenseLabel (label : BlockLabel) (index : ℕ)
  | unknownTarget (labelKind : String) (target source : BlockLabel)
  | dispatchArity (source : BlockLabel) (args : ℕ) (target : BlockLabel) (params : ℕ)
  | dispatchAbruptKind (source : BlockLabel) (kind : AbruptKind) (param : String)
  | edgeArity (labelKind : String) (source : BlockLabel) (args : ℕ) (target : BlockLabel)
      (params : ℕ)
  | renamedForwarding (labelKind : String) (source target : BlockLabel) (param : BlockParam)
      (sourceName : String)
  | edgeAbruptKind (labelKind : String) (source : BlockLabel) (kind : AbruptKind) (param : String)
  | edgeCurrentException (labelKind : String) (source : BlockLabel) (param : String)
      (target : BlockLabel)

def debugAbruptKind : AbruptKind → String
  | .fallthrough => "Fallthrough"
  | .ret => "Return"
  | .exception => "Exception"
  | .break => "Break"
  | .continue => "Continue"

def debugRole : BlockParamRole → String
  | .exception => "Exception"
  | .abruptKind => "AbruptKind"
  | .abruptPayload => "AbruptPayload"

section Message

-- How `{:?}` shows a list of strings.
variable (debug : List String → String)

def debugSlots (slots : List ClosureSlot) : String :=
  debug <| slots.map fun slot => slot.logicalName ++ "->" ++ slot.storageName

/-- The texts of the errors. -/
def Fault.message (qualname : String) : Fault → String
  | .layoutMissing => s!"closure layout missing for {qualname} despite scope closure state"
  | .ownerCellMissing logicalName actual =>
    s!"closure layout for {qualname} is missing owner cell {logicalName}; actual cellvars: " ++
      debugSlots debug actual
  | .ownerCellStored logicalName actualName expectedName actual =>
    s!"closure layout for {qualname} has owner cell {logicalName} stored as {actualName}, " ++
      s!"but scope info expects {expectedName}; actual cellvars: " ++ debugSlots debug actual
  | .freevarMissing logicalName actual =>
    s!"closure layout for {qualname} is missing freevar {logicalName}; actual freevars: " ++
      debugSlots debug actual
  | .nonDenseLabel label index =>
    s!"non-dense block label {label.display} at {qualname}:{index}, expected bb{index}"
  | .unknownTarget labelKind target source =>
    s!"unknown {labelKind} {target.display} in {qualname}:{source.display}"
  | .dispatchArity source args target params =>
    s!"exception dispatch from {qualname}:{source.display} has {args} explicit edge args for " ++
      s!"target {target.display} with {params} full params"
  | .dispatchAbruptKind source kind param =>
    s!"exception dispatch from {qualname}:{source.display} uses abrupt-kind edge arg " ++
      s!"{debugAbruptKind kind} for target param {param}"
  | .edgeArity labelKind source args target params =>
    s!"{labelKind} from {qualname}:{source.display} has {args} explicit edge args for " ++
      s!"target {target.display} with {params} full params"
  | .renamedForwarding labelKind source target param sourceName =>
    s!"{labelKind} from {qualname}:{source.display} reaches target {target.display} with " ++
      s!"implicit forwarding for param {param.name} ({debugRole param.role}), but source only " ++
      s!"has same-role param {sourceName}; add an explicit edge arg"
  | .edgeAbruptKind labelKind source kind param =>
    s!"{labelKind} from {qualname}:{source.display} uses abrupt-kind edge arg " ++
      s!"{debugAbruptKind kind} for target param {param}"
  | .edgeCurrentException labelKind source param target =>
    s!"{labelKind} from {qualname}:{source.display} uses current-exception edge arg for " ++
      s!"non-exception target param {param} on target {target.display}"

end Message

/-! ## Checks -/

def check (p : Prop) [Decidable p] (fault : Fault) : Except Fault Unit :=
  if p then .ok () else .error fault

theorem check_eq_ok {p : Prop} [Decidable p] {fault : Fault} :
    check p fault = .ok () ↔ p := by
  unfold check
  split_ifs with h <;> simp [h]

theorem bind_eq_ok {ε α : Type} {x : Except ε α} {next : α → Except ε Unit} :
    (x >>= next) = .ok () ↔ ∃ a, x = .ok a ∧ next a = .ok () := by
  cases x with
  | error e => exact ⟨fun h => (by cases h), fun ⟨_, h, _⟩ => (by cases h)⟩
  | ok a => exact ⟨fun h => ⟨a, rfl, h⟩, fun ⟨_, ha, h⟩ => (by cases ha; exact h)⟩

theorem then_eq_ok {ε : Type} {x y : Except ε Unit} :
    (x >>= fun _ => y) = .ok () ↔ x = .ok () ∧ y = .ok () := by
  rw [bind_eq_ok]
  exact ⟨fun ⟨_, hx, hy⟩ => ⟨hx, hy⟩, fun ⟨hx, hy⟩ => ⟨(), hx, hy⟩⟩

theorem forM_eq_ok {ε α : Type} {l : List α} {f : α → Except ε Unit} :
    l.forM f = .ok () ↔ ∀ a ∈ l, f a = .ok () := by
  induction l with
  | nil => exact ⟨fun _ _ h => (by cases h), fun _ => rfl⟩
  | cons a l ih =>
    show (f a >>= fun _ => l.forM f) = .ok () ↔ _
    rw [then_eq_ok, List.forall_mem_cons]
    exact and_congr_right fun _ => ih

namespace CheckedFunction

variable {I : Type} (f : CheckedFunction I)

def lookupKnownBlock (label blockLabel : BlockLabel) (labelKind : String) :
    Except Fault (Block I I) :=
  match f.blocks[label]? with
  | none => .error (.unknownTarget labelKind label blockLabel)
  | some target =>
    if target.label = label then .ok target
    else .error (.unknownTarget labelKind label blockLabel)

/-! ### The layout -/

def checkOwnerCell (layout : StorageLayout) (expected : ClosureSlot) : Except Fault Unit :=
  match layout.cellvars.find? fun slot => slot.logicalName = expected.logicalName with
  | none => .error (.ownerCellMissing expected.logicalName layout.cellvars)
  | some actual =>
    check (actual.storageName = expected.storageName)
      (.ownerCellStored expected.logicalName actual.storageName expected.storageName
        layout.cellvars)

def checkFreevar (layout : StorageLayout) (expected : ClosureSlot) : Except Fault Unit :=
  check (∃ slot ∈ layout.freevars, slot.logicalName = expected.logicalName)
    (.freevarMissing expected.logicalName layout.freevars)

def validateStorageLayoutScoping : Except Fault Unit :=
  match f.storageLayout, f.scopeLayout with
  | none, none => .ok ()
  | none, some _ => .error .layoutMissing
  | some _, none => .ok ()
  | some layout, some expected => do
    expected.cellvars.forM (checkOwnerCell layout)
    expected.freevars.forM (checkFreevar layout)

/-! ### Edges -/

def validateExplicitEdgeArg (source target : Block I I) (param : BlockParam) (arg : BlockArg)
    (labelKind : String) : Except Fault Unit :=
  match param.role, arg with
  | _, .name _ | _, .none => .ok ()
  | .exception, .currentException => .ok ()
  | .abruptKind, .abruptKind _ => .ok ()
  | _, .abruptKind kind => .error (.edgeAbruptKind labelKind source.label kind param.name)
  | _, .currentException =>
    .error (.edgeCurrentException labelKind source.label param.name target.label)

/-- A parameter without an explicit argument. -/
def validateImplicitParam (source target : Block I I) (param : BlockParam) (labelKind : String) :
    Except Fault Unit :=
  match source.params.find? fun sourceParam => sourceParam.role = param.role with
  | none => .ok ()
  | some sourceSameRole =>
    check (sourceSameRole.name = param.name)
      (.renamedForwarding labelKind source.label target.label param sourceSameRole.name)

/-- The explicit arguments are those of the last parameters. -/
def validateEdgeParamForwarding (source target : Block I I) (args : List BlockArg)
    (labelKind : String) : Except Fault Unit := do
  check (args.length ≤ target.params.length)
    (.edgeArity labelKind source.label args.length target.label target.params.length)
  (target.params.take (target.params.length - args.length)).forM fun param =>
    validateImplicitParam source target param labelKind
  ((target.params.drop (target.params.length - args.length)).zip args).forM fun pa =>
    validateExplicitEdgeArg source target pa.1 pa.2 labelKind

def validateNonExceptionEdge (source : Block I I) (edge : BlockEdge) (labelKind : String) :
    Except Fault Unit :=
  f.lookupKnownBlock edge.target source.label labelKind >>= fun target =>
    validateEdgeParamForwarding source target edge.args labelKind

def validateDispatchArg (source : Block I I) (param : String) : BlockArg → Except Fault Unit
  | .abruptKind kind => .error (.dispatchAbruptKind source.label kind param)
  | .name _ | .none | .currentException => .ok ()

def validateExceptionEdge (source : Block I I) (edge : BlockEdge) : Except Fault Unit :=
  f.lookupKnownBlock edge.target source.label "exception target" >>= fun target => do
    check (edge.args.length = target.paramNames.length)
      (.dispatchArity source.label edge.args.length target.label target.paramNames.length)
    (target.paramNames.zip edge.args).forM fun pa => validateDispatchArg source pa.1 pa.2

def validateTerm (source : Block I I) : BlockTerm I → Except Fault Unit
  | .jump edge => f.validateNonExceptionEdge source edge "jump target"
  | .ifTerm _ thenLabel elseLabel => do
    f.validateNonExceptionEdge source (BlockEdge.new thenLabel) "then target"
    f.validateNonExceptionEdge source (BlockEdge.new elseLabel) "else target"
  | .branchTable _ targets defaultLabel => do
    targets.forM fun target =>
      f.validateNonExceptionEdge source (BlockEdge.new target) "br_table target"
    f.validateNonExceptionEdge source (BlockEdge.new defaultLabel) "br_table default target"
  | .raiseTerm _ | .ret _ => .ok ()

def validateHandler (source : Block I I) : Except Fault Unit :=
  match source.excEdge with
  | some edge => f.validateExceptionEdge source edge
  | none => .ok ()

def validateEdges (source : Block I I) : Except Fault Unit := do
  f.validateHandler source
  f.validateTerm source source.term

/-- The checks of `validate_function`. -/
def faults : Except Fault Unit := do
  f.validateStorageLayoutScoping
  f.blocks.zipIdx.forM fun entry =>
    check (entry.1.label = entry.2) (.nonDenseLabel entry.1.label entry.2)
  f.blocks.forM f.validateEdges

end CheckedFunction

def validateFunction {I : Type} (debug : List String → String) (f : CheckedFunction I) :
    Except String Unit :=
  f.faults.mapError (Fault.message debug f.qualname)

def validateModule {I : Type} (debug : List String → String)
    (functions : List (CheckedFunction I)) : Except String Unit :=
  functions.forM (validateFunction debug)

/-! ## What is accepted -/

/-- The layout has the cells that are expected. -/
structure Covers (layout expected : StorageLayout) : Prop where
  cellvars : ∀ slot ∈ expected.cellvars, ∃ actual,
    layout.cellvars.find? (fun other => other.logicalName = slot.logicalName) = some actual ∧
      actual.storageName = slot.storageName
  freevars : ∀ slot ∈ expected.freevars, ∃ actual ∈ layout.freevars,
    actual.logicalName = slot.logicalName

/-- An explicit argument for a parameter. -/
inductive ArgFits : BlockParamRole → BlockArg → Prop
  | name (role : BlockParamRole) (x : String) : ArgFits role (.name x)
  | none (role : BlockParamRole) : ArgFits role .none
  | currentException : ArgFits .exception .currentException
  | abruptKind (kind : AbruptKind) : ArgFits .abruptKind (.abruptKind kind)

/-- The arguments of an edge to a handler: one for every parameter, and no abrupt kinds. -/
structure DispatchFits {I : Type} (_source target : Block I I) (args : List BlockArg) : Prop where
  length : args.length = target.params.length
  kinds : ∀ kind, .abruptKind kind ∉ args

/-- The arguments of another edge: for the last parameters, and those before them are not forwarded
under another name. -/
structure EdgeFits {I : Type} (source target : Block I I) (args : List BlockArg) : Prop where
  length : args.length ≤ target.params.length
  forwards : ∀ param ∈ target.params.take (target.params.length - args.length), ∀ own,
    source.params.find? (fun sourceParam => sourceParam.role = param.role) = some own →
      own.name = param.name
  explicit : ∀ pa ∈ (target.params.drop (target.params.length - args.length)).zip args,
    ArgFits pa.1.role pa.2

/-- What is expected of a function. -/
structure CheckedFunction.WellFormed {I : Type} (f : CheckedFunction I) : Prop where
  layout : ∀ expected, f.scopeLayout = some expected →
    ∃ layout, f.storageLayout = some layout ∧ Covers layout expected
  dense : ∀ (i : ℕ) (b : Block I I), f.blocks[i]? = some b → b.label = i
  wired : Wired f.blocks DispatchFits EdgeFits

/-! ## Validation accepts what is well formed -/

theorem checkOwnerCell_eq_ok {layout : StorageLayout} {expected : ClosureSlot} :
    CheckedFunction.checkOwnerCell layout expected = .ok () ↔ ∃ actual,
      layout.cellvars.find? (fun slot => slot.logicalName = expected.logicalName) = some actual ∧
        actual.storageName = expected.storageName := by
  unfold CheckedFunction.checkOwnerCell
  cases layout.cellvars.find? fun slot => slot.logicalName = expected.logicalName with
  | none => simp
  | some actual => simp [check_eq_ok]

theorem validateExplicitEdgeArg_eq_ok {I : Type} {source target : Block I I} {param : BlockParam}
    {arg : BlockArg} {labelKind : String} :
    CheckedFunction.validateExplicitEdgeArg source target param arg labelKind = .ok () ↔
      ArgFits param.role arg := by
  obtain ⟨x, role⟩ := param
  constructor
  · intro h
    cases role <;> cases arg <;> first | constructor | cases h
  · intro h
    cases h with
    | name role x => cases role <;> rfl
    | none role => cases role <;> rfl
    | currentException => rfl
    | abruptKind kind => rfl

theorem validateImplicitParam_eq_ok {I : Type} {source target : Block I I} {param : BlockParam}
    {labelKind : String} :
    CheckedFunction.validateImplicitParam source target param labelKind = .ok () ↔ ∀ own,
      source.params.find? (fun sourceParam => sourceParam.role = param.role) = some own →
        own.name = param.name := by
  unfold CheckedFunction.validateImplicitParam
  cases source.params.find? fun sourceParam => sourceParam.role = param.role with
  | none => simp
  | some own => simp [check_eq_ok]

theorem validateEdgeParamForwarding_eq_ok {I : Type} {source target : Block I I}
    {args : List BlockArg} {labelKind : String} :
    CheckedFunction.validateEdgeParamForwarding source target args labelKind = .ok () ↔
      EdgeFits source target args := by
  unfold CheckedFunction.validateEdgeParamForwarding
  rw [then_eq_ok, then_eq_ok, check_eq_ok, forM_eq_ok, forM_eq_ok]
  simp only [validateImplicitParam_eq_ok, validateExplicitEdgeArg_eq_ok]
  exact ⟨fun ⟨hlength, hforwards, hexplicit⟩ => ⟨hlength, hforwards, hexplicit⟩,
    fun h => ⟨h.length, h.forwards, h.explicit⟩⟩

/-- With an argument for every parameter, all arguments are looked at. -/
theorem forM_validateDispatchArg_eq_ok {I : Type} {source : Block I I} {params : List String}
    {args : List BlockArg} (hlength : args.length = params.length) :
    ((params.zip args).forM fun pa => CheckedFunction.validateDispatchArg source pa.1 pa.2) =
      .ok () ↔ ∀ kind, .abruptKind kind ∉ args := by
  have hsnd : (params.zip args).map Prod.snd = args := List.map_snd_zip hlength.le
  rw [forM_eq_ok]
  constructor
  · intro h kind hkind
    rw [← hsnd] at hkind
    obtain ⟨⟨x, arg⟩, hmem, harg⟩ := List.mem_map.mp hkind
    obtain rfl : arg = .abruptKind kind := harg
    cases h _ hmem
  · rintro h ⟨x, arg⟩ hmem
    cases arg with
    | abruptKind kind => exact absurd (List.of_mem_zip hmem).2 (h kind)
    | _ => rfl

namespace CheckedFunction

variable {I : Type} {f : CheckedFunction I}

theorem validateStorageLayoutScoping_eq_ok :
    f.validateStorageLayoutScoping = .ok () ↔ ∀ expected, f.scopeLayout = some expected →
      ∃ layout, f.storageLayout = some layout ∧ Covers layout expected := by
  unfold validateStorageLayoutScoping
  cases f.scopeLayout with
  | none => cases f.storageLayout <;> simp
  | some expected =>
    cases f.storageLayout with
    | none => simp
    | some layout =>
      show (expected.cellvars.forM (checkOwnerCell layout) >>= fun _ =>
        expected.freevars.forM (checkFreevar layout)) = .ok () ↔ _
      rw [then_eq_ok, forM_eq_ok, forM_eq_ok]
      unfold checkFreevar
      simp only [checkOwnerCell_eq_ok, check_eq_ok]
      constructor
      · rintro ⟨hcellvars, hfreevars⟩ _ hexpected
        cases hexpected
        exact ⟨layout, rfl, hcellvars, hfreevars⟩
      · intro h
        obtain ⟨_, hlayout, hcovers⟩ := h expected rfl
        cases hlayout
        exact ⟨hcovers.cellvars, hcovers.freevars⟩

/-- With dense labels a block stands where its label says. -/
theorem blockAt_of_dense {blocks : List (Block I I)}
    (hdense : ∀ (i : ℕ) (b : Block I I), blocks[i]? = some b → b.label = i) (label : BlockLabel) :
    blockAt blocks label = blocks[label]? := by
  have hat : ∀ b, blockAt blocks label = some b → blocks[label]? = some b := by
    intro b hb
    obtain ⟨i, hi⟩ := List.mem_iff_getElem?.mp (Blocks.mem_of_blockAt hb)
    have hlabel := (hdense i b hi).symm.trans (Blocks.label_of_blockAt hb)
    rwa [hlabel] at hi
  cases hb : blockAt blocks label with
  | some b => exact (hat b hb).symm
  | none =>
    cases hb' : blocks[label]? with
    | none => rfl
    | some b =>
      refine absurd (List.mem_map.mpr ⟨b, List.mem_of_getElem? hb', hdense label b hb'⟩) ?_
      exact Blocks.blockAt_eq_none.mp hb

section Dense

variable (hdense : ∀ (i : ℕ) (b : Block I I), f.blocks[i]? = some b → b.label = i)

include hdense

theorem lookupKnownBlock_eq_ok {label blockLabel : BlockLabel} {labelKind : String}
    {target : Block I I} : f.lookupKnownBlock label blockLabel labelKind = .ok target ↔
      blockAt f.blocks label = some target := by
  unfold lookupKnownBlock
  rw [blockAt_of_dense hdense]
  cases hb : f.blocks[label]? with
  | none => simp
  | some b =>
    show (if b.label = label then _ else _) = _ ↔ _
    rw [if_pos (hdense label b hb)]
    simp

theorem validateNonExceptionEdge_eq_ok {source : Block I I} {edge : BlockEdge}
    {labelKind : String} : f.validateNonExceptionEdge source edge labelKind = .ok () ↔
      ∃ target, blockAt f.blocks edge.target = some target ∧ EdgeFits source target edge.args := by
  unfold validateNonExceptionEdge
  rw [bind_eq_ok]
  simp only [lookupKnownBlock_eq_ok hdense, validateEdgeParamForwarding_eq_ok]

theorem validateExceptionEdge_eq_ok {source : Block I I} {edge : BlockEdge} :
    f.validateExceptionEdge source edge = .ok () ↔
      ∃ target, blockAt f.blocks edge.target = some target ∧
        DispatchFits source target edge.args := by
  unfold validateExceptionEdge
  rw [bind_eq_ok]
  simp only [lookupKnownBlock_eq_ok hdense]
  refine exists_congr fun target => and_congr_right fun _ => ?_
  rw [then_eq_ok, check_eq_ok]
  have hparams : target.paramNames.length = target.params.length := List.length_map _
  constructor
  · rintro ⟨hlength, hargs⟩
    exact ⟨hlength.trans hparams, (forM_validateDispatchArg_eq_ok hlength).mp hargs⟩
  · intro h
    have hlength := h.length.trans hparams.symm
    exact ⟨hlength, (forM_validateDispatchArg_eq_ok hlength).mpr h.kinds⟩

/-- A terminator is checked along its edges. -/
theorem validateTerm_eq_ok {source : Block I I} (term : BlockTerm I) :
    f.validateTerm source term = .ok () ↔ ∀ edge ∈ term.edges,
      ∃ target, blockAt f.blocks edge.target = some target ∧
        EdgeFits source target edge.args := by
  cases term with
  | jump edge =>
    rw [BlockTerm.edges, List.forall_mem_singleton]
    exact validateNonExceptionEdge_eq_ok hdense
  | ifTerm test thenLabel elseLabel =>
    rw [BlockTerm.edges, List.forall_mem_cons, List.forall_mem_singleton, validateTerm, then_eq_ok]
    exact and_congr (validateNonExceptionEdge_eq_ok hdense) (validateNonExceptionEdge_eq_ok hdense)
  | branchTable index targets defaultLabel =>
    rw [BlockTerm.edges, List.forall_mem_map, List.forall_mem_append, List.forall_mem_singleton,
      validateTerm, then_eq_ok, forM_eq_ok]
    exact and_congr (forall₂_congr fun _ _ => validateNonExceptionEdge_eq_ok hdense)
      (validateNonExceptionEdge_eq_ok hdense)
  | raiseTerm exc => exact ⟨fun _ _ h => (by cases h), fun _ => rfl⟩
  | ret value => exact ⟨fun _ _ h => (by cases h), fun _ => rfl⟩

theorem validateEdges_eq_ok {source : Block I I} : f.validateEdges source = .ok () ↔
    (∀ edge, source.excEdge = some edge → ∃ target,
      blockAt f.blocks edge.target = some target ∧ DispatchFits source target edge.args) ∧
    ∀ edge ∈ source.term.edges, ∃ target,
      blockAt f.blocks edge.target = some target ∧ EdgeFits source target edge.args := by
  unfold validateEdges validateHandler
  rw [then_eq_ok, validateTerm_eq_ok hdense]
  refine and_congr_left fun _ => ?_
  cases source.excEdge with
  | none => simp
  | some edge =>
    refine (validateExceptionEdge_eq_ok hdense).trans ⟨fun h _ hedge => ?_, fun h => h edge rfl⟩
    cases hedge
    exact h

end Dense

/-- No faults are found in a function just if it is well formed. -/
theorem faults_eq_ok : f.faults = .ok () ↔ f.WellFormed := by
  unfold faults
  rw [then_eq_ok, then_eq_ok, forM_eq_ok, forM_eq_ok, validateStorageLayoutScoping_eq_ok]
  have hlabels : (∀ entry ∈ f.blocks.zipIdx,
      check (entry.1.label = entry.2) (.nonDenseLabel entry.1.label entry.2) = .ok ()) ↔
      ∀ (i : ℕ) (b : Block I I), f.blocks[i]? = some b → b.label = i := by
    simp only [check_eq_ok]
    exact ⟨fun h i b hb => h (b, i) (List.mk_mem_zipIdx_iff_getElem?.mpr hb),
      fun h entry hentry => h entry.2 entry.1 (List.mem_zipIdx_iff_getElem?.mp hentry)⟩
  rw [hlabels]
  constructor
  · rintro ⟨hlayout, hdense, hedges⟩
    exact ⟨hlayout, hdense,
      fun b hb => ((validateEdges_eq_ok hdense).mp (hedges b hb)).1,
      fun b hb => ((validateEdges_eq_ok hdense).mp (hedges b hb)).2⟩
  · intro h
    exact ⟨h.layout, h.dense, fun b hb =>
      (validateEdges_eq_ok h.dense).mpr ⟨h.wired.dispatch b hb, h.wired.follow b hb⟩⟩

end CheckedFunction

/-! ## The layouts of name binding -/

namespace Callable

variable (c : Callable)

theorem cellvars_of_scope {expected : StorageLayout}
    (h : c.storageLayoutFromScope = some expected) :
    expected.cellvars = c.ownCellNames.map c.ownSlot := by
  have hcellvars := cellvarsOf_build c c.captureNames
  rwa [← storageLayoutFromScope, h] at hcellvars

/-- What the scope captures is captured, whatever else the created functions need. -/
theorem captures_of_scope {expected : StorageLayout}
    (h : c.storageLayoutFromScope = some expected) {slot : ClosureSlot}
    (hslot : slot ∈ expected.freevars) (layouts : List (Option StorageLayout)) :
    slot.logicalName ∈ (freevarsOf (c.layoutWithCallees layouts)).map ClosureSlot.logicalName := by
  have hfreevars := freevarsOf_build c c.captureNames
  rw [← storageLayoutFromScope, h] at hfreevars
  refine mem_freevarsOf_layoutWithCallees.mpr (.inl ?_)
  rw [← Generators.mem_sortDedup, ← hfreevars]
  exact List.mem_map_of_mem hslot

/-- The layout that name binding computes has what the scope expects, unless two cells of the
callable have one logical name. -/
theorem layoutWithCallees_covers (layouts : List (Option StorageLayout))
    (hinj : Set.InjOn c.cellLogicalName {name | name ∈ c.ownCellNames}) {expected : StorageLayout}
    (h : c.storageLayoutFromScope = some expected) :
    ∃ layout, c.layoutWithCallees layouts = some layout ∧ Covers layout expected := by
  have hcellvars : cellvarsOf (c.layoutWithCallees layouts) = c.ownCellNames.map c.ownSlot :=
    cellvarsOf_build c _
  have hcaptures : ∀ slot ∈ expected.freevars,
      slot.logicalName ∈ (freevarsOf (c.layoutWithCallees layouts)).map ClosureSlot.logicalName :=
    fun _ hslot => c.captures_of_scope h hslot layouts
  cases hlayout : c.layoutWithCallees layouts with
  | none =>
    -- Without captured and own cells, the scope expects no layout.
    rw [hlayout] at hcellvars hcaptures
    have hown : c.ownCellNames = [] := List.map_eq_nil_iff.mp hcellvars.symm
    have hnone : sortDedup c.captureNames = [] := by
      rw [← freevarsOf_build c, ← storageLayoutFromScope, h, List.map_eq_nil_iff]
      exact List.eq_nil_iff_forall_not_mem.mpr fun slot hslot =>
        List.not_mem_nil (hcaptures slot hslot)
    rw [storageLayoutFromScope, buildStorageLayoutFromCaptureNames, if_pos ⟨hnone, hown⟩] at h
    cases h
  | some layout =>
    rw [hlayout] at hcellvars hcaptures
    refine ⟨layout, rfl, fun slot hslot => ?_,
      fun slot hslot => List.mem_map.mp (hcaptures slot hslot)⟩
    change layout.cellvars = _ at hcellvars
    rw [c.cellvars_of_scope h, ← hcellvars] at hslot
    obtain ⟨actual, hactual⟩ := Option.isSome_iff_exists.mp <|
      List.find?_isSome (p := fun other => decide (other.logicalName = slot.logicalName)).mpr
        ⟨slot, hslot, decide_eq_true rfl⟩
    refine ⟨actual, hactual, ?_⟩
    have hlogical : actual.logicalName = slot.logicalName := by
      simpa using List.find?_some hactual
    have hmem := List.mem_of_find?_eq_some hactual
    rw [hcellvars] at hmem hslot
    obtain ⟨name, hname, rfl⟩ := List.mem_map.mp hslot
    obtain ⟨name', hname', rfl⟩ := List.mem_map.mp hmem
    exact hinj hname' hname hlogical

end Callable

/-- The layouts that name binding computes for a module of functions with plain names are
accepted. -/
theorem PlainFunctions.validateStorageLayoutScoping {callables : List Callable}
    (h : PlainFunctions callables) {layout : ℕ → Option StorageLayout}
    (hlays : LaysOut callables layout) {c : Callable} (hmem : c ∈ callables) (qualname : String) :
    (Callable.checked { c with storageLayout := layout c.functionId } qualname
      ).validateStorageLayoutScoping = .ok () := by
  obtain ⟨layouts, hlayout⟩ := hlays.computed c hmem (h.noLayout c hmem)
  refine CheckedFunction.validateStorageLayoutScoping_eq_ok.mpr fun expected hexpected => ?_
  show ∃ actual, layout c.functionId = some actual ∧ Covers actual expected
  rw [hlayout]
  refine c.layoutWithCallees_covers layouts (fun storageName hname storageName' hname' heq => ?_)
    hexpected
  obtain ⟨name, -, rfl⟩ := (h.mem_ownCellNames hmem).mp hname
  obtain ⟨name', -, rfl⟩ := (h.mem_ownCellNames hmem).mp hname'
  rw [h.cellLogicalName_eq hmem, h.cellLogicalName_eq hmem] at heq
  rw [heq]

/-! ## Modules -/

theorem validateFunction_eq_ok {I : Type} {debug : List String → String} {f : CheckedFunction I} :
    validateFunction debug f = .ok () ↔ f.WellFormed := by
  rw [← CheckedFunction.faults_eq_ok, validateFunction]
  cases f.faults <;> simp [Except.mapError]

/-- **What validation accepts.** -/
theorem validateModule_eq_ok {I : Type} {debug : List String → String}
    {functions : List (CheckedFunction I)} :
    validateModule debug functions = .ok () ↔ ∀ f ∈ functions, f.WellFormed := by
  rw [validateModule, forM_eq_ok]
  exact forall₂_congr fun _ _ => validateFunction_eq_ok

/-- An exception that a handler knows under one name does not get to a block that knows it under
another. -/
example :
    let resumed : Block Unit Unit := ⟨1, [], .ret (), [⟨"_dp_try_exc", .exception⟩], none⟩
    let source : Block Unit Unit :=
      ⟨0, [], .jump (BlockEdge.new 1), [⟨"_dp_yield_from_exc", .exception⟩], none⟩
    (CheckedFunction.mk "f" [source, resumed] none none).faults =
      .error (.renamedForwarding "jump target" 0 1 ⟨"_dp_try_exc", .exception⟩
        "_dp_yield_from_exc") := rfl

/-- In a module that is accepted, runs of a function from any of its blocks only follow edges to
blocks that are there, with arguments that fit, and never miss a block. -/
theorem validateModule_runs {I V W H : Type} (m : Meaning I V W H) {debug : List String → String}
    {functions : List (CheckedFunction I)} (haccepted : validateModule debug functions = .ok ())
    {f : CheckedFunction I} (hf : f ∈ functions) {b : Block I I} (hb : b ∈ f.blocks)
    (args : List BlockArg) (exc : Option V) (w : W) :
    (m.runs (f.blocks.map Block.structured)).GuardedFrom
        (m.EntersAlong f.blocks DispatchFits EdgeFits) (m.start b.structured args exc w []) ∧
      ∀ r, (m.runs (f.blocks.map Block.structured)).Finishes
          (m.start b.structured args exc w []) r →
        ∀ label, r.ending ≠ .noBlock label := by
  have hwired := (validateModule_eq_ok.mp haccepted f hf).wired
  have hstart : m.EntersAlong f.blocks DispatchFits EdgeFits (m.start b.structured args exc w []) :=
    Meaning.entersAlong_of_inside hwired hb (Meaning.start_inside b args exc w [])
  exact ⟨Meaning.guardedFrom_entersAlong hwired hstart,
    fun _ hr label => Meaning.ending_ne_noBlock hwired hstart hr label⟩

/-- Instructions are whether they answer or raise, and a handler's world is the exception. -/
def raising : Meaning Bool Bool Bool Bool where
  eval e w := (if e then .ok e else .error e, w)
  truth v w := (.ok v, w)
  index v w := (.ok v.toNat, w)
  raised exc w := (exc.getD false, w)
  enter _ _ _ w := w
  left w := w
  enter_nil _ _ := rfl
  left_enter _ _ _ _ := rfl

/-- An instruction that raises, its handler, and what comes after. -/
def handled : CheckedFunction Bool where
  qualname := "f"
  blocks :=
    [⟨0, [false], .jump (BlockEdge.new 2), [], some ⟨1, [.currentException]⟩⟩,
      ⟨1, [true], .jump ⟨2, [.name "_dp_try_exc"]⟩, [⟨"_dp_try_exc", .exception⟩], none⟩,
      ⟨2, [], .ret true, [⟨"_dp_exc", .exception⟩], none⟩]
  storageLayout := some ⟨[], [⟨"captured", "_dp_cell_captured", .deletedSentinel⟩], []⟩
  scopeLayout := some ⟨[], [⟨"captured", "_dp_cell_captured", .deletedSentinel⟩], []⟩

theorem validateModule_runs_handled :
    (raising.runs (handled.blocks.map Block.structured)).GuardedFrom
        (raising.EntersAlong handled.blocks DispatchFits EdgeFits)
        (raising.start (handled.blocks.get ⟨0, by decide⟩).structured [] none true []) ∧
      ∀ r, (raising.runs (handled.blocks.map Block.structured)).Finishes
          (raising.start (handled.blocks.get ⟨0, by decide⟩).structured [] none true []) r →
        ∀ label, r.ending ≠ .noBlock label :=
  validateModule_runs raising (show validateModule String.join [handled] = .ok () from rfl)
    List.mem_cons_self (List.get_mem _ _) [] none true

end DietPython.Closures
