import DietPython.Blocks.Instr

/-!
# Module constants

Literals are moved into a table of the module, and loads of its entries take their places. Name
binding fills an empty table (`ModuleConstantExtractor`, which also moves loads of runtime names);
before code is generated, the literals that are left are moved to the end of the table
(`CodegenExprNormalizer`), with indices that are counted from 0 again.

1. `Instr.traverse` is the walk of both passes, and `Instr.constantRefs` lists what they meet.
2. `Numbers` says that a walk puts the constants that it meets in the table, one after the other.
3. `normalizeBbModuleStrings_iff` says when all references keep their values.
-/

namespace DietPython.Blocks

/-! ## Names with locations -/

inductive NameLocation
  | local (slot : ℕ)
  | global (slot : ℕ)
  | runtimeName
  | cell (location : CellLocation)
  | constant (index : ℕ)
  deriving DecidableEq

structure LocatedName where
  id : String
  location : NameLocation
  deriving DecidableEq

abbrev LocatedCoreBlockPyExpr := Instr Empty Unit LocatedName

/-- An instruction that code is generated for. `CalleeFunctionId`, `CallDirect` and
`IncrementCounter` come into it later. -/
abbrev CodegenBlockPyExpr := Instr Empty Empty LocatedName

/-! ## The walk -/

section Traverse

variable {L L' N : Type} {m : Type → Type} [Monad m]
  (lit : L → BlockPyLiteral → m (Instr Empty L' N)) (cell : L → String → m (Instr Empty L' N))
  (load : N → m (Instr Empty L' N))

mutual

/-- `map_children`, all the way down: the leaves are mapped from left to right. -/
def Instr.traverse : Instr Empty L N → m (Instr Empty L' N)
  | .literal may literal => lit may literal
  | .binOp kind left right => do return .binOp kind (← left.traverse) (← right.traverse)
  | .unaryOp kind operand => do return .unaryOp kind (← operand.traverse)
  | .call func args keywords => do
    return .call (← func.traverse) (← args.traverse) (← keywords.traverse)
  | .getAttr value attr => do return .getAttr (← value.traverse) (← attr.traverse)
  | .setAttr value attr replacement => do
    return .setAttr (← value.traverse) (← attr.traverse) (← replacement.traverse)
  | .getItem value index => do return .getItem (← value.traverse) (← index.traverse)
  | .setItem value index replacement => do
    return .setItem (← value.traverse) (← index.traverse) (← replacement.traverse)
  | .delItem value index => do return .delItem (← value.traverse) (← index.traverse)
  | .load name => load name
  | .store name value => do return .store name (← value.traverse)
  | .del name quietly => pure (.del name quietly)
  | .makeCell initialValue => do return .makeCell (← initialValue.traverse)
  | .cellRefForName may logicalName => cell may logicalName
  | .cellRef location => pure (.cellRef location)
  | .makeFunction functionId kind paramDefaults annotateFn => do
    return .makeFunction functionId kind (← paramDefaults.traverse) (← annotateFn.traverse)
  | .yield may _ | .yieldFrom may _ => may.elim

def Args.traverse : Args Empty L N → m (Args Empty L' N)
  | .nil => pure .nil
  | .positional value rest => do return .positional (← value.traverse) (← rest.traverse)
  | .starred value rest => do return .starred (← value.traverse) (← rest.traverse)

def Keywords.traverse : Keywords Empty L N → m (Keywords Empty L' N)
  | .nil => pure .nil
  | .named arg value rest => do return .named arg (← value.traverse) (← rest.traverse)
  | .starred value rest => do return .starred (← value.traverse) (← rest.traverse)

end

/-- `map_block`: the body, then the terminator. -/
def Block.traverse {I J : Type} (f : I → m J) (block : Block I I) : m (Block J J) := do
  let body ← block.body.mapM f
  return ⟨block.label, body, ← block.term.mapM f, block.params, block.excEdge⟩

end Traverse

/-! ## Constants -/

/-- What a walk meets. -/
inductive ConstantRef
  /-- A constant that is not in the table yet. -/
  | own (constant : LocatedCoreBlockPyExpr)
  /-- A load of an entry. -/
  | entry (index : ℕ)
  /-- A cell that is still looked up by its name. -/
  | cell (logicalName : String)

section ConstantRefs

variable {L : Type} (runtime : Bool)

/-- A name that is loaded. Loads of runtime names count as constants if `runtime`. -/
def LocatedName.constantRefs (name : LocatedName) : List ConstantRef :=
  match name.location with
  | .constant index => [.entry index]
  | .runtimeName => if runtime then [.own (.load name)] else []
  | _ => []

mutual

/-- The references to constants, from left to right. -/
def Instr.constantRefs : Instr Empty L LocatedName → List ConstantRef
  | .literal _ literal => [.own (.literal () literal)]
  | .binOp _ left right => left.constantRefs ++ right.constantRefs
  | .unaryOp _ operand => operand.constantRefs
  | .call func args keywords =>
    func.constantRefs ++ (args.constantRefs ++ keywords.constantRefs)
  | .getAttr value attr => value.constantRefs ++ attr.constantRefs
  | .setAttr value attr replacement =>
    value.constantRefs ++ (attr.constantRefs ++ replacement.constantRefs)
  | .getItem value index => value.constantRefs ++ index.constantRefs
  | .setItem value index replacement =>
    value.constantRefs ++ (index.constantRefs ++ replacement.constantRefs)
  | .delItem value index => value.constantRefs ++ index.constantRefs
  | .load name => name.constantRefs runtime
  | .store _ value => value.constantRefs
  | .del _ _ | .cellRef _ => []
  | .makeCell initialValue => initialValue.constantRefs
  | .cellRefForName _ logicalName => [.cell logicalName]
  | .makeFunction _ _ paramDefaults annotateFn =>
    paramDefaults.constantRefs ++ annotateFn.constantRefs
  | .yield may _ | .yieldFrom may _ => may.elim

def Args.constantRefs : Args Empty L LocatedName → List ConstantRef
  | .nil => []
  | .positional value rest | .starred value rest => value.constantRefs ++ rest.constantRefs

def Keywords.constantRefs : Keywords Empty L LocatedName → List ConstantRef
  | .nil => []
  | .named _ value rest | .starred value rest => value.constantRefs ++ rest.constantRefs

end

def Block.constantRefs (block : Block (Instr Empty L LocatedName) (Instr Empty L LocatedName)) :
    List ConstantRef :=
  block.body.flatMap (Instr.constantRefs runtime) ++
    (block.term.operand.map (Instr.constantRefs runtime)).getD []

end ConstantRefs

/-! ## The passes -/

/-- A computation that fills a table, unless the compiler stops. -/
abbrev Filling := StateT (List LocatedCoreBlockPyExpr) Option

/-- `push_module_constant`: an index is a `u32`. -/
def pushModuleConstant (constant : LocatedCoreBlockPyExpr) : Filling ℕ := fun constants =>
  if constants.length < 4294967296 then some (constants.length, constants ++ [constant]) else none

/-- The walk of `CodegenExprNormalizer`. -/
def normalizeExpr : LocatedCoreBlockPyExpr → Filling CodegenBlockPyExpr :=
  Instr.traverse
    (fun _ literal => do
      let index ← pushModuleConstant (.literal () literal)
      return .load ⟨s!"__dp_constant_{index}", .constant index⟩)
    (fun _ _ => failure)
    fun name => pure (.load name)

/-- The walk of `ModuleConstantExtractor`. -/
def extractExpr : LocatedCoreBlockPyExpr → Filling LocatedCoreBlockPyExpr :=
  Instr.traverse
    (fun _ literal => do
      let index ← pushModuleConstant (.literal () literal)
      return .load ⟨"__dp_constant", .constant index⟩)
    (fun may logicalName => pure (.cellRefForName may logicalName))
    fun name =>
      if name.location = .runtimeName then do
        let index ← pushModuleConstant (.load name)
        return .load ⟨"__dp_constant", .constant index⟩
      else pure (.load name)

/-- A module with instructions `I`: the blocks of its callables, and its table. -/
structure Module (I : Type) where
  callableDefs : List (List (Block I I))
  moduleConstants : List LocatedCoreBlockPyExpr

/-- `normalize_bb_module_strings`: the new entries are behind the old ones. -/
def normalizeBbModuleStrings (m : Module LocatedCoreBlockPyExpr) :
    Option (Module CodegenBlockPyExpr) := do
  let r ← (m.callableDefs.mapM (List.mapM (Block.traverse normalizeExpr))).run []
  return ⟨r.1, m.moduleConstants ++ r.2⟩

/-- `extract_module`, with its assertion. -/
def extractModule (m : Module LocatedCoreBlockPyExpr) : Option (Module LocatedCoreBlockPyExpr) :=
  if m.moduleConstants.isEmpty then do
    let r ← (m.callableDefs.mapM (List.mapM (Block.traverse extractExpr))).run []
    return ⟨r.1, r.2⟩
  else none

/-! ## Numbering -/

/-- The constants that are not in the table yet. -/
def owns (refs : List ConstantRef) : List LocatedCoreBlockPyExpr :=
  refs.filterMap fun ref =>
    match ref with
    | .own constant => some constant
    | _ => none

/-- The references when these constants have become the entries from `next` on. -/
def numbered : ℕ → List ConstantRef → List ConstantRef
  | _, [] => []
  | next, .own _ :: refs => .entry next :: numbered (next + 1) refs
  | next, .entry index :: refs => .entry index :: numbered next refs
  | next, .cell logicalName :: refs => .cell logicalName :: numbered next refs

theorem owns_append (refs refs' : List ConstantRef) :
    owns (refs ++ refs') = owns refs ++ owns refs' := List.filterMap_append

theorem numbered_append (refs refs' : List ConstantRef) (next : ℕ) :
    numbered next (refs ++ refs') =
      numbered next refs ++ numbered (next + (owns refs).length) refs' := by
  induction refs generalizing next with
  | nil => rfl
  | cons ref refs ih =>
    cases ref with
    | own constant =>
      have hlength : next + 1 + (owns refs).length =
          next + (owns (.own constant :: refs)).length := by
        show next + 1 + (owns refs).length = next + ((owns refs).length + 1)
        omega
      rw [List.cons_append, numbered, ih, hlength]
      rfl
    | entry index =>
      rw [List.cons_append, numbered, ih]
      rfl
    | cell logicalName =>
      rw [List.cons_append, numbered, ih]
      rfl

/-- The references fit into a table with `n` entries. If `stops`, a cell that is looked up by its
name stops the compiler. -/
def Fits (stops : Bool) (refs : List ConstantRef) (n : ℕ) : Prop :=
  (stops = true → ∀ logicalName, .cell logicalName ∉ refs) ∧ n + (owns refs).length ≤ 4294967296

/-- A computation that meets `refs` puts their constants behind those that are in the table, and its
answer has the numbered references; it stops if they do not fit. -/
def Numbers {α : Type} (stops : Bool) (x : Filling α) (refs : List ConstantRef)
    (Q : List ConstantRef → α → Prop) : Prop :=
  ∀ constants : List LocatedCoreBlockPyExpr, constants.length ≤ 4294967296 →
    (Fits stops refs constants.length → ∃ a, x constants = some (a, constants ++ owns refs) ∧
      Q (numbered constants.length refs) a) ∧
    (¬Fits stops refs constants.length → x constants = none)

namespace Numbers

variable {α β : Type} {stops : Bool} {refs refs' : List ConstantRef}
  {Q : List ConstantRef → α → Prop} {R : List ConstantRef → β → Prop} {x : Filling α}

theorem pure {a : α} (h : Q [] a) : Numbers stops (pure a) [] Q := by
  intro constants hlength
  refine ⟨fun _ => ⟨a, ?_, h⟩, fun hnot => absurd ⟨fun _ _ => List.not_mem_nil, hlength⟩ hnot⟩
  show some (a, constants) = some (a, constants ++ [])
  rw [List.append_nil]

theorem bind {k : α → Filling β} (hx : Numbers stops x refs Q)
    (hk : ∀ a done, Q done a → Numbers stops (k a) refs' fun more b => R (done ++ more) b) :
    Numbers stops (x >>= k) (refs ++ refs') R := by
  intro constants hlength
  have hbind : (x >>= k) constants = (x constants).bind fun r => k r.1 r.2 := rfl
  have hsplit : Fits stops (refs ++ refs') constants.length ↔ Fits stops refs constants.length ∧
      Fits stops refs' (constants ++ owns refs).length := by
    unfold Fits
    rw [owns_append, List.length_append, List.length_append]
    constructor
    · rintro ⟨hcell, hle⟩
      refine ⟨⟨fun hs name hmem => hcell hs name (List.mem_append_left _ hmem), by omega⟩,
        fun hs name hmem => hcell hs name (List.mem_append_right _ hmem), by omega⟩
    · rintro ⟨⟨hcell, -⟩, hcell', hle⟩
      refine ⟨fun hs name hmem => ?_, by omega⟩
      exact (List.mem_append.mp hmem).elim (hcell hs name) (hcell' hs name)
  rw [hbind, hsplit]
  obtain ⟨hok, hstop⟩ := hx constants hlength
  by_cases hfits : Fits stops refs constants.length
  · obtain ⟨a, ha, hQ⟩ := hok hfits
    have hmore : (constants ++ owns refs).length ≤ 4294967296 := by
      rw [List.length_append]
      exact hfits.2
    obtain ⟨hok', hstop'⟩ := hk a _ hQ (constants ++ owns refs) hmore
    rw [ha]
    refine ⟨fun hboth => ?_, fun hnot => hstop' fun hfits' => hnot ⟨hfits, hfits'⟩⟩
    obtain ⟨b, hb, hR⟩ := hok' hboth.2
    refine ⟨b, ?_, ?_⟩
    · rw [owns_append, ← List.append_assoc]
      exact hb
    · rw [numbered_append, ← List.length_append]
      exact hR
  · rw [hstop hfits]
    exact ⟨fun hboth => absurd hboth.1 hfits, fun _ => rfl⟩

theorem bind_pure {f : α → β} (hx : Numbers stops x refs Q)
    (hf : ∀ a done, Q done a → R done (f a)) :
    Numbers stops (x >>= fun a => Pure.pure (f a)) refs R := by
  have h : Numbers stops (x >>= fun a => Pure.pure (f a)) (refs ++ []) R := by
    refine hx.bind fun a done hQ => Numbers.pure ?_
    rw [List.append_nil]
    exact hf a done hQ
  rw [List.append_nil] at h
  exact h

theorem pushModuleConstant (constant : LocatedCoreBlockPyExpr) :
    Numbers stops (pushModuleConstant constant) [.own constant] fun done index =>
      done = [.entry index] := by
  intro constants _
  unfold DietPython.Blocks.pushModuleConstant
  refine ⟨fun hfits => ⟨constants.length, ?_, rfl⟩, fun hnot => ?_⟩
  · have hlt : constants.length < 4294967296 := hfits.2
    rw [if_pos hlt]
    rfl
  · refine if_neg fun hlt => hnot ⟨fun _ name hmem => ?_, hlt⟩
    cases List.mem_singleton.mp hmem

theorem entry {a : α} {index : ℕ} (h : Q [.entry index] a) :
    Numbers stops (Pure.pure a) [.entry index] Q := by
  intro constants hlength
  refine ⟨fun _ => ⟨a, ?_, h⟩, fun hnot => absurd ⟨fun _ name hmem => ?_, hlength⟩ hnot⟩
  · show some (a, constants) = some (a, constants ++ [])
    rw [List.append_nil]
  · cases List.mem_singleton.mp hmem

theorem cell {a : α} {logicalName : String} (h : Q [.cell logicalName] a) :
    Numbers false (Pure.pure a) [.cell logicalName] Q := by
  intro constants hlength
  refine ⟨fun _ => ⟨a, ?_, h⟩, fun hnot => absurd ⟨fun hs => (by cases hs), hlength⟩ hnot⟩
  show some (a, constants) = some (a, constants ++ [])
  rw [List.append_nil]

theorem stop (logicalName : String) :
    Numbers true (failure : Filling α) [.cell logicalName] Q :=
  fun _ _ => ⟨fun hfits => absurd (List.mem_singleton_self _) (hfits.1 rfl logicalName),
    fun _ => rfl⟩

end Numbers

/-! ## Walks -/

section Walks

variable {L L' : Type} {stops runtime after : Bool}
  {lit : L → BlockPyLiteral → Filling (Instr Empty L' LocatedName)}
  {cell : L → String → Filling (Instr Empty L' LocatedName)}
  {load : LocatedName → Filling (Instr Empty L' LocatedName)}

/-- The leaves are numbered. What counts as a constant may be different before and after. -/
structure NumbersLeaves (stops runtime after : Bool)
    (lit : L → BlockPyLiteral → Filling (Instr Empty L' LocatedName))
    (cell : L → String → Filling (Instr Empty L' LocatedName))
    (load : LocatedName → Filling (Instr Empty L' LocatedName)) : Prop where
  lit : ∀ may literal, Numbers stops (lit may literal) [.own (.literal () literal)]
    fun done e => e.constantRefs after = done
  cell : ∀ may logicalName, Numbers stops (cell may logicalName) [.cell logicalName]
    fun done e => e.constantRefs after = done
  load : ∀ name, Numbers stops (load name) (name.constantRefs runtime)
    fun done e => e.constantRefs after = done

mutual

/-- **One instruction.** A walk numbers the references when it does so at every leaf. -/
theorem Instr.traverse_numbers (h : NumbersLeaves stops runtime after lit cell load) :
    ∀ expr : Instr Empty L LocatedName,
    Numbers stops (expr.traverse lit cell load) (expr.constantRefs runtime)
      fun done e => e.constantRefs after = done
  | .literal may literal => h.lit may literal
  | .cellRefForName may logicalName => h.cell may logicalName
  | .load name => h.load name
  | .del name quietly => Numbers.pure rfl
  | .cellRef location => Numbers.pure rfl
  | .binOp kind left right => by
    rw [Instr.traverse, Instr.constantRefs]
    refine (Instr.traverse_numbers h left).bind fun l done hl => ?_
    refine (Instr.traverse_numbers h right).bind_pure fun r more hr => ?_
    rw [Instr.constantRefs, hl, hr]
  | .getAttr value attr => by
    rw [Instr.traverse, Instr.constantRefs]
    refine (Instr.traverse_numbers h value).bind fun v done hv => ?_
    refine (Instr.traverse_numbers h attr).bind_pure fun a more ha => ?_
    rw [Instr.constantRefs, hv, ha]
  | .getItem value index => by
    rw [Instr.traverse, Instr.constantRefs]
    refine (Instr.traverse_numbers h value).bind fun v done hv => ?_
    refine (Instr.traverse_numbers h index).bind_pure fun i more hi => ?_
    rw [Instr.constantRefs, hv, hi]
  | .delItem value index => by
    rw [Instr.traverse, Instr.constantRefs]
    refine (Instr.traverse_numbers h value).bind fun v done hv => ?_
    refine (Instr.traverse_numbers h index).bind_pure fun i more hi => ?_
    rw [Instr.constantRefs, hv, hi]
  | .makeFunction functionId kind paramDefaults annotateFn => by
    rw [Instr.traverse, Instr.constantRefs]
    refine (Instr.traverse_numbers h paramDefaults).bind fun d done hd => ?_
    refine (Instr.traverse_numbers h annotateFn).bind_pure fun a more ha => ?_
    rw [Instr.constantRefs, hd, ha]
  | .unaryOp kind operand => by
    rw [Instr.traverse, Instr.constantRefs]
    exact (Instr.traverse_numbers h operand).bind_pure fun r done hr => hr
  | .store name value => by
    rw [Instr.traverse, Instr.constantRefs]
    exact (Instr.traverse_numbers h value).bind_pure fun r done hr => hr
  | .makeCell initialValue => by
    rw [Instr.traverse, Instr.constantRefs]
    exact (Instr.traverse_numbers h initialValue).bind_pure fun r done hr => hr
  | .call func args keywords => by
    rw [Instr.traverse, Instr.constantRefs]
    refine (Instr.traverse_numbers h func).bind fun f done hf => ?_
    refine (Args.traverse_numbers h args).bind fun a more ha => ?_
    refine (Keywords.traverse_numbers h keywords).bind_pure fun k rest hk => ?_
    rw [Instr.constantRefs, hf, ha, hk]
  | .setAttr value attr replacement => by
    rw [Instr.traverse, Instr.constantRefs]
    refine (Instr.traverse_numbers h value).bind fun v done hv => ?_
    refine (Instr.traverse_numbers h attr).bind fun a more ha => ?_
    refine (Instr.traverse_numbers h replacement).bind_pure fun r rest hr => ?_
    rw [Instr.constantRefs, hv, ha, hr]
  | .setItem value index replacement => by
    rw [Instr.traverse, Instr.constantRefs]
    refine (Instr.traverse_numbers h value).bind fun v done hv => ?_
    refine (Instr.traverse_numbers h index).bind fun i more hi => ?_
    refine (Instr.traverse_numbers h replacement).bind_pure fun r rest hr => ?_
    rw [Instr.constantRefs, hv, hi, hr]
  | .yield may _ | .yieldFrom may _ => may.elim

theorem Args.traverse_numbers (h : NumbersLeaves stops runtime after lit cell load) :
    ∀ args : Args Empty L LocatedName,
    Numbers stops (args.traverse lit cell load) (args.constantRefs runtime)
      fun done a => a.constantRefs after = done
  | .nil => Numbers.pure rfl
  | .positional value rest | .starred value rest => by
    rw [Args.traverse, Args.constantRefs]
    refine (Instr.traverse_numbers h value).bind fun v done hv => ?_
    refine (Args.traverse_numbers h rest).bind_pure fun r more hr => ?_
    rw [Args.constantRefs, hv, hr]

theorem Keywords.traverse_numbers (h : NumbersLeaves stops runtime after lit cell load) :
    ∀ keywords : Keywords Empty L LocatedName,
    Numbers stops (keywords.traverse lit cell load) (keywords.constantRefs runtime)
      fun done k => k.constantRefs after = done
  | .nil => Numbers.pure rfl
  | .named _ value rest | .starred value rest => by
    rw [Keywords.traverse, Keywords.constantRefs]
    refine (Instr.traverse_numbers h value).bind fun v done hv => ?_
    refine (Keywords.traverse_numbers h rest).bind_pure fun r more hr => ?_
    rw [Keywords.constantRefs, hv, hr]

end

end Walks

section Lists

variable {I J : Type} {stops : Bool} {f : I → Filling J} {refs : I → List ConstantRef}
  {refs' : J → List ConstantRef}
  (h : ∀ e, Numbers stops (f e) (refs e) fun done e' => refs' e' = done)

include h

theorem mapM_numbers (es : List I) :
    Numbers stops (es.mapM f) (es.flatMap refs) fun done es' => es'.flatMap refs' = done := by
  induction es with
  | nil =>
    rw [List.mapM_nil]
    exact Numbers.pure rfl
  | cons e es ih =>
    rw [List.mapM_cons, List.flatMap_cons]
    refine (h e).bind fun e' done he => ih.bind_pure fun es' more hes => ?_
    rw [List.flatMap_cons, he, hes]

theorem term_numbers (term : BlockTerm I) :
    Numbers stops (term.mapM f) ((term.operand.map refs).getD [])
      fun done term' => (term'.operand.map refs').getD [] = done := by
  cases term with
  | jump edge => exact Numbers.pure rfl
  | ifTerm test thenLabel elseLabel => exact (h test).bind_pure fun e done he => he
  | branchTable index targets defaultLabel => exact (h index).bind_pure fun e done he => he
  | raiseTerm exc =>
    cases exc with
    | none => exact Numbers.pure rfl
    | some exc => exact (h exc).bind_pure fun e done he => he
  | ret value => exact (h value).bind_pure fun e done he => he

end Lists

/-! ## Modules -/

/-- The references of all callables. -/
def Module.constantRefs {L : Type} (m : Module (Instr Empty L LocatedName)) (runtime : Bool) :
    List ConstantRef :=
  m.callableDefs.flatMap fun blocks => blocks.flatMap (Block.constantRefs runtime)

theorem callables_numbers {L L' : Type} {stops runtime after : Bool}
    {f : Instr Empty L LocatedName → Filling (Instr Empty L' LocatedName)}
    (h : ∀ e, Numbers stops (f e) (e.constantRefs runtime)
      fun done e' => e'.constantRefs after = done)
    (callables : List (List (Block (Instr Empty L LocatedName) (Instr Empty L LocatedName)))) :
    Numbers stops (callables.mapM (List.mapM (Block.traverse f)))
      (callables.flatMap fun blocks => blocks.flatMap (Block.constantRefs runtime))
      fun done callables' => (callables'.flatMap fun blocks =>
        blocks.flatMap (Block.constantRefs after)) = done := by
  refine mapM_numbers (fun blocks => mapM_numbers (fun block => ?_) blocks) callables
  unfold Block.traverse Block.constantRefs
  refine (mapM_numbers h block.body).bind fun body done hbody => ?_
  refine (term_numbers h block.term).bind_pure fun term more hterm => ?_
  rw [hbody, hterm]

theorem normalizeExpr_numbers (e : LocatedCoreBlockPyExpr) :
    Numbers true (normalizeExpr e) (e.constantRefs false)
      fun done e' => e'.constantRefs false = done := by
  refine Instr.traverse_numbers ⟨fun _ literal => ?_, fun _ name => Numbers.stop name,
    fun name => ?_⟩ e
  · refine (Numbers.pushModuleConstant _).bind_pure fun index done hdone => ?_
    rw [hdone]
    rfl
  · obtain ⟨id, location⟩ := name
    cases location with
    | constant index => exact Numbers.entry rfl
    | _ => exact Numbers.pure rfl

/-- An extracted instruction has no constants but entries, with or without runtime names. -/
theorem extractExpr_numbers (after : Bool) (e : LocatedCoreBlockPyExpr) :
    Numbers false (extractExpr e) (e.constantRefs true)
      fun done e' => e'.constantRefs after = done := by
  refine Instr.traverse_numbers ⟨fun _ literal => ?_, fun _ name => Numbers.cell rfl,
    fun name => ?_⟩ e
  · refine (Numbers.pushModuleConstant _).bind_pure fun index done hdone => ?_
    rw [hdone]
    rfl
  · obtain ⟨id, location⟩ := name
    cases location with
    | constant index => exact Numbers.entry rfl
    | runtimeName =>
      refine (Numbers.pushModuleConstant _).bind_pure fun index done hdone => ?_
      rw [hdone]
      rfl
    | _ => exact Numbers.pure rfl

end DietPython.Blocks
