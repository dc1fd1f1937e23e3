import DietPython.Scopes.LoadEvaluation

/-!
# Runs with unbound names

A callable with checked loads, run from its first block. `loadsRaise_iff` says when every load of a
name that is deleted or never bound raises an `UnboundLocalError` whenever the name is unbound: the
loads that escape are those inside the value of a store, those of names that are not collected, and
those of cells that a `del` has emptied.
-/

namespace DietPython.Scopes

open Blocks Machines Machine

section Runs

variable {V σ : Type} [DecidableEq V] (c : BoundCallable) (rt : Runtime V σ)

/-- What an argument of an edge stands for. -/
def argValue (fr : Frame V σ) (exc : Option V) : BlockArg → V
  | .name x =>
    match c.locate x with
    | .stackSlot slot => fr.stack slot
    | _ => rt.none
  | .none => rt.none
  | .currentException => exc.getD rt.none
  | .abruptKind kind => rt.abruptKind kind

/-- Block parameters are local variables. -/
def bindParam (stack : ℕ → V) (param : BlockParam) (v : V) : ℕ → V :=
  match c.locate param.name with
  | .stackSlot slot => Function.update stack slot v
  | _ => stack

/-- The stack when a block is entered. -/
def entered (params : List BlockParam) (args : List BlockArg) (exc : Option V) (fr : Frame V σ) :
    ℕ → V :=
  (params.zip args).foldl
    (fun stack pair => bindParam c stack pair.1 (argValue c rt fr exc pair.2)) fr.stack

/-- Runs of the blocks of a callable. -/
def meaning (load : Loads V σ) :
    Meaning CoreBlockPyExpr V (Frame V σ) (Heap V σ × List String) where
  eval e fr := (evalInstr c rt load false false e).on fr
  truth v fr := (onHeap (rt.truth v)).on fr
  index v fr := (onHeap (rt.index v)).on fr
  raised exc fr := ((rt.raised exc fr.heap).1, { fr with heap := (rt.raised exc fr.heap).2 })
  enter params args exc fr := { fr with stack := entered c rt params args exc fr }
  left fr := (fr.heap, fr.notes)
  enter_nil params fr := by
    unfold entered
    rw [List.zip_nil_right]
    rfl
  left_enter _ _ _ _ := rfl

abbrev CallablePlace (V σ : Type) := Place CoreBlockPyExpr (Frame V σ)

/-- The start of the first block, with nothing noted yet. -/
def entry (blocks : List CoreBlock) (fr : Frame V σ) : Option (CallablePlace V σ) :=
  blocks.head?.map fun b => ⟨b.excEdge, b.structured.body, b.term, fr.unnoted, []⟩

def callableRuns (load : Loads V σ) (blocks : List CoreBlock) :
    Machine (CallablePlace V σ) (Final CoreBlockPyExpr V (Heap V σ × List String)) :=
  (meaning c rt load).runs (blocks.map Block.structured)

/-- In a run of the callable, every load of these names that finds its name unbound raises an
`UnboundLocalError`. -/
def LoadsRaise (names : String → Prop) (fr : Frame V σ) : Prop :=
  ∀ p, entry c.lowered fr = some p →
    ((callableRuns c rt (rawLoads c rt) c.lowered).GuardedFrom
      (fun q => ∀ name ∈ q.world.notes, ¬names name) p ∧
    ∀ r, (callableRuns c rt (rawLoads c rt) c.lowered).Finishes p r →
      ∀ name ∈ r.left.2, ¬names name)

/-! ## Loads that escape -/

def isUnboundCell : CellState V → Bool
  | .noCell => false
  | .empty => true
  | .holds v => v = rt.deleted

def isUnbound (fr : Frame V σ) : VariableLocation → Bool
  | .stackSlot slot => fr.stack slot = rt.deleted
  | .ownedCell slot => isUnboundCell rt (fr.heap.cell (fr.stack slot))
  | .closureCell index => isUnboundCell rt (fr.heap.cell (fr.closure index))
  | .globalName => false

def isEmpty : CellState V → Bool
  | .empty => true
  | _ => false

def isEmptied (fr : Frame V σ) : VariableLocation → Bool
  | .ownedCell slot => isEmpty (fr.heap.cell (fr.stack slot))
  | .closureCell index => isEmpty (fr.heap.cell (fr.closure index))
  | _ => false

/-- Whether a load gets past its check: it is in the value of a store or is not checked, and the
name is unbound, or it is checked but the cell is empty. A load that the source itself checks is
`checked`. -/
def escapes (inStore checked : Bool) (name : String) (fr : Frame V σ) : Bool :=
  match inStore, c.loadCheck (.sourceName name) with
  | true, _ | false, none =>
    if checked then isEmptied fr (c.locate name) else isUnbound rt fr (c.locate name)
  | false, some (.loaded _) => isEmptied fr (c.locate name)
  | false, some (.sentinel _) => false

def noted (name : String) (escaped : Bool) : List String := if escaped then [name] else []

def escaping (inStore checked : Bool) : UnresolvedName → Frame V σ → List String
  | .sourceName name, fr => noted name (escapes c rt inStore checked name fr)
  | .runtimeName _, _ => []

/-- A load of the source, with a note if it escapes. -/
def escapingLoad : Loads V σ := fun inStore checked name =>
  .of fun fr =>
    (((guardedLoad c rt inStore checked name).on fr).1,
      { ((guardedLoad c rt inStore checked name).on fr).2 with
        notes := fr.notes ++ escaping c rt inStore checked name fr })

/-- The instruction that is evaluated at a place. -/
def nextInstr (p : CallablePlace V σ) : Option CoreBlockPyExpr :=
  match p.rest with
  | .expr e :: _ => some e
  | .ifStmt test _ _ _ _ :: _ => some test
  | [] => p.term.operand

/-- The names whose loads escape when an instruction is evaluated. -/
def uncheckedLoads (e : CoreBlockPyExpr) (fr : Frame V σ) : List String :=
  ((evalInstr c rt (escapingLoad c rt) false false e).on fr.unnoted).2.notes

def placeLoads (p : CallablePlace V σ) : List String :=
  match nextInstr p with
  | some e => uncheckedLoads c rt e p.world
  | none => []

/-! ## One load -/

theorem on_loadedValue_notes (checked : Bool) (name : String) (v : V) (fr : Frame V σ) :
    ((loadedValue rt checked name v).on fr).2.notes =
      fr.notes ++ noted name (if checked then false else decide (v = rt.deleted)) := by
  unfold loadedValue noted
  rw [Eval.on_of]
  cases checked with
  | true =>
    rw [if_neg fun h => Bool.noConfusion h.2]
    exact (List.append_nil _).symm
  | false =>
    by_cases h : v = rt.deleted
    · rw [if_pos ⟨h, rfl⟩]
      simp [h, Frame.note]
    · rw [if_neg fun h' => h h'.1]
      simp [h]

theorem on_loadCell_notes (checked : Bool) (name : String) (cell : V) (fr : Frame V σ) :
    ((loadCell rt checked name cell).on fr).2.notes =
      fr.notes ++ noted name (if checked then isEmpty (fr.heap.cell cell)
        else isUnboundCell rt (fr.heap.cell cell)) := by
  unfold loadCell
  rw [Eval.on_of]
  cases fr.heap.cell cell with
  | noCell => cases checked <;> exact (List.append_nil _).symm
  | empty => cases checked <;> rfl
  | holds v => exact on_loadedValue_notes rt checked name v fr

theorem on_rawLoad_notes (checked : Bool) (name : String) (fr : Frame V σ) :
    ((rawLoad c rt checked (.sourceName name)).on fr).2.notes =
      fr.notes ++ noted name (if checked then isEmptied fr (c.locate name)
        else isUnbound rt fr (c.locate name)) := by
  show ((readAt rt checked name (c.locate name)).on fr).2.notes = _
  cases c.locate name with
  | stackSlot slot => exact on_loadedValue_notes rt checked name (fr.stack slot) fr
  | ownedCell slot => exact on_loadCell_notes rt checked name (fr.stack slot) fr
  | closureCell index => exact on_loadCell_notes rt checked name (fr.closure index) fr
  | globalName => cases checked <;> exact (List.append_nil _).symm

omit [DecidableEq V] in
theorem on_bind_notes {α β : Type} (x : Eval V σ α) {f : α → Eval V σ β} (fr : Frame V σ)
    (hf : ∀ a fr', ((f a).on fr').2.notes = fr'.notes) :
    ((x >>= f).on fr).2.notes = (x.on fr).2.notes := by
  cases hr : x.on fr with
  | mk r fr' =>
    cases r with
    | error e => rw [Eval.on_bind_of_error hr]
    | ok a => rw [Eval.on_bind_of_ok hr, hf]

theorem on_checkDeleted_notes (name v : V) (fr : Frame V σ) :
    ((checkDeleted rt name v).on fr).2.notes = fr.notes := by
  unfold checkDeleted
  split <;> rfl

/-- **One load.** A load is noted exactly if it escapes. -/
theorem on_guardedLoad_notes (inStore checked : Bool) (name : UnresolvedName) (fr : Frame V σ) :
    ((guardedLoad c rt inStore checked name).on fr).2.notes =
      fr.notes ++ escaping c rt inStore checked name fr := by
  unfold guardedLoad
  cases name with
  | runtimeName name =>
    -- Whether checked or not, the value is a constant.
    rw [escaping, List.append_nil]
    cases inStore with
    | true => rfl
    | false =>
      cases c.loadCheck (.runtimeName name) with
      | none => rfl
      | some check =>
        cases check with
        | sentinel logicalName => rfl
        | loaded logicalName => exact on_bind_notes _ fr (on_checkDeleted_notes rt _)
  | sourceName name =>
    show _ = fr.notes ++ noted name (escapes c rt inStore checked name fr)
    unfold escapes
    cases inStore with
    | true => exact on_rawLoad_notes c rt checked name fr
    | false =>
      cases c.loadCheck (.sourceName name) with
      | none => exact on_rawLoad_notes c rt checked name fr
      | some check =>
        cases check with
        | sentinel logicalName => exact (List.append_nil _).symm
        | loaded logicalName =>
          exact (on_bind_notes _ fr (on_checkDeleted_notes rt _)).trans
            (on_rawLoad_notes c rt true name fr)

theorem escapingLoad_eq : escapingLoad c rt = guardedLoad c rt := by
  funext inStore checked name fr
  have hnotes := on_guardedLoad_notes c rt inStore checked name fr
  exact Prod.ext rfl <| congrArg
    (fun notes => { ((guardedLoad c rt inStore checked name).on fr).2 with notes }) hnotes.symm

/-! ## One step -/

theorem notes_eval (e : CoreBlockPyExpr) (fr : Frame V σ) :
    (((meaning c rt (guardedLoad c rt)).eval e fr).2).notes =
      fr.notes ++ uncheckedLoads c rt e fr := by
  have h := notes_evalInstr c rt (notes_guardedLoad c rt) false false e fr.unnoted fr.notes
  rw [Frame.after_unnoted] at h
  unfold uncheckedLoads
  rw [escapingLoad_eq]
  exact congrArg (fun r => (Prod.snd r).notes) h

/-- What has been noted at a move. -/
def moveNotes {I : Type} : Move I V (Frame V σ) (Heap V σ × List String) → List String
  | .on p => p.world.notes
  | .enter _ _ fr _ => fr.notes
  | .off final => final.left.2

variable {load : Loads V σ}

theorem moveNotes_throw (p : CallablePlace V σ) (x : V) (fr : Frame V σ)
    (log : List (Event CoreBlockPyExpr)) :
    moveNotes ((meaning c rt load).throw p x fr log) = fr.notes := by
  unfold Meaning.throw
  cases p.excEdge with
  | none => rfl
  | some edge => rfl

theorem moveNotes_proceed {α : Type} (p : CallablePlace V σ)
    (log : List (Event CoreBlockPyExpr))
    {next : α → Frame V σ → Move CoreBlockPyExpr V (Frame V σ) (Heap V σ × List String)}
    (hnext : ∀ a fr, moveNotes (next a fr) = fr.notes) (r : Except V α × Frame V σ) :
    moveNotes ((meaning c rt load).proceed p log next r) = r.2.notes := by
  obtain ⟨x | a, fr⟩ := r
  · exact moveNotes_throw c rt p x fr log
  · exact hnext a fr

theorem moveNotes_branch (p : CallablePlace V σ) (e : CoreBlockPyExpr)
    (log : List (Event CoreBlockPyExpr))
    {next : Bool → Frame V σ → Move CoreBlockPyExpr V (Frame V σ) (Heap V σ × List String)}
    (hnext : ∀ b fr, moveNotes (next b fr) = fr.notes) :
    moveNotes ((meaning c rt load).branch p e log next) =
      ((meaning c rt load).eval e p.world).2.notes :=
  moveNotes_proceed c rt p log (fun _ _ => moveNotes_proceed c rt p log hnext _) _

theorem moveNotes_raise (p : CallablePlace V σ) (exc : Option V) (fr : Frame V σ)
    (log : List (Event CoreBlockPyExpr)) :
    moveNotes ((meaning c rt load).raise p exc fr log) = fr.notes :=
  moveNotes_throw c rt p _ _ log

/-- **One step.** It notes the unchecked loads of the instruction that it evaluates. -/
theorem moveNotes_move (p : CallablePlace V σ) :
    moveNotes ((meaning c rt (guardedLoad c rt)).move p) =
      p.world.notes ++ placeLoads c rt p := by
  unfold Meaning.move placeLoads nextInstr
  cases hrest : p.rest with
  | cons stmt rest =>
    cases stmt with
    | expr e =>
      rw [← notes_eval c rt e p.world]
      exact moveNotes_proceed c rt p _ (fun _ _ => rfl) _
    | ifStmt test body bodyTerm orelse orelseTerm =>
      rw [← notes_eval c rt test p.world]
      refine moveNotes_branch c rt p test _ fun b fr => ?_
      cases b with
      | true => rfl
      | false => rfl
  | nil =>
    cases hterm : p.term with
    | jump edge =>
      show p.world.notes = p.world.notes ++ []
      rw [List.append_nil]
    | ifTerm test thenLabel elseLabel =>
      show _ = p.world.notes ++ uncheckedLoads c rt test p.world
      rw [← notes_eval c rt test p.world]
      exact moveNotes_branch c rt p test _ fun _ _ => rfl
    | branchTable index targets defaultLabel =>
      show _ = p.world.notes ++ uncheckedLoads c rt index p.world
      rw [← notes_eval c rt index p.world]
      exact moveNotes_proceed c rt p _
        (fun _ _ => moveNotes_proceed c rt p _ (fun _ _ => rfl) _) _
    | raiseTerm exc =>
      cases exc with
      | none =>
        refine (moveNotes_raise c rt p none p.world _).trans ?_
        show p.world.notes = p.world.notes ++ []
        rw [List.append_nil]
      | some exc =>
        show _ = p.world.notes ++ uncheckedLoads c rt exc p.world
        rw [← notes_eval c rt exc p.world]
        exact moveNotes_proceed c rt p _ (fun v fr => moveNotes_raise c rt p (some v) fr _) _
    | ret value =>
      show _ = p.world.notes ++ uncheckedLoads c rt value p.world
      rw [← notes_eval c rt value p.world]
      exact moveNotes_proceed c rt p _ (fun _ _ => rfl) _

/-- Entering a block notes nothing. -/
theorem notes_resolve (blocks : List (StructuredBlock CoreBlockPyExpr))
    (mv : Move CoreBlockPyExpr V (Frame V σ) (Heap V σ × List String)) :
    (∀ q, (meaning c rt load).resolve blocks mv = .inl q → q.world.notes = moveNotes mv) ∧
      ∀ r, (meaning c rt load).resolve blocks mv = .inr r → r.left.2 = moveNotes mv := by
  cases mv with
  | on p => exact ⟨fun q h => Sum.inl.inj h ▸ rfl, fun r h => (Sum.inl_ne_inr h).elim⟩
  | off final => exact ⟨fun q h => (Sum.inr_ne_inl h).elim, fun r h => Sum.inr.inj h ▸ rfl⟩
  | enter edge exc fr log =>
    cases hb : blockAt blocks edge.target with
    | none =>
      rw [Meaning.resolve_noBlock _ hb]
      exact ⟨fun q h => (Sum.inr_ne_inl h).elim, fun r h => Sum.inr.inj h ▸ rfl⟩
    | some b =>
      rw [Meaning.resolve_enter _ edge hb]
      exact ⟨fun q h => Sum.inl.inj h ▸ rfl, fun r h => (Sum.inl_ne_inr h).elim⟩

/-! ## Runs -/

omit [DecidableEq V] in
theorem loadCheck_of_nil (hdeleted : c.deletedNames = []) (hunbound : c.alwaysUnboundNames = [])
    (name : UnresolvedName) : c.loadCheck name = none := by
  have hcheck : ∀ name, c.checkOf name = none := by
    intro name
    unfold BoundCallable.checkOf
    rw [hdeleted, hunbound, if_neg List.not_mem_nil, if_neg List.not_mem_nil]
  have hraw : c.rawLoadCheck name = none := by
    unfold BoundCallable.rawLoadCheck
    rw [hcheck]
    cases name with
    | runtimeName name => rfl
    | sourceName name =>
      show (c.slotLogicalName name).bind c.checkOf = none
      rw [funext hcheck]
      cases c.slotLogicalName name with
      | none => rfl
      | some logicalName => rfl
  unfold BoundCallable.loadCheck
  rw [hdeleted, hunbound, hraw]
  cases logicalNameForCellBoundName c.scope name with
  | none => rfl
  | some logicalName => exact if_neg fun h => h.elim List.not_mem_nil List.not_mem_nil

/-- The checked instruction is evaluated like the instruction with guarded loads. -/
theorem evalInstr_checkLoads (e : CoreBlockPyExpr) :
    evalInstr c rt (rawLoads c rt) false false (c.checkLoads e) =
      evalInstr c rt (guardedLoad c rt) false false e := by
  unfold BoundCallable.checkLoads
  by_cases h : c.deletedNames = [] ∧ c.alwaysUnboundNames = []
  · have hload : guardedLoad c rt = rawLoads c rt := by
      funext inStore checked name
      unfold guardedLoad rawLoads
      rw [loadCheck_of_nil c h.1 h.2]
      exact ite_self _
    rw [if_pos h, hload]
    rfl
  · rw [if_neg h]
    exact evalInstr_rewrite c rt false false e

theorem meaning_comap :
    (meaning c rt (rawLoads c rt)).comap c.checkLoads = meaning c rt (guardedLoad c rt) := by
  have heval : (fun e (fr : Frame V σ) =>
      (evalInstr c rt (rawLoads c rt) false false (c.checkLoads e)).on fr) =
        fun e fr => (evalInstr c rt (guardedLoad c rt) false false e).on fr := by
    funext e fr
    rw [evalInstr_checkLoads]
  unfold Meaning.comap meaning
  simp only [heval]

omit [DecidableEq V] in
theorem entry_lowered (fr : Frame V σ) :
    entry c.lowered fr = (entry c.blocks fr).map (Place.mapInstr c.checkLoads) := by
  unfold entry BoundCallable.lowered
  rw [List.head?_map, Option.map_map, Option.map_map]
  refine congrArg (fun f => Option.map f c.blocks.head?) (funext fun b => ?_)
  show (⟨b.excEdge, (b.mapInstr c.checkLoads).structured.body, _, _, _⟩ : CallablePlace V σ) = _
  rw [structured_mapInstr]
  rfl

/-- The lowered callable takes the steps of the callable with guarded loads. -/
theorem step_lowered (p : CallablePlace V σ) :
    (callableRuns c rt (rawLoads c rt) c.lowered).step (p.mapInstr c.checkLoads) =
      ((callableRuns c rt (guardedLoad c rt) c.blocks).step p).map (Place.mapInstr c.checkLoads)
        (Final.mapInstr c.checkLoads) := by
  have hblocks : c.lowered.map Block.structured =
      (c.blocks.map Block.structured).map (StructuredBlock.mapInstr c.checkLoads) := by
    unfold BoundCallable.lowered
    rw [List.map_map, List.map_map]
    exact List.map_congr_left fun b _ => structured_mapInstr c.checkLoads b
  have hstep := (meaning c rt (rawLoads c rt)).step_mapInstr c.checkLoads
    (c.blocks.map Block.structured) p
  rw [meaning_comap, ← hblocks] at hstep
  exact hstep

theorem loadsRaise_iff_checked (names : String → Prop) (fr : Frame V σ) :
    LoadsRaise c rt names fr ↔ ∀ p, entry c.blocks fr = some p →
      (callableRuns c rt (guardedLoad c rt) c.blocks).GuardedFrom
        (fun q => ∀ name ∈ placeLoads c rt q, ¬names name) p := by
  have hwritten : ∀ p, entry c.blocks fr = some p →
      (((callableRuns c rt (guardedLoad c rt) c.blocks).GuardedFrom
        (fun q => ∀ name ∈ q.world.notes, ¬names name) p ∧
      ∀ r, (callableRuns c rt (guardedLoad c rt) c.blocks).Finishes p r →
        ∀ name ∈ r.left.2, ¬names name) ↔
          (callableRuns c rt (guardedLoad c rt) c.blocks).GuardedFrom
            (fun q => ∀ name ∈ placeLoads c rt q, ¬names name) p) := by
    intro p hp
    refine written_iff (fun q q' hq => ?_) (fun q r hq => ?_) fun name hname => ?_
    · exact ((notes_resolve c rt _ _).1 q' hq).trans (moveNotes_move c rt q)
    · exact ((notes_resolve c rt _ _).2 r hq).trans (moveNotes_move c rt q)
    · obtain ⟨b, -, rfl⟩ := Option.map_eq_some_iff.mp hp
      cases hname
  unfold LoadsRaise
  rw [entry_lowered]
  constructor
  · intro h p hp
    obtain ⟨hguard, hfinal⟩ := h (p.mapInstr c.checkLoads) (by rw [hp]; rfl)
    refine (hwritten p hp).mp ⟨?_, ?_⟩
    · exact (guardedFrom_map (step_lowered c rt) p).mp hguard
    · exact (forall_finishes_map (step_lowered c rt) p).mp hfinal
  · intro h p hp
    obtain ⟨q, hq, rfl⟩ := Option.map_eq_some_iff.mp hp
    obtain ⟨hguard, hfinal⟩ := (hwritten q hq).mpr (h q hq)
    exact ⟨(guardedFrom_map (step_lowered c rt) q).mpr hguard,
      (forall_finishes_map (step_lowered c rt) q).mpr hfinal⟩

end Runs

/-! ## A deleted name is assigned -/

/-- `x = "a"; del x; y = x` in a function. -/
def assignsDeleted : BoundCallable where
  scope :=
    { bindings := [⟨"x", .localName⟩, ⟨"y", .localName⟩].toAList
      cellStorageNames := ∅
      cellCaptureSourceNames := ∅
      ownedCellSourceNames := []
      scopeKind := .functionScope
      localDefs := ["x", "y"] }
  paramNames := []
  localSlots := [⟨"x", 0⟩, ⟨"y", 1⟩].toAList
  blocks :=
    [{ label := 0
       body := [.store (.sourceName "x") (.literal () (.stringLiteral "a")),
        .store (.sourceName "x") deletedSentinelExpr,
        .store (.sourceName "y") (.load (.sourceName "x"))]
       term := .ret (.load (.runtimeName "NONE"))
       params := []
       excEdge := none }]
  locate name :=
    if name = "x" then .stackSlot 0 else if name = "y" then .stackSlot 1 else .globalName

/-- Values are texts, and nothing raises. -/
def textRuntime : Runtime String Unit where
  literal
    | .stringLiteral value => value
    | _ => ""
  runtimeName name := name
  abruptKind _ := ""
  none := ""
  unboundLocalError name := "UnboundLocalError " ++ name
  emptyCellError := "UnboundLocalError"
  nullError := "SystemError"
  notCellError := "TypeError"
  operate _ _ heap := (.ok "", heap)
  truth _ heap := (.ok true, heap)
  index _ heap := (.ok 0, heap)
  raised exc heap := (exc.getD "", heap)

def unboundFrame : Frame String Unit where
  stack _ := textRuntime.deleted
  closure _ := ""
  heap := ⟨fun _ => .noCell, ()⟩
  notes := []

def noOthers : BoundCallable.Others := ⟨fun _ => False, fun _ => False⟩

end DietPython.Scopes
