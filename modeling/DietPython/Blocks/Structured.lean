import DietPython.Blocks.Basic
import DietPython.Lib.Machine

/-!
# Structured blocks and their runs

A body may hold nested conditionals whose branches are fragments: statements and, if the fragment
does not fall through, a terminator. A run evaluates instructions in a world that the meaning of the
language changes, enters blocks with the arguments of edges, and writes down what it executes.
-/

namespace DietPython.Blocks

open Machines

/-- A statement: an instruction, or a conditional with the statements and the terminator of each of
its two fragments. -/
inductive StructuredInstr (I : Type)
  | expr (e : I)
  | ifStmt (test : I) (body : List (StructuredInstr I)) (bodyTerm : Option (BlockTerm I))
      (orelse : List (StructuredInstr I)) (orelseTerm : Option (BlockTerm I))

abbrev StructuredBlock (I : Type) := Block (StructuredInstr I) I

/-- A basic block among structured ones. -/
def Block.structured {I : Type} (b : Block I I) : StructuredBlock I where
  label := b.label
  body := b.body.map .expr
  term := b.term
  params := b.params
  excEdge := b.excEdge

section Labels

variable {I : Type}

/-- The labels in a terminator. -/
def BlockTerm.labels (term : BlockTerm I) : List BlockLabel := term.targets?.getD []

/-- The target that an index chooses. -/
theorem BlockTerm.getD_mem_labels (index : I) (targets : List BlockLabel)
    (defaultLabel : BlockLabel) (i : ℕ) :
    targets.getD i defaultLabel ∈ (BlockTerm.branchTable index targets defaultLabel).labels := by
  show targets.getD i defaultLabel ∈ targets ++ [defaultLabel]
  rw [List.getD_eq_getElem?_getD]
  cases hi : targets[i]? with
  | some target => exact List.mem_append_left _ (List.mem_of_getElem? hi)
  | none => exact List.mem_append_right _ (List.mem_singleton_self _)

/-- The labels in the terminators of fragments. -/
def nestedLabels : List (StructuredInstr I) → List BlockLabel
  | [] => []
  | .expr _ :: rest => nestedLabels rest
  | .ifStmt _ body bodyTerm orelse orelseTerm :: rest =>
    (nestedLabels body ++ (bodyTerm.map BlockTerm.labels).getD []) ++
      (nestedLabels orelse ++ (orelseTerm.map BlockTerm.labels).getD []) ++ nestedLabels rest

/-- The terminator with other labels. -/
def BlockTerm.mapLabels (f : BlockLabel → BlockLabel) : BlockTerm I → BlockTerm I
  | .jump edge => .jump { edge with target := f edge.target }
  | .ifTerm test thenLabel elseLabel => .ifTerm test (f thenLabel) (f elseLabel)
  | .branchTable index targets defaultLabel =>
    .branchTable index (targets.map f) (f defaultLabel)
  | .raiseTerm exc => .raiseTerm exc
  | .ret value => .ret value

theorem BlockTerm.mapLabels_id (term : BlockTerm I) : term.mapLabels id = term := by
  cases term with
  | branchTable index targets defaultLabel =>
    rw [BlockTerm.mapLabels, List.map_id]
    rfl
  | _ => rfl

/-- The labels that a block mentions. -/
def Block.mentions (b : StructuredBlock I) : List BlockLabel :=
  nestedLabels b.body ++ b.term.labels ++ (b.excEdge.map BlockEdge.target).toList

theorem nestedLabels_append (body rest : List (StructuredInstr I)) :
    nestedLabels (body ++ rest) = nestedLabels body ++ nestedLabels rest := by
  induction body with
  | nil =>
    rw [nestedLabels]
    rfl
  | cons stmt body ih =>
    rw [List.cons_append]
    cases stmt with
    | expr e => rw [nestedLabels, nestedLabels, ih]
    | ifStmt test thenBody thenTerm orelse orelseTerm =>
      rw [nestedLabels, nestedLabels, ih]
      simp only [List.append_assoc]

end Labels

/-! ## Meanings -/

/-- What instructions do to a world, and what entering a block does. Values are also the exceptions,
and `H` is what a callable leaves behind when it ends. -/
structure Meaning (I V W H : Type) where
  eval : I → W → Except V V × W
  truth : V → W → Except V Bool × W
  index : V → W → Except V ℕ × W
  /-- The exception that a `raise` raises. -/
  raised : Option V → W → V × W
  /-- A block is entered with arguments, from a handler's edge with the exception. -/
  enter : List BlockParam → List BlockArg → Option V → W → W
  left : W → H
  /-- Parameters without an argument keep their values. -/
  enter_nil : ∀ params w, enter params [] none w = w
  /-- Parameters are gone when the callable ends. -/
  left_enter : ∀ params args exc w, left (enter params args exc w) = left w

/-- What a run executes. -/
inductive Event (I : Type)
  | stmt (e : I)
  | test (e : I)
  | index (e : I)
  | raiseTerm (exc : Option I)
  | ret (e : I)

inductive Ending (V : Type)
  | ret (v : V)
  | raised (v : V)
  | noBlock (label : BlockLabel)

structure Final (I V H : Type) where
  ending : Ending V
  left : H
  log : List (Event I)

/-- A place in a block: the statements and the terminator that are left. -/
structure Place (I W : Type) where
  excEdge : Option BlockEdge
  rest : List (StructuredInstr I)
  term : BlockTerm I
  world : W
  log : List (Event I)

/-- The labels that control may go to. -/
def Place.labels {I W : Type} (p : Place I W) : List BlockLabel :=
  nestedLabels p.rest ++ p.term.labels ++ (p.excEdge.map BlockEdge.target).toList

/-- What happens at a place. -/
inductive Move (I V W H : Type)
  | on (p : Place I W)
  | enter (edge : BlockEdge) (exc : Option V) (world : W) (log : List (Event I))
  | off (final : Final I V H)

/-- What has been written after a move. -/
def Move.log {I V W H : Type} : Move I V W H → List (Event I)
  | .on p => p.log
  | .enter _ _ _ log => log
  | .off final => final.log

namespace Meaning

variable {I V W H : Type} (m : Meaning I V W H)

/-- An exception goes to the handler of the block. -/
def throw (p : Place I W) (x : V) (w : W) (log : List (Event I)) : Move I V W H :=
  match p.excEdge with
  | some edge => .enter edge (some x) w log
  | none => .off ⟨.raised x, m.left w, log⟩

/-- Goes on with an answer, unless it is an exception. -/
def proceed {α : Type} (p : Place I W) (log : List (Event I)) (next : α → W → Move I V W H) :
    Except V α × W → Move I V W H
  | (.ok a, w) => next a w
  | (.error x, w) => m.throw p x w log

/-- Evaluates an instruction. -/
def evaluate (p : Place I W) (e : I) (log : List (Event I)) (next : V → W → Move I V W H) :
    Move I V W H :=
  m.proceed p log next (m.eval e p.world)

/-- Evaluates a test. -/
def branch (p : Place I W) (e : I) (log : List (Event I)) (next : Bool → W → Move I V W H) :
    Move I V W H :=
  m.evaluate p e log fun v w => m.proceed p log next (m.truth v w)

/-- Goes to a block without arguments. -/
def goto (label : BlockLabel) (w : W) (log : List (Event I)) : Move I V W H :=
  .enter (BlockEdge.new label) none w log

def raise (p : Place I W) (exc : Option V) (w : W) (log : List (Event I)) : Move I V W H :=
  m.throw p (m.raised exc w).1 (m.raised exc w).2 log

def terminate (p : Place I W) : BlockTerm I → Move I V W H
  | .jump edge => .enter edge none p.world p.log
  | .ifTerm test thenLabel elseLabel =>
    let log := p.log ++ [.test test]
    m.branch p test log fun b w => goto (if b then thenLabel else elseLabel) w log
  | .branchTable index targets defaultLabel =>
    let log := p.log ++ [.index index]
    m.evaluate p index log fun v w =>
      m.proceed p log (fun i w => goto (targets.getD i defaultLabel) w log) (m.index v w)
  | .raiseTerm none => m.raise p none p.world (p.log ++ [.raiseTerm none])
  | .raiseTerm (some exc) =>
    let log := p.log ++ [.raiseTerm (some exc)]
    m.evaluate p exc log fun v w => m.raise p (some v) w log
  | .ret value =>
    let log := p.log ++ [.ret value]
    m.evaluate p value log fun v w => .off ⟨.ret v, m.left w, log⟩

/-- The statements of a fragment that is chosen: without a terminator the rest follows. -/
def followed (body : List (StructuredInstr I)) (term : Option (BlockTerm I))
    (rest : List (StructuredInstr I)) : List (StructuredInstr I) :=
  match term with
  | some _ => body
  | none => body ++ rest

def fragment (p : Place I W) (body : List (StructuredInstr I)) (term : Option (BlockTerm I))
    (rest : List (StructuredInstr I)) (w : W) (log : List (Event I)) : Place I W :=
  ⟨p.excEdge, followed body term rest, term.getD p.term, w, log⟩

/-- The labels of a fragment that is chosen are those of the place. -/
theorem fragment_labels (p : Place I W) (body : List (StructuredInstr I))
    (term : Option (BlockTerm I)) (rest : List (StructuredInstr I)) (w : W) (log : List (Event I))
    {l : BlockLabel} (hl : l ∈ (fragment p body term rest w log).labels) :
    l ∈ nestedLabels body ++ (term.map BlockTerm.labels).getD [] ∨
      l ∈ nestedLabels rest ++ p.term.labels ++ (p.excEdge.map BlockEdge.target).toList := by
  unfold fragment Place.labels at hl
  cases term with
  | some term =>
    rcases List.mem_append.mp hl with hl | hl
    · exact .inl hl
    · exact .inr (List.mem_append_right _ hl)
  | none =>
    rw [followed, nestedLabels_append, List.append_assoc, List.append_assoc] at hl
    rcases List.mem_append.mp hl with hl | hl
    · exact .inl (List.mem_append_left _ hl)
    · rw [← List.append_assoc] at hl
      exact .inr hl

def move (p : Place I W) : Move I V W H :=
  match p.rest with
  | [] => m.terminate p p.term
  | .expr e :: rest =>
    let log := p.log ++ [.stmt e]
    m.evaluate p e log fun _ w => .on ⟨p.excEdge, rest, p.term, w, log⟩
  | .ifStmt test body bodyTerm orelse orelseTerm :: rest =>
    let log := p.log ++ [.test test]
    m.branch p test log fun b w =>
      .on (if b then fragment p body bodyTerm rest w log
        else fragment p orelse orelseTerm rest w log)

/-- The start of a block. -/
def start (b : StructuredBlock I) (args : List BlockArg) (exc : Option V) (w : W)
    (log : List (Event I)) : Place I W :=
  ⟨b.excEdge, b.body, b.term, m.enter b.params args exc w, log⟩

/-- A move in a list of blocks. -/
def resolve (blocks : List (StructuredBlock I)) : Move I V W H → Place I W ⊕ Final I V H
  | .on p => .inl p
  | .enter edge exc w log =>
    match blockAt blocks edge.target with
    | some b => .inl (m.start b edge.args exc w log)
    | none => .inr ⟨.noBlock edge.target, m.left w, log⟩
  | .off final => .inr final

theorem resolve_enter {blocks : List (StructuredBlock I)} {b : StructuredBlock I} (edge : BlockEdge)
    (hb : blockAt blocks edge.target = some b) (exc : Option V) (w : W) (log : List (Event I)) :
    m.resolve blocks (.enter edge exc w log) = .inl (m.start b edge.args exc w log) := by
  rw [resolve, hb]

theorem resolve_noBlock {blocks : List (StructuredBlock I)} {edge : BlockEdge}
    (hb : blockAt blocks edge.target = none) (exc : Option V) (w : W) (log : List (Event I)) :
    m.resolve blocks (.enter edge exc w log) =
      .inr ⟨.noBlock edge.target, m.left w, log⟩ := by
  rw [resolve, hb]

/-- A block that is entered without arguments starts in the same world. -/
theorem resolve_goto {blocks : List (StructuredBlock I)} {label : BlockLabel}
    {b : StructuredBlock I} (hb : blockAt blocks label = some b) (w : W) (log : List (Event I)) :
    m.resolve blocks (goto label w log) = .inl ⟨b.excEdge, b.body, b.term, w, log⟩ := by
  have hstart := m.resolve_enter (BlockEdge.new label) hb none w log
  rw [start, show (BlockEdge.new label).args = [] from rfl, m.enter_nil] at hstart
  exact hstart

/-- The runs of a list of blocks. -/
def runs (blocks : List (StructuredBlock I)) : Machine (Place I W) (Final I V H) :=
  ⟨fun p => m.resolve blocks (m.move p)⟩

/-! ## Moves that correspond -/

section Correspond

variable {m} {C : Move I V W H → Move I V W H → Prop} {p q : Place I W}
  (hthrow : ∀ x w log, C (m.throw p x w log) (m.throw q x w log))

include hthrow

theorem proceed_rel {α : Type} {log : List (Event I)} {next next' : α → W → Move I V W H}
    (hnext : ∀ a w, C (next a w) (next' a w)) (r : Except V α × W) :
    C (m.proceed p log next r) (m.proceed q log next' r) := by
  obtain ⟨x | a, w⟩ := r
  · exact hthrow x w log
  · exact hnext a w

theorem evaluate_rel {log : List (Event I)} {next next' : V → W → Move I V W H}
    (hworld : q.world = p.world) (e : I) (hnext : ∀ v w, C (next v w) (next' v w)) :
    C (m.evaluate p e log next) (m.evaluate q e log next') := by
  unfold evaluate
  rw [hworld]
  exact proceed_rel hthrow hnext _

theorem branch_rel {log : List (Event I)} {next next' : Bool → W → Move I V W H}
    (hworld : q.world = p.world) (e : I) (hnext : ∀ b w, C (next b w) (next' b w)) :
    C (m.branch p e log next) (m.branch q e log next') :=
  evaluate_rel hthrow hworld e fun _ _ => proceed_rel hthrow hnext _

/-- Terminators that are alike but for the labels. -/
theorem terminate_rel (hworld : q.world = p.world) (hlog : q.log = p.log)
    (f : BlockLabel → BlockLabel) (term : BlockTerm I) (hoff : ∀ r, C (.off r) (.off r))
    (henter : ∀ edge w log, edge.target ∈ term.labels →
      C (.enter edge none w log) (.enter { edge with target := f edge.target } none w log)) :
    C (m.terminate p term) (m.terminate q (term.mapLabels f)) := by
  cases term with
  | jump edge =>
    show C (.enter edge none p.world p.log) (.enter _ none q.world q.log)
    rw [hworld, hlog]
    exact henter edge _ _ (List.mem_singleton_self _)
  | ifTerm test thenLabel elseLabel =>
    show C (m.branch p test _ _) (m.branch q test _ _)
    rw [hlog]
    refine branch_rel hthrow hworld test fun b w => ?_
    cases b with
    | true => exact henter (BlockEdge.new thenLabel) w _ List.mem_cons_self
    | false =>
      exact henter (BlockEdge.new elseLabel) w _
        (List.mem_cons_of_mem _ (List.mem_singleton_self _))
  | branchTable index targets defaultLabel =>
    show C (m.evaluate p index _ _) (m.evaluate q index _ _)
    rw [hlog]
    refine evaluate_rel hthrow hworld index fun v w => ?_
    refine proceed_rel hthrow (fun i w => ?_) _
    have htarget : (targets.map f).getD i (f defaultLabel) = f (targets.getD i defaultLabel) := by
      rw [List.getD_eq_getElem?_getD, List.getD_eq_getElem?_getD, List.getElem?_map,
        Option.getD_map]
    rw [htarget]
    exact henter (BlockEdge.new (targets.getD i defaultLabel)) w _
      (BlockTerm.getD_mem_labels index targets defaultLabel i)
  | raiseTerm exc =>
    cases exc with
    | none =>
      show C (m.raise p none p.world _) (m.raise q none q.world _)
      rw [hlog, hworld]
      exact hthrow _ _ _
    | some exc =>
      show C (m.evaluate p exc _ _) (m.evaluate q exc _ _)
      rw [hlog]
      exact evaluate_rel hthrow hworld exc fun _ _ => hthrow _ _ _
  | ret value =>
    show C (m.evaluate p value _ _) (m.evaluate q value _ _)
    rw [hlog]
    exact evaluate_rel hthrow hworld value fun _ _ => hoff _

end Correspond

/-! ## Logs -/

section Logs

variable {p : Place I W} {log : List (Event I)}

@[simp] theorem throw_log (p : Place I W) (x : V) (w : W) (log : List (Event I)) :
    (m.throw p x w log).log = log := by
  unfold throw
  cases p.excEdge <;> rfl

theorem proceed_log {α : Type} {next : α → W → Move I V W H} (hlog : p.log <+: log)
    (hnext : ∀ a w, p.log <+: (next a w).log) (r : Except V α × W) :
    p.log <+: (m.proceed p log next r).log := by
  obtain ⟨x | a, w⟩ := r
  · show p.log <+: (m.throw p x w log).log
    rw [throw_log]
    exact hlog
  · exact hnext a w

theorem evaluate_log {next : V → W → Move I V W H} (hlog : p.log <+: log) (e : I)
    (hnext : ∀ v w, p.log <+: (next v w).log) : p.log <+: (m.evaluate p e log next).log :=
  m.proceed_log hlog hnext _

theorem branch_log {next : Bool → W → Move I V W H} (hlog : p.log <+: log) (e : I)
    (hnext : ∀ b w, p.log <+: (next b w).log) : p.log <+: (m.branch p e log next).log :=
  m.evaluate_log hlog e fun _ _ => m.proceed_log hlog hnext _

theorem terminate_log (p : Place I W) (term : BlockTerm I) :
    p.log <+: (m.terminate p term).log := by
  have hevent : ∀ event, p.log <+: p.log ++ [event] := fun event => List.prefix_append _ _
  cases term with
  | jump edge => exact List.prefix_refl _
  | ifTerm test thenLabel elseLabel => exact m.branch_log (hevent _) test fun _ _ => hevent _
  | branchTable index targets defaultLabel =>
    refine m.evaluate_log (hevent _) index fun v w => ?_
    refine m.proceed_log (hevent _) (fun i w => ?_) _
    exact hevent (.index index)
  | raiseTerm exc =>
    cases exc with
    | none =>
      show p.log <+: (m.throw p _ _ _).log
      rw [throw_log]
      exact hevent _
    | some exc =>
      refine m.evaluate_log (hevent _) exc fun v w => ?_
      show p.log <+: (m.throw p _ _ _).log
      rw [throw_log]
      exact hevent _
  | ret value => exact m.evaluate_log (hevent _) value fun _ _ => hevent _

theorem move_log (p : Place I W) : p.log <+: (m.move p).log := by
  have hevent : ∀ event, p.log <+: p.log ++ [event] := fun event => List.prefix_append _ _
  unfold move
  split
  · exact m.terminate_log p p.term
  · exact m.evaluate_log (hevent _) _ fun _ _ => hevent _
  · refine m.branch_log (hevent _) _ fun b w => ?_
    cases b with
    | true => exact hevent _
    | false => exact hevent _

theorem runs_appends (blocks : List (StructuredBlock I)) :
    (m.runs blocks).Appends Place.log Final.log := by
  have hon : ∀ (mv : Move I V W H) p, m.resolve blocks mv = .inl p → p.log = mv.log := by
    intro mv p h
    cases mv with
    | on q =>
      cases h
      rfl
    | enter edge exc w log =>
      rw [resolve] at h
      cases hb : blockAt blocks edge.target with
      | some b =>
        rw [hb] at h
        cases h
        rfl
      | none =>
        rw [hb] at h
        cases h
    | off final => cases h
  have hoff : ∀ (mv : Move I V W H) r, m.resolve blocks mv = .inr r → r.log = mv.log := by
    intro mv r h
    cases mv with
    | on q => cases h
    | enter edge exc w log =>
      rw [resolve] at h
      cases hb : blockAt blocks edge.target with
      | some b =>
        rw [hb] at h
        cases h
      | none =>
        rw [hb] at h
        cases h
        rfl
    | off final =>
      cases h
      rfl
  refine ⟨fun p q h => ?_, fun p r h => ?_⟩
  · rw [hon (m.move p) q h]
    exact m.move_log p
  · rw [hoff (m.move p) r h]
    exact m.move_log p

end Logs

/-- Two lists of blocks do the same from two of their blocks: they end alike, and in runs that never
end as well they execute the same. -/
structure SameBehaviour (blocks blocks' : List (StructuredBlock I)) (b b' : StructuredBlock I) :
    Prop where
  runs : ∀ args exc w,
    (m.runs blocks).SameRuns (m.runs blocks') (m.start b args exc w []) (m.start b' args exc w [])
  writes : ∀ args exc w l,
    (m.runs blocks).Writes Place.log Final.log (m.start b args exc w []) l ↔
      (m.runs blocks').Writes Place.log Final.log (m.start b' args exc w []) l

end Meaning

end DietPython.Blocks
