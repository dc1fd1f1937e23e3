import DietPython.Blocks.Structured

/-!
# Rewritten instructions

A pass that rewrites instructions one by one and keeps the blocks runs like the blocks before it,
with each instruction evaluated as what it is rewritten to.
-/

namespace DietPython.Blocks

open Machines

section Maps

variable {I J V W H : Type} (f : I → J)

/-- `map_term` -/
def BlockTerm.mapInstr : BlockTerm I → BlockTerm J
  | .jump edge => .jump edge
  | .ifTerm test thenLabel elseLabel => .ifTerm (f test) thenLabel elseLabel
  | .branchTable index targets defaultLabel => .branchTable (f index) targets defaultLabel
  | .raiseTerm exc => .raiseTerm (exc.map f)
  | .ret value => .ret (f value)

def mapStmts : List (StructuredInstr I) → List (StructuredInstr J)
  | [] => []
  | .expr e :: rest => .expr (f e) :: mapStmts rest
  | .ifStmt test body bodyTerm orelse orelseTerm :: rest =>
    .ifStmt (f test) (mapStmts body) (bodyTerm.map (BlockTerm.mapInstr f)) (mapStmts orelse)
      (orelseTerm.map (BlockTerm.mapInstr f)) :: mapStmts rest

/-- `map_block` on basic blocks. -/
def Block.mapInstr (b : Block I I) : Block J J where
  label := b.label
  body := b.body.map f
  term := b.term.mapInstr f
  params := b.params
  excEdge := b.excEdge

def StructuredBlock.mapInstr (b : StructuredBlock I) : StructuredBlock J where
  label := b.label
  body := mapStmts f b.body
  term := b.term.mapInstr f
  params := b.params
  excEdge := b.excEdge

def Event.mapInstr : Event I → Event J
  | .stmt e => .stmt (f e)
  | .test e => .test (f e)
  | .index e => .index (f e)
  | .raiseTerm exc => .raiseTerm (exc.map f)
  | .ret e => .ret (f e)

def Place.mapInstr (p : Place I W) : Place J W where
  excEdge := p.excEdge
  rest := mapStmts f p.rest
  term := p.term.mapInstr f
  world := p.world
  log := p.log.map (Event.mapInstr f)

def Final.mapInstr (r : Final I V H) : Final J V H where
  ending := r.ending
  left := r.left
  log := r.log.map (Event.mapInstr f)

def Move.mapInstr : Move I V W H → Move J V W H
  | .on p => .on (p.mapInstr f)
  | .enter edge exc w log => .enter edge exc w (log.map (Event.mapInstr f))
  | .off final => .off (final.mapInstr f)

@[simp] theorem mapStmts_nil : mapStmts f [] = [] := by rw [mapStmts]

@[simp] theorem mapStmts_cons_expr (e : I) (rest : List (StructuredInstr I)) :
    mapStmts f (.expr e :: rest) = .expr (f e) :: mapStmts f rest := by rw [mapStmts]

@[simp] theorem mapStmts_cons_ifStmt (test : I) (body : List (StructuredInstr I))
    (bodyTerm : Option (BlockTerm I)) (orelse : List (StructuredInstr I))
    (orelseTerm : Option (BlockTerm I)) (rest : List (StructuredInstr I)) :
    mapStmts f (.ifStmt test body bodyTerm orelse orelseTerm :: rest) =
      .ifStmt (f test) (mapStmts f body) (bodyTerm.map (BlockTerm.mapInstr f)) (mapStmts f orelse)
        (orelseTerm.map (BlockTerm.mapInstr f)) :: mapStmts f rest := by rw [mapStmts]

theorem mapStmts_append (body rest : List (StructuredInstr I)) :
    mapStmts f (body ++ rest) = mapStmts f body ++ mapStmts f rest := by
  induction body with
  | nil =>
    rw [mapStmts_nil]
    rfl
  | cons stmt body ih =>
    rw [List.cons_append]
    cases stmt with
    | expr e => rw [mapStmts_cons_expr, mapStmts_cons_expr, ih, List.cons_append]
    | ifStmt test thenBody thenTerm orelse orelseTerm =>
      rw [mapStmts_cons_ifStmt, mapStmts_cons_ifStmt, ih, List.cons_append]

theorem mapStmts_expr (es : List I) : mapStmts f (es.map .expr) = (es.map f).map .expr := by
  induction es with
  | nil => exact mapStmts_nil f
  | cons e es ih => rw [List.map_cons, mapStmts_cons_expr, ih, List.map_cons, List.map_cons]

theorem structured_mapInstr (b : Block I I) :
    (b.mapInstr f).structured = StructuredBlock.mapInstr f b.structured := by
  unfold Block.structured StructuredBlock.mapInstr
  rw [mapStmts_expr]
  rfl

end Maps

/-! ## Runs -/

namespace Meaning

variable {I J V W H : Type} (m : Meaning J V W H) (f : I → J)

/-- Evaluates an instruction as what it is mapped to. -/
def comap : Meaning I V W H where
  eval e := m.eval (f e)
  truth := m.truth
  index := m.index
  raised := m.raised
  enter := m.enter
  left := m.left
  enter_nil := m.enter_nil
  left_enter := m.left_enter

section Moves

variable (p : Place I W) {log : List (Event I)} {log' : List (Event J)}
  (hlog : log.map (Event.mapInstr f) = log')

include hlog

theorem mapInstr_throw (x : V) (w : W) :
    ((m.comap f).throw p x w log).mapInstr f = m.throw (p.mapInstr f) x w log' := by
  subst hlog
  obtain ⟨excEdge, rest, term, world, log'⟩ := p
  cases excEdge with
  | none => rfl
  | some edge => rfl

theorem mapInstr_proceed {α : Type} {next : α → W → Move I V W H} {next' : α → W → Move J V W H}
    (hnext : ∀ a w, (next a w).mapInstr f = next' a w) (r : Except V α × W) :
    ((m.comap f).proceed p log next r).mapInstr f = m.proceed (p.mapInstr f) log' next' r := by
  obtain ⟨x | a, w⟩ := r
  · exact m.mapInstr_throw f p hlog x w
  · exact hnext a w

theorem mapInstr_evaluate (e : I) {next : V → W → Move I V W H} {next' : V → W → Move J V W H}
    (hnext : ∀ v w, (next v w).mapInstr f = next' v w) :
    ((m.comap f).evaluate p e log next).mapInstr f =
      m.evaluate (p.mapInstr f) (f e) log' next' :=
  m.mapInstr_proceed f p hlog hnext _

theorem mapInstr_branch (e : I) {next : Bool → W → Move I V W H}
    {next' : Bool → W → Move J V W H} (hnext : ∀ b w, (next b w).mapInstr f = next' b w) :
    ((m.comap f).branch p e log next).mapInstr f = m.branch (p.mapInstr f) (f e) log' next' :=
  m.mapInstr_evaluate f p hlog e fun _ _ => m.mapInstr_proceed f p hlog hnext _

omit hlog in
theorem mapInstr_terminate (term : BlockTerm I) :
    ((m.comap f).terminate p term).mapInstr f = m.terminate (p.mapInstr f) (term.mapInstr f) := by
  have hlog : ∀ event : Event I, (p.log ++ [event]).map (Event.mapInstr f) =
      (p.mapInstr f).log ++ [event.mapInstr f] := fun event => List.map_append
  cases term with
  | jump edge => rfl
  | ifTerm test thenLabel elseLabel =>
    exact m.mapInstr_branch f p (hlog (.test test)) test fun b w =>
      congrArg (goto (if b then thenLabel else elseLabel) w) (hlog (.test test))
  | branchTable index targets defaultLabel =>
    refine m.mapInstr_evaluate f p (hlog (.index index)) index fun v w => ?_
    refine m.mapInstr_proceed f p (hlog (.index index)) (fun i w => ?_) (m.index v w)
    exact congrArg (goto (targets.getD i defaultLabel) w) (hlog (.index index))
  | raiseTerm exc =>
    cases exc with
    | none => exact m.mapInstr_throw f p (hlog (.raiseTerm none)) _ _
    | some exc =>
      exact m.mapInstr_evaluate f p (hlog (.raiseTerm (some exc))) exc fun v w =>
        m.mapInstr_throw f p (hlog (.raiseTerm (some exc))) _ _
  | ret value =>
    exact m.mapInstr_evaluate f p (hlog (.ret value)) value fun v w =>
      congrArg (fun log => Move.off ⟨.ret v, m.left w, log⟩) (hlog (.ret value))

end Moves

theorem mapInstr_fragment (p : Place I W) (body : List (StructuredInstr I))
    (term : Option (BlockTerm I)) (rest : List (StructuredInstr I)) (w : W) (log : List (Event I)) :
    (fragment p body term rest w log).mapInstr f =
      fragment (p.mapInstr f) (mapStmts f body) (term.map (BlockTerm.mapInstr f)) (mapStmts f rest)
        w (log.map (Event.mapInstr f)) := by
  unfold fragment Place.mapInstr
  cases term with
  | none =>
    rw [followed, mapStmts_append]
    rfl
  | some term => rfl

theorem mapInstr_move (p : Place I W) :
    ((m.comap f).move p).mapInstr f = m.move (p.mapInstr f) := by
  obtain ⟨excEdge, rest, term, world, log⟩ := p
  have hlog : ∀ event : Event I, (log ++ [event]).map (Event.mapInstr f) =
      log.map (Event.mapInstr f) ++ [event.mapInstr f] := fun event => List.map_append
  cases rest with
  | nil =>
    have h := m.mapInstr_terminate f ⟨excEdge, [], term, world, log⟩ term
    unfold Place.mapInstr at h ⊢
    rw [mapStmts_nil] at h ⊢
    exact h
  | cons stmt rest =>
    cases stmt with
    | expr e =>
      have hp : Place.mapInstr f ⟨excEdge, .expr e :: rest, term, world, log⟩ =
          ⟨excEdge, .expr (f e) :: mapStmts f rest, term.mapInstr f, world,
            log.map (Event.mapInstr f)⟩ := by
        unfold Place.mapInstr
        rw [mapStmts_cons_expr]
      rw [hp]
      refine m.mapInstr_evaluate f ⟨excEdge, .expr e :: rest, term, world, log⟩
        (hlog (.stmt e)) e fun v w => ?_
      exact congrArg (fun log => Move.on ⟨excEdge, mapStmts f rest, term.mapInstr f, w, log⟩)
        (hlog (.stmt e))
    | ifStmt test body bodyTerm orelse orelseTerm =>
      have hp : Place.mapInstr f
          ⟨excEdge, .ifStmt test body bodyTerm orelse orelseTerm :: rest, term, world, log⟩ =
          ⟨excEdge, .ifStmt (f test) (mapStmts f body) (bodyTerm.map (BlockTerm.mapInstr f))
            (mapStmts f orelse) (orelseTerm.map (BlockTerm.mapInstr f)) :: mapStmts f rest,
            term.mapInstr f, world, log.map (Event.mapInstr f)⟩ := by
        unfold Place.mapInstr
        rw [mapStmts_cons_ifStmt]
      rw [hp]
      refine m.mapInstr_branch f
        ⟨excEdge, .ifStmt test body bodyTerm orelse orelseTerm :: rest, term, world, log⟩
        (hlog (.test test)) test fun b w => ?_
      have hfragment : ∀ (stmts : List (StructuredInstr I)) (stmtsTerm : Option (BlockTerm I)),
          (fragment ⟨excEdge, .ifStmt test body bodyTerm orelse orelseTerm :: rest, term, world,
            log⟩ stmts stmtsTerm rest w (log ++ [.test test])).mapInstr f = _ :=
        fun stmts stmtsTerm => mapInstr_fragment f _ stmts stmtsTerm rest w _
      rw [hlog] at hfragment
      cases b with
      | true => exact congrArg Move.on (hfragment body bodyTerm)
      | false => exact congrArg Move.on (hfragment orelse orelseTerm)

theorem mapInstr_resolve (blocks : List (StructuredBlock I)) (mv : Move I V W H) :
    m.resolve (blocks.map (StructuredBlock.mapInstr f)) (mv.mapInstr f) =
      ((m.comap f).resolve blocks mv).map (Place.mapInstr f) (Final.mapInstr f) := by
  cases mv with
  | on p => rfl
  | off final => rfl
  | enter edge exc w log =>
    have hat : blockAt (blocks.map (StructuredBlock.mapInstr f)) edge.target =
        (blockAt blocks edge.target).map (StructuredBlock.mapInstr f) :=
      blockAt_map (fun b => (rfl : (StructuredBlock.mapInstr f b).label = b.label)) blocks _
    show m.resolve _ (.enter edge exc w _) = _
    cases hb : blockAt blocks edge.target with
    | none =>
      rw [hb] at hat
      rw [m.resolve_noBlock hat, (m.comap f).resolve_noBlock hb]
      rfl
    | some b =>
      rw [hb] at hat
      rw [m.resolve_enter edge hat, (m.comap f).resolve_enter edge hb]
      rfl

/-- **Rewritten blocks.** A step in them is a step in the blocks before. -/
theorem step_mapInstr (blocks : List (StructuredBlock I)) (p : Place I W) :
    (m.runs (blocks.map (StructuredBlock.mapInstr f))).step (p.mapInstr f) =
      (((m.comap f).runs blocks).step p).map (Place.mapInstr f) (Final.mapInstr f) := by
  show m.resolve _ (m.move (p.mapInstr f)) = _
  rw [← m.mapInstr_move f p]
  exact m.mapInstr_resolve f blocks _

end Meaning

end DietPython.Blocks
