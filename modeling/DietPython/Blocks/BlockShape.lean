import DietPython.Blocks.LinearRuns

/-!
# Basic blocks

All blocks of a callable are linearised, statements become instructions, and every block that is
split off gets the exception target and the parameters of the block it comes from.
-/

namespace DietPython.Blocks

open Machines Machine Meaning

variable {I V W H : Type}

/-! ## All blocks -/

/-- The blocks `part` that one block is split into, in the output `out`. -/
structure IsPart (o : Origin) (out : Linearized I) (b : StructuredBlock I)
    (part : List (StructuredBlock I)) : Prop where
  head : (labels part).head? = some b.label
  plain : ∀ c ∈ part, ∀ stmt ∈ c.body, ∃ e, stmt = .expr e
  excEdge : ∀ c ∈ part, c.excEdge = b.excEdge
  params : ∀ c ∈ part, c.params = b.params
  blockParams : ∀ l ∈ labels part, out.blockParams.lookup l = some o.blockParams
  excTarget : ∀ l ∈ labels part, out.exceptionEdges.lookup l = some o.excTarget

/-- What a list of blocks is split into: new labels are different and not in use. -/
structure Linearizes (origin : StructuredBlock I → Origin) (blocks : List (StructuredBlock I))
    (out out' : Linearized I) (parts : List (List (StructuredBlock I))) : Prop where
  blocks_eq : out'.blocks = out.blocks ++ parts.flatten
  le : out.nextBlock ≤ out'.nextBlock
  nodup : (labels parts.flatten).Nodup
  fresh : ∀ l : ℕ, l ∈ labels parts.flatten →
    l ∈ labels blocks ∨ out.nextBlock ≤ l ∧ l < out'.nextBlock
  each : List.Forall₂ (fun b part => IsPart (origin b) out' b part) blocks parts
  blockParams_old : ∀ l : ℕ, l ∉ labels parts.flatten →
    out'.blockParams.lookup l = out.blockParams.lookup l
  exceptionEdges_old : ∀ l : ℕ, l ∉ labels parts.flatten →
    out'.exceptionEdges.lookup l = out.exceptionEdges.lookup l

section All

variable {blockParams : List (BlockLabel × List String)}
  {exceptionEdges : List (BlockLabel × Option BlockLabel)}

/-- An entry that was put in last for some labels. -/
theorem lookup_entries {α : Type} (part : List (StructuredBlock I)) (a : α)
    (old : List (BlockLabel × α)) (l : BlockLabel) :
    ((part.map fun b => (b.label, a)).reverse ++ old).lookup l =
      if l ∈ labels part then some a else old.lookup l := by
  induction part generalizing old with
  | nil => rfl
  | cons b part ih =>
    rw [List.map_cons, List.reverse_cons, List.append_assoc, List.singleton_append, ih]
    unfold labels
    rw [List.map_cons]
    by_cases hl : l ∈ part.map Block.label
    · rw [if_pos hl, if_pos (List.mem_cons_of_mem _ hl)]
    · rw [if_neg hl]
      by_cases heq : l = b.label
      · rw [if_pos (List.mem_cons.mpr (.inl heq)), heq, List.lookup_cons_self]
      · rw [if_neg (by simp [heq, hl]), List.lookup_cons]
        have hbeq : (l == b.label) = false := beq_eq_false_iff_ne.mpr heq
        rw [hbeq]

/-- All parameters of a block are in the list of names that it is linearised with. -/
theorem paramsForLinearizedNames_eq (b : StructuredBlock I) (given : List String) :
    paramsForLinearizedNames (linearizedParams b given) b.params = b.params := by
  refine List.filter_eq_self.mpr fun param hparam => ?_
  refine List.any_eq_true.mpr ⟨param.name, mem_foldl_pushName (.inr ?_), beq_iff_eq.mpr rfl⟩
  exact List.mem_map.mpr ⟨param, b.mem_bbParams.mpr hparam, rfl⟩

theorem linearizes_of_foldl (blocks : List (StructuredBlock I)) (out : Linearized I)
    (hnodup : (labels blocks).Nodup) (hlt : ∀ l : ℕ, l ∈ labels blocks → l < out.nextBlock) :
    ∃ parts, Linearizes (originOf blockParams exceptionEdges) blocks out
      (blocks.foldl (linearizeBlock blockParams exceptionEdges) out) parts := by
  induction blocks generalizing out with
  | nil =>
    exact ⟨[], (List.append_nil _).symm, Nat.le_refl _, List.nodup_nil,
      fun l hl => absurd hl List.not_mem_nil,
      .nil, fun _ _ => rfl, fun _ _ => rfl⟩
  | cons b blocks ih =>
    obtain ⟨hnot, hnodup⟩ := List.nodup_cons.mp hnodup
    obtain ⟨part, hpart⟩ := linearize_splits (originOf blockParams exceptionEdges b) b.body b.label
      [] b.term out (hlt b.label List.mem_cons_self) fun stmt h => by cases h
    have hle := hpart.le
    obtain ⟨parts, hparts⟩ := ih (linearizeBlock blockParams exceptionEdges out b) hnodup
      fun l hl => Nat.lt_of_lt_of_le (hlt l (List.mem_cons_of_mem _ hl)) hle
    have hle' := hparts.le
    -- the blocks of `b` have other labels than those of the other blocks
    have hdisjoint : ∀ l : ℕ, l ∈ labels part → l ∉ labels parts.flatten := by
      intro l hl hl'
      have hlt' := hlt l
      rcases hpart.fresh l hl with rfl | ⟨hlo, hhi⟩
      · rcases hparts.fresh _ hl' with hmem | ⟨hlo', -⟩
        · exact hnot hmem
        · have hlt := hlt b.label List.mem_cons_self
          unfold linearizeBlock at hlo'
          omega
      · rcases hparts.fresh l hl' with hmem | ⟨hlo', -⟩
        · have := hlt l (List.mem_cons_of_mem _ hmem)
          omega
        · unfold linearizeBlock at hlo'
          omega
    have hflat : labels (part :: parts).flatten = labels part ++ labels parts.flatten := by
      rw [List.flatten_cons, labels_append]
    have hexc : ∀ l : ℕ, l ∉ labels parts.flatten →
        (blocks.foldl (linearizeBlock blockParams exceptionEdges)
          (linearizeBlock blockParams exceptionEdges out b)).exceptionEdges.lookup l =
        if l ∈ labels part then some (originOf blockParams exceptionEdges b).excTarget
        else out.exceptionEdges.lookup l := by
      intro l hl
      rw [hparts.exceptionEdges_old l hl, linearizeBlock, hpart.exceptionEdges, lookup_entries]
    have hnames : ∀ l : ℕ, l ∉ labels parts.flatten →
        (blocks.foldl (linearizeBlock blockParams exceptionEdges)
          (linearizeBlock blockParams exceptionEdges out b)).blockParams.lookup l =
        if l ∈ labels part then some (originOf blockParams exceptionEdges b).blockParams
        else out.blockParams.lookup l := by
      intro l hl
      rw [hparts.blockParams_old l hl, linearizeBlock, hpart.blockParams, lookup_entries]
    have hnew : ∀ l : ℕ, l ∉ labels (part :: parts).flatten →
        l ∉ labels part ∧ l ∉ labels parts.flatten := by
      intro l hl
      rw [hflat] at hl
      exact ⟨fun h => hl (List.mem_append_left _ h), fun h => hl (List.mem_append_right _ h)⟩
    refine ⟨part :: parts, ?_, Nat.le_trans hle hle', ?_, fun l hl => ?_, .cons ?_ hparts.each,
      fun l hl => ?_, fun l hl => ?_⟩
    · rw [List.foldl_cons, hparts.blocks_eq, linearizeBlock, hpart.blocks, List.flatten_cons,
        List.append_assoc]
    · rw [hflat]
      refine List.nodup_append.mpr ⟨hpart.nodup, hparts.nodup, ?_⟩
      rintro l hl _ hl' rfl
      exact hdisjoint l hl hl'
    · rw [hflat] at hl
      rw [List.foldl_cons]
      rcases List.mem_append.mp hl with hl | hl
      · rcases hpart.fresh l hl with rfl | ⟨hlo, hhi⟩
        · exact .inl List.mem_cons_self
        · exact .inr ⟨hlo, Nat.lt_of_lt_of_le hhi hle'⟩
      · rcases hparts.fresh l hl with hmem | ⟨hlo, hhi⟩
        · exact .inl (List.mem_cons_of_mem _ hmem)
        · exact .inr ⟨Nat.le_trans hle hlo, hhi⟩
    · refine ⟨hpart.head, hpart.plain, fun c hc => (hpart.alike c hc).1, fun c hc => ?_,
        fun l hl => ?_, fun l hl => ?_⟩
      · rw [(hpart.alike c hc).2]
        exact paramsForLinearizedNames_eq b _
      · rw [List.foldl_cons, hnames l (hdisjoint l hl), if_pos hl]
      · rw [List.foldl_cons, hexc l (hdisjoint l hl), if_pos hl]
    · rw [List.foldl_cons, hnames l (hnew l hl).2, if_neg (hnew l hl).1]
    · rw [List.foldl_cons, hexc l (hnew l hl).2, if_neg (hnew l hl).1]

theorem stands_of_foldl {linear : List (StructuredBlock I)} (blocks : List (StructuredBlock I))
    (out : Linearized I)
    (hfind : ∀ c ∈ (blocks.foldl (linearizeBlock blockParams exceptionEdges) out).blocks,
      blockAt linear c.label = some c) {b : StructuredBlock I} (hb : b ∈ blocks) :
    StandsAt linear (originOf blockParams exceptionEdges b) b.label [] b.body b.term := by
  have hmono : ∀ (blocks : List (StructuredBlock I)) (out : Linearized I),
      out.blocks ⊆ (blocks.foldl (linearizeBlock blockParams exceptionEdges) out).blocks := by
    intro blocks
    induction blocks with
    | nil => exact fun out => List.Subset.refl _
    | cons b blocks ih => exact fun out => List.Subset.trans (linearize_mono _ _ _ _ _ _) (ih _)
  induction blocks generalizing out with
  | nil => cases hb
  | cons c blocks ih =>
    rw [List.foldl_cons] at hfind
    rcases List.mem_cons.mp hb with rfl | hb
    · have hstands := linearize_stands (originOf blockParams exceptionEdges b) b.body b.label []
        b.term out (fun c hc => hfind c (hmono blocks _ hc)) (Stands.done b.term)
      rw [List.append_nil] at hstands
      exact hstands
    · exact ih _ hfind hb

/-- Labels come from the name generator of the callable: two blocks have different ones, and the
next one is new. -/
structure Allocated (blocks : List (StructuredBlock I)) (nextBlock : ℕ) : Prop where
  nodup : (labels blocks).Nodup
  labels : ∀ l : ℕ, l ∈ labels blocks → l < nextBlock
  mentions : ∀ b ∈ blocks, ∀ l : ℕ, l ∈ b.mentions → l < nextBlock

theorem Allocated.linearizes {blocks : List (StructuredBlock I)} {nextBlock : ℕ}
    (h : Allocated blocks nextBlock) (blockParams : List (BlockLabel × List String))
    (exceptionEdges : List (BlockLabel × Option BlockLabel)) :
    ∃ parts, Linearizes (originOf blockParams exceptionEdges) blocks ⟨[], [], [], nextBlock⟩
      (linearizeStructuredIfs nextBlock blocks blockParams exceptionEdges) parts :=
  linearizes_of_foldl blocks ⟨[], [], [], nextBlock⟩ h.nodup h.labels

theorem Allocated.linearFor {blocks : List (StructuredBlock I)} {nextBlock : ℕ}
    (h : Allocated blocks nextBlock) (blockParams : List (BlockLabel × List String))
    (exceptionEdges : List (BlockLabel × Option BlockLabel)) :
    LinearFor blocks (linearizeStructuredIfs nextBlock blocks blockParams exceptionEdges).blocks
      nextBlock := by
  obtain ⟨parts, hparts⟩ := h.linearizes blockParams exceptionEdges
  have heq := hparts.blocks_eq
  rw [List.nil_append] at heq
  refine ⟨fun label b hb => ?_, fun label hlt hnone => ?_, h.mentions⟩
  · obtain ⟨b', linear, hb', halike, hlinear, hstands⟩ := stands_of_foldl (b := b) blocks
      ⟨[], [], [], nextBlock⟩ (fun c hc => blockAt_of_mem (heq ▸ hparts.nodup) hc)
      (mem_of_blockAt hb)
    have hparams : (originOf blockParams exceptionEdges b).params = b.params :=
      paramsForLinearizedNames_eq b _
    rw [hparams] at halike hstands
    rw [List.nil_append] at hlinear
    rw [label_of_blockAt hb] at hb'
    exact ⟨b', hb', halike.2, halike.1, hlinear ▸ hstands⟩
  · rw [blockAt_eq_none] at hnone ⊢
    rw [heq]
    intro hmem
    rcases hparts.fresh label hmem with hold | ⟨hlo, -⟩
    · exact hnone hold
    · exact Nat.not_lt.mpr hlo hlt

end All

/-! ## Basic blocks -/

/-- `lowered_exception_edges`: the last block with a label counts. -/
def loweredExceptionEdges {S : Type} (blocks : List (Block S I)) :
    List (BlockLabel × Option BlockLabel) :=
  (blocks.map fun b => (b.label, b.excEdge.map BlockEdge.target)).reverse

def instr? : StructuredInstr I → Option I
  | .expr e => some e
  | .ifStmt .. => none

/-- A linear block as a basic block. A conditional in its body is an error. -/
def toBb (exceptionEdges : List (BlockLabel × Option BlockLabel)) (b : StructuredBlock I) :
    Option (Block I I) :=
  (b.body.mapM instr?).map fun ops =>
    { label := b.label
      body := ops
      term := b.term
      params := b.bbParams
      excEdge := ((exceptionEdges.lookup b.label).getD none).map BlockEdge.new }

/-- The names `_dp_try_exc_..` that a block passes on when it jumps. -/
def currentExceptionAliases {S : Type} (target : Block S I) : List String :=
  match target.term with
  | .jump edge => edge.args.filterMap fun arg =>
    match arg with
    | .name x => if x.startsWith "_dp_try_exc_" then some x else none
    | _ => none
  | _ => []

/-- What the edge to a handler passes for its parameters. -/
def exceptionEdgeArgs {S : Type} (sourceParams : List String) (target : Block S I) :
    List BlockArg :=
  let sourceHasOwner := sourceParams.any fun param => param = "_dp_self" || param = "_dp_state"
  target.paramNames.map fun targetParam =>
    if target.exceptionParam = some targetParam then .currentException
    else if targetParam ∈ currentExceptionAliases target then .currentException
    else if targetParam ∈ sourceParams || sourceHasOwner then .name targetParam
    else .none

/-- The exception edge of a block with parameters `sourceParams`. -/
def populatedEdge {S : Type} (blocks : List (Block S I)) (sourceParams : List String)
    (edge : BlockEdge) : BlockEdge :=
  match blockAt blocks.reverse edge.target with
  | some target => ⟨edge.target, exceptionEdgeArgs sourceParams target⟩
  | none => edge

/-- `populate_exception_edge_args` -/
def populateExceptionEdgeArgs {S : Type} (blocks : List (Block S I)) : List (Block S I) :=
  blocks.map fun b => { b with excEdge := b.excEdge.map (populatedEdge blocks b.paramNames) }

/-- `lower_structured_blocks_to_bb_blocks` -/
def lowerStructuredBlocksToBbBlocks (nextBlock : ℕ) (blocks : List (StructuredBlock I)) :
    Option (List (Block I I)) :=
  let out := linearizeStructuredIfs nextBlock blocks [] (loweredExceptionEdges blocks)
  (out.blocks.mapM (toBb out.exceptionEdges)).map populateExceptionEdgeArgs

/-- The exception edge of the basic block with the label of a block. -/
def edgeIn (bb : List (Block I I)) (b : StructuredBlock I) : Option BlockEdge :=
  (blockAt bb b.label).bind Block.excEdge

/-- The structured block with the parameters and the exception edge of its basic block. -/
def filled (bb : List (Block I I)) (b : StructuredBlock I) : StructuredBlock I :=
  { b with params := b.bbParams, excEdge := edgeIn bb b }

/-- What structured blocks are lowered to. -/
structure BasicBlocks (nextBlock : ℕ) (blocks : List (StructuredBlock I)) (bb : List (Block I I))
    (parts : List (List (Block I I))) : Prop where
  blocks_eq : bb = parts.flatten
  nodup : (labels bb).Nodup
  fresh : ∀ l : ℕ, l ∈ labels bb → l ∈ labels blocks ∨ nextBlock ≤ l
  /-- The blocks of one part have the label, the exception target and the parameters of the block
  they come from. -/
  each : List.Forall₂ (fun b part => (labels part).head? = some b.label ∧ ∀ c ∈ part,
    c.excEdge = edgeIn bb b ∧ c.excEdge.map BlockEdge.target = b.excEdge.map BlockEdge.target ∧
      c.params = b.bbParams ∧ c.params.Perm b.params) blocks parts
  runs : ∀ (V W H : Type) (m : Meaning I V W H), ∀ b ∈ blocks, ∀ c ∈ bb, c.label = b.label →
    m.SameBehaviour (blocks.map (filled bb)) (bb.map Block.structured) (filled bb b) c.structured

section Lowered

/-- The basic block of a linear block, before the arguments of exception edges are filled in. -/
def bbOf (c : StructuredBlock I) : Block I I where
  label := c.label
  body := c.body.filterMap instr?
  term := c.term
  params := c.bbParams
  excEdge := (c.excEdge.map BlockEdge.target).map BlockEdge.new

variable {c : StructuredBlock I}

theorem instrs_of_plain {body : List (StructuredInstr I)}
    (hplain : ∀ stmt ∈ body, ∃ e, stmt = .expr e) :
    body.mapM instr? = some (body.filterMap instr?) ∧
      (body.filterMap instr?).map StructuredInstr.expr = body := by
  induction body with
  | nil => exact ⟨rfl, rfl⟩
  | cons stmt body ih =>
    obtain ⟨e, rfl⟩ := hplain stmt List.mem_cons_self
    obtain ⟨hmap, hback⟩ := ih fun stmt h => hplain stmt (List.mem_cons_of_mem _ h)
    refine ⟨?_, ?_⟩
    · rw [List.mapM_cons, hmap]
      rfl
    · rw [List.filterMap_cons_some (show instr? (.expr e) = some e from rfl), List.map_cons, hback]

theorem toBb_eq {exceptionEdges : List (BlockLabel × Option BlockLabel)}
    (hplain : ∀ stmt ∈ c.body, ∃ e, stmt = .expr e)
    (htarget : exceptionEdges.lookup c.label = some (c.excEdge.map BlockEdge.target)) :
    toBb exceptionEdges c = some (bbOf c) := by
  unfold toBb bbOf
  rw [(instrs_of_plain hplain).1, htarget]
  rfl

/-- The lowered blocks, when nothing is wrong with the linear ones. -/
theorem mapM_toBb {blocks : List (StructuredBlock I)}
    {exceptionEdges : List (BlockLabel × Option BlockLabel)}
    (h : ∀ c ∈ blocks, (∀ stmt ∈ c.body, ∃ e, stmt = .expr e) ∧
      exceptionEdges.lookup c.label = some (c.excEdge.map BlockEdge.target)) :
    blocks.mapM (toBb exceptionEdges) = some (blocks.map bbOf) := by
  induction blocks with
  | nil => rfl
  | cons c blocks ih =>
    obtain ⟨hplain, htarget⟩ := h c List.mem_cons_self
    rw [List.mapM_cons, toBb_eq hplain htarget,
      ih fun c hc => h c (List.mem_cons_of_mem _ hc)]
    rfl

/-- The entry of a block is its own exception target. -/
theorem lookup_loweredExceptionEdges {S : Type} {blocks : List (Block S I)}
    (hnodup : (labels blocks).Nodup) {b : Block S I} (hb : b ∈ blocks) :
    (loweredExceptionEdges blocks).lookup b.label = some (b.excEdge.map BlockEdge.target) := by
  unfold loweredExceptionEdges
  refine (lookup_eq_some ?_).mpr (List.mem_reverse.mpr (List.mem_map.mpr ⟨b, hb, rfl⟩))
  rw [List.map_reverse, List.map_map]
  exact List.nodup_reverse.mpr hnodup

theorem bbParams_congr {S S' : Type} {b : Block S I} {b' : Block S' I}
    (h : b.params = b'.params) : b.bbParams = b'.bbParams := by
  unfold Block.bbParams
  rw [h]

@[simp] theorem populatedEdge_target {S : Type} (blocks : List (Block S I)) (params : List String)
    (edge : BlockEdge) : (populatedEdge blocks params edge).target = edge.target := by
  unfold populatedEdge
  cases blockAt blocks.reverse edge.target <;> rfl

/-- The basic block of a linear block. -/
def loweredOf (blocks : List (StructuredBlock I)) (c : StructuredBlock I) : Block I I :=
  { bbOf c with
    excEdge := (bbOf c).excEdge.map (populatedEdge (blocks.map bbOf) (bbOf c).paramNames) }

variable (blocks : List (StructuredBlock I))

theorem loweredOf_target (c : StructuredBlock I) :
    (loweredOf blocks c).excEdge.map BlockEdge.target = c.excEdge.map BlockEdge.target := by
  show (((c.excEdge.map BlockEdge.target).map BlockEdge.new).map _).map BlockEdge.target = _
  cases c.excEdge with
  | none => rfl
  | some edge =>
    show some (populatedEdge _ _ (BlockEdge.new edge.target)).target = some edge.target
    rw [populatedEdge_target]
    rfl

theorem loweredOf_excEdge {c c' : StructuredBlock I} (hexc : c.excEdge = c'.excEdge)
    (hparams : c.params = c'.params) :
    (loweredOf blocks c).excEdge = (loweredOf blocks c').excEdge := by
  have hnames : (bbOf c).paramNames = (bbOf c').paramNames := by
    unfold Block.paramNames
    exact congrArg (List.map _) (bbParams_congr hparams)
  have hedge : (bbOf c).excEdge = (bbOf c').excEdge := by
    unfold bbOf
    rw [hexc]
  show (bbOf c).excEdge.map (populatedEdge _ (bbOf c).paramNames) =
    (bbOf c').excEdge.map (populatedEdge _ (bbOf c').paramNames)
  rw [hnames, hedge]

/-- The linear block with the parameters and the exception edge of its basic block. -/
def filledLinear (c : StructuredBlock I) : StructuredBlock I :=
  { c with params := c.bbParams, excEdge := (loweredOf blocks c).excEdge }

theorem structured_loweredOf (hplain : ∀ stmt ∈ c.body, ∃ e, stmt = .expr e) :
    (loweredOf blocks c).structured = filledLinear blocks c := by
  have hbody : (c.body.filterMap instr?).map StructuredInstr.expr = c.body :=
    (instrs_of_plain hplain).2
  unfold Block.structured filledLinear loweredOf bbOf
  rw [hbody]

end Lowered

theorem mem_part {α β : Type} {R : α → List β → Prop} {blocks : List α} {parts : List (List β)}
    (h : List.Forall₂ R blocks parts) {c : β} (hc : c ∈ parts.flatten) :
    ∃ b ∈ blocks, ∃ part, R b part ∧ c ∈ part := by
  induction h with
  | nil => cases hc
  | @cons b part blocks parts hb h ih =>
    rw [List.flatten_cons] at hc
    rcases List.mem_append.mp hc with hc | hc
    · exact ⟨b, List.mem_cons_self, part, hb, hc⟩
    · obtain ⟨b', hb', part', hpart', hc'⟩ := ih hc
      exact ⟨b', List.mem_cons_of_mem _ hb', part', hpart', hc'⟩

/-- Another relation, to what the parts are mapped to. -/
theorem forall₂_map_of_mem {α β γ : Type} {R : α → β → Prop} {S : α → γ → Prop} {f : β → γ}
    {xs : List α} {ys : List β} (h : List.Forall₂ R xs ys)
    (hS : ∀ x ∈ xs, ∀ y ∈ ys, R x y → S x (f y)) : List.Forall₂ S xs (ys.map f) := by
  induction h with
  | nil => exact .nil
  | @cons x y xs ys hxy h ih =>
    exact .cons (hS x List.mem_cons_self y List.mem_cons_self hxy)
      (ih fun x' hx' y' hy' => hS x' (List.mem_cons_of_mem _ hx') y' (List.mem_cons_of_mem _ hy'))

section Spec

variable {blocks : List (StructuredBlock I)} {n : ℕ}

/-- The basic blocks in terms of the linear ones. -/
theorem Allocated.lower_eq (h : Allocated blocks n) :
    let out := linearizeStructuredIfs n blocks [] (loweredExceptionEdges blocks)
    (∀ c ∈ out.blocks, ∀ stmt ∈ c.body, ∃ e, stmt = .expr e) ∧
      lowerStructuredBlocksToBbBlocks n blocks =
        some (out.blocks.map (loweredOf out.blocks)) := by
  intro out
  obtain ⟨parts, hparts⟩ := h.linearizes [] (loweredExceptionEdges blocks)
  have heq : out.blocks = parts.flatten := hparts.blocks_eq
  have hall : ∀ c ∈ out.blocks, (∀ stmt ∈ c.body, ∃ e, stmt = .expr e) ∧
      out.exceptionEdges.lookup c.label = some (c.excEdge.map BlockEdge.target) := by
    intro c hc
    rw [heq] at hc
    obtain ⟨b, hb, part, hpart, hc⟩ := mem_part hparts.each hc
    refine ⟨hpart.plain c hc, ?_⟩
    have htarget : (originOf [] (loweredExceptionEdges blocks) b).excTarget =
        b.excEdge.map BlockEdge.target := by
      unfold originOf
      rw [lookup_loweredExceptionEdges h.nodup hb]
      rfl
    rw [hpart.excEdge c hc, ← htarget]
    exact hpart.excTarget c.label (List.mem_map.mpr ⟨c, hc, rfl⟩)
  refine ⟨fun c hc => (hall c hc).1, ?_⟩
  show (out.blocks.mapM (toBb out.exceptionEdges)).map populateExceptionEdgeArgs = _
  rw [mapM_toBb hall, Option.map_some]
  unfold populateExceptionEdgeArgs
  rw [List.map_map]
  rfl

/-- The exception edge of a basic block is that of the block it comes from. -/
theorem edgeIn_lowered {linear : List (StructuredBlock I)} {b c : StructuredBlock I}
    (hc : blockAt linear b.label = some c) (hexc : c.excEdge = b.excEdge)
    (hparams : c.params = b.params) (all : List (StructuredBlock I)) :
    edgeIn (linear.map (loweredOf all)) b = (loweredOf all b).excEdge := by
  unfold edgeIn
  rw [blockAt_map (f := loweredOf all) (fun _ => rfl), hc]
  exact loweredOf_excEdge all hexc hparams

theorem LinearFor.edgeIn {linear : List (StructuredBlock I)} (hfor : LinearFor blocks linear n)
    {label : BlockLabel} {b : StructuredBlock I} (hb : blockAt blocks label = some b) :
    edgeIn (linear.map (loweredOf linear)) b = (loweredOf linear b).excEdge := by
  obtain ⟨c, hc, hparams, hexc, -⟩ := hfor.block label b hb
  rw [← label_of_blockAt hb] at hc
  exact edgeIn_lowered hc hexc hparams linear

theorem linearFor_lowered {linear : List (StructuredBlock I)} (hnodup : (labels blocks).Nodup)
    (hfor : LinearFor blocks linear n)
    (hplain : ∀ c ∈ linear, ∀ stmt ∈ c.body, ∃ e, stmt = .expr e) :
    LinearFor (blocks.map (filled (linear.map (loweredOf linear))))
      ((linear.map (loweredOf linear)).map Block.structured) n := by
  have hstructured : (linear.map (loweredOf linear)).map Block.structured =
      linear.map (filledLinear linear) := by
    rw [List.map_map]
    exact List.map_congr_left fun c hc => structured_loweredOf linear (hplain c hc)
  rw [hstructured]
  refine ⟨fun label b' hb' => ?_, fun label hlt hnone => ?_, fun b' hb' l hl => ?_⟩
  · rw [blockAt_map (f := filled _) (fun _ => rfl), Option.map_eq_some_iff] at hb'
    obtain ⟨b, hb, rfl⟩ := hb'
    obtain ⟨c, hc, hparams, hexc, hstands⟩ := hfor.block label b hb
    refine ⟨filledLinear linear c, ?_, bbParams_congr hparams, ?_, ?_⟩
    · rw [blockAt_map (f := filledLinear linear) (fun _ => rfl), hc]
      rfl
    · show (loweredOf linear c).excEdge = DietPython.Blocks.edgeIn _ b
      rw [hfor.edgeIn hb]
      exact loweredOf_excEdge linear hexc hparams
    · refine hstands.map (f := filledLinear linear) (fun _ => rfl) (fun _ => rfl) (fun _ => rfl)
        fun c' hc' => ⟨?_, bbParams_congr hc'.2⟩
      show (loweredOf linear c').excEdge = DietPython.Blocks.edgeIn _ b
      rw [hfor.edgeIn hb]
      exact loweredOf_excEdge linear hc'.1 hc'.2
  · rw [blockAt_map (f := filled _) (fun _ => rfl), Option.map_eq_none_iff] at hnone
    rw [blockAt_map (f := filledLinear linear) (fun _ => rfl), Option.map_eq_none_iff]
    exact hfor.missing label hlt hnone
  · obtain ⟨b, hb, rfl⟩ := List.mem_map.mp hb'
    refine hfor.mentions b hb l ?_
    have htarget : (filled (linear.map (loweredOf linear)) b).excEdge.map BlockEdge.target =
        b.excEdge.map BlockEdge.target := by
      show (DietPython.Blocks.edgeIn _ b).map BlockEdge.target = _
      rw [hfor.edgeIn (blockAt_of_mem hnodup hb)]
      exact loweredOf_target linear b
    unfold Block.mentions at hl ⊢
    rw [htarget] at hl
    exact hl

/-- **Linear blocks and basic blocks.** No conditional is left, labels are new and different, what
is split off keeps the exception target and the parameters, and every run does the same. -/
theorem lowerStructuredBlocksToBbBlocks_spec (h : Allocated blocks n) :
    (∀ blockParams exceptionEdges,
      ∃ parts, Linearizes (originOf blockParams exceptionEdges) blocks ⟨[], [], [], n⟩
        (linearizeStructuredIfs n blocks blockParams exceptionEdges) parts ∧
      ∀ (V W H : Type) (m : Meaning I V W H), ∀ b ∈ blocks,
        ∃ c ∈ (linearizeStructuredIfs n blocks blockParams exceptionEdges).blocks,
          c.label = b.label ∧ m.SameBehaviour blocks
            (linearizeStructuredIfs n blocks blockParams exceptionEdges).blocks b c) ∧
    ∃ bb parts, lowerStructuredBlocksToBbBlocks n blocks = some bb ∧
      BasicBlocks n blocks bb parts := by
  constructor
  · intro blockParams exceptionEdges
    obtain ⟨parts, hparts⟩ := h.linearizes blockParams exceptionEdges
    refine ⟨parts, hparts, fun V W H m b hb => ?_⟩
    have hat := blockAt_of_mem h.nodup hb
    have hfor := h.linearFor blockParams exceptionEdges
    obtain ⟨c, hc, -⟩ := hfor.block b.label b hat
    exact ⟨c, mem_of_blockAt hc, label_of_blockAt hc, sameBehaviour_of_linearFor m hfor hat hc⟩
  · obtain ⟨parts, hparts⟩ := h.linearizes [] (loweredExceptionEdges blocks)
    obtain ⟨hplain, hlower⟩ := h.lower_eq
    have hfor := h.linearFor [] (loweredExceptionEdges blocks)
    generalize linearizeStructuredIfs n blocks [] (loweredExceptionEdges blocks) = out at *
    have heq : out.blocks = parts.flatten := hparts.blocks_eq
    have hlabels : labels (out.blocks.map (loweredOf out.blocks)) = labels parts.flatten := by
      rw [labels_map (f := loweredOf out.blocks) (fun _ => rfl), heq]
    refine ⟨_, parts.map (List.map (loweredOf out.blocks)), hlower, ?_, ?_, ?_, ?_, ?_⟩
    · rw [heq, List.map_flatten]
    · rw [hlabels]
      exact hparts.nodup
    · intro l hl
      rw [hlabels] at hl
      exact (hparts.fresh l hl).imp_right And.left
    · refine forall₂_map_of_mem hparts.each fun b hb part _ hpart => ⟨?_, ?_⟩
      · rw [labels_map (f := loweredOf out.blocks) (fun _ => rfl)]
        exact hpart.head
      · intro c' hc'
        obtain ⟨c, hc, rfl⟩ := List.mem_map.mp hc'
        have hexc := hpart.excEdge c hc
        have hparams := hpart.params c hc
        refine ⟨?_, ?_, bbParams_congr hparams, ?_⟩
        · rw [hfor.edgeIn (blockAt_of_mem h.nodup hb)]
          exact loweredOf_excEdge out.blocks hexc hparams
        · rw [loweredOf_target, hexc]
        · exact hparams ▸ c.bbParams_perm
    · intro V W H m b hb c' hc' hlabel
      have hat : blockAt (blocks.map (filled (out.blocks.map (loweredOf out.blocks)))) b.label =
          some (filled (out.blocks.map (loweredOf out.blocks)) b) := by
        rw [blockAt_map (f := filled _) (fun _ => rfl), blockAt_of_mem h.nodup hb]
        rfl
      have hat' : blockAt ((out.blocks.map (loweredOf out.blocks)).map Block.structured) b.label =
          some c'.structured := by
        rw [blockAt_map (f := Block.structured) (fun _ => rfl), ← hlabel,
          blockAt_of_mem (hlabels ▸ hparts.nodup) hc']
        rfl
      exact sameBehaviour_of_linearFor m (linearFor_lowered h.nodup hfor hplain) hat hat'

end Spec

/-! ## A conditional whose branch returns -/

/-- `if 1: 2; return 3` before another statement. -/
def branchReturns : List (StructuredBlock ℕ) :=
  [⟨0, [.ifStmt 1 [.expr 2] (some (.ret 3)) [] none, .expr 4], .jump (BlockEdge.new 1), [], none⟩,
    ⟨1, [], .ret 5, [], none⟩]

theorem branchReturns_allocated : Allocated branchReturns 2 where
  nodup := by decide
  labels := by decide
  mentions := by
    intro b hb l hl
    simp [branchReturns] at hb
    rcases hb with rfl | rfl
    · simp [Block.mentions, nestedLabels, BlockTerm.labels, BlockTerm.targets?, BlockEdge.new] at hl
      omega
    · simp [Block.mentions, nestedLabels, BlockTerm.labels, BlockTerm.targets?] at hl

theorem branchReturns_lowered :
    lowerStructuredBlocksToBbBlocks 2 branchReturns = some
      [⟨0, [], .ifTerm 1 2 3, [], none⟩, ⟨2, [2], .ret 3, [], none⟩,
        ⟨3, [], .jump (BlockEdge.new 4), [], none⟩, ⟨4, [4], .jump (BlockEdge.new 1), [], none⟩,
        ⟨1, [], .ret 5, [], none⟩] ∧
      ∃ bb parts, lowerStructuredBlocksToBbBlocks 2 branchReturns = some bb ∧
        BasicBlocks 2 branchReturns bb parts := by
  refine ⟨?_, (lowerStructuredBlocksToBbBlocks_spec branchReturns_allocated).2⟩
  have hlinear : (linearizeStructuredIfs 2 branchReturns []
      (loweredExceptionEdges branchReturns)).blocks =
      [⟨0, [], .ifTerm 1 2 3, [], none⟩, ⟨2, [.expr 2], .ret 3, [], none⟩,
        ⟨3, [], .jump (BlockEdge.new 4), [], none⟩,
        ⟨4, [.expr 4], .jump (BlockEdge.new 1), [], none⟩, ⟨1, [], .ret 5, [], none⟩] := by
    simp [linearizeStructuredIfs, branchReturns, linearizeBlock, linearizeBlockpyIfSequence,
      Linearized.push, Linearized.reserve, originOf, paramsForLinearizedNames]
  obtain ⟨-, hlower⟩ := branchReturns_allocated.lower_eq
  rw [hlower, hlinear]
  rfl

end DietPython.Blocks
