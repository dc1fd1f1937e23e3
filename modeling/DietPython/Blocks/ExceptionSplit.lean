import DietPython.Blocks.BlockShape

/-!
# Blocks with an exception edge, split

A block with an exception edge is split after every operation that stores or deletes a name, so that
what the handler reads is up to date. The pieces are chained by plain jumps, and afterwards the
arguments of all exception edges are computed again.
-/

namespace DietPython.Blocks

open Machines Machine Meaning

variable {I V W H : Type}

/-- The loop of `split_exception_blocks_for_expr_checks` over the operations of one block `b`:
`segment` are the operations of the piece so far, `current` its label, and `next` the next new
label. `updates` is `op_updates_exception_state`. -/
def splitSegments (updates : I → Bool) (b : Block I I) (current : BlockLabel) (segment : List I) :
    List I → ℕ → List (Block I I) × ℕ
  | [], next => ([], next)
  | op :: ops, next =>
    let endsSegment := updates op && !ops.isEmpty
    let segment := segment ++ [op]
    if endsSegment then
      let rest := splitSegments updates b next [] ops (next + 1)
      (⟨current, segment, .jump (BlockEdge.new next), b.bbParams, b.excEdge⟩ :: rest.1, rest.2)
    else if ops.isEmpty then ([⟨current, segment, b.term, b.bbParams, b.excEdge⟩], next)
    else splitSegments updates b current segment ops next

def splitBlock (updates : I → Bool) (b : Block I I) (next : ℕ) : List (Block I I) × ℕ :=
  if b.excEdge.isNone || b.body.isEmpty then ([b], next)
  else splitSegments updates b b.label [] b.body next

/-- `split_exception_blocks_for_expr_checks` -/
def splitExceptionBlocks (updates : I → Bool) : List (Block I I) → ℕ → List (Block I I) × ℕ
  | [], next => ([], next)
  | b :: blocks, next =>
    let part := splitBlock updates b next
    let rest := splitExceptionBlocks updates blocks part.2
    (part.1 ++ rest.1, rest.2)

/-- `lower_function_try_jump_exception_flow` -/
def lowerTryJumpExceptionFlow (updates : I → Bool) (nextBlock : ℕ) (blocks : List (Block I I)) :
    List (Block I I) :=
  populateExceptionEdgeArgs (splitExceptionBlocks updates blocks nextBlock).1

/-! ## The pieces of a block -/

/-- A chain of blocks: their bodies make `body`, plain jumps link them, and the last one ends with
`term`. New labels are counted from `next`. -/
structure Chain (updates : I → Bool) (body : List I) (term : BlockTerm I)
    (params : List BlockParam) (excEdge : Option BlockEdge) (label next next' : ℕ)
    (part : List (Block I I)) : Prop where
  bodies : (part.map Block.body).flatten = body
  le : next ≤ next'
  labels : labels part = label :: List.range' next (next' - next)
  links : part.IsChain fun c d => c.term = .jump (BlockEdge.new d.label)
  last : part.getLast?.map Block.term = some term
  alike : ∀ c ∈ part, c.bbParams = params ∧ c.excEdge = excEdge
  /-- What an operation changes is known to the handler before the next operation. -/
  updated : excEdge.isSome → ∀ c ∈ part, ∀ before op after, c.body = before ++ op :: after →
    updates op = true → after = []

namespace Chain

variable {updates : I → Bool} {body segment : List I} {term : BlockTerm I}
  {params : List BlockParam} {excEdge : Option BlockEdge} {label next next' : ℕ}
  {part : List (Block I I)}

/-- One block. -/
theorem single (updates : I → Bool) (b : Block I I) (next : ℕ)
    (hupdated : b.excEdge.isSome → ∀ before op after, b.body = before ++ op :: after →
      updates op = true → after = []) :
    Chain updates b.body b.term b.bbParams b.excEdge b.label next next [b] where
  bodies := List.append_nil _
  le := Nat.le_refl _
  labels := by
    rw [Nat.sub_self]
    rfl
  links := List.IsChain.singleton _
  last := rfl
  alike c hc := by
    obtain rfl := List.mem_singleton.mp hc
    exact ⟨rfl, rfl⟩
  updated hexc c hc := by
    obtain rfl := List.mem_singleton.mp hc
    exact hupdated hexc

/-- A piece in front. -/
theorem cons (h : Chain updates body term params excEdge next (next + 1) next' part)
    {c : Block I I} (hterm : c.term = .jump (BlockEdge.new next)) (hparams : c.bbParams = params)
    (hexc : c.excEdge = excEdge)
    (hupdated : ∀ before op after, c.body = before ++ op :: after → updates op = true →
      after = []) :
    Chain updates (c.body ++ body) term params excEdge c.label next next' (c :: part) := by
  have hle := h.le
  cases part with
  | nil =>
    have hlast := h.last
    cases hlast
  | cons d part =>
    have hlabel : d.label = next := (List.cons.inj h.labels).1
    refine ⟨?_, by omega, ?_, ?_, ?_, ?_, ?_⟩
    · rw [List.map_cons, List.flatten_cons, h.bodies]
    · show c.label :: DietPython.Blocks.labels (d :: part) = _
      rw [h.labels, show next' - next = next' - (next + 1) + 1 by omega, List.range'_succ]
    · refine List.isChain_cons_cons.mpr ⟨?_, h.links⟩
      rw [hlabel]
      exact hterm
    · rw [List.getLast?_cons_cons]
      exact h.last
    · intro c' hc'
      rcases List.mem_cons.mp hc' with rfl | hc'
      · exact ⟨hparams, hexc⟩
      · exact h.alike c' hc'
    · intro hsome c' hc'
      rcases List.mem_cons.mp hc' with rfl | hc'
      · exact hupdated
      · exact h.updated hsome c' hc'

theorem nodup (h : Chain updates body term params excEdge label next next' part)
    (hlabel : label < next) : (DietPython.Blocks.labels part).Nodup := by
  rw [h.labels]
  refine List.nodup_cons.mpr ⟨fun hmem => ?_, List.nodup_range'⟩
  have hle := (List.mem_range'_1.mp hmem).1
  omega

theorem fresh (h : Chain updates body term params excEdge label next next' part) (l : ℕ)
    (hl : l ∈ DietPython.Blocks.labels part) : l = label ∨ next ≤ l ∧ l < next' := by
  rw [h.labels] at hl
  rcases List.mem_cons.mp hl with rfl | hl
  · exact .inl rfl
  · obtain ⟨hlo, hhi⟩ := List.mem_range'_1.mp hl
    have hle := h.le
    exact .inr ⟨hlo, by omega⟩

end Chain

/-- Only the last operation of a segment updates. -/
theorem updated_last {updates : I → Bool} {segment : List I}
    (hsegment : ∀ op ∈ segment, updates op = false) (last : I) (before : List I) (op : I)
    (after : List I) (heq : segment ++ [last] = before ++ op :: after)
    (hupdates : updates op = true) : after = [] := by
  rcases List.eq_nil_or_concat after with rfl | ⟨after', z, rfl⟩
  · rfl
  · have heq : segment ++ [last] = (before ++ op :: after') ++ [z] := by
      rw [heq, List.concat_eq_append, List.append_assoc, List.cons_append]
    obtain ⟨rfl, -⟩ := List.append_singleton_inj.mp heq
    have hfalse := hsegment op (List.mem_append_right _ List.mem_cons_self)
    rw [hupdates] at hfalse
    cases hfalse

/-- The pieces of a body, when no operation of the first piece so far updates. -/
theorem splitSegments_chain (updates : I → Bool) (b : Block I I) (op : I) (ops : List I)
    (current : ℕ) (segment : List I) (next : ℕ) (hsegment : ∀ op ∈ segment, updates op = false) :
    Chain updates (segment ++ op :: ops) b.term b.bbParams b.excEdge current next
      (splitSegments updates b current segment (op :: ops) next).2
      (splitSegments updates b current segment (op :: ops) next).1 := by
  have hupdated := updated_last hsegment op
  induction ops generalizing op current segment next with
  | nil =>
    have hsplit : splitSegments updates b current segment [op] next =
        ([⟨current, segment ++ [op], b.term, b.bbParams, b.excEdge⟩], next) := by
      rw [splitSegments]
      simp
    rw [hsplit]
    have hsingle := Chain.single updates
      ⟨current, segment ++ [op], b.term, b.bbParams, b.excEdge⟩ next fun _ => hupdated
    have hparams : Block.bbParams ⟨current, segment ++ [op], b.term, b.bbParams, b.excEdge⟩ =
        b.bbParams := b.bbParams_of_bbParams _ rfl
    rw [hparams] at hsingle
    exact hsingle
  | cons op' ops ih =>
    by_cases hop : updates op = true
    · have hsplit : splitSegments updates b current segment (op :: op' :: ops) next =
          (⟨current, segment ++ [op], .jump (BlockEdge.new next), b.bbParams, b.excEdge⟩ ::
            (splitSegments updates b next [] (op' :: ops) (next + 1)).1,
            (splitSegments updates b next [] (op' :: ops) (next + 1)).2) := by
        rw [splitSegments]
        simp [hop]
      have hrest := ih op' next [] (next + 1) (fun op h => by cases h)
        (updated_last (fun op h => by cases h) op')
      rw [hsplit]
      have hcons := hrest.cons (c := ⟨current, segment ++ [op], .jump (BlockEdge.new next),
        b.bbParams, b.excEdge⟩) rfl (b.bbParams_of_bbParams _ rfl) rfl hupdated
      rw [List.append_assoc] at hcons
      exact hcons
    · have hfalse : updates op = false := Bool.not_eq_true _ ▸ hop
      have hsplit : splitSegments updates b current segment (op :: op' :: ops) next =
          splitSegments updates b current (segment ++ [op]) (op' :: ops) next := by
        rw [splitSegments]
        simp [hfalse]
      have hmore : ∀ o ∈ segment ++ [op], updates o = false := by
        intro o ho
        rcases List.mem_append.mp ho with ho | ho
        · exact hsegment o ho
        · rw [List.mem_singleton.mp ho]
          exact hfalse
      have hrest := ih op' current (segment ++ [op]) next hmore (updated_last hmore op')
      rw [List.append_assoc] at hrest
      rw [hsplit]
      exact hrest

theorem splitBlock_chain (updates : I → Bool) (b : Block I I) (next : ℕ) :
    Chain updates b.body b.term b.bbParams b.excEdge b.label next (splitBlock updates b next).2
      (splitBlock updates b next).1 := by
  unfold splitBlock
  cases hexc : b.excEdge with
  | none =>
    have hsingle := Chain.single updates b next fun hsome => by
      rw [hexc] at hsome
      cases hsome
    rw [hexc] at hsingle
    exact hsingle
  | some edge =>
    cases hbody : b.body with
    | nil =>
      have hsingle := Chain.single updates b next fun _ before op after heq => by
        rw [hbody] at heq
        exact absurd heq (by simp)
      rw [hexc, hbody] at hsingle
      exact hsingle
    | cons op ops =>
      have hchain := splitSegments_chain updates b op ops b.label [] next fun op h => by cases h
      rw [hexc] at hchain
      exact hchain

/-- The parts of a list of blocks: new labels are different and not in use. -/
structure SplitsInto (updates : I → Bool) (blocks : List (Block I I)) (next next' : ℕ)
    (parts : List (List (Block I I))) : Prop where
  le : next ≤ next'
  nodup : (labels parts.flatten).Nodup
  fresh : ∀ l : ℕ, l ∈ labels parts.flatten → l ∈ labels blocks ∨ next ≤ l ∧ l < next'
  each : List.Forall₂ (fun b part => ∃ lo hi, Chain updates b.body b.term b.bbParams b.excEdge
    b.label lo hi part ∧ next ≤ lo) blocks parts

theorem splitExceptionBlocks_parts (updates : I → Bool) (blocks : List (Block I I)) (next : ℕ)
    (hnodup : (labels blocks).Nodup) (hlt : ∀ l : ℕ, l ∈ labels blocks → l < next) :
    ∃ parts, (splitExceptionBlocks updates blocks next).1 = parts.flatten ∧
      SplitsInto updates blocks next (splitExceptionBlocks updates blocks next).2 parts := by
  induction blocks generalizing next with
  | nil =>
    exact ⟨[], rfl, Nat.le_refl _, List.nodup_nil, fun l hl => absurd hl List.not_mem_nil, .nil⟩
  | cons b blocks ih =>
    obtain ⟨hnot, hnodup⟩ := List.nodup_cons.mp hnodup
    have hchain := splitBlock_chain updates b next
    have hle := hchain.le
    have hb := hlt b.label List.mem_cons_self
    obtain ⟨parts, heq, hparts⟩ := ih (splitBlock updates b next).2 hnodup fun l hl =>
      Nat.lt_of_lt_of_le (hlt l (List.mem_cons_of_mem _ hl)) hle
    have hle' := hparts.le
    refine ⟨(splitBlock updates b next).1 :: parts, ?_, Nat.le_trans hle hle', ?_,
      fun l hl => ?_, .cons ⟨next, _, hchain, Nat.le_refl _⟩ ?_⟩
    · rw [splitExceptionBlocks, List.flatten_cons, ← heq]
    · rw [List.flatten_cons, labels_append]
      refine List.nodup_append.mpr ⟨hchain.nodup hb, hparts.nodup, ?_⟩
      -- the labels of a part are those of its block and new ones
      rintro l hl _ hl' rfl
      rcases hchain.fresh l hl with rfl | ⟨hlo, hhi⟩
      · rcases hparts.fresh _ hl' with hmem | ⟨hlo, -⟩
        · exact hnot hmem
        · omega
      · rcases hparts.fresh l hl' with hmem | ⟨hlo', -⟩
        · have hold := hlt l (List.mem_cons_of_mem _ hmem)
          omega
        · omega
    · rw [List.flatten_cons, labels_append] at hl
      rw [splitExceptionBlocks]
      rcases List.mem_append.mp hl with hl | hl
      · rcases hchain.fresh l hl with rfl | ⟨hlo, hhi⟩
        · exact .inl List.mem_cons_self
        · exact .inr ⟨hlo, by omega⟩
      · rcases hparts.fresh l hl with hmem | ⟨hlo, hhi⟩
        · exact .inl (List.mem_cons_of_mem _ hmem)
        · exact .inr ⟨by omega, hhi⟩
    · refine hparts.each.imp fun b part => ?_
      rintro ⟨lo, hi, hpart, hlo⟩
      exact ⟨lo, hi, hpart, by omega⟩

/-! ## Runs -/

/-- A block as it runs: parameters are passed in the order of their roles. -/
def Block.running (b : Block I I) : StructuredBlock I := { b.structured with params := b.bbParams }

theorem stands_exprs {blocks : List (StructuredBlock I)} {excEdge : Option BlockEdge}
    {params : List BlockParam} {body rest : List (StructuredInstr I)} {bodyTerm term : BlockTerm I}
    (h : Stands blocks excEdge params body bodyTerm rest term) (ops : List I) :
    Stands blocks excEdge params (ops.map .expr ++ body) bodyTerm (ops.map .expr ++ rest) term := by
  induction ops with
  | nil => exact h
  | cons op ops ih => exact .expr op ih

/-- The first block of a chain stands for all of its operations. -/
theorem Chain.stands {updates : I → Bool} {body : List I} {term : BlockTerm I}
    {params : List BlockParam} {excEdge : Option BlockEdge} {label next next' : ℕ}
    {linear : List (StructuredBlock I)} {c : Block I I} {part : List (Block I I)}
    (h : Chain updates body term params excEdge label next next' (c :: part))
    (hfind : ∀ d ∈ part, blockAt linear d.label = some d.running) :
    Stands linear excEdge params (c.body.map .expr) c.term (body.map .expr) term := by
  have hlinks := h.links
  have hlast := h.last
  have halike := h.alike
  rw [← h.bodies]
  clear h
  induction part generalizing c with
  | nil =>
    obtain rfl : c.term = term := Option.some.inj hlast
    have hdone : Stands linear excEdge params (c.body.map .expr ++ []) c.term
        (c.body.map .expr ++ []) c.term := stands_exprs (.done c.term) c.body
    rw [List.append_nil] at hdone
    rw [List.map_singleton, List.flatten_singleton]
    exact hdone
  | cons d part ih =>
    obtain ⟨hterm, hlinks⟩ := List.isChain_cons_cons.mp hlinks
    rw [List.getLast?_cons_cons] at hlast
    have hrest := ih (fun d' hd' => hfind d' (List.mem_cons_of_mem _ hd')) hlinks hlast
      fun d' hd' => halike d' (List.mem_cons_of_mem _ hd')
    obtain ⟨hparams, hexc⟩ := halike d (List.mem_cons_of_mem _ List.mem_cons_self)
    have hnext := Stands.join (hfind d List.mem_cons_self) ⟨hexc, hparams⟩ hrest
    have hjoin := stands_exprs hnext c.body
    rw [List.append_nil] at hjoin
    rw [hterm, List.map_cons, List.flatten_cons, List.map_append]
    exact hjoin

section Spec

variable {updates : I → Bool} {blocks : List (Block I I)} {n : ℕ}

/-- The part of a block is a chain that starts with its label. -/
theorem SplitsInto.part {next' : ℕ} {parts : List (List (Block I I))}
    (h : SplitsInto updates blocks n next' parts) {b : Block I I} (hb : b ∈ blocks) :
    ∃ c part lo hi, Chain updates b.body b.term b.bbParams b.excEdge b.label lo hi (c :: part) ∧
      c.label = b.label ∧ ∀ d ∈ c :: part, d ∈ parts.flatten := by
  have heach := h.each
  clear h
  induction heach with
  | nil => cases hb
  | @cons b' part blocks parts hpart hrest ih =>
    rcases List.mem_cons.mp hb with rfl | hb
    · obtain ⟨lo, hi, hchain, -⟩ := hpart
      cases part with
      | nil =>
        have hlast := hchain.last
        cases hlast
      | cons c part =>
        refine ⟨c, part, lo, hi, hchain, (List.cons.inj hchain.labels).1, fun d hd => ?_⟩
        rw [List.flatten_cons]
        exact List.mem_append_left _ hd
    · obtain ⟨c, part, lo, hi, hchain, hlabel, hmem⟩ := ih hb
      refine ⟨c, part, lo, hi, hchain, hlabel, fun d hd => ?_⟩
      rw [List.flatten_cons]
      exact List.mem_append_right _ (hmem d hd)

/-- The first piece of a block stands for the block. -/
theorem SplitsInto.linearFor {next' : ℕ} {parts : List (List (Block I I))}
    (hparts : SplitsInto updates blocks n next' parts)
    (h : Allocated (blocks.map Block.structured) n) :
    LinearFor (blocks.map Block.running) (parts.flatten.map Block.running) n := by
  have hfind : ∀ c ∈ parts.flatten,
      blockAt (parts.flatten.map Block.running) c.label = some c.running := by
    intro c hc
    rw [blockAt_map (f := Block.running) (fun _ => rfl), blockAt_of_mem hparts.nodup hc]
    rfl
  refine ⟨fun label b' hb' => ?_, fun label hlt hnone => ?_, fun b' hb' l hl => ?_⟩
  · rw [blockAt_map (f := Block.running) (fun _ => rfl), Option.map_eq_some_iff] at hb'
    obtain ⟨b, hb, rfl⟩ := hb'
    obtain ⟨c, part, lo, hi, hchain, hlabel, hmem⟩ := hparts.part (mem_of_blockAt hb)
    obtain ⟨hparams, hexc⟩ := hchain.alike c List.mem_cons_self
    refine ⟨c.running, ?_, hparams, hexc, ?_⟩
    · rw [← label_of_blockAt hb, ← hlabel]
      exact hfind c (hmem c List.mem_cons_self)
    · exact hchain.stands fun d hd => hfind d (hmem d (List.mem_cons_of_mem _ hd))
  · rw [blockAt_eq_none, labels_map (f := Block.running) (fun _ => rfl)] at hnone ⊢
    intro hmem
    rcases hparts.fresh label hmem with hold | ⟨hlo, -⟩
    · exact hnone hold
    · exact Nat.not_lt.mpr hlo hlt
  · obtain ⟨b, hb, rfl⟩ := List.mem_map.mp hb'
    exact h.mentions b.structured (List.mem_map.mpr ⟨b, hb, rfl⟩) l hl

theorem labels_structured (blocks : List (Block I I)) :
    labels (blocks.map Block.structured) = labels blocks :=
  labels_map (f := Block.structured) (fun _ => rfl) blocks

theorem Allocated.basic (h : Allocated (blocks.map Block.structured) n) :
    (DietPython.Blocks.labels blocks).Nodup ∧
      ∀ l : ℕ, l ∈ DietPython.Blocks.labels blocks → l < n := by
  have hnodup := h.nodup
  have hlt := h.labels
  rw [labels_structured] at hnodup hlt
  exact ⟨hnodup, hlt⟩

theorem Allocated.splitsInto (h : Allocated (blocks.map Block.structured) n)
    (updates : I → Bool) : ∃ parts, (splitExceptionBlocks updates blocks n).1 = parts.flatten ∧
      SplitsInto updates blocks n (splitExceptionBlocks updates blocks n).2 parts :=
  splitExceptionBlocks_parts updates blocks n h.basic.1 h.basic.2

/-- A block and its first piece do the same. -/
theorem Allocated.split_sameBehaviour (h : Allocated (blocks.map Block.structured) n)
    (m : Meaning I V W H) {b c : Block I I} (hb : b ∈ blocks)
    (hc : c ∈ (splitExceptionBlocks updates blocks n).1) (hlabel : c.label = b.label) :
    m.SameBehaviour (blocks.map Block.running)
      ((splitExceptionBlocks updates blocks n).1.map Block.running) b.running c.running := by
  obtain ⟨parts, heq, hparts⟩ := h.splitsInto updates
  rw [heq] at hc ⊢
  have hb' : blockAt (blocks.map Block.running) b.label = some b.running := by
    rw [blockAt_map (f := Block.running) (fun _ => rfl), blockAt_of_mem h.basic.1 hb]
    rfl
  have hc' : blockAt (parts.flatten.map Block.running) b.label = some c.running := by
    rw [blockAt_map (f := Block.running) (fun _ => rfl), ← hlabel, blockAt_of_mem hparts.nodup hc]
    rfl
  exact sameBehaviour_of_linearFor m (hparts.linearFor h) hb' hc'

end Spec

/-! ## The arguments of exception edges -/

/-- What a handler takes for the exception when its block passes on a name `_dp_try_exc_..` is its
exception parameter. -/
def PassesException (b : Block I I) : Prop :=
  ∀ x ∈ currentExceptionAliases b, x ∈ b.paramNames → b.exceptionParam = some x

section Arguments

variable {updates : I → Bool} {blocks : List (Block I I)} {n : ℕ}

def Block.withEdge (f : List String → BlockEdge → BlockEdge) (b : Block I I) : Block I I :=
  { b with excEdge := b.excEdge.map (f b.paramNames) }

theorem splitSegments_withEdge (f : List String → BlockEdge → BlockEdge) (b : Block I I)
    (hordered : b.params = b.bbParams) (current : BlockLabel) (segment ops : List I) (next : ℕ) :
    splitSegments updates (b.withEdge f) current segment ops next =
      ((splitSegments updates b current segment ops next).1.map (Block.withEdge f),
        (splitSegments updates b current segment ops next).2) := by
  have hpiece : ∀ label body term,
      (⟨label, body, term, (b.withEdge f).bbParams, (b.withEdge f).excEdge⟩ : Block I I) =
        Block.withEdge f ⟨label, body, term, b.bbParams, b.excEdge⟩ := by
    intro label body term
    have hnames : b.paramNames = b.bbParams.map BlockParam.name := by
      rw [Block.paramNames, ← hordered]
    show (⟨label, body, term, b.bbParams, b.excEdge.map (f b.paramNames)⟩ : Block I I) =
      ⟨label, body, term, b.bbParams, b.excEdge.map (f (b.bbParams.map BlockParam.name))⟩
    rw [hnames]
  induction ops generalizing current segment next with
  | nil => rfl
  | cons op ops ih =>
    rw [splitSegments, splitSegments]
    by_cases hends : (updates op && !ops.isEmpty) = true
    · simp only [hends, if_true, ih, hpiece, List.map_cons]
    · simp only [hends, Bool.false_eq_true, if_false]
      by_cases hlast : ops.isEmpty = true
      · simp only [hlast, if_true, hpiece, List.map_cons, List.map_nil]
        rfl
      · simp only [hlast, Bool.false_eq_true, if_false, ih]

theorem splitBlock_withEdge (f : List String → BlockEdge → BlockEdge) (b : Block I I)
    (hordered : b.params = b.bbParams) (next : ℕ) :
    splitBlock updates (b.withEdge f) next =
      ((splitBlock updates b next).1.map (Block.withEdge f), (splitBlock updates b next).2) := by
  have hnone : (b.withEdge f).excEdge.isNone = b.excEdge.isNone := by
    show (b.excEdge.map _).isNone = _
    rw [Option.isNone_map]
  have hbody : (b.withEdge f).body = b.body := rfl
  rw [splitBlock, splitBlock, hnone, hbody]
  by_cases h : (b.excEdge.isNone || b.body.isEmpty) = true
  · rw [if_pos h, if_pos h]
    rfl
  · rw [if_neg h, if_neg h]
    exact splitSegments_withEdge f b hordered b.label [] b.body next

theorem splitExceptionBlocks_withEdge (f : List String → BlockEdge → BlockEdge)
    (hordered : ∀ b ∈ blocks, b.params = b.bbParams) (next : ℕ) :
    splitExceptionBlocks updates (blocks.map (Block.withEdge f)) next =
      ((splitExceptionBlocks updates blocks next).1.map (Block.withEdge f),
        (splitExceptionBlocks updates blocks next).2) := by
  induction blocks generalizing next with
  | nil => rfl
  | cons b blocks ih =>
    rw [List.map_cons, splitExceptionBlocks, splitExceptionBlocks,
      splitBlock_withEdge f b (hordered b List.mem_cons_self),
      ih fun b hb => hordered b (List.mem_cons_of_mem _ hb)]
    simp only [List.map_append]

theorem splitSegments_params (b : Block I I) (current : BlockLabel) (segment ops : List I)
    (next : ℕ) : ∀ c ∈ (splitSegments updates b current segment ops next).1,
      c.params = b.bbParams := by
  induction ops generalizing current segment next with
  | nil => exact fun c hc => by cases hc
  | cons op ops ih =>
    intro c hc
    rw [splitSegments] at hc
    by_cases hends : (updates op && !ops.isEmpty) = true
    · simp only [hends, if_true] at hc
      rcases List.mem_cons.mp hc with rfl | hc
      · rfl
      · exact ih _ _ _ c hc
    · simp only [hends, Bool.false_eq_true, if_false] at hc
      by_cases hlast : ops.isEmpty = true
      · simp only [hlast, if_true] at hc
        rw [List.mem_singleton.mp hc]
      · simp only [hlast, Bool.false_eq_true, if_false] at hc
        exact ih _ _ _ c hc

/-- Where parameters are in order, they are in order after the split. -/
theorem split_ordered (hordered : ∀ b ∈ blocks, b.params = b.bbParams) (next : ℕ) :
    ∀ c ∈ (splitExceptionBlocks updates blocks next).1, c.params = c.bbParams := by
  induction blocks generalizing next with
  | nil => exact fun c hc => by cases hc
  | cons b blocks ih =>
    intro c hc
    rw [splitExceptionBlocks] at hc
    rcases List.mem_append.mp hc with hc | hc
    · unfold splitBlock at hc
      by_cases h : (b.excEdge.isNone || b.body.isEmpty) = true
      · rw [if_pos h] at hc
        rw [List.mem_singleton.mp hc]
        exact hordered b List.mem_cons_self
      · rw [if_neg h] at hc
        have hparams := splitSegments_params b b.label [] b.body next c hc
        rw [b.bbParams_of_bbParams c hparams, hparams]
    · exact ih (fun b hb => hordered b (List.mem_cons_of_mem _ hb)) _ c hc

/-- A handler takes the same when it jumps on as before, or only to its next piece. -/
theorem exceptionEdgeArgs_congr {b c : Block I I} (hparams : c.params = b.params)
    (halias : currentExceptionAliases c = currentExceptionAliases b ∨
      currentExceptionAliases c = [])
    (hpasses : PassesException b) (sourceParams : List String) :
    exceptionEdgeArgs sourceParams c = exceptionEdgeArgs sourceParams b := by
  have hexc : c.exceptionParam = b.exceptionParam := by
    rw [Block.exceptionParam, Block.exceptionParam, hparams]
  have hnames : c.paramNames = b.paramNames := by
    rw [Block.paramNames, Block.paramNames, hparams]
  unfold exceptionEdgeArgs
  rw [hexc, hnames]
  refine List.map_congr_left fun x hx => ?_
  by_cases hx' : b.exceptionParam = some x
  · rw [if_pos hx', if_pos hx']
  · have hb : x ∉ currentExceptionAliases b := fun hmem => hx' (hpasses x hmem hx)
    have hc : x ∉ currentExceptionAliases c := by
      intro hmem
      rcases halias with halias | halias
      · exact hb (halias ▸ hmem)
      · rw [halias] at hmem
        cases hmem
    rw [if_neg hx', if_neg hx', if_neg hb, if_neg hc]

theorem Chain.aliases {body : List I} {term : BlockTerm I} {params : List BlockParam}
    {excEdge : Option BlockEdge} {label next next' : ℕ} {c : Block I I} {part : List (Block I I)}
    (h : Chain updates body term params excEdge label next next' (c :: part)) {b : Block I I}
    (hterm : b.term = term) : currentExceptionAliases c = currentExceptionAliases b ∨
      currentExceptionAliases c = [] := by
  have hlinks := h.links
  cases part with
  | nil =>
    have hlast : c.term = term := Option.some.inj h.last
    left
    rw [currentExceptionAliases, currentExceptionAliases, hlast, hterm]
  | cons d part =>
    right
    rw [currentExceptionAliases, (List.isChain_cons_cons.mp hlinks).1]
    rfl

/-- An edge to a block that is split passes the same. -/
theorem populatedEdge_split (h : Allocated (blocks.map Block.structured) n)
    (hordered : ∀ b ∈ blocks, b.params = b.bbParams) (hpasses : ∀ b ∈ blocks, PassesException b)
    (sourceParams : List String) (edge : BlockEdge) (hlt : (edge.target : ℕ) < n) :
    populatedEdge (splitExceptionBlocks updates blocks n).1 sourceParams edge =
      populatedEdge blocks sourceParams edge := by
  obtain ⟨parts, heq, hparts⟩ := h.splitsInto updates
  have hsplit : ∀ c ∈ (splitExceptionBlocks updates blocks n).1, c.params = c.bbParams :=
    split_ordered hordered n
  rw [heq] at hsplit ⊢
  unfold populatedEdge
  rw [blockAt_reverse hparts.nodup, blockAt_reverse h.basic.1]
  cases hb : blockAt blocks edge.target with
  | none =>
    have hnone : blockAt parts.flatten edge.target = none := by
      rw [blockAt_eq_none] at hb ⊢
      intro hmem
      rcases hparts.fresh edge.target hmem with hold | ⟨hlo, -⟩
      · exact hb hold
      · exact Nat.not_lt.mpr hlo hlt
    rw [hnone]
  | some b =>
    obtain ⟨c, part, lo, hi, hchain, hlabel, hmem⟩ := hparts.part (mem_of_blockAt hb)
    have hc : blockAt parts.flatten edge.target = some c := by
      rw [← label_of_blockAt hb, ← hlabel]
      exact blockAt_of_mem hparts.nodup (hmem c List.mem_cons_self)
    have hparams : c.params = b.params := by
      rw [hsplit c (hmem c List.mem_cons_self), hordered b (mem_of_blockAt hb)]
      exact (hchain.alike c List.mem_cons_self).1
    rw [hc]
    show BlockEdge.mk edge.target (exceptionEdgeArgs sourceParams c) =
      BlockEdge.mk edge.target (exceptionEdgeArgs sourceParams b)
    rw [exceptionEdgeArgs_congr hparams (hchain.aliases rfl) (hpasses b (mem_of_blockAt hb))]

/-- Arguments may be filled in before the split. -/
theorem lowerTryJumpExceptionFlow_eq (h : Allocated (blocks.map Block.structured) n)
    (hordered : ∀ b ∈ blocks, b.params = b.bbParams) (hpasses : ∀ b ∈ blocks, PassesException b) :
    lowerTryJumpExceptionFlow updates n blocks =
      (splitExceptionBlocks updates (populateExceptionEdgeArgs blocks) n).1 := by
  have hpopulate : ∀ blocks : List (Block I I), populateExceptionEdgeArgs blocks =
      blocks.map (Block.withEdge (populatedEdge blocks)) := fun _ => rfl
  obtain ⟨parts, heq, hparts⟩ := h.splitsInto updates
  unfold lowerTryJumpExceptionFlow
  rw [hpopulate, hpopulate, splitExceptionBlocks_withEdge _ hordered]
  refine List.map_congr_left fun c hc => ?_
  rw [heq] at hc
  obtain ⟨b, hb, part, ⟨lo, hi, hchain, -⟩, hc⟩ := mem_part hparts.each hc
  have hexc : c.excEdge = b.excEdge := (hchain.alike c hc).2
  unfold Block.withEdge
  cases hedge : c.excEdge with
  | none => rfl
  | some edge =>
    have hlt : (edge.target : ℕ) < n := by
      refine h.mentions b.structured (List.mem_map.mpr ⟨b, hb, rfl⟩) edge.target ?_
      have htarget : b.structured.excEdge = some edge := hexc.symm.trans hedge
      unfold Block.mentions
      rw [htarget]
      exact List.mem_append_right _ (List.mem_singleton_self _)
    rw [Option.map_some, Option.map_some,
      populatedEdge_split h hordered hpasses c.paramNames edge hlt]

theorem Allocated.populate (h : Allocated (blocks.map Block.structured) n) :
    Allocated ((populateExceptionEdgeArgs blocks).map Block.structured) n := by
  have hlabels :
      DietPython.Blocks.labels ((populateExceptionEdgeArgs blocks).map Block.structured) =
        DietPython.Blocks.labels (blocks.map Block.structured) := by
    rw [labels_structured, labels_structured]
    exact labels_map (f := Block.withEdge (populatedEdge blocks)) (fun _ => rfl) blocks
  refine ⟨?_, ?_, fun b' hb' l hl => ?_⟩
  · rw [hlabels]
    exact h.nodup
  · rw [hlabels]
    exact h.labels
  · obtain ⟨c, hc, rfl⟩ := List.mem_map.mp hb'
    obtain ⟨b, hb, rfl⟩ := List.mem_map.mp hc
    refine h.mentions b.structured (List.mem_map.mpr ⟨b, hb, rfl⟩) l ?_
    have htarget : (b.excEdge.map (populatedEdge blocks b.paramNames)).map BlockEdge.target =
        b.excEdge.map BlockEdge.target := by
      cases b.excEdge with
      | none => rfl
      | some edge => rw [Option.map_some, Option.map_some, populatedEdge_target, Option.map_some]
    unfold Block.mentions at hl ⊢
    have hexc : (Block.structured { b with
        excEdge := b.excEdge.map (populatedEdge blocks b.paramNames) }).excEdge.map
          BlockEdge.target = b.structured.excEdge.map BlockEdge.target := htarget
    rw [hexc] at hl
    exact hl

end Arguments

/-- **The split.** Every block becomes a chain, whose first piece does what the block did: handlers
are entered with the same arguments in the same worlds. When arguments are filled in again
afterwards, they are those of the blocks before the split. -/
theorem splitExceptionBlocks_spec (updates : I → Bool) {blocks : List (Block I I)} {n : ℕ}
    (h : Allocated (blocks.map Block.structured) n) :
    (∃ parts, (splitExceptionBlocks updates blocks n).1 = parts.flatten ∧
      SplitsInto updates blocks n (splitExceptionBlocks updates blocks n).2 parts) ∧
    (∀ (V W H : Type) (m : Meaning I V W H), ∀ b ∈ blocks,
      ∀ c ∈ (splitExceptionBlocks updates blocks n).1, c.label = b.label →
        m.SameBehaviour (blocks.map Block.running)
          ((splitExceptionBlocks updates blocks n).1.map Block.running) b.running c.running) ∧
    ((∀ b ∈ blocks, b.params = b.bbParams) → (∀ b ∈ blocks, PassesException b) →
      lowerTryJumpExceptionFlow updates n blocks =
          (splitExceptionBlocks updates (populateExceptionEdgeArgs blocks) n).1 ∧
        ∀ (V W H : Type) (m : Meaning I V W H), ∀ b ∈ populateExceptionEdgeArgs blocks,
          ∀ c ∈ lowerTryJumpExceptionFlow updates n blocks, c.label = b.label →
            m.SameBehaviour ((populateExceptionEdgeArgs blocks).map Block.running)
              ((lowerTryJumpExceptionFlow updates n blocks).map Block.running)
              b.running c.running) := by
  refine ⟨h.splitsInto updates, fun V W H m b hb c hc hlabel =>
    h.split_sameBehaviour m hb hc hlabel, fun hordered hpasses => ?_⟩
  have heq : lowerTryJumpExceptionFlow updates n blocks =
      (splitExceptionBlocks updates (populateExceptionEdgeArgs blocks) n).1 :=
    lowerTryJumpExceptionFlow_eq h hordered hpasses
  refine ⟨heq, fun V W H m b hb c hc hlabel => ?_⟩
  rw [heq] at hc ⊢
  exact h.populate.split_sameBehaviour m hb hc hlabel

/-! ## A store in the middle of a block -/

/-- `2` is a store, between two operations that may raise. -/
def guardedStore : List (Block ℕ ℕ) :=
  [⟨0, [1, 2, 3], .ret 4, [], some (BlockEdge.new 1)⟩,
    ⟨1, [], .ret 5, [⟨"_dp_try_exc_0", .exception⟩], none⟩]

theorem guardedStore_allocated : Allocated (guardedStore.map Block.structured) 2 where
  nodup := by decide
  labels := by decide
  mentions := by
    intro b hb l hl
    simp [guardedStore, Block.structured] at hb
    rcases hb with rfl | rfl
    · simp [Block.mentions, nestedLabels, BlockTerm.labels, BlockTerm.targets?, BlockEdge.new] at hl
      omega
    · simp [Block.mentions, nestedLabels, BlockTerm.labels, BlockTerm.targets?] at hl

theorem guardedStore_split :
    lowerTryJumpExceptionFlow (· == 2) 2 guardedStore =
        [⟨0, [1, 2], .jump (BlockEdge.new 2), [], some ⟨1, [.currentException]⟩⟩,
          ⟨2, [3], .ret 4, [], some ⟨1, [.currentException]⟩⟩,
          ⟨1, [], .ret 5, [⟨"_dp_try_exc_0", .exception⟩], none⟩] ∧
      lowerTryJumpExceptionFlow (· == 2) 2 guardedStore =
        (splitExceptionBlocks (· == 2) (populateExceptionEdgeArgs guardedStore) 2).1 := by
  refine ⟨by decide +kernel, ((splitExceptionBlocks_spec _ guardedStore_allocated).2.2 ?_ ?_).1⟩
  · decide
  · intro b hb x hx
    have hnone : ∀ b ∈ guardedStore, currentExceptionAliases b = [] := by decide
    rw [hnone b hb] at hx
    cases hx

end DietPython.Blocks
