import DietPython.Blocks.Structured
import DietPython.Lib.Worklists

/-!
# The blocks of a finished callable

The entry block is put first, a block for the end is added when it is needed, jumps to a block that
only returns the implicit `None` become that return, and blocks that are not reached are dropped.
Reached are the entry, the targets of exception edges and what terminators lead to.
-/

namespace DietPython.Blocks

open Machines Machine Meaning Worklists Relation

variable {I V W H : Type}

/-! ## The passes -/

/-- `move_entry_block_to_front` -/
def moveEntryBlockToFront (blocks : List (StructuredBlock I)) (entry : BlockLabel) :
    List (StructuredBlock I) :=
  match blockAt blocks entry with
  | some b => b :: blocks.eraseP fun c => c.label = entry
  | none => blocks

/-- `block_references_label`, which looks into fragments as well. -/
def blockReferencesLabel (b : StructuredBlock I) (label : BlockLabel) : Bool :=
  label ∈ b.mentions

/-- `body.is_empty() && .. is_implicit_none_expr(expr)`: the return of such a block. -/
def trivialReturn (isNone : I → Bool) (b : StructuredBlock I) : Option (BlockTerm I) :=
  match b.body, b.term with
  | [], .ret e => if isNone e then some (.ret e) else none
  | _, _ => none

/-- The last block with a label counts. -/
def trivialRetNoneTerms (isNone : I → Bool) (blocks : List (StructuredBlock I)) :
    List (BlockLabel × BlockTerm I) :=
  (blocks.filterMap fun b => (trivialReturn isNone b).map fun term => (b.label, term)).reverse

def foldBlock (terms : List (BlockLabel × BlockTerm I)) (b : StructuredBlock I) :
    StructuredBlock I :=
  match b.term with
  | .jump edge =>
    match terms.lookup edge.target with
    | some term => { b with term }
    | none => b
  | _ => b

/-- `fold_jumps_to_trivial_none_return_blockpy` -/
def foldJumpsToTrivialNoneReturn (isNone : I → Bool) (blocks : List (StructuredBlock I)) :
    List (StructuredBlock I) :=
  blocks.map (foldBlock (trivialRetNoneTerms isNone blocks))

/-- `blockpy_successors` of the block that is found at a label: the last one. -/
def successorsAt (blocks : List (StructuredBlock I)) (label : BlockLabel) : List BlockLabel :=
  match blockAt blocks.reverse label with
  | some b => b.term.labels
  | none => []

/-- `prune_unreachable_blockpy_blocks`. The steps are bounded by the labels that are put on the
worklist. -/
def pruneUnreachable (entry : BlockLabel) (extraRoots : List BlockLabel)
    (blocks : List (StructuredBlock I)) : Option (List (StructuredBlock I)) :=
  let worklist := (entry :: extraRoots).reverse
  let bound := worklist.length + pending (successorsAt blocks) (labels blocks) []
  (search (successorsAt blocks) bound worklist []).map fun reachable =>
    blocks.filter (·.label ∈ reachable)

def exceptionTargets (blocks : List (StructuredBlock I)) : List BlockLabel :=
  blocks.filterMap fun b => b.excEdge.map BlockEdge.target

def endBlock (implicitNone : I) (endLabel : BlockLabel) : StructuredBlock I :=
  ⟨endLabel, [], .ret implicitNone, [], none⟩

/-- The entry block in front, and the block for the end if it is needed. -/
def withEnd (implicitNone : I) (entry endLabel : BlockLabel) (blocks : List (StructuredBlock I)) :
    List (StructuredBlock I) :=
  let blocks := moveEntryBlockToFront blocks entry
  if entry = endLabel || blocks.any (blockReferencesLabel · endLabel) then
    blocks ++ [endBlock implicitNone endLabel]
  else blocks

/-- The block part of `build_core_blockpy_callable_def_from_runtime_input`. -/
def finishBlocks (isNone : I → Bool) (implicitNone : I) (entry endLabel : BlockLabel)
    (blocks : List (StructuredBlock I)) : Option (List (StructuredBlock I)) :=
  let blocks := foldJumpsToTrivialNoneReturn isNone (withEnd implicitNone entry endLabel blocks)
  pruneUnreachable entry (exceptionTargets blocks) blocks

/-! ## Callables -/

/-- The blocks that a body is lowered to. The end of the callable has a label of its own, and an
empty body starts there. -/
structure FunctionBlocks (entry endLabel : BlockLabel) (blocks : List (StructuredBlock I)) :
    Prop where
  nodup : (labels blocks).Nodup
  endFresh : endLabel ∉ labels blocks
  closed : ∀ b ∈ blocks, ∀ l ∈ b.mentions, l ∈ labels blocks ∨ l = endLabel
  entry : entry ∈ labels blocks ∨ entry = endLabel ∧ blocks = []

/-- The blocks of a callable with its end. -/
def wholeBody (implicitNone : I) (endLabel : BlockLabel) (blocks : List (StructuredBlock I)) :
    List (StructuredBlock I) :=
  blocks ++ [endBlock implicitNone endLabel]

/-- Where the terminator of a block leads. A jump to a block that only returns the implicit `None`
leads nowhere. -/
def TermLeads (isNone : I → Bool) (blocks : List (StructuredBlock I)) (a l : BlockLabel) : Prop :=
  ∃ b, blockAt blocks a = some b ∧ l ∈ b.term.labels ∧ ∀ edge c, b.term = .jump edge →
    blockAt blocks edge.target = some c → trivialReturn isNone c = none

/-- The entry, the targets of exception edges and where terminators lead. -/
inductive Reachable (isNone : I → Bool) (blocks : List (StructuredBlock I)) (entry : BlockLabel) :
    BlockLabel → Prop
  | entry : Reachable isNone blocks entry entry
  | handler {b : StructuredBlock I} {edge : BlockEdge} (hb : b ∈ blocks)
      (hedge : b.excEdge = some edge) : Reachable isNone blocks entry edge.target
  | next {a l : BlockLabel} (ha : Reachable isNone blocks entry a)
    (hl : TermLeads isNone blocks a l) :
      Reachable isNone blocks entry l

section Whole

variable {entry endLabel : BlockLabel} {blocks : List (StructuredBlock I)} {implicitNone : I}

theorem endBlock_mentions (implicitNone : I) (endLabel : BlockLabel) :
    (endBlock implicitNone endLabel).mentions = [] := by
  unfold Block.mentions endBlock
  rw [nestedLabels]
  rfl

theorem moveEntryBlockToFront_perm (blocks : List (StructuredBlock I)) (entry : BlockLabel) :
    (moveEntryBlockToFront blocks entry).Perm blocks := by
  rw [moveEntryBlockToFront]
  cases hb : blockAt blocks entry with
  | none => exact .refl _
  | some b =>
    obtain ⟨c, before, after, hbefore, hc, hblocks, herase⟩ := List.exists_of_eraseP
      (p := fun c : StructuredBlock I => c.label = entry) (mem_of_blockAt hb)
      (decide_eq_true (label_of_blockAt hb))
    have hcb : b = c := by
      unfold blockAt at hb
      rw [hblocks, List.find?_append, List.find?_eq_none.mpr fun x hx => hbefore x hx,
        Option.none_or, List.find?_cons_of_pos
          (p := fun b : StructuredBlock I => b.label = entry) hc]
        at hb
      exact (Option.some.inj hb).symm
    rw [herase, hcb]
    exact List.perm_middle.symm.trans (.of_eq hblocks.symm)

theorem moveEntryBlockToFront_head (h : entry ∈ labels blocks) :
    ∃ b, (moveEntryBlockToFront blocks entry).head? = some b ∧ b.label = entry := by
  obtain ⟨b, hb⟩ := Option.isSome_iff_exists.mp (blockAt_isSome.mpr h)
  refine ⟨b, ?_, label_of_blockAt hb⟩
  rw [moveEntryBlockToFront, hb]
  rfl

/-- What the blocks with the end are among those of the whole body. -/
structure EntryFirst (entry : BlockLabel) (whole blocks : List (StructuredBlock I)) : Prop where
  nodup : (labels blocks).Nodup
  sub : blocks ⊆ whole
  wholeNodup : (labels whole).Nodup
  head : ∃ b, blocks.head? = some b ∧ b.label = entry
  closed : ∀ b ∈ blocks, ∀ l ∈ b.mentions, l ∈ labels blocks
  /-- What is missing mentions nothing. -/
  missing : ∀ b ∈ whole, b ∉ blocks → b.body = [] ∧ b.term.labels = [] ∧ b.excEdge = none

theorem withEnd_entryFirst (h : FunctionBlocks entry endLabel blocks) (implicitNone : I) :
    EntryFirst entry (wholeBody implicitNone endLabel blocks)
      (withEnd implicitNone entry endLabel blocks) := by
  have hperm := moveEntryBlockToFront_perm blocks entry
  have hlabels : (labels (moveEntryBlockToFront blocks entry)).Perm (labels blocks) := hperm.map _
  have hwhole : (labels (wholeBody implicitNone endLabel blocks)).Nodup := by
    unfold wholeBody
    rw [labels_append]
    refine List.nodup_append.mpr ⟨h.nodup, List.pairwise_singleton _ _, ?_⟩
    rintro l hl l' hl' rfl
    have hend : l = endLabel := List.mem_singleton.mp hl'
    exact h.endFresh (hend ▸ hl)
  have hmissing : ∀ b ∈ wholeBody implicitNone endLabel blocks,
    b ∉ moveEntryBlockToFront blocks entry →
      b = endBlock implicitNone endLabel := by
    intro b hb hnot
    rcases List.mem_append.mp hb with hb | hb
    · exact absurd (hperm.mem_iff.mpr hb) hnot
    · exact List.mem_singleton.mp hb
  unfold withEnd
  by_cases hneeds : (entry = endLabel || (moveEntryBlockToFront blocks entry).any
      (blockReferencesLabel · endLabel)) = true
  · rw [if_pos hneeds]
    have hperm' : (moveEntryBlockToFront blocks entry ++ [endBlock implicitNone endLabel]).Perm
        (wholeBody implicitNone endLabel blocks) := hperm.append_right _
    have hlabels' : (labels (moveEntryBlockToFront blocks entry ++
        [endBlock implicitNone endLabel])).Perm
        (labels (wholeBody implicitNone endLabel blocks)) := hperm'.map _
    refine ⟨hlabels'.nodup_iff.mpr hwhole, hperm'.subset, hwhole, ?_, ?_, ?_⟩
    · rcases h.entry with hentry | ⟨rfl, rfl⟩
      · obtain ⟨b, hb, hlabel⟩ := moveEntryBlockToFront_head hentry
        exact ⟨b, by rw [List.head?_append, hb]; rfl, hlabel⟩
      · exact ⟨endBlock implicitNone entry, rfl, rfl⟩
    · intro b hb l hl
      rw [hlabels'.mem_iff]
      unfold wholeBody
      rw [labels_append]
      rcases List.mem_append.mp hb with hb | hb
      · rcases h.closed b (hperm.mem_iff.mp hb) l hl with hl | rfl
        · exact List.mem_append_left _ hl
        · exact List.mem_append_right _ (List.mem_singleton_self _)
      · obtain rfl := List.mem_singleton.mp hb
        rw [endBlock_mentions] at hl
        cases hl
    · exact fun b hb hnot => absurd (hperm'.mem_iff.mpr hb) hnot
  · rw [if_neg hneeds]
    rw [Bool.or_eq_true, not_or] at hneeds
    have hne : entry ≠ endLabel := fun heq => hneeds.1 (decide_eq_true heq)
    have hentry : entry ∈ labels blocks := h.entry.resolve_right fun heq => hne heq.1
    refine ⟨hlabels.nodup_iff.mpr h.nodup, ?_, hwhole, moveEntryBlockToFront_head hentry, ?_, ?_⟩
    · exact fun b hb => List.mem_append_left _ (hperm.mem_iff.mp hb)
    · intro b hb l hl
      rw [hlabels.mem_iff]
      refine (h.closed b (hperm.mem_iff.mp hb) l hl).resolve_right ?_
      rintro rfl
      exact hneeds.2 (List.any_eq_true.mpr ⟨b, hb, decide_eq_true hl⟩)
    · intro b hb hnot
      rw [hmissing b hb hnot]
      exact ⟨rfl, rfl, rfl⟩

end Whole

/-! ## Folding -/

section Fold

variable {isNone : I → Bool} {entry : BlockLabel} {whole blocks : List (StructuredBlock I)}
  {b : StructuredBlock I}

theorem lookup_trivialRetNoneTerms (hnodup : (labels blocks).Nodup) {label : BlockLabel}
    {term : BlockTerm I} : (trivialRetNoneTerms isNone blocks).lookup label = some term ↔
      ∃ b ∈ blocks, b.label = label ∧ trivialReturn isNone b = some term := by
  have hsub : ∀ blocks : List (StructuredBlock I), ((blocks.filterMap fun b =>
      (trivialReturn isNone b).map fun term => (b.label, term)).map Prod.fst).Sublist
        (labels blocks) := by
    intro blocks
    induction blocks with
    | nil => exact .slnil
    | cons b blocks ih =>
      rw [List.filterMap_cons]
      cases trivialReturn isNone b with
      | none => exact .cons _ ih
      | some term => exact .cons_cons _ ih
  have hkeys : ((trivialRetNoneTerms isNone blocks).map Prod.fst).Nodup := by
    unfold trivialRetNoneTerms
    rw [List.map_reverse, List.nodup_reverse]
    exact (hsub blocks).nodup hnodup
  rw [lookup_eq_some hkeys]
  unfold trivialRetNoneTerms
  rw [List.mem_reverse, List.mem_filterMap]
  refine exists_congr fun b => and_congr_right fun _ => ?_
  rw [Option.map_eq_some_iff]
  constructor
  · rintro ⟨term', hterm, heq⟩
    obtain ⟨rfl, rfl⟩ := Prod.mk.inj heq
    exact ⟨rfl, hterm⟩
  · rintro ⟨rfl, hterm⟩
    exact ⟨term, hterm, rfl⟩

/-- A block changes only if its jump leads to a block that returns the implicit `None`. -/
theorem foldBlock_cases (terms : List (BlockLabel × BlockTerm I)) (b : StructuredBlock I) :
    (foldBlock terms b = b ∧ ∀ edge, b.term = .jump edge → terms.lookup edge.target = none) ∨
      ∃ edge term, b.term = .jump edge ∧ terms.lookup edge.target = some term ∧
        foldBlock terms b = { b with term } := by
  rw [foldBlock]
  cases hterm : b.term with
  | jump edge =>
    cases hlookup : terms.lookup edge.target with
    | none =>
      refine .inl ⟨by simp only [hlookup], fun edge' h => ?_⟩
      cases h
      exact hlookup
    | some term => exact .inr ⟨edge, term, rfl, hlookup, by simp only [hlookup]⟩
  | ifTerm test t e => exact .inl ⟨rfl, fun edge h => by cases h⟩
  | branchTable i ts d => exact .inl ⟨rfl, fun edge h => by cases h⟩
  | raiseTerm exc => exact .inl ⟨rfl, fun edge h => by cases h⟩
  | ret v => exact .inl ⟨rfl, fun edge h => by cases h⟩

section FoldBlock

variable (terms : List (BlockLabel × BlockTerm I)) (b : StructuredBlock I)

@[simp] theorem foldBlock_label : (foldBlock terms b).label = b.label := by
  rcases foldBlock_cases terms b with ⟨h, -⟩ | ⟨edge, term, -, -, h⟩
  · rw [h]
  · rw [h]

@[simp] theorem foldBlock_body : (foldBlock terms b).body = b.body := by
  rcases foldBlock_cases terms b with ⟨h, -⟩ | ⟨edge, term, -, -, h⟩
  · rw [h]
  · rw [h]

@[simp] theorem foldBlock_params : (foldBlock terms b).params = b.params := by
  rcases foldBlock_cases terms b with ⟨h, -⟩ | ⟨edge, term, -, -, h⟩
  · rw [h]
  · rw [h]

@[simp] theorem foldBlock_excEdge : (foldBlock terms b).excEdge = b.excEdge := by
  rcases foldBlock_cases terms b with ⟨h, -⟩ | ⟨edge, term, -, -, h⟩
  · rw [h]
  · rw [h]

end FoldBlock

theorem trivialReturn_eq_some {term : BlockTerm I} :
    trivialReturn isNone b = some term ↔
      b.body = [] ∧ ∃ e, b.term = .ret e ∧ isNone e = true ∧ term = .ret e := by
  rw [trivialReturn]
  constructor
  · intro h
    split at h
    · rename_i e hbody hterm
      by_cases hnone : isNone e = true
      · rw [if_pos hnone] at h
        exact ⟨hbody, e, hterm, hnone, (Option.some.inj h).symm⟩
      · rw [if_neg hnone] at h
        cases h
    · cases h
  · rintro ⟨hbody, e, hterm, hnone, rfl⟩
    rw [hbody, hterm]
    exact if_pos hnone

end Fold

/-! ## What is kept -/

section Kept

variable {isNone : I → Bool} {entry : BlockLabel} {whole blocks : List (StructuredBlock I)}
  (h : EntryFirst entry whole blocks)

include h

theorem EntryFirst.blockAt {label : BlockLabel} {b : StructuredBlock I}
    (hb : DietPython.Blocks.blockAt blocks label = some b) :
    DietPython.Blocks.blockAt whole label = some b :=
  (blockAt_eq_some h.wholeNodup).mpr ⟨h.sub (mem_of_blockAt hb), label_of_blockAt hb⟩

/-- The terminator of a folded block leads where that of the block does, unless it is folded. -/
theorem folded_labels {label : BlockLabel} {b : StructuredBlock I} (hb : b ∈ blocks)
    (l : BlockLabel) (hlabel : b.label = label) :
    l ∈ (foldBlock (trivialRetNoneTerms isNone blocks) b).term.labels ↔
      TermLeads isNone whole label l := by
  have hat : DietPython.Blocks.blockAt whole label = some b :=
    h.blockAt ((blockAt_eq_some h.nodup).mpr ⟨hb, hlabel⟩)
  have hleads : TermLeads isNone whole label l ↔ l ∈ b.term.labels ∧ ∀ edge c, b.term = .jump edge →
      DietPython.Blocks.blockAt whole edge.target = some c → trivialReturn isNone c = none := by
    constructor
    · rintro ⟨b', hb', hl, htrivial⟩
      obtain rfl := Option.some.inj (hat.symm.trans hb')
      exact ⟨hl, htrivial⟩
    · exact fun hl => ⟨b, hat, hl⟩
  rw [hleads]
  rcases foldBlock_cases (trivialRetNoneTerms isNone blocks) b with ⟨heq, hnone⟩ |
    ⟨edge, term, hterm, hlookup, heq⟩
  · rw [heq]
    refine ⟨fun hl => ⟨hl, fun edge c hjump hc => ?_⟩, And.left⟩
    -- the target of the jump is one of the blocks
    have hmem : edge.target ∈ labels blocks := by
      refine h.closed b hb edge.target ?_
      unfold Block.mentions
      rw [hjump]
      exact List.mem_append_left _ (List.mem_append_right _ (List.mem_singleton_self _))
    obtain ⟨c', hc'⟩ := Option.isSome_iff_exists.mp (blockAt_isSome.mpr hmem)
    obtain rfl := Option.some.inj ((h.blockAt hc').symm.trans hc)
    cases htrivial : trivialReturn isNone c' with
    | none => rfl
    | some term =>
      have hsome := (lookup_trivialRetNoneTerms h.nodup).mpr
        ⟨c', mem_of_blockAt hc', label_of_blockAt hc', htrivial⟩
      rw [hnone edge hjump] at hsome
      cases hsome
  · rw [heq]
    obtain ⟨c, hc, hclabel, htrivial⟩ := (lookup_trivialRetNoneTerms h.nodup).mp hlookup
    obtain ⟨-, e, -, -, rfl⟩ := trivialReturn_eq_some.mp htrivial
    constructor
    · intro hl
      cases hl
    · rintro ⟨-, hnone⟩
      have hcat := h.blockAt ((blockAt_eq_some h.nodup).mpr ⟨hc, hclabel⟩)
      rw [hnone edge c hterm hcat] at htrivial
      cases htrivial

/-- Where the search goes on from a label. -/
theorem follows_iff (a l : BlockLabel) :
    l ∈ successorsAt (foldJumpsToTrivialNoneReturn isNone blocks) a ↔
      TermLeads isNone whole a l := by
  have hlabels : labels (foldJumpsToTrivialNoneReturn isNone blocks) = labels blocks :=
    labels_map (foldBlock_label _) blocks
  rw [successorsAt, blockAt_reverse (hlabels ▸ h.nodup)]
  unfold foldJumpsToTrivialNoneReturn
  rw [blockAt_map (foldBlock_label _)]
  cases hb : DietPython.Blocks.blockAt blocks a with
  | some b =>
    rw [Option.map_some]
    exact folded_labels h (mem_of_blockAt hb) l (label_of_blockAt hb)
  | none =>
    rw [Option.map_none]
    refine ⟨fun hl => absurd hl List.not_mem_nil, ?_⟩
    rintro ⟨b, hb', hl, -⟩
    have hnot : b ∉ blocks := by
      intro hmem
      refine blockAt_eq_none.mp hb ?_
      exact List.mem_map.mpr ⟨b, hmem, label_of_blockAt hb'⟩
    rw [(h.missing b (mem_of_blockAt hb') hnot).2.1] at hl
    cases hl

theorem mem_exceptionTargets (l : BlockLabel) :
    l ∈ exceptionTargets (foldJumpsToTrivialNoneReturn isNone blocks) ↔
      ∃ b ∈ whole, ∃ edge, b.excEdge = some edge ∧ edge.target = l := by
  unfold exceptionTargets foldJumpsToTrivialNoneReturn
  rw [List.filterMap_map, List.mem_filterMap]
  constructor
  · rintro ⟨b, hb, hl⟩
    rw [Function.comp_apply, foldBlock_excEdge, Option.map_eq_some_iff] at hl
    exact ⟨b, h.sub hb, hl⟩
  · rintro ⟨b, hb, edge, hedge, rfl⟩
    refine ⟨b, ?_, ?_⟩
    · by_contra hnot
      rw [(h.missing b hb hnot).2.2] at hedge
      cases hedge
    · rw [Function.comp_apply, foldBlock_excEdge, hedge]
      rfl

theorem reachable_iff (l : BlockLabel) : Reachable isNone whole entry l ↔
    ∃ a ∈ (entry :: exceptionTargets (foldJumpsToTrivialNoneReturn isNone blocks)).reverse,
      ReflTransGen (Follows (successorsAt (foldJumpsToTrivialNoneReturn isNone blocks))) a l := by
  constructor
  · intro hl
    induction hl with
    | entry => exact ⟨entry, List.mem_reverse.mpr List.mem_cons_self, .refl⟩
    | @handler b edge hb hedge =>
      refine ⟨edge.target, List.mem_reverse.mpr (List.mem_cons_of_mem _ ?_), .refl⟩
      exact (mem_exceptionTargets h _).mpr ⟨b, hb, edge, hedge, rfl⟩
    | next ha hl ih =>
      obtain ⟨a, ha, hpath⟩ := ih
      exact ⟨a, ha, .tail hpath ((follows_iff h _ _).mpr hl)⟩
  · rintro ⟨a, ha, hpath⟩
    induction hpath with
    | refl =>
      rcases List.mem_cons.mp (List.mem_reverse.mp ha) with rfl | ha
      · exact .entry
      · obtain ⟨b, hb, edge, hedge, rfl⟩ := (mem_exceptionTargets h _).mp ha
        exact .handler hb hedge
    | tail _ hl ih => exact .next ih ((follows_iff h _ _).mp hl)

/-- The search ends, and keeps the blocks that are reachable. -/
theorem prune_eq (isNone : I → Bool) : ∃ found : List BlockLabel,
    (∀ l, l ∈ found ↔ Reachable isNone whole entry l) ∧
      pruneUnreachable entry (exceptionTargets (foldJumpsToTrivialNoneReturn isNone blocks))
          (foldJumpsToTrivialNoneReturn isNone blocks) =
        some ((foldJumpsToTrivialNoneReturn isNone blocks).filter (·.label ∈ found)) := by
  have hlabels : labels (foldJumpsToTrivialNoneReturn isNone blocks) = labels blocks :=
    labels_map (foldBlock_label _) blocks
  have hnodes : ∀ a, a ∉ labels (foldJumpsToTrivialNoneReturn isNone blocks) →
      successorsAt (foldJumpsToTrivialNoneReturn isNone blocks) a = [] := by
    intro a ha
    rw [successorsAt, blockAt_reverse (hlabels ▸ h.nodup), blockAt_eq_none.mpr ha]
  obtain ⟨found, hfound, hmem⟩ := search_reaches hnodes
    (entry :: exceptionTargets (foldJumpsToTrivialNoneReturn isNone blocks)).reverse
  refine ⟨found, fun l => (hmem l).trans (reachable_iff h l).symm, ?_⟩
  unfold pruneUnreachable
  simp only [hfound, Option.map_some]

theorem reachable_label {l : BlockLabel} (hl : Reachable isNone whole entry l) :
    l ∈ labels blocks := by
  have hmention : ∀ b ∈ whole, ∀ l, l ∈ b.term.labels ∨
    l ∈ (b.excEdge.map BlockEdge.target).toList →
      l ∈ labels blocks := by
    intro b hb l hl
    by_cases hmem : b ∈ blocks
    · refine h.closed b hmem l ?_
      unfold Block.mentions
      rcases hl with hl | hl
      · exact List.mem_append_left _ (List.mem_append_right _ hl)
      · exact List.mem_append_right _ hl
    · obtain ⟨-, hterm, hexc⟩ := h.missing b hb hmem
      rw [hterm, hexc] at hl
      simp at hl
  induction hl with
  | entry =>
    obtain ⟨b, hb, hlabel⟩ := h.head
    exact List.mem_map.mpr ⟨b, List.mem_of_mem_head? hb, hlabel⟩
  | @handler b edge hb hedge =>
    refine hmention b hb edge.target (.inr ?_)
    rw [hedge]
    exact List.mem_singleton_self _
  | next ha hl ih =>
    obtain ⟨b, hb, hl, -⟩ := hl
    exact hmention b (mem_of_blockAt hb) _ (.inl hl)

end Kept

end DietPython.Blocks
