import DietPython.Blocks.FinalizeRuns
import DietPython.Blocks.Relabel

/-!
# Finished callables keep their behaviour

Folding and pruning keep the runs and leave no label without its block exactly when the jumps in
nested fragments lead to blocks that are reached in another way: the search does not look into
bodies. The lowering has no jumps in fragments, so its blocks keep their behaviour. Dense labels
change nothing.
-/

namespace DietPython.Blocks

open Machines Machine Meaning

variable {I V W H : Type} {isNone : I → Bool} {implicitNone : I} {entry endLabel : BlockLabel}
  {blocks : List (StructuredBlock I)}

/-- What the kept blocks should be. -/
structure FinishKeeps (isNone : I → Bool) (entry : BlockLabel)
    (whole kept : List (StructuredBlock I)) : Prop where
  entryFirst : ∃ b, kept.head? = some b ∧ b.label = entry
  denotes : ∀ b ∈ kept, ∀ l ∈ b.mentions, ∃! c, c ∈ kept ∧ c.label = l
  runs : ∀ (V W H : Type) (m : NoneMeaning isNone V W H), ∃ b b',
    blockAt whole entry = some b ∧ blockAt kept entry = some b' ∧ m.SameBehaviour whole kept b b'

/-- The jumps in the fragments of blocks that are reached lead to blocks that are reached. -/
def NestedReached (isNone : I → Bool) (entry : BlockLabel) (whole : List (StructuredBlock I)) :
    Prop :=
  ∀ b ∈ whole, Reachable isNone whole entry b.label →
    ∀ l ∈ nestedLabels b.body, Reachable isNone whole entry l

section Keeps

variable {whole kept : List (StructuredBlock I)} {found : List BlockLabel}

/-- The folded blocks with the labels that the search has found. -/
def keptBlocks (isNone : I → Bool) (blocks : List (StructuredBlock I)) (found : List BlockLabel) :
    List (StructuredBlock I) :=
  (foldJumpsToTrivialNoneReturn isNone blocks).filter (·.label ∈ found)

theorem mem_keptBlocks {b' : StructuredBlock I} : b' ∈ keptBlocks isNone blocks found ↔
    ∃ b ∈ blocks, b.label ∈ found ∧ foldBlock (trivialRetNoneTerms isNone blocks) b = b' := by
  unfold keptBlocks foldJumpsToTrivialNoneReturn
  rw [List.mem_filter, List.mem_map]
  constructor
  · rintro ⟨⟨b, hb, rfl⟩, hlabel⟩
    have hlabel := of_decide_eq_true hlabel
    rw [foldBlock_label] at hlabel
    exact ⟨b, hb, hlabel, rfl⟩
  · rintro ⟨b, hb, hlabel, rfl⟩
    exact ⟨⟨b, hb, rfl⟩, decide_eq_true (by rw [foldBlock_label]; exact hlabel)⟩

theorem keptBlocks_nodup (hnodup : (labels blocks).Nodup) :
    (labels (keptBlocks isNone blocks found)).Nodup := by
  have hlabels : labels (foldJumpsToTrivialNoneReturn isNone blocks) = labels blocks :=
    labels_map (foldBlock_label _) blocks
  have hfolded : (labels (foldJumpsToTrivialNoneReturn isNone blocks)).Nodup := hlabels ▸ hnodup
  exact hfolded.sublist (List.Sublist.map Block.label List.filter_sublist)

variable (h : EntryFirst entry whole blocks)
  (hfound : ∀ l, l ∈ found ↔ Reachable isNone whole entry l)

include h hfound

/-- What is at a reachable label. -/
theorem blockAt_kept {label : BlockLabel} {b : StructuredBlock I}
    (hb : blockAt blocks label = some b) (hlabel : Reachable isNone whole entry label) :
    blockAt (keptBlocks isNone blocks found) label =
      some (foldBlock (trivialRetNoneTerms isNone blocks) b) := by
  refine (blockAt_eq_some (keptBlocks_nodup h.nodup)).mpr ⟨mem_keptBlocks.mpr ?_, ?_⟩
  · refine ⟨b, mem_of_blockAt hb, (hfound _).mpr ?_, rfl⟩
    rw [label_of_blockAt hb]
    exact hlabel
  · rw [foldBlock_label, label_of_blockAt hb]

theorem foldedInto_kept (hnested : NestedReached isNone entry whole) :
    FoldedInto isNone (trivialRetNoneTerms isNone blocks) whole (keptBlocks isNone blocks found)
      (Reachable isNone whole entry) := by
  refine ⟨fun l hl => ?_, fun l term hlookup => ?_⟩
  · obtain ⟨b, hb⟩ := Option.isSome_iff_exists.mp (blockAt_isSome.mpr (reachable_label h hl))
    refine ⟨b, h.blockAt hb, blockAt_kept h hfound hb hl, fun l' hl' => ?_⟩
    have hmem := h.sub (mem_of_blockAt hb)
    unfold Block.mentions at hl'
    rw [foldBlock_body, foldBlock_excEdge] at hl'
    rcases List.mem_append.mp hl' with hl' | hl'
    · rcases List.mem_append.mp hl' with hl' | hl'
      · exact hnested b hmem (label_of_blockAt hb ▸ hl) l' hl'
      · exact .next hl ((folded_labels h (mem_of_blockAt hb) l' (label_of_blockAt hb)).mp hl')
    · rw [Option.mem_toList, Option.map_eq_some_iff] at hl'
      obtain ⟨edge, hedge, rfl⟩ := hl'
      exact .handler hmem hedge
  · obtain ⟨b, hb, hlabel, htrivial⟩ := (lookup_trivialRetNoneTerms h.nodup).mp hlookup
    exact ⟨b, h.blockAt ((blockAt_eq_some h.nodup).mpr ⟨hb, hlabel⟩), htrivial⟩

theorem finishKeeps_of_nested (hnested : NestedReached isNone entry whole) :
    FinishKeeps isNone entry whole (keptBlocks isNone blocks found) := by
  have hfold := foldedInto_kept h hfound hnested
  refine ⟨?_, ?_, fun V W H m => sameBehaviour_of_folded m hfold .entry⟩
  · obtain ⟨b, hb, hlabel⟩ := h.head
    refine ⟨foldBlock (trivialRetNoneTerms isNone blocks) b, ?_, by rw [foldBlock_label, hlabel]⟩
    obtain ⟨more, hblocks⟩ : ∃ more, blocks = b :: more := List.head?_eq_some_iff.mp hb
    unfold keptBlocks foldJumpsToTrivialNoneReturn
    generalize trivialRetNoneTerms isNone blocks = terms
    rw [hblocks, List.map_cons, List.filter_cons_of_pos]
    · rfl
    · rw [foldBlock_label, hlabel]
      exact decide_eq_true ((hfound entry).mpr .entry)
  · intro b' hb' l hl
    obtain ⟨b, hb, hlabel, rfl⟩ := mem_keptBlocks.mp hb'
    have hat := (blockAt_eq_some h.nodup).mpr ⟨hb, rfl⟩
    obtain ⟨b₂, hb₂, -, hmentions⟩ := hfold.block b.label ((hfound _).mp hlabel)
    obtain rfl := Option.some.inj ((h.blockAt hat).symm.trans hb₂)
    have hreach := hmentions l hl
    obtain ⟨c, hc⟩ := Option.isSome_iff_exists.mp (blockAt_isSome.mpr (reachable_label h hreach))
    have hkept := blockAt_kept h hfound hc hreach
    refine ⟨_, ⟨mem_of_blockAt hkept, label_of_blockAt hkept⟩, ?_⟩
    rintro c' ⟨hc', hlabel'⟩
    have hc'at := (blockAt_eq_some (keptBlocks_nodup h.nodup)).mpr ⟨hc', hlabel'⟩
    exact (Option.some.inj (hkept.symm.trans hc'at)).symm

theorem nested_of_finishKeeps
    (hkeeps : FinishKeeps isNone entry whole (keptBlocks isNone blocks found)) :
    NestedReached isNone entry whole := by
  intro b hb hreach l hl
  by_cases hmem : b ∈ blocks
  · have hkept : foldBlock (trivialRetNoneTerms isNone blocks) b ∈
        keptBlocks isNone blocks found :=
      mem_keptBlocks.mpr ⟨b, hmem, (hfound _).mpr hreach, rfl⟩
    have hmention : l ∈ (foldBlock (trivialRetNoneTerms isNone blocks) b).mentions := by
      unfold Block.mentions
      rw [foldBlock_body]
      exact List.mem_append_left _ (List.mem_append_left _ hl)
    obtain ⟨c, ⟨hc, rfl⟩, -⟩ := hkeeps.denotes _ hkept l hmention
    obtain ⟨c, -, hlabel, rfl⟩ := mem_keptBlocks.mp hc
    rw [foldBlock_label]
    exact (hfound _).mp hlabel
  · rw [(h.missing b hb hmem).1, nestedLabels] at hl
    cases hl

end Keeps

/-- **Finished callables.** -/
theorem finishBlocks_iff (h : FunctionBlocks entry endLabel blocks) :
    ((∃ kept, finishBlocks isNone implicitNone entry endLabel blocks = some kept ∧
        FinishKeeps isNone entry (wholeBody implicitNone endLabel blocks) kept) ↔
      NestedReached isNone entry (wholeBody implicitNone endLabel blocks)) ∧
    ∀ bb : List (Block I I), ClosedLabels bb →
      ∃ f, relabelBlocksDense bb = some (bb.map (Block.mapLabels f)) ∧ Relabels f bb := by
  refine ⟨?_, fun bb hbb => relabelBlocksDense_spec hbb⟩
  have hfirst := withEnd_entryFirst h implicitNone
  obtain ⟨found, hfound, hprune⟩ := prune_eq hfirst isNone
  have hfinish : finishBlocks isNone implicitNone entry endLabel blocks =
      some (keptBlocks isNone (withEnd implicitNone entry endLabel blocks) found) := hprune
  rw [hfinish]
  constructor
  · rintro ⟨kept, heq, hkeeps⟩
    cases heq
    exact nested_of_finishKeeps hfirst hfound hkeeps
  · exact fun hnested => ⟨_, rfl, finishKeeps_of_nested hfirst hfound hnested⟩

/-! ## Fragments without jumps -/

/-- Without jumps in fragments every fragment is out of the way. -/
theorem nestedReached_of_flat (hflat : ∀ b ∈ blocks, nestedLabels b.body = []) :
    NestedReached isNone entry (wholeBody implicitNone endLabel blocks) := by
  intro b hb _ l hl
  rcases List.mem_append.mp hb with hb | hb
  · rw [hflat b hb] at hl
    cases hl
  · have hend : nestedLabels (endBlock implicitNone endLabel).body = [] := by
      rw [endBlock, nestedLabels]
    rw [List.mem_singleton.mp hb, hend] at hl
    cases hl

/-- **The blocks of a callable** keep their runs, their labels and their entry when they are
finished, as the lowering has no jumps in fragments. -/
theorem finishBlocks_keeps (h : FunctionBlocks entry endLabel blocks)
    (hflat : ∀ b ∈ blocks, nestedLabels b.body = []) :
    (∃ kept, finishBlocks isNone implicitNone entry endLabel blocks = some kept ∧
        FinishKeeps isNone entry (wholeBody implicitNone endLabel blocks) kept) ∧
      ∀ bb : List (Block I I), ClosedLabels bb →
        ∃ f, relabelBlocksDense bb = some (bb.map (Block.mapLabels f)) ∧ Relabels f bb := by
  obtain ⟨hkeeps, hrelabels⟩ := finishBlocks_iff h
  exact ⟨hkeeps.mpr (nestedReached_of_flat hflat), hrelabels⟩

/-! ## A body with a cycle of empty blocks -/

/-- A test between two empty blocks that jump to each other and a jump to the end, with a handler
and a block that nothing leads to. -/
def emptyCycle : List (StructuredBlock ℕ) :=
  [⟨0, [.expr 1], .ifTerm 1 1 3, [], some (BlockEdge.new 4)⟩,
    ⟨1, [], .jump (BlockEdge.new 2), [], none⟩, ⟨2, [], .jump (BlockEdge.new 1), [], none⟩,
    ⟨3, [.expr 2], .jump (BlockEdge.new 7), [], none⟩, ⟨4, [], .ret 5, [], none⟩,
    ⟨6, [], .jump (BlockEdge.new 1), [], none⟩]

theorem emptyCycle_mentions : ∀ b ∈ emptyCycle,
    nestedLabels b.body = [] ∧ ∀ l ∈ b.mentions, l ∈ labels emptyCycle ∨ l = 7 := by
  simp [emptyCycle, nestedLabels, Block.mentions, BlockTerm.labels, BlockTerm.targets?,
    BlockEdge.new, labels]
  rintro l ((rfl | rfl) | rfl) <;> decide

theorem emptyCycle_blocks : FunctionBlocks 0 7 emptyCycle where
  nodup := by decide
  endFresh := by decide
  closed := fun b hb => (emptyCycle_mentions b hb).2
  entry := .inl (by decide)

theorem finishBlocks_keeps_emptyCycle :
    (∃ kept, finishBlocks (· == 0) 0 0 7 emptyCycle = some kept ∧
        FinishKeeps (· == 0) 0 (wholeBody 0 7 emptyCycle) kept) ∧
      ∀ bb : List (Block ℕ ℕ), ClosedLabels bb →
        ∃ f, relabelBlocksDense bb = some (bb.map (Block.mapLabels f)) ∧ Relabels f bb :=
  finishBlocks_keeps emptyCycle_blocks fun b hb => (emptyCycle_mentions b hb).1

end DietPython.Blocks
