import DietPython.Blocks.Structured

/-!
# Dense labels

The last pass numbers the blocks by their positions. Every label that a block mentions must be that
of a block.
-/

namespace DietPython.Blocks

open Machines Machine Meaning

variable {I V W H S : Type}

/-- The index of the block with a label; the last one counts. -/
def denseLabels (blocks : List (Block S I)) : List (BlockLabel × BlockLabel) :=
  ((labels blocks).zip (List.range blocks.length)).reverse

/-- `relabel_targets` -/
def BlockTerm.relabelTargets (relabel : List (BlockLabel × BlockLabel)) :
    BlockTerm I → Option (BlockTerm I)
  | .jump edge => (relabel.lookup edge.target).map fun target => .jump { edge with target }
  | .ifTerm test thenLabel elseLabel => do
    let thenLabel ← relabel.lookup thenLabel
    let elseLabel ← relabel.lookup elseLabel
    some (.ifTerm test thenLabel elseLabel)
  | .branchTable index targets defaultLabel => do
    let targets ← targets.mapM fun target => relabel.lookup target
    let defaultLabel ← relabel.lookup defaultLabel
    some (.branchTable index targets defaultLabel)
  | .raiseTerm exc => some (.raiseTerm exc)
  | .ret value => some (.ret value)

def relabelEdge (relabel : List (BlockLabel × BlockLabel)) :
    Option BlockEdge → Option (Option BlockEdge)
  | some edge => (relabel.lookup edge.target).map fun target => some { edge with target }
  | none => some none

def relabelBlock (relabel : List (BlockLabel × BlockLabel)) (b : Block S I) :
    Option (Block S I) := do
  let label ← relabel.lookup b.label
  let term ← b.term.relabelTargets relabel
  let excEdge ← relabelEdge relabel b.excEdge
  some { b with label, term, excEdge }

/-- `relabel_blockpy_blocks_dense`: none when a label is not covered. -/
def relabelBlocksDense (blocks : List (Block S I)) : Option (List (Block S I)) :=
  blocks.mapM (relabelBlock (denseLabels blocks))

/-! ## The new labels -/

def BlockEdge.mapLabel (f : BlockLabel → BlockLabel) (edge : BlockEdge) : BlockEdge :=
  { edge with target := f edge.target }

/-- A block with other labels. -/
def Block.mapLabels (f : BlockLabel → BlockLabel) (b : Block S I) : Block S I :=
  { b with
    label := f b.label
    term := b.term.mapLabels f
    excEdge := b.excEdge.map (BlockEdge.mapLabel f) }

/-- The labels that control may go to from a block. -/
def Block.targets (b : Block S I) : List BlockLabel :=
  b.term.labels ++ (b.excEdge.map BlockEdge.target).toList

/-- A label denotes one block. -/
structure ClosedLabels (blocks : List (Block S I)) : Prop where
  nodup : (labels blocks).Nodup
  closed : ∀ b ∈ blocks, ∀ l ∈ b.targets, l ∈ labels blocks

def denseLabel (blocks : List (Block S I)) (l : BlockLabel) : BlockLabel :=
  ((denseLabels blocks).lookup l).getD l

section Dense

variable {blocks : List (Block S I)}

theorem denseLabels_lookup (hnodup : (labels blocks).Nodup) {l : BlockLabel} {i : ℕ} :
    (denseLabels blocks).lookup l = some i ↔ (labels blocks)[i]? = some l := by
  have hkeys : ((denseLabels blocks).map Prod.fst).Nodup := by
    unfold denseLabels
    rw [List.map_reverse, List.nodup_reverse, List.map_fst_zip (by simp [labels])]
    exact hnodup
  rw [lookup_eq_some hkeys]
  unfold denseLabels
  rw [List.mem_reverse, List.mem_iff_getElem?]
  constructor
  · rintro ⟨j, hj⟩
    rw [List.getElem?_zip_eq_some] at hj
    obtain ⟨hl, hi⟩ := hj
    obtain ⟨hlt, heq⟩ := List.getElem?_eq_some_iff.mp hi
    rw [List.getElem_range] at heq
    obtain rfl : j = i := heq
    exact hl
  · intro hl
    refine ⟨i, ?_⟩
    rw [List.getElem?_zip_eq_some]
    refine ⟨hl, ?_⟩
    have hi : i < blocks.length := by
      have hlt := (List.getElem?_eq_some_iff.mp hl).1
      unfold labels at hlt
      rwa [List.length_map] at hlt
    rw [List.getElem?_range hi]

theorem denseLabels_isSome (hnodup : (labels blocks).Nodup) {l : BlockLabel}
    (hl : l ∈ labels blocks) : (denseLabels blocks).lookup l = some (denseLabel blocks l) := by
  obtain ⟨i, hi⟩ := List.mem_iff_getElem?.mp hl
  have hlookup := (denseLabels_lookup hnodup).mpr hi
  unfold denseLabel
  rw [hlookup]
  rfl

/-- The new labels are the positions. -/
theorem map_denseLabel (hnodup : (labels blocks).Nodup) :
    (labels blocks).map (denseLabel blocks) = List.range blocks.length := by
  refine List.ext_getElem? fun i => ?_
  rw [List.getElem?_map]
  cases hl : (labels blocks)[i]? with
  | some l =>
    have hi := (denseLabels_lookup hnodup).mpr hl
    have hlt : i < blocks.length := by
      have hlt := (List.getElem?_eq_some_iff.mp hl).1
      unfold labels at hlt
      rwa [List.length_map] at hlt
    rw [Option.map_some, List.getElem?_range hlt]
    unfold denseLabel
    rw [hi]
    rfl
  | none =>
    have hle : blocks.length ≤ i := by
      have hle := List.getElem?_eq_none_iff.mp hl
      unfold labels at hle
      rwa [List.length_map] at hle
    rw [Option.map_none, List.getElem?_eq_none (by rw [List.length_range]; exact hle)]

end Dense

section Relabelled

variable {blocks : List (Block S I)} (h : ClosedLabels blocks)

include h

theorem relabelTargets_eq (term : BlockTerm I) (hterm : ∀ l ∈ term.labels, l ∈ labels blocks) :
    term.relabelTargets (denseLabels blocks) = some (term.mapLabels (denseLabel blocks)) := by
  cases term with
  | jump edge =>
    rw [BlockTerm.relabelTargets, denseLabels_isSome h.nodup (hterm _ (List.mem_singleton_self _))]
    rfl
  | ifTerm test thenLabel elseLabel =>
    rw [BlockTerm.relabelTargets, denseLabels_isSome h.nodup (hterm thenLabel List.mem_cons_self),
      denseLabels_isSome h.nodup (hterm elseLabel (List.mem_cons_of_mem _ List.mem_cons_self))]
    rfl
  | branchTable index targets defaultLabel =>
    have htargets : ∀ targets : List BlockLabel, (∀ l ∈ targets, l ∈ labels blocks) →
        targets.mapM (fun target => (denseLabels blocks).lookup target) =
          some (targets.map (denseLabel blocks)) := by
      intro targets
      induction targets with
      | nil => exact fun _ => rfl
      | cons target targets ih =>
        intro hmem
        rw [List.mapM_cons, denseLabels_isSome h.nodup (hmem target List.mem_cons_self),
          ih fun l hl => hmem l (List.mem_cons_of_mem _ hl)]
        rfl
    rw [BlockTerm.relabelTargets, htargets targets fun l hl => hterm l (List.mem_append_left _ hl),
      denseLabels_isSome h.nodup (hterm defaultLabel
        (List.mem_append_right _ (List.mem_singleton_self _)))]
    rfl
  | raiseTerm exc => rfl
  | ret value => rfl

/-- No label is missing, so the pass does not fail. -/
theorem relabelBlocksDense_eq :
    relabelBlocksDense blocks = some (blocks.map (Block.mapLabels (denseLabel blocks))) := by
  have hall : ∀ more ⊆ blocks, more.mapM (relabelBlock (denseLabels blocks)) =
      some (more.map (Block.mapLabels (denseLabel blocks))) := by
    intro more
    induction more with
    | nil => exact fun _ => rfl
    | cons b more ih =>
      intro hsub
      obtain ⟨hb, hmore⟩ := List.cons_subset.mp hsub
      have hclosed := h.closed b hb
      have hedge : relabelEdge (denseLabels blocks) b.excEdge =
          some (b.excEdge.map (BlockEdge.mapLabel (denseLabel blocks))) := by
        cases hexc : b.excEdge with
        | none => rfl
        | some edge =>
          have hmem : edge.target ∈ labels blocks := by
            refine hclosed _ (List.mem_append_right _ ?_)
            rw [hexc]
            exact List.mem_singleton_self _
          rw [relabelEdge, denseLabels_isSome h.nodup hmem]
          rfl
      have hblock : relabelBlock (denseLabels blocks) b =
          some (b.mapLabels (denseLabel blocks)) := by
        rw [relabelBlock, denseLabels_isSome h.nodup (List.mem_map.mpr ⟨b, hb, rfl⟩),
          relabelTargets_eq h b.term fun l hl => hclosed l (List.mem_append_left _ hl), hedge]
        rfl
      rw [List.mapM_cons, hblock, ih hmore]
      rfl
  exact hall blocks (List.Subset.refl _)

theorem labels_relabelled :
    labels (blocks.map (Block.mapLabels (denseLabel blocks))) = List.range blocks.length := by
  rw [← map_denseLabel h.nodup]
  unfold labels
  rw [List.map_map, List.map_map]
  rfl

/-- A block is found under its new label. -/
theorem blockAt_relabelled {b : Block S I} (hb : b ∈ blocks) :
    blockAt (blocks.map (Block.mapLabels (denseLabel blocks))) (denseLabel blocks b.label) =
      some (b.mapLabels (denseLabel blocks)) := by
  refine (blockAt_eq_some ?_).mpr ⟨List.mem_map.mpr ⟨b, hb, rfl⟩, rfl⟩
  rw [labels_relabelled h]
  exact List.nodup_range

end Relabelled

/-! ## Runs -/

/-- A terminator without labels stays as it is. -/
theorem BlockTerm.mapLabels_of_nil (f : BlockLabel → BlockLabel) {term : BlockTerm I}
    (hterm : term.labels = []) : term.mapLabels f = term := by
  cases term with
  | jump edge => cases hterm
  | ifTerm test thenLabel elseLabel => cases hterm
  | branchTable index targets defaultLabel => simp [BlockTerm.labels, BlockTerm.targets?] at hterm
  | raiseTerm exc => rfl
  | ret value => rfl

/-- The places of two runs that differ in the labels. -/
structure RelabelledPlace (f : BlockLabel → BlockLabel) (K : BlockLabel → Prop) (p q : Place I W) :
    Prop where
  excEdge : q.excEdge = p.excEdge.map (BlockEdge.mapLabel f)
  rest : q.rest = p.rest
  term : q.term = p.term.mapLabels f
  world : q.world = p.world
  log : q.log = p.log
  nested : nestedLabels p.rest = []
  labels : ∀ l ∈ p.labels, K l

section Runs

variable (m : Meaning I V W H) {blocks blocks' : List (StructuredBlock I)}
  {f : BlockLabel → BlockLabel} {K : BlockLabel → Prop}
  (hat : ∀ l, K l → ∃ b, blockAt blocks l = some b ∧ blockAt blocks' (f l) = some (b.mapLabels f) ∧
    nestedLabels b.body = [] ∧ ∀ l' ∈ b.mentions, K l')

def RelabelledMoves (f : BlockLabel → BlockLabel) (K : BlockLabel → Prop)
    (blocks blocks' : List (StructuredBlock I)) (mv mv' : Move I V W H) : Prop :=
  (m.runs blocks').CatchesUp (RelabelledPlace f K) Eq (m.resolve blocks mv) (m.resolve blocks' mv')

theorem relabelledPlace_start {b : StructuredBlock I} (hnested : nestedLabels b.body = [])
    (hlabels : ∀ l ∈ b.mentions, K l) (args : List BlockArg) (exc : Option V) (w : W)
    (log : List (Event I)) :
    RelabelledPlace f K (m.start b args exc w log) (m.start (b.mapLabels f) args exc w log) :=
  ⟨rfl, rfl, rfl, rfl, rfl, hnested, hlabels⟩

include hat

theorem relabelledMoves_enter (edge : BlockEdge) (exc : Option V) (w : W) (log : List (Event I))
    (hedge : K edge.target) : RelabelledMoves m f K blocks blocks' (.enter edge exc w log)
      (.enter (edge.mapLabel f) exc w log) := by
  obtain ⟨b, hb, hb', hnested, hlabels⟩ := hat edge.target hedge
  unfold RelabelledMoves
  rw [m.resolve_enter edge hb, m.resolve_enter (edge.mapLabel f) hb']
  exact CatchesUp.of_rel (relabelledPlace_start m hnested hlabels edge.args exc w log)

theorem relabelledMoves_throw {p q : Place I W} (hpq : RelabelledPlace f K p q) (x : V) (w : W)
    (log : List (Event I)) :
    RelabelledMoves m f K blocks blocks' (m.throw p x w log) (m.throw q x w log) := by
  rw [Meaning.throw, Meaning.throw, hpq.excEdge]
  cases hexc : p.excEdge with
  | none => exact rfl
  | some edge =>
    refine relabelledMoves_enter m hat edge _ w log (hpq.labels _ ?_)
    unfold Place.labels
    rw [hexc]
    exact List.mem_append_right _ (List.mem_singleton_self _)

omit hat in
theorem relabelledPlace_fragment {p q : Place I W} (hpq : RelabelledPlace f K p q)
    {body rest : List (StructuredInstr I)} {bodyTerm : Option (BlockTerm I)}
    (hbody : nestedLabels body ++ (bodyTerm.map BlockTerm.labels).getD [] = [])
    (hrest : nestedLabels rest = []) (w : W) (log : List (Event I)) :
    RelabelledPlace f K (fragment p body bodyTerm rest w log)
      (fragment q body bodyTerm rest w log) := by
  obtain ⟨hnested, hterm⟩ := List.append_eq_nil_iff.mp hbody
  have hlabels : ∀ l ∈ (fragment p body bodyTerm rest w log).labels, K l := by
    intro l hl
    rcases fragment_labels p body bodyTerm rest w log hl with hl | hl
    · rw [hbody] at hl
      cases hl
    · rw [hrest, List.nil_append] at hl
      refine hpq.labels l ?_
      unfold Place.labels
      rw [hpq.nested, List.nil_append]
      exact hl
  refine ⟨hpq.excEdge, rfl, ?_, rfl, rfl, ?_, hlabels⟩
  · cases bodyTerm with
    | none => exact hpq.term
    | some term => exact (BlockTerm.mapLabels_of_nil f hterm).symm
  · show nestedLabels (followed body bodyTerm rest) = []
    cases bodyTerm with
    | none =>
      rw [followed, nestedLabels_append, hnested, hrest]
      rfl
    | some term => exact hnested

/-- **A step.** Both runs make the same step. -/
theorem relabelled_catchesUp {p q : Place I W} (hpq : RelabelledPlace f K p q) :
    (m.runs blocks').CatchesUp (RelabelledPlace f K) Eq ((m.runs blocks).step p)
      ((m.runs blocks').step q) := by
  have hthrow := relabelledMoves_throw m hat hpq
  show RelabelledMoves m f K blocks blocks' (m.move p) (m.move q)
  obtain ⟨excEdge, rest, term, w, log⟩ := p
  obtain ⟨excEdge', rest', term', w', log'⟩ := q
  obtain ⟨hexc, hrest, hterm, hworld, hlog, hnested, hlabels⟩ := id hpq
  cases hrest
  cases hworld
  cases hlog
  cases rest with
  | nil =>
    cases hterm
    refine terminate_rel (C := RelabelledMoves m f K blocks blocks') hthrow rfl rfl f term
      (fun r => rfl) fun edge w log hedge => ?_
    exact relabelledMoves_enter m hat edge none w log
      (hlabels _ (List.mem_append_left _ (List.mem_append_right _ hedge)))
  | cons stmt rest =>
    cases stmt with
    | expr e =>
      refine evaluate_rel (C := RelabelledMoves m f K blocks blocks') hthrow rfl e fun v w => ?_
      refine CatchesUp.of_rel ⟨hexc, rfl, hterm, rfl, rfl, ?_, fun l hl => hlabels l ?_⟩
      · rw [nestedLabels] at hnested
        exact hnested
      · unfold Place.labels
        rw [nestedLabels]
        exact hl
    | ifStmt test body bodyTerm orelse orelseTerm =>
      have hall := hnested
      rw [nestedLabels, List.append_eq_nil_iff, List.append_eq_nil_iff] at hall
      obtain ⟨⟨hbody, horelse⟩, hmore⟩ := hall
      refine branch_rel (C := RelabelledMoves m f K blocks blocks') hthrow rfl test fun b w => ?_
      cases b with
      | true => exact CatchesUp.of_rel (relabelledPlace_fragment hpq hbody hmore w _)
      | false => exact CatchesUp.of_rel (relabelledPlace_fragment hpq horelse hmore w _)

theorem sameBehaviour_of_relabelled {label : BlockLabel} (hlabel : K label) :
    ∃ b, blockAt blocks label = some b ∧ m.SameBehaviour blocks blocks' b (b.mapLabels f) := by
  obtain ⟨b, hb, hb', hnested, hlabels⟩ := hat label hlabel
  have hstep : ∀ p q, RelabelledPlace f K p q → True →
      (m.runs blocks').Answers (RelabelledPlace f K) Eq (fun _ => 0) p q ((m.runs blocks).step p) :=
    fun p q h _ => (relabelled_catchesUp m hat h).answers rfl
  refine ⟨b, hb, ⟨fun args exc w => ?_, fun args exc w l => ?_⟩⟩
  · exact simulates hstep (relabelledPlace_start m hnested hlabels args exc w []) fun _ _ => trivial
  · exact simulates_writes hstep (fun p q h => h.log.symm) (m.runs_appends blocks')
      (relabelledPlace_start m hnested hlabels args exc w []) (fun _ _ => trivial) l

end Runs

/-- The blocks with dense labels: in the same order, numbered, each label that is mentioned denotes
one of them, and all runs do the same. -/
structure Relabels (f : BlockLabel → BlockLabel) (blocks : List (Block I I)) : Prop where
  labels : labels (blocks.map (Block.mapLabels f)) = List.range blocks.length
  denotes : ∀ b ∈ blocks.map (Block.mapLabels f), ∀ l ∈ b.targets,
    ∃! c, c ∈ blocks.map (Block.mapLabels f) ∧ c.label = l
  runs : ∀ (V W H : Type) (m : Meaning I V W H), ∀ b ∈ blocks,
    m.SameBehaviour (blocks.map Block.structured)
      ((blocks.map (Block.mapLabels f)).map Block.structured) b.structured
      (b.mapLabels f).structured

theorem BlockTerm.labels_mapLabels (f : BlockLabel → BlockLabel) (term : BlockTerm I) :
    (term.mapLabels f).labels = term.labels.map f := by
  cases term with
  | branchTable index targets defaultLabel =>
    show targets.map f ++ [f defaultLabel] = (targets ++ [defaultLabel]).map f
    rw [List.map_append]
    rfl
  | _ => rfl

theorem Block.targets_mapLabels (f : BlockLabel → BlockLabel) (b : Block S I) :
    (b.mapLabels f).targets = b.targets.map f := by
  unfold Block.targets
  rw [List.map_append]
  refine congrArg₂ _ (BlockTerm.labels_mapLabels f b.term) ?_
  show ((b.excEdge.map (BlockEdge.mapLabel f)).map BlockEdge.target).toList = _
  cases b.excEdge <;> rfl

theorem nestedLabels_structured (b : Block I I) : nestedLabels b.structured.body = [] := by
  show nestedLabels (b.body.map StructuredInstr.expr) = []
  induction b.body with
  | nil => rw [List.map_nil, nestedLabels]
  | cons e body ih => rw [List.map_cons, nestedLabels, ih]

/-- **Dense labels.** The pass succeeds on every closed list of basic blocks. -/
theorem relabelBlocksDense_spec {blocks : List (Block I I)} (h : ClosedLabels blocks) :
    ∃ f, relabelBlocksDense blocks = some (blocks.map (Block.mapLabels f)) ∧ Relabels f blocks := by
  refine ⟨denseLabel blocks, relabelBlocksDense_eq h, labels_relabelled h, ?_, ?_⟩
  · intro b' hb' l hl
    obtain ⟨b, hb, rfl⟩ := List.mem_map.mp hb'
    rw [Block.targets_mapLabels] at hl
    obtain ⟨l', hl', rfl⟩ := List.mem_map.mp hl
    obtain ⟨c, hc, rfl⟩ := List.mem_map.mp (h.closed b hb l' hl')
    refine ⟨c.mapLabels (denseLabel blocks), ⟨List.mem_map.mpr ⟨c, hc, rfl⟩, rfl⟩, ?_⟩
    rintro c' ⟨hc', hlabel⟩
    have hnodup : (labels (blocks.map (Block.mapLabels (denseLabel blocks)))).Nodup := by
      rw [labels_relabelled h]
      exact List.nodup_range
    have hat := (blockAt_eq_some hnodup).mpr ⟨hc', hlabel⟩
    rw [blockAt_relabelled h hc] at hat
    exact (Option.some.inj hat).symm
  · intro V W H m b hb
    have hlabels : labels (blocks.map Block.structured) = labels blocks :=
      labels_map (f := Block.structured) (fun _ => rfl) blocks
    have hat : ∀ l, l ∈ labels blocks → ∃ b, blockAt (blocks.map Block.structured) l = some b ∧
        blockAt ((blocks.map (Block.mapLabels (denseLabel blocks))).map Block.structured)
          (denseLabel blocks l) = some (b.mapLabels (denseLabel blocks)) ∧
        nestedLabels b.body = [] ∧ ∀ l' ∈ b.mentions, l' ∈ labels blocks := by
      intro l hl
      obtain ⟨c, hc, rfl⟩ := List.mem_map.mp hl
      refine ⟨c.structured, ?_, ?_, nestedLabels_structured c, fun l' hl' => ?_⟩
      · rw [blockAt_map (f := Block.structured) (fun _ => rfl), blockAt_of_mem h.nodup hc]
        rfl
      · rw [blockAt_map (f := Block.structured) (fun _ => rfl), blockAt_relabelled h hc]
        rfl
      · unfold Block.mentions at hl'
        rw [nestedLabels_structured, List.nil_append] at hl'
        exact h.closed c hc l' hl'
    obtain ⟨b', hb', hsame⟩ :=
      sameBehaviour_of_relabelled m hat (List.mem_map.mpr ⟨b, hb, rfl⟩ : b.label ∈ labels blocks)
    have hstructured : blockAt (blocks.map Block.structured) b.label = some b.structured := by
      rw [blockAt_map (f := Block.structured) (fun _ => rfl), blockAt_of_mem h.nodup hb]
      rfl
    obtain rfl := Option.some.inj (hstructured.symm.trans hb')
    exact hsame

end DietPython.Blocks
